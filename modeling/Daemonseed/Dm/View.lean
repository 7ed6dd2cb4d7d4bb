import Daemonseed.Dm.Thread
import Daemonseed.Lib.Lossy
import Daemonseed.Lib.Maps

/-! # The direct-message view

What a front end draws of the direct messages: the requests, the conversations with
their threads and the commands not answered yet, folded from what the runner reports
in the order its reports arrive. -/
namespace Daemonseed.Dm.View
open Daemonseed.Lib.Bytes Daemonseed.Lib.Lossy Daemonseed.Lib.Maps Daemonseed.Dm.Thread
open Daemonseed.Dm.Thread.DmThreadRow

inductive ConversationState
  | pending
  | accepting
  | established
  deriving DecidableEq, Repr

/-- Why a command did not go. -/
inductive Refusal
  | unknownConversation
  | unknownRequest
  | startedOverNotAcceptable
  | ringFull
  | awaitingAcceptance
  | acceptanceUnfinished
  | alreadyEstablished
  | noAdvert
  | dropFull
  | blockListFull
  | store
  | network
  | flow
  | shuttingDown
  | tooLong
  deriving DecidableEq, Repr

/-- One conversation, as the runner has reported it. -/
structure DmCorrespondence (L : Type) where
  label : Option L := none
  state : Option ConversationState := none
  peerCollected : Nat := 0
  deliveredThrough : Option Nat := none
  thread : List DmThreadRow := []
  refusal : Option Refusal := none
  lastActivity : Nat := 0
  handle : Option String := none

/-- The correspondent has collected this side's message `seq`, by the roster's cursor or by a later
report. -/
def DmCorrespondence.delivered {L : Type} (c : DmCorrespondence L) (seq : Nat) : Bool :=
  seq < c.peerCollected || c.deliveredThrough.any (seq ≤ ·)

structure DmContactRequest (I : Type) where
  request : Nat
  sender : I
  startedOver : Bool
  heldAtMs : Int
  preview : List DmThreadRow

/-- A command that is not answered yet. -/
inductive DmOutstanding (I : Type)
  | firstContact (peer : I) (body : String)
  | send (peer : I) (body : String)
  | accept (request : Nat) (sender : I) (reply : String)

namespace DmOutstanding

variable {I : Type}

/-- The text composed for it. -/
def body : DmOutstanding I → String
  | firstContact _ body => body
  | send _ body => body
  | accept _ _ reply => reply

def accepts [DecidableEq I] (sender : I) : DmOutstanding I → Bool
  | accept _ s _ => s = sender
  | _ => false

def isAccept : DmOutstanding I → Bool
  | accept .. => true
  | _ => false

end DmOutstanding

structure ConversationSummary (I L : Type) where
  peer : L
  peerIdentityPk : I
  state : ConversationState
  peerCollected : Nat
  handle : Option String

structure ReceivedMessage where
  sentAtMs : Nat
  body : Octets

inductive RunnerEvent (I L : Type)
  | roster (rows : List (ConversationSummary I L))
  | contactRequest (request : Nat) (sender : I)
  | requestPreview (request : Nat) (messages : List ReceivedMessage) (readAt : Nat)
  | startedOver (request : Nat) (sender : I)
  | message (label : L) (seq : Nat) (body : Octets) (sentAt receivedAt : Nat)
  | sent (token : Nat) (peer : L) (seq sentAt : Nat)
  | deleted (token : Nat) (peer : L)
  | delivered (peer : L) (throughSeq : Nat)
  | accepted (peer : L)
  | refused (token : Option Nat) (reason : Refusal)
  | health
  | advert (published : Bool)
  | blockList (identities : List I)
  | blockListUnreadable

def dmRequestCap : Nat := 256

def dmUnmappedCap : Nat := 256

def u64Max : Nat := 2 ^ 64 - 1

structure DmState (I L : Type) [DecidableEq I] [DecidableEq L] where
  running : Bool := false
  advertUnpublished : Bool := false
  /-- One for each identity, the oldest first. -/
  requests : List (DmContactRequest I) := []
  correspondences : Map I (DmCorrespondence L) := ∅
  labels : Map L I := ∅
  outstanding : Map Nat (DmOutstanding I) := ∅
  blocked : Finset I := ∅
  blockListUnknown : Bool := false
  /-- Asked to be blocked, and neither confirmed nor refused. -/
  blocking : Finset I := ∅
  declined : Finset I := ∅
  lastRefusal : Option Refusal := none
  activitySeq : Nat := 0
  /-- Collected messages of a label that nothing has named yet. -/
  unmapped : List (L × DmThreadRow) := []
  /-- First contacts refused before a roster named their conversation. -/
  refusedFirstContacts : Map I (String × Refusal) := ∅
  lastToken : Nat := 0

/-- What a fold leaves the caller to act on. -/
structure DmFold (I : Type) where
  evictedOldest : Bool := false
  /-- The acceptance that was refused, to be written again. -/
  refusedAccept : Option ((Nat × I × String) × Refusal) := none

/-- A time before the epoch is held at it. -/
def unixMs (nowMs : Int) : Nat := nowMs.toNat

/-- A correspondent's message as a row: a clock ahead of this side's is held at the time the
message was collected. -/
def receivedRow (seq : Nat) (body : Octets) (sentAt receivedAt : Nat) : DmThreadRow :=
  received seq (fromUtf8Lossy body) (min sentAt receivedAt) receivedAt

namespace DmState

variable {I L : Type} [DecidableEq I] [DecidableEq L]

def nextActivity (s : DmState I L) : DmState I L :=
  { s with activitySeq := min (s.activitySeq + 1) u64Max }

/-- A command is recorded under a token that none of this session has carried. -/
def nextToken (s : DmState I L) : DmState I L :=
  { s with lastToken := (s.lastToken + 1) % 2 ^ 64 }

/-- The conversation with `peer`, or an empty one. -/
def entry (s : DmState I L) (peer : I) : DmCorrespondence L := (s.correspondences.lookup peer).getD {}

def withEntry (s : DmState I L) (peer : I) (f : DmCorrespondence L → DmCorrespondence L) :
    DmState I L :=
  { s with correspondences := s.correspondences.insert peer (f (s.entry peer)) }

/-- Changes the conversation with `peer` where there is one. -/
def updateEntry (s : DmState I L) (peer : I) (f : DmCorrespondence L → DmCorrespondence L) :
    DmState I L :=
  if (s.correspondences.lookup peer).isSome then s.withEntry peer f else s

/-! ## Commands -/

inductive FirstContactBlocked
  | existingConversation
  | pendingRequest (request : Nat)
  | inFlight
  deriving DecidableEq, Repr

def contacts (peer : I) : DmOutstanding I → Bool
  | .firstContact p _ => p = peer
  | _ => false

/-- Records a command under a fresh token. -/
def issue (s : DmState I L) (command : DmOutstanding I) : DmState I L × Nat :=
  let s := s.nextToken
  ({ s with outstanding := s.outstanding.insert s.lastToken command }, s.lastToken)

def firstContact (s : DmState I L) (peer : I) (body : String) :
    Except FirstContactBlocked (DmState I L × Nat) :=
  if (s.correspondences.lookup peer).isSome then .error .existingConversation
  else
    match s.requests.find? (·.sender = peer) with
    | some request => .error (.pendingRequest request.request)
    | none =>
      if s.outstanding.values.any (contacts peer) then .error .inFlight
      else .ok (s.issue (.firstContact peer body))

/-- Hides a request for this session. -/
def decline (s : DmState I L) (sender : I) : DmState I L :=
  { s with
    requests := s.requests.filter (·.sender ≠ sender)
    declined := insert sender s.declined }

def block (s : DmState I L) (sender : I) : DmState I L :=
  { s with
    requests := s.requests.filter (·.sender ≠ sender)
    blocking := insert sender s.blocking }

/-- A message that was not answered is marked as not sent. -/
def unsent (s : DmState I L) : DmOutstanding I → DmState I L
  | .firstContact peer _ => s.updateEntry peer ({ · with refusal := some .shuttingDown })
  | .send peer _ => s.updateEntry peer ({ · with refusal := some .shuttingDown })
  | .accept .. => s

/-- The runner stopped; how many messages were not answered. -/
def stop (s : DmState I L) : DmState I L × Nat :=
  let commands := s.outstanding.values
  let stopped :=
    { s with
      running := false
      advertUnpublished := false
      requests := []
      unmapped := []
      refusedFirstContacts := ∅
      blocking := ∅
      outstanding := ∅ }
  (commands.foldl unsent stopped, commands.countP (!·.isAccept))

/-! ## Reports -/

/-- `label` names the conversation with `peer`: the messages held for it go into the thread. -/
def mapLabel (s : DmState I L) (label : L) (peer : I) : DmState I L :=
  let mine := s.unmapped.filter (·.1 = label)
  let s :=
    { s with
      labels := s.labels.insert label peer
      unmapped := s.unmapped.filter (·.1 ≠ label) }
  let s := if mine = [] then s else s.nextActivity
  s.withEntry peer fun entry =>
    { entry with
      label := some label
      lastActivity := if mine = [] then entry.lastActivity else s.activitySeq
      thread := (mine.map Prod.snd).foldl record entry.thread }

/-- Holds a request, one for each identity, and tells whether the oldest was dropped for it. -/
def holdRequest (s : DmState I L) (request : Nat) (sender : I) (startedOver : Bool) (nowMs : Int) :
    DmState I L × Bool :=
  if sender ∈ s.declined ∨ sender ∈ s.blocked ∨ sender ∈ s.blocking then (s, false)
  else
    let accepting := s.outstanding.values.any (·.accepts sender)
    if s.requests.any (·.sender = sender) then
      -- The messages an acceptance in flight replies to stay in view.
      let again (row : DmContactRequest I) : DmContactRequest I :=
        { row with
          request
          startedOver
          preview := if row.request ≠ request ∧ ¬ accepting then [] else row.preview }
      ({ s with requests := s.requests.modify (s.requests.findIdx (·.sender = sender)) again }, false)
    else
      let evicted : Bool := dmRequestCap ≤ s.requests.length
      let held := if evicted then s.requests.drop 1 else s.requests
      ({ s with requests := held ++ [⟨request, sender, startedOver, nowMs, []⟩] }, evicted)

/-- What a roster says of one conversation. -/
def listed (s : DmState I L) (row : ConversationSummary I L) : DmState I L :=
  let changed : Bool :=
    (s.correspondences.lookup row.peerIdentityPk).all (·.state ≠ some row.state)
  let s := if changed then s.nextActivity else s
  let activity := s.activitySeq
  (s.mapLabel row.peer row.peerIdentityPk).withEntry row.peerIdentityPk fun entry =>
    { entry with
      state := some row.state
      peerCollected := row.peerCollected
      handle := row.handle
      lastActivity := if changed then activity else entry.lastActivity }

/-- A refused first contact had sealed its body as message 0 before the conversation was made. -/
def adoptRefused (s : DmState I L) (new : Bool) (peer : I) (nowMs : Int) : DmState I L :=
  match s.refusedFirstContacts.lookup peer with
  | none => s
  | some (body, reason) =>
    let s := { s with refusedFirstContacts := s.refusedFirstContacts.erase peer }
    s.withEntry peer fun entry =>
      { entry with
        refusal := some reason
        thread :=
          if new then record entry.thread (sent 0 (some body) (unixMs nowMs)) else entry.thread }

/-- One conversation of a roster. -/
def rosterRow (nowMs : Int) (s : DmState I L) (row : ConversationSummary I L) : DmState I L :=
  let new := (s.correspondences.lookup row.peerIdentityPk).isNone
  (s.listed row).adoptRefused new row.peerIdentityPk nowMs

/-- The conversations that a roster does not name are gone. -/
def named (s : DmState I L) (pks : List I) : DmState I L :=
  { s with
    running := true
    correspondences := s.correspondences.retain fun pk _ => pk ∈ pks
    labels := s.labels.retain fun _ pk => pk ∈ pks }

def roster (s : DmState I L) (rows : List (ConversationSummary I L)) (nowMs : Int) : DmState I L :=
  let pks := rows.map (·.peerIdentityPk)
  let s := rows.foldl (rosterRow nowMs) (s.named pks)
  { s with
    refusedFirstContacts := ∅
    requests := s.requests.filter fun request => request.startedOver || request.sender ∉ pks }

/-- A preview is shown unless an acceptance of its sender's is in flight. -/
def requestPreview (s : DmState I L) (request : Nat) (messages : List ReceivedMessage)
    (readAt : Nat) : DmState I L :=
  let accepting (sender : I) := s.outstanding.values.any (·.accepts sender)
  let preview := messages.zipIdx.map fun (message, seq) =>
    receivedRow seq message.body message.sentAtMs readAt
  let shown (row : DmContactRequest I) : Bool := row.request = request && !accepting row.sender
  { s with requests := s.requests.modify (s.requests.findIdx shown) ({ · with preview }) }

def collected (s : DmState I L) (label : L) (row : DmThreadRow) : DmState I L :=
  match s.labels.lookup label with
  | some peer =>
    let s := s.nextActivity
    s.withEntry peer fun entry =>
      { entry with lastActivity := s.activitySeq, thread := record entry.thread row }
  | none =>
    let held := if dmUnmappedCap ≤ s.unmapped.length then s.unmapped.drop 1 else s.unmapped
    { s with unmapped := held ++ [(label, row)] }

/-- Whom a report of a message sent is about, and the body it is known by. -/
structure Answered (I : Type) where
  identity : Option I
  body : Option String
  previewed : List DmThreadRow

/-- Takes the command a report answers. -/
def answer (s : DmState I L) (token : Nat) (label : L) : DmState I L × Answered I :=
  let rest := { s with outstanding := s.outstanding.erase token }
  match s.outstanding.lookup token with
  | none => (rest, ⟨s.labels.lookup label, none, []⟩)
  | some (.firstContact peer body) =>
    -- Where the conversation is named already it was resumed, and no body was sealed.
    let resumed := (s.correspondences.lookup peer).any (·.label.isSome)
    (rest, ⟨some peer, if resumed then none else some body, []⟩)
  | some (.send peer body) => (rest, ⟨some peer, some body, []⟩)
  | some (.accept request sender reply) =>
    let theirs (held : DmContactRequest I) : Bool := held.request = request || held.sender = sender
    let requests := s.requests.modify (s.requests.findIdx theirs) ({ · with preview := [] })
    let waits (held : DmContactRequest I) : Bool :=
      held.request ≠ request && (held.startedOver || held.sender ≠ sender)
    ({ rest with requests := requests.filter waits },
      ⟨some sender, some reply, (s.requests.find? theirs).elim [] (·.preview)⟩)

/-- A row that is not held is recorded. -/
def recordPreviewed (thread : List DmThreadRow) (row : DmThreadRow) : List DmThreadRow :=
  if thread.any (·.samePosition row) then thread else record thread row

/-- Records what was sent to `identity` behind what its acceptance was shown. -/
def recordSent (s : DmState I L) (answered : Answered I) (accepts : Bool) (identity : I)
    (seq sentAt : Nat) : DmState I L :=
  let s := s.nextActivity
  s.withEntry identity fun entry =>
    let thread := answered.previewed.foldl recordPreviewed entry.thread
    -- The reply of an acceptance goes behind the messages it answers.
    let sentAtMs := if accepts then max sentAt ((thread.map orderMs).max?.getD 0) else sentAt
    { entry with
      lastActivity := s.activitySeq
      refusal := if answered.body.isSome then none else entry.refusal
      thread := record thread (sent seq answered.body sentAtMs) }

def reportSent (s : DmState I L) (token : Nat) (label : L) (seq sentAt : Nat) : DmState I L :=
  let accepts := (s.outstanding.lookup token).any DmOutstanding.isAccept
  let (s, answered) := s.answer token label
  answered.identity.elim s fun identity =>
    (s.mapLabel label identity).recordSent answered accepts identity seq sentAt

def reportDeleted (s : DmState I L) (token : Nat) (label : L) : DmState I L :=
  let s := { s with outstanding := s.outstanding.erase token }
  match s.labels.lookup label with
  | none => s
  | some identity =>
    { s with
      labels := s.labels.erase label
      correspondences := s.correspondences.erase identity }

def reportDelivered (s : DmState I L) (label : L) (throughSeq : Nat) : DmState I L :=
  (s.labels.lookup label).elim s fun identity =>
    s.updateEntry identity fun entry =>
      { entry with
        deliveredThrough := some (entry.deliveredThrough.elim throughSeq (max · throughSeq)) }

def reportAccepted (s : DmState I L) (label : L) : DmState I L :=
  (s.labels.lookup label).elim s fun identity =>
    let s := s.nextActivity
    s.withEntry identity fun entry =>
      { entry with state := some .established, lastActivity := s.activitySeq }

def reportRefused (s : DmState I L) (token : Option Nat) (reason : Refusal) :
    DmState I L × Option ((Nat × I × String) × Refusal) :=
  let s := { s with lastRefusal := some reason }
  match token with
  -- It answers a block, which did not take effect.
  | none => ({ s with blocking := ∅ }, none)
  | some token =>
    let rest := { s with outstanding := s.outstanding.erase token }
    match s.outstanding.lookup token with
    | none => (rest, none)
    | some (.firstContact peer body) =>
      if (s.correspondences.lookup peer).isSome then
        (rest.updateEntry peer ({ · with refusal := some reason }), none)
      else
        ({ rest with
            refusedFirstContacts := rest.refusedFirstContacts.insert peer (body, reason) }, none)
    | some (.send peer _) => (rest.updateEntry peer ({ · with refusal := some reason }), none)
    | some (.accept request sender reply) => (rest, some ((request, sender, reply), reason))

def reportBlockList (s : DmState I L) (identities : List I) : DmState I L :=
  { s with
    blockListUnknown := false
    blocked := identities.toFinset
    blocking := s.blocking.filter (· ∉ identities)
    requests := s.requests.filter (·.sender ∉ identities) }

def fold (s : DmState I L) (nowMs : Int) : RunnerEvent I L → DmState I L × DmFold I
  | .roster rows => (s.roster rows nowMs, {})
  | .contactRequest request sender =>
    let (s, evictedOldest) := s.holdRequest request sender false nowMs
    (s, { evictedOldest })
  | .startedOver request sender =>
    let (s, evictedOldest) := s.holdRequest request sender true nowMs
    (s, { evictedOldest })
  | .requestPreview request messages readAt => (s.requestPreview request messages readAt, {})
  | .message label seq body sentAt receivedAt =>
    (s.collected label (receivedRow seq body sentAt receivedAt), {})
  | .sent token peer seq sentAt => (s.reportSent token peer seq sentAt, {})
  | .deleted token peer => (s.reportDeleted token peer, {})
  | .delivered peer throughSeq => (s.reportDelivered peer throughSeq, {})
  | .accepted peer => (s.reportAccepted peer, {})
  | .refused token reason =>
    let (s, refusedAccept) := s.reportRefused token reason
    (s, { refusedAccept })
  | .blockListUnreadable => ({ s with blockListUnknown := true }, {})
  | .blockList identities => (s.reportBlockList identities, {})
  | .health => ({ s with running := true }, {})
  | .advert published => ({ s with advertUnpublished := !published }, {})

end DmState

/-- What happens to a view: a report, or something the person in front of it does. -/
inductive Input (I L : Type)
  | event (event : RunnerEvent I L) (nowMs : Int)
  | contact (peer : I) (body : String)
  | issue (command : DmOutstanding I)
  | decline (sender : I)
  | block (sender : I)
  | stop

variable {I L : Type} [DecidableEq I] [DecidableEq L]

def step (s : DmState I L) : Input I L → DmState I L
  | .event event nowMs => (s.fold nowMs event).1
  | .contact peer body => ((s.firstContact peer body).toOption.map Prod.fst).getD s
  | .issue command => (s.issue command).1
  | .decline sender => s.decline sender
  | .block sender => s.block sender
  | .stop => s.stop.1

def run (s : DmState I L) (inputs : List (Input I L)) : DmState I L := inputs.foldl step s

end Daemonseed.Dm.View
