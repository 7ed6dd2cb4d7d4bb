import Daemonseed.Dm.Store
import Daemonseed.Lib.Flows

/-! # The flows of an established conversation

A flow is its store sections and its calls, in the order the source makes
them. A section reads the record afresh and either leaves it or writes it
whole; what happens between two sections of a flow is anybody's. The
entropy a seal draws is asked for once, when the seal is made. -/
namespace Daemonseed.Dm.Flows
open Daemonseed.Dm.Primitives Daemonseed.Dm.Channel Daemonseed.Dm.Chain Daemonseed.Dm.Records
  Daemonseed.Dm.Store Daemonseed.Lib.Flows

variable {B : Type}

/-- Why a flow stopped. -/
inductive FlowError
  | advert (e : AdvertError)
  | drop (e : DropError)
  | channel (e : ChannelError)
  | chain (e : ChainError)
  | store (e : StoreError)
  | records (e : RecordError)
  | noAdvert
  | noOpening
  | notOutstanding
  | alreadyEstablished
  | awaitingAcceptance
  | alreadyAccepted
  | openingWriter
  | openingRatchetKey
  | dropFull
  | incomplete (what : String)
  | deletePending
  | bodyTooLong (len : Nat)
  | conflict
  deriving DecidableEq, Repr

/-- A flow over one correspondence. -/
abbrev DmFlow (B : Type) : Type → Type := Flow (Correspondence B) (Query B) Reply FlowError

/-- This side's identity. -/
structure Me (B : Type) where
  signer : B
  channelRoot : B

/-! ## Sections and calls -/

def ofStore {α : Type} (x : Except StoreError α) : Except FlowError α := x.mapError .store

/-- A value a section or a record must hold. -/
def orElse {α : Type} (x : Option α) (e : FlowError) : Except FlowError α :=
  match x with
  | some a => .ok a
  | none => .error e

/-- A check that refuses. -/
def refuseWhere (refused : Bool) (e : FlowError) : Except FlowError Unit :=
  if refused then .error e else .ok ()

/-- The result of one network call. -/
def ofRecords {α : Type} (x : Except RecordError α) : Except FlowError α := x.mapError .records

section Sections

variable [DecidableEq B]

/-- What `load` makes of a correspondence: its record, or
`MissingConversation`. -/
def loaded (c : Correspondence B) : Except FlowError (ConvState B) :=
  match c.loadConv with
  | .error e => .error (.store e)
  | .ok none => .error (.store .missingConversation)
  | .ok (some s) => .ok s

/-- The flows' `load`. -/
def load : DmFlow B (ConvState B) := Flow.view loaded

/-- `Store::load` as a flow reads it: the record and what it owes. -/
def loadAll : DmFlow B (Option (LoadedConv B)) := Flow.view fun c => ofStore c.load

/-- The section `update_conv` takes. -/
def updates (f : ConvState B → ConvState B) (c : Correspondence B) :
    Except FlowError (Unit × Correspondence B) :=
  (ofStore (c.updateConv f)).map fun c' => ((), c')

def updateConv (f : ConvState B → ConvState B) : DmFlow B Unit := Flow.attempt (updates f)

/-- The section `try_update_conv` takes. -/
def tryUpdates {α : Type} (f : ConvState B → Except FlowError (α × ConvState B))
    (c : Correspondence B) : Except FlowError (α × Correspondence B) :=
  match c.tryUpdateConv f with
  | .error e => .error (.store e)
  | .ok r => r

def tryUpdateConv {α : Type} (f : ConvState B → Except FlowError (α × ConvState B)) :
    DmFlow B α :=
  Flow.attempt (tryUpdates f)

end Sections

def createConv (s : ConvState B) : DmFlow B Unit :=
  Flow.attempt fun c => (ofStore (c.createConv s)).map fun c' => ((), c')

def persistOutbox (P : Platform B) (seq : Nat) (ciphertext : Slot B) (sentAt : Nat) :
    DmFlow B Unit :=
  Flow.attempt fun c => (ofStore (c.persistOutbox P seq ciphertext sentAt)).map fun c' => ((), c')

/-- The deletion as a step that reports its refusal. -/
def deleteOutboxThrough (cursor : Nat) : DmFlow B (Option StoreError) :=
  Flow.attempt fun c =>
    match c.deleteOutboxThrough cursor with
    | .error e => .ok (some e, c)
    | .ok c' => .ok (none, c')

def readChannel (lookupKey : B) (subkey : Nat) : DmFlow B (Option (Wire B)) := do
  let found : Except RecordError (Option (Wire B)) ← Flow.call (Query.readChannel lookupKey subkey)
  ofRecords found

def writeChannel (lookupKey : B) (subkey : Nat) (bytes : Wire B) : DmFlow B Unit := do
  let written : Except RecordError Unit ← Flow.call (Query.writeChannel lookupKey subkey bytes)
  ofRecords written

/-! ## The schedule held in memory -/

/-- The force-turn flag of a record. -/
def forceTurn (s : ConvState B) : Bool := s.conversation.sending.forceTurn

def setForceTurn (s : ConvState B) (flag : Bool) : ConvState B :=
  { s with
    conversation :=
      { s.conversation with sending := { s.conversation.sending with forceTurn := flag } } }

/-- The two fields a commit leaves out of its comparison, set. -/
def setLeftOut (s : ConvState B) (flag : Bool) (published : Nat) : ConvState B :=
  setForceTurn { s with cursorPublished := published } flag

/-- Write a schedule held in memory over the record's, keeping a force-turn
flag stored since it was loaded. -/
def writeConversation (state : ConvState B) (written : Conversation B) (loadedForced : Bool) :
    ConvState B :=
  let snapshot := written.snapshot
  { state with
    conversation :=
      { snapshot with
        sending :=
          { snapshot.sending with
            forceTurn := snapshot.sending.forceTurn || (forceTurn state && !loadedForced) } } }

/-- A record as a flow loaded it. -/
structure AsLoaded (B : Type) where
  bytes : ConvState B
  forceTurn : Bool
  cursorPublished : Nat

namespace AsLoaded

def of (state : ConvState B) : AsLoaded B := ⟨state, Flows.forceTurn state, state.cursorPublished⟩

/-- Refuse a record that differs in anything but the force-turn flag and the
published cursor. -/
def unchanged [DecidableEq B] (self : AsLoaded B) (stored : ConvState B) : Except FlowError Unit :=
  if setLeftOut stored self.forceTurn self.cursorPublished = self.bytes then .ok ()
  else .error .conflict

end AsLoaded

def refuseIfMarked (state : ConvState B) : Except FlowError Unit :=
  refuseWhere state.deletePending .deletePending

/-! ## Slots -/

structure ReceivedMessage (B : Type) where
  sentAtMs : Nat
  body : B
  deriving DecidableEq, Repr

/-- What one step of a ring read found. -/
inductive RingStep (B : Type)
  | message (seq : Nat) (message : ReceivedMessage B) (outboxError : Option StoreError)
  | atEnd
  | unopened (seq subkey : Nat) (error : ChainError)
  deriving DecidableEq, Repr

/-- One slot's bytes, read as sequence `seq`. -/
def openRingSlot (C : Crypto B) (P : Platform B) (conversation : Conversation B) (ring : Ring)
    (raw : Wire B) (seq : Nat) : Except FlowError (RingStep B × Conversation B × Ring) :=
  match decodeSlot raw with
  | .error _ => .ok (.atEnd, conversation, ring)
  | .ok slot =>
    if slot.header.seq ≠ seq then .ok (.atEnd, conversation, ring)
    else
      match conversation.openMessage C slot.header slot.sealed with
      | (.error e, conversation) => .ok (.unopened seq (slotFor seq) e, conversation, ring)
      | (.ok opened, conversation) =>
        match decodeMessagePlaintext P opened with
        | .error e => .error (.channel e)
        | .ok (sentAtMs, body) =>
          .ok (.message seq ⟨sentAtMs, body⟩ none, conversation,
            ring.advancePeerCollected slot.header.cursor)

def fitsAMessage (P : Platform B) (body : B) : Except FlowError Unit :=
  refuseWhere (messageBodyMaxLen < P.length body) (.bodyTooLong (P.length body))

def deviceIdSingleDevice : Nat := 0

/-- `body` sealed as the conversation's next message, with what the seal drew.
`now` is in seconds. -/
def sealWith (C : Crypto B) (P : Platform B) (conversation : Conversation B) (body : B)
    (now : Nat) (drawn : List (Option B) × Option B) :
    Except FlowError (Slot B × Conversation B) :=
  match conversation.sealMessage C (encodeMessagePlaintext P (now * 1000) body)
      deviceIdSingleDevice drawn.1 drawn.2 with
  | (.error e, _) => .error (.chain e)
  | (.ok (header, sealed), conversation) => .ok (⟨header, sealed⟩, conversation)

def sealSlot (C : Crypto B) (P : Platform B) (conversation : Conversation B) (body : B)
    (now : Nat) : DmFlow B (Slot B × Conversation B) := do
  fitsAMessage P body
  let drawn : List (Option B) × Option B ← Flow.call Query.entropy
  sealWith C P conversation body now drawn

structure RingRead (B : Type) where
  messages : List (ReceivedMessage B)
  collected : Nat
  unopened : Option (Nat × Nat × ChainError)

/-- Read a ring from `collected`, at most `rounds` slots of it; a read that
would go on past them never returns. -/
def readRing (C : Crypto B) (P : Platform B) (lookupKey : B) :
    (rounds : Nat) → Conversation B → Ring → List (ReceivedMessage B) → (collected : Nat) →
      DmFlow B (RingRead B × Conversation B × Ring)
  | 0, _, _, _, _ => do
    let never : Empty ← Flow.call Query.halt
    nomatch never
  | rounds + 1, conversation, ring, messages, collected => do
    match ← readChannel lookupKey (slotFor collected) with
    | none => return (⟨messages, collected, none⟩, conversation, ring)
    | some raw =>
      match ← openRingSlot C P conversation ring raw collected with
      | (.message _ message _, conversation, ring) =>
        readRing C P lookupKey rounds conversation ring (messages ++ [message]) (collected + 1)
      | (.atEnd, conversation, ring) => return (⟨messages, collected, none⟩, conversation, ring)
      | (.unopened seq subkey e, conversation, ring) =>
        return (⟨messages, collected, some (seq, subkey, e)⟩, conversation, ring)

/-! ## Sending -/

/-- A message that was committed. -/
structure Committed (B : Type) where
  seq : Nat
  lookupKey : B
  subkey : Nat
  slot : Slot B
  deriving DecidableEq, Repr

variable [DecidableEq B]

/-- The section that commits a message. -/
def commitSection (asLoaded : AsLoaded B) (conversation : Conversation B) (loadedForced : Bool)
    (sendSeq : Nat) (state : ConvState B) : Except FlowError (Unit × ConvState B) := do
  refuseIfMarked state
  asLoaded.unchanged state
  return ((), { writeConversation state conversation loadedForced with sendSeq })

def commitMessage (C : Crypto B) (P : Platform B) (body : B) (now : Nat) :
    DmFlow B (Committed B) := do
  let state ← load
  refuseWhere state.deletePending .deletePending
  refuseWhere (state.awaitingAcceptance || state.acceptancePending) .awaitingAcceptance
  let ring ← (Ring.restore state.sendSeq state.peerCollected).mapError FlowError.channel
  let (seq, ring) ← ring.reserve.mapError FlowError.channel
  let (slot, conversation) ← sealSlot C P (Conversation.restore state.conversation) body now
  persistOutbox P seq slot now
  tryUpdateConv (commitSection (.of state) conversation (forceTurn state) ring.sendSeq)
  return { seq, lookupKey := state.outgoingLookupKey, subkey := slotFor seq, slot }

/-- Commit a message, then write its slot. -/
def sendMessage (C : Crypto B) (P : Platform B) (body : B) (now : Nat) : DmFlow B Nat := do
  let committed ← commitMessage C P body now
  writeChannel committed.lookupKey committed.subkey (.slot committed.slot)
  return committed.seq

/-! ## Collecting -/

/-- The section that records a collected message: the open is made again on
the record as it stands. -/
def collectSection (C : Crypto B) (P : Platform B) (incoming : B) (seq : Nat) (raw : Wire B)
    (state : ConvState B) : Except FlowError (Nat × ConvState B) := do
  refuseIfMarked state
  refuseWhere state.acceptancePending .awaitingAcceptance
  refuseWhere (state.myCollected != seq || state.incomingLookupKey != incoming) .conflict
  let ring ← (Ring.restore state.sendSeq state.peerCollected).mapError FlowError.channel
  match ← openRingSlot C P (Conversation.restore state.conversation) ring raw seq with
  | (.message _ _ _, fresh, ring) =>
    return (ring.peerCollected,
      { writeConversation state fresh (forceTurn state) with
        myCollected := seq + 1, peerCollected := ring.peerCollected })
  | (.atEnd, _, _) | (.unopened _ _ _, _, _) => throw .conflict

def collectStep (C : Crypto B) (P : Platform B) : DmFlow B (RingStep B) := do
  let state ← load
  refuseWhere state.deletePending .deletePending
  refuseWhere state.acceptancePending .awaitingAcceptance
  let ring ← (Ring.restore state.sendSeq state.peerCollected).mapError FlowError.channel
  match ← readChannel state.incomingLookupKey (slotFor state.myCollected) with
  | none => return .atEnd
  | some raw =>
    match ← openRingSlot C P (Conversation.restore state.conversation) ring raw
        state.myCollected with
    | (.message seq message _, _, _) =>
      let peerCollected ←
        tryUpdateConv (collectSection C P state.incomingLookupKey state.myCollected raw)
      let outboxError ← deleteOutboxThrough peerCollected
      return .message seq message outboxError
    | (step, _, _) => return step

/-- Publish the collection cursor the record held at the load. -/
def publishCursor : DmFlow B Bool := do
  let state ← load
  refuseWhere state.deletePending .deletePending
  refuseWhere state.acceptancePending .awaitingAcceptance
  if state.myCollected ≤ state.cursorPublished then return false
  let key ← orElse state.ownControlKey (.incomplete "control key of its own")
  let opening ← orElse state.ownOpening (.incomplete "channel opening of its own")
  writeChannel state.outgoingLookupKey controlSubkey (.control key
    { opening := some opening, collectedCursor := state.myCollected, closed := false
      generation := state.generation })
  updateConv fun stored =>
    { stored with cursorPublished := max stored.cursorPublished state.myCollected }
  return true

/-- The runner's `take_peer_cursor`: a published cursor taken where it is
ahead, never past `send_seq`. -/
def takePeerCursor (cursor : Nat) : DmFlow B Unit :=
  updateConv fun state =>
    { state with
      peerCollected :=
        if state.peerCollected < min cursor state.sendSeq then min cursor state.sendSeq
        else state.peerCollected }

/-! ## Resetting and deleting -/

/-- The force-turn flag of this conversation, as `reset` sets it in each. A
conversation that is gone is skipped. The advert rotation is not part of the
record. -/
def reset : DmFlow B Unit := do
  match ← loadAll with
  | none => return ()
  | some _ =>
    Flow.attempt fun c =>
      match c.updateConv fun state => setForceTurn state true with
      | .error .missingConversation => .ok ((), c)
      | .error e => .error (.store e)
      | .ok c' => .ok ((), c')

def markDeletePending : DmFlow B Unit := updateConv fun state => { state with deletePending := true }

end Daemonseed.Dm.Flows
