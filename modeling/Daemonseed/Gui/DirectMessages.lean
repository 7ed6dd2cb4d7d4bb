import Daemonseed.Dm.View
import Daemonseed.Gui.SingleInstance

/-! # Direct messages in the window

The window holds, beside what the runner has reported, every message this session
composed, and ties each to the sequence number it was committed under: by the token
its command carried, or by guess where the command was refused. The thread that is
drawn interleaves the two. -/
namespace Daemonseed.Gui.DirectMessages
open Daemonseed.Lib.Maps Daemonseed.Dm.Thread Daemonseed.Dm.View
open Daemonseed.Gui.SingleInstance (trim)

/-- The reply an acceptance carries. -/
def dmAcceptReply : String := "message accepted"

inductive RailSection
  | chats
  | directMessages
  deriving DecidableEq, Repr

inductive MainPane
  | chat
  | chatPlaceholder
  | dmPlaceholder
  | dmThread
  deriving DecidableEq, Repr

inductive DmItemKind
  | request
  | conversation
  | draft
  deriving DecidableEq, Repr

structure DmItemKey (I : Type) where
  kind : DmItemKind
  peer : I
  deriving DecidableEq, Repr

/-- How far an outgoing message got. -/
inductive DmMessageStatus
  | pending
  | sent
  | delivered
  | refused
  deriving DecidableEq, Repr

/-- One message of the selected thread. -/
structure DmMessageRow where
  outgoing : Bool
  body : String
  status : Option DmMessageStatus
  atMs : Option Int
  deriving DecidableEq, Repr

structure DmThreadView (I : Type) where
  key : DmItemKey I
  isRequest : Bool
  rows : List DmMessageRow
  canSend : Bool
  refusal : Option Refusal
  blocking : Bool
  blocked : Bool
  awaitingAcceptance : Bool

/-- A message this session composed, from the moment it was queued. -/
structure Composed where
  token : Nat
  body : String
  firstContact : Bool
  /-- It is the reply of an acceptance. -/
  accept : Bool := false
  /-- The reply of an acceptance that no conversation was held at. -/
  opensConversation : Bool := false
  /-- How many rows not composed here the thread held. -/
  after : Nat
  seq : Option Nat := none
  refusal : Option Refusal := none
  composedAtMs : Int
  sentAtMs : Option Nat := none
  deriving DecidableEq, Repr

namespace Composed

/-- It waits for the runner's answer. -/
def pending (m : Composed) : Bool := m.seq.isNone && m.refusal.isNone

/-- It was refused, and no sequence is known of it. -/
def lost (m : Composed) : Bool := m.seq.isNone && m.refusal.isSome

/-- When the runner committed it, or else when it was composed. -/
def sentAt (m : Composed) : Nat := m.sentAtMs.getD m.composedAtMs.toNat

end Composed

/-- Whether a composed message goes above `row`: one direction by the sequences, where both are
known, and otherwise by the times. -/
def composedBefore (m : Composed) : DmThreadRow → Bool
  | .sent seq _ sentAtMs => m.seq.elim (m.sentAt < sentAtMs) (· < seq)
  | .received _ _ _ receivedAtMs => m.sentAt < receivedAtMs

def composedStatus (delivered : Nat → Bool) (m : Composed) : DmMessageStatus :=
  match m.seq, m.refusal with
  | some seq, none => if delivered seq then .delivered else .sent
  | some seq, some _ => if delivered seq then .delivered else .refused
  | none, some _ => .refused
  | none, none => .pending

def unixMsI64 (ms : Nat) : Int := min ms (2 ^ 63 - 1)

def threadRow (delivered : Nat → Bool) : DmThreadRow → DmMessageRow
  | .received _ body sentAtMs _ => ⟨false, body, none, some (unixMsI64 sentAtMs)⟩
  | .sent seq body sentAtMs =>
    ⟨true, body.getD s!"message {seq}", some (if delivered seq then .delivered else .sent),
      some (unixMsI64 sentAtMs)⟩

def composedRow (delivered : Nat → Bool) (m : Composed) : DmMessageRow :=
  ⟨true, m.body, some (composedStatus delivered m), some (unixMsI64 m.sentAt)⟩

/-! ## The thread that is drawn -/

/-- What a row of the drawn thread shows. -/
inductive Drawn
  | composed (m : Composed)
  | row (row : DmThreadRow)
  deriving DecidableEq, Repr

def Drawn.shown (delivered : Nat → Bool) : Drawn → DmMessageRow
  | composed m => composedRow delivered m
  | row r => threadRow delivered r

/-- A composed message stands for the row. -/
def stoodFor (messages : List Composed) (row : DmThreadRow) : Bool :=
  row.outgoing && (messages.filterMap (·.seq)).contains row.seq

/-- The composed messages `next` and the rows of the thread, of which `foreign` are drawn. -/
def drawRows (messages : List Composed) : List Composed → Nat → List DmThreadRow → List Drawn
  | next, _, [] => next.map .composed
  | next, foreign, row :: rows =>
    if stoodFor messages row then drawRows messages next foreign rows
    else
      let above (m : Composed) : Bool := m.after ≤ foreign && composedBefore m row
      (next.takeWhile above).map .composed ++
        .row row :: drawRows messages (next.dropWhile above) (foreign + 1) rows

/-- The rows of the thread that no composed message stands for. -/
def foreignRows (thread : List DmThreadRow) (messages : List Composed) : Nat :=
  thread.countP (!stoodFor messages ·)

/-! ## The state -/

structure GuiDm (I L : Type) [DecidableEq I] [DecidableEq L] where
  /-- What the runner has reported. -/
  state : DmState I L := {}
  chatsOpen : Bool := true
  dmsOpen : Bool := false
  owner : RailSection := .chats
  selected : Option (DmItemKey I) := none
  drafts : Finset I := ∅
  /-- Every message composed to each correspondent, in the order composed. -/
  composed : Map I (List Composed) := ∅
  acceptRefused : Map I Refusal := ∅
  blockRefused : Map I Refusal := ∅
  /-- Blocks not answered yet, the oldest first. -/
  blocksInFlight : List I := []

namespace GuiDm

variable {I L : Type} [DecidableEq I] [DecidableEq L]

def messages (dm : GuiDm I L) (peer : I) : List Composed := (dm.composed.lookup peer).getD []

def conversation (dm : GuiDm I L) (peer : I) : Option (DmCorrespondence L) :=
  dm.state.correspondences.lookup peer

def thread (dm : GuiDm I L) (peer : I) : List DmThreadRow :=
  (dm.conversation peer).elim [] (·.thread)

def requested (dm : GuiDm I L) (peer : I) : Bool := dm.state.requests.any (·.sender = peer)

/-- The rail holds the item. -/
def holds (dm : GuiDm I L) (key : DmItemKey I) : Bool :=
  match key.kind with
  | .request => dm.requested key.peer
  | .conversation => (dm.conversation key.peer).isSome
  | .draft => key.peer ∈ dm.drafts

def showChats (dm : GuiDm I L) : GuiDm I L := { dm with chatsOpen := true, owner := .chats }

def threadOnScreen (dm : GuiDm I L) : Bool :=
  dm.owner = .directMessages && dm.dmsOpen && dm.selected.isSome

def mainPane (dm : GuiDm I L) : MainPane :=
  match dm.owner with
  | .chats => if dm.chatsOpen then .chat else .chatPlaceholder
  | .directMessages => if dm.threadOnScreen then .dmThread else .dmPlaceholder

def select (dm : GuiDm I L) (key : DmItemKey I) : GuiDm I L :=
  { dm with selected := some key, dmsOpen := true, owner := .directMessages }

/-- An acceptance of a request of the person is on its way. -/
def acceptingFrom (dm : GuiDm I L) (peer : I) : Bool :=
  dm.state.outstanding.values.any (·.accepts peer)

/-! ## Composing -/

/-- Whom the message under the token was written to. -/
def peerOf (dm : GuiDm I L) (token : Nat) : Option I :=
  (dm.composed.entries.find? fun e => e.2.any (·.token = token)).map (·.1)

/-- Changes the composed message that the token answers. -/
def composedMut (dm : GuiDm I L) (token : Nat) (f : Composed → Composed) : GuiDm I L :=
  (dm.peerOf token).elim dm fun peer =>
    let messages := dm.messages peer
    { dm with
      composed := dm.composed.insert peer
        (messages.modify (messages.findIdx (·.token = token)) f) }

/-- A first contact can open the conversation itself, so no reply to that person does. -/
def compose (dm : GuiDm I L) (peer : I) (token : Nat) (body : String) (firstContact : Bool)
    (nowMs : Int) : GuiDm I L :=
  let messages := dm.messages peer
  let after := foreignRows (dm.thread peer) messages
  let held := if firstContact then messages.map ({ · with opensConversation := false }) else messages
  { dm with
    composed := dm.composed.insert peer
      (held ++ [{ token, body, firstContact, after, composedAtMs := nowMs }]) }

/-! ## Guesses -/

/-- The row is message 0 of this side's, of this body. -/
def holdsFirst (body : String) : DmThreadRow → Bool
  | .sent 0 (some held) _ => held = body
  | _ => false

/-- A refused first contact that is taken for the row of message 0. -/
def adopts (dm : GuiDm I L) (peer : I) (m : Composed) : Bool :=
  m.firstContact && m.lost && (dm.thread peer).any (holdsFirst m.body)

def adoptRefusedFirstContacts (dm : GuiDm I L) : GuiDm I L :=
  { dm with
    composed := dm.composed.each fun peer messages =>
      messages.map fun m => if dm.adopts peer m then { m with seq := some 0 } else m }

def zeroHeld (dm : GuiDm I L) (peer : I) : Bool := (dm.messages peer).any (·.seq = some 0)

/-- A refused reply that is taken for the one that opened the conversation. -/
def opened (dm : GuiDm I L) (peer : I) (m : Composed) : Bool :=
  (dm.conversation peer).isSome && !dm.zeroHeld peer && m.accept && m.opensConversation && m.lost

/-- A reply that the correspondent has not collected. -/
def uncollected (c : DmCorrespondence L) (m : Composed) : Bool :=
  m.accept && m.seq.any (!c.delivered ·)

/-- Until it is collected a reply is drawn behind everything that is held. -/
def placeReplies (c : DmCorrespondence L) (messages : List Composed) : List Composed :=
  if messages.any (uncollected c) then
    let after := foreignRows c.thread messages
    messages.map fun m => if uncollected c m then { m with after } else m
  else messages

def settleAcceptReplies (dm : GuiDm I L) : GuiDm I L :=
  { dm with
    composed := dm.composed.each fun peer messages =>
      (dm.conversation peer).elim messages fun c =>
        placeReplies c <| messages.map fun m =>
          if dm.opened peer m then { m with seq := some 0, refusal := none } else m }

/-! ## Keeping in line with the reports -/

/-- Where the selection goes: with a draft or a request to the conversation it became. -/
def reselected (dm : GuiDm I L) : Option (DmItemKey I) :=
  dm.selected.bind fun key =>
    let conversation : DmItemKey I := ⟨.conversation, key.peer⟩
    if dm.holds key then some key
    else if key.kind ≠ .conversation && dm.holds conversation then some conversation
    else none

def reconcile (dm : GuiDm I L) : GuiDm I L :=
  let dm := { dm with drafts := dm.drafts.filter fun peer => (dm.conversation peer).isNone }
  { dm with
    selected := dm.reselected
    acceptRefused := dm.acceptRefused.retain fun peer _ => dm.requested peer
    blockRefused := dm.blockRefused.retain fun peer _ => dm.requested peer
    composed := dm.composed.retain fun peer _ =>
      (dm.conversation peer).isSome || peer ∈ dm.drafts || dm.requested peer }

/-! ## Reports -/

/-- A refused acceptance leaves the request as the one item, unless a first contact is on its way. -/
def replyRefused (dm : GuiDm I L) (token : Nat) : GuiDm I L :=
  (dm.peerOf token).elim dm fun peer =>
    let messages := dm.messages peer
    let accept := (messages.find? (·.token = token)).any (·.accept)
    if accept && dm.requested peer && !messages.any (·.firstContact) then
      { dm with
        drafts := dm.drafts.erase peer
        selected :=
          if dm.selected = some ⟨.draft, peer⟩ then some ⟨.request, peer⟩ else dm.selected }
    else dm

/-- A block was refused, which is the oldest; the others still wait. -/
def blockRefusal (dm : GuiDm I L) (reason : Refusal) : GuiDm I L :=
  let rest := dm.blocksInFlight.drop 1
  { dm with
    blocksInFlight := rest
    blockRefused := dm.blocksInFlight.head?.elim dm.blockRefused (dm.blockRefused.insert · reason)
    state := { dm.state with blocking := dm.state.blocking ∪ rest.toFinset } }

/-- What an event says of the messages composed here. -/
def answered (dm : GuiDm I L) : RunnerEvent I L → GuiDm I L
  | .sent token _ seq sentAt =>
    dm.composedMut token ({ · with seq := some seq, refusal := none, sentAtMs := some sentAt })
  | .refused (some token) reason =>
    (dm.composedMut token ({ · with refusal := some reason })).replyRefused token
  | .refused none reason => dm.blockRefusal reason
  | .blockList listed =>
    { dm with blocksInFlight := dm.blocksInFlight.filter fun peer => !listed.contains peer }
  | _ => dm

/-- Folds an event and answers what it answers. -/
def told (dm : GuiDm I L) (event : RunnerEvent I L) (nowMs : Int) : GuiDm I L :=
  let (state, folded) := dm.state.fold nowMs event
  let dm := { dm with state }.answered event
  folded.refusedAccept.elim dm fun ((_, sender, _), reason) =>
    { dm with acceptRefused := dm.acceptRefused.insert sender reason }

def onDmEvent (dm : GuiDm I L) (event : RunnerEvent I L) (nowMs : Int) : GuiDm I L :=
  (dm.told event nowMs).adoptRefusedFirstContacts.settleAcceptReplies.reconcile

/-- The runner stopped, and what it has not answered is shown as not sent. -/
def onDmStopped (dm : GuiDm I L) : GuiDm I L :=
  let unsent (m : Composed) : Composed :=
    if m.pending then { m with refusal := some .shuttingDown } else m
  reconcile
    { dm with
      composed := dm.composed.each fun _ messages => messages.map unsent
      state := dm.state.stop.1
      blocksInFlight := [] }

/-! ## The thread view -/

/-- The messages of the preview of a request, until a conversation holds them. -/
def previewedRows (dm : GuiDm I L) (peer : I) : List DmMessageRow :=
  if (dm.conversation peer).isSome then []
  else
    (dm.state.requests.filter (·.sender = peer)).flatMap fun request =>
      request.preview.map (threadRow fun _ => false)

/-- A refused reply stays with the request it answered. -/
def refusedReplies (dm : GuiDm I L) (peer : I) : List DmMessageRow :=
  if (dm.conversation peer).isSome then []
  else
    ((dm.messages peer).filter fun m => m.accept && m.refusal.isSome).map fun m =>
      ⟨true, m.body, some .refused, some m.composedAtMs⟩

def requestView (dm : GuiDm I L) (key : DmItemKey I) : DmThreadView I where
  key
  isRequest := true
  rows := dm.previewedRows key.peer ++ dm.refusedReplies key.peer
  canSend := false
  refusal := (dm.blockRefused.lookup key.peer).or (dm.acceptRefused.lookup key.peer)
  blocking := key.peer ∈ dm.state.blocking
  blocked := key.peer ∈ dm.state.blocked
  awaitingAcceptance := false

def deliveredTo (dm : GuiDm I L) (peer : I) (seq : Nat) : Bool :=
  (dm.conversation peer).any (·.delivered seq)

/-- The composed messages and the rows of the thread, as they are drawn. -/
def drawn (dm : GuiDm I L) (peer : I) : List Drawn :=
  drawRows (dm.messages peer) (dm.messages peer) 0 (dm.thread peer)

def threadView (dm : GuiDm I L) (key : DmItemKey I) : DmThreadView I :=
  let blocked : Bool := key.peer ∈ dm.state.blocked
  let delivered := dm.deliveredTo key.peer
  let messages := dm.messages key.peer
  let c := dm.conversation key.peer
  { key
    isRequest := false
    rows := dm.previewedRows key.peer ++ (dm.drawn key.peer).map (·.shown delivered)
    canSend := !blocked &&
      match key.kind with
      | .draft => !messages.any (·.pending)
      | _ => c.any (·.label.isSome)
    refusal :=
      ((messages.reverse.find? (composedStatus delivered · = .refused)).bind (·.refusal)).or
        (c.bind (·.refusal))
    blocking := false
    blocked
    awaitingAcceptance := c.any (·.state = some .pending) }

/-- The thread of the selected item. -/
def dmThreadView (dm : GuiDm I L) : Option (DmThreadView I) :=
  (dm.selected.filter (dm.holds ·)).map fun key =>
    if key.kind = .request then dm.requestView key else dm.threadView key

/-! ## What the user does -/

def startDmWith (dm : GuiDm I L) (peer : I) : GuiDm I L :=
  if (dm.conversation peer).isSome then dm.reconcile.select ⟨.conversation, peer⟩
  else if dm.requested peer && !dm.acceptingFrom peer then dm.reconcile.select ⟨.request, peer⟩
  else { dm with drafts := insert peer dm.drafts }.reconcile.select ⟨.draft, peer⟩

/-- The draft is dropped for the item that its person holds already. -/
def moved (dm : GuiDm I L) (key : DmItemKey I) : GuiDm I L :=
  ({ dm with drafts := dm.drafts.erase key.peer }.select key).reconcile

def sendFirst (dm : GuiDm I L) (peer : I) (body : String) (nowMs : Int) : GuiDm I L :=
  match dm.state.firstContact peer body with
  | .ok (state, token) => { dm with state }.compose peer token body true nowMs
  | .error .existingConversation => dm.moved ⟨.conversation, peer⟩
  | .error (.pendingRequest _) => dm.moved ⟨.request, peer⟩
  | .error .inFlight => dm

def sendNext (dm : GuiDm I L) (peer : I) (body : String) (nowMs : Int) : GuiDm I L :=
  if ((dm.conversation peer).bind (·.label)).isSome then
    let (state, token) := dm.state.issue (.send peer body)
    { dm with state }.compose peer token body false nowMs
  else dm

def sendDm (dm : GuiDm I L) (body : String) (nowMs : Int) : GuiDm I L :=
  if (trim body.toList).isEmpty || dm.mainPane ≠ .dmThread || !dm.dmThreadView.any (·.canSend) then
    dm
  else
    dm.selected.elim dm fun key =>
      match key.kind with
      | .draft => dm.sendFirst key.peer body nowMs
      | .conversation => dm.sendNext key.peer body nowMs
      | .request => dm

/-- The sender of the selected request, while no block of it is on its way. -/
def selectedRequester (dm : GuiDm I L) : Option I :=
  (dm.selected.filter fun key =>
    key.kind = .request && dm.holds key && key.peer ∉ dm.state.blocking).map (·.peer)

/-- The reply of an acceptance, in the place of one that was refused. -/
def composeReply (dm : GuiDm I L) (sender : I) (token : Nat) (opensConversation : Bool)
    (nowMs : Int) : GuiDm I L :=
  let kept := (dm.messages sender).filter fun m => !(m.accept && m.refusal.isSome)
  let dm := { dm with composed := dm.composed.insert sender kept }
  (dm.compose sender token dmAcceptReply false nowMs).composedMut token
    ({ · with accept := true, opensConversation })

/-- Accepts a request that is held. -/
def acceptFrom (dm : GuiDm I L) (request : Nat) (sender : I) (nowMs : Int) : GuiDm I L :=
  if dm.acceptingFrom sender then dm
  else
    let opensConversation := (dm.conversation sender).isNone &&
      !(dm.messages sender).any (·.firstContact)
    let (state, token) := dm.state.issue (.accept request sender dmAcceptReply)
    let dm :=
      { dm with
        state
        acceptRefused := dm.acceptRefused.erase sender
        drafts := insert sender dm.drafts }
    ((dm.composeReply sender token opensConversation nowMs).select ⟨.draft, sender⟩).reconcile

def acceptDmRequest (dm : GuiDm I L) (nowMs : Int) : GuiDm I L :=
  dm.selectedRequester.elim dm fun sender =>
    (dm.state.requests.find? (·.sender = sender)).elim dm fun held =>
      dm.acceptFrom held.request sender nowMs

def declineDmRequest (dm : GuiDm I L) : GuiDm I L :=
  dm.selectedRequester.elim dm fun sender =>
    { dm with state := dm.state.decline sender }.reconcile

def blockDmRequest (dm : GuiDm I L) : GuiDm I L :=
  dm.selectedRequester.elim dm fun sender =>
    reconcile
      { dm with
        state := { dm.state with blocking := insert sender dm.state.blocking }
        blockRefused := dm.blockRefused.erase sender
        blocksInFlight := dm.blocksInFlight ++ [sender] }

def selectDmItem (dm : GuiDm I L) (key : DmItemKey I) : GuiDm I L :=
  if dm.holds key then dm.select key else dm

def openRailSection (dm : GuiDm I L) : RailSection → GuiDm I L
  | .chats => { dm with dmsOpen := false, selected := none }.showChats
  | .directMessages =>
    { dm with dmsOpen := true, chatsOpen := false, owner := .directMessages, selected := none }

def toggleRailSection (dm : GuiDm I L) : RailSection → GuiDm I L
  | .chats => { dm with chatsOpen := !dm.chatsOpen }
  | .directMessages =>
    { dm with
      dmsOpen := !dm.dmsOpen
      selected := if dm.dmsOpen && dm.owner = .directMessages then none else dm.selected }

end GuiDm

/-- What happens to the window: a report, the end of the runner, or something the user does. -/
inductive Input (I L : Type)
  | event (event : RunnerEvent I L) (nowMs : Int)
  | stopped
  | startDmWith (peer : I)
  | sendDm (body : String) (nowMs : Int)
  | acceptDmRequest (nowMs : Int)
  | declineDmRequest
  | blockDmRequest
  | selectDmItem (key : DmItemKey I)
  | openRailSection (rail : RailSection)
  | toggleRailSection (rail : RailSection)
  | showChats

variable {I L : Type} [DecidableEq I] [DecidableEq L]

def step (dm : GuiDm I L) : Input I L → GuiDm I L
  | .event event nowMs => dm.onDmEvent event nowMs
  | .stopped => dm.onDmStopped
  | .startDmWith peer => dm.startDmWith peer
  | .sendDm body nowMs => dm.sendDm body nowMs
  | .acceptDmRequest nowMs => dm.acceptDmRequest nowMs
  | .declineDmRequest => dm.declineDmRequest
  | .blockDmRequest => dm.blockDmRequest
  | .selectDmItem key => dm.selectDmItem key
  | .openRailSection rail => dm.openRailSection rail
  | .toggleRailSection rail => dm.toggleRailSection rail
  | .showChats => dm.showChats

def run (dm : GuiDm I L) (inputs : List (Input I L)) : GuiDm I L := inputs.foldl step dm

end Daemonseed.Gui.DirectMessages
