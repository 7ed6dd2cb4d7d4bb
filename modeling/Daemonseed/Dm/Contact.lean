import Daemonseed.Dm.Flows

/-! # The flows that establish a conversation

First contact, the acceptance of a correspondent's first contact, and the
recognition of one's own being accepted, each with the call that carries it on
from its record alone. A correspondence is the one its records are filed
under, so no label is drawn or handed on. -/
namespace Daemonseed.Dm.Contact
open Daemonseed.Dm.Primitives Daemonseed.Dm.Channel Daemonseed.Dm.Chain Daemonseed.Dm.Records
  Daemonseed.Dm.Store Daemonseed.Dm.Flows Daemonseed.Lib.Flows

variable {B : Type} [DecidableEq B]

/-! ## The network -/

/-- Read and verify a correspondent's advert. -/
def readAdvert (C : Crypto B) (P : Platform B) (identity : B) : DmFlow B (Advert B) := do
  let found : Except RecordError (Option (Wire B)) ← Flow.call (Query.readAdvert identity)
  match ← ofRecords found with
  | none => throw .noAdvert
  | some (.advert advert) => do
    refuseWhere (!advert.verifies C P identity) (.advert .signature)
    return advert
  | some _ => throw (.advert .length)

def encapsulateTo (C : Crypto B) (advert : Advert B) (now : Nat) :
    DmFlow B (HelloEncapsulation B) := do
  refuseWhere (!advert.usableAt now) (.advert (.unusable now advert.notBefore))
  let drawn : Option B ← Flow.call Query.fill
  let m ← orElse drawn (.advert .entropy)
  return { serial := advert.serial, sharedSecret := (C.encapsulate advert.kemPk m).1
           ciphertext := (C.encapsulate advert.kemPk m).2 }

/-- Draw a fresh `r`. -/
def repick : DmFlow B B := do
  let drawn : Option B ← Flow.call Query.fill
  orElse drawn (.drop .entropy)

def drawGeneration : DmFlow B Nat := do
  let drawn : Option Nat ← Flow.call Query.generation
  orElse drawn (.chain .entropy)

def openChannel (owner : ChannelOwner B) : DmFlow B B := do
  let key : Except RecordError B ← Flow.call (Query.openChannel owner)
  ofRecords key

def writeDropSlot (identity : B) (slot : Nat) (bytes : SealedHello B) : DmFlow B Unit := do
  let written : Except RecordError Unit ← Flow.call (Query.writeDropSlot identity slot bytes)
  ofRecords written

def readDropSlot (identity : B) (slot : Nat) : DmFlow B (Option (Wire B)) := do
  let found : Except RecordError (Option (Wire B)) ← Flow.call (Query.readDropSlot identity slot)
  ofRecords found

def eraseDropSlot (identity : B) (slot : Nat) : DmFlow B Unit := do
  let erased : Except RecordError Unit ← Flow.call (Query.eraseDropSlot identity slot)
  ofRecords erased

/-- The first failure of a batch, in the order of its writes. -/
def firstFailure : List (Except RecordError Unit) → Except FlowError Unit
  | [] => .ok ()
  | .ok () :: rest => firstFailure rest
  | .error e :: _ => .error (.records e)

def writeAll (writes : List (BatchWrite B)) : DmFlow B Unit := do
  let results : List (Except RecordError Unit) ← Flow.call (Query.writeBatch writes)
  firstFailure results

/-- The control record of a channel, where it reads and opens. -/
def readControl (key lookupKey : B) : DmFlow B (Option (Control B)) := do
  let found : Except RecordError (Option (Wire B)) ←
    Flow.call (Query.readChannel lookupKey controlSubkey)
  return match found with
    | .ok (some bytes) => (openControlWithKey key bytes).toOption
    | .ok none | .error _ => none

/-- Whether a record names this identity as its correspondent. -/
def correspondenceFor (identity : B) : DmFlow B Bool := do
  let found ← loadAll
  return found.any (·.state.peerIdentityPk == identity)

/-- The slot sequence 0 owes. -/
def outstandingZero : DmFlow B (Option (Slot B)) := do
  let found ← loadAll
  return do
    let entry ← (← found).outstandingOutbox.find? (·.seq == 0)
    return entry.ciphertext

/-! ## Placing a hello -/

def maxRepicks : Nat := 1

/-- What a hello is sealed from, apart from the `r` that places it. -/
structure HelloSeal (B : Type) where
  sharedSecret : B
  kemCt : B
  advertSerial : Nat
  original : Option B

def sealOutstanding (C : Crypto B) (P : Platform B) (from_ : HelloSeal B)
    (lookupKey peerIdentityPk : B) (attempt : HelloAttempt B) : OutstandingHello B where
  slot := attempt.slot C P
  r := attempt.r
  kemCt := from_.kemCt
  sealed :=
    { kemCt := from_.kemCt, secret := from_.sharedSecret, recipient := peerIdentityPk
      lookupKey, r := attempt.r, original := from_.original }
  advertSerial := from_.advertSerial

/-- The section that persists a hello before it is written. -/
def placeSection (awaiting : Bool) (hello : OutstandingHello B) (state : ConvState B) :
    Except FlowError (Unit × ConvState B) := do
  refuseWhere (awaiting && !state.awaitingAcceptance) .alreadyAccepted
  return ((), { state with
    outstandingHello := some hello
    ownHelloSecret := if state.awaitingAcceptance then state.ownHelloSecret else none })

/-- Persist, write, read back, and re-pick where the slot was clobbered. The
re-picks run out before the tries do. -/
def placeLoop (C : Crypto B) (P : Platform B) (peerIdentityPk lookupKey : B)
    (from_ : HelloSeal B) (awaiting : Bool) :
    (tries : Nat) → HelloAttempt B → DmFlow B (HelloAttempt B)
  | 0, _ => do
    let never : Empty ← Flow.call Query.halt
    nomatch never
  | tries + 1, attempt => do
    let hello := sealOutstanding C P from_ lookupKey peerIdentityPk attempt
    tryUpdateConv (placeSection awaiting hello)
    writeDropSlot peerIdentityPk (attempt.slot C P) hello.sealed
    match afterReadBack hello.sealed (← readDropSlot peerIdentityPk (attempt.slot C P)) with
    | .landed => return attempt
    | .clobbered => do
      let r ← repick
      refuseWhere (maxRepicks < attempt.repicks + 1) .dropFull
      placeLoop C P peerIdentityPk lookupKey from_ awaiting tries ⟨r, attempt.repicks + 1⟩

def placeHello (C : Crypto B) (P : Platform B) (peerIdentityPk lookupKey : B)
    (from_ : HelloSeal B) (attempt : HelloAttempt B) : DmFlow B (HelloAttempt B) := do
  let state ← load
  placeLoop C P peerIdentityPk lookupKey from_ state.awaitingAcceptance (maxRepicks + 1) attempt

/-! ## First contact -/

inductive FirstContact (B : Type)
  | opened (outgoingLookupKey : B) (helloSlot repicks : Nat)
  | rewrote (helloSlot : Nat)
  deriving DecidableEq, Repr

/-- Write the opening and sequence 0, then place the hello. -/
def finishFirstContact (C : Crypto B) (P : Platform B) (state : ConvState B) :
    DmFlow B (FirstContact B) := do
  let ownSecret ← orElse state.ownHelloSecret (.incomplete "hello secret of its own")
  let opening ← orElse state.ownOpening (.incomplete "channel opening of its own")
  let ownKemCt ← orElse state.ownHelloKemCt (.incomplete "hello encapsulation of its own")
  let slot ← orElse (← outstandingZero) (.incomplete "outbox entry for sequence 0")
  let ownControlKey ← orElse state.ownControlKey (.incomplete "control key of its own")
  writeAll
    [.channel state.outgoingLookupKey controlSubkey (.control ownControlKey
      { opening := some opening, collectedCursor := 0, closed := false
        generation := state.generation }),
     .channel state.outgoingLookupKey (slotFor 0) (.slot slot)]
  let r ← repick
  let attempt ← placeHello C P state.peerIdentityPk state.outgoingLookupKey
    { sharedSecret := ownSecret, kemCt := ownKemCt, advertSerial := opening.advertSerial
      original := none } (.new r)
  return .opened state.outgoingLookupKey (attempt.slot C P) attempt.repicks

/-- Write an outstanding hello's persisted bytes again, where there is one. -/
def resumeFirstContact : DmFlow B (Option Nat) := do
  let state ← load
  refuseWhere state.deletePending .deletePending
  match state.outstandingHello with
  | none => return none
  | some hello => do
    writeDropSlot state.peerIdentityPk hello.slot hello.sealed
    return some hello.slot

/-- Carry on a first contact from its record alone. -/
def continueFirstContact (C : Crypto B) (P : Platform B) : DmFlow B (FirstContact B) := do
  let state ← load
  refuseWhere state.deletePending .deletePending
  refuseWhere (!state.awaitingAcceptance) .alreadyEstablished
  if state.outstandingHello.isSome then
    let slot ← orElse (← resumeFirstContact) .notOutstanding
    return .rewrote slot
  else finishFirstContact C P state

/-- The record a first contact creates. -/
def contactRecord (C : Crypto B) (peerIdentityPk outgoingLookupKey : B) (generation : Nat)
    (encapsulation : HelloEncapsulation B) (opening : ChannelOpening B)
    (conversation : Conversation B) (sendSeq : Nat) (zeros : B) : ConvState B where
  peerIdentityPk := peerIdentityPk
  outgoingLookupKey := outgoingLookupKey
  incomingLookupKey := zeros
  generation := generation
  conversation := conversation.snapshot
  sendSeq := sendSeq
  peerCollected := 0
  myCollected := 0
  cursorPublished := 0
  awaitingAcceptance := true
  acceptancePending := false
  outstandingHello := none
  ownHelloSecret := some encapsulation.sharedSecret
  ownHelloKemCt := some encapsulation.ciphertext
  ownControlKey := some (controlKey C encapsulation.sharedSecret)
  peerControlKey := none
  peerAdvertSerial := none
  ownOpening := some opening
  deletePending := false

/-- Open a conversation with a correspondent who is offline. -/
def firstContact (C : Crypto B) (P : Platform B) (me : Me B) (peerIdentityPk body : B)
    (now : Nat) : DmFlow B (FirstContact B) := do
  if ← correspondenceFor peerIdentityPk then continueFirstContact C P
  else
    fitsAMessage P body
    let advert ← readAdvert C P peerIdentityPk
    let generation ← drawGeneration
    let outgoingLookupKey ← openChannel ⟨me.channelRoot, peerIdentityPk, generation⟩
    let encapsulation ← encapsulateTo C advert now
    let drawn : List (Option B) × Option B ← Flow.call Query.entropy
    let opened ← (initiate C encapsulation.sharedSecret drawn.1).mapError FlowError.chain
    let opening := ChannelOpening.build C P me.signer peerIdentityPk outgoingLookupKey
      opened.ratchetPk encapsulation.serial
    let (seq, ring) ← Ring.new.reserve.mapError FlowError.channel
    let (slot, conversation) ← sealSlot C P opened.conversation body now
    persistOutbox P seq slot now
    createConv (contactRecord C peerIdentityPk outgoingLookupKey generation encapsulation opening
      conversation ring.sendSeq P.zeros)
    let state ← load
    finishFirstContact C P state

/-- Rewrite an outstanding first contact's hello to a rotated advert key. -/
def refreshFirstContact (C : Crypto B) (P : Platform B) (now : Nat) : DmFlow B Bool := do
  let state ← load
  refuseWhere state.deletePending .deletePending
  refuseWhere (!state.awaitingAcceptance) .alreadyAccepted
  let hello ← orElse state.outstandingHello .notOutstanding
  let original ← orElse state.ownHelloSecret (.incomplete "hello secret of its own")
  let advert ← readAdvert C P state.peerIdentityPk
  if helloNeedsRewrite hello.advertSerial advert then
    let encapsulation ← encapsulateTo C advert now
    let _ ← placeHello C P state.peerIdentityPk state.outgoingLookupKey
      { sharedSecret := encapsulation.sharedSecret, kemCt := encapsulation.ciphertext
        advertSerial := encapsulation.serial, original := some original } (.new hello.r)
    return true
  else return false

/-! ## Acceptance -/

/-- A verified hello, as an acceptance proceeds from it. -/
structure ContactRequest (B : Type) where
  identity : B
  lookupKey : B
  firstRatchetPk : B
  slot : Nat
  advertSerial : Nat
  sharedSecret : B
  generation : Nat
  deriving DecidableEq, Repr

structure Accepted (B : Type) where
  outgoingLookupKey : B
  messages : List (ReceivedMessage B)
  helloSlot : Nat
  repicks : Nat
  unopened : Option (Nat × Nat × ChainError)

/-- What is refused of a correspondence with no unfinished acceptance; the
secret of a hello back that is placed is deleted first. -/
def alreadyEstablished {α : Type} (state : ConvState B) : DmFlow B α := do
  if !state.awaitingAcceptance && state.outstandingHello.isSome && state.ownHelloSecret.isSome then
    updateConv fun state => { state with ownHelloSecret := none }
    throw .alreadyEstablished
  else throw .alreadyEstablished

/-- Read the correspondent's opening and verify it as the one an acceptance
proceeds from. -/
def readAcceptedOpening (C : Crypto B) (P : Platform B) (myPk key incoming : B) (serial : Nat)
    (identity : B) (openedWith : Option B) : DmFlow B Unit := do
  let control ← readControl key incoming
  let opening ← orElse (control.bind (·.opening)) .noOpening
  (opening.verify C P myPk incoming serial).mapError FlowError.channel
  refuseWhere (opening.writerIdentityPk != identity) .openingWriter
  refuseWhere (openedWith != some opening.firstRatchetPk) .openingRatchetKey

/-- This side's channel: the recorded one, or opened and recorded. -/
def outgoingChannel (P : Platform B) (me : Me B) (state : ConvState B) : DmFlow B B := do
  if state.outgoingLookupKey = P.zeros then
    let key ← openChannel ⟨me.channelRoot, state.peerIdentityPk, state.generation⟩
    updateConv fun state => { state with outgoingLookupKey := key }
    return key
  else return state.outgoingLookupKey

/-- The acceptance's encapsulation and opening, minted once. -/
def mintAcceptance (C : Crypto B) (P : Platform B) (me : Me B) (state : ConvState B)
    (outgoingLookupKey firstRatchetPk : B) (now : Nat) : DmFlow B Unit := do
  if state.ownOpening.isNone then
    let advert ← readAdvert C P state.peerIdentityPk
    let encapsulation ← encapsulateTo C advert now
    let opening := ChannelOpening.build C P me.signer state.peerIdentityPk outgoingLookupKey
      firstRatchetPk encapsulation.serial
    updateConv fun state =>
      { state with
        ownControlKey := some (controlKey C encapsulation.sharedSecret)
        ownHelloSecret := some encapsulation.sharedSecret
        ownHelloKemCt := some encapsulation.ciphertext
        ownOpening := some opening }
  else return ()

/-- What the hello back is sealed from. -/
def helloBackSeal (state : ConvState B) (advertSerial : Nat) : Except FlowError (HelloSeal B) := do
  let ownSecret ← orElse state.ownHelloSecret (.incomplete "hello secret of its own")
  let ownKemCt ← orElse state.ownHelloKemCt (.incomplete "hello encapsulation of its own")
  return { sharedSecret := ownSecret, kemCt := ownKemCt, advertSerial, original := none }

/-- The placement a fresh hello back is offered with, where none is persisted
and its secret is still held. -/
def offerHelloBack (C : Crypto B) (P : Platform B) (state : ConvState B) (identity : B)
    (outgoingLookupKey : B) (control : Wire B) (reply : Slot B) (advertSerial : Nat) :
    DmFlow B (Option (HelloAttempt B)) := do
  if state.outstandingHello.isNone && state.ownHelloSecret.isSome then
    let from_ ← helloBackSeal state advertSerial
    let attempt := HelloAttempt.new (← repick)
    let hello := sealOutstanding C P from_ outgoingLookupKey identity attempt
    let _ : Unit ← Flow.call (Query.offerAcceptance
      { lookupKey := outgoingLookupKey, control, replySubkey := slotFor reply.header.seq, reply
        helloSlot := attempt.slot C P, hello := hello.sealed })
    return some attempt
  else return none

/-- The placement a hello back is tried with first: the one offered, or a
fresh one. -/
def firstAttempt : Option (HelloAttempt B) → DmFlow B (HelloAttempt B)
  | some attempt => return attempt
  | none => do return .new (← repick)

/-- The hello back: the persisted bytes, or a placement. -/
def writeHelloBack (C : Crypto B) (P : Platform B) (state : ConvState B)
    (identity outgoingLookupKey : B) (advertSerial : Nat) (offered : Option (HelloAttempt B)) :
    DmFlow B (Nat × Nat) := do
  match state.outstandingHello with
  | some hello => do
    writeDropSlot identity hello.slot hello.sealed
    return (hello.slot, 0)
  | none => do
    let from_ ← helloBackSeal state advertSerial
    let attempt ← placeHello C P identity outgoingLookupKey from_ (← firstAttempt offered)
    return (attempt.slot C P, attempt.repicks)

/-- The end of an acceptance, recorded together with the collection it read.
Nothing of the record is compared with what was loaded. -/
def finishSection (reader : Conversation B) (loadedForced : Bool) (collected peerCollected : Nat)
    (state : ConvState B) : ConvState B :=
  { writeConversation state reader loadedForced with
    myCollected := collected
    peerCollected := max state.peerCollected peerCollected
    acceptancePending := false }

/-- Perform what the record shows is not done yet of an acceptance. `slot` is
the collected hello's, to erase; `rounds` bounds the ring read. -/
def finishAccept (C : Crypto B) (P : Platform B) (me : Me B) (rounds : Nat) (state : ConvState B)
    (slot : Option Nat) (now : Nat) : DmFlow B (Accepted B) := do
  let peerKey ← orElse state.peerControlKey (.incomplete "control key of the correspondent")
  let peerSerial ←
    orElse state.peerAdvertSerial (.incomplete "advert serial of the correspondent")
  readAcceptedOpening C P (P.publicKey me.signer) peerKey state.incomingLookupKey peerSerial
    state.peerIdentityPk (state.conversation.receiving.peerLatest.map (·.pk))
  let outgoingLookupKey ← outgoingChannel P me state
  let reply ← orElse (← outstandingZero) (.incomplete "outbox entry for the reply")
  let reply ← (decodeSlot (.slot reply)).mapError FlowError.channel
  let firstRatchetPk ← orElse reply.header.kemPk (.chain .noTurn)
  mintAcceptance C P me state outgoingLookupKey firstRatchetPk now
  let ring ← (Ring.restore state.sendSeq state.peerCollected).mapError FlowError.channel
  let (read, reader, ring) ← readRing C P state.incomingLookupKey rounds
    (Conversation.restore state.conversation) ring [] state.myCollected
  let current ← load
  let ownControlKey ← orElse current.ownControlKey (.incomplete "control key of its own")
  let opening ← orElse current.ownOpening (.incomplete "channel opening of its own")
  let control := Wire.control ownControlKey
    { opening := some opening, collectedCursor := current.myCollected, closed := false
      generation := current.generation }
  let offered ← offerHelloBack C P current state.peerIdentityPk outgoingLookupKey control reply
    opening.advertSerial
  writeAll ((slot.map fun slot => .eraseDropSlot (P.publicKey me.signer) slot).toList ++
    [.channel outgoingLookupKey controlSubkey control,
     .channel outgoingLookupKey (slotFor reply.header.seq) (.slot reply)])
  let (helloSlot, repicks) ← writeHelloBack C P current state.peerIdentityPk outgoingLookupKey
    opening.advertSerial offered
  updateConv (finishSection reader (forceTurn state) read.collected ring.peerCollected)
  return { outgoingLookupKey, messages := read.messages, helloSlot, repicks
           unopened := read.unopened }

/-- The record an acceptance creates. -/
def acceptanceRecord (C : Crypto B) (request : ContactRequest B) (outgoingLookupKey : B)
    (conversation : Conversation B) (sendSeq : Nat) : ConvState B where
  peerIdentityPk := request.identity
  outgoingLookupKey := outgoingLookupKey
  incomingLookupKey := request.lookupKey
  generation := request.generation
  conversation := conversation.snapshot
  sendSeq := sendSeq
  peerCollected := 0
  myCollected := 0
  cursorPublished := 0
  awaitingAcceptance := false
  acceptancePending := true
  outstandingHello := none
  ownHelloSecret := none
  ownHelloKemCt := none
  ownControlKey := none
  peerControlKey := some (controlKey C request.sharedSecret)
  peerAdvertSerial := some request.advertSerial
  ownOpening := none
  deletePending := false

/-- Accept a contact request. -/
def accept (C : Crypto B) (P : Platform B) (me : Me B) (rounds : Nat)
    (request : ContactRequest B) (reply : B) (now : Nat) : DmFlow B (Accepted B) := do
  if ← correspondenceFor request.identity then
    let state ← load
    refuseWhere state.deletePending .deletePending
    refuseWhere (state.acceptancePending && request.lookupKey != state.incomingLookupKey)
      .alreadyEstablished
    if !state.acceptancePending then alreadyEstablished state
    else finishAccept C P me rounds state (some request.slot) now
  else
    fitsAMessage P reply
    let outgoingLookupKey ← openChannel ⟨me.channelRoot, request.identity, request.generation⟩
    let (seq, ring) ← Ring.new.reserve.mapError FlowError.channel
    let (slot, conversation) ←
      sealSlot C P (Chain.accept C request.sharedSecret request.firstRatchetPk) reply now
    persistOutbox P seq slot now
    createConv (acceptanceRecord C request outgoingLookupKey conversation ring.sendSeq)
    let state ← load
    finishAccept C P me rounds state (some request.slot) now

/-- Carry on an acceptance from its record alone. -/
def continueAcceptance (C : Crypto B) (P : Platform B) (me : Me B) (rounds now : Nat) :
    DmFlow B (Accepted B) := do
  let state ← load
  refuseWhere state.deletePending .deletePending
  if !state.acceptancePending then alreadyEstablished state
  else finishAccept C P me rounds state none now

/-! ## Recognising an acceptance -/

structure Acceptance (B : Type) where
  lookupKey : B
  peerCursor : Nat
  messages : List (ReceivedMessage B)
  unopened : Option (Nat × Nat × ChainError)

/-- The first section: the correspondent's channel and control key. The record
as it leaves it is what the last section compares against. -/
def recogniseSection (asLoaded : AsLoaded B) (lookupKey peerControlKey : B) (state : ConvState B) :
    Except FlowError (AsLoaded B × ConvState B) := do
  refuseIfMarked state
  asLoaded.unchanged state
  let state := { state with
    incomingLookupKey := lookupKey, peerControlKey := some peerControlKey }
  return (.of state, state)

/-- The last section: the end of the first contact. -/
def acceptedSection (asLoaded : AsLoaded B) (conversation : Conversation B) (loadedForced : Bool)
    (collected peerCollected : Nat) (state : ConvState B) :
    Except FlowError (Unit × ConvState B) := do
  refuseIfMarked state
  asLoaded.unchanged state
  return ((), { writeConversation state conversation loadedForced with
    myCollected := collected, peerCollected, outstandingHello := none
    awaitingAcceptance := false, ownHelloSecret := none })

/-- Complete this side's own first contact. -/
def recogniseAcceptance (C : Crypto B) (P : Platform B) (me : Me B) (rounds : Nat)
    (lookupKey : B) (peerCursor : Nat) (peerSecret : B) (slot : Nat) :
    DmFlow B (Acceptance B) := do
  let state ← load
  refuseWhere (!state.awaitingAcceptance) .notOutstanding
  let asLoaded ←
    tryUpdateConv (recogniseSection (.of state) lookupKey (controlKey C peerSecret))
  let ring ← (Ring.restore state.sendSeq state.peerCollected).mapError FlowError.channel
  let (read, conversation, ring) ← readRing C P lookupKey rounds
    (Conversation.restore state.conversation) (ring.advancePeerCollected peerCursor) []
    state.myCollected
  tryUpdateConv (acceptedSection asLoaded conversation (forceTurn state) read.collected
    ring.peerCollected)
  eraseDropSlot (P.publicKey me.signer) slot
  return { lookupKey, peerCursor, messages := read.messages, unopened := read.unopened }

/-! ## Every call on one correspondence -/

inductive Call (B : Type)
  | firstContact (peerIdentityPk body : B) (now : Nat)
  | continueFirstContact
  | resumeFirstContact
  | refreshFirstContact (now : Nat)
  | accept (request : ContactRequest B) (reply : B) (now : Nat)
  | continueAcceptance (now : Nat)
  | recogniseAcceptance (lookupKey : B) (peerCursor : Nat) (peerSecret : B) (slot : Nat)
  | commitMessage (body : B) (now : Nat)
  | sendMessage (body : B) (now : Nat)
  | collectStep
  | publishCursor
  | takePeerCursor (cursor : Nat)
  | deleteOutboxThrough (cursor : Nat)
  | reset
  | markDeletePending

inductive Outcome (B : Type)
  | contact (r : FirstContact B)
  | resumed (slot : Option Nat)
  | refreshed (rewrote : Bool)
  | accepted (a : Accepted B)
  | acceptance (a : Acceptance B)
  | committed (c : Committed B)
  | sent (seq : Nat)
  | collected (step : RingStep B)
  | published (wrote : Bool)
  | done

/-- The flow a call runs. `rounds` bounds its ring read. -/
def Call.flow (C : Crypto B) (P : Platform B) (me : Me B) (rounds : Nat) :
    Call B → DmFlow B (Outcome B)
  | .firstContact pk body now => do return .contact (← Contact.firstContact C P me pk body now)
  | .continueFirstContact => do return .contact (← Contact.continueFirstContact C P)
  | .resumeFirstContact => do return .resumed (← Contact.resumeFirstContact)
  | .refreshFirstContact now => do return .refreshed (← Contact.refreshFirstContact C P now)
  | .accept request reply now => do
    return .accepted (← Contact.accept C P me rounds request reply now)
  | .continueAcceptance now => do
    return .accepted (← Contact.continueAcceptance C P me rounds now)
  | .recogniseAcceptance key cursor secret slot => do
    return .acceptance (← Contact.recogniseAcceptance C P me rounds key cursor secret slot)
  | .commitMessage body now => do return .committed (← Flows.commitMessage C P body now)
  | .sendMessage body now => do return .sent (← Flows.sendMessage C P body now)
  | .collectStep => do return .collected (← Flows.collectStep C P)
  | .publishCursor => do return .published (← Flows.publishCursor)
  | .takePeerCursor cursor => do
    Flows.takePeerCursor cursor
    return .done
  | .deleteOutboxThrough cursor => do
    let _ ← Flows.deleteOutboxThrough cursor
    return .done
  | .reset => do
    Flows.reset
    return .done
  | .markDeletePending => do
    Flows.markDeletePending
    return .done

end Daemonseed.Dm.Contact
