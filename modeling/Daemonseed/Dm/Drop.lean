import Daemonseed.Dm.Contact
import Daemonseed.Lib.Solo

/-! # Reading a drop

The scan of one slot: the hello in it opened under the advert keys still held,
verified against the control record of the channel it names, and settled
against what the store holds for the identity that signed it. The store holds
every correspondence, each under the identity it is with; what a scan does
beside its reads it does to that one. -/
namespace Daemonseed.Dm.Drop
open Daemonseed.Dm.Primitives Daemonseed.Dm.Channel Daemonseed.Dm.Chain Daemonseed.Dm.Records
  Daemonseed.Dm.Store Daemonseed.Dm.Flows Daemonseed.Dm.Contact Daemonseed.Lib.Flows
  Daemonseed.Lib.Solo

variable {B : Type} [DecidableEq B]

/-! ## The advert keys -/

structure AdvertKey (B : Type) where
  serial : Nat
  dk : B
  deriving DecidableEq, Repr

/-- The current key and the one retired before it. -/
structure AdvertKeys (B : Type) where
  current : AdvertKey B
  previous : Option (AdvertKey B)
  deriving DecidableEq, Repr

namespace AdvertKeys

/-- The serial selects the key. -/
def decapsulate (C : Crypto B) (self : AdvertKeys B) (serial : Nat) (ciphertext : B) : Option B :=
  if self.current.serial = serial then some (C.decapsulate self.current.dk ciphertext)
  else match self.previous with
    | some retained =>
      if retained.serial = serial then some (C.decapsulate retained.dk ciphertext) else none
    | none => none

def serials (self : AdvertKeys B) : List Nat :=
  self.current.serial :: (self.previous.map (·.serial)).toList

end AdvertKeys

/-! ## A hello -/

/-- The seal opens under its own secret and for its own recipient; a carried secret is not the
zero one; and the `r` picks the slot. -/
def openHello (C : Crypto B) (P : Platform B) (secret : B) (hello : SealedHello B) (recipient : B)
    (slot : Nat) : Bool :=
  hello.secret == secret && hello.recipient == recipient && hello.original != some P.zeros &&
    dropSlotFor C P hello.r == slot

/-- The current secret is tried, and then the retained one. -/
def openAgainstEither (C : Crypto B) (P : Platform B) (keys : AdvertKeys B) (bytes : Wire B)
    (myPk : B) (slot : Nat) : Option (SealedHello B × B × Nat) :=
  match bytes with
  | .hello hello =>
    keys.serials.findSome? fun serial =>
      (keys.decapsulate C serial hello.kemCt).bind fun secret =>
        if openHello C P secret hello myPk slot then some (hello, secret, serial) else none
  | _ => none

/-- A rewrite arrives under a later serial than its opening names. -/
def openingSerial (rewritten : Bool) (decapsulatedUnder : Nat) (opening : ChannelOpening B) :
    Option Nat :=
  if !rewritten then some decapsulatedUnder
  else if opening.advertSerial < decapsulatedUnder then some opening.advertSerial else none

inductive Surfaced (B : Type)
  | dropped (identity : B)
  | startedOver (request : ContactRequest B)
  | accepted (a : Acceptance B)
  | contactRequest (request : ContactRequest B)
  | failed (identity : B) (error : FlowError)
  | alreadyCollected (identity : B)

/-- The request a scan hands on to be accepted. -/
def Surfaced.request : Surfaced B → Option (ContactRequest B)
  | .startedOver request | .contactRequest request => some request
  | _ => none

/-- What a verified hello is settled with. -/
structure Heard (B : Type) where
  opening : ChannelOpening B
  cursor : Nat
  generation : Nat

def contactRequest (identity : B) (hello : SealedHello B) (heard : Heard B) (sharedSecret : B)
    (slot : Nat) : ContactRequest B where
  identity := identity
  lookupKey := hello.lookupKey
  firstRatchetPk := heard.opening.firstRatchetPk
  slot := slot
  advertSerial := heard.opening.advertSerial
  sharedSecret := sharedSecret
  generation := heard.generation

/-- A verified hello, against what is held for the identity that signed it. -/
def settle (C : Crypto B) (P : Platform B) (me : Me B) (rounds : Nat) (identity : B)
    (hello : SealedHello B) (heard : Heard B) (sharedSecret : B) (slot : Nat) :
    DmFlow B (Surfaced B) := do
  if ← correspondenceFor identity then
    let state ← load
    if state.awaitingAcceptance then
      let acceptance ←
        recogniseAcceptance C P me rounds hello.lookupKey heard.cursor sharedSecret slot
      return .accepted acceptance
    else if hello.lookupKey = state.incomingLookupKey then
      eraseDropSlot (P.publicKey me.signer) slot
      return .alreadyCollected identity
    else return .startedOver (contactRequest identity hello heard sharedSecret slot)
  else return .contactRequest (contactRequest identity hello heard sharedSecret slot)

/-- A flow over every correspondence, each under the identity it is with. -/
abbrev StoreFlow (B : Type) : Type → Type := Flow (B → Correspondence B) (Query B) Reply FlowError

/-- A failure of one correspondent's is carried as a result; one of the store stops the scan. -/
def settledAs (identity : B) : Except FlowError (Surfaced B) → StoreFlow B (Option (Surfaced B))
  | .ok surfaced => return some surfaced
  | .error (.store e) => throw (.store e)
  | .error e => return some (.failed identity e)

/-- The control record of the channel a hello names, where it verifies the hello. -/
def verifiedBy (C : Crypto B) (P : Platform B) (myPk : B) (hello : SealedHello B)
    (decapsulated : B) (serial : Nat) (found : Except RecordError (Option (Wire B))) :
    Option (Heard B) :=
  match found with
  | .ok (some bytes) => do
    let control ← (openControlWithKey (controlKey C (hello.original.getD decapsulated)) bytes).toOption
    let opening ← control.opening
    let bound ← openingSerial hello.original.isSome serial opening
    let _ ← (opening.verify C P myPk hello.lookupKey bound).toOption
    return ⟨opening, control.collectedCursor, control.generation⟩
  | _ => none

def settleVerified (C : Crypto B) (P : Platform B) (me : Me B) (rounds : Nat) (isBlocked : B → Bool)
    (slot : Nat) (hello : SealedHello B) (sharedSecret : B) (heard : Heard B) :
    StoreFlow B (Option (Surfaced B)) := do
  if isBlocked heard.opening.writerIdentityPk then
    return some (.dropped heard.opening.writerIdentityPk)
  else
    let result ← settled (focus heard.opening.writerIdentityPk
      (settle C P me rounds heard.opening.writerIdentityPk hello heard sharedSecret slot))
    settledAs heard.opening.writerIdentityPk result

def verifyOpened (C : Crypto B) (P : Platform B) (me : Me B) (rounds : Nat) (isBlocked : B → Bool)
    (slot : Nat) (hello : SealedHello B) (decapsulated : B) (serial : Nat) :
    StoreFlow B (Option (Surfaced B)) := do
  let found : Except RecordError (Option (Wire B)) ←
    Flow.call (Query.readChannel hello.lookupKey controlSubkey)
  match verifiedBy C P (P.publicKey me.signer) hello decapsulated serial found with
  | none => return none
  | some heard =>
    settleVerified C P me rounds isBlocked slot hello (hello.original.getD decapsulated) heard

/-- What a slot that reads opens to. -/
def openedIn (C : Crypto B) (P : Platform B) (keys : AdvertKeys B) (myPk : B) (slot : Nat)
    (read : Except RecordError (Option (Wire B))) : Option (SealedHello B × B × Nat) :=
  match read with
  | .ok (some bytes) => openAgainstEither C P keys bytes myPk slot
  | _ => none

/-- Read one slot of this side's drop and settle the hello in it. -/
def collectSlot (C : Crypto B) (P : Platform B) (me : Me B) (rounds : Nat) (advertKeys : AdvertKeys B)
    (isBlocked : B → Bool) (slot : Nat) : StoreFlow B (Option (Surfaced B)) := do
  let read : Except RecordError (Option (Wire B)) ←
    Flow.call (Query.readDropSlot (P.publicKey me.signer) slot)
  match openedIn C P advertKeys (P.publicKey me.signer) slot read with
  | none => return none
  | some (hello, decapsulated, serial) =>
    verifyOpened C P me rounds isBlocked slot hello decapsulated serial

/-- The records of one correspondent, gone. -/
def deleteConv : DmFlow B Unit := Flow.attempt fun _ => .ok ((), ⟨none, fun _ => none⟩)

end Daemonseed.Dm.Drop
