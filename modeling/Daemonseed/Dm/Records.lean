import Daemonseed.Dm.Channel

/-! # The records of the network

The advert a correspondent publishes, the hello left in its drop, the slots
and the control subkey of a channel, and what a flow asks of the store that
holds them. What a record's bytes decode to is kept in their place: a slot as
its header and its sealed body, a sealed control subkey or hello as what was
sealed and the key or secret it opens under. -/
namespace Daemonseed.Dm.Records
open Daemonseed.Dm.Primitives Daemonseed.Dm.Channel

variable {B : Type}

/-! ## The advert -/

/-- The advert as it is published. -/
structure Advert (B : Type) where
  serial : Nat
  notBefore : Nat
  kemPk : B
  signature : B
  deriving DecidableEq, Repr

inductive AdvertError
  | length
  | signature
  | unusable (now notBefore : Nat)
  | entropy
  deriving DecidableEq, Repr

def rotationPeriodSecs : Nat := 7 * 24 * 60 * 60

def clockSkewSecs : Nat := 60 * 60

def advertSigningInput (C : Crypto B) (identityPk : B) (serial notBefore : Nat) (kemPk : B) :
    List (Piece B) :=
  [.raw (C.label .dmAdvertSig), .lp (some identityPk), .be64 8, .be64 serial, .be64 8,
    .be64 notBefore, .lp (some kemPk)]

namespace Advert

/-- The signature, under the identity the reader derived the address from. -/
def verifies (C : Crypto B) (P : Platform B) (self : Advert B) (identityPk : B) : Bool :=
  P.verify identityPk (advertSigningInput C identityPk self.serial self.notBefore self.kemPk)
    self.signature

/-- Whether a sender may encapsulate to this advert at `now`. -/
@[irreducible] def usableAt (self : Advert B) (now : Nat) : Bool :=
  self.notBefore - clockSkewSecs ≤ now ∧ now < self.notBefore + 2 * rotationPeriodSecs

end Advert

/-- What a sender holds after encapsulating to an advert. -/
structure HelloEncapsulation (B : Type) where
  serial : Nat
  sharedSecret : B
  ciphertext : B

/-- Whether the correspondent has rotated past the serial of an outstanding
hello: strictly, so a replayed older advert changes nothing. -/
def helloNeedsRewrite (outstandingSerial : Nat) (observed : Advert B) : Bool :=
  outstandingSerial < observed.serial

/-! ## The drop -/

def dropSubkeys : Nat := 256

/-- A hello as written: the encapsulation in clear, and sealed under the
secret it establishes and bound to its recipient, the channel, the `r` that
placed it and the secret a rewrite carries. -/
structure SealedHello (B : Type) where
  kemCt : B
  secret : B
  recipient : B
  lookupKey : B
  r : B
  original : Option B
  deriving DecidableEq, Repr

inductive DropError
  | entropy
  deriving DecidableEq, Repr

/-- Which slot of a drop a hello placed by `r` occupies. -/
def dropSlotFor (C : Crypto B) (P : Platform B) (r : B) : Nat :=
  P.lastByte (P.sha384 [.raw (C.label .dmDropSlot), .lp (some r)]) % dropSubkeys

theorem dropSlotFor_lt (C : Crypto B) (P : Platform B) (r : B) :
    dropSlotFor C P r < dropSubkeys := Nat.mod_lt _ (by decide)

inductive ReadBack
  | landed
  | clobbered
  deriving DecidableEq, Repr

/-- A hello in flight. Its slot is the one its `r` picks. -/
structure HelloAttempt (B : Type) where
  r : B
  repicks : Nat
  deriving DecidableEq, Repr

namespace HelloAttempt

def new (r : B) : HelloAttempt B := ⟨r, 0⟩

def slot (C : Crypto B) (P : Platform B) (self : HelloAttempt B) : Nat := dropSlotFor C P self.r

end HelloAttempt

/-! ## What a subkey holds -/

/-- One ring slot: the header in clear and the sealed body. -/
structure Slot (B : Type) where
  header : MessageHeader B
  sealed : B
  deriving DecidableEq, Repr

/-- The bytes of a header: the fixed fields, then each turn field behind its
length. -/
def headerLen (P : Platform B) (h : MessageHeader B) : Nat :=
  4 + 8 + 8 + 8 + 8 + (8 + (h.kemCt.map P.length).getD 0) + (8 + (h.kemPk.map P.length).getD 0)

def Slot.length (P : Platform B) (self : Slot B) : Nat :=
  headerLen P self.header + P.length self.sealed

/-- The bytes of a record, by what they decode to. -/
inductive Wire (B : Type)
  | slot (s : Slot B)
  /-- A control subkey sealed under `key`. -/
  | control (key : B) (plaintext : Control B)
  | hello (h : SealedHello B)
  | advert (a : Advert B)
  | other (bytes : B)
  deriving DecidableEq, Repr

/-- `MessageHeader::decode` of a slot: both turn fields or neither. -/
def decodeSlot : Wire B → Except ChannelError (Slot B)
  | .slot s =>
    if s.header.kemCt.isSome ≠ s.header.kemPk.isSome then .error .turnFieldsIncomplete else .ok s
  | _ => .error .malformed

/-- `open_control_with_key`. -/
def openControlWithKey [DecidableEq B] (key : B) : Wire B → Except ChannelError (Control B)
  | .control k plaintext => if k = key then .ok plaintext else .error .aead
  | _ => .error .aead

/-- Settle one read-back: landed only where the slot holds exactly the bytes
written. -/
def afterReadBack [DecidableEq B] (written : SealedHello B) (found : Option (Wire B)) :
    ReadBack :=
  if found = some (.hello written) then .landed else .clobbered

/-! ## What a flow asks -/

/-- What a channel's owner seed is derived from. -/
structure ChannelOwner (B : Type) where
  channelRoot : B
  peerIdentityPk : B
  generation : Nat
  deriving DecidableEq, Repr

/-- A transport's own failure. -/
inductive RecordError
  | refused
  deriving DecidableEq, Repr

inductive BatchWrite (B : Type)
  | channel (lookupKey : B) (subkey : Nat) (bytes : Wire B)
  | eraseDropSlot (owner : B) (slot : Nat)
  deriving DecidableEq, Repr

/-- The bytes a fresh acceptance is about to write, as it offers them; the
push answer beside them is left out. -/
structure AcceptanceWrites (B : Type) where
  lookupKey : B
  control : Wire B
  replySubkey : Nat
  reply : Slot B
  helloSlot : Nat
  hello : SealedHello B
  deriving DecidableEq, Repr

/-- What a flow calls out for: the caller's entropy, the `Records` methods,
and nothing where it would go on for ever. A drop is named by the identity
its owner seed derives from. -/
inductive Query (B : Type)
  /-- One draw of the caller's fill. -/
  | fill
  /-- The eight bytes of a generation. -/
  | generation
  /-- What the fill and the envelope's nonce answer while one message is
  sealed. -/
  | entropy
  | readAdvert (identity : B)
  | readDropSlot (identity : B) (slot : Nat)
  | writeDropSlot (identity : B) (slot : Nat) (bytes : SealedHello B)
  | eraseDropSlot (identity : B) (slot : Nat)
  | openChannel (owner : ChannelOwner B)
  | readChannel (lookupKey : B) (subkey : Nat)
  | writeChannel (lookupKey : B) (subkey : Nat) (bytes : Wire B)
  | writeBatch (writes : List (BatchWrite B))
  | offerAcceptance (writes : AcceptanceWrites B)
  | halt

def Reply : Query B → Type
  | .fill => Option B
  | .generation => Option Nat
  | .entropy => List (Option B) × Option B
  | .readAdvert _ | .readDropSlot _ _ | .readChannel _ _ => Except RecordError (Option (Wire B))
  | .openChannel _ => Except RecordError B
  | .writeDropSlot _ _ _ | .eraseDropSlot _ _ | .writeChannel _ _ _ => Except RecordError Unit
  | .writeBatch _ => List (Except RecordError Unit)
  | .offerAcceptance _ => Unit
  | .halt => Empty

end Daemonseed.Dm.Records
