import Daemonseed.Dm.Primitives

/-! # The channel record

The clear fields a slot carries before the sealed body and the associated
data they make, the plaintext that is sealed, the ring of slots with its
backpressure, and the opening and the cursor of the control subkey. The
numbers are `u64` in the source and `Nat` here. -/
namespace Daemonseed.Dm.Channel
open Daemonseed.Dm.Primitives

variable {B : Type}

/-- `MessageHeader`: what a slot says in clear about the body it heads. -/
structure MessageHeader (B : Type) where
  deviceId : Nat
  /-- The writer's turn number this message's key came from. -/
  n : Nat
  /-- The peer turn number the writer had read when it started turn `n`. -/
  m : Nat
  seq : Nat
  /-- The peer's messages the writer has collected, contiguously from 0. -/
  cursor : Nat
  kemCt : Option B
  kemPk : Option B
  deriving DecidableEq, Repr

namespace MessageHeader

/-- Whether this header carries the turn fields. -/
def startsTurn (h : MessageHeader B) : Bool := h.kemCt.isSome && h.kemPk.isSome

/-- The header as it is written before the sealed body. -/
def encode (h : MessageHeader B) : List (Piece B) :=
  [.be32 h.deviceId, .be64 h.n, .be64 h.m, .be64 h.seq, .be64 h.cursor, .lp h.kemCt, .lp h.kemPk]

theorem encode_inj {h k : MessageHeader B} (e : h.encode = k.encode) : h = k := by
  cases h
  cases k
  simpa [encode] using e

end MessageHeader

/-- `message_aad`: the domain label, then the header as written. -/
def messageAad (C : Crypto B) (h : MessageHeader B) : List (Piece B) :=
  .raw (C.label .dmChannelMsgAad) :: h.encode

/-- Every clear field is bound: equal associated data is an equal header. -/
theorem messageAad_inj {C : Crypto B} {h k : MessageHeader B}
    (e : messageAad C h = messageAad C k) : h = k :=
  MessageHeader.encode_inj (List.cons.inj e).2

/-- Why a channel record is refused. -/
inductive ChannelError
  | turnFieldsIncomplete
  | malformed
  | corruptState (sendSeq peerCollected : Nat)
  | ringFull (sendSeq peerCollected : Nat)
  | recipient
  | lookupKey
  | signature
  | advertSerial (expected found : Nat)
  | aead
  | messagePlaintext
  deriving DecidableEq, Repr

/-! ## Sizes -/

def channelSubkeys : Nat := 64

def controlSubkey : Nat := 0

def ringSlots : Nat := 63

def channelSubkeyLen : Nat := min (1024 * 1024 / channelSubkeys) (32 * 1024)

/-- The four numbers and the device, and the two turn fields behind their
lengths, at ML-KEM-1024's 1568 bytes each. -/
def messageHeaderMaxLen : Nat := 4 + 8 + 8 + 8 + 8 + (8 + 1568) + (8 + 1568)

/-- One subkey less the largest header, the envelope's nonce and tag, and the
plaintext's version and time. -/
def messageBodyMaxLen : Nat := channelSubkeyLen - messageHeaderMaxLen - (12 + 16) - (1 + 8)

/-! ## The message plaintext -/

def messagePlaintextVersion : Nat := 1

/-- The version byte and the sender's time in front of the body. -/
def encodeMessagePlaintext (P : Platform B) (sentAtMs : Nat) (body : B) : B :=
  P.u8 messagePlaintextVersion (P.u64 sentAtMs body)

def decodeMessagePlaintext (P : Platform B) (plaintext : B) : Except ChannelError (Nat × B) :=
  match P.takeU8 plaintext with
  | none => .error .messagePlaintext
  | some (version, rest) =>
    if version ≠ messagePlaintextVersion then .error .messagePlaintext
    else
      match P.takeU64 rest with
      | none => .error .messagePlaintext
      | some (sentAt, body) => .ok (sentAt, body)

theorem decode_encode_messagePlaintext {P : Platform B} (h : Framed P) (sentAtMs : Nat) (body : B) :
    decodeMessagePlaintext P (encodeMessagePlaintext P sentAtMs body) = .ok (sentAtMs, body) := by
  simp [decodeMessagePlaintext, encodeMessagePlaintext, h.takeU8_u8, h.takeU64_u64]

/-! ## The ring -/

/-- Which subkey message `seq` occupies. -/
def slotFor (seq : Nat) : Nat := 1 + seq % ringSlots

/-- Whether message `seq` has been collected, given the peer's cursor. -/
def collected (seq peerCursor : Nat) : Bool := seq < peerCursor

/-- The send side of the ring. -/
structure Ring where
  sendSeq : Nat
  peerCollected : Nat
  deriving DecidableEq, Repr

namespace Ring

def new : Ring := ⟨0, 0⟩

def restore (sendSeq peerCollected : Nat) : Except ChannelError Ring :=
  if sendSeq < peerCollected then .error (.corruptState sendSeq peerCollected)
  else .ok ⟨sendSeq, peerCollected⟩

def uncollected (self : Ring) : Nat := self.sendSeq - self.peerCollected

/-- Take the next sequence, or refuse at `RING_SLOTS` uncollected ones. -/
def reserve (self : Ring) : Except ChannelError (Nat × Ring) :=
  if ringSlots ≤ self.uncollected then .error (.ringFull self.sendSeq self.peerCollected)
  else .ok (self.sendSeq, { self with sendSeq := self.sendSeq + 1 })

/-- Take the peer's cursor, which never moves backwards. -/
def advancePeerCollected (self : Ring) (cursor : Nat) : Ring :=
  let bounded := min cursor self.sendSeq
  if self.peerCollected < bounded then { self with peerCollected := bounded } else self

/-- A ring that owes no more than it holds. -/
structure Sound (ring : Ring) : Prop where
  le : ring.peerCollected ≤ ring.sendSeq
  bound : ring.sendSeq - ring.peerCollected ≤ ringSlots

theorem restore_ok {sendSeq peerCollected : Nat} {ring : Ring}
    (h : restore sendSeq peerCollected = .ok ring) :
    ring = ⟨sendSeq, peerCollected⟩ ∧ peerCollected ≤ sendSeq := by
  unfold restore at h
  split at h
  · cases h
  · cases h
    exact ⟨rfl, by omega⟩

theorem reserve_ok {self ring : Ring} {seq : Nat} (h : self.reserve = .ok (seq, ring)) :
    seq = self.sendSeq ∧ ring = { self with sendSeq := self.sendSeq + 1 } ∧
      self.uncollected < ringSlots := by
  unfold reserve at h
  split at h
  · cases h
  · cases h
    exact ⟨rfl, rfl, by omega⟩

@[simp] theorem advance_sendSeq (self : Ring) (cursor : Nat) :
    (self.advancePeerCollected cursor).sendSeq = self.sendSeq := by
  unfold advancePeerCollected
  dsimp only
  split <;> rfl

theorem advance_le (self : Ring) (cursor : Nat) :
    self.peerCollected ≤ (self.advancePeerCollected cursor).peerCollected := by
  unfold advancePeerCollected
  dsimp only
  split
  · exact Nat.le_of_lt ‹_›
  · exact Nat.le_refl _

theorem Sound.advance {self : Ring} (h : self.Sound) (cursor : Nat) :
    (self.advancePeerCollected cursor).Sound := by
  obtain ⟨hle, hbound⟩ := h
  unfold advancePeerCollected
  dsimp only
  split
  · exact ⟨by simp only; omega, by simp only; omega⟩
  · exact ⟨hle, hbound⟩

end Ring

/-! ## The control subkey -/

/-- A channel opening: who writes the channel, for whom, where, and the first
ratchet key. -/
structure ChannelOpening (B : Type) where
  writerIdentityPk : B
  recipientIdentityPk : B
  channelLookupKey : B
  firstRatchetPk : B
  advertSerial : Nat
  signature : B
  deriving DecidableEq, Repr

def openingSigningInput (C : Crypto B) (writer recipient lookupKey ratchetPk : B) (serial : Nat) :
    List (Piece B) :=
  [.raw (C.label .dmChannelOpeningSig), .lp (some writer), .lp (some recipient),
    .lp (some lookupKey), .lp (some ratchetPk), .be64 8, .be64 serial]

namespace ChannelOpening

def build (C : Crypto B) (P : Platform B) (signer recipient lookupKey ratchetPk : B)
    (advertSerial : Nat) : ChannelOpening B where
  writerIdentityPk := P.publicKey signer
  recipientIdentityPk := recipient
  channelLookupKey := lookupKey
  firstRatchetPk := ratchetPk
  advertSerial := advertSerial
  signature := P.sign signer
    (openingSigningInput C (P.publicKey signer) recipient lookupKey ratchetPk advertSerial)

/-- The signature, then the recipient, the channel and the serial. -/
def verify (C : Crypto B) (P : Platform B) [DecidableEq B] (self : ChannelOpening B)
    (recipient lookupKey : B) (advertSerial : Nat) : Except ChannelError Unit :=
  let preimage := openingSigningInput C self.writerIdentityPk self.recipientIdentityPk
    self.channelLookupKey self.firstRatchetPk self.advertSerial
  if !P.verify self.writerIdentityPk preimage self.signature then .error .signature
  else if self.recipientIdentityPk ≠ recipient then .error .recipient
  else if self.channelLookupKey ≠ lookupKey then .error .lookupKey
  else if self.advertSerial ≠ advertSerial then
    .error (.advertSerial advertSerial self.advertSerial)
  else .ok ()

end ChannelOpening

/-- The control subkey's plaintext. -/
structure Control (B : Type) where
  opening : Option (ChannelOpening B)
  collectedCursor : Nat
  closed : Bool
  generation : Nat
  deriving DecidableEq, Repr

/-- `control_key`: what the control subkey is sealed under. -/
def controlKey (C : Crypto B) (ssHello : B) : B :=
  C.hkdf (C.label .dmChannelControlSalt) [.raw ssHello] (C.label .dmChannelControl)

end Daemonseed.Dm.Channel
