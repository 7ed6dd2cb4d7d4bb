import Daemonseed.Lib.Results
import Daemonseed.Room.Signing
import Daemonseed.Room.Wire

/-! # The sealed frames of a room

How a frame is opened under the key of a room and its signature verified, for a
chat message, a beacon and a share announcement. The cipher, the signature
scheme, the hash and the decoders of the wire schema are parameters. -/
namespace Daemonseed.Room.Sealed
open Daemonseed.Lib.Bytes Daemonseed.Lib.Lines Daemonseed.Lib.Results Daemonseed.Room.Signing
  Daemonseed.Room.Wire

def nonceLen : Nat := 12

def tagLen : Nat := 16

/-- Of a public key. -/
def pkLen : Nat := 2592

def sigLen : Nat := 4627

def roomMessageAad : Octets := utf8 "daemonseed/public-room/message/v1"

def messageAad : Octets := utf8 "daemonseed/circle/message/v2"

def heartbeatAad : Octets := utf8 "daemonseed/presence/heartbeat/v1"

def shareAnnounceAad : Octets := utf8 "daemonseed/share/announce/aad/v2"

/-- What the cipher refuses with. -/
inductive GcmError
  | tagMismatch
  | mode
  deriving DecidableEq, Repr

inductive EnvelopeError
  | tooShort
  | decrypt (e : GcmError)
  deriving DecidableEq, Repr

/-- What opening a frame fails with, the same for each kind of frame. -/
inductive OpenError
  | aead
  | authentication
  | truncated
  | decode
  | provenance
  deriving DecidableEq, Repr

def OpenError.ofEnvelope : EnvelopeError → OpenError
  | .tooShort => .truncated
  | .decrypt .tagMismatch => .authentication
  | .decrypt .mode => .aead

/-- The code outside the repository that opening a frame calls. -/
structure Primitives where
  gcmDecrypt : (key nonce aad ciphertext tag : Octets) → Except GcmError Octets
  verifySignature : (pubkey message signature : Octets) → Bool
  sha384 : Octets → Octets
  decodeRoomMessage : Octets → Option RoomMessage
  decodeHeartbeat : Octets → Option MemberHeartbeat
  decodeAnnouncement : Octets → Option ShareAnnouncement

section

variable (P : Primitives)

def openEnvelope (key aad bytes : Octets) : Except EnvelopeError Octets :=
  if bytes.length < nonceLen + tagLen then .error .tooShort
  else
    let afterNonce := bytes.drop nonceLen
    let ciphertextLen := afterNonce.length - tagLen
    (P.gcmDecrypt key (bytes.take nonceLen) aad (afterNonce.take ciphertextLen)
      (afterNonce.drop ciphertextLen)).mapError .decrypt

/-- The lengths of the key and of the signature are checked before the scheme is asked. -/
def verifyProvenance (pubkey message signature : Octets) : Except OpenError Unit :=
  if pubkey.length ≠ pkLen then .error .provenance
  else if signature.length ≠ sigLen then .error .provenance
  else if P.verifySignature pubkey message signature then .ok () else .error .provenance

def decoded {α : Type} : Option α → Except OpenError α
  | some message => .ok message
  | none => .error .decode

/-- The signature is verified over the room the reader expects, not over the one the message
names. -/
def openSignedRoomMessage (key aad provenanceDomain bytes : Octets) (expectedRoomId : String) :
    Except OpenError RoomMessage := do
  let plaintext ← (openEnvelope P key aad bytes).mapError .ofEnvelope
  let message ← decoded (P.decodeRoomMessage plaintext)
  verifyProvenance P message.senderPubkey
    (RoomMessage.provenanceInput provenanceDomain expectedRoomId message.senderPubkey
      message.sentUnixMs message.body) message.signature
  return message

def openRoomMessage (roomKey : Octets) (room : String) (bytes : Octets) :
    Except OpenError RoomMessage :=
  openSignedRoomMessage P roomKey roomMessageAad roomProvenanceDomain bytes room

def circleFingerprintHexLen : Nat := 12

/-- The circle is named by its key. -/
def circleRoomId (cotKey : Octets) : String :=
  String.ofList (showHex ((P.sha384 cotKey).take (circleFingerprintHexLen / 2)))

def openMessage (cotKey bytes : Octets) : Except OpenError RoomMessage :=
  openSignedRoomMessage P cotKey messageAad circleProvenanceDomain bytes (circleRoomId P cotKey)

/-! ## Beacons -/

def heartbeatLenPrefix : Nat := 4

/-- A number written least significant byte first. -/
def fromLe (bytes : Octets) : Nat := fromBe bytes.reverse

def unpadPlaintext (padded : Octets) : Except OpenError Octets :=
  if padded.length < heartbeatLenPrefix then .error .truncated
  else
    let len := fromLe (padded.take heartbeatLenPrefix)
    if heartbeatLenPrefix + len ≤ padded.length then
      .ok ((padded.drop heartbeatLenPrefix).take len)
    else .error .truncated

def heartbeatPaddedPlaintextLen : Nat := 8192

/-- Every beacon is padded to one length; a longer one is refused. -/
def padPlaintext (encoded : Octets) : Option Octets :=
  if heartbeatLenPrefix + encoded.length > heartbeatPaddedPlaintextLen then none
  else some (padded ((toBe 4 encoded.length).reverse ++ encoded) heartbeatPaddedPlaintextLen)

/-- The beacon a frame carries, its signature not verified yet. -/
def carriedHeartbeat (key bytes : Octets) : Except OpenError MemberHeartbeat := do
  let plaintext ← (openEnvelope P key heartbeatAad bytes).mapError .ofEnvelope
  let encoded ← unpadPlaintext plaintext
  decoded (P.decodeHeartbeat encoded)

/-- The signature is verified over the room that the beacon itself names. -/
def openHeartbeat (key bytes : Octets) : Except OpenError MemberHeartbeat := do
  let message ← carriedHeartbeat P key bytes
  verifyProvenance P message.senderPubkey
    (Heartbeat.provenanceInput message.room message.senderPubkey message.sentUnixMs
      message.liveShareIds message.isLeave) message.signature
  return message

/-! ## Share announcements -/

/-- The announcement a frame carries, its signature not verified yet. -/
def carriedAnnouncement (key bytes : Octets) : Except OpenError ShareAnnouncement := do
  let plaintext ← (openEnvelope P key shareAnnounceAad bytes).mapError .ofEnvelope
  decoded (P.decodeAnnouncement plaintext)

/-- The signature is verified over the room that the announcement itself names. -/
def openAnnouncement (key bytes : Octets) : Except OpenError ShareAnnouncement := do
  let message ← carriedAnnouncement P key bytes
  verifyProvenance P message.senderPubkey
    (ShareAnnounce.provenanceInput message.room message.senderPubkey message.shareId
      message.rootCommitment message.name message.rating message.withdraw message.sentUnixMs)
    message.signature
  return message

/-! ## Route adverts -/

/-- Whether the announcer signed the route for the share. -/
def verifyRouteAdvert (announcerPubkey : Octets) (shareId : String) (routeBlob routeSig : Octets) :
    Bool :=
  announcerPubkey.length == pkLen && routeSig.length == sigLen &&
    P.verifySignature announcerPubkey (routeProvenanceInput shareId routeBlob) routeSig

end

/-! ## What an opened frame says -/

variable {P : Primitives} {key bytes : Octets}

theorem verifyProvenance_ok {pubkey message signature : Octets} {u : Unit} :
    verifyProvenance P pubkey message signature = .ok u ↔
      pubkey.length = pkLen ∧ signature.length = sigLen ∧
        P.verifySignature pubkey message signature = true := by
  unfold verifyProvenance
  split
  · simp_all
  · split
    · simp_all
    · split <;> simp_all

theorem openRoomMessage_ok {room : String} {message : RoomMessage}
    (h : openRoomMessage P key room bytes = .ok message) :
    P.verifySignature message.senderPubkey
      (Signable.roomMessage room message.senderPubkey message.sentUnixMs message.body).input
      message.signature = true := by
  unfold openRoomMessage openSignedRoomMessage at h
  obtain ⟨plaintext, -, h⟩ := bind_ok.1 h
  obtain ⟨found, -, h⟩ := bind_ok.1 h
  obtain ⟨u, verified, h⟩ := bind_ok.1 h
  cases h
  exact (verifyProvenance_ok.1 verified).2.2

theorem openRoomMessage_refused {room : String} {e : EnvelopeError}
    (h : openEnvelope P key roomMessageAad bytes = .error e) :
    openRoomMessage P key room bytes = .error (.ofEnvelope e) := by
  unfold openRoomMessage openSignedRoomMessage
  rw [h]
  rfl

/-- The beacon handed back is the one carried, and its signature is for the room it names. -/
theorem openHeartbeat_ok {hb : MemberHeartbeat} :
    openHeartbeat P key bytes = .ok hb ↔
      carriedHeartbeat P key bytes = .ok hb ∧ hb.senderPubkey.length = pkLen ∧
        hb.signature.length = sigLen ∧
        P.verifySignature hb.senderPubkey
          (Signable.heartbeat hb.room hb.senderPubkey hb.sentUnixMs hb.liveShareIds
            hb.isLeave).input hb.signature = true := by
  unfold openHeartbeat
  constructor
  · intro h
    obtain ⟨carried, opened, h⟩ := bind_ok.1 h
    obtain ⟨u, verified, h⟩ := bind_ok.1 h
    cases h
    exact ⟨opened, verifyProvenance_ok.1 verified⟩
  · intro ⟨opened, verified⟩
    exact bind_ok.2 ⟨hb, opened, bind_ok.2 ⟨(), verifyProvenance_ok.2 verified, rfl⟩⟩

theorem openAnnouncement_ok {ann : ShareAnnouncement} :
    openAnnouncement P key bytes = .ok ann ↔
      carriedAnnouncement P key bytes = .ok ann ∧ ann.senderPubkey.length = pkLen ∧
        ann.signature.length = sigLen ∧
        P.verifySignature ann.senderPubkey
          (Signable.announcement ann.room ann.senderPubkey ann.shareId ann.rootCommitment ann.name
            ann.rating ann.withdraw ann.sentUnixMs).input ann.signature = true := by
  unfold openAnnouncement
  constructor
  · intro h
    obtain ⟨carried, opened, h⟩ := bind_ok.1 h
    obtain ⟨u, verified, h⟩ := bind_ok.1 h
    cases h
    exact ⟨opened, verifyProvenance_ok.1 verified⟩
  · intro ⟨opened, verified⟩
    exact bind_ok.2 ⟨ann, opened, bind_ok.2 ⟨(), verifyProvenance_ok.2 verified, rfl⟩⟩

/-- What was padded is read back. -/
theorem unpadPlaintext_pad {encoded plaintext : Octets} (h : padPlaintext encoded = some plaintext) :
    unpadPlaintext plaintext = .ok encoded := by
  unfold padPlaintext at h
  split at h
  · cases h
  · rename_i fits
    cases h
    have prefixLen : (toBe 4 encoded.length).reverse.length = heartbeatLenPrefix := by
      rw [List.length_reverse, toBe_length]
      rfl
    have small : encoded.length < 256 ^ 4 := by
      unfold heartbeatPaddedPlaintextLen at fits
      omega
    have read : fromLe (toBe 4 encoded.length).reverse = encoded.length := by
      rw [fromLe, List.reverse_reverse, fromBe_toBe, Nat.mod_eq_of_lt small]
    have width : (padded ((toBe 4 encoded.length).reverse ++ encoded)
        heartbeatPaddedPlaintextLen).length = heartbeatPaddedPlaintextLen := by
      refine padded_length ?_
      rw [List.length_append, prefixLen]
      omega
    have short : ¬ heartbeatPaddedPlaintextLen < heartbeatLenPrefix := by decide
    unfold unpadPlaintext
    rw [if_neg (by rw [width]; exact short)]
    unfold padded
    rw [List.append_assoc, ← prefixLen, List.take_left, List.drop_left, read]
    show (if _ then _ else _) = _
    rw [List.take_left, if_pos]
    simp only [List.length_append, List.length_reverse, toBe_length]
    omega

/-- A frame of a nonce, a ciphertext and a tag is decrypted as these. -/
theorem openEnvelope_append {nonce aad ciphertext tag : Octets} (hn : nonce.length = nonceLen)
    (ht : tag.length = tagLen) :
    openEnvelope P key aad (nonce ++ ciphertext ++ tag) =
      (P.gcmDecrypt key nonce aad ciphertext tag).mapError .decrypt := by
  have long : ¬ (nonce ++ ciphertext ++ tag).length < nonceLen + tagLen := by
    simp only [List.length_append]
    omega
  have after : (nonce ++ ciphertext ++ tag).drop nonceLen = ciphertext ++ tag := by
    rw [List.append_assoc, ← hn, List.drop_left]
  have front : (nonce ++ ciphertext ++ tag).take nonceLen = nonce := by
    rw [List.append_assoc, ← hn, List.take_left]
  have width : (ciphertext ++ tag).length - tagLen = ciphertext.length := by
    rw [List.length_append, ht, Nat.add_sub_cancel]
  simp only [openEnvelope, if_neg long, after, front, width, List.take_left, List.drop_left]

end Daemonseed.Room.Sealed
