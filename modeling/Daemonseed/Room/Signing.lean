import Daemonseed.Lib.Framed
import Daemonseed.Lib.Lines

/-! # What an identity key signs

The byte string of each kind of message that an identity signs, and that no two
messages have one byte string: the domains stand apart, and under one domain
the fields are read back. -/
namespace Daemonseed.Room.Signing
open Daemonseed.Lib.Bytes Daemonseed.Lib.Framed Daemonseed.Lib.Lines

/-- A time in milliseconds as it is signed. -/
def be64 (v : Int64) : Octets := toBe 8 v.toUInt64.toNat

def serialBe (v : UInt64) : Octets := toBe 8 v.toNat

/-! ## The domains -/

def roomProvenanceDomain : Octets := utf8 "daemonseed/public-room/message/v1"

def circleProvenanceDomain : Octets := utf8 "daemonseed/circle/message/v2"

def heartbeatProvenanceDomain : Octets := utf8 "daemonseed/presence/heartbeat/v1"

def shareAnnounceProvenanceDomain : Octets := utf8 "daemonseed/share/announce/provenance/v2"

def shareRollcallProvenanceDomain : Octets := utf8 "daemonseed/share/rollcall/v1"

def routeAdvertDomain : Octets := utf8 "daemonseed/veilid/share-route/v1"

def dmAdvertSig : Octets := utf8 "daemonseed/dm/advert/sig/v1"

def dmChannelOpeningSig : Octets := utf8 "daemonseed/dm/channel/opening-sig/v1"

/-! ## The signing inputs -/

/-- Of a chat message, in a public room or in a circle. -/
def RoomMessage.provenanceInput (provenanceDomain : Octets) (roomId : String)
    (senderPubkey : Octets) (sentUnixMs : Int64) (body : String) : Octets :=
  provenanceDomain ++ lps [utf8 roomId, senderPubkey, be64 sentUnixMs, utf8 body]

/-- Of a member's beacon: the digest of its shares after their number, the leave marker last. -/
def Heartbeat.provenanceInput (room : String) (senderPubkey : Octets) (sentUnixMs : Int64)
    (liveShareIds : List String) (isLeave : Bool) : Octets :=
  heartbeatProvenanceDomain ++
    lps ([utf8 room, senderPubkey, be64 sentUnixMs, toBe 8 liveShareIds.length] ++
      liveShareIds.map utf8 ++ [[if isLeave then 1 else 0]])

def ShareAnnounce.provenanceInput (room : String) (senderPubkey : Octets) (shareId : String)
    (rootCommitment : Octets) (name rating : String) (withdraw : Bool) (sentUnixMs : Int64) :
    Octets :=
  shareAnnounceProvenanceDomain ++
    lps [utf8 room, senderPubkey, utf8 shareId, rootCommitment, utf8 name, utf8 rating,
      [if withdraw then 1 else 0], be64 sentUnixMs]

def ShareRollcall.provenanceInput (room : String) (requesterPubkey : Octets)
    (sentUnixMs : Int64) : Octets :=
  shareRollcallProvenanceDomain ++ lps [utf8 room, requesterPubkey, be64 sentUnixMs]

/-- Of the route a share is served over. -/
def routeProvenanceInput (shareId : String) (routeBlob : Octets) : Octets :=
  routeAdvertDomain ++ lps [utf8 shareId, routeBlob]

/-- Of the advert an identity publishes its current key in. -/
def Advert.signingInput (identityPubkey : Octets) (serial notBefore : UInt64) (kemPk : Octets) :
    Octets :=
  dmAdvertSig ++ lps [identityPubkey, serialBe serial, serialBe notBefore, kemPk]

def openingSigningInput (writerIdentityPk recipientIdentityPk channelLookupKey : Octets)
    (firstRatchetPk : Octets) (advertSerial : UInt64) : Octets :=
  dmChannelOpeningSig ++
    lps [writerIdentityPk, recipientIdentityPk, channelLookupKey, firstRatchetPk,
      serialBe advertSerial]

/-! ## The messages -/

/-- A message that an identity key signs, with every field its signature binds. -/
inductive Signable
  | roomMessage (roomId : String) (senderPubkey : Octets) (sentUnixMs : Int64) (body : String)
  | circleMessage (roomId : String) (senderPubkey : Octets) (sentUnixMs : Int64) (body : String)
  | heartbeat (room : String) (senderPubkey : Octets) (sentUnixMs : Int64)
      (liveShareIds : List String) (isLeave : Bool)
  | announcement (room : String) (senderPubkey : Octets) (shareId : String)
      (rootCommitment : Octets) (name rating : String) (withdraw : Bool) (sentUnixMs : Int64)
  | rollCall (room : String) (requesterPubkey : Octets) (sentUnixMs : Int64)
  | routeAdvert (shareId : String) (routeBlob : Octets)
  | dmAdvert (identityPubkey : Octets) (serial notBefore : UInt64) (kemPk : Octets)
  | opening (writerIdentityPk recipientIdentityPk channelLookupKey firstRatchetPk : Octets)
      (advertSerial : UInt64)
  deriving DecidableEq

namespace Signable

/-- What the key signs for a message. -/
def input : Signable → Octets
  | roomMessage room pk sent body => RoomMessage.provenanceInput roomProvenanceDomain room pk sent body
  | circleMessage room pk sent body =>
    RoomMessage.provenanceInput circleProvenanceDomain room pk sent body
  | heartbeat room pk sent ids leave => Heartbeat.provenanceInput room pk sent ids leave
  | announcement room pk id root name rating withdraw sent =>
    ShareAnnounce.provenanceInput room pk id root name rating withdraw sent
  | rollCall room pk sent => ShareRollcall.provenanceInput room pk sent
  | routeAdvert id blob => routeProvenanceInput id blob
  | dmAdvert pk serial notBefore kem => Advert.signingInput pk serial notBefore kem
  | opening writer recipient lookup ratchet serial =>
    openingSigningInput writer recipient lookup ratchet serial

inductive Kind
  | roomMessage
  | circleMessage
  | heartbeat
  | announcement
  | rollCall
  | routeAdvert
  | dmAdvert
  | opening
  deriving DecidableEq

def kind : Signable → Kind
  | roomMessage .. => .roomMessage
  | circleMessage .. => .circleMessage
  | heartbeat .. => .heartbeat
  | announcement .. => .announcement
  | rollCall .. => .rollCall
  | routeAdvert .. => .routeAdvert
  | dmAdvert .. => .dmAdvert
  | opening .. => .opening

def Kind.domain : Kind → Octets
  | roomMessage => roomProvenanceDomain
  | circleMessage => circleProvenanceDomain
  | heartbeat => heartbeatProvenanceDomain
  | announcement => shareAnnounceProvenanceDomain
  | rollCall => shareRollcallProvenanceDomain
  | routeAdvert => routeAdvertDomain
  | dmAdvert => dmAdvertSig
  | opening => dmChannelOpeningSig

/-- The fields bound, in the order they are signed in. -/
def fields : Signable → List Octets
  | roomMessage room pk sent body | circleMessage room pk sent body =>
    [utf8 room, pk, be64 sent, utf8 body]
  | heartbeat room pk sent ids leave =>
    [utf8 room, pk, be64 sent, toBe 8 ids.length] ++ ids.map utf8 ++ [[if leave then 1 else 0]]
  | announcement room pk id root name rating withdraw sent =>
    [utf8 room, pk, utf8 id, root, utf8 name, utf8 rating, [if withdraw then 1 else 0], be64 sent]
  | rollCall room pk sent => [utf8 room, pk, be64 sent]
  | routeAdvert id blob => [utf8 id, blob]
  | dmAdvert pk serial notBefore kem => [pk, serialBe serial, serialBe notBefore, kem]
  | opening writer recipient lookup ratchet serial =>
    [writer, recipient, lookup, ratchet, serialBe serial]

/-- Its fields are no longer than what a vector can hold. -/
def Fits (k : Signable) : Prop := ∀ f ∈ k.fields, Short f

instance {k : Signable} : Decidable k.Fits := inferInstanceAs (Decidable (∀ f ∈ k.fields, Short f))

theorem input_eq (k : Signable) : k.input = k.kind.domain ++ lps k.fields := by
  cases k <;> rfl

/-! ## No two messages have one byte string -/

theorem Kind.apart (i j : Kind) : i.domain = j.domain ∧ i = j ∨ Apart i.domain j.domain := by
  cases i <;> cases j <;> decide

theorem utf8_injective {s t : String} (h : utf8 s = utf8 t) : s = t := by
  have same := congrArg ofUtf8 h
  rwa [ofUtf8_utf8, ofUtf8_utf8, Option.some.injEq] at same

theorem be64_injective {v w : Int64} (h : be64 v = be64 w) : v = w := by
  have bits := toBe_injective v.toUInt64.toNat_lt w.toUInt64.toNat_lt h
  have same := congrArg UInt64.toInt64 (UInt64.toNat_inj.1 bits)
  rwa [Int64.toInt64_toUInt64, Int64.toInt64_toUInt64] at same

theorem serialBe_injective {v w : UInt64} (h : serialBe v = serialBe w) : v = w :=
  UInt64.toNat_inj.1 (toBe_injective v.toNat_lt w.toNat_lt h)

theorem flag_injective {p q : Bool} (h : (if p then 1 else 0 : UInt8) = if q then 1 else 0) : p = q := by
  cases p <;> cases q <;> first | rfl | cases h

/-- Under one domain a message is read back from its fields. -/
theorem fields_injective {a b : Signable} (kinds : a.kind = b.kind) (h : a.fields = b.fields) :
    a = b := by
  cases a with
  | roomMessage room pk sent body =>
    cases b <;> cases kinds
    simp only [fields, List.cons.injEq, and_true] at h
    obtain ⟨rooms, rfl, times, bodies⟩ := h
    rw [utf8_injective rooms, be64_injective times, utf8_injective bodies]
  | circleMessage room pk sent body =>
    cases b <;> cases kinds
    simp only [fields, List.cons.injEq, and_true] at h
    obtain ⟨rooms, rfl, times, bodies⟩ := h
    rw [utf8_injective rooms, be64_injective times, utf8_injective bodies]
  | heartbeat room pk sent ids leave =>
    cases b <;> cases kinds
    -- the leave marker is the last field, so the digest is what stands before it
    obtain ⟨front, last⟩ := List.append_inj' h rfl
    obtain ⟨heads, digest⟩ := List.append_inj front rfl
    simp only [List.cons.injEq, and_true] at heads last
    obtain ⟨rooms, rfl, times, -⟩ := heads
    rw [utf8_injective rooms, be64_injective times,
      List.map_injective_iff.2 (fun _ _ => utf8_injective) digest, flag_injective last]
  | announcement room pk id root name rating withdraw sent =>
    cases b <;> cases kinds
    simp only [fields, List.cons.injEq, and_true] at h
    obtain ⟨rooms, rfl, ids, rfl, names, ratings, flags, times⟩ := h
    rw [utf8_injective rooms, utf8_injective ids, utf8_injective names, utf8_injective ratings,
      flag_injective flags, be64_injective times]
  | rollCall room pk sent =>
    cases b <;> cases kinds
    simp only [fields, List.cons.injEq, and_true] at h
    obtain ⟨rooms, rfl, times⟩ := h
    rw [utf8_injective rooms, be64_injective times]
  | routeAdvert id blob =>
    cases b <;> cases kinds
    simp only [fields, List.cons.injEq, and_true] at h
    obtain ⟨ids, rfl⟩ := h
    rw [utf8_injective ids]
  | dmAdvert pk serial notBefore kem =>
    cases b <;> cases kinds
    simp only [fields, List.cons.injEq, and_true] at h
    obtain ⟨rfl, serials, starts, rfl⟩ := h
    rw [serialBe_injective serials, serialBe_injective starts]
  | opening writer recipient lookup ratchet serial =>
    cases b <;> cases kinds
    simp only [fields, List.cons.injEq, and_true] at h
    obtain ⟨rfl, rfl, rfl, rfl, serials⟩ := h
    rw [serialBe_injective serials]

/-- **A signature is made for one message.** Messages of the same kind or of two kinds
have the same byte string only where they are one message. -/
theorem input_injective {a b : Signable} (fits : a.Fits) (fits' : b.Fits)
    (h : a.input = b.input) : a = b := by
  rw [input_eq, input_eq] at h
  have domains : a.kind.domain = b.kind.domain ∨ Apart a.kind.domain b.kind.domain :=
    (Kind.apart a.kind b.kind).imp And.left id
  obtain ⟨domain, same⟩ := tagged_injective domains fits fits' h
  rcases Kind.apart a.kind b.kind with ⟨-, kinds⟩ | apart
  · exact fields_injective kinds same
  · exact absurd (domain ▸ List.prefix_rfl) apart.1

end Signable

end Daemonseed.Room.Signing
