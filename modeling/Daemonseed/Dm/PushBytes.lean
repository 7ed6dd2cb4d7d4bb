import Daemonseed.Dm.ChannelBytes

/-! # Pushes as bytes

Four kinds of push under one tag and one kind byte. A message's slot ends its
push where no route goes with it, and every other field stands after its length,
so a push is decoded from its own encoding alone. -/
namespace Daemonseed.Dm.PushBytes
open Daemonseed.Lib.Bytes Daemonseed.Lib.Framed Daemonseed.Lib.Lines Daemonseed.Lib.Readers
open Daemonseed.Dm.RecordBytes (helloLookupKeyLen openingLen)
open Daemonseed.Dm.Routes (reachRouteMaxLen)
open Daemonseed.Dm.ChannelBytes (reachHandleMaxLen)

def pushTag : Octets := utf8 "dsdmpsh1"

def pushMaxLen : Nat := 32 * 1024

def routeTagLen : Nat := 32

/-- The nonce before a sealed body and the tag after it. -/
def envelopeOverhead : Nat := 12 + 16

def sealedControlMaxLen : Nat :=
  envelopeOverhead + 8 + openingLen + 8 + 1 + 8 + 8 + reachRouteMaxLen + 8 + reachHandleMaxLen + 8

def kindMessage : BitVec 8 := 1

def kindAcceptance : BitVec 8 := 2

def kindReach : BitVec 8 := 3

def kindMessageWithRoute : BitVec 8 := 4

structure PushRoute where
  route : Octets
  tag : Field routeTagLen
  deriving DecidableEq

/-- One push, as it travels. -/
inductive Push
  /-- One ring slot of the sender's channel, and its route where it can publish one. -/
  | message (lookupKey : Field helloLookupKeyLen) (subkey : BitVec 16) (slot : Octets)
      (route : Option PushRoute)
  /-- The sender's sealed control subkey. -/
  | reach (lookupKey : Field helloLookupKeyLen) (control : Octets)
  /-- What an acceptance writes. -/
  | acceptance (lookupKey : Field helloLookupKeyLen) (helloSlot : BitVec 16) (hello control : Octets)
      (replySubkey : BitVec 16) (reply : Octets)
  deriving DecidableEq

/-- Whether a control record would carry it. -/
def publishable (route : Octets) : Bool := !route.isEmpty && decide (route.length ≤ reachRouteMaxLen)

namespace Push

/-- A message's fields behind its lookup key. -/
def messageBytes (subkey : BitVec 16) (slot : Octets) : Option PushRoute → Octets
  | some r => be 2 subkey ++ lp slot ++ lp r.route ++ r.tag.1
  | none => be 2 subkey ++ slot

/-- The kind a push is encoded under: a route that cannot be published is left out. -/
def kind : Push → BitVec 8
  | message _ _ _ route =>
    if (route.filter (publishable ·.route)).isSome then kindMessageWithRoute else kindMessage
  | reach _ _ => kindReach
  | acceptance _ _ _ _ _ _ => kindAcceptance

def lookupKey : Push → Field helloLookupKeyLen
  | message lookupKey _ _ _ | reach lookupKey _ | acceptance lookupKey _ _ _ _ _ => lookupKey

/-- What stands behind the lookup key. -/
def fields : Push → Octets
  | message _ subkey slot route => messageBytes subkey slot (route.filter (publishable ·.route))
  | reach _ control => lp control
  | acceptance _ helloSlot hello control replySubkey reply =>
    be 2 helloSlot ++ lp hello ++ lp control ++ be 2 replySubkey ++ lp reply

def out (p : Push) : Octets := pushTag ++ be 1 p.kind ++ p.lookupKey.1 ++ p.fields

def encode (p : Push) : Option Octets := if p.out.length ≤ pushMaxLen then some p.out else none

def readMessage (lookupKey : Field helloLookupKeyLen) : Reader Unit Push := do
  let subkey ← word () 2
  let slot ← remaining
  return message lookupKey subkey slot none

def readMessageWithRoute (lookupKey : Field helloLookupKeyLen) : Reader Unit Push := do
  let subkey ← word () 2
  let slot ← lpField ()
  let route ← lpField ()
  let tag ← field () routeTagLen
  finish ()
  refuse (¬ publishable route) ()
  return message lookupKey subkey slot (some ⟨route, tag⟩)

def readReach (lookupKey : Field helloLookupKeyLen) : Reader Unit Push := do
  let control ← lpField ()
  finish ()
  refuse (control = [] ∨ sealedControlMaxLen < control.length) ()
  return reach lookupKey control

def readAcceptance (lookupKey : Field helloLookupKeyLen) : Reader Unit Push := do
  let helloSlot ← word () 2
  let hello ← lpField ()
  let control ← lpField ()
  let replySubkey ← word () 2
  let reply ← lpField ()
  finish ()
  return acceptance lookupKey helloSlot hello control replySubkey reply

def readKind (kind : BitVec 8) (lookupKey : Field helloLookupKeyLen) : Reader Unit Push :=
  if kind = kindMessage then readMessage lookupKey
  else if kind = kindMessageWithRoute then readMessageWithRoute lookupKey
  else if kind = kindReach then readReach lookupKey
  else if kind = kindAcceptance then readAcceptance lookupKey
  else throw ()

def reader : Reader Unit Push := do
  let tag ← take () pushTag.length
  refuse (tag ≠ pushTag) ()
  let kind ← word () 1
  let lookupKey ← field () helloLookupKeyLen
  readKind kind lookupKey

def decode (bytes : Octets) : Option Push := (reader.run' bytes).toOption

/-! ## What a push is decoded from -/

/-- A route that goes with it can be published, and a control it carries is one a subkey holds. -/
def Sound : Push → Prop
  | message _ _ _ route => ∀ r ∈ route, publishable r.route
  | reach _ control => control ≠ [] ∧ control.length ≤ sealedControlMaxLen
  | acceptance _ _ _ _ _ _ => True

/-- The fields that stand after their lengths fit them. -/
def Fits : Push → Prop
  | message _ _ slot route => ∀ r ∈ route, Short slot ∧ Short r.route
  | reach _ control => Short control
  | acceptance _ _ hello control _ reply => Short hello ∧ Short control ∧ Short reply

variable {bytes rest : Octets} {lookupKey : Field helloLookupKeyLen} {p : Push}

theorem carried_some {r : PushRoute} (h : publishable r.route) :
    (some r).filter (publishable ·.route) = some r := if_pos h

theorem readMessage_ok : (readMessage lookupKey).run bytes = .ok (p, rest) ↔ rest = [] ∧
    ∃ subkey slot, p = message lookupKey subkey slot none ∧ bytes = p.fields := by
  unfold readMessage
  simp only [bind_ok, word_ok, remaining_ok, pure_ok]
  constructor
  · rintro ⟨subkey, _, rfl, slot, _, ⟨rfl, rfl⟩, rfl, rfl⟩
    exact ⟨rfl, subkey, _, rfl, rfl⟩
  · rintro ⟨rfl, subkey, slot, rfl, rfl⟩
    exact ⟨subkey, _, rfl, slot, _, ⟨rfl, rfl⟩, rfl, rfl⟩

theorem readMessageWithRoute_ok :
    (readMessageWithRoute lookupKey).run bytes = .ok (p, rest) ↔ rest = [] ∧
      ∃ subkey slot r, p = message lookupKey subkey slot (some r) ∧ p.Sound ∧ p.Fits ∧
        bytes = p.fields := by
  unfold readMessageWithRoute
  simp only [bind_ok, word_ok, lpField_ok, field_ok, finish_ok, refuse_ok, pure_ok]
  constructor
  · rintro ⟨subkey, _, rfl, slot, _, ⟨short, rfl⟩, route, _, ⟨short', rfl⟩, tag, _, rfl, _, _, ⟨rfl, rfl⟩,
      _, _, ⟨carried, rfl⟩, rfl, rfl⟩
    have kept := not_not.1 carried
    refine ⟨rfl, subkey, slot, ⟨route, tag⟩, rfl, ?_, ?_, ?_⟩
    · rintro r ⟨rfl⟩
      exact kept
    · rintro r ⟨rfl⟩
      exact ⟨short, short'⟩
    · rw [fields, carried_some kept, messageBytes, List.append_nil]
      simp only [List.append_assoc]
  · rintro ⟨rfl, subkey, slot, r, rfl, sound, fits, rfl⟩
    have kept := sound r rfl
    obtain ⟨short, short'⟩ := fits r rfl
    rw [fields, carried_some kept, messageBytes]
    simp only [List.append_assoc]
    exact ⟨subkey, _, rfl, slot, _, ⟨short, rfl⟩, r.route, _, ⟨short', rfl⟩, r.tag, [],
      (List.append_nil _).symm, (), _, ⟨rfl, rfl⟩, (), _, ⟨not_not.2 kept, rfl⟩, rfl, rfl⟩

theorem readReach_ok : (readReach lookupKey).run bytes = .ok (p, rest) ↔ rest = [] ∧
    ∃ control, p = reach lookupKey control ∧ p.Sound ∧ p.Fits ∧ bytes = p.fields := by
  unfold readReach
  simp only [bind_ok, lpField_ok, finish_ok, refuse_ok, pure_ok]
  constructor
  · rintro ⟨control, _, ⟨short, rfl⟩, _, _, ⟨rfl, rfl⟩, _, _, ⟨held, rfl⟩, rfl, rfl⟩
    obtain ⟨some_, small⟩ := not_or.1 held
    exact ⟨rfl, control, rfl, ⟨some_, Nat.not_lt.1 small⟩, short, List.append_nil _⟩
  · rintro ⟨rfl, control, rfl, ⟨some_, small⟩, short, rfl⟩
    exact ⟨control, [], ⟨short, (List.append_nil _).symm⟩, (), _, ⟨rfl, rfl⟩, (), _,
      ⟨not_or.2 ⟨some_, Nat.not_lt.2 small⟩, rfl⟩, rfl, rfl⟩

theorem readAcceptance_ok : (readAcceptance lookupKey).run bytes = .ok (p, rest) ↔ rest = [] ∧
    ∃ helloSlot hello control replySubkey reply,
      p = acceptance lookupKey helloSlot hello control replySubkey reply ∧ p.Fits ∧
        bytes = p.fields := by
  unfold readAcceptance
  simp only [bind_ok, word_ok, lpField_ok, finish_ok, pure_ok]
  constructor
  · rintro ⟨helloSlot, _, rfl, hello, _, ⟨short, rfl⟩, control, _, ⟨short', rfl⟩, replySubkey, _, rfl,
      reply, _, ⟨short'', rfl⟩, _, _, ⟨rfl, rfl⟩, rfl, rfl⟩
    refine ⟨rfl, helloSlot, hello, control, replySubkey, reply, rfl, ⟨short, short', short''⟩, ?_⟩
    rw [fields, List.append_nil]
    simp only [List.append_assoc]
  · rintro ⟨rfl, helloSlot, hello, control, replySubkey, reply, rfl, ⟨short, short', short''⟩, rfl⟩
    rw [fields]
    simp only [List.append_assoc]
    exact ⟨helloSlot, _, rfl, hello, _, ⟨short, rfl⟩, control, _, ⟨short', rfl⟩, replySubkey, _, rfl,
      reply, [], ⟨short'', by rw [List.append_nil]⟩, (), _, ⟨rfl, rfl⟩, rfl, rfl⟩

theorem throw_ne {ε α : Type} {e : ε} {x : α × Octets} :
    (throw e : Reader ε α).run bytes ≠ .ok x := fun h => by cases h

/-- Which push the fields behind a kind and a lookup key are. -/
theorem readKind_ok {kind : BitVec 8} :
    (readKind kind lookupKey).run bytes = .ok (p, rest) ↔ rest = [] ∧ kind = p.kind ∧
      lookupKey = p.lookupKey ∧ p.Sound ∧ p.Fits ∧ bytes = p.fields := by
  unfold readKind
  constructor
  · intro read
    split at read
    · obtain ⟨rfl, subkey, slot, rfl, rfl⟩ := readMessage_ok.1 read
      exact ⟨rfl, ‹_›, rfl, fun _ held => (by cases held), fun _ held => (by cases held), rfl⟩
    split at read
    · obtain ⟨rfl, subkey, slot, r, rfl, sound, fits, rfl⟩ := readMessageWithRoute_ok.1 read
      refine ⟨rfl, ?_, rfl, sound, fits, rfl⟩
      rw [Push.kind, carried_some (sound r rfl)]
      assumption
    split at read
    · obtain ⟨rfl, control, rfl, sound, fits, rfl⟩ := readReach_ok.1 read
      exact ⟨rfl, ‹_›, rfl, sound, fits, rfl⟩
    split at read
    · obtain ⟨rfl, helloSlot, hello, control, replySubkey, reply, rfl, fits, rfl⟩ :=
        readAcceptance_ok.1 read
      exact ⟨rfl, ‹_›, rfl, trivial, fits, rfl⟩
    · exact absurd read throw_ne
  · rintro ⟨rfl, rfl, rfl, sound, fits, rfl⟩
    cases p with
    | message lookupKey subkey slot route =>
      cases route with
      | none => exact readMessage_ok.2 ⟨rfl, subkey, slot, rfl, rfl⟩
      | some r =>
        rw [Push.kind, carried_some (sound r rfl)]
        exact readMessageWithRoute_ok.2 ⟨rfl, subkey, slot, r, rfl, sound, fits, rfl⟩
    | reach lookupKey control => exact readReach_ok.2 ⟨rfl, control, rfl, sound, fits, rfl⟩
    | acceptance lookupKey helloSlot hello control replySubkey reply =>
      exact readAcceptance_ok.2
        ⟨rfl, helloSlot, hello, control, replySubkey, reply, rfl, fits, rfl⟩

/-- A push is decoded from what it is written as and from nothing else. -/
theorem decode_some : decode bytes = some p ↔ p.Sound ∧ p.Fits ∧ bytes = p.out := by
  have whole : decode bytes = some p ↔ reader.run' bytes = .ok p := by
    unfold decode
    cases reader.run' bytes with
    | error e => exact iff_of_false (fun h => by cases h) fun h => by cases h
    | ok q => exact ⟨fun h => congrArg _ (Option.some.inj h), fun h => congrArg _ (Except.ok.inj h)⟩
  rw [whole, run'_ok]
  unfold reader
  simp only [bind_ok, take_ok, refuse_ok, word_ok, field_ok, readKind_ok]
  constructor
  · rintro ⟨_, tag, _, ⟨-, rfl⟩, _, _, ⟨same, rfl⟩, _, _, rfl, _, _, rfl, rfl, rfl, rfl, sound, fits,
      rfl⟩
    refine ⟨sound, fits, ?_⟩
    rw [not_not.1 same, out]
    simp only [List.append_assoc]
  · rintro ⟨sound, fits, rfl⟩
    rw [out]
    simp only [List.append_assoc]
    exact ⟨[], pushTag, _, ⟨rfl, rfl⟩, (), _, ⟨fun ne => ne rfl, rfl⟩, p.kind, _, rfl, p.lookupKey, _,
      rfl, rfl, rfl, rfl, sound, fits, rfl⟩

/-- Whatever fits a push, its fields fit their lengths. -/
theorem fits_of_short (sound : p.Sound) (small : p.out.length ≤ pushMaxLen) : p.Fits := by
  have bound : pushMaxLen < 2 ^ 64 := by decide
  have fields : p.fields.length ≤ pushMaxLen := by
    rw [out, List.length_append] at small
    omega
  cases p with
  | message lookupKey subkey slot route =>
    rintro r held
    obtain rfl : route = some r := held
    rw [Push.fields, carried_some (sound r rfl), messageBytes] at fields
    simp only [lp_length, List.length_append] at fields
    exact ⟨by unfold Short; omega, by unfold Short; omega⟩
  | reach lookupKey control =>
    rw [Push.fields, lp_length] at fields
    show Short control
    unfold Short
    omega
  | acceptance lookupKey helloSlot hello control replySubkey reply =>
    simp only [Push.fields, lp_length, List.length_append] at fields
    exact ⟨by unfold Short; omega, by unfold Short; omega, by unfold Short; omega⟩

theorem encode_some : p.encode = some bytes ↔ p.out.length ≤ pushMaxLen ∧ bytes = p.out := by
  unfold encode
  split <;> rename_i h
  · simp [h, eq_comm]
  · simp [h]

end Push

/-- **Pushes are unambiguous.** A sound push that fits is decoded from its encoding, any bytes that
are decoded and fit are the encoding of what they are decoded to, and the kind byte of any bytes
that are decoded is the kind of that push, which every other push encoded as them shares. -/
theorem push_unambiguous :
    (∀ (p : Push) bytes, p.Sound → p.encode = some bytes → Push.decode bytes = some p) ∧
    (∀ bytes (p : Push), Push.decode bytes = some p → bytes.length ≤ pushMaxLen →
      p.encode = some bytes) ∧
    (∀ bytes (p : Push), Push.decode bytes = some p →
      pushTag ++ be 1 p.kind ++ p.lookupKey.1 <+: bytes ∧
        ∀ q : Push, q.encode = some bytes → q.kind = p.kind) := by
  refine ⟨fun p bytes sound encoded => ?_, fun bytes p read small => ?_, fun bytes p read => ?_⟩
  · obtain ⟨small, rfl⟩ := Push.encode_some.1 encoded
    exact Push.decode_some.2 ⟨sound, Push.fits_of_short sound small, rfl⟩
  · obtain ⟨-, -, rfl⟩ := Push.decode_some.1 read
    exact Push.encode_some.2 ⟨small, rfl⟩
  · obtain ⟨-, -, rfl⟩ := Push.decode_some.1 read
    refine ⟨⟨p.fields, rfl⟩, fun q encoded => ?_⟩
    obtain ⟨-, same⟩ := Push.encode_some.1 encoded
    simp only [Push.out, List.append_assoc] at same
    obtain ⟨kinds, -⟩ := List.append_inj (List.append_cancel_left same) (by rw [be_length, be_length])
    rw [← ofBe_be (n := 1) q.kind, ← ofBe_be (n := 1) p.kind, kinds]

theorem push_unambiguous_route :
    ∃ bytes, (Push.message ⟨List.replicate 32 5, by decide⟩ 2 [1, 2, 3]
        (some ⟨[9], ⟨List.replicate 32 8, by decide⟩⟩)).encode = some bytes ∧
      Push.decode bytes = some (.message ⟨List.replicate 32 5, by decide⟩ 2 [1, 2, 3]
        (some ⟨[9], ⟨List.replicate 32 8, by decide⟩⟩)) := by
  refine ⟨_, rfl, push_unambiguous.1 _ _ (fun r held => ?_) rfl⟩
  obtain rfl := Option.some.inj held
  decide

end Daemonseed.Dm.PushBytes
