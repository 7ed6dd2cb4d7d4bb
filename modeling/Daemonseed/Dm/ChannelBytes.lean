import Daemonseed.Dm.RecordBytes

/-! # Message headers and control records as bytes

A header stands in clear before the sealed body and is bound to it as written,
so it is decoded from the bytes of its own encoding and no others. A control
record ends at one of three places, as the formats before it did; what its
fields are when they are not there is what the writer leaves out. -/
namespace Daemonseed.Dm.ChannelBytes
open Daemonseed.Lib.Bytes Daemonseed.Lib.Framed Daemonseed.Lib.Lines Daemonseed.Lib.Readers
open Daemonseed.Dm.RecordBytes (MlKem.ekLen MlKem.ctLen MlDsa.pkLen MlDsa.sigLen helloLookupKeyLen
  openingLen)
open Daemonseed.Dm.Routes (Reach reachRouteMaxLen)

inductive ChannelError
  | malformed
  | fieldLength (expected actual : Nat)
  | turnFieldsIncomplete
  | length (expected actual : Nat)
  deriving DecidableEq, Repr

/-! ## Message headers -/

structure MessageHeader where
  deviceId : BitVec 32
  n : BitVec 64
  m : BitVec 64
  seq : BitVec 64
  cursor : BitVec 64
  kemCt : Option (Field MlKem.ctLen)
  kemPk : Option (Field MlKem.ekLen)
  deriving DecidableEq

/-- The field, empty where it is absent. -/
def optional {n : Nat} (v : Option (Field n)) : Octets := v.elim [] (·.1)

def MessageHeader.encode (h : MessageHeader) : Octets :=
  be 4 h.deviceId ++ be 8 h.n ++ be 8 h.m ++ be 8 h.seq ++ be 8 h.cursor ++ lp (optional h.kemCt)
    ++ lp (optional h.kemPk)

/-- Empty is absent, and only the exact width is present. -/
def optionalField (n : Nat) (field : Octets) : Reader ChannelError (Option (Field n)) :=
  if field = [] then pure none
  else if h : field.length = n then pure (some ⟨field, h⟩)
  else throw (.fieldLength n field.length)

def MessageHeader.decode : Reader ChannelError MessageHeader := do
  let deviceId ← word .malformed 4
  let n ← word .malformed 8
  let m ← word .malformed 8
  let seq ← word .malformed 8
  let cursor ← word .malformed 8
  let ctField ← lpField .malformed
  let pkField ← lpField .malformed
  let kemCt ← optionalField MlKem.ctLen ctField
  let kemPk ← optionalField MlKem.ekLen pkField
  refuse (kemCt.isSome ≠ kemPk.isSome) .turnFieldsIncomplete
  return { deviceId, n, m, seq, cursor, kemCt, kemPk }

def dmChannelMsgAad : Octets := utf8 "daemonseed/dm/channel/msg-aad/v1"

/-- What a body is sealed under: its header exactly as written. -/
def messageAad (header : MessageHeader) : Octets := dmChannelMsgAad ++ header.encode

/-- It carries both turn fields or neither. -/
def MessageHeader.Paired (h : MessageHeader) : Prop := h.kemCt.isSome = h.kemPk.isSome

instance (h : MessageHeader) : Decidable h.Paired := inferInstanceAs (Decidable (_ = _))

section

variable {n : Nat} {bytes rest : Octets}

theorem optional_short (small : n < 2 ^ 64) (v : Option (Field n)) : Short (optional v) := by
  cases v with
  | none => exact Nat.two_pow_pos 64
  | some b =>
    rw [Short, optional, Option.elim_some, b.2]
    exact small

theorem optionalField_ok (some_ : 0 < n) {field : Octets} {v : Option (Field n)} :
    (optionalField n field).run bytes = .ok (v, rest) ↔ field = optional v ∧ bytes = rest := by
  unfold optionalField
  by_cases empty : field = []
  · rw [if_pos empty, pure_ok]
    refine and_congr_left fun _ => ?_
    constructor
    · rintro rfl
      exact empty
    · intro same
      cases v with
      | none => rfl
      | some b =>
        have none : b.1.length = 0 := by rw [← show field = b.1 from same, empty]; rfl
        rw [b.2] at none
        omega
  · rw [if_neg empty]
    by_cases exact_ : field.length = n
    · rw [dif_pos exact_, pure_ok]
      refine and_congr_left fun _ => ?_
      constructor
      · rintro rfl
        rfl
      · intro same
        cases v with
        | none => exact absurd same empty
        | some b => exact congrArg some (Subtype.ext (Eq.symm same))
    · rw [dif_neg exact_]
      refine iff_of_false (fun e => by cases e) ?_
      rintro ⟨same, -⟩
      cases v with
      | none => exact empty same
      | some b => exact exact_ (same ▸ b.2)

theorem ctLen_fits : 0 < MlKem.ctLen ∧ MlKem.ctLen < 2 ^ 64 := by decide

theorem ekLen_fits : 0 < MlKem.ekLen ∧ MlKem.ekLen < 2 ^ 64 := by decide

/-- A header is decoded from its own encoding and from nothing else. -/
theorem MessageHeader.decode_ok {h : MessageHeader} :
    decode.run bytes = .ok (h, rest) ↔ h.Paired ∧ bytes = h.encode ++ rest := by
  unfold decode
  simp only [bind_ok, word_ok, lpField_ok, optionalField_ok ctLen_fits.1,
    optionalField_ok ekLen_fits.1, refuse_ok, pure_ok]
  constructor
  · rintro ⟨deviceId, _, rfl, n, _, rfl, m, _, rfl, seq, _, rfl, cursor, _, rfl, _, _, ⟨-, rfl⟩,
      _, _, ⟨-, rfl⟩, kemCt, _, ⟨rfl, rfl⟩, kemPk, _, ⟨rfl, rfl⟩, _, _, ⟨paired, rfl⟩, rfl, rfl⟩
    refine ⟨not_not.1 paired, ?_⟩
    simp only [MessageHeader.encode, List.append_assoc]
  · rintro ⟨paired, rfl⟩
    simp only [MessageHeader.encode, List.append_assoc]
    exact ⟨h.deviceId, _, rfl, h.n, _, rfl, h.m, _, rfl, h.seq, _, rfl, h.cursor, _, rfl,
      _, _, ⟨optional_short ctLen_fits.2 h.kemCt, rfl⟩,
      _, _, ⟨optional_short ekLen_fits.2 h.kemPk, rfl⟩,
      h.kemCt, _, ⟨rfl, rfl⟩, h.kemPk, _, ⟨rfl, rfl⟩, (), _, ⟨not_not.2 paired, rfl⟩, rfl, rfl⟩

end

/-! ## Control records -/

structure ChannelOpening where
  writerIdentityPk : Field MlDsa.pkLen
  recipientIdentityPk : Field MlDsa.pkLen
  channelLookupKey : Field helloLookupKeyLen
  firstRatchetPk : Field MlKem.ekLen
  advertSerial : BitVec 64
  signature : Field MlDsa.sigLen
  deriving DecidableEq

def ChannelOpening.encode (o : ChannelOpening) : Octets :=
  o.writerIdentityPk.1 ++ o.recipientIdentityPk.1 ++ o.channelLookupKey.1 ++ o.firstRatchetPk.1
    ++ be 8 o.advertSerial ++ o.signature.1

/-- The fields one after another; of the checked length, none runs out. -/
def ChannelOpening.fields : Reader ChannelError ChannelOpening := do
  let writerIdentityPk ← field .malformed MlDsa.pkLen
  let recipientIdentityPk ← field .malformed MlDsa.pkLen
  let channelLookupKey ← field .malformed helloLookupKeyLen
  let firstRatchetPk ← field .malformed MlKem.ekLen
  let advertSerial ← word .malformed 8
  let signature ← field .malformed MlDsa.sigLen
  return { writerIdentityPk, recipientIdentityPk, channelLookupKey, firstRatchetPk, advertSerial,
           signature }

def ChannelOpening.decode (bytes : Octets) : Except ChannelError ChannelOpening :=
  if bytes.length ≠ openingLen then .error (.length openingLen bytes.length)
  else fields.run' bytes

def reachHandleMaxLen : Nat := 256

structure Control where
  opening : Option ChannelOpening
  collectedCursor : BitVec 64
  closed : Bool
  generation : BitVec 64
  reach : Reach
  serial : BitVec 64

namespace Control

/-- The opening, the cursor and whether the conversation is closed. -/
def bare (c : Control) : Octets :=
  lp (c.opening.elim [] (·.encode)) ++ be 8 c.collectedCursor ++ be 1 (if c.closed then 1 else 0)

/-- The generation, and the route and the handle within their bounds. -/
def reached (c : Control) : Octets :=
  let route := (c.reach.route.filter (·.length ≤ reachRouteMaxLen)).getD []
  let handle := (c.reach.handle.filter (·.utf8ByteSize ≤ reachHandleMaxLen)).getD ""
  be 8 c.generation ++ lp route ++ lp (utf8 handle)

def encode (c : Control) : Octets := c.bare ++ c.reached ++ be 8 c.serial

def noReach : Reach := ⟨none, none⟩

/-- Either flag, and no other byte. -/
def closedFlag (b : BitVec 8) : Except ChannelError Bool :=
  if b = 0 then .ok false else if b = 1 then .ok true else .error .malformed

def text (bytes : Octets) : Except ChannelError String :=
  (ofUtf8 bytes).elim (.error .malformed) .ok

/-- What stands behind the flag, where anything does. -/
def tail : Reader ChannelError (BitVec 64 × Reach × BitVec 64) := do
  let generation ← word .malformed 8
  let route ← lpField .malformed
  let handle ← lpField .malformed
  refuse (reachRouteMaxLen < route.length ∨ reachHandleMaxLen < handle.length) .malformed
  let handle ← given (text handle)
  let reach : Reach :=
    ⟨if route = [] then none else some route, if handle = "" then none else some handle⟩
  let serial ← orAtEnd 0 (word .malformed 8)
  return (generation, reach, serial)

def readOpening (held : Octets) : Except ChannelError (Option ChannelOpening) :=
  if held = [] then .ok none else (ChannelOpening.decode held).map some

def reader : Reader ChannelError Control := do
  let openingField ← lpField .malformed
  let collectedCursor ← word .malformed 8
  let flag ← word .malformed 1
  let closed ← given (closedFlag flag)
  let (generation, reach, serial) ← orAtEnd (0, noReach, 0) tail
  finish .malformed
  let opening ← given (readOpening openingField)
  return { opening, collectedCursor, closed, generation, reach, serial }

def decode (bytes : Octets) : Except ChannelError Control := reader.run' bytes

end Control

section

variable {bytes rest : Octets}

/-! ### What an opening is read from -/

theorem ChannelOpening.fields_ok {o : ChannelOpening} :
    fields.run bytes = .ok (o, rest) ↔ bytes = o.encode ++ rest := by
  unfold fields
  simp only [bind_ok, field_ok, word_ok, pure_ok]
  constructor
  · rintro ⟨writer, _, rfl, recipient, _, rfl, lookup, _, rfl, ratchet, _, rfl, serial, _, rfl,
      signature, _, rfl, rfl, rfl⟩
    simp only [ChannelOpening.encode, List.append_assoc]
  · rintro rfl
    simp only [ChannelOpening.encode, List.append_assoc]
    exact ⟨o.writerIdentityPk, _, rfl, o.recipientIdentityPk, _, rfl, o.channelLookupKey, _, rfl,
      o.firstRatchetPk, _, rfl, o.advertSerial, _, rfl, o.signature, _, rfl, rfl, rfl⟩

theorem ChannelOpening.encode_length (o : ChannelOpening) : o.encode.length = openingLen := by
  simp only [encode, List.length_append, RecordBytes.field_length, be_length, openingLen]

theorem ChannelOpening.decode_ok {o : ChannelOpening} :
    decode bytes = .ok o ↔ bytes = o.encode := by
  unfold decode
  by_cases width : bytes.length = openingLen
  · rw [if_neg (not_not.2 width), run'_ok]
    simp only [fields_ok]
    constructor
    · rintro ⟨rest, rfl⟩
      rw [List.length_append, encode_length] at width
      have none : rest = [] := List.eq_nil_of_length_eq_zero (by omega)
      rw [none, List.append_nil]
    · rintro rfl
      exact ⟨[], (List.append_nil _).symm⟩
  · rw [if_pos width]
    refine iff_of_false (fun e => by cases e) ?_
    rintro rfl
    exact width o.encode_length

namespace Control

theorem readOpening_ok {held : Octets} {opening : Option ChannelOpening} :
    readOpening held = .ok opening ↔ held = opening.elim [] (·.encode) := by
  unfold readOpening
  by_cases empty : held = []
  · rw [if_pos empty, empty, Except.ok.injEq]
    cases opening with
    | none => exact iff_of_true rfl rfl
    | some o =>
      refine iff_of_false (fun e => by cases e) fun same => ?_
      have none := congrArg List.length same
      rw [Option.elim_some, o.encode_length] at none
      cases none
  · rw [if_neg empty]
    cases opening with
    | none =>
      refine iff_of_false (fun e => ?_) empty
      cases read : ChannelOpening.decode held with
      | error _ => rw [read] at e; cases e
      | ok _ => rw [read] at e; cases e
    | some o =>
      rw [Option.elim_some, ← ChannelOpening.decode_ok]
      cases ChannelOpening.decode held with
      | error _ => exact iff_of_false (fun e => by cases e) fun e => by cases e
      | ok o' =>
        show Except.ok (some o') = _ ↔ _
        rw [Except.ok.injEq, Except.ok.injEq, Option.some.injEq]

/-! ### What a control record is read from -/

theorem closedFlag_ok {b : BitVec 8} {closed : Bool} :
    closedFlag b = .ok closed ↔ b = if closed then 1 else 0 := by
  unfold closedFlag
  by_cases zero : b = 0
  · subst zero
    cases closed <;> simp
  · rw [if_neg zero]
    by_cases one : b = 1
    · subst one
      cases closed <;> simp
    · rw [if_neg one]
      refine iff_of_false (fun e => by cases e) ?_
      cases closed with
      | false => exact zero
      | true => exact one

theorem text_ok {bytes : Octets} {handle : String} : text bytes = .ok handle ↔ bytes = utf8 handle := by
  unfold text
  cases read : ofUtf8 bytes with
  | none =>
    refine iff_of_false (fun e => by cases e) fun same => ?_
    rw [same, ofUtf8_utf8] at read
    cases read
  | some s =>
    rw [Option.elim_some, Except.ok.injEq, ← utf8_ofUtf8 read]
    exact ⟨fun same => same ▸ rfl, fun same => utf8_injective same⟩

/-- An absent field is written empty, and an empty one is read as absent. -/
theorem route_iff {route : Option Octets} {held : Octets} :
    route = (if held = [] then none else some held) ↔
      held = route.getD [] ∧ ∀ r ∈ route, r ≠ [] := by
  by_cases empty : held = []
  · rw [if_pos empty, empty]
    cases route with
    | none => simp
    | some r => simp
  · rw [if_neg empty]
    cases route with
    | none => simpa using empty
    | some r => simpa [eq_comm] using fun e => e ▸ empty

theorem handle_iff {handle : Option String} {held : String} :
    handle = (if held = "" then none else some held) ↔
      held = handle.getD "" ∧ ∀ h ∈ handle, h ≠ "" := by
  by_cases empty : held = ""
  · rw [if_pos empty, empty]
    cases handle with
    | none => simp
    | some r => simp
  · rw [if_neg empty]
    cases handle with
    | none => simpa using empty
    | some r => simpa [eq_comm] using fun e => e ▸ empty

theorem short_of_le {held : Octets} {n : Nat} (h : held.length ≤ n) (small : n < 2 ^ 64) :
    Short held := Nat.lt_of_le_of_lt h small

theorem maxLens : reachRouteMaxLen < 2 ^ 64 ∧ reachHandleMaxLen < 2 ^ 64 := by decide

/-- The route and the handle are within their bounds, and not empty where they are present. -/
structure Within (reach : Reach) : Prop where
  route : ∀ r ∈ reach.route, r ≠ [] ∧ r.length ≤ reachRouteMaxLen
  handle : ∀ h ∈ reach.handle, h ≠ "" ∧ h.utf8ByteSize ≤ reachHandleMaxLen

/-- What is written of such a reach, with a generation. -/
def reachBytes (generation : BitVec 64) (reach : Reach) : Octets :=
  be 8 generation ++ lp (reach.route.getD []) ++ lp (utf8 (reach.handle.getD ""))

theorem within_iff {reach : Reach} : Within reach ↔
    (∀ r ∈ reach.route, r ≠ []) ∧ (reach.route.getD []).length ≤ reachRouteMaxLen ∧
    (∀ h ∈ reach.handle, h ≠ "") ∧ (utf8 (reach.handle.getD "")).length ≤ reachHandleMaxLen := by
  constructor
  · intro h
    refine ⟨fun r mem => (h.route r mem).1, ?_, fun n mem => (h.handle n mem).1, ?_⟩
    · cases route : reach.route with
      | none => exact Nat.zero_le _
      | some r => exact (h.route r route).2
    · rw [utf8_length]
      cases handle : reach.handle with
      | none => exact Nat.zero_le _
      | some n => exact (h.handle n handle).2
  · rintro ⟨route, routeFits, handle, handleFits⟩
    rw [utf8_length] at handleFits
    refine ⟨fun r mem => ⟨route r mem, ?_⟩, fun n mem => ⟨handle n mem, ?_⟩⟩
    · rwa [show reach.route = some r from mem] at routeFits
    · rwa [show reach.handle = some n from mem] at handleFits

theorem tail_ok {generation serial : BitVec 64} {reach : Reach} :
    tail.run bytes = .ok ((generation, reach, serial), rest) ↔ Within reach ∧
      (bytes = reachBytes generation reach ∧ serial = 0 ∧ rest = [] ∨
        bytes = reachBytes generation reach ++ be 8 serial ++ rest) := by
  unfold tail
  simp only [bind_ok, word_ok, lpField_ok, refuse_ok, given_ok, text_ok, orAtEnd_ok, pure_ok,
    Prod.mk.injEq]
  rw [within_iff]
  constructor
  · rintro ⟨g, _, rfl, route, _, ⟨-, rfl⟩, _, _, ⟨-, rfl⟩, _, _, ⟨inside, rfl⟩, handle, _, ⟨rfl, rfl⟩,
      s, _, ends, ⟨rfl, same, rfl⟩, rfl⟩
    obtain ⟨routeFits, handleFits⟩ := not_or.1 inside
    obtain ⟨rfl, routed⟩ := route_iff.1 (congrArg Reach.route same)
    obtain ⟨rfl, handled⟩ := handle_iff.1 (congrArg Reach.handle same)
    refine ⟨⟨routed, Nat.not_lt.1 routeFits, handled, Nat.not_lt.1 handleFits⟩, ?_⟩
    simp only [reachBytes, List.append_assoc]
    rcases ends with ⟨rfl, none, ended⟩ | ⟨-, rfl⟩
    · exact .inl ⟨by rw [List.append_nil], none, ended⟩
    · exact .inr rfl
  · rintro ⟨⟨routed, routeFits, handled, handleFits⟩, ends⟩
    have short := short_of_le routeFits maxLens.1
    have short' := short_of_le handleFits maxLens.2
    have inside := not_or.2 ⟨Nat.not_lt.2 routeFits, Nat.not_lt.2 handleFits⟩
    have same : reach = ⟨if reach.route.getD [] = [] then none else some (reach.route.getD []),
        if reach.handle.getD "" = "" then none else some (reach.handle.getD "")⟩ := by
      rw [← route_iff.2 ⟨rfl, routed⟩, ← handle_iff.2 ⟨rfl, handled⟩]
    rcases ends with ⟨rfl, none, ended⟩ | rfl
    · simp only [reachBytes, List.append_assoc]
      exact ⟨generation, _, rfl, _, _, ⟨short, rfl⟩, _, [], ⟨short', by rw [List.append_nil]⟩, (), _,
        ⟨inside, rfl⟩, _, _, ⟨rfl, rfl⟩, serial, _, .inl ⟨rfl, none, ended⟩, ⟨rfl, same, rfl⟩, rfl⟩
    · simp only [reachBytes, List.append_assoc]
      refine ⟨generation, _, rfl, _, _, ⟨short, rfl⟩, _, _, ⟨short', rfl⟩, (), _,
        ⟨inside, rfl⟩, _, _, ⟨rfl, rfl⟩, serial, _, .inr ⟨fun empty => ?_, rfl⟩, ⟨rfl, same, rfl⟩, rfl⟩
      have none := congrArg List.length empty
      rw [List.length_append, be_length, List.length_nil] at none
      omega

theorem reached_eq {c : Control} (within : Within c.reach) :
    c.reached = reachBytes c.generation c.reach := by
  have route : c.reach.route.filter (·.length ≤ reachRouteMaxLen) = c.reach.route := by
    cases held : c.reach.route with
    | none => rfl
    | some r => exact if_pos (decide_eq_true (within.route r held).2)
  have handle : c.reach.handle.filter (·.utf8ByteSize ≤ reachHandleMaxLen) = c.reach.handle := by
    cases held : c.reach.handle with
    | none => rfl
    | some n => exact if_pos (decide_eq_true (within.handle n held).2)
  rw [reached, reachBytes, route, handle]

theorem reachBytes_ne {generation : BitVec 64} {reach : Reach} :
    reachBytes generation reach ++ rest ≠ [] := by
  intro empty
  have none := congrArg List.length empty
  simp only [reachBytes, List.length_append, be_length, List.length_nil] at none
  omega

theorem opening_short (opening : Option ChannelOpening) : Short (opening.elim [] (·.encode)) := by
  cases opening with
  | none => exact Nat.two_pow_pos 64
  | some o =>
    rw [Short, Option.elim_some, o.encode_length]
    decide

/-- What is left behind the flag. -/
theorem reader_ok {c : Control} : reader.run bytes = .ok (c, rest) ↔ rest = [] ∧ ∃ left,
    bytes = c.bare ++ left ∧ (orAtEnd (0, noReach, 0) tail).run left =
      .ok ((c.generation, c.reach, c.serial), []) := by
  unfold reader
  simp only [bind_ok, word_ok, lpField_ok, given_ok, closedFlag_ok, readOpening_ok, finish_ok,
    pure_ok]
  constructor
  · rintro ⟨_, _, ⟨-, rfl⟩, cursor, _, rfl, _, _, rfl, closed, _, ⟨rfl, rfl⟩, found, _, ends, _, _,
      ⟨rfl, rfl⟩, opening, _, ⟨rfl, rfl⟩, rfl, rfl⟩
    refine ⟨rfl, _, ?_, ends⟩
    simp only [bare, List.append_assoc]
  · rintro ⟨rfl, left, rfl, ends⟩
    simp only [bare, List.append_assoc]
    exact ⟨_, _, ⟨opening_short c.opening, rfl⟩, c.collectedCursor, _, rfl, _, _, rfl, c.closed, _,
      ⟨rfl, rfl⟩, _, _, ends, (), _, ⟨rfl, rfl⟩, c.opening, _, ⟨rfl, rfl⟩, rfl, rfl⟩

theorem within_none : Within noReach :=
  ⟨fun _ held => (by cases held), fun _ held => (by cases held)⟩

/-- A control record is decoded from what ends at its flag, at its handle or at its serial, where
what is not there is what it would say by default. -/
theorem decode_ok {c : Control} : decode bytes = .ok c ↔ Within c.reach ∧
    (bytes = c.bare ∧ c.generation = 0 ∧ c.reach = noReach ∧ c.serial = 0 ∨
      bytes = c.bare ++ c.reached ∧ c.serial = 0 ∨ bytes = c.encode) := by
  unfold decode
  rw [run'_ok]
  simp only [reader_ok, orAtEnd_ok, tail_ok, Prod.mk.injEq]
  constructor
  · rintro ⟨_, rfl, left, rfl, ⟨rfl, ⟨generation, reach, serial⟩, -⟩ | ⟨-, within, ends⟩⟩
    · exact ⟨reach ▸ within_none, .inl ⟨List.append_nil _, generation, reach, serial⟩⟩
    · refine ⟨within, .inr ?_⟩
      rw [encode, reached_eq within]
      rcases ends with ⟨rfl, serial, -⟩ | rfl
      · exact .inl ⟨rfl, serial⟩
      · exact .inr (by rw [List.append_nil, List.append_assoc])
  · rintro ⟨within, ⟨rfl, generation, reach, serial⟩ | ⟨rfl, serial⟩ | rfl⟩
    · exact ⟨[], rfl, [], (List.append_nil _).symm,
        .inl ⟨rfl, ⟨generation, reach, serial⟩, trivial⟩⟩
    · refine ⟨[], rfl, _, rfl, .inr ⟨?_, within, .inl ⟨reached_eq within, serial, trivial⟩⟩⟩
      rw [reached_eq within, ← List.append_nil (reachBytes _ _)]
      exact reachBytes_ne
    · refine ⟨[], rfl, c.reached ++ be 8 c.serial, ?_, .inr ⟨?_, within, .inr ?_⟩⟩
      · rw [encode, List.append_assoc]
      · rw [reached_eq within]
        exact reachBytes_ne
      · rw [reached_eq within, List.append_nil]

end Control

/-- **Headers and control records are exact.** A header is decoded from its own encoding with
anything behind it and from nothing else, so the associated data made again of a decoded header
is what stood in the bytes; a control record within its bounds is decoded from its encoding, and
what any bytes are decoded as is decoded again from its own encoding. -/
theorem channel_records_exact :
    (∀ bytes (h : MessageHeader) rest, MessageHeader.decode.run bytes = .ok (h, rest) ↔
      h.Paired ∧ bytes = h.encode ++ rest) ∧
    (∀ bytes (h : MessageHeader) rest, MessageHeader.decode.run bytes = .ok (h, rest) →
      messageAad h = dmChannelMsgAad ++ bytes.take (bytes.length - rest.length)) ∧
    (∀ c : Control, Control.Within c.reach → Control.decode c.encode = .ok c) ∧
    (∀ bytes c, Control.decode bytes = .ok c → Control.decode c.encode = .ok c ∧
      (bytes = c.bare ∨ bytes = c.bare ++ c.reached ∨ bytes = c.encode)) := by
  refine ⟨fun bytes h rest => MessageHeader.decode_ok, fun bytes h rest read => ?_,
    fun c within => Control.decode_ok.2 ⟨within, .inr (.inr rfl)⟩, fun bytes c read => ?_⟩
  · obtain ⟨-, rfl⟩ := MessageHeader.decode_ok.1 read
    rw [List.length_append, Nat.add_sub_cancel, List.take_left, messageAad]
  · obtain ⟨within, ends⟩ := Control.decode_ok.1 read
    exact ⟨Control.decode_ok.2 ⟨within, .inr (.inr rfl)⟩,
      ends.imp And.left (Or.imp And.left id)⟩

end

theorem channel_records_exact_reach :
    let c : Control := ⟨none, 3, false, 1, ⟨some [7], some "a#00"⟩, 2⟩
    Control.decode c.encode = .ok c := by
  intro c
  refine channel_records_exact.2.2.1 c ⟨fun r held => ?_, fun h held => ?_⟩
  · obtain rfl := Option.some.inj held
    decide
  · obtain rfl := Option.some.inj held
    decide

end Daemonseed.Dm.ChannelBytes
