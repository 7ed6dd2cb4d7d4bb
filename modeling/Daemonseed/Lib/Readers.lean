import Mathlib.Data.Nat.ModEq
import Mathlib.Data.List.Basic
import Mathlib.Data.List.Forall2
import Daemonseed.Lib.Bytes
import Daemonseed.Lib.Framed

/-! # Readers

What is read off the front of an encoding step by step, where a step that fails
ends the reading. A reader *reads* a value where it takes exactly the bytes that
were written for it, whatever follows them; what it takes from other bytes is
found by taking its steps apart. -/
namespace Daemonseed.Lib.Readers
open Daemonseed.Lib.Bytes Daemonseed.Lib.Framed

variable {ε α β : Type}

/-- Reads a value off the front of the bytes that are left. -/
abbrev Reader (ε : Type) := StateT Octets (Except ε)

/-- Exactly `n` bytes. -/
abbrev Field (n : Nat) := { bytes : Octets // bytes.length = n }

/-- Takes `bytes` as `a`, whatever follows. -/
def Reads (r : Reader ε α) (bytes : Octets) (a : α) : Prop :=
  ∀ rest, r.run (bytes ++ rest) = .ok (a, rest)

variable {r : Reader ε α} {f : α → Reader ε β} {bytes bytes' rest : Octets} {a : α} {b : β}

/-! ## Steps -/

theorem run_bind (r : Reader ε α) (f : α → Reader ε β) (bytes : Octets) :
    (r >>= f).run bytes = r.run bytes >>= fun x => (f x.1).run x.2 := rfl

/-- What succeeds does so in each of its steps. -/
theorem bind_ok : (r >>= f).run bytes = .ok (b, rest) ↔
    ∃ a left, r.run bytes = .ok (a, left) ∧ (f a).run left = .ok (b, rest) := by
  rw [run_bind]
  cases r.run bytes with
  | error e => simp [bind, Except.bind]
  | ok x =>
    obtain ⟨a, left⟩ := x
    simp [bind, Except.bind]

theorem pure_ok {a' : α} :
    (pure a : Reader ε α).run bytes = .ok (a', rest) ↔ a' = a ∧ bytes = rest := by
  rw [StateT.run_pure]
  show Except.ok (a, bytes) = _ ↔ _
  rw [Except.ok.injEq, Prod.mk.injEq, eq_comm (a := a)]

/-- The reading goes on behind what a step takes. -/
theorem Reads.run_bind (h : Reads r bytes a) :
    (r >>= f).run (bytes ++ rest) = (f a).run rest := by
  rw [Readers.run_bind, h rest]
  rfl

/-- What is left behind a step decides the outcome. -/
theorem Reads.then {out : Except ε (β × Octets)} (h : Reads r bytes a)
    (next : (f a).run bytes' = out) : (r >>= f).run (bytes ++ bytes') = out := by
  rw [h.run_bind, next]

namespace Reads

protected theorem pure : Reads (pure a : Reader ε α) [] a := fun _ => rfl

protected theorem bind (h : Reads r bytes a) (next : Reads (f a) bytes' b) :
    Reads (r >>= f) (bytes ++ bytes') b := by
  intro rest
  rw [List.append_assoc, h.run_bind]
  exact next rest

/-- A last step. -/
theorem last {g : α → β} (h : Reads r bytes a) : Reads (r >>= fun x => pure (g x)) bytes (g a) := by
  intro rest
  rw [h.run_bind]
  rfl

/-- A step that takes nothing. -/
theorem pass (h : Reads r [] a) (next : Reads (f a) bytes b) : Reads (r >>= f) bytes b :=
  h.bind next

/-- One step for each of the values. -/
protected theorem mapM {ι : Type} {step : ι → Reader ε α} {write : α → Octets} {l : List ι}
    {out : List α} (steps : List.Forall₂ (fun i a => Reads (step i) (write a) a) l out) :
    Reads (l.mapM step) (out.flatMap write) out := by
  induction steps with
  | nil => exact Reads.pure
  | cons first _ ih =>
    rw [List.mapM_cons, List.flatMap_cons]
    exact first.bind ih.last

end Reads

/-! ## Refusals -/

/-- Ends the reading where `bad`. -/
def refuse (bad : Prop) [Decidable bad] (e : ε) : Reader ε Unit :=
  if bad then throw e else pure ()

theorem reads_refuse {bad : Prop} [Decidable bad] {e : ε} (good : ¬ bad) :
    Reads (refuse bad e) [] () := by
  rw [refuse, if_neg good]
  exact Reads.pure

theorem refuse_then {bad : Prop} [Decidable bad] {e : ε} {g : Unit → Reader ε β}
    {out : Except ε (β × Octets)} (good : ¬ bad) (next : (g ()).run bytes = out) :
    (refuse bad e >>= g).run bytes = out := by
  rw [refuse, if_neg good]
  exact next

theorem refuse_ok {bad : Prop} [Decidable bad] {e : ε} {u : Unit} :
    (refuse bad e).run bytes = .ok (u, rest) ↔ ¬ bad ∧ bytes = rest := by
  unfold refuse
  by_cases h : bad
  · rw [if_pos h]
    refine iff_of_false (fun e => ?_) fun ⟨good, _⟩ => good h
    cases e
  · rw [if_neg h, pure_ok]
    simp [h]

/-! ## Fields of a known width -/

/-- The next `n` bytes. -/
def take (e : ε) (n : Nat) : Reader ε Octets := fun bytes =>
  if bytes.length < n then .error e else .ok (bytes.splitAt n)

theorem take_ok {e : ε} {n : Nat} {front : Octets} :
    (take e n).run bytes = .ok (front, rest) ↔ front.length = n ∧ bytes = front ++ rest := by
  show (if bytes.length < n then Except.error e else .ok (bytes.splitAt n)) = _ ↔ _
  rw [List.splitAt_eq]
  split <;> rename_i short
  · refine iff_of_false (fun e => by cases e) ?_
    rintro ⟨rfl, rfl⟩
    rw [List.length_append] at short
    omega
  · rw [Except.ok.injEq, Prod.mk.injEq]
    constructor
    · rintro ⟨rfl, rfl⟩
      rw [List.length_take, List.take_append_drop]
      exact ⟨by omega, rfl⟩
    · rintro ⟨rfl, rfl⟩
      simp

theorem reads_take {e : ε} (front : Octets) : Reads (take e front.length) front front :=
  fun _ => take_ok.2 ⟨rfl, rfl⟩

theorem reads_take_of {e : ε} {n : Nat} {front : Octets} (width : front.length = n) :
    Reads (take e n) front front :=
  width ▸ reads_take front

/-- The next `n` bytes, as a field. -/
def field (e : ε) (n : Nat) : Reader ε (Field n) := fun bytes =>
  if h : n ≤ bytes.length then .ok (⟨bytes.take n, List.length_take_of_le h⟩, bytes.drop n)
  else .error e

theorem field_ok {e : ε} {n : Nat} {front : Field n} :
    (field e n).run bytes = .ok (front, rest) ↔ bytes = front.1 ++ rest := by
  show (if h : n ≤ bytes.length then Except.ok _ else .error e) = _ ↔ _
  obtain ⟨front, rfl⟩ := front
  split <;> rename_i enough
  · rw [Except.ok.injEq, Prod.mk.injEq, Subtype.mk.injEq]
    constructor
    · rintro ⟨taken, dropped⟩
      rw [← taken, ← dropped, List.take_append_drop]
    · rintro rfl
      simp
  · refine iff_of_false (fun e => by cases e) ?_
    rintro rfl
    simp at enough

theorem reads_field {e : ε} {n : Nat} (front : Field n) : Reads (field e n) front.1 front :=
  fun _ => field_ok.2 rfl

/-! ## Integers -/

/-- An integer of `n` bytes, most significant first. -/
def be (n : Nat) (v : BitVec (8 * n)) : Octets := toBe n v.toNat

@[simp] theorem be_length {n : Nat} {v : BitVec (8 * n)} : (be n v).length = n :=
  toBe_length _ _

theorem fromBe_lt (bytes : Octets) : fromBe bytes < 256 ^ bytes.length := by
  induction bytes using List.reverseRecOn with
  | nil => simp [fromBe]
  | append_singleton bytes b ih =>
    rw [fromBe_concat, List.length_append, List.length_singleton, pow_succ]
    have := b.toNat_lt
    omega

theorem toBe_fromBe (bytes : Octets) : toBe bytes.length (fromBe bytes) = bytes := by
  induction bytes using List.reverseRecOn with
  | nil => rfl
  | append_singleton bytes b ih =>
    have small := b.toNat_lt
    have above : (fromBe bytes * 256 + b.toNat) / 256 = fromBe bytes := by omega
    have low : UInt8.ofNat (fromBe bytes * 256 + b.toNat) = b := by
      apply UInt8.toNat_inj.1
      rw [UInt8.toNat_ofNat']
      omega
    rw [fromBe_concat, List.length_append, List.length_singleton, toBe, above, low, ih]

theorem word_bound (n : Nat) : 256 ^ n = 2 ^ (8 * n) := by
  rw [pow_mul]
  rfl

/-- The integer that `n` bytes spell. -/
def ofBe (n : Nat) (bytes : Octets) : BitVec (8 * n) := BitVec.ofNat _ (fromBe bytes)

theorem ofBe_be {n : Nat} (v : BitVec (8 * n)) : ofBe n (be n v) = v := by
  apply BitVec.eq_of_toNat_eq
  rw [ofBe, BitVec.toNat_ofNat, be, fromBe_toBe, word_bound, Nat.mod_mod,
    Nat.mod_eq_of_lt v.isLt]

theorem be_ofBe {bytes : Octets} {n : Nat} (h : bytes.length = n) :
    be n (ofBe n bytes) = bytes := by
  subst h
  rw [be, ofBe, BitVec.toNat_ofNat, ← word_bound, Nat.mod_eq_of_lt (fromBe_lt bytes), toBe_fromBe]

/-- The next integer of `n` bytes. -/
def word (e : ε) (n : Nat) : Reader ε (BitVec (8 * n)) := do
  return ofBe n (← take e n)

theorem word_ok {e : ε} {n : Nat} {v : BitVec (8 * n)} :
    (word e n).run bytes = .ok (v, rest) ↔ bytes = be n v ++ rest := by
  rw [word, bind_ok]
  constructor
  · rintro ⟨front, left, taken, h⟩
    obtain ⟨rfl, rfl⟩ := pure_ok.1 h
    obtain ⟨length, rfl⟩ := take_ok.1 taken
    rw [be_ofBe length]
  · rintro rfl
    exact ⟨_, rest, take_ok.2 ⟨be_length, rfl⟩, pure_ok.2 ⟨(ofBe_be v).symm, rfl⟩⟩

theorem reads_word {e : ε} {n : Nat} (v : BitVec (8 * n)) :
    Reads (word e n) (be n v) v :=
  fun _ => word_ok.2 rfl

/-- An integer of `n` bytes, least significant first. -/
def le (n : Nat) (v : BitVec (8 * n)) : Octets := (be n v).reverse

@[simp] theorem le_length {n : Nat} {v : BitVec (8 * n)} : (le n v).length = n := by
  rw [le, List.length_reverse, be_length]

theorem le_injective {n : Nat} {v w : BitVec (8 * n)} (h : le n v = le n w) : v = w := by
  rw [← ofBe_be v, ← ofBe_be w, List.reverse_inj.1 h]

def wordLe (e : ε) (n : Nat) : Reader ε (BitVec (8 * n)) := do
  return ofBe n (← take e n).reverse

theorem wordLe_ok {e : ε} {n : Nat} {v : BitVec (8 * n)} :
    (wordLe e n).run bytes = .ok (v, rest) ↔ bytes = le n v ++ rest := by
  rw [wordLe, bind_ok]
  constructor
  · rintro ⟨front, left, taken, h⟩
    obtain ⟨rfl, rfl⟩ := pure_ok.1 h
    obtain ⟨length, rfl⟩ := take_ok.1 taken
    rw [le, be_ofBe (by rw [List.length_reverse, length]), List.reverse_reverse]
  · rintro rfl
    refine ⟨_, rest, take_ok.2 ⟨le_length, rfl⟩, pure_ok.2 ⟨?_, rfl⟩⟩
    rw [le, List.reverse_reverse, ofBe_be]

theorem reads_wordLe {e : ε} {n : Nat} (v : BitVec (8 * n)) :
    Reads (wordLe e n) (le n v) v :=
  fun _ => wordLe_ok.2 rfl

/-! ## Fields after their lengths -/

/-- The next field, after its length in eight bytes. -/
def lpField (e : ε) : Reader ε Octets := do
  let length ← word e 8
  take e length.toNat

theorem be_short (h : Short bytes) : be 8 (BitVec.ofNat 64 bytes.length) = toBe 8 bytes.length := by
  rw [be, BitVec.toNat_ofNat, Nat.mod_eq_of_lt h]

theorem lpField_ok {e : ε} {held : Octets} :
    (lpField e).run bytes = .ok (held, rest) ↔ Short held ∧ bytes = lp held ++ rest := by
  rw [lpField, bind_ok]
  constructor
  · rintro ⟨length, left, read, taken⟩
    obtain rfl := word_ok.1 read
    obtain ⟨same, rfl⟩ := take_ok.1 taken
    have short : Short held := by
      rw [Short, same]
      exact length.isLt
    refine ⟨short, ?_⟩
    rw [Framed.lp, ← be_short short, same, BitVec.ofNat_toNat, BitVec.setWidth_eq, List.append_assoc]
  · rintro ⟨short, rfl⟩
    refine ⟨BitVec.ofNat 64 held.length, held ++ rest, word_ok.2 ?_, take_ok.2 ⟨?_, rfl⟩⟩
    · rw [be_short short, Framed.lp, List.append_assoc]
    · exact (Nat.mod_eq_of_lt short).symm

theorem reads_lpField {e : ε} {held : Octets} (short : Short held) :
    Reads (lpField e) (lp held) held :=
  fun _ => lpField_ok.2 ⟨short, rfl⟩

/-! ## Whole encodings -/

/-- Ends the reading where bytes are left. -/
def finish (e : ε) : Reader ε Unit := fun bytes => if bytes = [] then .ok ((), []) else .error e

theorem finish_ok {e : ε} {u : Unit} :
    (finish e).run bytes = .ok (u, rest) ↔ bytes = [] ∧ rest = [] := by
  show (if bytes = [] then Except.ok ((), []) else .error e) = _ ↔ _
  split <;> rename_i h
  · simp [h, eq_comm]
  · simp [h]

/-- All that is left. -/
def remaining : Reader ε Octets := fun bytes => .ok (bytes, [])

theorem remaining_ok {held : Octets} :
    (remaining : Reader ε Octets).run bytes = .ok (held, rest) ↔ bytes = held ∧ rest = [] := by
  show Except.ok (bytes, []) = _ ↔ _
  rw [Except.ok.injEq, Prod.mk.injEq, eq_comm (a := rest)]

/-- What is read, or a default where nothing is left. -/
def orAtEnd (default : α) (r : Reader ε α) : Reader ε α := fun bytes =>
  if bytes = [] then .ok (default, []) else r.run bytes

theorem orAtEnd_ok {default : α} :
    (orAtEnd default r).run bytes = .ok (a, rest) ↔
      bytes = [] ∧ a = default ∧ rest = [] ∨ bytes ≠ [] ∧ r.run bytes = .ok (a, rest) := by
  show (if bytes = [] then Except.ok (default, []) else r.run bytes) = _ ↔ _
  split <;> rename_i h
  · simp [h, eq_comm]
  · simp [h]

/-- A result found elsewhere. -/
def given (x : Except ε α) : Reader ε α := fun bytes => x.map (·, bytes)

theorem given_ok {x : Except ε α} : (given x).run bytes = .ok (a, rest) ↔ x = .ok a ∧ bytes = rest := by
  show x.map (·, bytes) = _ ↔ _
  cases x with
  | error e => simp [Except.map]
  | ok a' => simp [Except.map]

theorem run'_ok : r.run' bytes = .ok a ↔ ∃ rest, r.run bytes = .ok (a, rest) := by
  show Prod.fst <$> r.run bytes = _ ↔ _
  cases r.run bytes with
  | error e => simp [Functor.map, Except.map]
  | ok x =>
    obtain ⟨a', left⟩ := x
    simp [Functor.map, Except.map]

end Daemonseed.Lib.Readers
