import Mathlib.Data.Nat.ModEq
import Mathlib.Data.List.Infix
import Daemonseed.Lib.Bytes

/-! # Fields after their lengths

Encodings that write each field after its length, under a domain that no other
encoding begins with: two of them agree only where every field does. -/
namespace Daemonseed.Lib.Framed
open Daemonseed.Lib.Bytes

/-- A field after its length. -/
def lp (bytes : Octets) : Octets := toBe 8 bytes.length ++ bytes

def lps (fields : List Octets) : Octets := fields.flatMap lp

/-- No longer than the length field can say. -/
def Short (bytes : Octets) : Prop := bytes.length < 2 ^ 64

instance {bytes : Octets} : Decidable (Short bytes) := inferInstanceAs (Decidable (_ < _))

variable {a b r s : Octets} {fields fields' : List Octets}

theorem toBe_injective {width m n : Nat} (hm : m < 256 ^ width) (hn : n < 256 ^ width)
    (h : toBe width m = toBe width n) : m = n := by
  have same := congrArg fromBe h
  rwa [fromBe_toBe, fromBe_toBe, Nat.mod_eq_of_lt hm, Nat.mod_eq_of_lt hn] at same

@[simp] theorem lps_nil : lps [] = [] := rfl

@[simp] theorem lps_cons : lps (a :: fields) = lp a ++ lps fields := rfl

theorem lp_length : (lp a).length = 8 + a.length := by
  rw [lp, List.length_append, toBe_length]

theorem lp_ne_nil : lp a ++ r ≠ [] := by
  intro e
  have none := congrArg List.length e
  simp [lp] at none

/-- A field is read off the front of what begins with it in one way only. -/
theorem lp_append_injective (ha : Short a) (hb : Short b) (h : lp a ++ r = lp b ++ s) :
    a = b ∧ r = s := by
  unfold lp at h
  rw [List.append_assoc, List.append_assoc] at h
  obtain ⟨lengths, rest⟩ := List.append_inj h (by simp)
  have same : a.length = b.length := toBe_injective ha hb lengths
  exact List.append_inj rest same

/-- Lists of short fields are told apart by their encodings, however many fields they have. -/
theorem lps_injective (short : ∀ f ∈ fields, Short f) (short' : ∀ f ∈ fields', Short f)
    (h : lps fields = lps fields') : fields = fields' := by
  induction fields generalizing fields' with
  | nil =>
    cases fields' with
    | nil => rfl
    | cons b fields' => exact absurd h.symm lp_ne_nil
  | cons a fields ih =>
    cases fields' with
    | nil => exact absurd h lp_ne_nil
    | cons b fields' =>
      obtain ⟨first, others⟩ := List.forall_mem_cons.1 short
      obtain ⟨first', others'⟩ := List.forall_mem_cons.1 short'
      obtain ⟨rfl, rest⟩ := lp_append_injective first first' h
      rw [ih others others' rest]

/-! ## Domains -/

/-- Neither domain begins with the other. -/
def Apart (d d' : Octets) : Prop := ¬ d <+: d' ∧ ¬ d' <+: d

instance {d d' : Octets} : Decidable (Apart d d') := inferInstanceAs (Decidable (_ ∧ _))

/-- What begins with domains that stand apart differs. -/
theorem Apart.ne {d d' : Octets} (apart : Apart d d') : d ++ r ≠ d' ++ s := by
  intro e
  have left : d <+: d' ++ s := e ▸ List.prefix_append d r
  rcases List.prefix_or_prefix_of_prefix left (List.prefix_append d' s) with h | h
  · exact apart.1 h
  · exact apart.2 h

/-- Encodings of short fields under domains that are one or stand apart are told apart by
their domains and their fields. -/
theorem tagged_injective {d d' : Octets} (domains : d = d' ∨ Apart d d')
    (short : ∀ f ∈ fields, Short f) (short' : ∀ f ∈ fields', Short f)
    (h : d ++ lps fields = d' ++ lps fields') : d = d' ∧ fields = fields' := by
  rcases domains with rfl | apart
  · exact ⟨rfl, lps_injective short short' (List.append_cancel_left h)⟩
  · exact absurd h apart.ne

end Daemonseed.Lib.Framed
