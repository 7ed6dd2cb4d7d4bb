import Mathlib.Data.List.Basic

/-! # A counter that some events advance

A history, the newest event first, and the number of its events that advance a
counter. What the counter was when an event of a kind last happened is compared
with what it was at an earlier moment to tell whether one has happened since. -/
namespace Daemonseed.Lib.Ticks

variable {E : Type*} {ticks p : E → Bool}

/-- The counter when an event of the kind last happened. -/
def stamp (ticks p : E → Bool) : List E → Nat
  | [] => 0
  | e :: past => if p e then (e :: past).countP ticks else stamp ticks p past

theorem stamp_le (past : List E) : stamp ticks p past ≤ past.countP ticks := by
  induction past with
  | nil => exact Nat.le_refl _
  | cons e past ih =>
    unfold stamp
    split
    · exact Nat.le_refl _
    · exact Nat.le_trans ih (List.sublist_cons_self e past).countP_le

/-- No event of the kind among the newest `n`, by the counter before them. -/
theorem stamp_le_iff (sub : ∀ e, p e = true → ticks e = true) (past : List E) (n : Nat) :
    stamp ticks p past ≤ (past.drop n).countP ticks ↔ ∀ e ∈ past.take n, p e = false := by
  induction past generalizing n with
  | nil => simp [stamp]
  | cons e past ih =>
    cases n with
    | zero => simpa using stamp_le (e :: past)
    | succ n =>
      rw [List.drop_succ_cons, List.take_succ_cons, List.forall_mem_cons, stamp]
      cases here : p e with
      | false => simpa using ih n
      | true =>
        have before : (past.drop n).countP ticks ≤ past.countP ticks :=
          (List.drop_sublist n past).countP_le
        have more : (e :: past).countP ticks = past.countP ticks + 1 :=
          List.countP_cons_of_pos (sub e here)
        simp only [if_true, reduceCtorEq, false_and, iff_false]
        omega

end Daemonseed.Lib.Ticks
