import Mathlib.Data.List.Nodup
import Mathlib.Data.List.Perm.Subperm

/-! # The first free one of a numbered family

Of a family without repetitions the first member from a number on that is not
taken; as many tries as are taken are enough. -/
namespace Daemonseed.Lib.Numbering

variable {α : Type*} [DecidableEq α] (family : Nat → α)

/-- The first from `n` on that is not taken, the last one tried else. -/
def firstFree (taken : List α) : Nat → Nat → α
  | 0, n => family n
  | fuel + 1, n => if family n ∈ taken then firstFree taken fuel (n + 1) else family n

variable {family} {taken : List α}

theorem firstFree_mem (fuel n : Nat) : ∃ k, n ≤ k ∧ firstFree family taken fuel n = family k := by
  induction fuel generalizing n with
  | zero => exact ⟨n, Nat.le_refl _, rfl⟩
  | succ fuel ih =>
    unfold firstFree
    split
    · obtain ⟨k, later, same⟩ := ih (n + 1)
      exact ⟨k, by omega, same⟩
    · exact ⟨n, Nat.le_refl _, rfl⟩

/-- What is taken in the end was found only after all before it were taken. -/
theorem firstFree_taken {fuel n : Nat} (h : firstFree family taken fuel n ∈ taken) :
    ∀ k ≤ fuel, family (n + k) ∈ taken := by
  induction fuel generalizing n with
  | zero =>
    intro k small
    obtain rfl : k = 0 := by omega
    exact h
  | succ fuel ih =>
    unfold firstFree at h
    split at h
    · rename_i here
      intro k small
      cases k with
      | zero => exact here
      | succ k =>
        have next := ih h k (by omega)
        rwa [Nat.add_assoc, Nat.add_comm 1 k] at next
    · rename_i free
      exact absurd h free

/-- **It is free** if as many are tried as are taken. -/
theorem firstFree_free (injective : Function.Injective family) (n : Nat) :
    firstFree family taken taken.length n ∉ taken := by
  intro h
  have all := firstFree_taken h
  have distinct : ((List.range (taken.length + 1)).map fun k => family (n + k)).Nodup :=
    List.nodup_range.map fun a b same => by
      have := injective same
      omega
  have few := (distinct.subperm fun a mem => by
    obtain ⟨k, small, rfl⟩ := List.mem_map.1 mem
    exact all k (by have := List.mem_range.1 small; omega)).length_le
  rw [List.length_map, List.length_range] at few
  omega

end Daemonseed.Lib.Numbering
