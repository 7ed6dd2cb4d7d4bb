import Daemonseed.Lib.RoundRobin
import Mathlib.Data.List.Destutter
import Mathlib.Data.Finset.Sort

/-! # The steady resweep

Which record is swept next: the smallest identity above the last one swept, and round
again. The records subscribed to change between the ticks of the clock, and the cursor may
be at one that has left. -/
namespace Daemonseed.Net.Resweep
open Daemonseed.Lib.RoundRobin

variable {α : Type} [LinearOrder α]

/-- The next record after `last`, and the records as they are left: in order, and each
once. -/
def nextResweepRecord (records : List α) (last : Option α) : Option α × List α :=
  if records.isEmpty then (none, records)
  else
    let sorted := (records.mergeSort (· ≤ ·)).destutter (· ≠ ·)
    match last with
    | none => (sorted.head?, sorted)
    | some last => ((sorted.find? fun s => last < s).or sorted.head?, sorted)

/-- A tick of the clock: the cursor is the last record picked. -/
def tick (cursor : Option α) (records : List α) : Option α :=
  (nextResweepRecord records cursor).1.or cursor

/-- The cursor before each tick. -/
def cursor (sets : Nat → List α) : Nat → Option α
  | 0 => none
  | t + 1 => tick (cursor sets t) (sets t)

/-- The record picked at each tick. -/
def pick (sets : Nat → List α) (t : Nat) : Option α := (nextResweepRecord (sets t) (cursor sets t)).1

/-! ## One pick -/

/-- The records of a tick in order, each once. -/
abbrev sorted (records : List α) : List α := (records.mergeSort (· ≤ ·)).destutter (· ≠ ·)

theorem mem_destutter {a x : α} {l : List α} :
    x ∈ l.destutter' (· ≠ ·) a ↔ x = a ∨ x ∈ l := by
  induction l generalizing a with
  | nil => simp
  | cons b l ih =>
    by_cases same : a = b
    · subst same
      rw [List.destutter'_cons_neg l (fun other => other rfl), ih]
      simp
    · rw [List.destutter'_cons_pos l same, List.mem_cons, ih, List.mem_cons]

theorem mem_sorted {records : List α} {x : α} : x ∈ sorted records ↔ x ∈ records := by
  rw [← (List.mergeSort_perm records (· ≤ ·)).mem_iff, sorted]
  cases records.mergeSort (· ≤ ·) with
  | nil => rfl
  | cons a l => rw [List.destutter_cons', mem_destutter, List.mem_cons]

theorem sorted_pairwise (records : List α) : (sorted records).Pairwise (· ≤ ·) := by
  have ordered : (records.mergeSort (· ≤ ·)).Pairwise (· ≤ ·) := by
    simpa using @List.pairwise_mergeSort α (fun a b => decide (a ≤ b))
      (fun a b c ab bc => by simp at *; exact ab.trans bc) (fun a b => by simp [le_total]) records
  exact ordered.sublist (List.destutter_sublist _ _)

theorem head_least {records : List α} {x : α} (head : (sorted records).head? = some x) :
    x ∈ records ∧ ∀ y ∈ records, x ≤ y := by
  obtain ⟨rest, is⟩ := List.head?_eq_some_iff.1 head
  have ordered := sorted_pairwise records
  rw [is] at ordered
  refine ⟨mem_sorted.1 (is ▸ List.mem_cons_self), fun y mem => ?_⟩
  obtain rfl | later := List.mem_cons.1 (is ▸ mem_sorted.2 mem)
  · exact le_rfl
  · exact (List.pairwise_cons.1 ordered).1 y later

theorem find_next {records : List α} {last x : α}
    (found : (sorted records).find? (fun s => last < s) = some x) :
    x ∈ records ∧ last < x ∧ ∀ y ∈ records, last < y → x ≤ y := by
  obtain ⟨past, before, after, is, none_⟩ := List.find?_eq_some_iff_append.1 found
  have ordered := sorted_pairwise records
  rw [is] at ordered
  refine ⟨mem_sorted.1 (is ▸ by simp), of_decide_eq_true past, fun y mem later => ?_⟩
  obtain early | here := List.mem_append.1 (is ▸ mem_sorted.2 mem)
  · have := none_ y early
    simp [later] at this
  · obtain rfl | after := List.mem_cons.1 here
    · exact le_rfl
    · exact (List.pairwise_cons.1 (List.pairwise_append.1 ordered).2.1).1 y after

/-- **One pick is a turn** of the records of its tick. -/
theorem next_turn {records : List α} {last : Option α} {x : α}
    (next : (nextResweepRecord records last).1 = some x) : Turn records.toFinset last x := by
  unfold nextResweepRecord at next
  split at next
  · cases next
  · cases last with
    | none =>
      obtain ⟨mem, least⟩ := head_least next
      exact .above (List.mem_toFinset.2 mem) nofun fun y mem _ => least y (List.mem_toFinset.1 mem)
    | some l =>
      cases found : (sorted records).find? (fun s => l < s) with
      | some y =>
        obtain rfl : y = x := by simpa [found] using next
        obtain ⟨mem, past, least⟩ := find_next found
        refine .above (List.mem_toFinset.2 mem) (fun _ same => by cases same; exact past) ?_
        exact fun z mem later => least z (List.mem_toFinset.1 mem) (later l rfl)
      | none =>
        have head : (sorted records).head? = some x := by simpa [found] using next
        obtain ⟨mem, least⟩ := head_least head
        refine .wraps (List.mem_toFinset.2 mem) (fun y mem => least y (List.mem_toFinset.1 mem)) l rfl
          fun y mem => ?_
        have below := List.find?_eq_none.1 found y (mem_sorted.2 (List.mem_toFinset.1 mem))
        simpa using below

theorem next_none {records : List α} {last : Option α}
    (next : (nextResweepRecord records last).1 = none) : records = [] := by
  unfold nextResweepRecord at next
  split at next
  · exact List.isEmpty_iff.1 ‹_›
  · have head : (sorted records).head? = none := by
      cases last with
      | none => exact next
      | some l => exact (Option.or_eq_none_iff.1 next).2
    refine List.eq_nil_iff_forall_not_mem.2 fun x mem => ?_
    have := mem_sorted.2 mem
    rw [List.head?_eq_none_iff.1 head] at this
    cases this

/-! ## Every run -/

theorem turns (sets : Nat → List α) :
    Turns (fun t => (sets t).toFinset) (cursor sets) (pick sets) where
  some_ t x picked := ⟨next_turn picked, by rw [cursor, tick, ← pick, picked, Option.some_or]⟩
  none_ t nothing := by
    refine ⟨by rw [next_none nothing, List.toFinset_nil], ?_⟩
    rw [cursor, tick, ← pick, nothing, Option.none_or]

/-- **The resweep skips nothing.** Whatever joins and leaves between the ticks: between two
picks of one record, every record that was subscribed to at each tick from the first to the
second is picked; and a record that stays subscribed to is picked after no more ticks than
there are distinct records in them. -/
theorem resweep_skips_nothing (sets : Nat → List α) :
    (∀ i j x y, i < j → pick sets i = some x → pick sets j = some x →
      (∀ t, i ≤ t → t ≤ j → y ∈ sets t) → ∃ t, i ≤ t ∧ t ≤ j ∧ pick sets t = some y) ∧
    ∀ i n y, 0 < n → (∀ t, i < t → t ≤ i + n → y ∈ sets t) →
      ((Finset.Ioc i (i + n)).biUnion fun t => (sets t).toFinset).card ≤ n →
      ∃ t, i < t ∧ t ≤ i + n ∧ pick sets t = some y := by
  refine ⟨fun i j x y lt first second mem => ?_, fun i n y some_ mem few => ?_⟩
  · exact (turns sets).between lt first second fun t le le' => List.mem_toFinset.2 (mem t le le')
  · exact (turns sets).within (fun t lt le => List.mem_toFinset.2 (mem t lt le)) few some_

end Daemonseed.Net.Resweep
