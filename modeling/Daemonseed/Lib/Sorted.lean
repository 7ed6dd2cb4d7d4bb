import Mathlib

/-! # Maps and sets in the order of their keys

A sorted map or set as the library's finite one, with the list its entries are
visited in; the entries put back one after another are the map again. -/
namespace Daemonseed.Lib.Sorted

universe u v

abbrev SortedMap (κ : Type u) (ν : Type v) := Finmap fun _ : κ => ν

variable {κ : Type u} {ν : Type v} [LinearOrder κ]

/-- A set in the order of its elements. -/
def ordered (s : Finset κ) : List κ := s.sort (· ≤ ·)

theorem mem_ordered {s : Finset κ} {k : κ} : k ∈ ordered s ↔ k ∈ s := Finset.mem_sort _

@[simp] theorem ordered_empty : ordered (∅ : Finset κ) = [] := Finset.sort_empty _

theorem foldl_insert_set (s : Finset κ) :
    (ordered s).foldl (fun s k => insert k s) ∅ = s := by
  have fold (l : List κ) (acc : Finset κ) :
      l.foldl (fun s k => insert k s) acc = acc ∪ l.toFinset := by
    induction l generalizing acc with
    | nil => simp
    | cons k l ih => rw [List.foldl_cons, ih, List.toFinset_cons, Finset.insert_union_comm]
  rw [fold, Finset.empty_union]
  exact Finset.sort_toFinset ..

namespace SortedMap

variable {m acc : SortedMap κ ν} {k : κ} {v : ν}

/-- The entries in the order of their keys. -/
def entries (m : SortedMap κ ν) : List (κ × ν) :=
  (ordered m.keys).filterMap fun k => (m.lookup k).map fun v => (k, v)

theorem mem_entries : (k, v) ∈ entries m ↔ m.lookup k = some v := by
  simp only [entries, List.mem_filterMap, mem_ordered, Option.map_eq_some_iff, Prod.mk.injEq]
  constructor
  · rintro ⟨_, -, _, found, rfl, rfl⟩
    exact found
  · intro found
    exact ⟨k, Finmap.mem_keys.2 (Finmap.mem_of_lookup_eq_some found), v, found, rfl, rfl⟩

theorem entries_nodup : ((entries m).map Prod.fst).Nodup := by
  have sub : ((entries m).map Prod.fst).Sublist (ordered m.keys) := by
    unfold entries
    induction ordered m.keys with
    | nil => simp
    | cons k ks ih =>
      cases found : m.lookup k with
      | none => simpa [found] using ih.cons k
      | some v => simpa [found] using ih
  exact sub.nodup (Finset.sort_nodup ..)

theorem lookup_foldl_absent {l : List (κ × ν)} (absent : k ∉ l.map Prod.fst) :
    (l.foldl (fun m e => m.insert e.1 e.2) acc).lookup k = acc.lookup k := by
  induction l generalizing acc with
  | nil => rfl
  | cons e l ih =>
    rw [List.map_cons, List.mem_cons, not_or] at absent
    rw [List.foldl_cons, ih absent.2, Finmap.lookup_insert_of_ne _ absent.1]

theorem lookup_foldl_mem {l : List (κ × ν)} (nodup : (l.map Prod.fst).Nodup) (mem : (k, v) ∈ l) :
    (l.foldl (fun m e => m.insert e.1 e.2) acc).lookup k = some v := by
  induction l generalizing acc with
  | nil => cases mem
  | cons e l ih =>
    rw [List.map_cons, List.nodup_cons] at nodup
    rcases List.mem_cons.1 mem with rfl | mem
    · rw [List.foldl_cons, lookup_foldl_absent nodup.1, Finmap.lookup_insert]
    · exact ih nodup.2 mem

@[simp] theorem entries_empty : entries (∅ : SortedMap κ ν) = [] := by
  rw [entries, Finmap.keys_empty, ordered_empty]
  rfl

theorem entries_single : entries (Finmap.insert k v ∅) = [(k, v)] := by
  have keys : (Finmap.insert k v (∅ : SortedMap κ ν)).keys = {k} := by
    ext other
    rw [Finmap.mem_keys, Finmap.mem_insert, Finset.mem_singleton]
    exact or_iff_left (Finmap.notMem_empty)
  rw [entries, ordered, keys, Finset.sort_singleton, List.filterMap_cons, Finmap.lookup_insert]
  rfl

/-- The entries put back are the map. -/
theorem foldl_entries (m : SortedMap κ ν) :
    (entries m).foldl (fun m e => m.insert e.1 e.2) ∅ = m := by
  refine Finmap.ext_lookup fun k => ?_
  cases found : m.lookup k with
  | some v => exact lookup_foldl_mem entries_nodup (mem_entries.2 found)
  | none =>
    refine (lookup_foldl_absent fun mem => ?_).trans (Finmap.lookup_empty k)
    obtain ⟨⟨_, v⟩, held, rfl⟩ := List.mem_map.1 mem
    cases found.symm.trans (mem_entries.1 held)

end SortedMap

end Daemonseed.Lib.Sorted
