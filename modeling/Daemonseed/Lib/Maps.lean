import Mathlib

/-! # Finite maps

What the association lists of the library lack to stand for a hash map: the
entries that pass a test. -/
namespace Daemonseed.Lib.Maps

universe u v

abbrev Map (κ : Type u) (ν : Type v) := AList fun _ : κ => ν

variable {κ : Type u} {ν : Type v}

namespace Map

/-- The entries that pass the test. -/
def retain (m : Map κ ν) (keep : κ → ν → Bool) : Map κ ν :=
  ⟨m.entries.filter fun e => keep e.1 e.2, m.nodupKeys.sublist List.filter_sublist⟩

def values (m : Map κ ν) : List ν := m.entries.map Sigma.snd

/-- Each value replaced under its key. -/
def each (m : Map κ ν) (f : κ → ν → ν) : Map κ ν :=
  ⟨m.entries.map fun e => ⟨e.1, f e.1 e.2⟩, by
    rw [List.NodupKeys, List.keys, List.map_map]
    exact m.nodupKeys⟩

variable [DecidableEq κ] {m : Map κ ν} {keep : κ → ν → Bool} {k : κ} {v : ν}

@[simp] theorem lookup_retain : (m.retain keep).lookup k = (m.lookup k).filter (keep k) := by
  ext v
  rw [← Option.mem_def, AList.mem_lookup_iff, ← Option.mem_def, Option.mem_filter_iff,
    AList.mem_lookup_iff]
  exact List.mem_filter

theorem lookup_retain_some :
    (m.retain keep).lookup k = some v ↔ m.lookup k = some v ∧ keep k v = true := by
  rw [lookup_retain, Option.filter_eq_some_iff]

@[simp] theorem lookup_each {f : κ → ν → ν} : (m.each f).lookup k = (m.lookup k).map (f k) := by
  ext v
  rw [← Option.mem_def, AList.mem_lookup_iff, Option.map_eq_some_iff]
  constructor
  · intro mem
    obtain ⟨e, held, same⟩ := List.mem_map.1 mem
    obtain ⟨rfl, told⟩ := Sigma.mk.inj same
    exact ⟨e.2, AList.mem_lookup_iff.2 held, eq_of_heq told⟩
  · rintro ⟨v, held, rfl⟩
    exact List.mem_map.2 ⟨⟨k, v⟩, AList.mem_lookup_iff.1 held, rfl⟩

theorem lookup_mono {m' : Map κ ν} (h : m.lookup k = none → m'.lookup k = none)
    (held : m'.lookup k = some v) : ∃ v, m.lookup k = some v := by
  cases found : m.lookup k with
  | none => exact absurd (h found) (by simp [held])
  | some v => exact ⟨v, rfl⟩

/-! ## Sums over the entries -/

/-- The sum of a measure of the values. -/
def tally (m : Map κ ν) (f : ν → Nat) : Nat := (m.entries.map fun e => f e.2).sum

variable {f : ν → Nat}

omit [DecidableEq κ] in
@[simp] theorem tally_empty : (∅ : Map κ ν).tally f = 0 := rfl

/-- The measure of one key's value, where there is one. -/
def share (m : Map κ ν) (f : ν → Nat) (k : κ) : Nat := ((m.lookup k).map f).getD 0

theorem tally_erase : m.tally f = m.share f k + tally (m.erase k) f := by
  unfold share tally
  cases found : m.lookup k with
  | none =>
    have absent : k ∉ m.entries.keys := AList.lookup_eq_none.1 found
    show _ = 0 + ((m.entries.kerase k).map fun e => f e.2).sum
    rw [List.kerase_of_notMem_keys absent, Nat.zero_add]
  | some v =>
    have mem : (⟨k, v⟩ : Sigma fun _ => ν) ∈ m.entries := AList.mem_lookup_iff.1 found
    obtain ⟨v', before, after, -, whole, rest⟩ :=
      List.exists_of_kerase (List.mem_keys_of_mem mem)
    have mem' : (⟨k, v'⟩ : Sigma fun _ => ν) ∈ m.entries := whole ▸ List.mem_append_right _ List.mem_cons_self
    have same : v' = v := by
      have found' : m.lookup k = some v' := AList.mem_lookup_iff.2 mem'
      rw [found] at found'
      exact (Option.some.inj found').symm
    subst same
    show _ = f v' + ((m.entries.kerase k).map fun e => f e.2).sum
    rw [rest, whole]
    simp only [List.map_append, List.map_cons, List.sum_append, List.sum_cons]
    omega

theorem tally_insert : tally (m.insert k v) f = f v + tally (m.erase k) f := by
  unfold tally
  rw [AList.entries_insert, List.map_cons, List.sum_cons]
  rfl

end Map

end Daemonseed.Lib.Maps
