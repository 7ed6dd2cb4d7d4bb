import Mathlib.Order.MinMax

/-! # A register of stamped offers

A value kept beside the highest stamp it was offered at. An offer below the
stamp is refused, one at the stamp can only fill a register that holds nothing,
and one above it moves the stamp and replaces the value where it brings one. -/
namespace Daemonseed.Lib.Stamped

/-- The register. -/
structure Register (S V : Type) where
  value : Option V
  stamp : S
  deriving DecidableEq

variable {S V : Type} [LinearOrder S]

variable {order order' : List S} {start s : S}

theorem start_le_foldl_max : start ≤ order.foldl max start := by
  induction order generalizing start with
  | nil => exact le_refl _
  | cons s order ih => exact le_trans (le_max_left _ _) ih

theorem le_foldl_max (h : s ∈ order) : s ≤ order.foldl max start := by
  induction order generalizing start with
  | nil => cases h
  | cons t order ih =>
    rcases List.mem_cons.mp h with rfl | h
    · exact le_trans (le_max_right _ _) start_le_foldl_max
    · exact ih h

theorem foldl_max_mem (start : S) (order : List S) :
    order.foldl max start = start ∨ order.foldl max start ∈ order := by
  induction order generalizing start with
  | nil => exact .inl rfl
  | cons s order ih =>
    rcases ih (max start s) with h | h
    · rw [List.foldl_cons, h]
      rcases max_choice start s with h | h
      · exact .inl h
      · rw [h]
        exact .inr List.mem_cons_self
    · exact .inr (List.mem_cons_of_mem _ h)

/-- The highest stamp depends on which stamps there are, not on the order. -/
theorem foldl_max_congr (h : ∀ s, s ∈ order ↔ s ∈ order') :
    order.foldl max start = order'.foldl max start := by
  refine le_antisymm ?_ ?_
  · rcases foldl_max_mem start order with e | e
    · rw [e]
      exact start_le_foldl_max
    · exact le_foldl_max ((h _).mp e)
  · rcases foldl_max_mem start order' with e | e
    · rw [e]
      exact start_le_foldl_max
    · exact le_foldl_max ((h _).mpr e)

namespace Register

/-- One offer of what was issued at `at'`. -/
def offer (x : Register S V) (at' : S) (v : Option V) : Register S V :=
  if at' < x.stamp then x
  else if at' = x.stamp then ⟨x.value.or v, x.stamp⟩
  else ⟨v.or x.value, at'⟩

/-- Offers of what was issued at the stamps of `order`, one after the other. -/
def offers (issued : S → Option V) (x : Register S V) (order : List S) : Register S V :=
  order.foldl (fun x s => x.offer s (issued s)) x

variable {issued : S → Option V} {x : Register S V} {newest : S}

@[simp] theorem offers_nil : x.offers issued [] = x := rfl

@[simp] theorem offers_cons :
    x.offers issued (s :: order) = (x.offer s (issued s)).offers issued order := rfl

theorem offers_append {before after : List S} :
    x.offers issued (before ++ after) = (x.offers issued before).offers issued after :=
  List.foldl_append

theorem offer_below {v : Option V} (h : s < x.stamp) : x.offer s v = x := by
  rw [offer, if_pos h]

theorem offer_at {v : Option V} : x.offer x.stamp v = ⟨x.value.or v, x.stamp⟩ := by
  rw [offer, if_neg (lt_irrefl _), if_pos rfl]

theorem offer_above {v : Option V} (h : x.stamp < s) : x.offer s v = ⟨v.or x.value, s⟩ := by
  rw [offer, if_neg (not_lt_of_gt h), if_neg (ne_of_gt h)]

@[simp] theorem offer_stamp (x : Register S V) (s : S) (v : Option V) :
    (x.offer s v).stamp = max x.stamp s := by
  rcases lt_trichotomy s x.stamp with h | rfl | h
  · rw [offer_below h, max_eq_left (le_of_lt h)]
  · rw [offer_at, max_self]
  · rw [offer_above h, max_eq_right (le_of_lt h)]

/-- The stamp left is the highest of the one at the start and those offered. -/
theorem offers_stamp (issued : S → Option V) (x : Register S V) (order : List S) :
    (x.offers issued order).stamp = order.foldl max x.stamp := by
  induction order generalizing x with
  | nil => rfl
  | cons s order ih => rw [offers_cons, ih, offer_stamp, List.foldl_cons]

/-- A register that holds a value is changed by nothing at or below its stamp. -/
theorem offers_full {v : V} (hv : x.value = some v) (h : ∀ s ∈ order, s ≤ x.stamp) :
    x.offers issued order = x := by
  induction order with
  | nil => rfl
  | cons s order ih =>
    have unchanged : x.offer s (issued s) = x := by
      rcases lt_or_eq_of_le (h s List.mem_cons_self) with hlt | rfl
      · exact offer_below hlt
      · rw [offer_at, hv, Option.some_or, ← hv]
    rw [offers_cons, unchanged]
    exact ih fun s hs => h s (List.mem_cons_of_mem _ hs)

/-- Offers at or below the stamp can only fill the register, with what was
issued at its stamp. -/
theorem offers_old (h : ∀ s ∈ order, s ≤ x.stamp) :
    x.offers issued order =
      if x.stamp ∈ order then ⟨x.value.or (issued x.stamp), x.stamp⟩ else x := by
  induction order generalizing x with
  | nil => rfl
  | cons s order ih =>
    have hrest : ∀ t ∈ order, t ≤ x.stamp := fun t ht => h t (List.mem_cons_of_mem _ ht)
    rcases lt_or_eq_of_le (h s List.mem_cons_self) with hlt | rfl
    · rw [offers_cons, offer_below hlt, ih hrest]
      simp only [List.mem_cons, (ne_of_gt hlt : x.stamp ≠ s), false_or]
    · rw [offers_cons, offer_at, ih (x := ⟨x.value.or (issued x.stamp), x.stamp⟩) hrest,
        if_pos List.mem_cons_self]
      simp [Option.or_assoc, Option.or_self]

/-- The newest offer, above the stamp and bringing a value, decides the
register whatever the order. -/
theorem offers_newest {v : V} (hv : issued newest = some v) (hmem : newest ∈ order)
    (hall : ∀ s ∈ order, s ≤ newest) (hx : x.stamp < newest) :
    x.offers issued order = ⟨some v, newest⟩ := by
  induction order generalizing x with
  | nil => cases hmem
  | cons s order ih =>
    have hrest : ∀ t ∈ order, t ≤ newest := fun t ht => hall t (List.mem_cons_of_mem _ ht)
    rw [offers_cons]
    rcases lt_or_eq_of_le (hall s List.mem_cons_self) with hlt | rfl
    · refine ih ((List.mem_cons.mp hmem).resolve_left (ne_of_gt hlt)) hrest ?_
      rw [offer_stamp]
      exact max_lt hx hlt
    · rw [offer_above hx, hv, Option.some_or]
      exact offers_full rfl hrest

/-- The newest offer, above the stamp and bringing nothing, keeps the value that
stood when it was first made. -/
theorem offers_newest_none {before after : List S} (hv : issued newest = none)
    (hbefore : ∀ s ∈ before, s < newest) (hafter : ∀ s ∈ after, s ≤ newest)
    (hx : x.stamp < newest) :
    x.offers issued (before ++ newest :: after) = ⟨(x.offers issued before).value, newest⟩ := by
  have below : (x.offers issued before).stamp < newest := by
    rw [offers_stamp]
    rcases foldl_max_mem x.stamp before with e | e
    · rwa [e]
    · exact hbefore _ e
  rw [offers_append, offers_cons, offer_above below, hv, Option.none_or,
    offers_old (by simpa using hafter), hv, Option.or_none, ite_self]

end Register

end Daemonseed.Lib.Stamped
