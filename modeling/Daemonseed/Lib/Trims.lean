import Mathlib.Data.List.DropRight

/-! # Trimming the ends of a list

What is dropped from the start and what is dropped from the end do not meet, so
the two may be done in either order. -/
namespace Daemonseed.Lib.Trims

variable {α : Type*} (p q : α → Bool)

def trimBoth (l : List α) : List α := (l.dropWhile p).rdropWhile p

variable {p q} {l : List α} {a : α}

theorem rdropWhile_cons (a : α) (l : List α) :
    (a :: l).rdropWhile q =
      if l.rdropWhile q = [] then (if q a = true then [] else [a]) else a :: l.rdropWhile q := by
  unfold List.rdropWhile
  rw [List.reverse_cons, List.dropWhile_append]
  cases h : l.reverse.dropWhile q with
  | nil => cases ha : q a <;> simp [ha]
  | cons x rest => simp

theorem rdropWhile_append {r : List α} (all : ∀ a ∈ r, q a = true) :
    (l ++ r).rdropWhile q = l.rdropWhile q := by
  unfold List.rdropWhile
  rw [List.reverse_append, List.dropWhile_append_of_pos fun a mem => all a (List.mem_reverse.1 mem)]

theorem rdropWhile_head? (some_ : l.rdropWhile q ≠ []) : (l.rdropWhile q).head? = l.head? := by
  obtain ⟨rest, h⟩ := List.rdropWhile_prefix q l
  cases ht : l.rdropWhile q with
  | nil => exact absurd ht some_
  | cons a t => rw [← h, ht]; rfl

/-- The two ends do not meet. -/
theorem dropWhile_rdropWhile (l : List α) :
    (l.rdropWhile q).dropWhile p = (l.dropWhile p).rdropWhile q := by
  induction l with
  | nil => rfl
  | cons a l ih =>
    have head : (a :: l).rdropWhile q = [] ∨ ∃ rest, (a :: l).rdropWhile q = a :: rest := by
      rw [rdropWhile_cons]
      split
      · split
        · exact .inl rfl
        · exact .inr ⟨[], rfl⟩
      · exact .inr ⟨_, rfl⟩
    cases hp : p a with
    | false =>
      rw [List.dropWhile_cons_of_neg (by simp [hp])]
      rcases head with h | ⟨rest, h⟩
      · rw [h]
        rfl
      · rw [h, List.dropWhile_cons_of_neg (by simp [hp])]
    | true =>
      rw [List.dropWhile_cons_of_pos hp, ← ih, rdropWhile_cons]
      split
      · rename_i none_
        rw [none_]
        split
        · rfl
        · simp [hp]
      · rw [List.dropWhile_cons_of_pos hp]

theorem trimBoth_reverse (l : List α) : trimBoth p l.reverse = (trimBoth p l).reverse := by
  unfold trimBoth
  rw [← dropWhile_rdropWhile, List.rdropWhile_reverse, List.rdropWhile, List.reverse_reverse]

theorem trimBoth_sublist (l : List α) : (trimBoth p l).Sublist l :=
  (List.rdropWhile_prefix p _).sublist.trans (List.dropWhile_suffix p).sublist

/-- What is left begins with nothing that is trimmed. -/
theorem trimBoth_head? (h : (trimBoth p l).head? = some a) : p a = false := by
  have some_ : trimBoth p l ≠ [] := by
    rintro none_
    rw [none_] at h
    cases h
  rw [trimBoth, rdropWhile_head? some_] at h
  have := List.head?_dropWhile_not p l
  rw [h] at this
  simpa using this

theorem trimBoth_getLast? (h : (trimBoth p l).getLast? = some a) : p a = false := by
  rw [← List.head?_reverse, ← trimBoth_reverse] at h
  exact trimBoth_head? h

theorem trimBoth_self (start : ∀ a, l.head? = some a → p a = false)
    (last : ∀ a, l.getLast? = some a → p a = false) : trimBoth p l = l := by
  have front : l.dropWhile p = l := by
    cases l with
    | nil => rfl
    | cons a l => exact List.dropWhile_cons_of_neg (by simp [start a rfl])
  rw [trimBoth, front, List.rdropWhile_eq_self_iff]
  intro some_
  rw [last _ (List.getLast?_eq_some_getLast some_)]
  exact Bool.false_ne_true

/-! ## One trimming inside another -/

variable (p q) in
/-- Both ends of what `p` holds of, then of what `q` does, then again of what
`p` does. -/
def trims (l : List α) : List α := trimBoth p (trimBoth q (trimBoth p l))

variable (p q) in
/-- What is left past the start of these. -/
def pastEdge (l : List α) : List α := ((l.dropWhile p).dropWhile q).dropWhile p

theorem trims_reverse (l : List α) : trims p q l.reverse = (trims p q l).reverse := by
  simp only [trims, trimBoth_reverse]

theorem trims_eq (l : List α) :
    trims p q l = (((pastEdge p q l).rdropWhile p).rdropWhile q).rdropWhile p := by
  simp only [trims, trimBoth, pastEdge, dropWhile_rdropWhile]

/-- All of `q` and then all of `p`. -/
theorem rdropWhile_all (l : List α) :
    (l.rdropWhile p).rdropWhile q = [] ↔ (l.dropWhile q).dropWhile p = [] := by
  rw [List.rdropWhile_eq_nil_iff, List.dropWhile_eq_nil_iff]
  constructor
  · intro all x mem
    have split := List.rdropWhile_append_rtakeWhile (p := p) (l := l)
    rw [← split, List.dropWhile_append_of_pos all] at mem
    exact List.mem_rtakeWhile_imp ((List.dropWhile_suffix q).subset mem)
  · intro all x mem
    rw [← List.takeWhile_append_dropWhile (p := q) (l := l)] at mem
    rw [rdropWhile_append all] at mem
    have front := (List.rdropWhile_prefix p _).subset mem
    exact List.mem_takeWhile_imp front

/-- What begins with an element of `q` that is none of `p` is trimmed away only
if nothing but these follows. -/
theorem trimmed_away {a : α} (qa : q a = true) (pa : p a = false) (l : List α) :
    (((a :: l).rdropWhile p).rdropWhile q).rdropWhile p = [] ↔ (l.dropWhile q).dropWhile p = [] := by
  have all := rdropWhile_all (p := p) (q := q) (a :: l)
  rw [List.dropWhile_cons_of_pos qa] at all
  rw [← all]
  refine ⟨fun none_ => ?_, fun none_ => by rw [none_]; rfl⟩
  by_contra some_
  have pre := (List.rdropWhile_prefix q ((a :: l).rdropWhile p)).trans (List.rdropWhile_prefix p _)
  obtain ⟨rest, h⟩ := pre
  cases ht : ((a :: l).rdropWhile p).rdropWhile q with
  | nil => exact some_ ht
  | cons b t =>
    rw [ht] at none_ h
    obtain rfl : b = a := (List.cons.inj h).1
    have := List.rdropWhile_eq_nil_iff.1 none_ b List.mem_cons_self
    rw [pa] at this
    cases this

/-- **What is left begins with such an element** where past the edge there is
one, and more than what is trimmed of the end. -/
theorem trims_head? {a : α} (qa : q a = true) (pa : p a = false) (l : List α) :
    (trims p q l).head? = some a ↔
      ∃ rest, pastEdge p q l = a :: rest ∧ (rest.dropWhile q).dropWhile p ≠ [] := by
  rw [trims_eq]
  have head : ∀ l : List α, ((l.rdropWhile p).rdropWhile q).rdropWhile p ≠ [] →
      (((l.rdropWhile p).rdropWhile q).rdropWhile p).head? = l.head? := by
    intro l h
    have h₁ : (l.rdropWhile p).rdropWhile q ≠ [] := fun e => h (by rw [e]; rfl)
    have h₂ : l.rdropWhile p ≠ [] := fun e => h₁ (by rw [e]; rfl)
    rw [rdropWhile_head? h, rdropWhile_head? h₁, rdropWhile_head? h₂]
  constructor
  · intro h
    have some_ : (((pastEdge p q l).rdropWhile p).rdropWhile q).rdropWhile p ≠ [] := by
      rintro e
      rw [e] at h
      cases h
    rw [head _ some_] at h
    obtain ⟨rest, e⟩ := List.head?_eq_some_iff.1 h
    rw [e, ne_eq, trimmed_away qa pa] at some_
    exact ⟨rest, e, some_⟩
  · rintro ⟨rest, e, some_⟩
    rw [e, head _ (by rwa [ne_eq, trimmed_away qa pa])]
    rfl

end Daemonseed.Lib.Trims
