import Mathlib.Data.List.Basic

/-! # Labelled trails and the runs of a system

A trail is a list of labels taken one after another through a step relation.
The runs of a system are the trails from one of its initial states. What a
single step keeps, a trail keeps; and a system that steps as another one
does reaches nothing the other does not. -/
namespace Daemonseed.Lib.Runs

variable {σ τ α : Type*}

/-- `labels` leads from one state to another through `R`. -/
inductive Trail (R : σ → α → σ → Prop) : σ → List α → σ → Prop
  | nil (s : σ) : Trail R s [] s
  | cons {s t u : σ} {a : α} {rest : List α} (head : R s a t) (tail : Trail R t rest u) :
      Trail R s (a :: rest) u

namespace Trail

variable {R : σ → α → σ → Prop}

theorem append {s t u : σ} {xs ys : List α} (h : Trail R s xs t) (k : Trail R t ys u) :
    Trail R s (xs ++ ys) u := by
  induction h with
  | nil => exact k
  | cons head _ ih => exact .cons head (ih k)

theorem snoc {s t u : σ} {xs : List α} {a : α} (h : Trail R s xs t) (k : R t a u) :
    Trail R s (xs ++ [a]) u := h.append (.cons k (.nil _))

theorem split {s u : σ} {xs ys : List α} (h : Trail R s (xs ++ ys) u) :
    ∃ t, Trail R s xs t ∧ Trail R t ys u := by
  induction xs generalizing s with
  | nil => exact ⟨s, .nil s, h⟩
  | cons a rest ih =>
    cases h with
    | cons head tail =>
      obtain ⟨t, hl, hr⟩ := ih tail
      exact ⟨t, .cons head hl, hr⟩

/-- The label at position `i` was taken between the states its prefix and
its suffix meet at. -/
theorem at_index {s u : σ} {xs : List α} {i : Nat} {a : α} (h : Trail R s xs u)
    (hi : xs[i]? = some a) :
    ∃ t t', Trail R s (xs.take i) t ∧ R t a t' ∧ Trail R t' (xs.drop (i + 1)) u := by
  induction h generalizing i with
  | nil => simp at hi
  | cons head tail ih =>
    cases i with
    | zero =>
      simp only [List.getElem?_cons_zero, Option.some.injEq] at hi
      subst hi
      exact ⟨_, _, .nil _, head, by simpa using tail⟩
    | succ i =>
      obtain ⟨t, t', hl, hm, hr⟩ := ih (by simpa using hi)
      exact ⟨t, t', .cons head hl, hm, by simpa using hr⟩

/-- **Invariant rule.** What every step keeps, a trail keeps. -/
theorem invariant {I : σ → Prop} (step : ∀ s a t, I s → R s a t → I t) {s t : σ} {xs : List α}
    (h : Trail R s xs t) (hs : I s) : I t := by
  induction h with
  | nil => exact hs
  | cons head _ ih => exact ih (step _ _ _ hs head)

/-- The invariant rule for a trail whose labels all meet `P`. -/
theorem invariant_on {I : σ → Prop} {P : α → Prop}
    (step : ∀ s a t, P a → I s → R s a t → I t) {s t : σ} {xs : List α}
    (h : Trail R s xs t) (hP : ∀ a ∈ xs, P a) (hs : I s) : I t := by
  induction h with
  | nil => exact hs
  | cons head _ ih =>
    simp only [List.forall_mem_cons] at hP
    exact ih hP.2 (step _ _ _ hP.1 hs head)

theorem mono {R' : σ → α → σ → Prop} (sub : ∀ s a t, R s a t → R' s a t) {s t : σ}
    {xs : List α} (h : Trail R s xs t) : Trail R' s xs t := by
  induction h with
  | nil => exact .nil _
  | cons head _ ih => exact .cons (sub _ _ _ head) ih

/-- The relation a trail runs through holds of states it reaches, so a step
relation strengthened by an invariant has the same trails. -/
theorem strengthen {I : σ → Prop} (step : ∀ s a t, I s → R s a t → I t) {s t : σ} {xs : List α}
    (h : Trail R s xs t) (hs : I s) : Trail (fun s a t => R s a t ∧ I s ∧ I t) s xs t := by
  induction h with
  | nil => exact .nil _
  | cons head _ ih =>
    have ht := step _ _ _ hs head
    exact .cons ⟨head, hs, ht⟩ (ih ht)

/-- A system whose steps are a function runs through every list of labels. -/
theorem foldl (f : σ → α → σ) (s : σ) (xs : List α) :
    Trail (fun s a t => t = f s a) s xs (xs.foldl f s) := by
  induction xs generalizing s with
  | nil => exact .nil s
  | cons a rest ih => exact .cons rfl (ih (f s a))

/-- A condition on each step of a functional run, from where it is taken. -/
def Along (f : σ → α → σ) (P : σ → α → Prop) : σ → List α → Prop
  | _, [] => True
  | s, a :: rest => P s a ∧ Along f P (f s a) rest

/-- The invariant rule for steps that meet a condition. -/
theorem along_keeps {f : σ → α → σ} {P : σ → α → Prop} {I : σ → Prop}
    (keeps : ∀ s a, I s → P s a → I (f s a)) {s : σ} (hs : I s) {xs : List α}
    (h : Along f P s xs) : I (xs.foldl f s) := by
  induction xs generalizing s with
  | nil => exact hs
  | cons a rest ih => exact ih (keeps s a hs h.1) h.2

/-- What a step leaves true just where it was true and the step meets a condition, a
run leaves true just where all its steps meet the condition. -/
theorem along_iff {f : σ → α → σ} {P : σ → α → Prop} {I : σ → Prop}
    (step : ∀ s a, I (f s a) ↔ I s ∧ P s a) (s : σ) (xs : List α) :
    I (xs.foldl f s) ↔ I s ∧ Along f P s xs := by
  induction xs generalizing s with
  | nil => exact (and_iff_left trivial).symm
  | cons a rest ih => rw [List.foldl_cons, ih, step, and_assoc]; rfl

/-- Two conditions that agree on the labels of a run wherever the first has held
till then agree on the run. -/
theorem along_congr_on {f : σ → α → σ} {P Q : σ → α → Prop} {I : σ → Prop} {L : α → Prop}
    (keeps : ∀ s a, I s → P s a → I (f s a)) (same : ∀ s a, L a → I s → (P s a ↔ Q s a)) {s : σ}
    (hs : I s) {xs : List α} (all : ∀ a ∈ xs, L a) : Along f P s xs ↔ Along f Q s xs := by
  induction xs generalizing s with
  | nil => exact Iff.rfl
  | cons a rest ih =>
    obtain ⟨ha, all⟩ := List.forall_mem_cons.1 all
    refine ⟨fun h => ⟨(same s a ha hs).1 h.1, (ih (keeps s a hs h.1) all).1 h.2⟩, fun h => ?_⟩
    have here := (same s a ha hs).2 h.1
    exact ⟨here, (ih (keeps s a hs here) all).2 h.2⟩

theorem along_congr_of {f : σ → α → σ} {P Q : σ → α → Prop} {I : σ → Prop}
    (keeps : ∀ s a, I s → P s a → I (f s a)) (same : ∀ s a, I s → (P s a ↔ Q s a)) {s : σ}
    (hs : I s) (xs : List α) : Along f P s xs ↔ Along f Q s xs :=
  along_congr_on (L := fun _ => True) keeps (fun s a _ => same s a) hs fun _ _ => trivial

theorem along_congr {f : σ → α → σ} {P Q : σ → α → Prop} (same : ∀ s a, P s a ↔ Q s a) (s : σ)
    (xs : List α) : Along f P s xs ↔ Along f Q s xs :=
  along_congr_of (I := fun _ => True) (fun _ _ _ _ => trivial) (fun s a _ => same s a) trivial xs

theorem along {f : σ → α → σ} {P : σ → α → Prop} {s t : σ} {xs : List α}
    (h : Trail (fun s a t => R s a t ∧ t = f s a) s xs t) (hP : Along f P s xs) :
    Trail (fun s a t => P s a ∧ R s a t ∧ t = f s a) s xs t := by
  induction h with
  | nil => exact .nil _
  | cons head _ ih =>
    obtain ⟨hr, rfl⟩ := head
    exact .cons ⟨hP.1, hr, rfl⟩ (ih hP.2)

end Trail

end Daemonseed.Lib.Runs
