import Mathlib.Data.List.Basic
import Mathlib.Data.List.Forall2

/-! # Steps that may fail

What succeeds of steps that stop at the first failure. -/
namespace Daemonseed.Lib.Results

variable {ε ε' α β : Type}

theorem bind_ok {x : Except ε α} {f : α → Except ε β} {b : β} :
    (x >>= f) = .ok b ↔ ∃ a, x = .ok a ∧ f a = .ok b := by
  cases x <;> simp [bind, Except.bind]

theorem ok_bind (a : α) (f : α → Except ε β) : ((.ok a : Except ε α) >>= f) = f a := rfl

@[simp] theorem mapError_ok {x : Except ε α} {f : ε → ε'} {a : α} :
    x.mapError f = .ok a ↔ x = .ok a := by
  cases x <;> simp [Except.mapError]

/-- What is there, or the error. -/
def okOr (x : Option α) (e : ε) : Except ε α := x.elim (.error e) .ok

@[simp] theorem okOr_ok {x : Option α} {e : ε} {a : α} : okOr x e = .ok a ↔ x = some a := by
  cases x <;> simp [okOr]

/-- Steps that all succeed fold as the function they compute. -/
theorem foldlM_ok {σ : Type} {step : σ → α → Except ε σ} {next : σ → α → σ} {l : List α}
    (steps : ∀ a ∈ l, ∀ s, step s a = .ok (next s a)) (s : σ) :
    l.foldlM step s = .ok (l.foldl next s) := by
  induction l generalizing s with
  | nil => rfl
  | cons a l ih =>
    obtain ⟨first, others⟩ := List.forall_mem_cons.1 steps
    rw [List.foldlM_cons, first s, List.foldl_cons]
    exact ih others (next s a)

/-- What succeeds for each element succeeds for the list. -/
theorem mapM_ok {f : α → Except ε β} {l : List α} {out : List β} :
    l.mapM f = .ok out ↔ List.Forall₂ (fun a b => f a = .ok b) l out := by
  induction l generalizing out with
  | nil =>
    rw [List.mapM_nil, List.forall₂_nil_left_iff]
    exact ⟨fun h => (Except.ok.inj h).symm, fun h => h ▸ rfl⟩
  | cons a l ih =>
    rw [List.mapM_cons, bind_ok, List.forall₂_cons_left_iff]
    constructor
    · rintro ⟨b, head, rest⟩
      obtain ⟨bs, tail, same⟩ := bind_ok.1 rest
      exact ⟨b, bs, head, ih.1 tail, (Except.ok.inj same).symm⟩
    · rintro ⟨b, bs, head, tail, rfl⟩
      exact ⟨b, head, bind_ok.2 ⟨bs, ih.2 tail, rfl⟩⟩

theorem mapM_from {f : α → Except ε β} {l : List α} {out : List β} (h : l.mapM f = .ok out) {b : β}
    (mem : b ∈ out) : ∃ a ∈ l, f a = .ok b := by
  have each := mapM_ok.1 h
  clear h
  induction each with
  | nil => cases mem
  | cons here _ ih =>
    rcases List.mem_cons.1 mem with rfl | mem
    · exact ⟨_, List.mem_cons_self, here⟩
    · obtain ⟨a, held, same⟩ := ih mem
      exact ⟨a, List.mem_cons_of_mem _ held, same⟩

/-- It succeeds where it does for each. -/
theorem mapM_total {f : α → Except ε β} {l : List α} :
    (∃ out, l.mapM f = .ok out) ↔ ∀ a ∈ l, ∃ b, f a = .ok b := by
  induction l with
  | nil => exact iff_of_true ⟨[], rfl⟩ fun _ mem => absurd mem List.not_mem_nil
  | cons a l ih =>
    rw [List.forall_mem_cons, ← ih]
    constructor
    · rintro ⟨out, h⟩
      rw [List.mapM_cons] at h
      obtain ⟨b, head, rest⟩ := bind_ok.1 h
      obtain ⟨bs, tail, -⟩ := bind_ok.1 rest
      exact ⟨⟨b, head⟩, bs, tail⟩
    · rintro ⟨⟨b, head⟩, bs, tail⟩
      refine ⟨b :: bs, ?_⟩
      rw [List.mapM_cons]
      exact bind_ok.2 ⟨b, head, bind_ok.2 ⟨bs, tail, rfl⟩⟩

/-- What each result tells of its element, the list does. -/
theorem mapM_map {f : α → Except ε β} {g : β → α} (back : ∀ a b, f a = .ok b → g b = a) {l : List α}
    {out : List β} (h : l.mapM f = .ok out) : out.map g = l := by
  have each := mapM_ok.1 h
  clear h
  induction each with
  | nil => rfl
  | cons here _ ih => rw [List.map_cons, back _ _ here, ih]

/-- What each step that succeeds keeps, the fold keeps. -/
theorem foldlM_keeps {σ : Type} {step : σ → α → Except ε σ} {I : σ → Prop} {l : List α} {s s' : σ}
    (keeps : ∀ a ∈ l, ∀ s s', I s → step s a = .ok s' → I s') (start : I s)
    (h : l.foldlM step s = .ok s') : I s' := by
  induction l generalizing s with
  | nil =>
    cases h
    exact start
  | cons a l ih =>
    obtain ⟨first, others⟩ := List.forall_mem_cons.1 keeps
    rw [List.foldlM_cons, bind_ok] at h
    obtain ⟨next, stepped, h⟩ := h
    exact ih others (first s next start stepped) h

end Daemonseed.Lib.Results
