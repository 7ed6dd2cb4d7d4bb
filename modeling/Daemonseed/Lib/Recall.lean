import Daemonseed.Lib.Pools

/-! # What a pool's runs say

A pool beside the state the last section of each of its runs left, so that a
section can be let on what its own run did before. What every run says in its
calls is shown by one walk through each flow; and what a run of the pool
decides only once can be told before it is decided. -/
namespace Daemonseed.Lib.Recall
open Daemonseed.Lib.Runs Daemonseed.Lib.Flows Daemonseed.Lib.Flows.Flow Daemonseed.Lib.Pools

variable {ι σ Q : Type} {A : Q → Type} {ε α β : Type}

/-! ## One flow -/

/-- A flow whose sections are taken where `may` lets them, given what its last
section left, keeps `I`, calls only with what is `allowed` and returns with
`post`. -/
def Shows (I : σ → Prop) (may : Option σ → (σ → σ) → σ → Prop) (allowed : Q → Prop)
    (post : α → Prop) : Flow σ Q A ε α → Option σ → Prop
  | .done (.ok a), _ => post a
  | .done (.error _), _ => True
  | .atomic f k, left =>
    ∀ t, I t → may left f t → I (f t) ∧ Shows I may allowed post (k t) (some (f t))
  | .ask q k, left => allowed q ∧ ∀ a, Shows I may allowed post (k a) left

/-- A flow with no section that calls only with what is `allowed`. -/
def Mute (allowed : Q → Prop) : Flow σ Q A ε α → Prop
  | .done _ => True
  | .atomic _ _ => False
  | .ask q k => allowed q ∧ ∀ a, Mute allowed (k a)

variable {I : σ → Prop} {may : Option σ → (σ → σ) → σ → Prop} {allowed : Q → Prop}
  {left : Option σ}

theorem Mute.bind {p : Flow σ Q A ε α} {g : α → Flow σ Q A ε β} (h : Mute allowed p)
    (hg : ∀ a, Mute allowed (g a)) : Mute allowed (p >>= g) := by
  change Mute allowed (p.bind g)
  induction p with
  | done r =>
    cases r with
    | ok a => exact hg a
    | error e => trivial
  | atomic f k => exact h.elim
  | ask q k ih => exact ⟨h.1, fun a => ih a (h.2 a)⟩

theorem shows_pure {post : α → Prop} {a : α} (h : post a) :
    Shows I may allowed post (pure a : Flow σ Q A ε α) left := h

variable {post : β → Prop}

theorem Shows.bind {mid : α → Prop} {p : Flow σ Q A ε α} {g : α → Flow σ Q A ε β}
    (h : Shows I may allowed mid p left)
    (hg : ∀ a left, mid a → Shows I may allowed post (g a) left) :
    Shows I may allowed post (p >>= g) left := by
  change Shows I may allowed post (p.bind g) left
  induction p generalizing left with
  | done r =>
    cases r with
    | ok a => exact hg a left h
    | error e => trivial
  | atomic f k ih => exact fun t hI hmay => ⟨(h t hI hmay).1, ih t (h t hI hmay).2⟩
  | ask q k ih => exact ⟨h.1, fun a => ih a (h.2 a)⟩

theorem Shows.bind_assoc {γ : Type} {post : γ → Prop} {p : Flow σ Q A ε α}
    {g : α → Flow σ Q A ε β} {k : β → Flow σ Q A ε γ}
    (h : Shows I may allowed post (p >>= fun a => g a >>= k) left) :
    Shows I may allowed post ((p >>= g) >>= k) left := Flow.bind_assoc p g k ▸ h

theorem Shows.bind_pure {p : Flow σ Q A ε β} (h : Shows I may allowed post (p >>= pure) left) :
    Shows I may allowed post p left := Flow.bind_pure p ▸ h

variable [DecidableEq ι]

/-- What the last section of each run left, after one event. -/
def after (left : ι → Option σ) : Event ι σ Q A → ι → Option σ
  | .moves i (.visits _ s') => Function.update left i (some s')
  | _ => left

/-- One event of a pool, whose sections are let on what their own run's last
section left. -/
def Recalls (prog : ι → Flow σ Q A ε α) (may : Option σ → (σ → σ) → σ → Prop)
    (T : Pool ι σ Q A ε α × (ι → Option σ)) (e : Event ι σ Q A)
    (T' : Pool ι σ Q A ε α × (ι → Option σ)) : Prop :=
  Steps prog (fun f s => ∀ i m, e = .moves i m → may (T.2 i) f s) T.1 e T'.1 ∧
    T'.2 = after T.2 e

variable {prog : ι → Flow σ Q A ε α}

/-- Nothing of what was let is used but at the section taken. -/
theorem Recalls.mono {may' : Option σ → (σ → σ) → σ → Prop}
    {T T' : Pool ι σ Q A ε α × (ι → Option σ)} {e : Event ι σ Q A}
    (h : Recalls prog may T e T')
    (sub : ∀ i f k, T.1.life i = .running (.atomic f k) →
      e = .moves i (.visits T.1.state (f T.1.state)) → may (T.2 i) f T.1.state →
      may' (T.2 i) f T.1.state) :
    Recalls prog may' T e T' := by
  obtain ⟨step, hleft⟩ := h
  refine ⟨?_, hleft⟩
  generalize T'.1 = P' at step
  cases step with
  | begins unborn => exact .begins unborn
  | @visits i f k at_ lets =>
    refine .visits at_ fun j m hm => ?_
    obtain ⟨rfl, -⟩ := Event.moves.inj hm
    exact sub i f k at_ rfl (lets i _ rfl)
  | asks a at_ => exact .asks a at_
  | ends at_ => exact .ends at_
  | stops at_ => exact .stops at_

/-- What remembering adds to a pool is not needed to run it. -/
theorem Recalls.steps {may' : (σ → σ) → σ → Prop} {T T' : Pool ι σ Q A ε α × (ι → Option σ)}
    {e : Event ι σ Q A} (h : Recalls prog may T e T')
    (sub : ∀ left f s, may left f s → may' f s) : Steps prog may' T.1 e T'.1 := by
  obtain ⟨step, -⟩ := h
  generalize T'.1 = P' at step
  cases step with
  | begins unborn => exact .begins unborn
  | @visits i f k at_ lets => exact .visits at_ (sub _ _ _ (lets i _ rfl))
  | asks a at_ => exact .asks a at_
  | ends at_ => exact .ends at_
  | stops at_ => exact .stops at_

/-! ## Playing a script -/

/-- Every run of the pool has yet to say only what is allowed. -/
structure Showing (I : σ → Prop) (may : Option σ → (σ → σ) → σ → Prop) (allowed : Q → Prop)
    (T : Pool ι σ Q A ε α × (ι → Option σ)) : Prop where
  state : I T.1.state
  shows : ∀ i p, T.1.life i = .running p → Shows I may allowed (fun _ => True) p (T.2 i)

theorem Showing.put {T : Pool ι σ Q A ε α × (ι → Option σ)} (h : Showing I may allowed T) {i : ι}
    {l : Life σ Q A ε α} {t : σ} {left : ι → Option σ} (hI : I t)
    (same : ∀ j ≠ i, left j = T.2 j) (hl : ∀ p, l = .running p → Shows I may allowed (fun _ => True) p (left i)) :
    Showing I may allowed ({ T.1 with state := t }.put i l, left) := by
  refine ⟨hI, fun j p hj => ?_⟩
  by_cases hji : j = i
  · subst hji
    rw [put_self] at hj
    exact hl p hj
  · rw [put_other _ _ hji] at hj
    change Shows I may allowed (fun _ => True) p (left j)
    rw [same j hji]
    exact h.shows j p hj

section Decides

variable {V : Type} (count : σ → Nat) (value : σ → Nat → Option V)

/-- The value told is the one a section decides. -/
def Agrees (F : Nat → Option V) (left : Option σ) (f : σ → σ) (s : σ) : Prop :=
  ∀ n, count s ≤ n → n < count (f s) → F n = left.bind fun p => value p n

end Decides

end Daemonseed.Lib.Recall
