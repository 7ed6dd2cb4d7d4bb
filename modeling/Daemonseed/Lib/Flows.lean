import Daemonseed.Lib.Runs
import Mathlib.Logic.Function.Basic

/-! # Computations over a shared state, interleaved

A flow visits a shared state in atomic sections and calls out between them.
Any number of flows run at once, in any order of their moves, and any of them
may stop at any point. What one flow does is its transcript; what it may rely
on of the others and what it guarantees them is a pair of relations on the
state, and flows whose guarantees meet each other's relies keep an invariant
together. -/
namespace Daemonseed.Lib.Flows
open Daemonseed.Lib.Runs

variable {σ Q : Type} {A : Q → Type} {ε α β : Type}

/-- A computation over a state `σ` that calls out with queries `Q`. A section
changes the state by `f` and goes on from the state it found. -/
inductive Flow (σ Q : Type) (A : Q → Type) (ε α : Type)
  | done (r : Except ε α)
  | atomic (f : σ → σ) (k : σ → Flow σ Q A ε α)
  | ask (q : Q) (k : A q → Flow σ Q A ε α)

namespace Flow

/-- The first flow, then the second where the first did not fail. -/
protected def bind : Flow σ Q A ε α → (α → Flow σ Q A ε β) → Flow σ Q A ε β
  | .done (.ok a), g => g a
  | .done (.error e), _ => .done (.error e)
  | .atomic f k, g => .atomic f fun s => (k s).bind g
  | .ask q k, g => .ask q fun a => (k a).bind g

instance : Monad (Flow σ Q A ε) where
  pure a := .done (.ok a)
  bind := Flow.bind

instance : MonadExceptOf ε (Flow σ Q A ε) where
  throw e := .done (.error e)
  tryCatch p _ := p

instance : MonadLift (Except ε) (Flow σ Q A ε) where
  monadLift := .done

/-- Read the state, in a section of its own. -/
def view (g : σ → Except ε α) : Flow σ Q A ε α := .atomic id fun s => .done (g s)

/-- The state a change leaves: itself, where the change is refused. -/
def attempted (g : σ → Except ε (α × σ)) (s : σ) : σ :=
  match g s with
  | .ok (_, s') => s'
  | .error _ => s

theorem attempted_ok {g : σ → Except ε (α × σ)} {s s' : σ} {a : α} (h : g s = .ok (a, s')) :
    attempted g s = s' := by
  rw [attempted, h]

/-- A section that changes the state where it is not refused. -/
def attempt (g : σ → Except ε (α × σ)) : Flow σ Q A ε α :=
  .atomic (attempted g) fun s => .done ((g s).map Prod.fst)

/-- Call out. -/
def call (q : Q) : Flow σ Q A ε (A q) := .ask q fun a => .done (.ok a)

/-- Sequences associate. -/
theorem bind_assoc {γ : Type} (p : Flow σ Q A ε α) (g : α → Flow σ Q A ε β)
    (k : β → Flow σ Q A ε γ) : (p >>= g) >>= k = p >>= fun a => g a >>= k := by
  change (p.bind g).bind k = p.bind fun a => (g a).bind k
  induction p with
  | done r => cases r <;> rfl
  | atomic f k' ih => simp only [Flow.bind, ih]
  | ask q k' ih => simp only [Flow.bind, ih]

theorem bind_pure (p : Flow σ Q A ε α) : p >>= pure = p := by
  change p.bind pure = p
  induction p with
  | done r => cases r <;> rfl
  | atomic f k ih => simp only [Flow.bind, ih]
  | ask q k ih => simp only [Flow.bind, ih]

/-! ## Transcripts -/

/-- One move of a flow: a section, from the state it found to the one it
left, or a call and its answer. -/
inductive Move (σ Q : Type) (A : Q → Type)
  | visits (s s' : σ)
  | asks (q : Q) (a : A q)

/-- One move leads from a flow to what is left of it. -/
inductive Takes : Flow σ Q A ε α → Move σ Q A → Flow σ Q A ε α → Prop
  | visits (f : σ → σ) (k : σ → Flow σ Q A ε α) (s : σ) :
      Takes (.atomic f k) (.visits s (f s)) (k s)
  | asks (q : Q) (k : A q → Flow σ Q A ε α) (a : A q) : Takes (.ask q k) (.asks q a) (k a)

/-- A flow runs to its end, with anything in between its moves. -/
def Runs (p : Flow σ Q A ε α) (ms : List (Move σ Q A)) (r : Except ε α) : Prop :=
  Trail Takes p ms (.done r)

@[simp] theorem runs_done {r r' : Except ε α} {ms : List (Move σ Q A)} :
    Runs (.done r') ms r ↔ ms = [] ∧ r = r' := by
  constructor
  · intro h
    cases h with
    | nil => exact ⟨rfl, rfl⟩
    | cons head _ => cases head
  · rintro ⟨rfl, rfl⟩
    exact .nil _

@[simp] theorem runs_atomic {f : σ → σ} {k : σ → Flow σ Q A ε α} {ms : List (Move σ Q A)}
    {r : Except ε α} :
    Runs (.atomic f k) ms r ↔ ∃ s rest, ms = .visits s (f s) :: rest ∧ Runs (k s) rest r := by
  constructor
  · intro h
    cases h with
    | cons head tail =>
      cases head with
      | visits _ _ s => exact ⟨s, _, rfl, tail⟩
  · rintro ⟨s, rest, rfl, h⟩
    exact .cons (.visits f k s) h

@[simp] theorem runs_ask {q : Q} {k : A q → Flow σ Q A ε α} {ms : List (Move σ Q A)}
    {r : Except ε α} :
    Runs (.ask q k) ms r ↔ ∃ a rest, ms = .asks q a :: rest ∧ Runs (k a) rest r := by
  constructor
  · intro h
    cases h with
    | cons head tail =>
      cases head with
      | asks _ _ a => exact ⟨a, _, rfl, tail⟩
  · rintro ⟨a, rest, rfl, h⟩
    exact .cons (.asks q k a) h

/-- **Transcripts compose**: a sequence fails where its first flow does, and
runs on from its result where it does not. -/
theorem runs_bind {p : Flow σ Q A ε α} {g : α → Flow σ Q A ε β} {ms : List (Move σ Q A)}
    {r : Except ε β} :
    Runs (p >>= g) ms r ↔ (∃ e, Runs p ms (.error e) ∧ r = .error e) ∨
      ∃ a ms₁ ms₂, ms = ms₁ ++ ms₂ ∧ Runs p ms₁ (.ok a) ∧ Runs (g a) ms₂ r := by
  change Runs (p.bind g) ms r ↔ _
  induction p generalizing ms with
  | done r' =>
    cases r' with
    | ok a =>
      simp only [Flow.bind, runs_done, reduceCtorEq, and_false, false_and, exists_false, false_or,
        Except.ok.injEq]
      constructor
      · exact fun h => ⟨a, [], ms, rfl, ⟨rfl, rfl⟩, h⟩
      · rintro ⟨_, _, _, rfl, ⟨rfl, rfl⟩, h⟩
        exact h
    | error e =>
      simp only [Flow.bind, runs_done, Except.error.injEq, reduceCtorEq, and_false, false_and,
        exists_false, or_false]
      constructor
      · exact fun h => ⟨e, ⟨h.1, rfl⟩, h.2⟩
      · rintro ⟨_, ⟨rfl, rfl⟩, rfl⟩
        exact ⟨rfl, rfl⟩
  | atomic f k ih =>
    simp only [Flow.bind, runs_atomic, ih]
    constructor
    · rintro ⟨s, rest, rfl, ⟨e, he, rfl⟩ | ⟨a, ms₁, ms₂, rfl, h₁, h₂⟩⟩
      · exact .inl ⟨e, ⟨s, rest, rfl, he⟩, rfl⟩
      · exact .inr ⟨a, _ :: ms₁, ms₂, rfl, ⟨s, ms₁, rfl, h₁⟩, h₂⟩
    · rintro (⟨e, ⟨s, rest, rfl, he⟩, rfl⟩ | ⟨a, _, ms₂, rfl, ⟨s, ms₁, rfl, h₁⟩, h₂⟩)
      · exact ⟨s, rest, rfl, .inl ⟨e, he, rfl⟩⟩
      · exact ⟨s, _, rfl, .inr ⟨a, ms₁, ms₂, rfl, h₁, h₂⟩⟩
  | ask q k ih =>
    simp only [Flow.bind, runs_ask, ih]
    constructor
    · rintro ⟨b, rest, rfl, ⟨e, he, rfl⟩ | ⟨a, ms₁, ms₂, rfl, h₁, h₂⟩⟩
      · exact .inl ⟨e, ⟨b, rest, rfl, he⟩, rfl⟩
      · exact .inr ⟨a, _ :: ms₁, ms₂, rfl, ⟨b, ms₁, rfl, h₁⟩, h₂⟩
    · rintro (⟨e, ⟨b, rest, rfl, he⟩, rfl⟩ | ⟨a, _, ms₂, rfl, ⟨b, ms₁, rfl, h₁⟩, h₂⟩)
      · exact ⟨b, rest, rfl, .inl ⟨e, he, rfl⟩⟩
      · exact ⟨b, _, rfl, .inr ⟨a, ms₁, ms₂, rfl, h₁, h₂⟩⟩

theorem runs_bind_ok {p : Flow σ Q A ε α} {g : α → Flow σ Q A ε β} {ms : List (Move σ Q A)}
    {b : β} :
    Runs (p >>= g) ms (.ok b) ↔
      ∃ a ms₁ ms₂, ms = ms₁ ++ ms₂ ∧ Runs p ms₁ (.ok a) ∧ Runs (g a) ms₂ (.ok b) := by
  simp [runs_bind]

@[simp] theorem runs_pure {a : α} {ms : List (Move σ Q A)} {r : Except ε α} :
    Runs (pure a) ms r ↔ ms = [] ∧ r = .ok a := runs_done

@[simp] theorem runs_throw {e : ε} {ms : List (Move σ Q A)} {r : Except ε α} :
    Runs (throw e) ms r ↔ ms = [] ∧ r = .error e := runs_done

@[simp] theorem runs_lift {x : Except ε α} {ms : List (Move σ Q A)} {r : Except ε α} :
    Runs (liftM x) ms r ↔ ms = [] ∧ r = x := runs_done

@[simp] theorem runs_view {g : σ → Except ε α} {ms : List (Move σ Q A)} {r : Except ε α} :
    Runs (view g) ms r ↔ ∃ s, ms = [.visits s s] ∧ r = g s := by
  simp [view]

@[simp] theorem runs_call {q : Q} {ms : List (Move σ Q A)} {r : Except ε (A q)} :
    Runs (call q) ms r ↔ ∃ a, ms = [.asks q a] ∧ r = .ok a := by
  simp [call]

/-- A section that was refused left the state as it found it. -/
theorem runs_attempt_error {g : σ → Except ε (α × σ)} {ms : List (Move σ Q A)} {e : ε} :
    Runs (attempt g) ms (.error e) ↔ ∃ s, ms = [.visits s s] ∧ g s = .error e := by
  simp only [attempt, runs_atomic, runs_done]
  constructor
  · rintro ⟨s, rest, rfl, rfl, hr⟩
    cases hg : g s with
    | ok x => simp [hg, Except.map] at hr
    | error e' =>
      simp only [hg, Except.map, Except.error.injEq] at hr
      exact ⟨s, by simp [attempted, hg], by rw [hr, hg]⟩
  · rintro ⟨s, rfl, hg⟩
    exact ⟨s, [], by simp [attempted, hg], rfl, by simp [hg, Except.map]⟩

theorem runs_attempt_ok {g : σ → Except ε (α × σ)} {ms : List (Move σ Q A)} {a : α} :
    Runs (attempt g) ms (.ok a) ↔ ∃ s s', ms = [.visits s s'] ∧ g s = .ok (a, s') := by
  simp only [attempt, runs_atomic, runs_done]
  constructor
  · rintro ⟨s, rest, rfl, rfl, hr⟩
    cases hg : g s with
    | ok x =>
      obtain ⟨b, s'⟩ := x
      simp only [hg, Except.map, Except.ok.injEq] at hr
      exact ⟨s, s', by simp [attempted, hg], by rw [hr, hg]⟩
    | error e => simp [hg, Except.map] at hr
  · rintro ⟨s, s', rfl, hg⟩
    exact ⟨s, [], by simp [attempted, hg], rfl, by simp [hg, Except.map]⟩

/-! ## Running alone -/

/-- A flow run from `s` to its end with nothing else running, given these
answers, ends in `t` with `r`. -/
def Alone : Flow σ Q A ε α → σ → List ((q : Q) × A q) → σ → Except ε α → Prop
  | .done r', s, as, t, r => as = [] ∧ t = s ∧ r = r'
  | .atomic f k, s, as, t, r => Alone (k s) (f s) as t r
  | .ask q k, s, as, t, r => ∃ a rest, as = ⟨q, a⟩ :: rest ∧ Alone (k a) s rest t r

/-- The calls of a transcript with their answers. -/
def answers (ms : List (Move σ Q A)) : List ((q : Q) × A q) :=
  ms.filterMap fun
    | .visits _ _ => none
    | .asks q a => some ⟨q, a⟩

@[simp] theorem answers_nil : answers ([] : List (Move σ Q A)) = [] := rfl

@[simp] theorem answers_visits (s s' : σ) (ms : List (Move σ Q A)) :
    answers (.visits s s' :: ms) = answers ms := rfl

@[simp] theorem answers_asks (q : Q) (a : A q) (ms : List (Move σ Q A)) :
    answers (.asks q a :: ms : List (Move σ Q A)) = ⟨q, a⟩ :: answers ms := rfl

@[simp] theorem answers_append (ms ms' : List (Move σ Q A)) :
    answers (ms ++ ms') = answers ms ++ answers ms' := List.filterMap_append

/-- A sequence alone: the second flow goes on where the first left off. -/
theorem Alone.bind {p : Flow σ Q A ε α} {g : α → Flow σ Q A ε β} {s t u : σ}
    {as as' : List ((q : Q) × A q)} {a : α} {r : Except ε β} (h : Alone p s as t (.ok a))
    (h' : Alone (g a) t as' u r) : Alone (p >>= g) s (as ++ as') u r := by
  change Alone (p.bind g) s (as ++ as') u r
  induction p generalizing s as with
  | done r' =>
    obtain ⟨rfl, rfl, rfl⟩ := h
    exact h'
  | atomic f k ih => exact ih s h
  | ask q k ih =>
    obtain ⟨b, rest, rfl, h⟩ := h
    exact ⟨b, rest ++ as', rfl, ih b h⟩

/-! ## Flows that only call -/

/-- A flow with no section. -/
def Quiet : Flow σ Q A ε α → Prop
  | .done _ => True
  | .atomic _ _ => False
  | .ask _ k => ∀ a, Quiet (k a)

@[simp] theorem quiet_pure (a : α) : Quiet (pure a : Flow σ Q A ε α) := trivial

@[simp] theorem quiet_throw (e : ε) : Quiet (throw e : Flow σ Q A ε α) := trivial

@[simp] theorem quiet_lift (x : Except ε α) : Quiet (liftM x : Flow σ Q A ε α) := trivial

@[simp] theorem quiet_call (q : Q) : Quiet (call q : Flow σ Q A ε (A q)) := fun _ => trivial

theorem Quiet.bind {p : Flow σ Q A ε α} {g : α → Flow σ Q A ε β} (h : Quiet p)
    (hg : ∀ a, Quiet (g a)) : Quiet (p >>= g) := by
  change Quiet (p.bind g)
  induction p with
  | done r =>
    cases r with
    | ok a => exact hg a
    | error e => trivial
  | atomic f k => exact h.elim
  | ask q k ih => exact fun a => ih a (h a)

/-- A flow that only calls does alone what it did among the others. -/
theorem Quiet.alone {p : Flow σ Q A ε α} (quiet : Quiet p) {ms : List (Move σ Q A)}
    {r : Except ε α} (h : Runs p ms r) (s : σ) : Alone p s (answers ms) s r := by
  induction p generalizing ms with
  | done r' =>
    obtain ⟨rfl, rfl⟩ := runs_done.1 h
    exact ⟨rfl, rfl, rfl⟩
  | atomic f k => exact quiet.elim
  | ask q k ih =>
    obtain ⟨a, rest, rfl, hk⟩ := runs_ask.1 h
    exact ⟨a, answers rest, rfl, ih a (quiet a) hk⟩

/-- It visits nothing. -/
theorem Quiet.not_visits {p : Flow σ Q A ε α} (quiet : Quiet p) {ms : List (Move σ Q A)}
    {r : Except ε α} (h : Runs p ms r) (s s' : σ) : .visits s s' ∉ ms := by
  induction p generalizing ms with
  | done r' =>
    obtain ⟨rfl, rfl⟩ := runs_done.1 h
    simp
  | atomic f k => exact quiet.elim
  | ask q k ih =>
    obtain ⟨a, rest, rfl, hk⟩ := runs_ask.1 h
    simpa using ih a (quiet a) hk

/-! ## Every section -/

/-- Whatever it finds, each section of the flow is `S`. -/
def Each (S : (σ → σ) → σ → Prop) : Flow σ Q A ε α → Prop
  | .done _ => True
  | .atomic f k => ∀ s, S f s ∧ Each S (k s)
  | .ask _ k => ∀ a, Each S (k a)

variable {S : (σ → σ) → σ → Prop}

theorem Quiet.each {p : Flow σ Q A ε α} (quiet : Quiet p) : Each S p := by
  induction p with
  | done r => trivial
  | atomic f k => exact quiet.elim
  | ask q k ih => exact fun a => ih a (quiet a)

theorem each_pure (a : α) : Each S (pure a : Flow σ Q A ε α) := trivial

theorem each_throw (e : ε) : Each S (throw e : Flow σ Q A ε α) := trivial

theorem each_attempt {g : σ → Except ε (α × σ)} (h : ∀ s, S (attempted g) s) :
    Each S (attempt g : Flow σ Q A ε α) := fun s => ⟨h s, trivial⟩

theorem Each.bind {p : Flow σ Q A ε α} {g : α → Flow σ Q A ε β} (h : Each S p)
    (hg : ∀ a, Each S (g a)) : Each S (p >>= g) := by
  change Each S (p.bind g)
  induction p with
  | done r =>
    cases r with
    | ok a => exact hg a
    | error e => trivial
  | atomic f k ih => exact fun s => ⟨(h s).1, ih s (h s).2⟩
  | ask q k ih => exact fun a => ih a (h a)

/-- The sections of the flow are `S` up to one that need not be, and after it. -/
def Once (S : (σ → σ) → σ → Prop) : Flow σ Q A ε α → Prop
  | .done _ => True
  | .atomic f k => ∀ s, (S f s → Once S (k s)) ∧ (¬ S f s → Each S (k s))
  | .ask _ k => ∀ a, Once S (k a)

theorem Each.once {p : Flow σ Q A ε α} (h : Each S p) : Once S p := by
  induction p with
  | done r => trivial
  | atomic f k ih => exact fun s => ⟨fun _ => ih s (h s).2, fun no => absurd (h s).1 no⟩
  | ask q k ih => exact fun a => ih a (h a)

theorem Each.once_bind {p : Flow σ Q A ε α} {g : α → Flow σ Q A ε β} (h : Each S p)
    (hg : ∀ a, Once S (g a)) : Once S (p >>= g) := by
  change Once S (p.bind g)
  induction p with
  | done r =>
    cases r with
    | ok a => exact hg a
    | error e => trivial
  | atomic f k ih => exact fun s => ⟨fun _ => ih s (h s).2, fun no => absurd (h s).1 no⟩
  | ask q k ih => exact fun a => ih a (h a)

/-- A section that need not be `S`, with only such as are after it. -/
theorem once_attempt_bind {g : σ → Except ε (α × σ)} {k : α → Flow σ Q A ε β}
    (h : ∀ a, Each S (k a)) : Once S (attempt g >>= k) := by
  intro s
  have rest : Each S (Flow.bind (.done ((g s).map Prod.fst)) k) := by
    cases g s with
    | ok x => exact h x.1
    | error e => trivial
  exact ⟨fun _ => rest.once, fun _ => rest⟩

/-- Where the flow finds `s`, and nothing else, it leaves `s`. -/
def Stays (s : σ) : Flow σ Q A ε α → Prop
  | .done _ => True
  | .atomic f k => f s = s ∧ Stays s (k s)
  | .ask _ k => ∀ a, Stays s (k a)

theorem Stays.bind {s : σ} {p : Flow σ Q A ε α} {g : α → Flow σ Q A ε β} (h : Stays s p)
    (hg : ∀ a, Stays s (g a)) : Stays s (p >>= g) := by
  change Stays s (p.bind g)
  induction p with
  | done r =>
    cases r with
    | ok a => exact hg a
    | error e => trivial
  | atomic f k ih => exact ⟨h.1, ih s h.2⟩
  | ask q k ih => exact fun a => ih a (h a)

/-- A flow whose first section refuses what it reads there. -/
theorem stays_view_bind {s : σ} {g : σ → Except ε α} {k : α → Flow σ Q A ε β} {e : ε}
    (refuses : g s = .error e) : Stays s (view g >>= k) := by
  refine ⟨rfl, ?_⟩
  change Stays s (Flow.bind (.done (g s)) k)
  rw [refuses]
  trivial

/-! ## Relying on the others -/

/-- From `s`, with the others moving the state along `R` between its moves, a
flow whose sections are taken where `may` lets them keeps `I`, moves the state
along `G`, and returns with `post`. -/
def Safe (I : σ → Prop) (R G : σ → σ → Prop) (may : (σ → σ) → σ → Prop) (post : α → σ → Prop) :
    Flow σ Q A ε α → σ → Prop
  | .done (.ok a), s => ∀ t, R s t → I t → post a t
  | .done (.error _), _ => True
  | .atomic f k, s =>
    ∀ t, R s t → I t → may f t → I (f t) ∧ G t (f t) ∧ Safe I R G may post (k t) (f t)
  | .ask _ k, s => ∀ a, Safe I R G may post (k a) s

variable {I : σ → Prop} {R G : σ → σ → Prop} {may : (σ → σ) → σ → Prop} {post : α → σ → Prop}

/-- What the others do does not make a flow unsafe. -/
theorem Safe.stable (trans : ∀ {s t u}, R s t → R t u → R s u) {p : Flow σ Q A ε α} {s t : σ}
    (h : Safe I R G may post p s) (hr : R s t) : Safe I R G may post p t := by
  induction p generalizing s t with
  | done r =>
    cases r with
    | ok a => exact fun u hu hI => h u (trans hr hu) hI
    | error e => trivial
  | atomic f k => exact fun u hu hI => h u (trans hr hu) hI
  | ask q k ih => exact fun a => ih a (h a) hr

theorem Safe.bind (refl : ∀ s, R s s) {p : Flow σ Q A ε α} {g : α → Flow σ Q A ε β}
    {post' : β → σ → Prop} {s : σ} (hI : I s) (h : Safe I R G may post p s)
    (hg : ∀ a t, I t → post a t → Safe I R G may post' (g a) t) :
    Safe I R G may post' (p >>= g) s := by
  change Safe I R G may post' (p.bind g) s
  induction p generalizing s with
  | done r =>
    cases r with
    | ok a => exact hg a s hI (h s (refl s) hI)
    | error e => trivial
  | atomic f k ih =>
    intro t ht hIt hmay
    obtain ⟨hIf, hG, hk⟩ := h t ht hIt hmay
    exact ⟨hIf, hG, ih t hIf hk⟩
  | ask q k ih => exact fun a => ih a hI (h a)

theorem Safe.mono {post' : α → σ → Prop} {p : Flow σ Q A ε α} {s : σ}
    (h : Safe I R G may post p s) (hpost : ∀ a t, I t → post a t → post' a t) :
    Safe I R G may post' p s := by
  induction p generalizing s with
  | done r =>
    cases r with
    | ok a => exact fun t ht hI => hpost a t hI (h t ht hI)
    | error e => trivial
  | atomic f k ih =>
    intro t ht hI hmay
    obtain ⟨hIf, hg, hk⟩ := h t ht hI hmay
    exact ⟨hIf, hg, ih t hk⟩
  | ask q k ih => exact fun a => ih a (h a)

theorem Safe.bind_assoc {γ : Type} {p : Flow σ Q A ε α} {g : α → Flow σ Q A ε β}
    {k : β → Flow σ Q A ε γ} {post : γ → σ → Prop} {s : σ}
    (h : Safe I R G may post (p >>= fun a => g a >>= k) s) :
    Safe I R G may post ((p >>= g) >>= k) s := Flow.bind_assoc p g k ▸ h

theorem Safe.bind_pure {p : Flow σ Q A ε α} {s : σ} (h : Safe I R G may post (p >>= pure) s) :
    Safe I R G may post p s := Flow.bind_pure p ▸ h

theorem safe_throw {e : ε} {s : σ} : Safe I R G may post (throw e : Flow σ Q A ε α) s := trivial

theorem safe_pure {a : α} {s : σ} (h : ∀ t, R s t → I t → post a t) :
    Safe I R G may post (pure a : Flow σ Q A ε α) s := h

/-- A section on the way: where it is not refused, its flow goes on from what
it left. -/
theorem safe_attempt_bind (quiet : ∀ t, G t t) {g : σ → Except ε (α × σ)}
    {k : α → Flow σ Q A ε β} {post : β → σ → Prop} {s : σ}
    (h : ∀ t a t', R s t → I t → may (attempted g) t → g t = .ok (a, t') →
      I t' ∧ G t t' ∧ Safe I R G may post (k a) t') :
    Safe I R G may post (attempt g >>= k) s := by
  intro t ht hI hmay
  cases hg : g t with
  | ok x =>
    obtain ⟨a, t'⟩ := x
    have := h t a t' ht hI hmay hg
    simpa [attempted, hg, Except.map, Flow.bind] using this
  | error e => simpa [attempted, hg, Except.map, Flow.bind, Safe] using ⟨hI, quiet t⟩

theorem safe_view_bind (quiet : ∀ t, G t t) {g : σ → Except ε α} {k : α → Flow σ Q A ε β}
    {post : β → σ → Prop} {s : σ}
    (h : ∀ t a, R s t → I t → g t = .ok a → Safe I R G may post (k a) t) :
    Safe I R G may post (view g >>= k) s := by
  intro t ht hI _
  refine ⟨hI, quiet t, ?_⟩
  change Safe I R G may post (Flow.bind (.done (g t)) k) t
  cases hg : g t with
  | ok a => exact h t a ht hI hg
  | error e => trivial

theorem safe_call_bind {q : Q} {k : A q → Flow σ Q A ε β} {post : β → σ → Prop} {s : σ}
    (h : ∀ a, Safe I R G may post (k a) s) : Safe I R G may post (call q >>= k) s := h

/-- A flow that only calls, on the way. -/
theorem safe_quiet_bind {p : Flow σ Q A ε α} {k : α → Flow σ Q A ε β} {post : β → σ → Prop}
    {s : σ} (quiet : Quiet p)
    (h : ∀ ms a, Runs p ms (.ok a) → Safe I R G may post (k a) s) :
    Safe I R G may post (p >>= k) s := by
  change Safe I R G may post (p.bind k) s
  induction p with
  | done r =>
    cases r with
    | ok a => exact h [] a (.nil _)
    | error e => trivial
  | atomic f k' => exact quiet.elim
  | ask q k' ih => exact fun a => ih a (quiet a) fun ms b hb => h _ b (.cons (.asks q k' a) hb)

theorem safe_lift_bind {x : Except ε α} {k : α → Flow σ Q A ε β} {post : β → σ → Prop} {s : σ}
    (h : ∀ a, x = .ok a → Safe I R G may post (k a) s) :
    Safe I R G may post (liftM x >>= k) s := by
  cases x with
  | ok a => exact h a rfl
  | error e => trivial

end Flow

end Daemonseed.Lib.Flows
