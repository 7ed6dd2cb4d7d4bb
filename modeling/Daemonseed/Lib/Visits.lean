import Daemonseed.Lib.Pools
import Daemonseed.Lib.Results

/-! # What the sections of a pool do

A flow over a part of a state, as one over the whole; a flow that takes only
certain sections once its first has found the state so; and a run of a pool seen as
the sections its runs took, one after another. -/
namespace Daemonseed.Lib.Visits
open Daemonseed.Lib.Runs Daemonseed.Lib.Flows Daemonseed.Lib.Flows.Flow Daemonseed.Lib.Pools
  Daemonseed.Lib.Results

variable {ι σ τ Q : Type} {A : Q → Type} {ε ε' α β : Type}

/-! ## On a part of the state -/

/-- A flow over what `get` finds in a larger state, where `put` puts it back. -/
def within (get : τ → σ) (put : σ → τ → τ) (wrap : ε → ε') : Flow σ Q A ε α → Flow τ Q A ε' α
  | .done r => .done (r.mapError wrap)
  | .atomic f k => .atomic (fun t => put (f (get t)) t) fun t => within get put wrap (k (get t))
  | .ask q k => .ask q fun a => within get put wrap (k a)

/-- A section that writes what it comes to whether or not the flow goes on. -/
def visit (g : σ → Except ε α × σ) : Flow σ Q A ε α :=
  .atomic (fun s => (g s).2) fun s => .done (g s).1

/-- What every section of a flow is, on the whole. -/
theorem Each.within {get : τ → σ} {put : σ → τ → τ} {wrap : ε → ε'} {S : (σ → σ) → σ → Prop}
    {T : (τ → τ) → τ → Prop} (lift : ∀ f t, S f (get t) → T (fun t => put (f (get t)) t) t)
    {p : Flow σ Q A ε α} (h : Each S p) : Each T (within get put wrap p) := by
  induction p with
  | done r => trivial
  | atomic f k ih => exact fun t => ⟨lift f t (h (get t)).1, ih (get t) (h (get t)).2⟩
  | ask q k ih => exact fun a => ih a (h a)

theorem runs_within_view {get : τ → σ} {put : σ → τ → τ} {wrap : ε → ε'} {g : σ → Except ε α}
    {ms : List (Move τ Q A)} {a : α} (h : Runs (within get put wrap (view g)) ms (.ok a)) :
    ∃ t, ms = [.visits t (put (get t) t)] ∧ g (get t) = .ok a := by
  obtain ⟨t, _, rfl, rest⟩ := runs_atomic.1 h
  obtain ⟨rfl, read⟩ := runs_done.1 rest
  exact ⟨t, rfl, mapError_ok.1 read.symm⟩

theorem runs_within_attempt {get : τ → σ} {put : σ → τ → τ} {wrap : ε → ε'}
    {g : σ → Except ε (α × σ)} {ms : List (Move τ Q A)} {a : α}
    (h : Runs (within get put wrap (attempt g)) ms (.ok a)) :
    ∃ t s, ms = [.visits t (put s t)] ∧ g (get t) = .ok (a, s) := by
  obtain ⟨t, _, rfl, rest⟩ := runs_atomic.1 h
  obtain ⟨rfl, returned⟩ := runs_done.1 rest
  have taken := mapError_ok.1 returned.symm
  cases took : g (get t) with
  | error e =>
    rw [took] at taken
    cases taken
  | ok x =>
    rw [took] at taken
    obtain rfl := Except.ok.inj taken
    exact ⟨t, x.2, by rw [attempted_ok took], took⟩

theorem each_visit {S : (σ → σ) → σ → Prop} {g : σ → Except ε α × σ}
    (h : ∀ s, S (fun s => (g s).2) s) : Each S (visit g : Flow σ Q A ε α) := fun s => ⟨h s, trivial⟩

/-! ## What is known when a flow goes on -/

section

variable {S : (σ → σ) → σ → Prop}

theorem each_lift_bind {x : Except ε α} {k : α → Flow σ Q A ε β}
    (h : ∀ a, x = .ok a → Each S (k a)) : Each S (liftM x >>= k) := by
  cases x with
  | ok a => exact h a rfl
  | error e => trivial

theorem each_quiet_bind {p : Flow σ Q A ε α} {k : α → Flow σ Q A ε β} (quiet : Quiet p)
    (h : ∀ ms a, Runs p ms (.ok a) → Each S (k a)) : Each S (p >>= k) := by
  change Each S (p.bind k)
  induction p with
  | done r =>
    cases r with
    | ok a => exact h [] a (.nil _)
    | error e => trivial
  | atomic f k' => exact quiet.elim
  | ask q k' ih => exact fun a => ih a (quiet a) fun ms b hb => h _ b (.cons (.asks q k' a) hb)

theorem each_view_bind {g : σ → Except ε α} {k : α → Flow σ Q A ε β} (reads : ∀ s, S id s)
    (h : ∀ s a, g s = .ok a → Each S (k a)) : Each S (view g >>= k) := by
  refine fun s => ⟨reads s, ?_⟩
  change Each S (Flow.bind (.done (g s)) k)
  cases read : g s with
  | error e => trivial
  | ok a => exact h s a read

theorem each_attempt_bind {g : σ → Except ε (α × σ)} {k : α → Flow σ Q A ε β}
    (changes : ∀ s, S (attempted g) s) (h : ∀ s a s', g s = .ok (a, s') → Each S (k a)) :
    Each S (attempt g >>= k) := by
  refine fun s => ⟨changes s, ?_⟩
  change Each S (Flow.bind (.done ((g s).map Prod.fst)) k)
  cases taken : g s with
  | error e => trivial
  | ok x => exact h s x.1 x.2 taken

theorem Each.mono {T : (σ → σ) → σ → Prop} (sub : ∀ f s, S f s → T f s) {p : Flow σ Q A ε α}
    (h : Each S p) : Each T p := by
  induction p with
  | done r => trivial
  | atomic f k ih => exact fun s => ⟨sub f s (h s).1, ih s (h s).2⟩
  | ask q k ih => exact fun a => ih a (h a)

theorem each_bind_assoc {γ : Type} {p : Flow σ Q A ε α} {g : α → Flow σ Q A ε β}
    {k : β → Flow σ Q A ε γ} (h : Each S (p >>= fun a => g a >>= k)) : Each S ((p >>= g) >>= k) := by
  rwa [bind_assoc]

end

/-! ## Once the first section has found the state so -/

/-- Each section of the flow is `S` once its first has found the state `L`. -/
def Informed (L : σ → Prop) (S : (σ → σ) → σ → Prop) : Flow σ Q A ε α → Prop
  | .done _ => True
  | .atomic f k => ∀ s, S f s ∧ (L s → Each S (k s))
  | .ask _ k => ∀ a, Informed L S (k a)

variable {L : σ → Prop} {S : (σ → σ) → σ → Prop}

theorem Each.informed {p : Flow σ Q A ε α} (h : Each S p) : Informed L S p := by
  induction p with
  | done r => trivial
  | atomic f k => exact fun s => ⟨(h s).1, fun _ => (h s).2⟩
  | ask q k ih => exact fun a => ih a (h a)

theorem Informed.bind {p : Flow σ Q A ε α} {g : α → Flow σ Q A ε β} (h : Informed L S p)
    (hg : ∀ a, Each S (g a)) : Informed L S (p >>= g) := by
  change Informed L S (p.bind g)
  induction p with
  | done r =>
    cases r with
    | ok a => exact Each.informed (hg a)
    | error e => trivial
  | atomic f k =>
    refine fun s => ⟨(h s).1, fun found => ?_⟩
    exact Each.bind ((h s).2 found) hg
  | ask q k ih => exact fun a => ih a (h a)

/-- A flow that first reads the state. -/
theorem informed_view_bind {g : σ → Except ε α} {k : α → Flow σ Q A ε β} (reads : ∀ s, S id s)
    (h : ∀ s a, L s → g s = .ok a → Each S (k a)) : Informed L S (view g >>= k) := by
  refine fun s => ⟨reads s, fun found => ?_⟩
  change Each S (Flow.bind (.done (g s)) k)
  cases read : g s with
  | error e => trivial
  | ok a => exact h s a found read

theorem Informed.within {get : τ → σ} {put : σ → τ → τ} {wrap : ε → ε'} {T : (τ → τ) → τ → Prop}
    (lift : ∀ f t, S f (get t) → T (fun t => put (f (get t)) t) t) {p : Flow σ Q A ε α}
    (h : Informed L S p) : Informed (fun t => L (get t)) T (within get put wrap p) := by
  induction p with
  | done r => trivial
  | atomic f k =>
    exact fun t => ⟨lift f t (h (get t)).1, fun found => Each.within lift ((h (get t)).2 found)⟩
  | ask q k ih => exact fun a => ih a (h a)

/-! ## The sections of a run -/

variable {prog : ι → Flow σ Q A ε α} {may : (σ → σ) → σ → Prop}

/-- Every run of the pool that is not over takes the sections it may. -/
def Sectioned (T : ι → (σ → σ) → σ → Prop) (P : Pool ι σ Q A ε α) : Prop :=
  ∀ i p, P.life i = .running p → Each (T i) p

variable [DecidableEq ι]

/-- What happened is no change, or a section that its run may take. -/
inductive Visited (T : ι → (σ → σ) → σ → Prop) : σ → Event ι σ Q A → σ → Prop
  | begins (s : σ) (i : ι) : Visited T s (.begins i) s
  | visits {i : ι} {f : σ → σ} {s : σ} (is : T i f s) : Visited T s (.moves i (.visits s (f s))) (f s)
  | asks (s : σ) (i : ι) (q : Q) (a : A q) : Visited T s (.moves i (.asks q a)) s
  | ends (s : σ) (i : ι) : Visited T s (.ends i) s
  | stops (s : σ) (i : ι) : Visited T s (.stops i) s

/-- What a run is at after another went on, or it did itself. -/
theorem running_put {P : Pool ι σ Q A ε α} {i j : ι} {l : Life σ Q A ε α}
    {I : Flow σ Q A ε α → Prop} (start : ∀ p, P.life i = .running p → I p)
    (is : i = j → ∀ p, l = .running p → I p) {p : Flow σ Q A ε α}
    (at_ : (P.put j l).life i = .running p) : I p := by
  by_cases same : i = j
  · subst same
    rw [put_self] at at_
    exact is rfl p at_
  · rw [put_other _ _ same] at at_
    exact start p at_

theorem Sectioned.step {T : ι → (σ → σ) → σ → Prop} {P P' : Pool ι σ Q A ε α} {e : Event ι σ Q A}
    (each : ∀ i, Each (T i) (prog i)) (h : Sectioned T P) (step : Steps prog may P e P') :
    Visited T P.state e P'.state ∧ Sectioned T P' := by
  cases step with
  | @begins i unborn =>
    refine ⟨.begins _ i, fun j _ => running_put (h j) fun same p is => ?_⟩
    cases is
    exact same ▸ each j
  | @visits i f k at_ lets =>
    obtain ⟨is, rest⟩ := h i _ at_ P.state
    refine ⟨.visits is, fun j _ => running_put (P := { P with state := f P.state }) (h j)
      fun same p is => ?_⟩
    cases same
    cases is
    exact rest
  | @asks i q k a at_ =>
    refine ⟨.asks _ i q a, fun j _ => running_put (h j) fun same p is => ?_⟩
    cases is
    cases same
    exact h _ _ at_ a
  | @ends i r at_ => exact ⟨.ends _ i, fun j _ => running_put (h j) fun _ p is => by cases is⟩
  | @stops i p at_ => exact ⟨.stops _ i, fun j _ => running_put (h j) fun _ p is => by cases is⟩

/-- A run of a pool whose flows take only their sections is one section after another. -/
theorem Sectioned.trail {T : ι → (σ → σ) → σ → Prop} {P P' : Pool ι σ Q A ε α}
    {es : List (Event ι σ Q A)} (each : ∀ i, Each (T i) (prog i)) (h : Sectioned T P)
    (run : Trail (Steps prog may) P es P') : Trail (Visited T) P.state es P'.state ∧ Sectioned T P' := by
  induction run with
  | nil => exact ⟨.nil _, h⟩
  | cons head _ ih =>
    obtain ⟨visited, next⟩ := h.step each head
    obtain ⟨rest, last⟩ := ih next
    exact ⟨.cons visited rest, last⟩

omit [DecidableEq ι] in
theorem sectioned_idle {T : ι → (σ → σ) → σ → Prop} {P : Pool ι σ Q A ε α} (idle : Idle P) :
    Sectioned T P := fun i p at_ => by
  rw [idle i] at at_
  cases at_

/-- A run that is over stays as it ended. -/
theorem finished_stays {i : ι} {P P' : Pool ι σ Q A ε α} {es : List (Event ι σ Q A)}
    {r : Except ε α} (start : P.life i = .finished r) (run : Trail (Steps prog may) P es P') :
    P'.life i = .finished r := by
  induction run with
  | nil => exact start
  | @cons P P₁ P₂ e rest head _ ih =>
    refine ih ?_
    have other {j : ι} {l l' : Life σ Q A ε α} {s : σ} (at_ : P.life j = l)
        (apart : l ≠ .finished r) : (({ P with state := s }.put j l' : Pool ι σ Q A ε α)).life i =
          .finished r := by
      have apart : i ≠ j := fun same => apart (at_.symm.trans (same ▸ start))
      rw [put_other _ _ apart]
      exact start
    cases head with
    | begins unborn => exact other unborn nofun
    | visits at_ => exact other at_ nofun
    | asks _ at_ => exact other at_ nofun
    | ends at_ => exact other at_ nofun
    | stops at_ => exact other at_ nofun

theorem mem_movesOf {i : ι} {es : List (Event ι σ Q A)} {m : Move σ Q A} :
    m ∈ movesOf i es ↔ .moves i m ∈ es := by
  simp only [movesOf, List.mem_filterMap]
  constructor
  · rintro ⟨e, mem, is⟩
    cases e with
    | moves j m' =>
      dsimp only at is
      by_cases same : j = i
      · subst same
        rw [if_pos rfl] at is
        obtain rfl := Option.some.inj is
        exact mem
      · rw [if_neg same] at is
        cases is
    | _ => cases is
  · exact fun mem => ⟨_, mem, if_pos rfl⟩

/-- What a run did, between its beginning and its end. -/
theorem runs_between {i : ι} {P P' : Pool ι σ Q A ε α} {r : Except ε α}
    {before during after : List (Event ι σ Q A)} (idle : Idle P)
    (run : Trail (Steps prog may) P (before ++ .begins i :: (during ++ .ends i :: after)) P')
    (finish : P'.life i = .finished r) : Runs (prog i) (movesOf i during) r := by
  obtain ⟨P₁, first, rest⟩ := run.split
  cases rest with
  | cons begun rest =>
    obtain ⟨P₂, middle, rest⟩ := rest.split
    cases rest with
    | cons ended rest =>
      have unborn : movesOf i before = [] := by
        have did := run_did idle first i
        cases begun with
        | begins unborn => rwa [unborn] at did
      have did := run_did idle ((first.snoc begun).append (middle.snoc ended)) i
      cases ended with
      | ends at_ =>
        rw [put_self] at did
        have same := finished_stays (put_self P₂ i _) rest
        obtain rfl := Life.finished.inj (same.symm.trans finish)
        have moves : movesOf i (before ++ [.begins i] ++ (during ++ [.ends i])) =
            movesOf i during := by
          simp only [movesOf_snoc, ← List.append_assoc]
          simp [movesOf] at unborn ⊢
          exact unborn
        rwa [moves] at did

/-- The run has taken no section. -/
def Fresh (i : ι) (es : List (Event ι σ Q A)) : Prop := ∀ s s', Event.moves i (.visits s s') ∉ es

/-- A run that begins to take sections where the state is `L` takes only `S`. -/
theorem informed_trail {i : ι} {P P' : Pool ι σ Q A ε α} {es : List (Event ι σ Q A)}
    (first : Informed L S (prog i)) (start : ∀ p, P.life i = .running p → Informed L S p)
    (found : ∀ s s', Event.moves i (.visits s s') ∈ es → L s)
    (run : Trail (Steps prog may) P es P') : ∀ p, P'.life i = .running p → Informed L S p := by
  induction run with
  | nil => exact start
  | @cons P P₁ P₂ e rest head _ ih =>
    refine ih (fun p at_ => ?_) fun s s' mem => found s s' (List.mem_cons_of_mem _ mem)
    cases head with
    | begins unborn =>
      exact running_put start (fun same p is => by cases same; cases is; exact first) at_
    | @visits j f k at' lets =>
      refine running_put (P := { P with state := f P.state }) start (fun same p is => ?_) at_
      cases same
      cases is
      exact Each.informed ((start _ at' P.state).2 (found _ _ List.mem_cons_self))
    | asks a at' =>
      exact running_put start (fun same p is => by cases same; cases is; exact start _ at' a) at_
    | ends at' => exact running_put start (fun _ p is => by cases is) at_
    | stops at' => exact running_put start (fun _ p is => by cases is) at_

/-- Such a run's next section is `S`. -/
theorem informed_section {i : ι} {P P' : Pool ι σ Q A ε α} {s s' : σ}
    (informed : ∀ p, P.life i = .running p → Informed L S p)
    (step : Steps prog may P (.moves i (.visits s s')) P') :
    ∃ f, S f s ∧ s' = f s ∧ s = P.state := by
  cases step with
  | @visits _ f k at_ lets => exact ⟨f, (informed _ at_ P.state).1, rfl, rfl⟩

end Daemonseed.Lib.Visits
