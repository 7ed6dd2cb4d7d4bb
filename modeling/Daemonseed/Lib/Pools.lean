import Daemonseed.Lib.Flows

/-! # A pool of flows over one state

Every run of the pool has its own flow, begins at any time the pool admits
it, moves in any order with the others, ends, or stops where it is. What one
run did is its part of the pool's trail; what all of them keep is shown by
giving each run a rely and a guarantee. -/
namespace Daemonseed.Lib.Pools
open Daemonseed.Lib.Runs Daemonseed.Lib.Flows Daemonseed.Lib.Flows.Flow

variable {ι σ Q : Type} {A : Q → Type} {ε α : Type}

/-- Where one run is. -/
inductive Life (σ Q : Type) (A : Q → Type) (ε α : Type)
  | unborn
  | running (p : Flow σ Q A ε α)
  | finished (r : Except ε α)
  | stopped

/-- The state, and where each run is. -/
structure Pool (ι σ Q : Type) (A : Q → Type) (ε α : Type) where
  state : σ
  life : ι → Life σ Q A ε α

/-- What happens in a pool. -/
inductive Event (ι σ Q : Type) (A : Q → Type)
  | begins (i : ι)
  | moves (i : ι) (m : Move σ Q A)
  | ends (i : ι)
  | stops (i : ι)

variable [DecidableEq ι]

/-- One run is now at `l`. -/
def Pool.put (P : Pool ι σ Q A ε α) (i : ι) (l : Life σ Q A ε α) : Pool ι σ Q A ε α :=
  { P with life := Function.update P.life i l }

@[simp] theorem put_self (P : Pool ι σ Q A ε α) (i : ι) (l : Life σ Q A ε α) :
    (P.put i l).life i = l := by simp [Pool.put]

theorem put_other (P : Pool ι σ Q A ε α) {i j : ι} (l : Life σ Q A ε α) (h : j ≠ i) :
    (P.put i l).life j = P.life j := by simp [Pool.put, h]

@[simp] theorem put_state (P : Pool ι σ Q A ε α) (i : ι) (l : Life σ Q A ε α) :
    (P.put i l).state = P.state := rfl

/-- One event of a pool whose runs have the flows `prog`, in which a section
is taken where `may` lets it. -/
inductive Steps (prog : ι → Flow σ Q A ε α) (may : (σ → σ) → σ → Prop) :
    Pool ι σ Q A ε α → Event ι σ Q A → Pool ι σ Q A ε α → Prop
  | begins {P : Pool ι σ Q A ε α} {i : ι} (unborn : P.life i = .unborn) :
      Steps prog may P (.begins i) (P.put i (.running (prog i)))
  | visits {P : Pool ι σ Q A ε α} {i : ι} {f : σ → σ} {k : σ → Flow σ Q A ε α}
      (at_ : P.life i = .running (.atomic f k)) (lets : may f P.state) :
      Steps prog may P (.moves i (.visits P.state (f P.state)))
        ({ P with state := f P.state }.put i (.running (k P.state)))
  | asks {P : Pool ι σ Q A ε α} {i : ι} {q : Q} {k : A q → Flow σ Q A ε α} (a : A q)
      (at_ : P.life i = .running (.ask q k)) :
      Steps prog may P (.moves i (.asks q a)) (P.put i (.running (k a)))
  | ends {P : Pool ι σ Q A ε α} {i : ι} {r : Except ε α} (at_ : P.life i = .running (.done r)) :
      Steps prog may P (.ends i) (P.put i (.finished r))
  | stops {P : Pool ι σ Q A ε α} {i : ι} {p : Flow σ Q A ε α} (at_ : P.life i = .running p) :
      Steps prog may P (.stops i) (P.put i .stopped)

/-- No run has begun. -/
def Idle (P : Pool ι σ Q A ε α) : Prop := ∀ i, P.life i = .unborn

variable {prog : ι → Flow σ Q A ε α} {may : (σ → σ) → σ → Prop}

/-! ## One run of a pool -/

/-- The moves of one run. -/
def movesOf (i : ι) (es : List (Event ι σ Q A)) : List (Move σ Q A) :=
  es.filterMap fun
    | .moves j m => if j = i then some m else none
    | _ => none

/-- What a run has done since a pool where it was at `l`. -/
def Did (p : Flow σ Q A ε α) (ms : List (Move σ Q A)) : Life σ Q A ε α → Prop
  | .unborn => ms = []
  | .running q => Trail Takes p ms q
  | .finished r => Runs p ms r
  | .stopped => True

theorem movesOf_snoc (i : ι) (es : List (Event ι σ Q A)) (e : Event ι σ Q A) :
    movesOf i (es ++ [e]) = movesOf i es ++ movesOf i [e] := List.filterMap_append

theorem step_did {P P' : Pool ι σ Q A ε α} {e : Event ι σ Q A} {es : List (Event ι σ Q A)}
    (h : Steps prog may P e P') (i : ι) (did : Did (prog i) (movesOf i es) (P.life i)) :
    Did (prog i) (movesOf i (es ++ [e])) (P'.life i) := by
  rw [movesOf_snoc]
  have other : ∀ {j : ι} {l : Life σ Q A ε α} {ms : List (Move σ Q A)}, ms = [] → i ≠ j →
      Did (prog i) (movesOf i es ++ ms) ((P.put j l).life i) := fun hms hj => by
    rw [put_other P _ hj, hms, List.append_nil]
    exact did
  cases h with
  | @begins j unborn =>
    by_cases hj : i = j
    · subst hj
      rw [put_self]
      rw [unborn] at did
      rw [did]
      exact .nil _
    · exact other rfl hj
  | @visits j f k at_ _ =>
    by_cases hj : i = j
    · subst hj
      rw [put_self]
      rw [at_] at did
      simpa [movesOf, Did] using did.snoc (.visits f k P.state)
    · exact other (l := .running (k P.state)) (by simp [movesOf, Ne.symm hj]) hj
  | @asks j q k a at_ =>
    by_cases hj : i = j
    · subst hj
      rw [put_self]
      rw [at_] at did
      simpa [movesOf, Did] using did.snoc (.asks q k a)
    · exact other (by simp [movesOf, Ne.symm hj]) hj
  | @ends j r at_ =>
    by_cases hj : i = j
    · subst hj
      rw [put_self]
      rw [at_] at did
      simpa [movesOf, Did, Runs] using did
    · exact other rfl hj
  | @stops j p at_ =>
    by_cases hj : i = j
    · subst hj
      rw [put_self]
      trivial
    · exact other rfl hj

/-- **Each run of a pool does what its flow does**, whatever the others do. -/
theorem run_did {P P' : Pool ι σ Q A ε α} {es : List (Event ι σ Q A)} (idle : Idle P)
    (h : Trail (Steps prog may) P es P') (i : ι) :
    Did (prog i) (movesOf i es) (P'.life i) := by
  have go : ∀ es₀ {P P' : Pool ι σ Q A ε α} {es : List (Event ι σ Q A)},
      Trail (Steps prog may) P es P' → Did (prog i) (movesOf i es₀) (P.life i) →
        Did (prog i) (movesOf i (es₀ ++ es)) (P'.life i) := by
    intro es₀ P P' es h
    induction h generalizing es₀ with
    | nil => intro did; simpa using did
    | @cons _ _ _ e rest head _ ih =>
      intro did
      have := ih _ (step_did head i did)
      rwa [List.append_assoc] at this
  simpa using go [] h (by rw [idle i]; rfl)

theorem run_finished {P P' : Pool ι σ Q A ε α} {es : List (Event ι σ Q A)} (idle : Idle P)
    (h : Trail (Steps prog may) P es P') {i : ι} {r : Except ε α}
    (fin : P'.life i = .finished r) : Runs (prog i) (movesOf i es) r := by
  have := run_did idle h i
  rwa [fin] at this

/-! ## Playing a script -/

/-- The next move of run `i`, its calls answered by `reply`; a call that has no
answer waits. -/
def Pool.next (prog : ι → Flow σ Q A ε α) (reply : (q : Q) → Option (A q))
    (P : Pool ι σ Q A ε α) (i : ι) : Pool ι σ Q A ε α :=
  match P.life i with
  | .unborn => P.put i (.running (prog i))
  | .running (.atomic f k) => { P with state := f P.state }.put i (.running (k P.state))
  | .running (.ask q k) =>
    match reply q with
    | some a => P.put i (.running (k a))
    | none => P
  | .running (.done r) => P.put i (.finished r)
  | .finished _ | .stopped => P

/-- The runs move in the order a script names them. -/
def Pool.play (prog : ι → Flow σ Q A ε α) (reply : (q : Q) → Option (A q))
    (P : Pool ι σ Q A ε α) : List ι → Pool ι σ Q A ε α :=
  List.foldl (fun P i => P.next prog reply i) P

theorem next_trail (reply : (q : Q) → Option (A q)) (P : Pool ι σ Q A ε α) (i : ι)
    (lets : ∀ f, may f P.state) :
    ∃ es, Trail (Steps prog may) P es (P.next prog reply i) := by
  have once : ∀ {e P'}, Steps prog may P e P' → ∃ es, Trail (Steps prog may) P es P' :=
    fun step => ⟨[_], .cons step (.nil _)⟩
  have waits : ∃ es, Trail (Steps prog may) P es P := ⟨[], .nil P⟩
  unfold Pool.next
  cases hl : P.life i with
  | unborn => exact once (.begins hl)
  | running p =>
    cases p with
    | done r => exact once (.ends hl)
    | atomic f k => exact once (.visits hl (lets f))
    | ask q k =>
      cases hq : reply q with
      | none => simpa only [hq] using waits
      | some a => simpa only [hq] using once (.asks a hl)
  | finished r => exact waits
  | stopped => exact waits

/-- What a script plays is a run of the pool, where each section it takes is
let. -/
theorem play_trail (reply : (q : Q) → Option (A q)) (P : Pool ι σ Q A ε α) (script : List ι)
    (lets : ∀ n < script.length, ∀ f, may f (P.play prog reply (script.take n)).state) :
    ∃ es, Trail (Steps prog may) P es (P.play prog reply script) := by
  induction script generalizing P with
  | nil => exact ⟨[], .nil P⟩
  | cons i rest ih =>
    obtain ⟨es, first⟩ : ∃ es, Trail (Steps prog may) P es (P.next prog reply i) :=
      next_trail reply P i (lets 0 (by simp))
    obtain ⟨es', later⟩ := ih (P.next prog reply i) fun n hn =>
      lets (n + 1) (by simpa using hn)
    exact ⟨es ++ es', first.append later⟩

/-! ## All runs of a pool -/

/-- Every run keeps `I` by its own rely and guarantee, and what one run
guarantees is within what every other relies on. -/
structure Cooperates (I : σ → Prop) (R G : ι → σ → σ → Prop) (post : ι → α → σ → Prop)
    (prog : ι → Flow σ Q A ε α) (may : (σ → σ) → σ → Prop) : Prop where
  refl : ∀ i s, R i s s
  trans : ∀ i s t u, R i s t → R i t u → R i s u
  meets : ∀ i j s t, i ≠ j → I s → I t → G i s t → R j s t
  begins : ∀ i s, I s → Safe I (R i) (G i) may (post i) (prog i) s

/-- What a pool of cooperating flows keeps. -/
structure Kept (I : σ → Prop) (R G : ι → σ → σ → Prop) (may : (σ → σ) → σ → Prop)
    (post : ι → α → σ → Prop) (P : Pool ι σ Q A ε α) : Prop where
  state : I P.state
  safe : ∀ i p, P.life i = .running p → Safe I (R i) (G i) may (post i) p P.state

variable {I : σ → Prop} {R G : ι → σ → σ → Prop} {post : ι → α → σ → Prop}

/-- One run goes on to `q` in a state the others can live with. -/
theorem Kept.put (h : Cooperates I R G post prog may) {P : Pool ι σ Q A ε α} {i : ι}
    {q : Flow σ Q A ε α} {t : σ} (kept : Kept I R G may post P) (hI : I t)
    (hG : t = P.state ∨ G i P.state t) (safe : Safe I (R i) (G i) may (post i) q t) :
    Kept I R G may post ({ P with state := t }.put i (.running q)) := by
  refine ⟨hI, fun j u hu => ?_⟩
  by_cases hj : j = i
  · subst hj
    rw [put_self, Life.running.injEq] at hu
    exact hu ▸ safe
  · rw [put_other _ _ hj] at hu
    rcases hG with rfl | hG
    · exact kept.safe j u hu
    · exact (kept.safe j u hu).stable (fun {a b c} => h.trans j a b c)
        (h.meets i j _ _ (Ne.symm hj) kept.state hI hG)

/-- One run is over. -/
theorem Kept.leaves {P : Pool ι σ Q A ε α} {i : ι} {l : Life σ Q A ε α}
    (kept : Kept I R G may post P) (gone : ∀ p, l ≠ .running p) :
    Kept I R G may post (P.put i l) := by
  refine ⟨kept.state, fun j p hj => ?_⟩
  by_cases hji : j = i
  · subst hji
    rw [put_self] at hj
    exact absurd hj (gone p)
  · exact kept.safe j p (put_other P _ hji ▸ hj)

theorem step_kept (h : Cooperates I R G post prog may) {P P' : Pool ι σ Q A ε α}
    {e : Event ι σ Q A} (step : Steps prog may P e P')
    (kept : Kept I R G may post P) : Kept I R G may post P' := by
  cases step with
  | @begins i unborn => exact kept.put h kept.state (.inl rfl) (h.begins i _ kept.state)
  | @visits i f k at_ lets =>
    obtain ⟨hI, hG, hk⟩ := kept.safe i _ at_ P.state (h.refl i _) kept.state lets
    exact kept.put h hI (.inr hG) hk
  | @asks i q k a at_ => exact kept.put h kept.state (.inl rfl) (kept.safe i _ at_ a)
  | ends at_ => exact kept.leaves (by simp)
  | stops at_ => exact kept.leaves (by simp)

/-- **Cooperating flows keep the invariant**, in any order of their moves and
with stops anywhere. -/
theorem run_kept (h : Cooperates I R G post prog may) {P P' : Pool ι σ Q A ε α}
    {es : List (Event ι σ Q A)} (idle : Idle P) (start : I P.state)
    (run : Trail (Steps prog may) P es P') : Kept I R G may post P' := by
  refine run.invariant (I := Kept I R G may post) (fun _ _ _ kept step =>
    step_kept h step kept) ⟨start, fun i p hi => ?_⟩
  rw [idle i] at hi
  cases hi

/-- A section that one pool lets, another that lets more does. -/
theorem Steps.mono {may' : (σ → σ) → σ → Prop} (sub : ∀ f s, may f s → may' f s)
    {P P' : Pool ι σ Q A ε α} {e : Event ι σ Q A} (step : Steps prog may P e P') :
    Steps prog may' P e P' := by
  cases step with
  | begins unborn => exact .begins unborn
  | visits at_ lets => exact .visits at_ (sub _ _ lets)
  | asks a at_ => exact .asks a at_
  | ends at_ => exact .ends at_
  | stops at_ => exact .stops at_

end Daemonseed.Lib.Pools
