import Daemonseed.Lib.Flows

/-! # Flows one at a time

A flow that runs with nothing else running, as far as it gets: the answers it is
given lead it from one state to another, and it may stop anywhere on the way.
What its sections do, given what it has been answered, it does in the end. A
flow over one part of a state is a flow over the whole of it. -/
namespace Daemonseed.Lib.Solo
open Daemonseed.Lib.Flows

variable {σ ι Q : Type} {A : Q → Type} {ε α β : Type}

abbrev Told (A : Q → Type) := List ((q : Q) × A q)

/-- The flow has been answered so and is left at a flow and a state. -/
inductive Leads : Flow σ Q A ε α → σ → Told A → Flow σ Q A ε α → σ → Prop
  | here (p : Flow σ Q A ε α) (s : σ) : Leads p s [] p s
  | visits {f : σ → σ} {k : σ → Flow σ Q A ε α} {s t : σ} {as : Told A} {p : Flow σ Q A ε α}
    (rest : Leads (k s) (f s) as p t) : Leads (.atomic f k) s as p t
  | asks {q : Q} {k : A q → Flow σ Q A ε α} {a : A q} {s t : σ} {as : Told A}
    {p : Flow σ Q A ε α} (rest : Leads (k a) s as p t) : Leads (.ask q k) s (⟨q, a⟩ :: as) p t

/-- What the flow does alone where its calls are answered by `reply`, up to the first that has no
answer. -/
def follow (reply : (q : Q) → Option (A q)) : Flow σ Q A ε α → σ → Told A × Flow σ Q A ε α × σ
  | .done r, s => ([], .done r, s)
  | .atomic f k, s => follow reply (k s) (f s)
  | .ask q k, s =>
    match reply q with
    | some a => (⟨q, a⟩ :: (follow reply (k a) s).1, (follow reply (k a) s).2)
    | none => ([], .ask q k, s)

theorem follow_leads (reply : (q : Q) → Option (A q)) (p : Flow σ Q A ε α) (s : σ) :
    Leads p s (follow reply p s).1 (follow reply p s).2.1 (follow reply p s).2.2 := by
  induction p generalizing s with
  | done r => exact .here _ s
  | atomic f k ih => exact .visits (ih s (f s))
  | ask q k ih =>
    unfold follow
    split
    · exact .asks (ih _ s)
    · exact .here _ s

theorem follow_told {reply : (q : Q) → Option (A q)} {p : Flow σ Q A ε α} {s : σ} {q : Q} {a : A q}
    (mem : ⟨q, a⟩ ∈ (follow reply p s).1) : reply q = some a := by
  induction p generalizing s with
  | done r => cases mem
  | atomic f k ih => exact ih s mem
  | ask q' k ih =>
    unfold follow at mem
    split at mem
    · rename_i answered
      rcases List.mem_cons.1 mem with e | later
      · cases e
        exact answered
      · exact ih _ later
    · cases mem

/-- Every section the flow can come to changes the state as `ok` has it, by what it was answered
before. -/
def Heeds (ok : Told A → σ → σ → Prop) : Told A → Flow σ Q A ε α → Prop
  | _, .done _ => True
  | heard, .atomic f k => (∀ s, ok heard s (f s)) ∧ ∀ s, Heeds ok heard (k s)
  | heard, .ask q k => ∀ a, Heeds ok (heard ++ [⟨q, a⟩]) (k a)

section Heeding
variable {ok : Told A → σ → σ → Prop} {heard : Told A}

theorem Heeds.mono {ok' : Told A → σ → σ → Prop} (imp : ∀ heard s t, ok heard s t → ok' heard s t)
    {p : Flow σ Q A ε α} (h : Heeds ok heard p) : Heeds ok' heard p := by
  induction p generalizing heard with
  | done r => trivial
  | atomic f k ih => exact ⟨fun s => imp _ _ _ (h.1 s), fun s => ih s (h.2 s)⟩
  | ask q k ih => exact fun a => ih a (h a)

/-- What a section keeps and an answer keeps, a flow keeps as far as it gets. -/
theorem Heeds.leads {J : Told A → σ → Prop} (sections : ∀ heard s t, J heard s → ok heard s t → J heard t)
    (answered : ∀ heard x s, J heard s → J (heard ++ [x]) s) {p q : Flow σ Q A ε α} {s t : σ}
    {as : Told A} (heeds : Heeds ok heard p) (run : Leads p s as q t) (start : J heard s) :
    J (heard ++ as) t := by
  induction run generalizing heard with
  | here p s => rwa [List.append_nil]
  | @visits f k s t as p rest ih =>
    exact ih (heeds.2 s) (sections heard s (f s) start (heeds.1 s))
  | @asks q k a s t as p rest ih =>
    have next := ih (heeds a) (answered heard ⟨q, a⟩ s start)
    rwa [List.append_assoc, List.singleton_append] at next

theorem heeds_bind {p : Flow σ Q A ε α} {g : α → Flow σ Q A ε β} (first : Heeds ok heard p)
    (then_ : ∀ a as, Heeds ok (heard ++ as) (g a)) : Heeds ok heard (p >>= g) := by
  change Heeds ok heard (p.bind g)
  induction p generalizing heard with
  | done r =>
    cases r with
    | ok a =>
      have next := then_ a []
      rwa [List.append_nil] at next
    | error e => trivial
  | atomic f k ih => exact ⟨first.1, fun s => ih s (first.2 s) then_⟩
  | ask q k ih =>
    refine fun a => ih a (first a) fun b as => ?_
    rw [List.append_assoc]
    exact then_ b (⟨q, a⟩ :: as)

theorem heeds_quiet {p : Flow σ Q A ε α} (quiet : p.Quiet) : Heeds ok heard p := by
  induction p generalizing heard with
  | done r => trivial
  | atomic f k => exact quiet.elim
  | ask q k ih => exact fun a => ih a (quiet a)

theorem heeds_pure {a : α} : Heeds ok heard (pure a : Flow σ Q A ε α) := trivial

theorem heeds_throw {e : ε} : Heeds ok heard (throw e : Flow σ Q A ε α) := trivial

theorem heeds_view {g : σ → Except ε α} (refl : ∀ heard s, ok heard s s) :
    Heeds ok heard (Flow.view g : Flow σ Q A ε α) := ⟨refl heard, fun _ => trivial⟩

/-- A section that is refused leaves the state. -/
theorem heeds_attempt {g : σ → Except ε (α × σ)} (refl : ∀ heard s, ok heard s s)
    (h : ∀ s a t, g s = .ok (a, t) → ok heard s t) :
    Heeds ok heard (Flow.attempt g : Flow σ Q A ε α) := by
  refine ⟨fun s => ?_, fun _ => trivial⟩
  unfold Flow.attempted
  split
  · rename_i eq
    exact h s _ _ eq
  · exact refl heard s

end Heeding

/-! ## Results as values -/

/-- The flow, whose failure is a result of it. -/
def settled : Flow σ Q A ε α → Flow σ Q A ε (Except ε α)
  | .done r => .done (.ok r)
  | .atomic f k => .atomic f fun s => settled (k s)
  | .ask q k => .ask q fun a => settled (k a)

theorem heeds_settled {ok : Told A → σ → σ → Prop} {heard : Told A} {p : Flow σ Q A ε α}
    (h : Heeds ok heard p) : Heeds ok heard (settled p) := by
  induction p generalizing heard with
  | done r => trivial
  | atomic f k ih => exact ⟨h.1, fun s => ih s (h.2 s)⟩
  | ask q k ih => exact fun a => ih a (h a)

/-! ## What a flow returns -/

/-- Every result the flow can come to is one of `post`, by what it was answered before. -/
def Yields (post : Told A → Except ε α → Prop) : Told A → Flow σ Q A ε α → Prop
  | heard, .done r => post heard r
  | heard, .atomic _ k => ∀ s, Yields post heard (k s)
  | heard, .ask q k => ∀ a, Yields post (heard ++ [⟨q, a⟩]) (k a)

section Yielding
variable {post : Told A → Except ε α → Prop} {heard : Told A}

theorem Yields.leads {p : Flow σ Q A ε α} {s t : σ} {as : Told A} {r : Except ε α}
    (yields : Yields post heard p) (run : Leads p s as (.done r) t) : post (heard ++ as) r := by
  induction p generalizing heard s as with
  | done r' =>
    cases run with
    | here => rwa [List.append_nil]
  | atomic f k ih =>
    cases run with
    | visits rest => exact ih s (yields s) rest
  | ask q k ih =>
    cases run with
    | asks rest =>
      have next := ih _ (yields _) rest
      rwa [List.append_assoc, List.singleton_append] at next

theorem Yields.mono {post' : Told A → Except ε α → Prop} {p : Flow σ Q A ε α}
    (h : Yields post heard p) (imp : ∀ told r, post told r → post' told r) : Yields post' heard p := by
  induction p generalizing heard with
  | done r => exact imp _ _ h
  | atomic f k ih => exact fun s => ih s (h s)
  | ask q k ih => exact fun a => ih a (h a)

/-- A result comes after everything the flow was answered before. -/
theorem Yields.extends {start : Told A} {p : Flow σ Q A ε α} (before : start <+: heard)
    (h : Yields post heard p) : Yields (fun told r => start <+: told ∧ post told r) heard p := by
  induction p generalizing heard with
  | done r => exact ⟨before, h⟩
  | atomic f k ih => exact fun s => ih s before (h s)
  | ask q k ih => exact fun a => ih a (before.trans (List.prefix_append _ _)) (h a)

/-- Whatever the first flow returns, the second returns one of `post`. -/
theorem yields_bind {p : Flow σ Q A ε β} {g : β → Flow σ Q A ε α}
    (fails : ∀ e heard, post heard (.error e)) (then_ : ∀ b heard, Yields post heard (g b)) :
    Yields post heard (p >>= g) := by
  change Yields post heard (p.bind g)
  induction p generalizing heard with
  | done r =>
    cases r with
    | ok b => exact then_ b heard
    | error e => exact fails e heard
  | atomic f k ih => exact fun s => ih s
  | ask q k ih => exact fun a => ih a

/-- The first flow's results lead to results of `post`. -/
theorem yields_then {mid : Told A → Except ε β → Prop} {p : Flow σ Q A ε β} {g : β → Flow σ Q A ε α}
    (first : Yields mid heard p) (fails : ∀ e heard, mid heard (.error e) → post heard (.error e))
    (then_ : ∀ b heard, mid heard (.ok b) → Yields post heard (g b)) :
    Yields post heard (p >>= g) := by
  change Yields post heard (p.bind g)
  induction p generalizing heard with
  | done r =>
    cases r with
    | ok b => exact then_ b heard first
    | error e => exact fails e heard first
  | atomic f k ih => exact fun s => ih s (first s)
  | ask q k ih => exact fun a => ih a (first a)

theorem yields_call {q : Q} {k : A q → Flow σ Q A ε α}
    (then_ : ∀ a, Yields post (heard ++ [⟨q, a⟩]) (k a)) : Yields post heard (Flow.call q >>= k) :=
  then_

theorem yields_settled {p : Flow σ Q A ε α} (h : Yields post heard p) :
    Yields (fun told r => ∃ r', r = .ok r' ∧ post told r') heard (settled p) := by
  induction p generalizing heard with
  | done r => exact ⟨r, rfl, h⟩
  | atomic f k ih => exact fun s => ih s (h s)
  | ask q k ih => exact fun a => ih a (h a)

end Yielding

/-! ## One part of a state -/

variable [DecidableEq ι]

/-- The flow over the part at `i`. -/
def focus (i : ι) : Flow σ Q A ε α → Flow (ι → σ) Q A ε α
  | .done r => .done r
  | .atomic f k => .atomic (fun s => Function.update s i (f (s i))) fun s => focus i (k (s i))
  | .ask q k => .ask q fun a => focus i (k a)

/-- A change of the part at `i`, and of nothing else. -/
def Only (i : ι) (ok : Told A → σ → σ → Prop) (heard : Told A) (s t : ι → σ) : Prop :=
  ok heard (s i) (t i) ∧ ∀ j, j ≠ i → t j = s j

theorem heeds_focus {i : ι} {ok : Told A → σ → σ → Prop} {heard : Told A} {p : Flow σ Q A ε α}
    (h : Heeds ok heard p) : Heeds (Only i ok) heard (focus i p) := by
  induction p generalizing heard with
  | done r => trivial
  | atomic f k ih =>
    refine ⟨fun s => ⟨?_, fun j ne => Function.update_of_ne ne _ _⟩, fun s => ih (s i) (h.2 (s i))⟩
    show ok heard (s i) (Function.update s i (f (s i)) i)
    rw [Function.update_self]
    exact h.1 (s i)
  | ask q k ih => exact fun a => ih a (h a)

theorem yields_focus {i : ι} {post : Told A → Except ε α → Prop} {heard : Told A}
    {p : Flow σ Q A ε α} (h : Yields post heard p) : Yields post heard (focus i p) := by
  induction p generalizing heard with
  | done r => exact h
  | atomic f k ih => exact fun s => ih (s i) (h (s i))
  | ask q k ih => exact fun a => ih a (h a)

end Daemonseed.Lib.Solo
