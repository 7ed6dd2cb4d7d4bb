import Daemonseed.Lib.Runs
import Mathlib

/-! # Tasks that take permits

An asynchronous computation awaits permits of counted pools and outside calls,
under timers that may cut it off, and a task may drive several computations
side by side. Where every line of a task takes its permits in rising order and
gives all of them back, no pool is ever overdrawn or drained for good, and the
tasks never wait for each other in a circle. -/
namespace Daemonseed.Lib.Permits
open Daemonseed.Lib.Runs

variable {σ R C : Type} {A : C → Type} {J α β : Type}

/-- A computation over shared maps `σ` that takes and gives back permits of the
pools `R`, awaits the calls `C` and drives the jobs `J`. -/
inductive Async (σ R C : Type) (A : C → Type) (J α : Type)
  | done (a : α)
  | visit (f : σ → σ) (k : σ → Async σ R C A J α)
  | acquire (r : R) (k : Async σ R C A J α)
  | release (r : R) (k : Async σ R C A J α)
  | call (c : C) (k : A c → Async σ R C A J α)
  /-- Drive the jobs, at most `width` of them at once. -/
  | gather (width : Nat) (jobs : List J) (k : Async σ R C A J α)
  /-- Go on with `rest`, or with `cut` where a timer goes off first. -/
  | timed (cut rest : Async σ R C A J α)

/-- A computation that drives nothing. -/
abbrev Job (σ R C : Type) (A : C → Type) (α : Type) := Async σ R C A Empty α

/-- A computation that may drive jobs. -/
abbrev Trunk (σ R C : Type) (A : C → Type) (α : Type) := Async σ R C A (Job σ R C A Unit) α

namespace Async

protected def bind : Async σ R C A J α → (α → Async σ R C A J β) → Async σ R C A J β
  | done a, g => g a
  | visit f k, g => visit f fun s => (k s).bind g
  | acquire r k, g => acquire r (k.bind g)
  | release r k, g => release r (k.bind g)
  | call c k, g => call c fun a => (k a).bind g
  | gather width jobs k, g => gather width jobs (k.bind g)
  | timed cut rest, g => timed (cut.bind g) (rest.bind g)

instance : Monad (Async σ R C A J) where
  pure := done
  bind := Async.bind

/-- Change the shared maps, and read what was there before. -/
def modify (f : σ → σ) : Async σ R C A J σ := visit f done

def await (c : C) : Async σ R C A J (A c) := call c done

/-- Hold a permit while `p` runs. -/
def holding (r : R) (p : Async σ R C A J α) : Async σ R C A J α :=
  acquire r (p >>= fun a => release r (done a))

def side (width : Nat) (jobs : List J) : Async σ R C A J Unit := gather width jobs (done ())

/-- Drop the guards that are held and answer that time ran out. -/
def dropped : List R → Job σ R C A (Option α)
  | [] => done none
  | r :: rest => release r (dropped rest)

/-- Run a job under a timer, with these guards of its own held so far. -/
def withinFrom (held : List R) : Job σ R C A α → Job σ R C A (Option α)
  | done a => done (some a)
  | visit f k => visit f fun s => (k s).withinFrom held
  | acquire r k => timed (dropped held) (acquire r (k.withinFrom (r :: held)))
  | release r k => release r (k.withinFrom held.tail)
  | call c k => timed (dropped held) (call c fun a => (k a).withinFrom held)
  | gather width jobs k => gather width jobs (k.withinFrom held)
  | timed cut rest => timed (cut.withinFrom held) (rest.withinFrom held)

/-- Run a job under a timer: `none` where it went off first. -/
def within : Job σ R C A α → Job σ R C A (Option α) := withinFrom []

/-- A job as part of a computation that may drive others. -/
def alone : Job σ R C A α → Async σ R C A J α
  | done a => done a
  | visit f k => visit f fun s => (k s).alone
  | acquire r k => acquire r k.alone
  | release r k => release r k.alone
  | call c k => call c fun a => (k a).alone
  | gather _ _ k => k.alone
  | timed cut rest => timed cut.alone rest.alone

/-- The pool whose permit a computation waits for. -/
def waits : Async σ R C A J α → Option R
  | acquire r _ => some r
  | timed _ rest => rest.waits
  | _ => none

/-- The call a computation has in flight. -/
def awaits : Async σ R C A J α → Option C
  | call c _ => some c
  | timed _ rest => rest.awaits
  | _ => none

/-- Whether a computation is driving jobs. -/
def drives : Async σ R C A J α → Bool
  | gather _ _ _ => true
  | timed _ rest => rest.drives
  | _ => false

end Async
open Async

/-! ## Permits in order -/

/-- The order permits are taken in, and which of them a call needs. -/
structure Order (R C : Type) where
  rank : R → Nat
  top : Nat
  /-- These permits cover the call. -/
  fits : List R → C → Prop
  rank_le : ∀ r, rank r ≤ top

/-- Every held permit ranks below. -/
def Order.Below (o : Order R C) (held : List R) (n : Nat) : Prop := ∀ h ∈ held, o.rank h < n

/-- A computation that holds `held` above `base`: it takes only permits that
rank above what it holds and no lower than `floor`, has only covered calls in
flight, drives jobs that are in order from a floor above what it holds, and
ends with nothing held above `base`. -/
def InOrder (o : Order R C) (job : Nat → J → Prop) (floor : Nat) (base : List R) :
    List R → Async σ R C A J α → Prop
  | held, done _ => held = []
  | held, visit _ k => ∀ s, InOrder o job floor base held (k s)
  | held, acquire r k => (floor ≤ o.rank r ∧ o.Below (held ++ base) (o.rank r)) ∧
      InOrder o job floor base (r :: held) k
  | held, release r k => ∃ rest, held = r :: rest ∧ InOrder o job floor base rest k
  | held, call c k => o.fits (held ++ base) c ∧ ∀ a, InOrder o job floor base held (k a)
  | held, gather _ jobs k => (∃ f ≤ o.top, floor ≤ f ∧ o.Below (held ++ base) f ∧ ∀ j ∈ jobs, job f j) ∧
      InOrder o job floor base held k
  | held, timed cut rest => InOrder o job floor base held cut ∧ InOrder o job floor base held rest

section Rules

variable {o : Order R C} {job : Nat → J → Prop} {floor : Nat} {base held : List R} {r : R} {c : C}

/-- A permit may be taken at this floor over this base. -/
def Order.Lets (o : Order R C) (floor : Nat) (base : List R) (r : R) : Prop :=
  floor ≤ o.rank r ∧ o.Below base (o.rank r)

@[simp] theorem below_nil {n : Nat} : o.Below [] n := by
  intro h hh
  simp at hh

theorem below_append {xs ys : List R} {n : Nat} :
    o.Below (xs ++ ys) n ↔ o.Below xs n ∧ o.Below ys n := by
  simp [Order.Below, or_imp, forall_and]

/-- A computation in order over `base` that starts with nothing above it. -/
def Tidy (o : Order R C) (job : Nat → J → Prop) (floor : Nat) (base : List R)
    (p : Async σ R C A J α) : Prop :=
  InOrder o job floor base [] p

theorem InOrder.bind {p : Async σ R C A J α} {g : α → Async σ R C A J β}
    (h : InOrder o job floor base held p) (hg : ∀ a, Tidy o job floor base (g a)) :
    InOrder o job floor base held (p.bind g) := by
  induction p generalizing held with
  | done a =>
    cases h
    exact hg a
  | visit f k ih => exact fun s => ih s (h s)
  | acquire r k ih => exact ⟨h.1, ih h.2⟩
  | release r k ih =>
    obtain ⟨rest, hr, hk⟩ := h
    exact ⟨rest, hr, ih hk⟩
  | call c k ih => exact ⟨h.1, fun a => ih a (h.2 a)⟩
  | gather width jobs k ih => exact ⟨h.1, ih h.2⟩
  | timed cut rest ihc ihr => exact ⟨ihc h.1, ihr h.2⟩

/-- Sequences. -/
theorem Tidy.bind {p : Async σ R C A J α} {g : α → Async σ R C A J β}
    (h : Tidy o job floor base p) (hg : ∀ a, Tidy o job floor base (g a)) :
    Tidy o job floor base (p >>= g) := InOrder.bind h hg

theorem tidy_pure (a : α) : Tidy o job floor base (pure a : Async σ R C A J α) := rfl

theorem tidy_modify (f : σ → σ) : Tidy o job floor base (modify f : Async σ R C A J σ) :=
  fun _ => rfl

theorem tidy_await (h : o.fits base c) :
    Tidy o job floor base (await c : Async σ R C A J (A c)) := ⟨h, fun _ => rfl⟩

/-- The base a computation runs over may be what it holds itself. -/
theorem InOrder.under {p : Async σ R C A J α} {g : α → Async σ R C A J β}
    (h : InOrder o job floor (r :: base) held p) (hg : ∀ a, InOrder o job floor base [r] (g a)) :
    InOrder o job floor base (held ++ [r]) (p.bind g) := by
  have whole : ∀ held : List R, held ++ r :: base = (held ++ [r]) ++ base := by simp
  induction p generalizing held with
  | done a =>
    cases h
    exact hg a
  | visit f k ih => exact fun s => ih s (h s)
  | acquire r' k ih => exact ⟨⟨h.1.1, whole held ▸ h.1.2⟩, ih h.2⟩
  | release r' k ih =>
    obtain ⟨rest, rfl, hk⟩ := h
    exact ⟨rest ++ [r], rfl, ih hk⟩
  | call c k ih => exact ⟨whole held ▸ h.1, fun a => ih a (h.2 a)⟩
  | gather width jobs k ih =>
    obtain ⟨⟨f, hf, hfloor, hbelow, hjobs⟩, hk⟩ := h
    exact ⟨⟨f, hf, hfloor, whole held ▸ hbelow, hjobs⟩, ih hk⟩
  | timed cut rest ihc ihr => exact ⟨ihc h.1, ihr h.2⟩

/-- **Guards.** What runs under a permit taken in order is in order, and the
permit comes back. -/
theorem Tidy.holding {p : Async σ R C A J α} (lets : o.Lets floor base r)
    (h : Tidy o job floor (r :: base) p) : Tidy o job floor base (holding r p) :=
  ⟨lets, InOrder.under h fun _ => ⟨[], rfl, rfl⟩⟩

theorem inOrder_dropped {job : Nat → Empty → Prop} (held : List R) :
    InOrder o job floor base held (dropped held : Job σ R C A (Option α)) := by
  induction held with
  | nil => rfl
  | cons r rest ih => exact ⟨rest, rfl, ih⟩

theorem InOrder.within {job : Nat → Empty → Prop} {p : Job σ R C A α}
    (h : InOrder o job floor base held p) :
    InOrder o job floor base held (p.withinFrom held) := by
  induction p generalizing held with
  | done a => exact h
  | visit f k ih => exact fun s => ih s (h s)
  | acquire r k ih => exact ⟨inOrder_dropped held, h.1, ih h.2⟩
  | release r k ih =>
    obtain ⟨rest, rfl, hk⟩ := h
    exact ⟨rest, rfl, ih hk⟩
  | call c k ih => exact ⟨inOrder_dropped held, h.1, fun a => ih a (h.2 a)⟩
  | gather width jobs k ih => exact ⟨h.1, ih h.2⟩
  | timed cut rest ihc ihr => exact ⟨ihc h.1, ihr h.2⟩

/-- **Timers.** Cutting a job off leaves it in order: the guards it held are
dropped. -/
theorem Tidy.within {job : Nat → Empty → Prop} {p : Job σ R C A α}
    (h : Tidy o job floor base p) : Tidy o job floor base p.within := InOrder.within h

theorem InOrder.alone {job' : Nat → Empty → Prop} {p : Job σ R C A α}
    (h : InOrder o job' floor base held p) :
    InOrder o job floor base held (p.alone : Async σ R C A J α) := by
  induction p generalizing held with
  | done a => exact h
  | visit f k ih => exact fun s => ih s (h s)
  | acquire r k ih => exact ⟨h.1, ih h.2⟩
  | release r k ih =>
    obtain ⟨rest, hr, hk⟩ := h
    exact ⟨rest, hr, ih hk⟩
  | call c k ih => exact ⟨h.1, fun a => ih a (h.2 a)⟩
  | gather width jobs k ih => exact ih h.2
  | timed cut rest ihc ihr => exact ⟨ihc h.1, ihr h.2⟩

theorem Tidy.alone {job' : Nat → Empty → Prop} {p : Job σ R C A α} (h : Tidy o job' floor base p) :
    Tidy o job floor base (p.alone : Async σ R C A J α) := InOrder.alone h

theorem tidy_side {width : Nat} {jobs : List J} (f : Nat) (top : f ≤ o.top) (le : floor ≤ f)
    (below : o.Below base f) (h : ∀ j ∈ jobs, job f j) :
    Tidy o job floor base (side width jobs : Async σ R C A J Unit) :=
  ⟨⟨f, top, le, below, h⟩, rfl⟩

/-! ### Computations that fail -/

theorem Tidy.bindE {ε : Type} {p : ExceptT ε (Async σ R C A J) α}
    {g : α → ExceptT ε (Async σ R C A J) β} (h : Tidy o job floor base p.run)
    (hg : ∀ a, Tidy o job floor base (g a).run) : Tidy o job floor base (p >>= g).run := by
  refine h.bind fun x => ?_
  cases x with
  | ok a => exact hg a
  | error e => exact tidy_pure _

theorem tidy_pureE {ε : Type} (a : α) :
    Tidy o job floor base (pure a : ExceptT ε (Async σ R C A J) α).run := tidy_pure _

theorem tidy_throw {ε : Type} (e : ε) :
    Tidy o job floor base (throw e : ExceptT ε (Async σ R C A J) α).run := tidy_pure _

theorem Tidy.lift {ε : Type} {p : Async σ R C A J α} (h : Tidy o job floor base p) :
    Tidy o job floor base (liftM p : ExceptT ε (Async σ R C A J) α).run :=
  h.bind fun a => tidy_pure (Except.ok a)

/-! ### What a line holds while it waits -/

theorem InOrder.waits {p : Async σ R C A J α} (h : InOrder o job floor base held p)
    (hw : p.waits = some r) : o.Lets floor (held ++ base) r := by
  induction p generalizing held with
  | acquire r' k =>
    cases hw
    exact h.1
  | timed cut rest _ ih => exact ih h.2 hw
  | _ => simp [Async.waits] at hw

theorem InOrder.awaits {p : Async σ R C A J α} (h : InOrder o job floor base held p)
    (hc : p.awaits = some c) : o.fits (held ++ base) c := by
  induction p generalizing held with
  | call c' k =>
    cases hc
    exact h.1
  | timed cut rest _ ih => exact ih h.2 hc
  | _ => simp [Async.awaits] at hc

theorem InOrder.drives {p : Async σ R C A J α} (h : InOrder o job floor base held p)
    (hd : p.drives = true) : o.Below (held ++ base) o.top := by
  induction p generalizing held with
  | gather width jobs k =>
    obtain ⟨⟨f, hf, _, hbelow, _⟩, _⟩ := h
    exact fun x hx => (hbelow x hx).trans_le hf
  | timed cut rest _ ih => exact ih h.2 hd
  | _ => simp [Async.drives] at hd

end Rules

/-! ## Tasks -/

/-- One computation under way. -/
structure Strand (σ R C : Type) (A : C → Type) (J : Type) where
  held : List R
  rest : Async σ R C A J Unit

/-- A task: its own computation, and the jobs it drives. -/
structure Task (σ R C : Type) (A : C → Type) where
  trunk : Strand σ R C A (Job σ R C A Unit)
  branches : List (Strand σ R C A Empty)

/-- The shared maps, the free permits of each pool, and the tasks. -/
structure World (σ R C : Type) (A : C → Type) where
  shared : σ
  free : R → Nat
  tasks : List (Task σ R C A)

def Task.held (t : Task σ R C A) : List R := t.trunk.held ++ t.branches.flatMap Strand.held

def World.held (W : World σ R C A) : List R := W.tasks.flatMap Task.held

def Task.calls (t : Task σ R C A) : List C :=
  t.trunk.rest.awaits.toList ++ t.branches.flatMap fun b => b.rest.awaits.toList

/-- The calls in flight. -/
def World.calls (W : World σ R C A) : List C := W.tasks.flatMap Task.calls

/-- One chain of awaits of a task, from its root to what it has reached: the
permits held along it, and what it waits for there. -/
structure Line (R C : Type) where
  held : List R
  waits : Option R
  awaits : Option C
  drives : Bool

def Task.lines (t : Task σ R C A) : List (Line R C) :=
  ⟨t.trunk.held, t.trunk.rest.waits, t.trunk.rest.awaits, t.trunk.rest.drives⟩ ::
    t.branches.map fun b => ⟨b.held ++ t.trunk.held, b.rest.waits, b.rest.awaits, b.rest.drives⟩

/-- Jobs run in order from their floor. -/
abbrev Order.Job (o : Order R C) (floor : Nat) (j : Job σ R C A Unit) : Prop :=
  Tidy o (fun _ _ => True) floor [] j

structure Task.Sound (o : Order R C) (t : Task σ R C A) : Prop where
  trunk : InOrder o o.Job 0 [] t.trunk.held t.trunk.rest
  branches : ∀ b ∈ t.branches, ∃ f ≤ o.top, o.Below t.trunk.held f ∧
    InOrder o (fun _ _ => True) f [] b.held b.rest
  driving : t.branches ≠ [] → t.trunk.rest.drives = true

/-- A task at its end holds nothing. -/
theorem Task.Sound.ended {o : Order R C} {t : Task σ R C A} (sound : t.Sound o) (done : t.trunk.rest = done ()) : t.held = [] := by
  have idle : t.branches = [] := by
    by_contra busy
    have := sound.driving busy
    simp [done, Async.drives] at this
  have trunk := sound.trunk
  rw [done] at trunk
  have none_held : t.trunk.held = [] := trunk
  simp [Task.held, idle, none_held]

section Waiting

variable {o : Order R C} {t : Task σ R C A}

/-! ### Waiting -/

/-- A line waits only for a permit that ranks above all that is held along it,
and while it drives jobs none of those is at the top. -/
theorem Task.Sound.line (sound : t.Sound o) {line : Line R C} (h : line ∈ t.lines) :
    (∀ r, line.waits = some r → o.Below line.held (o.rank r)) ∧
      (line.drives = true → o.Below line.held o.top) := by
  obtain rfl | h := List.mem_cons.1 h
  · refine ⟨?_, ?_⟩
    · intro r hw
      simpa using (sound.trunk.waits hw).2
    · intro hd
      simpa using sound.trunk.drives hd
  · obtain ⟨b, hb, rfl⟩ := List.mem_map.1 h
    obtain ⟨f, top, below, order⟩ := sound.branches b hb
    refine ⟨?_, ?_⟩
    · intro r hw
      obtain ⟨le, own⟩ := order.waits hw
      rw [List.append_nil] at own
      exact below_append.2 ⟨own, fun x hx => (below x hx).trans_le le⟩
    · intro hd
      have own := order.drives hd
      rw [List.append_nil] at own
      exact below_append.2 ⟨own, fun x hx => (below x hx).trans_le top⟩

/-- The calls along a line are covered by what is held along it. -/
theorem Task.Sound.line_awaits (sound : t.Sound o) {line : Line R C} (h : line ∈ t.lines) {c : C}
    (hc : line.awaits = some c) :
    ∃ own rest, line.held = own ++ rest ∧ o.fits own c ∧ o.Below rest o.top := by
  obtain rfl | h := List.mem_cons.1 h
  · exact ⟨t.trunk.held, [], by simp, by simpa using sound.trunk.awaits hc, below_nil⟩
  · obtain ⟨b, hb, rfl⟩ := List.mem_map.1 h
    obtain ⟨f, top, below, order⟩ := sound.branches b hb
    exact ⟨b.held, t.trunk.held, rfl, by simpa using order.awaits hc,
      fun x hx => (below x hx).trans_le top⟩

/-- Every line of a task waits: each for a permit of a pool in `blocked`, or,
where it drives jobs, for those under way. -/
def Task.Stuck (t : Task σ R C A) (blocked : R → Prop) : Prop :=
  ((∃ r, t.trunk.rest.waits = some r ∧ blocked r) ∨
    (t.trunk.rest.drives = true ∧ t.branches ≠ [])) ∧
  ∀ b ∈ t.branches, ∃ r, b.rest.waits = some r ∧ blocked r

/-- Some task of the set `D` holds a permit of the pool. -/
def World.HeldIn (W : World σ R C A) (D : Set Nat) (r : R) : Prop :=
  ∃ i ∈ D, ∃ t, W.tasks[i]? = some t ∧ r ∈ t.held

/-- The tasks of a set all wait, each for permits that tasks of the set hold. -/
def World.Deadlock (W : World σ R C A) (D : Set Nat) : Prop :=
  ∀ i ∈ D, ∃ t, W.tasks[i]? = some t ∧ t.Stuck (W.HeldIn D)

/-- A stuck task waits for something. -/
theorem Task.Stuck.waits {blocked : R → Prop} (stuck : t.Stuck blocked) : ∃ r, blocked r := by
  obtain ⟨⟨r, _, hr⟩ | ⟨_, busy⟩, branches⟩ := stuck
  · exact ⟨r, hr⟩
  · obtain ⟨b, hb⟩ := List.exists_mem_of_ne_nil _ busy
    obtain ⟨r, _, hr⟩ := branches b hb
    exact ⟨r, hr⟩

/-- A stuck task that holds a permit waits for one that ranks above it. -/
theorem Task.Stuck.above {blocked : R → Prop} (sound : t.Sound o) (stuck : t.Stuck blocked) {r : R}
    (held : r ∈ t.held) : ∃ r', blocked r' ∧ o.rank r < o.rank r' := by
  obtain ⟨trunk, branches⟩ := stuck
  obtain held | held := List.mem_append.1 held
  · obtain ⟨r', hw, hr'⟩ | ⟨_, busy⟩ := trunk
    · exact ⟨r', hr', (sound.trunk.waits hw).2 r (by simpa using held)⟩
    · obtain ⟨b, hb⟩ := List.exists_mem_of_ne_nil _ busy
      obtain ⟨r', hw, hr'⟩ := branches b hb
      obtain ⟨f, _, below, order⟩ := sound.branches b hb
      exact ⟨r', hr', (below r held).trans_le (order.waits hw).1⟩
  · obtain ⟨b, hb, held⟩ := List.mem_flatMap.1 held
    obtain ⟨r', hw, hr'⟩ := branches b hb
    obtain ⟨f, _, _, order⟩ := sound.branches b hb
    exact ⟨r', hr', (order.waits hw).2 r (by simpa using held)⟩

end Waiting

variable [DecidableEq R]

def take (r : R) (free : R → Nat) : R → Nat := fun x => if x = r then free x - 1 else free x

def give (held : List R) (free : R → Nat) : R → Nat := fun x => free x + held.count x

/-- One move of a computation. A permit is taken where one is free, and a timer
may go off at any time. -/
inductive Moves : σ → (R → Nat) → Strand σ R C A J → σ → (R → Nat) → Strand σ R C A J → Prop
  | visit {s : σ} {free : R → Nat} {held : List R} {f : σ → σ} {k : σ → Async σ R C A J Unit} :
      Moves s free ⟨held, visit f k⟩ (f s) free ⟨held, k s⟩
  | acquire {s : σ} {free : R → Nat} {held : List R} {r : R} {k : Async σ R C A J Unit}
      (some_free : 0 < free r) :
      Moves s free ⟨held, acquire r k⟩ s (take r free) ⟨r :: held, k⟩
  | release {s : σ} {free : R → Nat} {held : List R} {r : R} {k : Async σ R C A J Unit} :
      Moves s free ⟨held, release r k⟩ s (give [r] free) ⟨held.erase r, k⟩
  | call {s : σ} {free : R → Nat} {held : List R} {c : C} {k : A c → Async σ R C A J Unit}
      (a : A c) : Moves s free ⟨held, call c k⟩ s free ⟨held, k a⟩
  | cut {s : σ} {free : R → Nat} {held : List R} {cut rest : Async σ R C A J Unit} :
      Moves s free ⟨held, timed cut rest⟩ s free ⟨held, cut⟩
  | timed {s s' : σ} {free free' : R → Nat} {held : List R} {cut rest : Async σ R C A J Unit}
      {x : Strand σ R C A J} (h : Moves s free ⟨held, rest⟩ s' free' x) :
      Moves s free ⟨held, timed cut rest⟩ s' free' x

/-- One move of a task. A trunk that drives jobs starts them in order, goes on
once all of them are done, and may stop short, dropping those under way. -/
inductive Task.Moves :
    σ → (R → Nat) → Task σ R C A → σ → (R → Nat) → Task σ R C A → Prop
  | trunk {s s' : σ} {free free' : R → Nat} {t : Task σ R C A}
      {x : Strand σ R C A (Job σ R C A Unit)} (idle : t.branches = [])
      (h : Permits.Moves s free t.trunk s' free' x) :
      Moves s free t s' free' { t with trunk := x }
  | starts {s : σ} {free : R → Nat} {t : Task σ R C A} {width : Nat} {j : Job σ R C A Unit}
      {jobs : List (Job σ R C A Unit)} {k : Trunk σ R C A Unit}
      (at_ : t.trunk.rest = gather width (j :: jobs) k) (room : t.branches.length < width) :
      Moves s free t s free
        ⟨⟨t.trunk.held, gather width jobs k⟩, t.branches ++ [⟨[], j⟩]⟩
  | branch {s s' : σ} {free free' : R → Nat} {t : Task σ R C A} {l r : List (Strand σ R C A Empty)}
      {b b' : Strand σ R C A Empty} (at_ : t.branches = l ++ b :: r)
      (h : Permits.Moves s free b s' free' b') :
      Moves s free t s' free' { t with branches := l ++ b' :: r }
  | answered {s : σ} {free : R → Nat} {t : Task σ R C A} {l r : List (Strand σ R C A Empty)}
      {b : Strand σ R C A Empty} (at_ : t.branches = l ++ b :: r) (done : b.rest = done ()) :
      Moves s free t s free { t with branches := l ++ r }
  | gathered {s : σ} {free : R → Nat} {t : Task σ R C A} {width : Nat} {k : Trunk σ R C A Unit}
      (at_ : t.trunk.rest = gather width [] k) (idle : t.branches = []) :
      Moves s free t s free ⟨⟨t.trunk.held, k⟩, []⟩
  | short {s : σ} {free : R → Nat} {t : Task σ R C A} {width : Nat}
      {jobs : List (Job σ R C A Unit)} {k : Trunk σ R C A Unit}
      (at_ : t.trunk.rest = gather width jobs k) :
      Moves s free t s (give (t.branches.flatMap Strand.held) free) ⟨⟨t.trunk.held, k⟩, []⟩

inductive Event
  | begins
  | moves (i : Nat)
  | ends (i : Nat)
  | drops (i : Nat)

/-- What happens: a task that may begin does, one moves, one is at its end, or
one is dropped with the guards it holds. -/
inductive Step (may : Trunk σ R C A Unit → Prop) :
    World σ R C A → Event → World σ R C A → Prop
  | begins {W : World σ R C A} {p : Trunk σ R C A Unit} (lets : may p) :
      Step may W .begins { W with tasks := W.tasks ++ [⟨⟨[], p⟩, []⟩] }
  | moves {W : World σ R C A} {l r : List (Task σ R C A)} {t t' : Task σ R C A} {s' : σ}
      {free' : R → Nat} (at_ : W.tasks = l ++ t :: r)
      (h : Task.Moves W.shared W.free t s' free' t') :
      Step may W (.moves l.length) ⟨s', free', l ++ t' :: r⟩
  | ends {W : World σ R C A} {l r : List (Task σ R C A)} {t : Task σ R C A}
      (at_ : W.tasks = l ++ t :: r) (done : t.trunk.rest = done ()) :
      Step may W (.ends l.length) { W with tasks := l ++ r }
  | drops {W : World σ R C A} {l r : List (Task σ R C A)} {t : Task σ R C A}
      (at_ : W.tasks = l ++ t :: r) :
      Step may W (.drops l.length) { W with free := give t.held W.free, tasks := l ++ r }

/-! ## What every run keeps -/

/-- Every permit is free or held, and every task is in order. -/
structure World.Sound (o : Order R C) (cap : R → Nat) (W : World σ R C A) : Prop where
  conserved : ∀ r, W.free r + W.held.count r = cap r
  tasks : ∀ t ∈ W.tasks, t.Sound o

variable {o : Order R C} {job : Nat → J → Prop} {floor : Nat} {base : List R}

theorem Moves.conserves {s s' : σ} {free free' : R → Nat} {x y : Strand σ R C A J}
    (h : Moves s free x s' free' y) (order : InOrder o job floor base x.held x.rest) (r : R) :
    free' r + y.held.count r = free r + x.held.count r := by
  induction h with
  | @acquire _ _ r' _ some_free =>
    by_cases hr : r = r'
    · subst hr
      simp only [take, if_true, List.count_cons_self]
      omega
    · simp [take, hr, List.count_cons_of_ne (Ne.symm hr)]
  | @release _ _ r' _ =>
    obtain ⟨rest, rfl, _⟩ := order
    by_cases hr : r = r'
    · subst hr
      simp only [give, List.erase_cons_head, List.count_cons_self, List.count_nil]
      omega
    · simp [give, List.count_cons_of_ne (Ne.symm hr)]
  | timed _ ih => exact ih order.2
  | _ => rfl

theorem Moves.inOrder {s s' : σ} {free free' : R → Nat} {x y : Strand σ R C A J}
    (h : Moves s free x s' free' y) (order : InOrder o job floor base x.held x.rest) :
    InOrder o job floor base y.held y.rest := by
  induction h with
  | visit => exact order _
  | acquire => exact order.2
  | release =>
    obtain ⟨rest, rfl, hk⟩ := order
    simpa using hk
  | call a => exact order.2 a
  | cut => exact order.1
  | timed _ ih => exact ih order.2

variable {cap : R → Nat} {t t' : Task σ R C A} {W W' : World σ R C A} {s s' : σ}
  {free free' : R → Nat}

theorem Task.Moves.conserves (h : Task.Moves s free t s' free' t') (sound : t.Sound o) (r : R) :
    free' r + t'.held.count r = free r + t.held.count r := by
  cases h with
  | trunk idle h =>
    have := h.conserves sound.trunk r
    simp only [Task.held, List.count_append]
    omega
  | starts at_ room => simp [Task.held]
  | @branch _ _ _ _ l q b b' at_ h =>
    obtain ⟨f, _, _, order⟩ := sound.branches b (by simp [at_])
    have := h.conserves order r
    simp only [Task.held, at_, List.flatMap_append, List.flatMap_cons, List.count_append]
    omega
  | @answered _ _ l q b at_ done =>
    obtain ⟨f, _, _, order⟩ := sound.branches b (by simp [at_])
    rw [done] at order
    have none_held : b.held = [] := order
    simp [Task.held, at_, none_held]
  | gathered at_ idle => simp [Task.held, idle]
  | short at_ =>
    simp only [Task.held, give, List.count_append, List.flatMap_nil, List.count_nil]
    omega

theorem Task.Moves.sound (h : Task.Moves s free t s' free' t') (sound : t.Sound o) :
    t'.Sound o := by
  obtain ⟨trunk, branches, driving⟩ := sound
  cases h with
  | trunk idle h =>
    refine ⟨h.inOrder trunk, ?_, ?_⟩
    · intro b hb
      simp [idle] at hb
    · intro busy
      exact absurd idle busy
  | starts at_ room =>
    rw [at_] at trunk
    obtain ⟨⟨f, top, le, below, jobs⟩, rest⟩ := trunk
    refine ⟨⟨⟨f, top, le, below, fun j hj => jobs j (.tail _ hj)⟩, rest⟩, ?_, fun _ => rfl⟩
    intro b hb
    obtain hb | hb := List.mem_append.1 hb
    · exact branches b hb
    · obtain rfl := List.mem_singleton.1 hb
      exact ⟨f, top, (below_append.1 below).1, jobs _ (.head _)⟩
  | @branch _ _ _ _ l q b b' at_ h =>
    rw [at_] at branches driving
    refine ⟨trunk, ?_, fun _ => driving (by simp)⟩
    intro x hx
    have hx : x ∈ l ∨ x = b' ∨ x ∈ q := by simpa using hx
    obtain hx | rfl | hx := hx
    · exact branches x (by simp [hx])
    · obtain ⟨f, top, below, order⟩ := branches b (by simp)
      exact ⟨f, top, below, h.inOrder order⟩
    · exact branches x (by simp [hx])
  | @answered _ _ l q b at_ done =>
    rw [at_] at branches driving
    refine ⟨trunk, ?_, fun _ => driving (by simp)⟩
    intro x hx
    exact branches x (by simp only [List.mem_append, List.mem_cons] at hx ⊢; tauto)
  | gathered at_ idle =>
    rw [at_] at trunk
    exact ⟨trunk.2, by simp, by simp⟩
  | short at_ =>
    rw [at_] at trunk
    exact ⟨trunk.2, by simp, by simp⟩

/-- **Step lemma.** -/
theorem Step.sound {may : Trunk σ R C A Unit → Prop}
    (tidy : ∀ p, may p → Tidy o o.Job 0 [] p) {e : Event} (h : Step may W e W')
    (sound : W.Sound o cap) : W'.Sound o cap := by
  obtain ⟨conserved, tasks⟩ := sound
  cases h with
  | @begins p lets =>
    refine ⟨?_, ?_⟩
    · intro r
      simpa [World.held, Task.held] using conserved r
    · intro t ht
      obtain ht | ht := List.mem_append.1 ht
      · exact tasks t ht
      · obtain rfl := List.mem_singleton.1 ht
        exact ⟨tidy p lets, by simp, by simp⟩
  | @moves l q t t' s' free' at_ h =>
    rw [at_] at tasks
    have ht := tasks t (by simp)
    refine ⟨?_, ?_⟩
    · intro r
      have whole := conserved r
      have moved := h.conserves ht r
      simp only [World.held, at_, List.flatMap_append, List.flatMap_cons, List.count_append]
        at whole ⊢
      omega
    · intro x hx
      have hx : x ∈ l ∨ x = t' ∨ x ∈ q := by simpa using hx
      obtain hx | rfl | hx := hx
      · exact tasks x (by simp [hx])
      · exact h.sound ht
      · exact tasks x (by simp [hx])
  | @ends l q t at_ done =>
    rw [at_] at tasks
    have none_held := (tasks t (by simp)).ended done
    refine ⟨?_, ?_⟩
    · intro r
      simpa [World.held, at_, none_held] using conserved r
    · intro x hx
      exact tasks x (by simp only [List.mem_append, List.mem_cons] at hx ⊢; tauto)
  | @drops l q t at_ =>
    rw [at_] at tasks
    refine ⟨?_, ?_⟩
    · intro r
      have whole := conserved r
      simp only [World.held, at_, List.flatMap_append, List.flatMap_cons, List.count_append, give]
        at whole ⊢
      omega
    · intro x hx
      exact tasks x (by simp only [List.mem_append, List.mem_cons] at hx ⊢; tauto)

/-- No task, and every permit in its pool. -/
def World.Fresh (cap : R → Nat) (W : World σ R C A) : Prop := W.tasks = [] ∧ W.free = cap

theorem World.Fresh.sound (h : W.Fresh cap) : W.Sound o cap := by
  obtain ⟨none, free⟩ := h
  refine ⟨?_, ?_⟩
  · intro r
    simp [World.held, none, free]
  · intro t ht
    simp [none] at ht

/-- **Run lemma.** Where every task that begins is in order, every state that
is reached is sound. -/
theorem run_sound {may : Trunk σ R C A Unit → Prop} (tidy : ∀ p, may p → Tidy o o.Job 0 [] p)
    {es : List Event} (fresh : W.Fresh cap) (run : Trail (Step may) W es W') :
    W'.Sound o cap :=
  run.invariant (I := fun W => W.Sound o cap) (fun _ _ _ sound h => h.sound tidy sound)
    fresh.sound

/-! ## Budgets -/

/-- How many of these pools' permits are held. -/
def load (rs held : List R) : Nat := (rs.map fun r => held.count r).sum

@[simp] theorem load_nil (rs : List R) : load rs [] = 0 := by simp [load]

theorem load_append (rs xs ys : List R) : load rs (xs ++ ys) = load rs xs + load rs ys := by
  induction rs with
  | nil => rfl
  | cons r rs ih =>
    simp only [load, List.map_cons, List.sum_cons, List.count_append] at ih ⊢
    omega

theorem load_pos {rs held : List R} {r : R} (hr : r ∈ rs) (held_r : r ∈ held) :
    0 < load rs held :=
  (List.count_pos_iff.2 held_r).trans_le (List.le_sum_of_mem (List.mem_map_of_mem hr))

theorem load_le {rs held : List R} (h : ∀ r, held.count r ≤ cap r) :
    load rs held ≤ (rs.map cap).sum := by
  induction rs with
  | nil => exact le_rfl
  | cons r rs ih =>
    have := h r
    simp only [load, List.map_cons, List.sum_cons] at ih ⊢
    omega

section Budget

variable {K : C → Bool} {rs : List R}

/-- A call of the class is covered by a permit of these pools. -/
def Covers (o : Order R C) (K : C → Bool) (rs : List R) : Prop :=
  ∀ held c, o.fits held c → K c = true → ∃ r ∈ rs, r ∈ held

theorem InOrder.covered {held : List R} {p : Async σ R C A J α} (covers : Covers o K rs)
    (h : InOrder o job floor [] held p) : p.awaits.toList.countP K ≤ load rs held := by
  cases hc : p.awaits with
  | none => simp
  | some c =>
    cases hK : K c with
    | false => simp [hK]
    | true =>
      obtain ⟨r, hr, held_r⟩ := covers _ c (h.awaits hc) hK
      have := load_pos hr (by simpa using held_r)
      simpa [hK] using Nat.one_le_iff_ne_zero.2 this.ne'

theorem countP_flatMap_le {X : Type} (xs : List X) (calls : X → List C) (held : X → List R)
    (h : ∀ x ∈ xs, (calls x).countP K ≤ load rs (held x)) :
    (xs.flatMap calls).countP K ≤ load rs (xs.flatMap held) := by
  induction xs with
  | nil => simp
  | cons x xs ih =>
    have head := h x (.head _)
    have tail := ih fun y hy => h y (.tail _ hy)
    simp only [List.flatMap_cons, List.countP_append, load_append]
    omega

theorem Task.Sound.covered (covers : Covers o K rs) (sound : t.Sound o) :
    t.calls.countP K ≤ load rs t.held := by
  have trunk := sound.trunk.covered covers
  have branches := countP_flatMap_le (K := K) t.branches (fun b => b.rest.awaits.toList)
    Strand.held fun b hb => by
      obtain ⟨f, _, _, order⟩ := sound.branches b hb
      exact order.covered covers
  simp only [Task.calls, Task.held, List.countP_append, load_append]
  omega

/-- **Budget.** No more calls of a class are in flight than the pools that
cover it have permits. -/
theorem World.Sound.budget (covers : Covers o K rs) (sound : W.Sound o cap) :
    W.calls.countP K ≤ (rs.map cap).sum := by
  have covered := countP_flatMap_le W.tasks Task.calls Task.held fun t ht =>
    (sound.tasks t ht).covered covers
  exact covered.trans (load_le fun r => (Nat.le_add_left _ _).trans_eq (sound.conserved r))

end Budget

/-! ## No circle -/

/-- **No deadlock.** Following who holds what is waited for, the ranks rise
without end. -/
theorem World.Sound.no_deadlock (sound : W.Sound o cap) {D : Set Nat} (some_task : D.Nonempty) :
    ¬ W.Deadlock D := by
  intro dead
  have rising : ∀ n, ∃ r, W.HeldIn D r ∧ n ≤ o.rank r := by
    intro n
    induction n with
    | zero =>
      obtain ⟨i, hi⟩ := some_task
      obtain ⟨t, _, stuck⟩ := dead i hi
      obtain ⟨r, hr⟩ := stuck.waits
      exact ⟨r, hr, Nat.zero_le _⟩
    | succ n ih =>
      obtain ⟨r, ⟨i, hi, t, ht, held⟩, hn⟩ := ih
      obtain ⟨t', ht', stuck⟩ := dead i hi
      obtain rfl : t = t' := Option.some.inj (ht.symm.trans ht')
      obtain ⟨r', hr', lt⟩ := stuck.above (sound.tasks t (List.mem_of_getElem? ht)) held
      exact ⟨r', hr', hn.trans_lt lt⟩
  obtain ⟨r, _, hr⟩ := rising (o.top + 1)
  have := o.rank_le r
  omega

end Daemonseed.Lib.Permits
