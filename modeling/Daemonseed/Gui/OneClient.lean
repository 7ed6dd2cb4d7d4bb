import Mathlib.Logic.Function.Basic
import Mathlib.Logic.Function.Iterate
import Daemonseed.Gui.SingleInstance

/-! # When at most one client holds the lock

A live call's file keeps the name of the lockfile as long as no call that judged the
lockfile stale removes it. With that, one name can be held only once. -/
namespace Daemonseed.Gui.OneClient
open Daemonseed.Lib.Runs Daemonseed.Gui.SingleInstance Daemonseed.Gui.SingleInstance.World

variable {w w' : World} {a : Act} {c d p f : Nat} {ok : Bool} {phase : Phase}

/-! ## What is promised -/

/-- The call's lock is held: it returned `Ok`, its process lives and has not dropped it. -/
def Holder (w : World) (c : Nat) : Prop :=
  (∃ f, w.phase c = .holding f) ∧ w.live (w.owner c) = true

def Exclusive (w : World) : Prop := ∀ c d, Holder w c → Holder w d → c = d

/-- A lock dropped now takes no other holder's lockfile. -/
def DropsOwn (w : World) : Prop :=
  ∀ c d f, Holder w c → Holder w d → w.phase d = .holding f → w.entry = some f → d = c

/-- No live process holds the lock or is acquiring it. -/
def Quiet (w : World) : Prop :=
  ∀ c, w.live (w.owner c) = true → (w.phase c).acquiring = false ∧ ∀ f, w.phase c ≠ .holding f

/-- The id of a holder that died names no live process. -/
def Unreused (w : World) : Prop :=
  ∀ c f, w.phase c = .holding f → w.live (w.owner c) = false → w.pidAlive (w.pidOf c) = false

/-- In a quiet world a call that runs alone returns `Ok`. -/
def Recovers (w : World) : Prop :=
  Quiet w → Unreused w → ∀ c p, w.Enabled (.acquire c p) →
    ∃ n f, ((fun w => w.call c true)^[n] (w.next (.acquire c p))).phase c = .holding f

/-- The call does not remove, as a stale lockfile, the one of a live process that is stamping it
or holds it; and a lock dropped is removed. -/
def Spares (w : World) : Act → Prop
  | .call c true =>
    w.phase c = .removing →
      ∀ d f, (w.phase d).owns = some f → w.live (w.owner d) = true → w.entry ≠ some f
  | .drop _ ok => ok = true
  | _ => True

/-! ## Processes -/

theorem live_spawn {pid : UInt32} (born : p < w.processes.length) :
    (w.next (.spawn pid)).live p = w.live p := by
  unfold live
  rw [next, List.getElem?_append_left born]

theorem pidOf_spawn {pid : UInt32} (born : w.owner c < w.processes.length) :
    (w.next (.spawn pid)).pidOf c = w.pidOf c := by
  unfold pidOf
  simp only [next, List.getElem?_append_left born]

theorem live_dies : (w.next (.dies p)).live c = true → w.live c = true := by
  unfold live
  simp only [next, List.getElem?_modify]
  cases w.processes[c]? with
  | none => intro h; simp at h
  | some q =>
    intro h
    by_cases same : p = c
    · simp [same] at h
    · simpa [same] using h

theorem pidOf_dies : (w.next (.dies p)).pidOf c = w.pidOf c := by
  unfold pidOf
  simp only [next, List.getElem?_modify]
  cases w.processes[w.owner c]? with
  | none => rfl
  | some q => by_cases same : p = w.owner c <;> simp [same]

theorem live_born (h : w.live p = true) : p < w.processes.length := by
  unfold live at h
  by_contra out
  rw [List.getElem?_eq_none (Nat.not_lt.1 out)] at h
  cases h

theorem pidAlive_own (h : w.live (w.owner c) = true) : w.pidAlive (w.pidOf c) = true := by
  have born := live_born h
  unfold live at h
  unfold pidAlive pidOf
  rw [List.getElem?_eq_getElem born] at h ⊢
  exact List.any_eq_true.2 ⟨w.processes[w.owner c], List.getElem_mem born, by simpa using h⟩

/-! ## The invariant -/

/-- What holds whatever is removed. -/
structure Tracked (w : World) : Prop where
  born : ∀ c, w.phase c ≠ .idle → w.owner c < w.processes.length
  stored : ∀ f, w.entry = some f → f < w.created
  owned : ∀ c f, (w.phase c).owns = some f → f < w.created
  apart : ∀ c d f, (w.phase c).owns = some f → (w.phase d).owns = some f → c = d
  named : ∀ f pid, w.entry = some f → readPid (w.content f) = some pid →
    ∃ c, w.phase c = .holding f ∧ w.pidOf c = pid

/-- The lockfile is that of every live call that has one. -/
def Present (w : World) : Prop :=
  ∀ c f, (w.phase c).owns = some f → w.live (w.owner c) = true → w.entry = some f

theorem start_tracked (others : List Process) (leftover : Option Leftover) :
    Tracked (start others leftover) ∧ Present (start others leftover) := by
  cases leftover with
  | none => refine ⟨⟨?_, ?_, ?_, ?_, ?_⟩, ?_⟩ <;> intro <;> simp_all [start, Phase.owns]
  | some left =>
    have only {c f : Nat} (h : ((start others (some left)).phase c).owns = some f) : c = 0 ∧ f = 0 := by
      by_cases first : c = 0
      · subst first
        exact ⟨rfl, by simpa [start, Phase.owns, eq_comm] using h⟩
      · simp [start, first, Phase.owns] at h
    refine ⟨⟨?_, ?_, ?_, ?_, ?_⟩, ?_⟩
    · intro c _
      simp [start]
    · intro f here
      simp [start] at here
      simp [start, ← here]
    · intro c f own
      rw [(only own).2]
      exact Nat.one_pos
    · intro c d f own other
      rw [(only own).1, (only other).1]
    · intro f pid here reads
      have first : f = 0 := by simpa [start, eq_comm] using here
      subst first
      refine ⟨0, rfl, ?_⟩
      rcases left.stale with none_ | holder
      · exact absurd (none_.symm.trans reads) (by simp)
      · exact Option.some.inj (holder.symm.trans reads)
    · intro c f own live
      rw [(only own).2]
      rfl

/-! ## One step -/

/-- A file-system call of `acquire` turns the call, or makes, stamps or removes the lockfile. -/
theorem call_cases (ok : Bool) (busy : (w.phase c).acquiring = true) :
    (∃ phase, (w.phase c).owns = none ∧ phase.owns = none ∧ w.call c ok = w.turns c phase) ∨
    (w.phase c = .creating ∧ w.entry = none ∧ w.call c ok =
      { w.turns c (.stamping w.created) with
        entry := some w.created
        created := w.created + 1
        content := Function.update w.content w.created [] }) ∨
    (∃ f, w.phase c = .stamping f ∧ w.call c ok =
      { w.turns c (.holding f) with
        content := if ok then Function.update w.content f (pidText (w.pidOf c)) else w.content }) ∨
    (w.phase c = .removing ∧ ok = true ∧
      w.call c ok = { w.turns c .creating with entry := none }) := by
  cases now : w.phase c with
  | creating =>
    cases ok with
    | false => exact .inl ⟨.failed, rfl, rfl, by simp [call, now]⟩
    | true =>
      cases here : w.entry with
      | some f => exact .inl ⟨.opening, rfl, rfl, by simp [call, now, here]⟩
      | none => exact .inr (.inl ⟨rfl, rfl, by simp [call, now, here]⟩)
  | stamping f => exact .inr (.inr (.inl ⟨f, rfl, by simp [call, now]⟩))
  | opening =>
    cases here : w.entry with
    | some f =>
      cases ok with
      | false => exact .inl ⟨.removing, rfl, rfl, by simp [call, now, here]⟩
      | true => exact .inl ⟨.reading f, rfl, rfl, by simp [call, now, here]⟩
    | none => exact .inl ⟨.removing, rfl, rfl, by simp [call, now, here]⟩
  | reading f =>
    cases reads : if ok then readPid (w.content f) else none with
    | none => exact .inl ⟨.removing, rfl, rfl, by simp only [call, now, reads]⟩
    | some pid =>
      refine .inl ⟨if pid = w.pidOf c then .alreadyRunning else .testing pid, rfl, ?_,
        by simp only [call, now, reads]⟩
      split <;> rfl
  | testing pid =>
    refine .inl ⟨if w.pidAlive pid then .alreadyRunning else .removing, rfl, ?_,
      by simp only [call, now]⟩
    split <;> rfl
  | removing =>
    cases ok with
    | false => exact .inl ⟨.failed, rfl, rfl, by simp [call, now]⟩
    | true => exact .inr (.inr (.inr ⟨rfl, rfl, by simp [call, now]⟩))
  | idle => rw [now] at busy; cases busy
  | holding f => rw [now] at busy; cases busy
  | dropped => rw [now] at busy; cases busy
  | alreadyRunning => rw [now] at busy; cases busy
  | failed => rw [now] at busy; cases busy

theorem phase_turns : (w.turns c phase).phase d = if d = c then phase else w.phase d :=
  Function.update_apply ..

theorem owns_turns :
    ((w.turns c phase).phase d).owns = if d = c then phase.owns else (w.phase d).owns := by
  rw [phase_turns]
  split <;> rfl

theorem busy_born (tracked : Tracked w) (busy : (w.phase c).acquiring = true) :
    w.owner c < w.processes.length := by
  refine tracked.born c ?_
  intro idle
  rw [idle] at busy
  cases busy

/-- A call that owns no file and comes to own none leaves the lockfile to whom it was. -/
theorem tracked_turns (tracked : Tracked w) (present : Present w)
    (born : w.owner c < w.processes.length) (old : (w.phase c).owns = none)
    (new : phase.owns = none) : Tracked (w.turns c phase) ∧ Present (w.turns c phase) := by
  have same : ∀ d, ((w.turns c phase).phase d).owns = (w.phase d).owns := by
    intro d
    rw [owns_turns]
    split
    · rename_i own
      rw [new, own, old]
    · rfl
  refine ⟨⟨?_, tracked.stored, ?_, ?_, ?_⟩, ?_⟩
  · intro d begun
    by_cases own : d = c
    · exact own ▸ born
    · exact tracked.born d (by rwa [phase_turns, if_neg own] at begun)
  · intro d f own
    exact tracked.owned d f (same d ▸ own)
  · intro d e f own other
    exact tracked.apart d e f (same d ▸ own) (same e ▸ other)
  · intro f pid here reads
    obtain ⟨d, holds, id⟩ := tracked.named f pid here reads
    refine ⟨d, ?_, id⟩
    rw [phase_turns, if_neg]
    · exact holds
    · intro own
      rw [← own, holds] at old
      cases old
  · intro d f own live
    exact present d f (same d ▸ own) live

theorem tracked_create (tracked : Tracked w) (present : Present w)
    (born : w.owner c < w.processes.length) (absent : w.entry = none) :
    let w' := { w.turns c (.stamping w.created) with
      entry := some w.created
      created := w.created + 1
      content := Function.update w.content w.created [] }
    Tracked w' ∧ Present w' := by
  intro w'
  have owns : ∀ d f, (w'.phase d).owns = some f → d = c ∧ f = w.created ∨ d ≠ c ∧ (w.phase d).owns = some f := by
    intro d f own
    change ((w.turns c (.stamping w.created)).phase d).owns = some f at own
    rw [owns_turns] at own
    split at own
    · rename_i same
      exact .inl ⟨same, (Option.some.inj own).symm⟩
    · rename_i other
      exact .inr ⟨other, own⟩
  refine ⟨⟨?_, ?_, ?_, ?_, ?_⟩, ?_⟩
  · intro d begun
    by_cases own : d = c
    · exact own ▸ born
    · refine tracked.born d ?_
      change (w.turns c (.stamping w.created)).phase d ≠ .idle at begun
      rwa [phase_turns, if_neg own] at begun
  · intro f here
    rw [← Option.some.inj here]
    exact Nat.lt_succ_self _
  · intro d f own
    rcases owns d f own with ⟨-, e⟩ | ⟨-, old⟩
    · exact e ▸ Nat.lt_succ_self _
    · exact Nat.lt_succ_of_lt (tracked.owned d f old)
  · intro d e f own other
    rcases owns d f own with ⟨dc, new⟩ | ⟨-, old⟩
    · rcases owns e f other with ⟨ec, -⟩ | ⟨-, old'⟩
      · exact dc.trans ec.symm
      · exact absurd (tracked.owned e f old') (new ▸ Nat.lt_irrefl _)
    · rcases owns e f other with ⟨-, new⟩ | ⟨-, old'⟩
      · exact absurd (tracked.owned d f old) (new ▸ Nat.lt_irrefl _)
      · exact tracked.apart d e f old old'
  · intro f pid here reads
    have first : w.created = f := Option.some.inj here
    change readPid (Function.update w.content w.created [] f) = some pid at reads
    rw [← first, Function.update_self, readPid_nil] at reads
    cases reads
  · intro d f own live
    rcases owns d f own with ⟨-, e⟩ | ⟨other, old⟩
    · rw [e]
    · have here := present d f old live
      rw [absent] at here
      cases here

theorem tracked_stamp (tracked : Tracked w) (present : Present w) (stamps : w.phase c = .stamping f) :
    let w' := { w.turns c (.holding f) with
      content := if ok then Function.update w.content f (pidText (w.pidOf c)) else w.content }
    Tracked w' ∧ Present w' := by
  intro w'
  have owned : (w.phase c).owns = some f := by rw [stamps]; rfl
  have same : ∀ d, (w'.phase d).owns = (w.phase d).owns := by
    intro d
    change ((w.turns c (.holding f)).phase d).owns = _
    rw [owns_turns]
    split
    · rename_i own
      rw [own, owned]
      rfl
    · rfl
  refine ⟨⟨?_, tracked.stored, ?_, ?_, ?_⟩, ?_⟩
  · intro d begun
    refine tracked.born d ?_
    intro idle
    have none_ := same d
    rw [idle] at none_
    by_cases own : d = c
    · rw [own, stamps] at idle
      cases idle
    · refine begun ?_
      change (w.turns c (.holding f)).phase d = .idle
      rw [phase_turns, if_neg own, idle]
  · intro d g own
    exact tracked.owned d g (same d ▸ own)
  · intro d e g own other
    exact tracked.apart d e g (same d ▸ own) (same e ▸ other)
  · intro g pid here reads
    have holds : w'.phase c = .holding f := by
      change (w.turns c (.holding f)).phase c = _
      rw [phase_turns, if_pos rfl]
    -- what the lockfile said before, it said of another call
    have before (reads : readPid (w.content g) = some pid) :
        ∃ d, w'.phase d = .holding g ∧ w'.pidOf d = pid := by
      obtain ⟨d, holder, id⟩ := tracked.named g pid here reads
      refine ⟨d, ?_, id⟩
      change (w.turns c (.holding f)).phase d = _
      rw [phase_turns, if_neg]
      · exact holder
      · intro own
        rw [own, stamps] at holder
        cases holder
    cases ok with
    | false => exact before reads
    | true =>
      change readPid (Function.update w.content f (pidText (w.pidOf c)) g) = some pid at reads
      by_cases own : g = f
      · subst own
        rw [Function.update_self, readPid_pidText] at reads
        exact ⟨c, holds, Option.some.inj reads⟩
      · rw [Function.update_of_ne own] at reads
        exact before reads
  · intro d g own live
    exact present d g (same d ▸ own) live

/-- Without a lockfile no live call has one, and none is named. -/
theorem tracked_remove (tracked : Tracked w) (born : w.owner c < w.processes.length)
    (new : phase.owns = none)
    (spared : ∀ d f, (w.phase d).owns = some f → w.live (w.owner d) = true → d ≠ c → w.entry ≠ some f)
    (present : Present w) :
    Tracked { w.turns c phase with entry := none } ∧
      Present { w.turns c phase with entry := none } := by
  have owns : ∀ d f, ((w.turns c phase).phase d).owns = some f → d ≠ c ∧ (w.phase d).owns = some f := by
    intro d f own
    rw [owns_turns] at own
    split at own
    · rw [new] at own
      cases own
    · rename_i other
      exact ⟨other, own⟩
  refine ⟨⟨?_, fun f here => (by cases here), ?_, ?_, fun f pid here => (by cases here)⟩, ?_⟩
  · intro d begun
    by_cases own : d = c
    · exact own ▸ born
    · refine tracked.born d ?_
      change (w.turns c phase).phase d ≠ .idle at begun
      rwa [phase_turns, if_neg own] at begun
  · intro d f own
    exact tracked.owned d f (owns d f own).2
  · intro d e f own other
    exact tracked.apart d e f (owns d f own).2 (owns e f other).2
  · intro d f own live
    obtain ⟨other, old⟩ := owns d f own
    exact absurd (present d f old live) (spared d f old live other)

theorem tracked_step (tracked : Tracked w) (present : Present w) (enabled : w.Enabled a)
    (spares : Spares w a) : Tracked (w.next a) ∧ Present (w.next a) := by
  cases a with
  | spawn pid =>
    have age (c : Nat) (begun : w.phase c ≠ .idle) := tracked.born c begun
    refine ⟨⟨?_, tracked.stored, tracked.owned, tracked.apart, ?_⟩, ?_⟩
    · intro c begun
      have old := age c begun
      simp only [next, List.length_append]
      omega
    · intro f id here reads
      obtain ⟨c, holds, own⟩ := tracked.named f id here reads
      exact ⟨c, holds, (pidOf_spawn (age c (by rw [holds]; simp))).trans own⟩
    · intro c f own live
      refine present c f own ((live_spawn (age c ?_)).symm.trans live)
      intro idle
      change (w.phase c).owns = some f at own
      rw [idle] at own
      cases own
  | dies p =>
    refine ⟨⟨?_, tracked.stored, tracked.owned, tracked.apart, ?_⟩, ?_⟩
    · intro c begun
      simp only [next, List.length_modify]
      exact tracked.born c begun
    · intro f id here reads
      obtain ⟨c, holds, own⟩ := tracked.named f id here reads
      exact ⟨c, holds, pidOf_dies.trans own⟩
    · intro c f own live
      exact present c f own (live_dies live)
  | acquire c p =>
    obtain ⟨idle, live⟩ := enabled
    have owner (d : Nat) (ne : d ≠ c) : (w.next (.acquire c p)).owner d = w.owner d :=
      Function.update_of_ne ne ..
    have old (d : Nat) : (w.next (.acquire c p)).phase d = if d = c then .creating else w.phase d :=
      phase_turns
    have owns (d f : Nat) (own : ((w.next (.acquire c p)).phase d).owns = some f) :
        d ≠ c ∧ (w.phase d).owns = some f := by
      rw [old] at own
      split at own
      · cases own
      · rename_i ne
        exact ⟨ne, own⟩
    refine ⟨⟨?_, tracked.stored, ?_, ?_, ?_⟩, ?_⟩
    · intro d begun
      by_cases own : d = c
      · subst own
        show Function.update w.owner d p d < w.processes.length
        rw [Function.update_self]
        exact live_born live
      · rw [old, if_neg own] at begun
        exact owner d own ▸ tracked.born d begun
    · intro d f own
      exact tracked.owned d f (owns d f own).2
    · intro d e f own other
      exact tracked.apart d e f (owns d f own).2 (owns e f other).2
    · intro f id here reads
      obtain ⟨d, holds, own⟩ := tracked.named f id here reads
      have ne : d ≠ c := by
        intro same
        rw [same, idle] at holds
        cases holds
      refine ⟨d, by rw [old, if_neg ne, holds], ?_⟩
      unfold pidOf at own ⊢
      rw [owner d ne]
      exact own
    · intro d f own alive
      obtain ⟨ne, before⟩ := owns d f own
      rw [owner d ne] at alive
      exact present d f before alive
  | call c ok =>
    obtain ⟨busy, live⟩ := enabled
    have born := busy_born tracked busy
    change Tracked (w.call c ok) ∧ Present (w.call c ok)
    rcases call_cases ok busy with ⟨phase, old, new, e⟩ | ⟨-, absent, e⟩ | ⟨f, stamps, e⟩ |
      ⟨removes, sure, e⟩
    · exact e ▸ tracked_turns tracked present born old new
    · exact e ▸ tracked_create tracked present born absent
    · exact e ▸ tracked_stamp tracked present stamps
    · subst sure
      exact e ▸ tracked_remove tracked born rfl (fun d f own live _ => spares removes d f own live) present
  | drop c ok =>
    obtain ⟨⟨f, holds⟩, live⟩ := enabled
    have sure : ok = true := spares
    subst sure
    have own : (w.phase c).owns = some f := by rw [holds]; rfl
    refine tracked_remove tracked (tracked.born c (by rw [holds]; simp)) rfl ?_ present
    intro d g other alive ne here
    have same : f = g := Option.some.inj ((present c f own live).symm.trans here)
    exact ne (tracked.apart d c f (same ▸ other) own)

/-! ## What the invariant gives -/

theorem exclusive_of_present (tracked : Tracked w) (present : Present w) : Exclusive w := by
  rintro c d ⟨⟨f, holds⟩, live⟩ ⟨⟨g, holds'⟩, live'⟩
  have own : (w.phase c).owns = some f := by rw [holds]; rfl
  have own' : (w.phase d).owns = some g := by rw [holds']; rfl
  have same : f = g := Option.some.inj ((present c f own live).symm.trans (present d g own' live'))
  exact tracked.apart c d f own (same ▸ own')

theorem dropsOwn_of_present (tracked : Tracked w) (present : Present w) : DropsOwn w := by
  intro c d f holder other holds here
  exact exclusive_of_present tracked present d c other holder

/-- The call runs alone, for some file-system calls of its own. -/
def Alone (c : Nat) (w w' : World) : Prop := ∃ n, (fun w : World => w.call c true)^[n] w = w'

theorem Alone.step (h : Alone c (w.call c true) w') : Alone c w w' := by
  obtain ⟨n, e⟩ := h
  exact ⟨n + 1, e⟩

theorem Alone.refl (w : World) : Alone c w w := ⟨0, rfl⟩

theorem Alone.trans {v : World} (h : Alone c w w') (k : Alone c w' v) : Alone c w v := by
  obtain ⟨n, rfl⟩ := h
  obtain ⟨m, rfl⟩ := k
  exact ⟨m + n, Function.iterate_add_apply ..⟩

@[simp] theorem phase_turns_self : (w.turns c phase).phase c = phase := Function.update_self ..

@[simp] theorem turns_turns (phase' : Phase) : (w.turns c phase).turns c phase' = w.turns c phase' := by
  unfold turns
  rw [Function.update_idem]

/-- Alone, a call that finds no lockfile returns `Ok`. -/
theorem alone_absent (creating : w.phase c = .creating) (absent : w.entry = none) :
    ∃ w', Alone c w w' ∧ w'.phase c = .holding w.created := by
  have makes : w.call c true =
      { w.turns c (.stamping w.created) with
        entry := some w.created
        created := w.created + 1
        content := Function.update w.content w.created [] } := by
    simp only [call, creating, absent, if_true]
  have stamped : ((w.call c true).call c true).phase c = .holding w.created := by
    rw [makes]
    simp only [call, turns, Function.update_self]
  exact ⟨_, .step (.step (.refl _)), stamped⟩

/-- Alone, a call that finds the lockfile of a dead process removes it. -/
theorem alone_stale (creating : w.phase c = .creating) (here : w.entry = some f)
    (live : w.live (w.owner c) = true)
    (dead : ∀ pid, readPid (w.content f) = some pid → w.pidAlive pid = false) :
    ∃ w', Alone c w w' ∧ w'.phase c = .creating ∧ w'.entry = none := by
  have finds : w.call c true = w.turns c .opening := by
    simp only [call, creating, here, if_true]
  have opens : (w.turns c .opening).call c true = w.turns c (.reading f) := by
    simp only [call, phase_turns_self, turns_turns, if_true, show (w.turns c .opening).entry = some f from here]
  have removes : (w.turns c .removing).call c true = { w.turns c .creating with entry := none } := by
    simp only [call, phase_turns_self, turns_turns, if_true]
  have reads : (w.turns c (.reading f)).call c true = w.turns c .removing ∨
      ∃ pid, (w.turns c (.reading f)).call c true = w.turns c (.testing pid) ∧
        w.pidAlive pid = false := by
    cases said : readPid (w.content f) with
    | none =>
      refine .inl ?_
      simp only [call, phase_turns_self, if_true, show readPid ((w.turns c (.reading f)).content f) = none from said,
        turns_turns]
    | some pid =>
      have gone := dead pid said
      have other : ¬ pid = (w.turns c (.reading f)).pidOf c := by
        intro own
        change pid = w.pidOf c at own
        rw [own, pidAlive_own live] at gone
        cases gone
      refine .inr ⟨pid, ?_, gone⟩
      simp only [call, phase_turns_self, if_true, turns_turns, if_neg other,
        show readPid ((w.turns c (.reading f)).content f) = some pid from said]
  refine ⟨{ w.turns c .creating with entry := none }, ?_, phase_turns_self, rfl⟩
  refine .step (finds ▸ .step (opens ▸ ?_))
  rcases reads with said | ⟨pid, said, gone⟩
  · exact .step (said ▸ .step (removes ▸ .refl _))
  · have tests : (w.turns c (.testing pid)).call c true = w.turns c .removing := by
      simp only [call, phase_turns_self, turns_turns,
        show (w.turns c (.testing pid)).pidAlive pid = false from gone, Bool.false_eq_true, if_false]
    exact .step (said ▸ .step (tests ▸ .step (removes ▸ .refl _)))

theorem recovers_of_tracked (tracked : Tracked w) : Recovers w := by
  intro quiet unreused c p enabled
  have creating : (w.next (.acquire c p)).phase c = .creating := phase_turns_self
  cases here : w.entry with
  | none =>
    obtain ⟨w', ⟨n, rfl⟩, holds⟩ := alone_absent creating here
    exact ⟨n, _, holds⟩
  | some f =>
    have live : (w.next (.acquire c p)).live ((w.next (.acquire c p)).owner c) = true := by
      show w.live (Function.update w.owner c p c) = true
      rw [Function.update_self]
      exact enabled.2
    have dead : ∀ pid, readPid (w.content f) = some pid → w.pidAlive pid = false := by
      intro pid said
      obtain ⟨d, holds, rfl⟩ := tracked.named f pid here said
      refine unreused d f holds ?_
      by_contra alive
      exact (quiet d (by simpa using alive)).2 f holds
    obtain ⟨w', alone, creates, absent⟩ := alone_stale creating here live dead
    obtain ⟨w'', alone', holds⟩ := alone_absent creates absent
    obtain ⟨n, rfl⟩ := alone.trans alone'
    exact ⟨n, _, holds⟩

/-! ## A lockfile of a live call removed as stale -/

theorem call_rests (rests : (w.phase c).acquiring = false) :
    w.call c ok = w := by
  cases now : w.phase c with
  | creating => rw [now] at rests; cases rests
  | stamping f => rw [now] at rests; cases rests
  | opening => rw [now] at rests; cases rests
  | reading f => rw [now] at rests; cases rests
  | testing pid => rw [now] at rests; cases rests
  | removing => rw [now] at rests; cases rests
  | idle => simp only [call, now]
  | holding f => simp only [call, now]
  | dropped => simp only [call, now]
  | alreadyRunning => simp only [call, now]
  | failed => simp only [call, now]

/-- A file-system call moves no call but its own, and no process. -/
theorem call_frame : (∀ d, d ≠ c → (w.call c ok).phase d = w.phase d) ∧
    (w.call c ok).owner = w.owner ∧ (w.call c ok).processes = w.processes := by
  by_cases busy : (w.phase c).acquiring = true
  · rcases call_cases ok busy with ⟨_, -, -, e⟩ | ⟨-, -, e⟩ | ⟨_, -, e⟩ | ⟨-, -, e⟩
    all_goals
      rw [e]
      exact ⟨fun d ne => Function.update_of_ne ne .., rfl, rfl⟩
  · rw [call_rests (by simpa using busy)]
    exact ⟨fun _ _ => rfl, rfl, rfl⟩

theorem call_live : (w.call c ok).live ((w.call c ok).owner d) = w.live (w.owner d) := by
  unfold live
  rw [call_frame.2.1, call_frame.2.2]

/-- The call whose lockfile is gone and the one that removed it both come to hold the lock. -/
theorem removal_breaks (enabled : w.Enabled (.call c ok)) (breaks : ¬ Spares w (.call c ok)) :
    ∃ more w', Trail World.Step w (.call c ok :: more) w' ∧ ¬ Exclusive w' := by
  cases ok with
  | false => exact absurd trivial breaks
  | true =>
    unfold Spares at breaks
    push Not at breaks
    obtain ⟨removing, d, f, own, alive, here⟩ := breaks
    have live := enabled.2
    have other : d ≠ c := by
      intro same
      rw [same, removing] at own
      cases own
    -- the name is free again for the call that removed it
    have removes : w.call c true = { w.turns c .creating with entry := none } := by
      simp only [call, removing, if_true]
    have creating : (w.call c true).phase c = .creating := removes ▸ phase_turns_self
    have absent : (w.call c true).entry = none := by rw [removes]
    have creates : ((w.call c true).call c true).phase c = .stamping w.created := by
      rw [call, creating]
      simp only [if_true, absent]
      rw [removes]
      exact phase_turns_self
    have holds : (((w.call c true).call c true).call c true).phase c = .holding w.created := by
      rw [call, creates]
      exact phase_turns_self
    have still : (((w.call c true).call c true).call c true).phase d = w.phase d := by
      rw [call_frame.1 d other, call_frame.1 d other, call_frame.1 d other]
    have first : w.Step (.call c true) (w.call c true) := ⟨enabled, rfl⟩
    have second : (w.call c true).Step (.call c true) ((w.call c true).call c true) :=
      ⟨⟨by rw [creating]; rfl, call_live.trans live⟩, rfl⟩
    have third : ((w.call c true).call c true).Step (.call c true)
        (((w.call c true).call c true).call c true) :=
      ⟨⟨by rw [creates]; rfl, call_live.trans (call_live.trans live)⟩, rfl⟩
    have lives : (((w.call c true).call c true).call c true).live
        ((((w.call c true).call c true).call c true).owner d) = true :=
      call_live.trans (call_live.trans (call_live.trans alive))
    have lives' : (((w.call c true).call c true).call c true).live
        ((((w.call c true).call c true).call c true).owner c) = true :=
      call_live.trans (call_live.trans (call_live.trans live))
    cases was : w.phase d with
    | holding g =>
      refine ⟨[.call c true, .call c true], _, .cons first (.cons second (.cons third (.nil _))), ?_⟩
      intro exclusive
      exact other (exclusive d c ⟨⟨g, still.trans was⟩, lives⟩ ⟨⟨_, holds⟩, lives'⟩)
    | stamping g =>
      have fourth : (((w.call c true).call c true).call c true).Step (.call d true)
          ((((w.call c true).call c true).call c true).call d true) :=
        ⟨⟨by rw [still, was]; rfl, lives⟩, rfl⟩
      have stamped : ((((w.call c true).call c true).call c true).call d true).phase d = .holding g := by
        rw [call, still.trans was]
        exact phase_turns_self
      refine ⟨[.call c true, .call c true, .call d true], _,
        .cons first (.cons second (.cons third (.cons fourth (.nil _)))), ?_⟩
      intro exclusive
      exact other (exclusive d c ⟨⟨g, stamped⟩, call_live.trans lives⟩
        ⟨⟨_, (call_frame.1 c other.symm).trans holds⟩, call_live.trans lives'⟩)
    | idle => rw [was] at own; cases own
    | creating => rw [was] at own; cases own
    | opening => rw [was] at own; cases own
    | reading g => rw [was] at own; cases own
    | testing pid => rw [was] at own; cases own
    | removing => rw [was] at own; cases own
    | dropped => rw [was] at own; cases own
    | alreadyRunning => rw [was] at own; cases own
    | failed => rw [was] at own; cases own

/-! ## Every run -/

/-- If every step of a run spares the lockfiles of live calls, at most one lock is held in every
state reached, a lock dropped takes no other's lockfile, and a quiet root is acquired by a call
that runs alone. A call that does not spare one leads to a state where two locks are held. -/
theorem one_client {others : List Process} {leftover : Option Leftover} {acts : List Act}
    (run : Trail (fun w a w' => w.Step a w' ∧ Spares w a) (start others leftover) acts w) :
    Exclusive w ∧ DropsOwn w ∧ Recovers w ∧
      ∀ c ok, w.Enabled (.call c ok) → ¬ Spares w (.call c ok) →
        ∃ more w', Trail World.Step w (.call c ok :: more) w' ∧ ¬ Exclusive w' := by
  have step (w : World) (a : Act) (w' : World) (inv : Tracked w ∧ Present w)
      (taken : w.Step a w' ∧ Spares w a) : Tracked w' ∧ Present w' := by
    obtain ⟨⟨enabled, rfl⟩, spares⟩ := taken
    exact tracked_step inv.1 inv.2 enabled spares
  obtain ⟨tracked, present⟩ := run.invariant step (start_tracked others leftover)
  exact ⟨exclusive_of_present tracked present, dropsOwn_of_present tracked present,
    recovers_of_tracked tracked, fun c ok => removal_breaks⟩

/-- A lock acquired over the empty lockfile of a dead client, and dropped. -/
def reclaims : List Act :=
  [.acquire 1 1, .call 1 true, .call 1 true, .call 1 true, .call 1 true, .call 1 true, .call 1 true,
    .drop 1 true]

def emptyLeftover : Leftover := ⟨6, [], .inl readPid_nil⟩

def reclaimed : World := reclaims.foldl World.next (start [⟨7, true⟩] (some emptyLeftover))

theorem one_client_reclaimed : Exclusive reclaimed ∧ DropsOwn reclaimed ∧ Recovers reclaimed := by
  have run : Trail (fun w a w' => w.Step a w' ∧ Spares w a) (start [⟨7, true⟩] (some emptyLeftover))
      reclaims reclaimed := by
    refine .cons ⟨⟨⟨rfl, rfl⟩, rfl⟩, trivial⟩ (.cons ⟨⟨⟨rfl, rfl⟩, rfl⟩, fun h => ?_⟩
      (.cons ⟨⟨⟨rfl, rfl⟩, rfl⟩, fun h => ?_⟩ (.cons ⟨⟨⟨rfl, rfl⟩, rfl⟩, fun h => ?_⟩
      (.cons ⟨⟨⟨rfl, rfl⟩, rfl⟩, fun h d f owned live => ?_⟩ (.cons ⟨⟨⟨rfl, rfl⟩, rfl⟩, fun h => ?_⟩
      (.cons ⟨⟨⟨rfl, rfl⟩, rfl⟩, fun h => ?_⟩ (.cons ⟨⟨⟨⟨1, rfl⟩, rfl⟩, rfl⟩, rfl⟩ (.nil _))))))))
    · cases h
    · cases h
    · cases h
    · -- the file is the dead client's, and the call that removes it has none
      rcases d with _ | _ | d
      · cases live
      · cases owned
      · cases owned
    · cases h
    · cases h
  obtain ⟨exclusive, drops, recovers, -⟩ := one_client run
  exact ⟨exclusive, drops, recovers⟩

/-- A lockfile read between its creation and its stamp. -/
def races : List Act :=
  [.acquire 0 0, .acquire 1 1, .call 0 true, .call 1 true, .call 1 true, .call 1 true, .call 1 true,
    .call 0 true, .call 1 true, .call 1 true]

/-- Two processes hold the lock of one root. -/
theorem lock_held_twice :
    ∃ w, Trail World.Step (start [⟨7, true⟩, ⟨8, true⟩] none) races w ∧ Holder w 0 ∧ Holder w 1 ∧
      w.owner 0 ≠ w.owner 1 := by
  refine ⟨_, .cons ⟨⟨rfl, rfl⟩, rfl⟩ (.cons ⟨⟨rfl, rfl⟩, rfl⟩ (.cons ⟨⟨rfl, rfl⟩, rfl⟩
    (.cons ⟨⟨rfl, rfl⟩, rfl⟩ (.cons ⟨⟨rfl, rfl⟩, rfl⟩ (.cons ⟨⟨rfl, rfl⟩, rfl⟩ (.cons ⟨⟨rfl, rfl⟩, rfl⟩
    (.cons ⟨⟨rfl, rfl⟩, rfl⟩ (.cons ⟨⟨rfl, rfl⟩, rfl⟩ (.cons ⟨⟨rfl, rfl⟩, rfl⟩ (.nil _)))))))))), ?_⟩
  exact ⟨⟨⟨0, rfl⟩, rfl⟩, ⟨⟨1, rfl⟩, rfl⟩, by decide⟩

end Daemonseed.Gui.OneClient
