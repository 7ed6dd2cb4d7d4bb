import Daemonseed.Lib.Runs
import Daemonseed.Net.WriteFunnel

/-! # What the write funnel keeps

The scheduler's state with the writes its sink is busy with, and the log of
all that has happened to each request: queued, suppressed by a tombstone,
removed by a write that replaces it, dispatched, completed. -/
namespace Daemonseed.Net.FunnelSafety
open Daemonseed.Net.WriteFunnel Daemonseed.Lib.Runs

variable {R D ρ : Type}

/-- One thing that happens to a request. -/
inductive Happened (R D ρ : Type)
  | queued (r : R) (p : Pending D ρ)
  | suppressed (req : WriteRequest R D ρ)
  | removed (r : R) (p : Pending D ρ)
  | dispatched (d : Dispatched R D ρ)
  | completed (d : Dispatched R D ρ)

structure Funnel (R D ρ : Type) where
  st : State R D ρ
  /-- The writes the sink is busy with. -/
  running : List (Dispatched R D ρ)
  log : List (Happened R D ρ)
  /-- The replies resolved `Ok` with no write. -/
  oks : List (Option ρ)

namespace Funnel

def start (cfg : SchedulerConfig) : Funnel R D ρ := ⟨.new cfg, [], [], []⟩

variable [DecidableEq R]

/-- What an enqueue does to the requests. -/
def enqueues (f : Funnel R D ρ) (now : Nat) (req : WriteRequest R D ρ) : List (Happened R D ρ) :=
  if f.st.suppresses req then [.suppressed req]
  else (f.st.dropped req).map (.removed req.record) ++ [.queued req.record (f.st.pending now req)]

def enqueue (f : Funnel R D ρ) (now : Nat) (req : WriteRequest R D ρ) : Funnel R D ρ where
  st := (f.st.enqueue now req).1
  running := f.running
  log := f.log ++ f.enqueues now req
  oks := f.oks ++ (f.st.enqueue now req).2

/-- The writes of a pass are handed to the sink. -/
def dispatches (f : Funnel R D ρ) (pass : State R D ρ × List (Dispatched R D ρ)) :
    Funnel R D ρ where
  st := pass.1
  running := f.running ++ pass.2
  log := f.log ++ pass.2.map .dispatched
  oks := f.oks

end Funnel

inductive Event (R D ρ : Type)
  | enqueue (now : Nat) (req : WriteRequest R D ρ)
  | tryDispatch (now : Nat)
  | done (d : Dispatched R D ρ) (latency : Nat) (acquireWait : Option Nat)

variable [DecidableEq R]

/-- One event. Completions come in any order. -/
inductive Steps : Funnel R D ρ → Event R D ρ → Funnel R D ρ → Prop
  | enqueue (f : Funnel R D ρ) (now : Nat) (req : WriteRequest R D ρ) :
      Steps f (.enqueue now req) (f.enqueue now req)
  | tryDispatch (f : Funnel R D ρ) (now : Nat) :
      Steps f (.tryDispatch now) (f.dispatches (f.st.tryDispatch now))
  | done {f : Funnel R D ρ} {before after : List (Dispatched R D ρ)} {d : Dispatched R D ρ}
      (busy : f.running = before ++ d :: after) (latency : Nat) (acquireWait : Option Nat) :
      Steps f (.done d latency acquireWait)
        { f with
          st := f.st.onDone ⟨d.record, d.lane, latency, acquireWait⟩
          running := before ++ after
          log := f.log ++ [.completed d] }

/-! ## Runs that can be evaluated -/

/-- A step of a run whose writes complete in the order they are dispatched. -/
inductive Move (R D ρ : Type)
  | enqueue (now : Nat) (req : WriteRequest R D ρ)
  | tryDispatch (now : Nat)
  | done

def move (f : Funnel R D ρ) : Move R D ρ → Funnel R D ρ
  | .enqueue now req => f.enqueue now req
  | .tryDispatch now => f.dispatches (f.st.tryDispatch now)
  | .done =>
    match f.running with
    | [] => f
    | d :: rest =>
      { f with
        st := f.st.onDone ⟨d.record, d.lane, 0, none⟩
        running := rest
        log := f.log ++ [.completed d] }

/-- The writes of `r` that were queued, in order. -/
def queuedOn (r : R) : List (Happened R D ρ) → List (Pending D ρ) :=
  List.filterMap fun
    | .queued r' p => if r' = r then some p else none
    | _ => none

def removedOn (r : R) : List (Happened R D ρ) → List (Pending D ρ) :=
  List.filterMap fun
    | .removed r' p => if r' = r then some p else none
    | _ => none

def dispatchedOn (r : R) : List (Happened R D ρ) → List (Pending D ρ) :=
  List.filterMap fun
    | .dispatched d => if d.record = r then some d.pending else none
    | _ => none

def completedOn (r : R) : List (Happened R D ρ) → List (Pending D ρ) :=
  List.filterMap fun
    | .completed d => if d.record = r then some d.pending else none
    | _ => none

/-- Every tombstone of `id` queued on `r` is over: its write is completed, or a
later tombstone replaced it. -/
def Settled (r : R) (id : String) (log : List (Happened R D ρ)) : Prop :=
  ∀ t ∈ queuedOn r log, t.kind = .tombstone id → t ∈ completedOn r log ∨ t ∈ removedOn r log

/-- No current-state write dispatched after a tombstone of its id was queued
was itself queued before that tombstone, and all others, were over. -/
def NoneLate (log : List (Happened R D ρ)) : Prop :=
  ∀ before after r id t d, log = before ++ .queued r t :: after → t.kind = .tombstone id →
    .dispatched d ∈ after → d.record = r → d.pending.kind = .currentState id →
      ∃ mid rest, after = mid ++ .queued r d.pending :: rest ∧
        Settled r id (before ++ .queued r t :: mid)

section

variable {r : R} {log more : List (Happened R D ρ)}

theorem queuedOn_append : queuedOn r (log ++ more) = queuedOn r log ++ queuedOn r more :=
  List.filterMap_append

theorem removedOn_append : removedOn r (log ++ more) = removedOn r log ++ removedOn r more :=
  List.filterMap_append

theorem dispatchedOn_append :
    dispatchedOn r (log ++ more) = dispatchedOn r log ++ dispatchedOn r more :=
  List.filterMap_append

theorem completedOn_append :
    completedOn r (log ++ more) = completedOn r log ++ completedOn r more :=
  List.filterMap_append

theorem mem_queuedOn {p : Pending D ρ} : p ∈ queuedOn r log ↔ .queued r p ∈ log := by
  simp only [queuedOn, List.mem_filterMap]
  constructor
  · rintro ⟨e, he, h⟩
    cases e <;> simp_all
  · exact fun h => ⟨_, h, by simp⟩

end

/-! ## The invariant -/

structure Kept (f : Funnel R D ρ) : Prop where
  single : (f.running.map (·.record)).Nodup
  inFlight : ∀ r, r ∈ f.st.inFlight ↔ ∃ d ∈ f.running, d.record = r
  tombstone : ∀ r id, f.st.inFlightTombstone r = some id ↔
    ∃ d ∈ f.running, d.record = r ∧ d.pending.kind = .tombstone id
  accounted : ∀ r, (queuedOn r f.log).Perm
    (dispatchedOn r f.log ++ (removedOn r f.log ++ f.st.queueOf r))
  seqs : ∀ r, (queuedOn r f.log).Pairwise (·.seq < ·.seq) ∧ ∀ p ∈ queuedOn r f.log, p.seq < f.st.seq
  fifo : ∀ r, (dispatchedOn r f.log ++ f.st.queueOf r).Pairwise (·.seq < ·.seq)
  busy : ∀ r, ∀ p ∈ dispatchedOn r f.log, p ∈ completedOn r f.log ∨
    ∃ d ∈ f.running, d.record = r ∧ d.pending = p
  /-- A current-state write still queued was queued with every tombstone of its
  id over, and none has been queued since. -/
  waits : ∀ r id, ∀ p ∈ f.st.queueOf r, p.kind = .currentState id →
    ∃ before after, f.log = before ++ .queued r p :: after ∧ Settled r id before ∧
      ∀ t ∈ queuedOn r after, t.kind ≠ .tombstone id
  late : NoneLate f.log

theorem kept_start (cfg : SchedulerConfig) : Kept (.start cfg : Funnel R D ρ) where
  single := .nil
  inFlight r := by simp [Funnel.start, State.new]
  tombstone r id := by simp [Funnel.start, State.new]
  accounted r := .nil
  seqs r := ⟨.nil, nofun⟩
  fifo r := .nil
  busy r := nofun
  waits r id := nofun
  late := by
    intro before after r id t d h
    simp [Funnel.start] at h

/-! ## The log grows -/

/-- The first of two entries of one list is before the second, where it is not
after it. -/
theorem split_before {α : Type} {a b x y : List α} {t q : α} (h : a ++ t :: b = x ++ q :: y)
    (ne : t ≠ q) (not_after : t ∉ y) : ∃ m, x = a ++ t :: m ∧ b = m ++ q :: y := by
  rcases List.append_eq_append_iff.1 h with ⟨m, rfl, hm⟩ | ⟨m, rfl, hm⟩
  · cases m with
    | nil =>
      rw [List.nil_append, List.cons.injEq] at hm
      exact absurd hm.1 ne
    | cons t' m =>
      rw [List.cons_append, List.cons.injEq] at hm
      exact ⟨m, by rw [hm.1], hm.2⟩
  · cases m with
    | nil =>
      rw [List.nil_append, List.cons.injEq] at hm
      exact absurd hm.1.symm ne
    | cons q' m =>
      rw [List.cons_append, List.cons.injEq] at hm
      exact absurd (hm.2 ▸ by simp) not_after

theorem NoneLate.snoc {log : List (Happened R D ρ)} (h : NoneLate log) (e : Happened R D ρ)
    (he : ∀ d id, e = .dispatched d → d.pending.kind = .currentState id →
      ∃ before after, log = before ++ .queued d.record d.pending :: after ∧
        Settled d.record id before ∧ ∀ t ∈ queuedOn d.record after, t.kind ≠ .tombstone id) :
    NoneLate (log ++ [e]) := by
  intro before after r id t d hlog ht hd hr hp
  rcases List.eq_nil_or_concat after with rfl | ⟨after, last, rfl⟩
  · cases hd
  · rw [List.concat_eq_append] at hlog hd ⊢
    rw [← List.cons_append, ← List.append_assoc] at hlog
    obtain ⟨earlier, hlast⟩ := List.append_inj' hlog rfl
    obtain rfl : e = last := by simpa using hlast
    rcases List.mem_append.1 hd with already | now
    · obtain ⟨mid, rest, rfl, settled⟩ := h before after r id t d earlier ht already hr hp
      exact ⟨mid, rest ++ [e], by simp, settled⟩
    · obtain ⟨x, y, hxy, settled, none_⟩ := he d id (List.mem_singleton.1 now).symm hp
      subst hr
      obtain ⟨mid, rfl, rfl⟩ := split_before (earlier.symm.trans hxy)
        (fun same => by
          rw [Happened.queued.injEq] at same
          rw [← same.2, ht] at hp
          cases hp)
        (fun mem => none_ t (mem_queuedOn.2 mem) ht)
      exact ⟨mid, y ++ [e], by simp, settled⟩

/-- Nothing dispatched, nothing late. -/
theorem NoneLate.append {log more : List (Happened R D ρ)} (h : NoneLate log)
    (quiet : ∀ d, .dispatched d ∉ more) : NoneLate (log ++ more) := by
  induction more generalizing log with
  | nil => rwa [List.append_nil]
  | cons e more ih =>
    have one := h.snoc e fun d _ he => absurd (he ▸ List.mem_cons_self) (quiet d)
    have := ih one fun d hd => quiet d (List.mem_cons_of_mem e hd)
    rwa [List.append_assoc] at this

/-! ## One dispatch -/

theorem Kept.dispatch {f : Funnel R D ρ} (h : Kept f) {r : R} (lane : DispatchLane)
    {p : Pending D ρ} {rest : List (Pending D ρ)} (idle : r ∉ f.st.inFlight)
    (hq : f.st.queueOf r = p :: rest) :
    Kept (f.dispatches ((f.st.dispatch r lane).1, [⟨r, lane, p⟩])) := by
  obtain ⟨queue, queues⟩ := State.dispatch_queueOf lane hq
  have free : ∀ d ∈ f.running, d.record ≠ r := fun d hd hr =>
    idle ((h.inFlight r).2 ⟨d, hd, hr⟩)
  have queued : ∀ r', queuedOn r' (f.log ++ [.dispatched ⟨r, lane, p⟩]) = queuedOn r' f.log :=
    fun r' => by simp [queuedOn]
  have removed : ∀ r', removedOn r' (f.log ++ [.dispatched ⟨r, lane, p⟩]) = removedOn r' f.log :=
    fun r' => by simp [removedOn]
  have completed : ∀ r', completedOn r' (f.log ++ [.dispatched ⟨r, lane, p⟩]) =
      completedOn r' f.log := fun r' => by simp [completedOn]
  have dispatched : ∀ r', dispatchedOn r' (f.log ++ [.dispatched ⟨r, lane, p⟩]) =
      dispatchedOn r' f.log ++ if r = r' then [p] else [] := fun r' => by
    by_cases hr : r = r' <;> simp [dispatchedOn, hr]
  constructor
  · simp only [Funnel.dispatches, List.map_append, List.map_cons, List.map_nil]
    refine List.nodup_append.2 ⟨h.single, by simp, ?_⟩
    rintro a ha b hb rfl
    obtain ⟨d, hd, rfl⟩ := List.mem_map.1 ha
    exact free d hd (List.mem_singleton.1 hb)
  · intro r'
    simp only [Funnel.dispatches, State.dispatch_inFlight hq, Finset.mem_insert, h.inFlight,
      List.mem_append, List.mem_singleton]
    constructor
    · rintro (rfl | ⟨d, hd, hr⟩)
      · exact ⟨_, .inr rfl, rfl⟩
      · exact ⟨d, .inl hd, hr⟩
    · rintro ⟨d, hd | rfl, hr⟩
      · exact .inr ⟨d, hd, hr⟩
      · exact .inl hr.symm
  · intro r' id
    simp only [Funnel.dispatches, State.dispatch_tombstone hq, List.mem_append,
      List.mem_singleton]
    by_cases hr : r' = r
    · subst hr
      have quiet : ∀ id, f.st.inFlightTombstone r' ≠ some id := fun id hid => by
        obtain ⟨d, hd, hr, -⟩ := (h.tombstone r' id).1 hid
        exact free d hd hr
      rw [if_pos rfl]
      constructor
      · intro hid
        refine ⟨_, .inr rfl, rfl, ?_⟩
        cases hk : p.kind with
        | tombstone id' => simpa [hk] using hid
        | ring => exact absurd (by simpa [hk] using hid) (quiet id)
        | currentState _ => exact absurd (by simpa [hk] using hid) (quiet id)
      · rintro ⟨d, hd | rfl, hr, hk⟩
        · exact absurd hr (free d hd)
        · simp only at hk
          simp [hk]
    · rw [if_neg hr, h.tombstone]
      constructor
      · rintro ⟨d, hd, hk⟩
        exact ⟨d, .inl hd, hk⟩
      · rintro ⟨d, hd | rfl, hr', hk⟩
        · exact ⟨d, hd, hr', hk⟩
        · exact absurd hr'.symm hr
  · intro r'
    simp only [Funnel.dispatches, List.map_cons, List.map_nil, queued, removed, dispatched]
    by_cases hr : r = r'
    · subst hr
      rw [if_pos rfl, queue]
      refine (h.accounted r).trans ?_
      rw [hq, List.append_assoc]
      exact List.Perm.append_left _ List.perm_middle
    · rw [if_neg hr, queues r' (Ne.symm hr), List.append_nil]
      exact h.accounted r'
  · intro r'
    simp only [Funnel.dispatches, List.map_cons, List.map_nil, queued, State.dispatch_seq]
    exact h.seqs r'
  · intro r'
    simp only [Funnel.dispatches, List.map_cons, List.map_nil, dispatched]
    by_cases hr : r = r'
    · subst hr
      rw [if_pos rfl, queue, List.append_assoc, List.singleton_append, ← hq]
      exact h.fifo r
    · rw [if_neg hr, queues r' (Ne.symm hr), List.append_nil]
      exact h.fifo r'
  · intro r' p' hp'
    simp only [Funnel.dispatches, List.map_cons, List.map_nil, dispatched, completed] at hp' ⊢
    rcases List.mem_append.1 hp' with before | now
    · rcases h.busy r' p' before with done | ⟨d, hd, hr, hp⟩
      · exact .inl done
      · exact .inr ⟨d, List.mem_append_left _ hd, hr, hp⟩
    · by_cases hr : r = r'
      · rw [if_pos hr, List.mem_singleton] at now
        exact .inr ⟨⟨r, lane, p⟩, by simp, hr, now.symm⟩
      · simp [hr] at now
  · intro r' id p' hp' hk
    have still : p' ∈ f.st.queueOf r' := by
      by_cases hr : r' = r
      · subst hr
        rw [hq]
        exact List.mem_cons_of_mem _ (queue ▸ hp')
      · exact queues r' hr ▸ hp'
    obtain ⟨before, after, hlog, settled, none_⟩ := h.waits r' id p' still hk
    refine ⟨before, after ++ [.dispatched ⟨r, lane, p⟩], by simp [Funnel.dispatches, hlog], settled,
      fun t ht => none_ t ?_⟩
    rw [queuedOn_append] at ht
    simpa [queuedOn] using ht
  · exact h.late.snoc _ fun d id hd hk => by
      cases hd
      exact h.waits r id p (by rw [hq]; exact List.mem_cons_self) hk

omit [DecidableEq R] in
theorem dispatches_nil (f : Funnel R D ρ) : f.dispatches (f.st, []) = f := by
  simp [Funnel.dispatches]

omit [DecidableEq R] in
theorem dispatches_dispatches (f : Funnel R D ρ) (pass later : State R D ρ × List (Dispatched R D ρ)) :
    (f.dispatches pass).dispatches later = f.dispatches (later.1, pass.2 ++ later.2) := by
  simp [Funnel.dispatches]

/-- **Loop rule.** What each dispatch of a pass keeps, the pass keeps. -/
theorem passLoop_keeps {I : Funnel R D ρ → Prop} {pick : State R D ρ → Option (R × DispatchLane)}
    (ready : ∀ st r lane, pick st = some (r, lane) → st.Ready r)
    (one : ∀ f r lane p rest, I f → pick f.st = some (r, lane) → r ∉ f.st.inFlight →
      f.st.queueOf r = p :: rest → I (f.dispatches ((f.st.dispatch r lane).1, [⟨r, lane, p⟩])))
    (fuel : Nat) {f : Funnel R D ρ} (h : I f) :
    I (f.dispatches (State.passLoop pick fuel f.st)) := by
  induction fuel generalizing f with
  | zero => rwa [State.passLoop, dispatches_nil]
  | succ fuel ih =>
    unfold State.passLoop
    cases hn : pick f.st with
    | none => rwa [dispatches_nil]
    | some x =>
      obtain ⟨r, lane⟩ := x
      obtain ⟨idle, p, rest, hq⟩ := ready f.st r lane hn
      have later := ih (one f r lane p rest h hn idle hq)
      rw [dispatches_dispatches] at later
      dsimp only
      rw [State.dispatch_dispatched hq]
      exact later

theorem loop_keeps {I : Funnel R D ρ → Prop} {now : Nat}
    (one : ∀ f r lane p rest, I f → f.st.next now = some (r, lane) → r ∉ f.st.inFlight →
      f.st.queueOf r = p :: rest → I (f.dispatches ((f.st.dispatch r lane).1, [⟨r, lane, p⟩])))
    (fuel : Nat) {f : Funnel R D ρ} (h : I f) :
    I (f.dispatches (State.dispatchLoop now fuel f.st)) := by
  rw [State.dispatchLoop_eq]
  exact passLoop_keeps (fun _ _ _ => State.next_ready) one fuel h

/-- A whole pass keeps it, one dispatch after another. -/
theorem Kept.loop {f : Funnel R D ρ} (h : Kept f) (now fuel : Nat) :
    Kept (f.dispatches (State.dispatchLoop now fuel f.st)) :=
  loop_keeps (fun _ _ lane _ _ kept _ idle hq => kept.dispatch lane idle hq) fuel h

/-! ## One enqueue -/

/-- A tombstone of an id with none queued and none in flight is over. -/
theorem Kept.settled {f : Funnel R D ρ} (h : Kept f) {r : R} {id : String}
    (free : f.st.dominated r id = false) : Settled r id f.log := by
  simp only [State.dominated, Bool.or_eq_false_iff, List.any_eq_false, decide_eq_true_eq,
    decide_eq_false_iff_not] at free
  obtain ⟨notQueued, notRunning⟩ := free
  intro t ht hk
  rcases List.mem_append.1 ((h.accounted r).mem_iff.1 ht) with dispatched | rest
  · rcases h.busy r t dispatched with done | ⟨d, hd, hr, rfl⟩
    · exact .inl done
    · exact absurd ((h.tombstone r id).2 ⟨d, hd, hr, hk⟩) notRunning
  · rcases List.mem_append.1 rest with removed | queued
    · exact .inr removed
    · exact absurd hk (notQueued t queued)

theorem Kept.suppress {f : Funnel R D ρ} (h : Kept f) (req : WriteRequest R D ρ)
    (oks : List (Option ρ)) :
    Kept { f with
      st := { f.st with queues := f.st.queues.insert req.record (f.st.queueOf req.record) }
      log := f.log ++ [.suppressed req], oks } := by
  have queues : ∀ r, State.queueOf { f.st with
      queues := f.st.queues.insert req.record (f.st.queueOf req.record) } r = f.st.queueOf r :=
    fun r => by
      by_cases hr : r = req.record
      · subst hr
        exact State.queueOf_insert_self _
      · exact State.queueOf_insert_other _ hr
  constructor
  · exact h.single
  · exact h.inFlight
  · exact h.tombstone
  · intro r
    rw [queues]
    simpa [queuedOn, removedOn, dispatchedOn] using h.accounted r
  · intro r
    simpa [queuedOn] using h.seqs r
  · intro r
    rw [queues]
    simpa [dispatchedOn] using h.fifo r
  · intro r p hp
    simpa [completedOn] using h.busy r p (by simpa [dispatchedOn] using hp)
  · intro r id p hp hk
    rw [queues] at hp
    obtain ⟨before, after, hlog, settled, none_⟩ := h.waits r id p hp hk
    refine ⟨before, after ++ [.suppressed req], by simp [hlog], settled, fun t ht => none_ t ?_⟩
    simpa [queuedOn] using ht
  · exact h.late.append (by simp)

/-- What an enqueue that is not suppressed writes to the log. -/
def Funnel.replaces (f : Funnel R D ρ) (now : Nat) (req : WriteRequest R D ρ) :
    List (Happened R D ρ) :=
  (f.st.dropped req).map (.removed req.record) ++ [.queued req.record (f.st.pending now req)]

theorem replaces_queuedOn (f : Funnel R D ρ) (now : Nat) (req : WriteRequest R D ρ) (r : R) :
    queuedOn r (f.replaces now req) = if req.record = r then [f.st.pending now req] else [] := by
  by_cases hr : req.record = r <;>
    simp [Funnel.replaces, queuedOn, hr, List.filterMap_append, List.filterMap_map]

theorem replaces_removedOn (f : Funnel R D ρ) (now : Nat) (req : WriteRequest R D ρ) (r : R) :
    removedOn r (f.replaces now req) = if req.record = r then f.st.dropped req else [] := by
  by_cases hr : req.record = r <;>
    simp [Funnel.replaces, removedOn, hr, List.filterMap_append, List.filterMap_map]

theorem replaces_dispatchedOn (f : Funnel R D ρ) (now : Nat) (req : WriteRequest R D ρ) (r : R) :
    dispatchedOn r (f.replaces now req) = [] := by
  simp [Funnel.replaces, dispatchedOn, List.filterMap_append, List.filterMap_map]

theorem replaces_completedOn (f : Funnel R D ρ) (now : Nat) (req : WriteRequest R D ρ) (r : R) :
    completedOn r (f.replaces now req) = [] := by
  simp [Funnel.replaces, completedOn, List.filterMap_append, List.filterMap_map]

/-- What is kept and what is dropped is all there was. -/
theorem kept_dropped (st : State R D ρ) (req : WriteRequest R D ρ) :
    (st.queueOf req.record).Perm (st.dropped req ++ st.kept req) :=
  (List.filter_append_perm (fun p : Pending D ρ => req.kind.supersedes p.kind) _).symm

theorem Kept.queue {f : Funnel R D ρ} (h : Kept f) (now : Nat) (req : WriteRequest R D ρ)
    (free : f.st.suppresses req = false) (oks : List (Option ρ)) :
    Kept { f with
      st := { f.st with
        queues := f.st.queues.insert req.record (f.st.kept req ++ [f.st.pending now req])
        seq := f.st.seq + 1 }
      log := f.log ++ f.replaces now req, oks } := by
  have self : State.queueOf { f.st with
      queues := f.st.queues.insert req.record (f.st.kept req ++ [f.st.pending now req])
      seq := f.st.seq + 1 } req.record = f.st.kept req ++ [f.st.pending now req] :=
    State.queueOf_insert_self _
  have others : ∀ r ≠ req.record, State.queueOf { f.st with
      queues := f.st.queues.insert req.record (f.st.kept req ++ [f.st.pending now req])
      seq := f.st.seq + 1 } r = f.st.queueOf r := fun r hr => State.queueOf_insert_other _ hr
  have inQueue : ∀ p ∈ f.st.kept req, p ∈ f.st.queueOf req.record := fun p hp =>
    List.mem_of_mem_filter hp
  have known : ∀ p, p ∈ dispatchedOn req.record f.log ++ f.st.kept req → p.seq < f.st.seq := by
    intro p hp
    refine (h.seqs req.record).2 p ((h.accounted req.record).mem_iff.2 ?_)
    rcases List.mem_append.1 hp with hp | hp
    · exact List.mem_append_left _ hp
    · exact List.mem_append_right _ (List.mem_append_right _ (inQueue p hp))
  constructor
  · exact h.single
  · exact h.inFlight
  · exact h.tombstone
  · intro r
    simp only [queuedOn_append, removedOn_append, dispatchedOn_append, replaces_queuedOn,
      replaces_removedOn, replaces_dispatchedOn, List.append_nil]
    by_cases hr : req.record = r
    · subst hr
      rw [if_pos rfl, if_pos rfl, self]
      have counted := (h.accounted req.record).append_right [f.st.pending now req]
      refine counted.trans ?_
      have split := kept_dropped f.st req
      rw [List.append_assoc, List.append_assoc, List.append_assoc]
      refine (List.Perm.append_left _ (List.Perm.append_left _ ?_))
      rw [← List.append_assoc]
      exact split.append_right _
    · rw [if_neg hr, if_neg hr, others r (Ne.symm hr), List.append_nil, List.append_nil]
      exact h.accounted r
  · intro r
    rw [queuedOn_append, replaces_queuedOn]
    obtain ⟨sorted, below⟩ := h.seqs r
    by_cases hr : req.record = r
    · rw [if_pos hr]
      refine ⟨List.pairwise_append.2 ⟨sorted, by simp, fun p hp q hq => ?_⟩, fun p hp => ?_⟩
      · rw [List.mem_singleton.1 hq]
        exact below p hp
      · rcases List.mem_append.1 hp with hp | hp
        · exact Nat.lt_succ_of_lt (below p hp)
        · rw [List.mem_singleton.1 hp]
          exact Nat.lt_succ_self _
    · rw [if_neg hr, List.append_nil]
      exact ⟨sorted, fun p hp => Nat.lt_succ_of_lt (below p hp)⟩
  · intro r
    simp only [dispatchedOn_append, replaces_dispatchedOn, List.append_nil]
    by_cases hr : r = req.record
    · subst hr
      rw [self, ← List.append_assoc]
      have sub : (dispatchedOn req.record f.log ++ f.st.kept req).Sublist
          (dispatchedOn req.record f.log ++ f.st.queueOf req.record) :=
        List.filter_sublist.append_left _
      refine List.pairwise_append.2 ⟨(h.fifo req.record).sublist sub, by simp, fun p hp q hq => ?_⟩
      rw [List.mem_singleton.1 hq]
      exact known p hp
    · rw [others r hr]
      exact h.fifo r
  · intro r p hp
    simp only [dispatchedOn_append, replaces_dispatchedOn, List.append_nil, completedOn_append,
      replaces_completedOn] at hp ⊢
    exact h.busy r p hp
  · intro r id p hp hk
    -- a write kept waits as before: a tombstone of its id would have dropped it
    have older : p ∈ f.st.queueOf r → (req.record = r → req.kind.supersedes p.kind = false) →
        ∃ before after, f.log ++ f.replaces now req = before ++ .queued r p :: after ∧
          Settled r id before ∧ ∀ t ∈ queuedOn r after, t.kind ≠ .tombstone id := by
      intro hq stays
      obtain ⟨before, after, hlog, settled, none_⟩ := h.waits r id p hq hk
      refine ⟨before, after ++ f.replaces now req, by simp [hlog], settled, fun t ht => ?_⟩
      rw [queuedOn_append, replaces_queuedOn] at ht
      rcases List.mem_append.1 ht with ht | ht
      · exact none_ t ht
      · by_cases hr : req.record = r
        · rw [if_pos hr, List.mem_singleton] at ht
          rintro htk
          rw [ht] at htk
          have kind : req.kind = .tombstone id := htk
          have := stays hr
          simp [kind, WriteKind.supersedes, hk, WriteKind.logicalId] at this
        · simp [hr] at ht
    by_cases hr : r = req.record
    · subst hr
      rw [self] at hp
      rcases List.mem_append.1 hp with hp | hp
      · exact older (inQueue p hp) fun _ => by simpa using (List.mem_filter.1 hp).2
      · obtain rfl := List.mem_singleton.1 hp
        have clear : f.st.dominated req.record id = false := by
          by_contra dom
          exact absurd (State.suppresses_iff.2 ⟨id, hk, Bool.not_eq_false _ ▸ dom⟩) (by simp [free])
        refine ⟨f.log ++ (f.st.dropped req).map (.removed req.record), [],
          by simp [Funnel.replaces], ?_, fun t ht => by simp [queuedOn] at ht⟩
        intro t ht htk
        rw [queuedOn_append] at ht
        have : t ∈ queuedOn req.record f.log := by
          simpa [queuedOn, List.filterMap_map, Function.comp_def] using ht
        rw [completedOn_append, removedOn_append]
        rcases h.settled clear t this htk with done | removed
        · exact .inl (List.mem_append_left _ done)
        · exact .inr (List.mem_append_left _ removed)
    · exact older (others r hr ▸ hp) fun h => absurd h.symm hr
  · exact h.late.append (by simp [Funnel.replaces])

theorem Kept.enqueue {f : Funnel R D ρ} (h : Kept f) (now : Nat) (req : WriteRequest R D ρ) :
    Kept (f.enqueue now req) := by
  unfold Funnel.enqueue Funnel.enqueues State.enqueue
  cases hs : f.st.suppresses req with
  | true => exact h.suppress req _
  | false => exact h.queue now req hs _

/-! ## One completion -/

theorem Kept.done {f : Funnel R D ρ} (h : Kept f) {before after : List (Dispatched R D ρ)}
    {d : Dispatched R D ρ} (busy : f.running = before ++ d :: after) (latency : Nat)
    (acquireWait : Option Nat) :
    Kept { f with
      st := f.st.onDone ⟨d.record, d.lane, latency, acquireWait⟩
      running := before ++ after
      log := f.log ++ [.completed d] } := by
  have queues : ∀ r, (f.st.onDone ⟨d.record, d.lane, latency, acquireWait⟩).queueOf r =
      f.st.queueOf r := fun _ => rfl
  have single := h.single
  rw [busy] at single
  -- no other write of the record is in flight
  have alone : ∀ d' ∈ before ++ after, d'.record ≠ d.record := by
    intro d' hd' hr
    simp only [List.map_append, List.map_cons] at single
    have := (List.nodup_middle.1 single).notMem
    rw [← List.map_append] at this
    exact this (List.mem_map.2 ⟨d', hd', hr⟩)
  have busyOf : ∀ d' ∈ f.running, d' = d ∨ d' ∈ before ++ after := by
    intro d' hd'
    rw [busy] at hd'
    simp only [List.mem_append, List.mem_cons] at hd' ⊢
    tauto
  have still : ∀ d' ∈ before ++ after, d' ∈ f.running := by
    intro d' hd'
    rw [busy]
    simp only [List.mem_append, List.mem_cons] at hd' ⊢
    tauto
  have queued : ∀ r, queuedOn r (f.log ++ [.completed d]) = queuedOn r f.log :=
    fun r => by simp [queuedOn]
  have removed : ∀ r, removedOn r (f.log ++ [.completed d]) = removedOn r f.log :=
    fun r => by simp [removedOn]
  have dispatched : ∀ r, dispatchedOn r (f.log ++ [.completed d]) = dispatchedOn r f.log :=
    fun r => by simp [dispatchedOn]
  constructor
  · simp only [List.map_append, List.map_cons] at single ⊢
    exact (List.nodup_middle.1 single).of_cons
  · intro r
    simp only [State.onDone, Finset.mem_erase, h.inFlight]
    constructor
    · rintro ⟨hr, d', hd', rfl⟩
      rcases busyOf d' hd' with rfl | hd'
      · exact absurd rfl hr
      · exact ⟨d', hd', rfl⟩
    · rintro ⟨d', hd', rfl⟩
      exact ⟨alone d' hd', d', still d' hd', rfl⟩
  · intro r id
    simp only [State.onDone]
    by_cases hr : r = d.record
    · subst hr
      rw [Function.update_self]
      simp only [reduceCtorEq, false_iff]
      rintro ⟨d', hd', hr, -⟩
      exact alone d' hd' hr
    · rw [Function.update_of_ne hr, h.tombstone]
      constructor
      · rintro ⟨d', hd', hr', hk⟩
        rcases busyOf d' hd' with rfl | hd'
        · exact absurd hr'.symm hr
        · exact ⟨d', hd', hr', hk⟩
      · rintro ⟨d', hd', hr', hk⟩
        exact ⟨d', still d' hd', hr', hk⟩
  · intro r
    rw [queues, queued, removed, dispatched]
    exact h.accounted r
  · intro r
    rw [queued]
    exact h.seqs r
  · intro r
    rw [queues, dispatched]
    exact h.fifo r
  · intro r p hp
    rw [dispatched] at hp
    rw [completedOn_append]
    rcases h.busy r p hp with done | ⟨d', hd', rfl, rfl⟩
    · exact .inl (List.mem_append_left _ done)
    · rcases busyOf d' hd' with rfl | hd'
      · exact .inl (List.mem_append_right _ (by simp [completedOn]))
      · exact .inr ⟨d', hd', rfl, rfl⟩
  · intro r id p hp hk
    obtain ⟨b, a, hlog, settled, none_⟩ := h.waits r id p hp hk
    refine ⟨b, a ++ [.completed d], by simp [hlog], settled, fun t ht => none_ t ?_⟩
    simpa [queuedOn] using ht
  · exact h.late.append (by simp)

theorem Kept.step {f f' : Funnel R D ρ} {e : Event R D ρ} (h : Kept f) (step : Steps f e f') :
    Kept f' := by
  cases step with
  | enqueue now req => exact h.enqueue now req
  | tryDispatch now => exact h.loop now _
  | done busy latency acquireWait => exact h.done busy latency acquireWait

/-! ## The lanes -/

/-- Each lane counts the writes that drew it. -/
structure Lanes (f : Funnel R D ρ) : Prop where
  window : f.st.windowInFlight = f.running.countP (·.lane = .window)
  floor : f.st.floorInFlight = f.running.countP (·.lane = .floor)

theorem Lanes.dispatch {f : Funnel R D ρ} (h : Lanes f) {r : R} (lane : DispatchLane)
    {p : Pending D ρ} {rest : List (Pending D ρ)} (hq : f.st.queueOf r = p :: rest) :
    Lanes (f.dispatches ((f.st.dispatch r lane).1, [⟨r, lane, p⟩])) := by
  obtain ⟨window, floor⟩ := State.dispatch_lanes lane hq
  refine ⟨?_, ?_⟩
  · simp only [Funnel.dispatches, window, h.window, List.countP_append,
      List.countP_singleton, decide_eq_true_eq]
  · simp only [Funnel.dispatches, floor, h.floor, List.countP_append,
      List.countP_singleton, decide_eq_true_eq]

theorem Lanes.loop {f : Funnel R D ρ} (h : Lanes f) (now fuel : Nat) :
    Lanes (f.dispatches (State.dispatchLoop now fuel f.st)) :=
  loop_keeps (fun _ _ lane _ _ lanes _ _ hq => lanes.dispatch lane hq) fuel h

theorem Lanes.step {f f' : Funnel R D ρ} {e : Event R D ρ} (h : Lanes f) (step : Steps f e f') :
    Lanes f' := by
  cases step with
  | enqueue now req =>
    unfold Funnel.enqueue State.enqueue
    split <;> exact ⟨h.window, h.floor⟩
  | tryDispatch now => exact h.loop now _
  | @done before after d busy latency acquireWait =>
    obtain ⟨window, floor⟩ := h
    rw [busy] at window floor
    simp only [List.countP_append, List.countP_cons, decide_eq_true_eq] at window floor
    refine ⟨?_, ?_⟩ <;> simp only [State.onDone, List.countP_append] <;> split <;> simp_all

/-! ## What each request is told -/

/-- What a request asks for; its class is what coalescing may promote. -/
structure Asked (R D ρ : Type) where
  record : R
  kind : WriteKind
  deadline : Option Nat
  item : D
  reply : Option ρ

def asks : Event R D ρ → Option (Asked R D ρ)
  | .enqueue _ req => some ⟨req.record, req.kind, req.deadline, req.item, req.reply⟩
  | _ => none

/-- The request an entry takes up: it is queued or it is suppressed. -/
def takesUp : Happened R D ρ → Option (Asked R D ρ)
  | .queued r p => some ⟨r, p.kind, p.deadline, p.item, p.reply⟩
  | .suppressed req => some ⟨req.record, req.kind, req.deadline, req.item, req.reply⟩
  | _ => none

/-- The reply an entry resolves `Ok` without a write. -/
def resolves : Happened R D ρ → Option (Option ρ)
  | .suppressed req => some req.reply
  | .removed _ p => some p.reply
  | _ => none

/-- What one event adds to the log: it takes up the request it enqueues,
resolves what it removes or suppresses, and leaves for each of these a write
that replaces it. -/
structure Adds (f : Funnel R D ρ) (e : Event R D ρ) (f' : Funnel R D ρ)
    (new : List (Happened R D ρ)) : Prop where
  log : f'.log = f.log ++ new
  takesUp : new.filterMap takesUp = (asks e).toList
  resolves : f'.oks = f.oks ++ new.filterMap resolves
  removed : ∀ r p, .removed r p ∈ new → p.kind ≠ .ring ∧ ∃ p' ∈ f'.st.queueOf r, p.seq < p'.seq ∧
    p'.kind.logicalId = p.kind.logicalId ∧ p'.kind.supersedes p.kind = true
  suppressed : ∀ req, .suppressed req ∈ new → ∃ id, req.kind = .currentState id ∧
    ((∃ p ∈ f'.st.queueOf req.record, p.kind = .tombstone id) ∨
      ∃ d ∈ f'.running, d.record = req.record ∧ d.pending.kind = .tombstone id)

theorem supersedes_logicalId {new old : WriteKind} (h : new.supersedes old = true) :
    new.logicalId = old.logicalId ∧ old ≠ .ring := by
  cases new <;> cases old <;> simp_all [WriteKind.supersedes, WriteKind.logicalId]

theorem Kept.adds_suppressed {f : Funnel R D ρ} (h : Kept f) (now : Nat) {req : WriteRequest R D ρ}
    (hs : f.st.suppresses req = true) :
    Adds f (.enqueue now req) (f.enqueue now req) [.suppressed req] := by
  obtain ⟨id, kind, dom⟩ := State.suppresses_iff.1 hs
  have queue : (f.enqueue now req).st.queueOf req.record = f.st.queueOf req.record :=
    State.enqueue_suppressed now hs
  refine ⟨by simp [Funnel.enqueue, Funnel.enqueues, hs], rfl,
    by simp [Funnel.enqueue, State.enqueue, hs, FunnelSafety.resolves], by simp, fun req' hr => ?_⟩
  obtain rfl : req' = req := by simpa using hr
  refine ⟨id, kind, ?_⟩
  simp only [State.dominated, Bool.or_eq_true, List.any_eq_true, decide_eq_true_eq] at dom
  rcases dom with queued | running
  · exact .inl (queue ▸ queued)
  · exact .inr ((h.tombstone req'.record id).1 running)

theorem Kept.adds_queued {f : Funnel R D ρ} (h : Kept f) (now : Nat) {req : WriteRequest R D ρ}
    (hs : f.st.suppresses req = false) :
    Adds f (.enqueue now req) (f.enqueue now req) (f.replaces now req) := by
  have queue : (f.enqueue now req).st.queueOf req.record =
      f.st.kept req ++ [f.st.pending now req] := State.enqueue_taken now hs
  constructor
  · simp [Funnel.enqueue, Funnel.enqueues, Funnel.replaces, hs]
  · simp [Funnel.replaces, List.filterMap_append, List.filterMap_map, Function.comp_def,
      FunnelSafety.takesUp, asks, State.pending]
  · simp [Funnel.enqueue, State.enqueue, hs, Funnel.replaces, List.filterMap_append,
      List.filterMap_map, Function.comp_def, FunnelSafety.resolves]
  · intro r p hp
    have : p ∈ f.st.dropped req ∧ req.record = r := by simpa [Funnel.replaces] using hp
    obtain ⟨dropped, rfl⟩ := this
    obtain ⟨hq, superseded⟩ := List.mem_filter.1 dropped
    obtain ⟨logicalId, notRing⟩ := supersedes_logicalId superseded
    refine ⟨notRing, f.st.pending now req, by rw [queue]; simp, ?_, logicalId, superseded⟩
    refine (h.seqs req.record).2 p ((h.accounted req.record).mem_iff.2 ?_)
    exact List.mem_append_right _ (List.mem_append_right _ hq)
  · simp [Funnel.replaces]

theorem Kept.adds {f f' : Funnel R D ρ} {e : Event R D ρ} (h : Kept f) (step : Steps f e f') :
    ∃ new, Adds f e f' new := by
  cases step with
  | enqueue now req =>
    cases hs : f.st.suppresses req with
    | true => exact ⟨_, h.adds_suppressed now hs⟩
    | false => exact ⟨_, h.adds_queued now hs⟩
  | tryDispatch now =>
    refine ⟨_, rfl, ?_, ?_, by simp, by simp⟩
    · simp [List.filterMap_map, Function.comp_def, FunnelSafety.takesUp, asks]
    · simp [Funnel.dispatches, List.filterMap_map, Function.comp_def, FunnelSafety.resolves]
  | done busy latency acquireWait =>
    exact ⟨_, rfl, by simp [FunnelSafety.takesUp, asks], by simp [FunnelSafety.resolves], by simp,
      by simp⟩

/-! ## Every run -/

/-- What the funnel promises after the events `es`. -/
structure Safe (es : List (Event R D ρ)) (f : Funnel R D ρ) : Prop where
  /-- At most one write of a record is in flight. -/
  single : ∀ r, (f.running.map (·.record)).count r ≤ 1
  /-- A record's writes are numbered as they are enqueued, and dispatched in
  that order. -/
  order : ∀ r, (queuedOn r f.log).Pairwise (·.seq < ·.seq) ∧
    (dispatchedOn r f.log).Pairwise (·.seq < ·.seq)
  /-- Each request enqueued is queued once or suppressed once, in order. -/
  takenUp : f.log.filterMap takesUp = es.filterMap asks
  /-- A write queued is dispatched once, removed once, or queued still. -/
  accounted : ∀ r, (queuedOn r f.log).Perm
    (dispatchedOn r f.log ++ (removedOn r f.log ++ f.st.queueOf r))
  ring : ∀ r, ∀ p ∈ removedOn r f.log, p.kind ≠ .ring
  suppressed : ∀ req, .suppressed req ∈ f.log → ∃ id, req.kind = .currentState id
  /-- The replies resolved `Ok` are those of the writes removed or suppressed. -/
  answered : f.oks = f.log.filterMap resolves
  /-- The next event removes or suppresses a write only for one that replaces
  it. -/
  replaced : ∀ e f', Steps f e f' → ∃ new, Adds f e f' new
  late : NoneLate f.log
  /-- A pass that leaves nothing in flight leaves no chat write queued, and no
  write at all under a window that opens. -/
  drains : ∀ now, (f.st.tryDispatch now).1.inFlight = ∅ →
    (∀ r p, ((f.st.tryDispatch now).1.queueOf r).head? = some p → p.writeClass ≠ .chat) ∧
      (0 < (f.st.tryDispatch now).1.cfg.nonchatCap → ∀ r, (f.st.tryDispatch now).1.queueOf r = [])

theorem Kept.drains {f : Funnel R D ρ} (h : Kept f) (lanes : Lanes f) {now : Nat}
    (quiet : (f.st.tryDispatch now).1.inFlight = ∅) :
    (∀ r p, ((f.st.tryDispatch now).1.queueOf r).head? = some p → p.writeClass ≠ .chat) ∧
      (0 < (f.st.tryDispatch now).1.cfg.nonchatCap →
        ∀ r, (f.st.tryDispatch now).1.queueOf r = []) := by
  have after := h.step (.tryDispatch f now)
  have lanes' := lanes.step (.tryDispatch f now)
  have idle : (f.dispatches (f.st.tryDispatch now)).running = [] := by
    refine List.eq_nil_iff_forall_not_mem.2 fun d hd => ?_
    have := (after.inFlight d.record).2 ⟨d, hd, rfl⟩
    rw [Funnel.dispatches, quiet] at this
    cases this
  refine State.drained_of_next (State.tryDispatch_next f.st now) quiet ?_
  have := lanes'.window
  rwa [idle] at this

/-- The log accounts for the requests, the replies and the removals of a
run. -/
structure Told (es : List (Event R D ρ)) (f : Funnel R D ρ) : Prop where
  takenUp : f.log.filterMap takesUp = es.filterMap asks
  answered : f.oks = f.log.filterMap resolves
  ring : ∀ r p, .removed r p ∈ f.log → p.kind ≠ .ring
  suppressed : ∀ req, .suppressed req ∈ f.log → ∃ id, req.kind = .currentState id

theorem Told.step {es : List (Event R D ρ)} {f f' : Funnel R D ρ} {e : Event R D ρ}
    (h : Told es f) (kept : Kept f) (step : Steps f e f') : Told (es ++ [e]) f' := by
  obtain ⟨new, adds⟩ := kept.adds step
  constructor
  · rw [adds.log, List.filterMap_append, h.takenUp, adds.takesUp, List.filterMap_append]
    cases ha : asks e <;> simp [ha]
  · rw [adds.resolves, h.answered, adds.log, List.filterMap_append]
  · intro r p hp
    rw [adds.log] at hp
    rcases List.mem_append.1 hp with hp | hp
    · exact h.ring r p hp
    · exact (adds.removed r p hp).1
  · intro req hr
    rw [adds.log] at hr
    rcases List.mem_append.1 hr with hr | hr
    · exact h.suppressed req hr
    · obtain ⟨id, kind, -⟩ := adds.suppressed req hr
      exact ⟨id, kind⟩

/-- A share is advertised, withdrawn while the advert waits, and advertised
again while the withdrawal is in flight. -/
def withdrawn : List (WriteRequest Unit Nat Nat) :=
  [⟨(), .advertRefresh, .currentState "share", none, 0, some 0⟩,
    ⟨(), .sessionBoundary, .tombstone "share", none, 1, some 1⟩,
    ⟨(), .advertRefresh, .currentState "share", none, 2, some 2⟩]

end Daemonseed.Net.FunnelSafety
