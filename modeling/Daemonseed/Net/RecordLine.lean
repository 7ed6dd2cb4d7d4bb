import Daemonseed.Net.ClosingFlush

/-! # The line of one record's writes

A record's writes are completed in the order they were enqueued: what is over,
what the sink is busy with and what is still queued stand in one line that
only grows at its end, and a closing flush takes it up where it finds it. -/
namespace Daemonseed.Net.RecordLine
open Daemonseed.Net.WriteFunnel Daemonseed.Net.FunnelSafety Daemonseed.Net.ClosingFlush

variable {R D ρ : Type} [DecidableEq R] {room : R}

/-- The writes of `room` the sink is busy with. -/
def runningOn (room : R) (running : List (Dispatched R D ρ)) : List (Pending D ρ) :=
  running.filterMap fun d => if d.record = room then some d.pending else none

theorem runningOn_append {running more : List (Dispatched R D ρ)} :
    runningOn room (running ++ more) = runningOn room running ++ runningOn room more :=
  List.filterMap_append

theorem runningOn_cons_self {d : Dispatched R D ρ} {rest : List (Dispatched R D ρ)}
    (h : d.record = room) : runningOn room (d :: rest) = d.pending :: runningOn room rest := by
  simp [runningOn, h]

theorem runningOn_cons_other {d : Dispatched R D ρ} {rest : List (Dispatched R D ρ)}
    (h : d.record ≠ room) : runningOn room (d :: rest) = runningOn room rest := by
  simp [runningOn, h]

/-- Everything of `room` that was dispatched or will be. -/
def line (room : R) (f : Funnel R D ρ) : List (Pending D ρ) :=
  completedOn room f.log ++ (runningOn room f.running ++ f.st.queueOf room)

structure InLine (room : R) (f : Funnel R D ρ) : Prop where
  idle : room ∉ f.st.inFlight → runningOn room f.running = []
  single : (runningOn room f.running).length ≤ 1
  order : (line room f).Pairwise (·.seq < ·.seq)
  below : ∀ p ∈ line room f, p.seq < f.st.seq

theorem inLine_start (cfg : SchedulerConfig) : InLine room (.start cfg : Funnel R D ρ) where
  idle _ := rfl
  single := Nat.zero_le 1
  order := .nil
  below := nofun

/-- Of a line, what is queued may be thinned. -/
theorem InLine.thinned {f : Funnel R D ρ} (h : InLine room f) {g : Funnel R D ρ}
    (running : g.running = f.running) (done : completedOn room g.log = completedOn room f.log)
    (inFlight : g.st.inFlight = f.st.inFlight) (seq : f.st.seq ≤ g.st.seq)
    (more : List (Pending D ρ)) (thin : (g.st.queueOf room).Sublist (f.st.queueOf room ++ more))
    (last : more.Pairwise (·.seq < ·.seq)) (new : ∀ p ∈ more, f.st.seq ≤ p.seq ∧ p.seq < g.st.seq) :
    InLine room g := by
  have sub : (line room g).Sublist (line room f ++ more) := by
    unfold line
    rw [running, done, List.append_assoc, List.append_assoc]
    exact .append (.refl _) (.append (.refl _) thin)
  refine ⟨?_, running ▸ h.single, ?_, ?_⟩
  · rw [running, inFlight]
    exact h.idle
  · refine List.Pairwise.sublist sub (List.pairwise_append.2 ⟨h.order, last, fun p hp q hq => ?_⟩)
    exact Nat.lt_of_lt_of_le (h.below p hp) (new q hq).1
  · intro p hp
    rcases List.mem_append.1 (sub.subset hp) with old | hp
    · exact Nat.lt_of_lt_of_le (h.below p old) seq
    · exact (new p hp).2

theorem completedOn_enqueue (room : R) (f : Funnel R D ρ) (now : Nat) (req : WriteRequest R D ρ) :
    completedOn room (f.enqueue now req).log = completedOn room f.log := by
  have none_ : completedOn room (f.enqueues now req) = [] := by
    unfold Funnel.enqueues completedOn
    split
    · rfl
    · simp [List.filterMap_append, List.filterMap_map]
  rw [Funnel.enqueue, completedOn_append, none_, List.append_nil]

theorem InLine.enqueue {f : Funnel R D ρ} (h : InLine room f) (now : Nat)
    (req : WriteRequest R D ρ) : InLine room (f.enqueue now req) := by
  have done := completedOn_enqueue room f now req
  cases hs : f.st.suppresses req with
  | true =>
    have seq : (f.enqueue now req).st.seq = f.st.seq := by simp [Funnel.enqueue, State.enqueue, hs]
    have inFlight : (f.enqueue now req).st.inFlight = f.st.inFlight := by
      simp [Funnel.enqueue, State.enqueue, hs]
    refine h.thinned rfl done inFlight seq.ge [] ?_ .nil (List.forall_mem_nil _)
    rw [List.append_nil]
    by_cases hr : room = req.record
    · subst hr
      rw [show (f.enqueue now req).st.queueOf req.record = _ from State.enqueue_suppressed now hs]
    · rw [show (f.enqueue now req).st.queueOf room = _ from State.enqueue_other now hr]
  | false =>
    have seq : (f.enqueue now req).st.seq = f.st.seq + 1 := by
      simp [Funnel.enqueue, State.enqueue, hs]
    have inFlight : (f.enqueue now req).st.inFlight = f.st.inFlight := by
      simp [Funnel.enqueue, State.enqueue, hs]
    refine h.thinned rfl done inFlight (by omega) [f.st.pending now req] ?_
      (List.pairwise_singleton _ _) ?_
    · by_cases hr : room = req.record
      · subst hr
        rw [show (f.enqueue now req).st.queueOf req.record = _ from State.enqueue_taken now hs]
        exact .append List.filter_sublist (.refl _)
      · rw [show (f.enqueue now req).st.queueOf room = _ from State.enqueue_other now hr]
        exact List.sublist_append_left _ _
    · intro p hp
      obtain rfl := List.mem_singleton.1 hp
      rw [seq]
      exact ⟨Nat.le_refl _, Nat.lt_succ_self _⟩

theorem InLine.dispatch {f : Funnel R D ρ} (h : InLine room f) {r : R} (lane : DispatchLane)
    {p : Pending D ρ} {rest : List (Pending D ρ)} (idle : r ∉ f.st.inFlight)
    (hq : f.st.queueOf r = p :: rest) :
    InLine room (f.dispatches ((f.st.dispatch r lane).1, [⟨r, lane, p⟩])) := by
  obtain ⟨queue, queues⟩ := State.dispatch_queueOf lane hq
  have done : completedOn room (f.log ++ [Happened.dispatched ⟨r, lane, p⟩]) =
      completedOn room f.log := by
    rw [completedOn_append, show completedOn room [Happened.dispatched ⟨r, lane, p⟩] = [] from rfl,
      List.append_nil]
  by_cases hr : r = room
  · subst hr
    have free := h.idle idle
    have busy : runningOn r (f.running ++ [⟨r, lane, p⟩]) = [p] := by
      rw [runningOn_append, free, runningOn_cons_self (rfl : (⟨r, lane, p⟩ : Dispatched R D ρ).record = r)]
      rfl
    have same : line r (f.dispatches ((f.st.dispatch r lane).1, [⟨r, lane, p⟩])) = line r f := by
      simp only [line, Funnel.dispatches, List.map_cons, List.map_nil]
      rw [done, busy, queue, free, hq, List.nil_append, List.singleton_append]
    refine ⟨fun not_ => ?_, ?_, same ▸ h.order, ?_⟩
    · rw [Funnel.dispatches, State.dispatch_inFlight hq] at not_
      exact absurd (Finset.mem_insert_self _ _) not_
    · rw [Funnel.dispatches, busy]
      exact Nat.le_refl 1
    · rw [same]
      simpa [Funnel.dispatches] using h.below
  · have busy : runningOn room (f.running ++ [⟨r, lane, p⟩]) = runningOn room f.running := by
      rw [runningOn_append, runningOn_cons_other hr, show runningOn room [] = [] from rfl,
        List.append_nil]
    have same : line room (f.dispatches ((f.st.dispatch r lane).1, [⟨r, lane, p⟩])) =
        line room f := by
      simp only [line, Funnel.dispatches, List.map_cons, List.map_nil]
      rw [done, busy, queues room (Ne.symm hr)]
    refine ⟨fun not_ => ?_, ?_, same ▸ h.order, ?_⟩
    · rw [Funnel.dispatches, State.dispatch_inFlight hq, Finset.mem_insert, not_or] at not_
      rw [Funnel.dispatches, busy]
      exact h.idle not_.2
    · rw [Funnel.dispatches, busy]
      exact h.single
    · rw [same]
      simpa [Funnel.dispatches] using h.below

theorem InLine.tryDispatch {f : Funnel R D ρ} (h : InLine room f) (now : Nat) :
    InLine room (f.dispatches (f.st.tryDispatch now)) :=
  loop_keeps (fun _ _ lane _ _ inLine _ idle hq => inLine.dispatch lane idle hq) _ h

theorem InLine.drains {f : Funnel R D ρ} (h : InLine room f) : InLine room (drains f) := by
  refine passLoop_keeps (f := { f with st := shed f.st }) (fun _ _ _ => drainNext_ready)
    (fun _ _ lane _ _ inLine _ idle hq => inLine.dispatch lane idle hq) _ ?_
  refine h.thinned rfl rfl rfl (Nat.le_refl _) [] ?_ .nil (List.forall_mem_nil _)
  rw [show ({ f with st := shed f.st } : Funnel R D ρ).st.queueOf room = _ from shed_queueOf _ _,
    List.append_nil]
  exact List.filter_sublist

theorem InLine.over_single {f : Funnel R D ρ} (h : InLine room f)
    {before after : List (Dispatched R D ρ)} {d : Dispatched R D ρ}
    (busy : f.running = before ++ d :: after) (on : d.record = room) :
    runningOn room f.running = [d.pending] ∧ runningOn room (before ++ after) = [] := by
  have single := h.single
  rw [busy, runningOn_append, runningOn_cons_self on] at single ⊢
  rw [List.length_append, List.length_cons] at single
  have before_ : runningOn room before = [] := List.eq_nil_of_length_eq_zero (by omega)
  have after_ : runningOn room after = [] := List.eq_nil_of_length_eq_zero (by omega)
  rw [runningOn_append, before_, after_]
  exact ⟨rfl, rfl⟩

theorem InLine.completes {f : Funnel R D ρ} (h : InLine room f)
    {before after : List (Dispatched R D ρ)} {d : Dispatched R D ρ}
    (busy : f.running = before ++ d :: after) (latency : Nat) (acquireWait : Option Nat) :
    InLine room (ClosingFlush.completes f d (before ++ after) latency acquireWait) := by
  have queue : (ClosingFlush.completes f d (before ++ after) latency acquireWait).st.queueOf room =
      f.st.queueOf room := rfl
  by_cases on : d.record = room
  · obtain ⟨only, none_⟩ := h.over_single busy on
    have same : line room (ClosingFlush.completes f d (before ++ after) latency acquireWait) = line room f := by
      rw [line, line, queue, only]
      simp only [ClosingFlush.completes]
      rw [none_, completedOn_append]
      simp [completedOn, on]
    exact ⟨fun _ => none_, by simp [ClosingFlush.completes, none_], same ▸ h.order,
      same.symm ▸ h.below⟩
  · have still : runningOn room (before ++ after) = runningOn room f.running := by
      rw [busy, runningOn_append, runningOn_append, runningOn_cons_other on]
    have same : line room (ClosingFlush.completes f d (before ++ after) latency acquireWait) = line room f := by
      rw [line, line, queue]
      simp only [ClosingFlush.completes]
      rw [still, completedOn_append]
      simp [completedOn, on]
    refine ⟨fun not_ => ?_, ?_, same ▸ h.order, same.symm ▸ h.below⟩
    · simp only [ClosingFlush.completes, State.onDone, Finset.mem_erase, not_and] at not_ ⊢
      rw [still]
      exact h.idle (not_ (Ne.symm on))
    · simp only [ClosingFlush.completes]
      rw [still]
      exact h.single

end Daemonseed.Net.RecordLine
