import Daemonseed.Net.Superseding

/-! # The closing flush

What is queued when the client closes: chat writes and tombstones are
dispatched, all else is shed, and the flush goes on until they are over or its
budget is. -/
namespace Daemonseed.Net.ClosingFlush
open Daemonseed.Lib.Runs Daemonseed.Net.WriteFunnel Daemonseed.Net.FunnelSafety
  Daemonseed.Net.Superseding

variable {R D ρ : Type}

/-- A write a flush does not shed. -/
def flushes (p : Pending D ρ) : Bool := p.writeClass = .chat ∨ p.kind.isTombstone = true

theorem shed_nodupKeys [DecidableEq R] (queues : AList fun _ : R => List (Pending D ρ)) :
    ((queues.entries.map fun e => (⟨e.1, e.2.filter flushes⟩ : Sigma fun _ => List (Pending D ρ))).filter
      fun e => !e.2.isEmpty).NodupKeys := by
  have keys : (queues.entries.map fun e =>
      (⟨e.1, e.2.filter flushes⟩ : Sigma fun _ => List (Pending D ρ))).keys = queues.entries.keys := by
    simp [List.keys, Function.comp_def]
  have nodup : queues.entries.keys.Nodup := queues.nodupKeys
  rw [← keys] at nodup
  exact nodup.sublist (List.filter_sublist.map _)

section

variable [DecidableEq R] (st : State R D ρ)

/-- The queues without what is shed, and without those it empties. -/
def shed : State R D ρ :=
  { st with queues := ⟨_, shed_nodupKeys st.queues⟩ }

/-- The head queued first, on the lane of its class. -/
def drainNext : Option (R × DispatchLane) :=
  (st.heads.argmin fun h => h.2.seq).map fun h =>
    (h.1, if h.2.writeClass = .chat then .chat else .window)

end

variable [DecidableEq R]

/-- Shed, then dispatch every head there is, whatever the window. -/
def drainForShutdown (st : State R D ρ) : State R D ρ × List (Dispatched R D ρ) :=
  State.passLoop drainNext (shed st).backlog (shed st)

/-- Whether any write to be flushed is queued or in flight. -/
def shutdownWorkRemaining (st : State R D ρ) : Bool :=
  st.inFlight ≠ ∅ ∨ ∃ e ∈ st.queues.entries, ∃ p ∈ e.2, flushes p = true

/-- What a drain dispatches is handed to the sink. -/
def drains (f : Funnel R D ρ) : Funnel R D ρ := f.dispatches (drainForShutdown f.st)

/-- A write has completed. -/
def completes (f : Funnel R D ρ) (d : Dispatched R D ρ) (running : List (Dispatched R D ρ))
    (latency : Nat) (acquireWait : Option Nat) : Funnel R D ρ :=
  { f with
    st := f.st.onDone ⟨d.record, d.lane, latency, acquireWait⟩
    running := running
    log := f.log ++ [.completed d] }

/-- One turn of the flush's loop, in whatever order writes complete. Where work
remains it may run out of its budget instead; where none does it returns. -/
inductive FlushSteps (f : Funnel R D ρ) : Dispatched R D ρ → Funnel R D ρ → Prop
  | done {before after : List (Dispatched R D ρ)} {d : Dispatched R D ρ}
      (remaining : shutdownWorkRemaining f.st = true) (busy : f.running = before ++ d :: after)
      (latency : Nat) (acquireWait : Option Nat) :
      FlushSteps f d (drains (completes f d (before ++ after) latency acquireWait))

/-! ## Shedding -/

theorem shed_queueOf (st : State R D ρ) (r : R) :
    (shed st).queueOf r = (st.queueOf r).filter flushes := by
  have lookup : ∀ (a : AList fun _ : R => List (Pending D ρ)) q,
      a.lookup r = some q ↔ ⟨r, q⟩ ∈ a.entries := fun a q =>
    Option.mem_def.symm.trans AList.mem_lookup_iff
  have mem : ∀ q, (shed st).queues.lookup r = some q ↔
      ∃ q', st.queues.lookup r = some q' ∧ q'.filter flushes = q ∧ q ≠ [] := by
    intro q
    rw [lookup]
    simp only [shed, List.mem_filter, List.mem_map, lookup]
    constructor
    · rintro ⟨⟨⟨r', q'⟩, he, heq⟩, some_⟩
      cases heq
      exact ⟨q', he, rfl, by simpa using some_⟩
    · rintro ⟨q', he, rfl, some_⟩
      exact ⟨⟨⟨r, q'⟩, he, rfl⟩, by simpa using some_⟩
  unfold State.queueOf
  cases hs : (shed st).queues.lookup r with
  | some q =>
    obtain ⟨q', hq', rfl, -⟩ := (mem q).1 hs
    rw [hq']
    rfl
  | none =>
    cases hq : st.queues.lookup r with
    | none => rfl
    | some q =>
      by_contra some_
      have := (mem _).2 ⟨q, hq, rfl, Ne.symm some_⟩
      rw [hs] at this
      cases this

theorem shed_flushes {st : State R D ρ} {r : R} {p : Pending D ρ}
    (h : p ∈ (shed st).queueOf r) : flushes p = true := by
  rw [shed_queueOf] at h
  exact (List.mem_filter.1 h).2

theorem drainNext_ready {st : State R D ρ} {r : R} {lane : DispatchLane}
    (h : drainNext st = some (r, lane)) : st.Ready r := by
  obtain ⟨head, hmin, heq⟩ := Option.map_eq_some_iff.1 h
  cases heq
  exact State.ready_of_head (List.argmin_mem hmin)

theorem drainNext_none {st : State R D ρ} (h : drainNext st = none) {r : R}
    (idle : r ∉ st.inFlight) : st.queueOf r = [] := by
  rw [drainNext, Option.map_eq_none_iff, List.argmin_eq_none] at h
  cases hq : st.queueOf r with
  | nil => rfl
  | cons p rest =>
    have mem : (r, p) ∈ st.heads := State.mem_heads.2 ⟨idle, by rw [hq]; rfl⟩
    rw [h] at mem
    cases mem

/-! ## The flush -/

/-- What is flushed of each record since `f`, in order, and what is still to be:
together what there was to flush. -/
structure Flushing (f g : Funnel R D ρ) : Prop where
  single : (g.running.map (·.record)).Nodup
  inFlight : ∀ r, r ∈ g.st.inFlight ↔ ∃ d ∈ g.running, d.record = r
  grows : ∃ new, g.log = f.log ++ new ∧ ∀ r,
    dispatchedOn r new ++ (g.st.queueOf r).filter flushes = (f.st.queueOf r).filter flushes

/-- Nothing is queued but what is to be flushed. -/
def Clean (st : State R D ρ) : Prop := ∀ r, ∀ p ∈ st.queueOf r, flushes p = true

theorem Clean.filter {st : State R D ρ} (clean : Clean st) (r : R) :
    (st.queueOf r).filter flushes = st.queueOf r :=
  List.filter_eq_self.2 (clean r)

theorem Flushing.dispatch {f g : Funnel R D ρ} (h : Flushing f g) (clean : Clean g.st) {r : R}
    (lane : DispatchLane) {p : Pending D ρ} {rest : List (Pending D ρ)} (idle : r ∉ g.st.inFlight)
    (hq : g.st.queueOf r = p :: rest) :
    Flushing f (g.dispatches ((g.st.dispatch r lane).1, [⟨r, lane, p⟩])) ∧
      Clean (g.st.dispatch r lane).1 := by
  obtain ⟨single, inFlight, new, log, split⟩ := h
  obtain ⟨queue, queues⟩ := State.dispatch_queueOf lane hq
  have clean' : Clean (g.st.dispatch r lane).1 := by
    intro r' q mem
    by_cases hr : r' = r
    · subst hr
      rw [queue] at mem
      exact clean r' q (hq ▸ List.mem_cons_of_mem p mem)
    · rw [queues r' hr] at mem
      exact clean r' q mem
  refine ⟨⟨?_, fun r' => ?_, new ++ [.dispatched ⟨r, lane, p⟩], by simp [Funnel.dispatches, log],
    fun r' => ?_⟩, clean'⟩
  · simp only [Funnel.dispatches, List.map_append, List.map_cons, List.map_nil]
    refine List.nodup_append.2 ⟨single, by simp, ?_⟩
    rintro a ha b hb rfl
    obtain ⟨d, hd, rfl⟩ := List.mem_map.1 ha
    exact idle (List.mem_singleton.1 hb ▸ (inFlight d.record).2 ⟨d, hd, rfl⟩)
  · simp only [Funnel.dispatches, State.dispatch_inFlight hq, Finset.mem_insert, inFlight,
      List.mem_append, List.mem_singleton]
    constructor
    · rintro (rfl | ⟨d, hd, hr⟩)
      · exact ⟨_, .inr rfl, rfl⟩
      · exact ⟨d, .inl hd, hr⟩
    · rintro ⟨d, hd | rfl, hr⟩
      · exact .inr ⟨d, hd, hr⟩
      · exact .inl hr.symm
  · rw [← split r', clean.filter, dispatchedOn_append]
    change _ ++ ((g.st.dispatch r lane).1.queueOf r').filter flushes = _
    rw [clean'.filter]
    by_cases hr : r' = r
    · subst hr
      rw [queue, hq]
      simp [dispatchedOn]
    · rw [queues r' hr]
      simp [dispatchedOn, Ne.symm hr]

/-- A drain leaves no idle record with anything queued. -/
theorem Flushing.drains {f g : Funnel R D ρ} (h : Flushing f g) :
    Flushing f (drains g) ∧ Clean (drains g).st ∧
      ∀ r ∉ (drains g).st.inFlight, (drains g).st.queueOf r = [] := by
  have cut : Flushing f { g with st := shed g.st } := by
    obtain ⟨single, inFlight, new, log, split⟩ := h
    refine ⟨single, inFlight, new, log, fun r => ?_⟩
    rw [shed_queueOf, List.filter_filter]
    simpa using split r
  have kept : Flushing f (ClosingFlush.drains g) ∧ Clean (ClosingFlush.drains g).st :=
    passLoop_keeps (I := fun g => Flushing f g ∧ Clean g.st) (fun _ _ _ => drainNext_ready)
      (fun _ _ lane _ _ hg _ idle hq => hg.1.dispatch hg.2 lane idle hq) _
      ⟨cut, fun _ _ => shed_flushes⟩
  refine ⟨kept.1, kept.2, fun r idle => drainNext_none ?_ idle⟩
  exact State.passLoop_none (fun _ _ _ => drainNext_ready) _ _ (Nat.le_refl _)

theorem Flushing.completes {f g : Funnel R D ρ} (h : Flushing f g)
    {before after : List (Dispatched R D ρ)} {d : Dispatched R D ρ}
    (busy : g.running = before ++ d :: after) (latency : Nat) (acquireWait : Option Nat) :
    Flushing f (completes g d (before ++ after) latency acquireWait) := by
  obtain ⟨single, inFlight, new, log, split⟩ := h
  rw [busy, List.map_append, List.map_cons] at single
  have alone : ∀ d' ∈ before ++ after, d'.record ≠ d.record := by
    intro d' hd' hr
    have := (List.nodup_middle.1 single).notMem
    rw [← List.map_append] at this
    exact this (List.mem_map.2 ⟨d', hd', hr⟩)
  refine ⟨?_, fun r => ?_, new ++ [.completed d], by simp [ClosingFlush.completes, log], fun r => ?_⟩
  · rw [ClosingFlush.completes, List.map_append]
    exact (List.nodup_middle.1 single).of_cons
  · simp only [ClosingFlush.completes, State.onDone, Finset.mem_erase, inFlight, busy]
    constructor
    · rintro ⟨hr, d', hd', rfl⟩
      rcases List.mem_append.1 hd' with hd' | hd'
      · exact ⟨d', List.mem_append_left _ hd', rfl⟩
      · rcases List.mem_cons.1 hd' with rfl | hd'
        · exact absurd rfl hr
        · exact ⟨d', List.mem_append_right _ hd', rfl⟩
    · rintro ⟨d', hd', rfl⟩
      refine ⟨alone d' hd', d', ?_, rfl⟩
      rcases List.mem_append.1 hd' with hd' | hd'
      · exact List.mem_append_left _ hd'
      · exact List.mem_append_right _ (List.mem_cons_of_mem d hd')
  · have none_ : dispatchedOn r [.completed d] = [] := rfl
    rw [dispatchedOn_append, none_, List.append_nil]
    exact split r

/-- What every turn of a flush leaves: no idle record has anything queued. -/
structure Drained (f g : Funnel R D ρ) : Prop where
  flushing : Flushing f g
  clean : Clean g.st
  idle : ∀ r ∉ g.st.inFlight, g.st.queueOf r = []

theorem drained {f g : Funnel R D ρ} (kept : Kept f) {ds : List (Dispatched R D ρ)}
    (run : Trail FlushSteps (drains f) ds g) : Drained f g := by
  have begins : Flushing f f :=
    ⟨kept.single, kept.inFlight, [], (List.append_nil _).symm, fun r => rfl⟩
  refine run.invariant (fun g d g' h step => ?_) ?_
  · obtain ⟨-, busy, latency, acquireWait⟩ := step
    obtain ⟨flushing, clean, idle⟩ := (h.flushing.completes busy latency acquireWait).drains
    exact ⟨flushing, clean, idle⟩
  · obtain ⟨flushing, clean, idle⟩ := begins.drains
    exact ⟨flushing, clean, idle⟩

theorem workRemaining_iff {st : State R D ρ} :
    shutdownWorkRemaining st = true ↔
      st.inFlight ≠ ∅ ∨ ∃ r, ∃ p ∈ st.queueOf r, flushes p = true := by
  unfold shutdownWorkRemaining State.queueOf
  rw [decide_eq_true_eq]
  refine or_congr Iff.rfl ⟨?_, ?_⟩
  · rintro ⟨⟨r, q⟩, he, p, hp, flush⟩
    have : st.queues.lookup r = some q := AList.mem_lookup_iff.2 he
    exact ⟨r, p, by rwa [this], flush⟩
  · rintro ⟨r, p, hp, flush⟩
    cases hq : st.queues.lookup r with
    | none =>
      rw [hq] at hp
      cases hp
    | some q =>
      rw [hq] at hp
      exact ⟨⟨r, q⟩, AList.mem_lookup_iff.1 hq, p, hp, flush⟩

/-- While work remains a write is in flight, so one more completes or the
budget runs out. -/
theorem Drained.waits {f g : Funnel R D ρ} (h : Drained f g)
    (remaining : shutdownWorkRemaining g.st = true) : g.running ≠ [] := by
  intro none_
  have quiet : ∀ r, r ∉ g.st.inFlight := fun r hr => by
    obtain ⟨d, hd, -⟩ := (h.flushing.inFlight r).1 hr
    rw [none_] at hd
    cases hd
  rcases workRemaining_iff.1 remaining with busy | ⟨r, p, hp, -⟩
  · exact busy (Finset.eq_empty_of_forall_notMem quiet)
  · rw [h.idle r (quiet r)] at hp
    cases hp

theorem Drained.over {f g : Funnel R D ρ} (h : Drained f g)
    (ended : shutdownWorkRemaining g.st = false) :
    g.running = [] ∧ ∀ r, g.st.queueOf r = [] := by
  have none_ := Bool.eq_false_iff.1 ended
  rw [ne_eq, workRemaining_iff, not_or, not_not] at none_
  refine ⟨List.eq_nil_iff_forall_not_mem.2 fun d hd => ?_, fun r => h.idle r (by simp [none_.1])⟩
  have := (h.flushing.inFlight d.record).2 ⟨d, hd, rfl⟩
  rw [none_.1] at this
  cases this

/-! ## What was acknowledged -/

/-- A write for an id has been dispatched since, or one waits that a flush
would not shed. -/
def Carried (r : R) (id : String) (earlier : List (Happened R D ρ)) (f : Funnel R D ρ) : Prop :=
  ∃ new, f.log = earlier ++ new ∧
    ((∃ p ∈ dispatchedOn r new, p.kind.logicalId = some id) ∨
      ∃ p ∈ f.st.queueOf r, p.kind.logicalId = some id ∧ flushes p = true)

theorem chat_of_rank {a : WriteClass} (h : a.rank ≤ 1) : a = .chat := by
  cases a <;> first | rfl | exact absurd h (by decide)

/-- What replaces a write that would be flushed would be too. -/
theorem flushes_pending {st : State R D ρ} {now : Nat} {req : WriteRequest R D ρ}
    {p : Pending D ρ} (dropped : p ∈ st.dropped req) (flush : flushes p = true) :
    flushes (st.pending now req) = true := by
  have superseded := (List.mem_filter.1 dropped).2
  cases kind : req.kind with
  | ring => simp [kind, WriteKind.supersedes] at superseded
  | tombstone id =>
    have : (st.pending now req).kind = .tombstone id := kind
    simp [flushes, this, WriteKind.isTombstone]
  | currentState id =>
    have old : p.kind = .currentState id := by simpa [kind, WriteKind.supersedes] using superseded
    have chat : p.writeClass = .chat := by simpa [flushes, old, WriteKind.isTombstone] using flush
    have stronger := (pending_covers now dropped (by simp [kind, WriteKind.isTombstone])).1
    rw [chat] at stronger
    simp [flushes, chat_of_rank stronger]

variable {r : R} {id : String} {earlier : List (Happened R D ρ)}

theorem Carried.dispatch {f : Funnel R D ρ} (h : Carried r id earlier f) {r' : R}
    (lane : DispatchLane) {p : Pending D ρ} {rest : List (Pending D ρ)}
    (hq : f.st.queueOf r' = p :: rest) :
    Carried r id earlier (f.dispatches ((f.st.dispatch r' lane).1, [⟨r', lane, p⟩])) := by
  obtain ⟨new, log, carried⟩ := h
  obtain ⟨queue, queues⟩ := State.dispatch_queueOf lane hq
  refine ⟨new ++ [.dispatched ⟨r', lane, p⟩], by simp [Funnel.dispatches, log], ?_⟩
  rw [dispatchedOn_append]
  rcases carried with ⟨q, hd, hk⟩ | ⟨q, hw, hk, flush⟩
  · exact .inl ⟨q, List.mem_append_left _ hd, hk⟩
  · by_cases hr : r = r'
    · subst hr
      rw [hq] at hw
      rcases List.mem_cons.1 hw with rfl | hw
      · exact .inl ⟨q, by simp [dispatchedOn], hk⟩
      · exact .inr ⟨q, queue.symm ▸ hw, hk, flush⟩
    · exact .inr ⟨q, (queues r hr).symm ▸ hw, hk, flush⟩

theorem Carried.enqueue {f : Funnel R D ρ} (h : Carried r id earlier f) (now : Nat)
    (req : WriteRequest R D ρ) : Carried r id earlier (f.enqueue now req) := by
  obtain ⟨new, log, carried⟩ := h
  refine ⟨new ++ f.enqueues now req, by simp [Funnel.enqueue, log], ?_⟩
  rw [dispatchedOn_append]
  rcases carried with ⟨q, hd, hk⟩ | ⟨q, hw, hk, flush⟩
  · exact .inl ⟨q, List.mem_append_left _ hd, hk⟩
  · refine .inr ?_
    change ∃ p ∈ (f.st.enqueue now req).1.queueOf r, _
    by_cases hr : r = req.record
    · subst hr
      cases hs : f.st.suppresses req with
      | true =>
        rw [State.enqueue_suppressed now hs]
        exact ⟨q, hw, hk, flush⟩
      | false =>
        rw [State.enqueue_taken now hs]
        cases superseded : req.kind.supersedes q.kind with
        | false =>
          exact ⟨q, List.mem_append_left _ (List.mem_filter.2 ⟨hw, by simp [superseded]⟩), hk, flush⟩
        | true =>
          have dropped : q ∈ f.st.dropped req := List.mem_filter.2 ⟨hw, superseded⟩
          exact ⟨f.st.pending now req, by simp, (supersedes_logicalId superseded).1.trans hk,
            flushes_pending dropped flush⟩
    · rw [State.enqueue_other now hr]
      exact ⟨q, hw, hk, flush⟩

theorem Carried.step {f f' : Funnel R D ρ} {e : Event R D ρ} (h : Carried r id earlier f)
    (step : Steps f e f') : Carried r id earlier f' := by
  cases step with
  | enqueue now req => exact h.enqueue now req
  | tryDispatch now =>
    exact loop_keeps (I := Carried r id earlier)
      (fun _ _ lane _ _ carried _ _ hq => carried.dispatch lane hq) _ h
  | @done before after d busy latency acquireWait =>
    obtain ⟨new, log, carried⟩ := h
    refine ⟨new ++ [.completed d], by simp [log], ?_⟩
    have none_ : dispatchedOn r [.completed d] = [] := rfl
    rw [dispatchedOn_append, none_, List.append_nil]
    exact carried

/-- What a carried request comes to when the flush of `f` is over. -/
theorem Carried.flushed {f g : Funnel R D ρ} (h : Carried r id earlier f) (drained : Drained f g)
    (ended : shutdownWorkRemaining g.st = false) :
    ∃ new, g.log = earlier ++ new ∧ ∃ p ∈ dispatchedOn r new, p.kind.logicalId = some id := by
  obtain ⟨before, log, carried⟩ := h
  obtain ⟨flushed, log', split⟩ := drained.flushing.grows
  refine ⟨before ++ flushed, by rw [log', log, List.append_assoc], ?_⟩
  rw [dispatchedOn_append]
  rcases carried with ⟨p, hd, hk⟩ | ⟨p, hw, hk, flush⟩
  · exact ⟨p, List.mem_append_left _ hd, hk⟩
  · have all := split r
    rw [(drained.over ended).2 r, List.filter_nil, List.append_nil] at all
    exact ⟨p, List.mem_append_right _ (all ▸ List.mem_filter.2 ⟨hw, flush⟩), hk⟩

/-! ## Every run -/

theorem kept_run {cfg : SchedulerConfig} {es : List (Event R D ρ)} {f : Funnel R D ρ}
    (run : Trail Steps (.start cfg) es f) : Kept f :=
  run.invariant (fun _ _ _ h step => h.step step) (kept_start cfg)

/-- A member leaves, and while the tombstone is in flight a chat request for its
id is answered. -/
def left : Funnel Unit Unit Nat :=
  [Move.enqueue 0 ⟨(), .sessionBoundary, .tombstone "member", none, (), none⟩, .tryDispatch 0].foldl
    move (.start .default)

def late : WriteRequest Unit Unit Nat := ⟨(), .chat, .currentState "member", none, (), some 7⟩

end Daemonseed.Net.ClosingFlush
