import Daemonseed.Net.FunnelSafety

/-! # When the scheduler wakes

The instants at which a head becomes due, escalates or comes of floor age, and
the one the driver sleeps until. -/
namespace Daemonseed.Net.Wakeups
open Daemonseed.Lib.Runs Daemonseed.Net.WriteFunnel Daemonseed.Net.FunnelSafety

variable {R D ρ : Type}

/-- The instants still ahead of a head: its deadline, and for a write that is
no chat its escalation and its floor age. -/
def crossings (st : State R D ρ) (p : Pending D ρ) (now : Nat) : List Nat :=
  let bound := st.cfg.ageBound p.writeClass
  let starved :=
    if p.writeClass = .chat then [] else [p.starvedSince + bound, p.starvedSince + bound * 2]
  (p.deadline.toList ++ starved).filter (now < ·)

section

variable [DecidableEq R]

/-- The next instant to wake for; none where nothing is driven by time. -/
def nextWakeup (st : State R D ρ) (now : Nat) : Option Nat :=
  (st.heads.flatMap fun h => crossings st h.2 now).min?

end

/-! ## Eligible by time -/

def Due (p : Pending D ρ) (t : Nat) : Prop := p.deadline.any (· ≤ t) = true

def Aged (st : State R D ρ) (p : Pending D ρ) (t : Nat) : Prop :=
  p.writeClass ≠ .chat ∧ st.floorAge p.writeClass ≤ t - p.starvedSince

def Escalated (st : State R D ρ) (p : Pending D ρ) (t : Nat) : Prop :=
  st.effectiveRank p t < p.writeClass.rank

/-- One of these has come to hold of a head since. -/
def Gains (st : State R D ρ) (p : Pending D ρ) (now t : Nat) : Prop :=
  now < t ∧ (¬ Due p now ∧ Due p t ∨ ¬ Aged st p now ∧ Aged st p t ∨
    ¬ Escalated st p now ∧ Escalated st p t)

theorem due_of_le {p : Pending D ρ} {t : Nat} : Due p t ↔ ∃ d, p.deadline = some d ∧ d ≤ t := by
  simp [Due, Option.any_eq_true]

/-- A chat write has no class to escalate to. -/
theorem escalated_iff {st : State R D ρ} {p : Pending D ρ} {t : Nat} :
    Escalated st p t ↔
      p.writeClass ≠ .chat ∧ st.cfg.ageBound p.writeClass ≤ t - p.starvedSince := by
  unfold Escalated State.effectiveRank
  dsimp only
  cases p.writeClass <;> split <;> simp_all [WriteClass.rank]

/-- What a head gains it gains at an instant that was still ahead. -/
theorem gains_crossing {st : State R D ρ} {p : Pending D ρ} {now t : Nat}
    (h : Gains st p now t) : ∃ w ∈ crossings st p now, w ≤ t := by
  obtain ⟨later, due | aged | escalated⟩ := h
  · rw [due_of_le, due_of_le] at due
    obtain ⟨notYet, d, hd, passed⟩ := due
    have ahead : now < d := Nat.lt_of_not_le fun h => notYet ⟨d, hd, h⟩
    exact ⟨d, by simp [crossings, hd, ahead], passed⟩
  · obtain ⟨notYet, nonchat, passed⟩ := aged
    have young : ¬ st.floorAge p.writeClass ≤ now - p.starvedSince := fun h => notYet ⟨nonchat, h⟩
    unfold State.floorAge at young passed
    refine ⟨p.starvedSince + st.cfg.ageBound p.writeClass * 2, ?_, by omega⟩
    simp only [crossings, if_neg nonchat]
    exact List.mem_filter.2 ⟨List.mem_append_right _ (by simp), decide_eq_true (by omega)⟩
  · rw [escalated_iff, escalated_iff] at escalated
    obtain ⟨notYet, nonchat, passed⟩ := escalated
    have young : ¬ st.cfg.ageBound p.writeClass ≤ now - p.starvedSince :=
      fun h => notYet ⟨nonchat, h⟩
    refine ⟨p.starvedSince + st.cfg.ageBound p.writeClass, ?_, by omega⟩
    simp only [crossings, if_neg nonchat]
    exact List.mem_filter.2 ⟨List.mem_append_right _ (by simp), decide_eq_true (by omega)⟩

variable [DecidableEq R]

/-- The driver sleeps to an instant ahead of it, and through none at which an
idle head gains anything; a pass that found nothing finds nothing till then. -/
structure Wakes (st : State R D ρ) (now : Nat) : Prop where
  ahead : ∀ w, nextWakeup st now = some w → now < w
  inTime : ∀ h ∈ st.heads, ∀ t, Gains st h.2 now t → ∃ w, nextWakeup st now = some w ∧ w ≤ t
  asleep : st.next now = none → ∀ t, now ≤ t → (∀ w, nextWakeup st now = some w → t < w) →
    st.next t = none

section

variable {st : State R D ρ} {now : Nat}

theorem nextWakeup_ahead {w : Nat} (h : nextWakeup st now = some w) : now < w := by
  obtain ⟨head, -, hw⟩ := List.mem_flatMap.1 (List.min?_mem h)
  exact of_decide_eq_true (List.mem_filter.1 hw).2

theorem nextWakeup_le {head : R × Pending D ρ} (mem : head ∈ st.heads) {w : Nat}
    (hw : w ∈ crossings st head.2 now) : ∃ v, nextWakeup st now = some v ∧ v ≤ w := by
  have some_ : w ∈ st.heads.flatMap fun h => crossings st h.2 now :=
    List.mem_flatMap.2 ⟨head, mem, hw⟩
  cases hv : nextWakeup st now with
  | none =>
    rw [nextWakeup, List.min?_eq_none_iff] at hv
    rw [hv] at some_
    cases some_
  | some v => exact ⟨v, rfl, (List.min?_eq_some_iff.1 hv).2 w some_⟩

/-! ## When nothing is eligible -/

theorem pickFloor_none {t : Nat} :
    st.pickFloor t = none ↔ ∀ h ∈ st.nonchatHeads, ¬ Due h.2 t ∧
      ¬ st.floorAge h.2.writeClass ≤ t - h.2.starvedSince := by
  unfold State.pickFloor
  dsimp only
  split
  · rename_i h hmin
    refine iff_of_false (by simp) fun none_ => ?_
    obtain ⟨mem, due⟩ := List.mem_filter.1 (List.argmin_mem hmin)
    exact (none_ h mem).1 due
  · rename_i noneDue
    have idle : ∀ h ∈ st.nonchatHeads, ¬ Due h.2 t :=
      List.filter_eq_nil_iff.1 (List.argmin_eq_none.1 noneDue)
    rw [Option.map_eq_none_iff, List.argmin_eq_none, List.filter_eq_nil_iff]
    simp only [decide_eq_true_eq]
    exact ⟨fun h head mem => ⟨idle head mem, h head mem⟩, fun h head mem => (h head mem).2⟩

/-- No lane has a candidate. -/
theorem next_none {t : Nat} :
    st.next t = none ↔ (st.floorInFlight < 1 → st.pickFloor t = none) ∧ st.chatHeads = [] ∧
      (st.nonchatHeads ≠ [] → st.cfg.nonchatCap ≤ st.windowInFlight) := by
  have chat : st.pickChatReady = none ↔ st.chatHeads = [] := by
    rw [State.pickChatReady, Option.map_eq_none_iff, List.argmin_eq_none]
  have best : st.pickBestNonchat t = none ↔ st.nonchatHeads = [] := by
    rw [State.pickBestNonchat, Option.map_eq_none_iff, List.argmin_eq_none]
  have room : st.windowInFlight < min st.distinctPendingNonchat st.cfg.nonchatCap ↔
      st.nonchatHeads ≠ [] ∧ st.windowInFlight < st.cfg.nonchatCap := by
    rw [State.distinctPendingNonchat, ← List.length_pos_iff]
    omega
  unfold State.next
  split
  · rename_i r hr
    refine iff_of_false (by simp) fun h => ?_
    split at hr
    · rename_i free
      rw [h.1 free] at hr
      cases hr
    · cases hr
  · rename_i floor
    have floor' : st.floorInFlight < 1 → st.pickFloor t = none := fun free => by
      rwa [if_pos free] at floor
    split
    · rename_i r hr
      refine iff_of_false (by simp) fun h => ?_
      rw [chat.2 h.2.1] at hr
      cases hr
    · rename_i noChat
      split
      · rename_i open_
        obtain ⟨some_, below⟩ := room.1 open_
        rw [Option.map_eq_none_iff, best]
        exact iff_of_false some_ fun h => by
          have := h.2.2 some_
          omega
      · rename_i full
        refine iff_of_true rfl ⟨floor', chat.1 noChat, fun some_ => ?_⟩
        exact Nat.le_of_not_lt fun below => full (room.2 ⟨some_, below⟩)

theorem wakes (st : State R D ρ) (now : Nat) : Wakes st now := by
  have inTime : ∀ h ∈ st.heads, ∀ t, Gains st h.2 now t →
      ∃ w, nextWakeup st now = some w ∧ w ≤ t := by
    intro h mem t gains
    obtain ⟨w, hw, passed⟩ := gains_crossing gains
    obtain ⟨v, hv, first⟩ := nextWakeup_le mem hw
    exact ⟨v, hv, first.trans passed⟩
  refine ⟨fun _ => nextWakeup_ahead, inTime, fun idle t later asleep => ?_⟩
  rcases Nat.eq_or_lt_of_le later with rfl | later
  · exact idle
  rw [next_none] at idle ⊢
  obtain ⟨floor, chat, window⟩ := idle
  refine ⟨fun free => pickFloor_none.2 fun h mem => ?_, chat, window⟩
  obtain ⟨notDue, young⟩ := pickFloor_none.1 (floor free) h mem
  obtain ⟨isHead, nonchat⟩ := List.mem_filter.1 mem
  -- what the head had come to by then it would have been woken for
  have still : ¬ Gains st h.2 now t := fun gains => by
    obtain ⟨w, hw, passed⟩ := inTime h isHead t gains
    exact Nat.not_lt.2 passed (asleep w hw)
  refine ⟨fun due => still ⟨later, .inl ⟨notDue, due⟩⟩, fun aged => ?_⟩
  exact still ⟨later, .inr (.inl ⟨fun h => young h.2, of_decide_eq_true nonchat, aged⟩)⟩

end

/-! ## The lanes -/

/-- The lanes count the writes in flight on them, and hold no more than they
may. -/
structure Counted (cfg : SchedulerConfig) (f : Funnel R D ρ) : Prop where
  lanes : Lanes f
  cfg : f.st.cfg = cfg
  floor : f.st.floorInFlight ≤ 1
  window : f.st.windowInFlight ≤ f.st.cfg.nonchatCap

/-- A lane a write is picked for has room. -/
theorem next_room {st : State R D ρ} {now : Nat} {r : R} {lane : DispatchLane}
    (h : st.next now = some (r, lane)) :
    (lane = .floor → st.floorInFlight < 1) ∧
      (lane = .window → st.windowInFlight < st.cfg.nonchatCap) := by
  unfold State.next at h
  split at h
  · rename_i floor
    cases h
    split at floor
    · rename_i free
      exact ⟨fun _ => free, fun other => by cases other⟩
    · cases floor
  · split at h
    · cases h
      exact ⟨fun other => (by cases other), fun other => (by cases other)⟩
    · split at h
      · rename_i room
        obtain ⟨r', -, heq⟩ := Option.map_eq_some_iff.1 h
        cases heq
        exact ⟨fun other => (by cases other), fun _ => room.trans_le (Nat.min_le_right _ _)⟩
      · cases h

theorem dispatch_cfg (st : State R D ρ) (r : R) (lane : DispatchLane) :
    (st.dispatch r lane).1.cfg = st.cfg := by
  unfold State.dispatch
  split <;> rfl

variable {cfg : SchedulerConfig}

theorem Counted.dispatch {f : Funnel R D ρ} (h : Counted cfg f) {now : Nat} {r : R}
    {lane : DispatchLane} {p : Pending D ρ} {rest : List (Pending D ρ)}
    (picked : f.st.next now = some (r, lane)) (hq : f.st.queueOf r = p :: rest) :
    Counted cfg (f.dispatches ((f.st.dispatch r lane).1, [⟨r, lane, p⟩])) := by
  obtain ⟨lanes, same, floor, window⟩ := h
  obtain ⟨floorRoom, windowRoom⟩ := next_room picked
  obtain ⟨nowWindow, nowFloor⟩ := State.dispatch_lanes lane hq
  refine ⟨lanes.dispatch lane hq, (dispatch_cfg _ _ _).trans same, ?_, ?_⟩
  · change (f.st.dispatch r lane).1.floorInFlight ≤ 1
    rw [nowFloor]
    split
    · have := floorRoom ‹_›
      omega
    · exact floor
  · change (f.st.dispatch r lane).1.windowInFlight ≤ (f.st.dispatch r lane).1.cfg.nonchatCap
    rw [nowWindow, dispatch_cfg]
    split
    · exact windowRoom ‹_›
    · exact window

theorem Counted.step {f f' : Funnel R D ρ} {e : Event R D ρ} (h : Counted cfg f)
    (step : Steps f e f') : Counted cfg f' := by
  have lanes := h.lanes.step step
  cases step with
  | enqueue now req =>
    refine ⟨lanes, ?_, ?_, ?_⟩ <;> unfold Funnel.enqueue State.enqueue <;> split
    exacts [h.cfg, h.cfg, h.floor, h.floor, h.window, h.window]
  | tryDispatch now =>
    exact loop_keeps (fun _ _ _ _ _ counted picked _ hq => counted.dispatch picked hq) _ h
  | done busy latency acquireWait =>
    refine ⟨lanes, h.cfg, ?_, ?_⟩
    · have := h.floor
      simp only [State.onDone]
      split <;> omega
    · have := h.window
      simp only [State.onDone]
      split <;> omega

/-- After a pass: no idle record has a chat head, none has any other while the
window has room, nor one that is due or of floor age while the floor lane is
free. -/
structure Served (st : State R D ρ) (now : Nat) : Prop where
  chat : ∀ h ∈ st.heads, h.2.writeClass ≠ .chat
  window : st.windowInFlight < st.cfg.nonchatCap → st.heads = []
  floor : st.floorInFlight = 0 → ∀ h ∈ st.heads, ¬ Due h.2 now ∧ ¬ Aged st h.2 now

theorem served (st : State R D ρ) (now : Nat) : Served (st.tryDispatch now).1 now := by
  obtain ⟨floor, chat, window⟩ := next_none.1 (State.tryDispatch_next st now)
  have noChat : ∀ h ∈ (st.tryDispatch now).1.heads, h.2.writeClass ≠ .chat := fun h mem isChat =>
    List.filter_eq_nil_iff.1 chat h mem (decide_eq_true isChat)
  have nonchat : ∀ h ∈ (st.tryDispatch now).1.heads, h ∈ (st.tryDispatch now).1.nonchatHeads :=
    fun h mem => List.mem_filter.2 ⟨mem, decide_eq_true (noChat h mem)⟩
  refine ⟨noChat, fun room => ?_, fun free h mem => ?_⟩
  · refine List.eq_nil_iff_forall_not_mem.2 fun h mem => ?_
    have := window (List.ne_nil_of_mem (nonchat h mem))
    omega
  · obtain ⟨notDue, young⟩ := pickFloor_none.1 (floor (by omega)) h (nonchat h mem)
    exact ⟨notDue, fun aged => young aged.2⟩

end Daemonseed.Net.Wakeups
