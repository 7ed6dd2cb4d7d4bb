import Daemonseed.Net.FunnelSafety

/-! # Overtaking within a record

The writes of its record that are dispatched while one for an id waits: as many
as were ahead of it, as long as it is not refreshed with others behind it. -/
namespace Daemonseed.Net.Overtaking
open Daemonseed.Lib.Runs Daemonseed.Net.WriteFunnel Daemonseed.Net.FunnelSafety

variable {R D ρ : Type}

def isFor (id : String) (p : Pending D ρ) : Bool := p.kind.logicalId = some id

/-- The writes before the first one for an id. -/
def ahead (id : String) (q : List (Pending D ρ)) : List (Pending D ρ) :=
  q.takeWhile fun p => !isFor id p

/-- The others after it. -/
def behind (id : String) (q : List (Pending D ρ)) : List (Pending D ρ) :=
  (q.dropWhile fun p => !isFor id p).filter fun p => !isFor id p

/-! ## Places in a queue -/

section

variable {id : String} {q rest : List (Pending D ρ)} {p : Pending D ρ}

theorem ahead_all (none_ : ∀ p ∈ q, isFor id p = false) : ahead id q = q :=
  List.takeWhile_eq_self_iff.2 fun p hp => by simp [none_ p hp]

theorem ahead_append_none (none_ : ∀ p ∈ q, isFor id p = false) (here : isFor id p = true) :
    ahead id (q ++ p :: rest) = q := by
  unfold ahead
  rw [List.takeWhile_append_of_pos fun p hp => by simp [none_ p hp]]
  simp [here]

theorem ahead_append_some (some_ : ∃ p ∈ q, isFor id p = true) :
    ahead id (q ++ rest) = ahead id q := by
  induction q with
  | nil =>
    obtain ⟨p, mem, -⟩ := some_
    cases mem
  | cons first q ih =>
    unfold ahead
    rw [List.cons_append, List.takeWhile_cons, List.takeWhile_cons]
    cases here : isFor id first with
    | true => rfl
    | false =>
      obtain ⟨p, mem, hp⟩ := some_
      rcases List.mem_cons.1 mem with rfl | mem
      · rw [here] at hp
        cases hp
      · exact congrArg (first :: ·) (ih ⟨p, mem, hp⟩)

/-- The others are those ahead and those behind. -/
theorem others_split (id : String) (q : List (Pending D ρ)) :
    (q.filter fun p => !isFor id p) = ahead id q ++ behind id q := by
  conv_lhs => rw [← List.takeWhile_append_dropWhile (p := fun p => !isFor id p) (l := q)]
  rw [List.filter_append]
  congr 1
  refine List.filter_eq_self.2 fun p hp => ?_
  have := List.mem_takeWhile_imp hp
  exact this

/-- Where others are removed none comes to be ahead. -/
theorem ahead_filter_le {keeps : Pending D ρ → Bool}
    (spares : ∀ p, isFor id p = true → keeps p = true) (some_ : ∃ p ∈ q, isFor id p = true) :
    (ahead id (q.filter keeps)).length ≤ (ahead id q).length ∧
      ∃ p ∈ q.filter keeps, isFor id p = true := by
  induction q with
  | nil =>
    obtain ⟨p, mem, -⟩ := some_
    cases mem
  | cons first q ih =>
    cases here : isFor id first with
    | true =>
      refine ⟨?_, first, List.mem_filter.2 ⟨List.mem_cons_self, spares first here⟩, here⟩
      rw [List.filter_cons_of_pos (spares first here)]
      simp [ahead, here]
    | false =>
      have some' : ∃ p ∈ q, isFor id p = true := by
        obtain ⟨p, mem, hp⟩ := some_
        rcases List.mem_cons.1 mem with rfl | mem
        · rw [here] at hp
          cases hp
        · exact ⟨p, mem, hp⟩
      obtain ⟨short, p, mem, hp⟩ := ih some'
      have longer : (ahead id (first :: q)).length = (ahead id q).length + 1 := by
        simp [ahead, here]
      rw [longer]
      cases kept : keeps first with
      | true =>
        rw [List.filter_cons_of_pos kept]
        refine ⟨?_, p, List.mem_cons_of_mem _ mem, hp⟩
        have : (ahead id (first :: q.filter keeps)).length = (ahead id (q.filter keeps)).length + 1 := by
          simp [ahead, here]
        omega
      | false =>
        rw [List.filter_cons_of_neg (by simp [kept])]
        exact ⟨by omega, p, mem, hp⟩

end

/-! ## One step -/

section

variable [DecidableEq R]

/-- A request that replaces the write for `id` finds no other behind it. -/
def KeepsPlace (r : R) (id : String) (f : Funnel R D ρ) (e : Event R D ρ) : Prop :=
  ∀ now req, e = .enqueue now req → req.record = r → req.kind.logicalId = some id →
    f.st.suppresses req = false → behind id (f.st.queueOf r) = []

/-- Of what was dispatched and what is queued of a record, at most `n` writes
come before the first for `id`. -/
def InTurn (id : String) (n : Nat) (dispatched queue : List (Pending D ρ)) : Prop :=
  ((∃ p ∈ dispatched, isFor id p = true) ∧ (ahead id dispatched).length ≤ n) ∨
    (∀ p ∈ dispatched, isFor id p = false) ∧ (∃ p ∈ queue, isFor id p = true) ∧
      dispatched.length + (ahead id queue).length ≤ n

omit [DecidableEq R] in
theorem InTurn.head {id : String} {n : Nat} {dispatched rest : List (Pending D ρ)}
    {p : Pending D ρ} (h : InTurn id n dispatched (p :: rest)) :
    InTurn id n (dispatched ++ [p]) rest := by
  rcases h with ⟨some_, few⟩ | ⟨none_, ⟨p', mem, hp'⟩, few⟩
  · refine .inl ⟨?_, by rwa [ahead_append_some some_]⟩
    obtain ⟨p', mem, hp'⟩ := some_
    exact ⟨p', List.mem_append_left _ mem, hp'⟩
  · cases here : isFor id p with
    | true =>
      refine .inl ⟨⟨p, by simp, here⟩, ?_⟩
      rw [ahead_append_none none_ here]
      omega
    | false =>
      refine .inr ⟨fun x hx => ?_, ?_, ?_⟩
      · rcases List.mem_append.1 hx with hx | hx
        · exact none_ x hx
        · rw [List.mem_singleton.1 hx]
          exact here
      · rcases List.mem_cons.1 mem with rfl | mem
        · rw [here] at hp'
          cases hp'
        · exact ⟨p', mem, hp'⟩
      · have : (ahead id (p :: rest)).length = (ahead id rest).length + 1 := by simp [ahead, here]
        rw [List.length_append, List.length_singleton]
        omega

/-- No write for the id of a request taken up is kept. -/
theorem kept_none {st : State R D ρ} {req : WriteRequest R D ρ} {id : String}
    (named : req.kind.logicalId = some id) (taken : st.suppresses req = false) :
    ∀ p ∈ st.kept req, isFor id p = false := by
  intro p hp
  obtain ⟨queued, stays⟩ := List.mem_filter.1 hp
  by_contra here
  have kind : p.kind.logicalId = some id := by simpa [isFor] using here
  cases hk : req.kind with
  | ring => simp [hk, WriteKind.logicalId] at named
  | currentState id' =>
    obtain rfl : id' = id := by simpa [hk, WriteKind.logicalId] using named
    cases hpk : p.kind with
    | ring => simp [hpk, WriteKind.logicalId] at kind
    | currentState other =>
      obtain rfl : other = id' := by simpa [hpk, WriteKind.logicalId] using kind
      simp [hk, hpk, WriteKind.supersedes] at stays
    | tombstone other =>
      obtain rfl : other = id' := by simpa [hpk, WriteKind.logicalId] using kind
      have dom : st.dominated req.record other = true := by
        simp only [State.dominated, Bool.or_eq_true, List.any_eq_true, decide_eq_true_eq]
        exact .inl ⟨p, queued, hpk⟩
      rw [State.suppresses_iff.2 ⟨other, hk, dom⟩] at taken
      cases taken
  | tombstone id' =>
    obtain rfl : id' = id := by simpa [hk, WriteKind.logicalId] using named
    simp [hk, WriteKind.supersedes, kind] at stays

/-- A request taken up in place of a write that is last, or for another id. -/
theorem InTurn.enqueue {st : State R D ρ} {now : Nat} {req : WriteRequest R D ρ} {id : String}
    {n : Nat} {dispatched : List (Pending D ρ)}
    (h : InTurn id n dispatched (st.queueOf req.record)) (taken : st.suppresses req = false)
    (last : req.kind.logicalId = some id → behind id (st.queueOf req.record) = []) :
    InTurn id n dispatched (st.kept req ++ [st.pending now req]) := by
  rcases h with served | ⟨none_, some_, few⟩
  · exact .inl served
  refine .inr ⟨none_, ?_⟩
  by_cases named : req.kind.logicalId = some id
  · have here : isFor id (st.pending now req) = true := decide_eq_true named
    have clear := kept_none named taken
    refine ⟨⟨_, List.mem_append_right _ (List.mem_singleton_self _), here⟩, ?_⟩
    rw [ahead_append_none clear here]
    have others := others_split id (st.queueOf req.record)
    rw [last named, List.append_nil] at others
    have sub : (st.kept req).length ≤ (ahead id (st.queueOf req.record)).length := by
      rw [← others, ← ahead_all clear]
      have same : (st.kept req).filter (fun p => !isFor id p) = st.kept req :=
        List.filter_eq_self.2 fun p hp => by simp [clear p hp]
      rw [ahead_all clear, ← same]
      exact (List.filter_sublist.filter _).length_le
    omega
  · have spares : ∀ p : Pending D ρ, isFor id p = true →
        (!req.kind.supersedes p.kind) = true := by
      intro p here
      rw [Bool.not_eq_true']
      by_contra superseded
      have same := (supersedes_logicalId (Bool.not_eq_false _ ▸ superseded)).1
      exact named (same.trans (by simpa [isFor] using here))
    obtain ⟨short, p, mem, hp⟩ : (ahead id (st.kept req)).length ≤
        (ahead id (st.queueOf req.record)).length ∧ ∃ p ∈ st.kept req, isFor id p = true :=
      ahead_filter_le spares some_
    refine ⟨⟨p, List.mem_append_left _ mem, hp⟩, ?_⟩
    rw [ahead_append_some ⟨p, mem, hp⟩]
    omega

/-- What has been dispatched of a record since, and what it has queued. -/
def Turns (r : R) (id : String) (n : Nat) (earlier : List (Happened R D ρ)) (f : Funnel R D ρ) :
    Prop :=
  ∃ new, f.log = earlier ++ new ∧ InTurn id n (dispatchedOn r new) (f.st.queueOf r)

variable {r : R} {id : String} {n : Nat} {earlier : List (Happened R D ρ)}

theorem Turns.dispatch {f : Funnel R D ρ} (h : Turns r id n earlier f) {r' : R}
    (lane : DispatchLane) {p : Pending D ρ} {rest : List (Pending D ρ)}
    (hq : f.st.queueOf r' = p :: rest) :
    Turns r id n earlier (f.dispatches ((f.st.dispatch r' lane).1, [⟨r', lane, p⟩])) := by
  obtain ⟨new, log, turn⟩ := h
  obtain ⟨queue, queues⟩ := State.dispatch_queueOf lane hq
  refine ⟨new ++ [.dispatched ⟨r', lane, p⟩], by simp [Funnel.dispatches, log], ?_⟩
  rw [dispatchedOn_append]
  by_cases hr : r' = r
  · subst hr
    rw [hq] at turn
    have : dispatchedOn r' [.dispatched ⟨r', lane, p⟩] = [p] := by simp [dispatchedOn]
    rw [this]
    exact queue ▸ turn.head
  · have : dispatchedOn r [.dispatched ⟨r', lane, p⟩] = [] := by simp [dispatchedOn, hr]
    rw [this, List.append_nil]
    exact queues r (Ne.symm hr) ▸ turn

theorem enqueues_dispatchedOn (f : Funnel R D ρ) (now : Nat) (req : WriteRequest R D ρ) :
    dispatchedOn r (f.enqueues now req) = [] := by
  unfold Funnel.enqueues
  split
  · rfl
  · exact replaces_dispatchedOn f now req r

theorem Turns.step {f f' : Funnel R D ρ} {e : Event R D ρ} (h : Turns r id n earlier f)
    (step : Steps f e f') (keeps : KeepsPlace r id f e) : Turns r id n earlier f' := by
  cases step with
  | enqueue now req =>
    obtain ⟨new, log, turn⟩ := h
    refine ⟨new ++ f.enqueues now req, by simp [Funnel.enqueue, log], ?_⟩
    rw [dispatchedOn_append, enqueues_dispatchedOn, List.append_nil]
    by_cases hr : req.record = r
    · subst hr
      cases hs : f.st.suppresses req with
      | true => exact (State.enqueue_suppressed now hs).symm ▸ turn
      | false =>
        have taken : InTurn id n (dispatchedOn req.record new) (f.st.kept req ++ [f.st.pending now req]) :=
          turn.enqueue hs fun named => keeps now req rfl rfl named hs
        exact (State.enqueue_taken now hs).symm ▸ taken
    · exact (State.enqueue_other now (Ne.symm hr)).symm ▸ turn
  | tryDispatch now =>
    exact loop_keeps (I := Turns r id n earlier)
      (fun _ _ lane _ _ turns _ _ hq => turns.dispatch lane hq) _ h
  | @done before after d busy latency acquireWait =>
    obtain ⟨new, log, turn⟩ := h
    refine ⟨new ++ [.completed d], by simp [log], ?_⟩
    have none_ : dispatchedOn r [.completed d] = [] := rfl
    rw [dispatchedOn_append, none_, List.append_nil]
    exact turn

end

/-! ## A refresh with others behind it -/

/-- A message for the ring, and a refresh of a share's advert. -/
def message : Move Unit Unit Unit := .enqueue 0 ⟨(), .chat, .ring, none, (), none⟩

def advert : Move Unit Unit Unit :=
  .enqueue 0 ⟨(), .advertRefresh, .currentState "share", none, (), none⟩

/-- One message is in flight, one is queued, and an advert behind it. -/
def waiting : List (Move Unit Unit Unit) := [message, .tryDispatch 0, message, advert]

/-- Each message that comes behind the advert is ahead of its refresh. -/
def refreshed : List (Move Unit Unit Unit) :=
  [.done, .tryDispatch 0, message, advert, .done, .tryDispatch 0, message, advert, .done,
    .tryDispatch 0]

end Daemonseed.Net.Overtaking
