import Mathlib

/-! # The write scheduler

The state of the one funnel every record write passes through: its per-record
queues, what is in flight, and the rules by which a write is coalesced, picked
and dispatched. Instants and durations are milliseconds on one clock; the
task a dispatch spawns is beside the state, in `FunnelSafety`. -/
namespace Daemonseed.Net.WriteFunnel

/-- Which pool a dispatched write draws. -/
inductive DispatchLane
  | chat
  | floor
  | window
  deriving DecidableEq, Repr

inductive WriteClass
  | chat
  | sessionBoundary
  | advertRefresh
  | keepalive
  | republish
  deriving DecidableEq, Repr

/-- The sort key, 1 the highest. -/
def WriteClass.rank : WriteClass → Nat
  | .chat => 1
  | .sessionBoundary => 2
  | .advertRefresh => 3
  | .keepalive => 4
  | .republish => 5

theorem WriteClass.rank_sub_one_lt (c : WriteClass) : c.rank - 1 < 5 := by cases c <;> decide

/-- How a write interacts with the others of its record. -/
inductive WriteKind
  | ring
  | currentState (logicalId : String)
  | tombstone (logicalId : String)
  deriving DecidableEq, Repr

namespace WriteKind

def logicalId : WriteKind → Option String
  | .ring => none
  | .currentState id | .tombstone id => some id

def isTombstone : WriteKind → Bool
  | .tombstone _ => true
  | _ => false

/-- Whether a queued write of kind `old` gives way to one of this kind. -/
def supersedes (self old : WriteKind) : Bool :=
  match self with
  | .ring => false
  | .currentState id => old = .currentState id
  | .tombstone id => old.logicalId = some id

end WriteKind

variable {R D ρ : Type}

structure WriteRequest (R D ρ : Type) where
  record : R
  writeClass : WriteClass
  kind : WriteKind
  deadline : Option Nat
  item : D
  reply : Option ρ

/-- A queued write. -/
structure Pending (D ρ : Type) where
  seq : Nat
  enqueued : Nat
  starvedSince : Nat
  writeClass : WriteClass
  kind : WriteKind
  deadline : Option Nat
  item : D
  reply : Option ρ

/-- A write handed to the sink. -/
structure Dispatched (R D ρ : Type) where
  record : R
  lane : DispatchLane
  pending : Pending D ρ

/-- A dispatched write's completion. -/
structure Done (R : Type) where
  record : R
  lane : DispatchLane
  latency : Nat
  acquireWait : Option Nat

structure SchedulerConfig where
  nonchatCap : Nat
  ageBounds : Vector Nat 5

def SchedulerConfig.ageBound (cfg : SchedulerConfig) (c : WriteClass) : Nat :=
  cfg.ageBounds.get ⟨c.rank - 1, c.rank_sub_one_lt⟩

def SchedulerConfig.default : SchedulerConfig :=
  ⟨2, #v[2000, 30000, 60000, 120000, 90000]⟩

structure State (R D ρ : Type) where
  cfg : SchedulerConfig
  queues : AList fun _ : R => List (Pending D ρ)
  inFlight : Finset R
  /-- The logical id of a tombstone in flight. -/
  inFlightTombstone : R → Option String
  windowInFlight : Nat
  floorInFlight : Nat
  latencyProbe : Nat
  latencyRing : List Nat
  seq : Nat

def latencyWindow : Nat := 5

/-- The median over a full window, padded with calm samples. -/
def medianMs (ring : List Nat) : Nat :=
  let v := (ring ++ List.replicate (latencyWindow - ring.length) 0).mergeSort
  v.getD (v.length / 2) 0

/-- The higher-priority of two classes. -/
def strongestClass (a b : WriteClass) : WriteClass := if a.rank ≤ b.rank then a else b

/-- What a coalescing supersession inherits from the writes it dropped. -/
structure Coalesced where
  starvedSince : Nat
  strongest : WriteClass

/-- The oldest clock and the strongest class of the writes dropped. -/
def coalesced (dropped : List (Pending D ρ)) : Option Coalesced :=
  dropped.foldl (fun acc p => some <|
    match acc with
    | none => ⟨p.starvedSince, p.writeClass⟩
    | some acc => ⟨min acc.starvedSince p.starvedSince, strongestClass acc.strongest p.writeClass⟩)
    none

namespace State

def new (cfg : SchedulerConfig) : State R D ρ where
  cfg := cfg
  queues := ∅
  inFlight := ∅
  inFlightTombstone _ := none
  windowInFlight := 0
  floorInFlight := 0
  latencyProbe := 0
  latencyRing := []
  seq := 0

variable [DecidableEq R]

/-- What is pending on a record. -/
def queueOf (st : State R D ρ) (r : R) : List (Pending D ρ) := (st.queues.lookup r).getD []

/-- Whether a tombstone of this id is queued or in flight. -/
def dominated (st : State R D ρ) (r : R) (id : String) : Bool :=
  (st.queueOf r).any (fun p => p.kind = .tombstone id) || st.inFlightTombstone r = some id

/-- Whether a tombstone suppresses a request entirely. -/
def suppresses (st : State R D ρ) (req : WriteRequest R D ρ) : Bool :=
  match req.kind with
  | .currentState id => st.dominated req.record id
  | .ring | .tombstone _ => false

/-- The queued writes a request drops, and those it keeps. -/
def dropped (st : State R D ρ) (req : WriteRequest R D ρ) : List (Pending D ρ) :=
  (st.queueOf req.record).filter fun p => req.kind.supersedes p.kind

def kept (st : State R D ρ) (req : WriteRequest R D ρ) : List (Pending D ρ) :=
  (st.queueOf req.record).filter fun p => !req.kind.supersedes p.kind

/-- What a request is queued as: a current-state write inherits the clock and
the class of those it drops. -/
def pending (st : State R D ρ) (now : Nat) (req : WriteRequest R D ρ) : Pending D ρ :=
  let inherited :=
    match req.kind with
    | .currentState _ => coalesced (st.dropped req)
    | .ring | .tombstone _ => none
  { seq := st.seq
    enqueued := now
    starvedSince := (inherited.map (·.starvedSince)).getD now
    writeClass := (inherited.map fun c => strongestClass req.writeClass c.strongest).getD
      req.writeClass
    kind := req.kind
    deadline := req.deadline
    item := req.item
    reply := req.reply }

/-- Coalesce, dominate and enqueue, or drop the request; beside the state, the
replies that are resolved `Ok`. -/
def enqueue (st : State R D ρ) (now : Nat) (req : WriteRequest R D ρ) :
    State R D ρ × List (Option ρ) :=
  if st.suppresses req then
    ({ st with queues := st.queues.insert req.record (st.queueOf req.record) }, [req.reply])
  else
    ({ st with
        queues := st.queues.insert req.record (st.kept req ++ [st.pending now req])
        seq := st.seq + 1 },
      (st.dropped req).map (·.reply))

/-! ## Picking -/

def idle (st : State R D ρ) (r : R) : Bool := r ∉ st.inFlight

/-- The heads of the idle records. -/
def heads (st : State R D ρ) : List (R × Pending D ρ) :=
  st.queues.entries.filterMap fun e => if st.idle e.1 then e.2.head?.map (e.1, ·) else none

def chatHeads (st : State R D ρ) : List (R × Pending D ρ) :=
  st.heads.filter fun h => h.2.writeClass = .chat

def nonchatHeads (st : State R D ρ) : List (R × Pending D ρ) :=
  st.heads.filter fun h => h.2.writeClass ≠ .chat

def distinctPendingNonchat (st : State R D ρ) : Nat :=
  st.nonchatHeads.length + st.windowInFlight

def floorAge (st : State R D ρ) (c : WriteClass) : Nat := st.cfg.ageBound c * 2

/-- Deadline-due writes first, by deadline; else those starved beyond the floor
age, by class before age. -/
def pickFloor (st : State R D ρ) (now : Nat) : Option R :=
  let due := (st.nonchatHeads.filter fun h => h.2.deadline.any (· ≤ now)).argmin
    fun h => toLex (h.2.deadline.getD 0, h.2.seq)
  match due with
  | some h => some h.1
  | none =>
    let starved := (st.nonchatHeads.filter fun h =>
      st.floorAge h.2.writeClass ≤ now - h.2.starvedSince).argmin
        fun h => toLex (h.2.writeClass.rank, toLex (h.2.starvedSince, h.2.seq))
    starved.map (·.1)

def pickChatReady (st : State R D ρ) : Option R :=
  (st.chatHeads.argmin fun h => h.2.seq).map (·.1)

/-- A write starved past its class's bound escalates one class. -/
def effectiveRank (st : State R D ρ) (p : Pending D ρ) (now : Nat) : Nat :=
  let rank := p.writeClass.rank
  if st.cfg.ageBound p.writeClass ≤ now - p.starvedSince then max (rank - 1) 1 else rank

def pickBestNonchat (st : State R D ρ) (now : Nat) : Option R :=
  (st.nonchatHeads.argmin fun h => toLex (st.effectiveRank h.2 now, h.2.seq)).map (·.1)

/-! ## Dispatching -/

/-- The queues with what is left of one; an empty one is removed. -/
def leave (st : State R D ρ) (r : R) (rest : List (Pending D ρ)) :
    AList fun _ : R => List (Pending D ρ) :=
  if rest.isEmpty then st.queues.erase r else st.queues.insert r rest

/-- Pop the head of a record's queue onto a lane. -/
def dispatch (st : State R D ρ) (r : R) (lane : DispatchLane) :
    State R D ρ × Option (Dispatched R D ρ) :=
  match st.queueOf r with
  | [] => (st, none)
  | p :: rest =>
    ({ st with
        queues := st.leave r rest
        inFlight := insert r st.inFlight
        inFlightTombstone :=
          match p.kind with
          | .tombstone id => Function.update st.inFlightTombstone r (some id)
          | .ring | .currentState _ => st.inFlightTombstone
        windowInFlight := if lane = .window then st.windowInFlight + 1 else st.windowInFlight
        floorInFlight := if lane = .floor then st.floorInFlight + 1 else st.floorInFlight },
      some ⟨r, lane, p⟩)

/-- What one pass of the loop dispatches: the floor lane, the chat lane, then
the window. -/
def next (st : State R D ρ) (now : Nat) : Option (R × DispatchLane) :=
  match if st.floorInFlight < 1 then st.pickFloor now else none with
  | some r => some (r, .floor)
  | none =>
    match st.pickChatReady with
    | some r => some (r, .chat)
    | none =>
      if st.windowInFlight < min st.distinctPendingNonchat st.cfg.nonchatCap then
        (st.pickBestNonchat now).map (·, .window)
      else none

/-- Dispatch what is picked, at most `fuel` times. -/
def passLoop (pick : State R D ρ → Option (R × DispatchLane)) :
    (fuel : Nat) → State R D ρ → State R D ρ × List (Dispatched R D ρ)
  | 0, st => (st, [])
  | fuel + 1, st =>
    match pick st with
    | none => (st, [])
    | some (r, lane) =>
      let (after, dispatched) := st.dispatch r lane
      let (last, rest) := passLoop pick fuel after
      (last, dispatched.toList ++ rest)

/-- Everything queued. -/
def backlog (st : State R D ρ) : Nat := (st.queues.entries.map (·.2.length)).sum

/-- The loop, for at most `fuel` dispatches. -/
def dispatchLoop (now : Nat) : (fuel : Nat) → State R D ρ → State R D ρ × List (Dispatched R D ρ)
  | 0, st => (st, [])
  | fuel + 1, st =>
    match st.next now with
    | none => (st, [])
    | some (r, lane) =>
      let (after, dispatched) := st.dispatch r lane
      let (last, rest) := dispatchLoop now fuel after
      (last, dispatched.toList ++ rest)

/-- Dispatch as many writes as are eligible; each takes one off the backlog. -/
def tryDispatch (st : State R D ρ) (now : Nat) : State R D ρ × List (Dispatched R D ρ) :=
  dispatchLoop now st.backlog st

/-! ## Completing -/

def onDone (st : State R D ρ) (d : Done R) : State R D ρ :=
  let ring := (st.latencyRing ++ [min d.latency (2 ^ 64 - 1)])
  let ring := ring.drop (ring.length - latencyWindow)
  { st with
    inFlight := st.inFlight.erase d.record
    inFlightTombstone := Function.update st.inFlightTombstone d.record none
    windowInFlight := if d.lane = .window then st.windowInFlight - 1 else st.windowInFlight
    floorInFlight := if d.lane = .floor then st.floorInFlight - 1 else st.floorInFlight
    latencyRing := if d.lane = .chat then st.latencyRing else ring
    latencyProbe := if d.lane = .chat then st.latencyProbe else medianMs ring }

/-! ## What an operation leaves -/

section

variable {st : State R D ρ} {r other : R} {lane : DispatchLane}

theorem suppresses_iff {req : WriteRequest R D ρ} :
    st.suppresses req = true ↔
      ∃ id, req.kind = .currentState id ∧ st.dominated req.record id = true := by
  unfold suppresses
  cases req.kind <;> simp

theorem queueOf_insert_self (q : List (Pending D ρ)) :
    queueOf { st with queues := st.queues.insert r q } r = q := by
  simp [queueOf]

theorem queueOf_insert_other (q : List (Pending D ρ)) (h : other ≠ r) :
    queueOf { st with queues := st.queues.insert r q } other = st.queueOf other := by
  simp [queueOf, AList.lookup_insert_ne h]

/-- What an enqueue leaves of the queues. -/
theorem enqueue_taken (now : Nat) {req : WriteRequest R D ρ} (taken : st.suppresses req = false) :
    (st.enqueue now req).1.queueOf req.record = st.kept req ++ [st.pending now req] := by
  rw [enqueue, if_neg (by simp [taken])]
  exact queueOf_insert_self _

theorem enqueue_suppressed (now : Nat) {req : WriteRequest R D ρ}
    (suppressed : st.suppresses req = true) :
    (st.enqueue now req).1.queueOf req.record = st.queueOf req.record := by
  rw [enqueue, if_pos suppressed]
  exact queueOf_insert_self _

theorem enqueue_other (now : Nat) {req : WriteRequest R D ρ} (h : other ≠ req.record) :
    (st.enqueue now req).1.queueOf other = st.queueOf other := by
  unfold enqueue
  split
  · exact queueOf_insert_other _ h
  · exact queueOf_insert_other _ h

theorem lookup_leave_self (rest : List (Pending D ρ)) :
    ((st.leave r rest).lookup r).getD [] = rest := by
  unfold leave
  cases rest <;> simp

theorem lookup_leave_other (rest : List (Pending D ρ)) (h : other ≠ r) :
    (st.leave r rest).lookup other = st.queues.lookup other := by
  unfold leave
  split
  · exact AList.lookup_erase_ne h
  · exact AList.lookup_insert_ne h

variable (lane) in
/-- What a dispatch leaves of the queues. -/
theorem dispatch_queueOf {p : Pending D ρ} {rest : List (Pending D ρ)}
    (h : st.queueOf r = p :: rest) :
    (st.dispatch r lane).1.queueOf r = rest ∧
      ∀ other ≠ r, (st.dispatch r lane).1.queueOf other = st.queueOf other := by
  have queues : (st.dispatch r lane).1.queues = st.leave r rest := by simp only [dispatch, h]
  refine ⟨?_, fun other ho => ?_⟩
  · rw [queueOf, queues, lookup_leave_self]
  · rw [queueOf, queues, lookup_leave_other rest ho, queueOf]

theorem dispatch_dispatched {p : Pending D ρ} {rest : List (Pending D ρ)}
    (h : st.queueOf r = p :: rest) : (st.dispatch r lane).2 = some ⟨r, lane, p⟩ := by
  simp only [dispatch, h]

theorem dispatch_inFlight {p : Pending D ρ} {rest : List (Pending D ρ)}
    (h : st.queueOf r = p :: rest) :
    (st.dispatch r lane).1.inFlight = insert r st.inFlight := by
  simp only [dispatch, h]

theorem dispatch_tombstone {p : Pending D ρ} {rest : List (Pending D ρ)}
    (h : st.queueOf r = p :: rest) (other : R) :
    (st.dispatch r lane).1.inFlightTombstone other =
      if other = r then (match p.kind with
        | .tombstone id => some id
        | .ring | .currentState _ => st.inFlightTombstone r)
      else st.inFlightTombstone other := by
  simp only [dispatch, h]
  by_cases ho : other = r
  · subst ho
    cases p.kind <;> simp
  · cases p.kind <;> simp [ho]

variable (lane) in
theorem dispatch_lanes {p : Pending D ρ} {rest : List (Pending D ρ)}
    (h : st.queueOf r = p :: rest) :
    (st.dispatch r lane).1.windowInFlight =
        st.windowInFlight + (if lane = .window then 1 else 0) ∧
      (st.dispatch r lane).1.floorInFlight =
        st.floorInFlight + if lane = .floor then 1 else 0 := by
  simp only [dispatch, h]
  constructor <;> split <;> rfl

@[simp] theorem dispatch_seq : (st.dispatch r lane).1.seq = st.seq := by
  unfold dispatch
  split <;> rfl

/-! ## What is picked -/

/-- A head is the first write pending on an idle record. -/
theorem mem_heads {h : R × Pending D ρ} :
    h ∈ st.heads ↔ h.1 ∉ st.inFlight ∧ (st.queueOf h.1).head? = some h.2 := by
  obtain ⟨r, p⟩ := h
  have lookup : ∀ q, (⟨r, q⟩ : Sigma fun _ => List (Pending D ρ)) ∈ st.queues.entries ↔
      st.queues.lookup r = some q := fun q =>
    (Option.mem_def.symm.trans AList.mem_lookup_iff).symm
  simp only [heads, List.mem_filterMap, idle, queueOf]
  constructor
  · rintro ⟨⟨r', q⟩, hmem, hq⟩
    obtain ⟨hidle, hq⟩ := Option.ite_none_right_eq_some.1 hq
    obtain ⟨p', hp', heq⟩ := Option.map_eq_some_iff.1 hq
    cases heq
    rw [(lookup q).1 hmem]
    exact ⟨by simpa using hidle, hp'⟩
  · rintro ⟨hidle, hq⟩
    cases hl : st.queues.lookup r with
    | none => simp [hl] at hq
    | some q =>
      rw [hl, Option.getD_some] at hq
      exact ⟨⟨r, q⟩, (lookup q).2 hl, by simp [hidle, hq]⟩

/-- The first write of `r` is dispatchable. -/
def Ready (st : State R D ρ) (r : R) : Prop := r ∉ st.inFlight ∧ ∃ p rest, st.queueOf r = p :: rest

theorem ready_of_head {h : R × Pending D ρ} (mem : h ∈ st.heads) : st.Ready h.1 := by
  obtain ⟨hidle, hq⟩ := mem_heads.1 mem
  obtain ⟨rest, hrest⟩ := List.head?_eq_some_iff.1 hq
  exact ⟨hidle, h.2, rest, hrest⟩

theorem next_ready {now : Nat} (h : st.next now = some (r, lane)) : st.Ready r := by
  have ofArgmin : ∀ {β : Type} [LinearOrder β] {l : List (R × Pending D ρ)}
      {f : R × Pending D ρ → β} {r : R}, (∀ x ∈ l, x ∈ st.heads) →
        (l.argmin f).map (·.1) = some r → st.Ready r := by
    intro β _ l f r sub hr
    obtain ⟨x, hx, rfl⟩ := Option.map_eq_some_iff.1 hr
    exact ready_of_head (sub x (List.argmin_mem hx))
  have chat : ∀ x ∈ st.chatHeads, x ∈ st.heads := fun x hx => (List.mem_filter.1 hx).1
  have nonchat : ∀ x ∈ st.nonchatHeads, x ∈ st.heads := fun x hx => (List.mem_filter.1 hx).1
  have floor : ∀ {r}, st.pickFloor now = some r → st.Ready r := by
    intro r hr
    unfold pickFloor at hr
    dsimp only at hr
    split at hr
    · rename_i x hx
      cases hr
      exact ready_of_head (nonchat x (List.mem_filter.1 (List.argmin_mem hx)).1)
    · exact ofArgmin (fun x hx => nonchat x (List.mem_filter.1 hx).1) hr
  unfold next at h
  split at h
  · rename_i r' hr
    cases h
    split at hr
    · exact floor hr
    · cases hr
  · split at h
    · rename_i r' hr
      cases h
      exact ofArgmin chat hr
    · split at h
      · obtain ⟨r', hr, heq⟩ := Option.map_eq_some_iff.1 h
        cases heq
        exact ofArgmin nonchat hr
      · cases h

/-! ## The loop ends -/

/-- One record's queue apart from the others'. -/
theorem backlog_split {q : List (Pending D ρ)} (h : st.queues.lookup r = some q) :
    st.backlog = q.length + ((st.queues.entries.kerase r).map (·.2.length)).sum := by
  have mem : (⟨r, q⟩ : Sigma fun _ => List (Pending D ρ)) ∈ st.queues.entries :=
    AList.mem_lookup_iff.1 h
  obtain ⟨q', before, after, -, split, erased⟩ :=
    List.exists_of_kerase (List.mem_keys_of_mem mem)
  have same : st.queues.lookup r = some q' :=
    AList.mem_lookup_iff.2 (by rw [split]; simp)
  obtain rfl : q = q' := Option.some.inj (h.symm.trans same)
  rw [backlog, erased, split]
  simp only [List.map_append, List.map_cons, List.sum_append, List.sum_cons]
  omega

variable (lane) in
/-- A dispatch takes one write off the backlog. -/
theorem dispatch_backlog {p : Pending D ρ} {rest : List (Pending D ρ)}
    (h : st.queueOf r = p :: rest) : (st.dispatch r lane).1.backlog + 1 = st.backlog := by
  have lookup : st.queues.lookup r = some (p :: rest) := by
    unfold queueOf at h
    cases hl : st.queues.lookup r with
    | none => simp [hl] at h
    | some q => rw [← h, hl, Option.getD_some]
  have queues : (st.dispatch r lane).1.queues = st.leave r rest := by simp only [dispatch, h]
  rw [backlog_split lookup, backlog, queues, leave]
  cases rest with
  | nil => simp [AList.erase, Nat.add_comm]
  | cons q rest => simp [AList.entries_insert]; omega

theorem dispatchLoop_eq (now fuel : Nat) (st : State R D ρ) :
    dispatchLoop now fuel st = passLoop (·.next now) fuel st := by
  induction fuel generalizing st with
  | zero => rfl
  | succ fuel ih =>
    simp only [dispatchLoop, passLoop, ih]

/-- A pass that dispatches heads goes on until none is picked. -/
theorem passLoop_none {pick : State R D ρ → Option (R × DispatchLane)}
    (ready : ∀ st r lane, pick st = some (r, lane) → st.Ready r) (fuel : Nat) (st : State R D ρ)
    (enough : st.backlog ≤ fuel) : pick (passLoop pick fuel st).1 = none := by
  induction fuel generalizing st with
  | zero =>
    cases hn : pick st with
    | none => exact hn
    | some x =>
      obtain ⟨r, lane⟩ := x
      obtain ⟨-, p, rest, hq⟩ := ready st r lane hn
      have := dispatch_backlog lane hq
      omega
  | succ fuel ih =>
    unfold passLoop
    cases hn : pick st with
    | none => exact hn
    | some x =>
      obtain ⟨r, lane⟩ := x
      obtain ⟨-, p, rest, hq⟩ := ready st r lane hn
      have := dispatch_backlog lane hq
      exact ih _ (by omega)

/-- **The loop goes on until nothing is eligible.** -/
theorem tryDispatch_next (st : State R D ρ) (now : Nat) :
    (st.tryDispatch now).1.next now = none := by
  rw [tryDispatch, dispatchLoop_eq]
  exact passLoop_none (fun _ _ _ => next_ready) st.backlog st (Nat.le_refl _)

/-- Where nothing is eligible and nothing is in flight, no chat write waits,
and none of any kind does under a window that opens at all. -/
theorem drained_of_next {now : Nat} (h : st.next now = none) (quiet : st.inFlight = ∅)
    (window : st.windowInFlight = 0) :
    (∀ r p, (st.queueOf r).head? = some p → p.writeClass ≠ .chat) ∧
      (0 < st.cfg.nonchatCap → ∀ r, st.queueOf r = []) := by
  have head : ∀ {r p}, (st.queueOf r).head? = some p → (r, p) ∈ st.heads := fun hp =>
    mem_heads.2 ⟨by simp [quiet], hp⟩
  unfold next at h
  split at h
  · cases h
  split at h
  · cases h
  rename_i chat
  have noChat : ∀ r p, (st.queueOf r).head? = some p → p.writeClass ≠ .chat := by
    intro r p hp hchat
    have none_ : st.chatHeads = [] := List.argmin_eq_none.1 (Option.map_eq_none_iff.1 chat)
    have mem : (r, p) ∈ st.chatHeads := List.mem_filter.2 ⟨head hp, by simp [hchat]⟩
    simp [none_] at mem
  refine ⟨noChat, fun cap r => ?_⟩
  have none_ : st.nonchatHeads = [] := by
    split at h
    · exact List.argmin_eq_none.1 (Option.map_eq_none_iff.1 (Option.map_eq_none_iff.1 h))
    · rename_i full
      simp only [distinctPendingNonchat, window] at full
      exact List.eq_nil_of_length_eq_zero (by omega)
  cases hq : st.queueOf r with
  | nil => rfl
  | cons p rest =>
    have hp : (st.queueOf r).head? = some p := by rw [hq]; rfl
    have mem : (r, p) ∈ st.nonchatHeads :=
      List.mem_filter.2 ⟨head hp, by simpa using noChat r p hp⟩
    simp [none_] at mem

end

end State

end Daemonseed.Net.WriteFunnel
