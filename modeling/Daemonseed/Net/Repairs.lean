import Daemonseed.Net.SessionHealth
import Daemonseed.Lib.Runs
import Mathlib.Order.Defs.LinearOrder
import Mathlib.Data.List.Sort

/-! # The repairs of a session

What the event loop of a session does with the passes of its records: a record
found due has its repair dispatched, or queued while the arm is taken or the
session is warming up, and a queue is drained one at a time on the ticks of the
resweep. Whatever the order of passes, ticks and completions, a record is
signalled once until its repair is dispatched, and is not forgotten. -/
namespace Daemonseed.Net.Repairs
open Daemonseed.Lib.Maps Daemonseed.Net.SessionHealth

variable {K S : Type} [DecidableEq K] [LinearOrder S]

/-- The record swept after `last`, in the order of the owners. -/
def nextResweepRecord (records : List S) (last : Option S) : Option S :=
  let sorted := (records.insertionSort (· ≤ ·)).dedup
  match last with
  | none => sorted.head?
  | some last => (sorted.find? fun s => decide (last < s)).or sorted.head?

/-- A task spawned off the loop, which holds the arm until it ends. -/
inductive Task (K S : Type)
  | repair (key : K) (owner : S)
  | resweep (owner : S)
  deriving DecidableEq

structure Session (K S : Type) where
  health : SessionHealthTracker K
  /-- The owner of each record whose key has been resolved. -/
  recordKeyOwners : Map K S
  resolvedSeeds : List S
  pendingRepairs : List K
  resweepBusy : Bool
  resweepCursor : Option S
  inFlight : List (Task K S)

/-- What the loop takes up: a pass over a record, a tick of the resweep or the end
of a task. Whether the session has warmed up and is attached, which records it
subscribes to and what resolving a key comes to are found out at the time. -/
inductive Call (K S : Type)
  | sweepHealth (key : K) (input : SweepHealthInput) (warmed attached : Bool)
  | tick (warmed attached : Bool) (seeds : List S) (resolve : S → Option K)
  | ended (task : Task K S)

/-- What is done about the repair of a record. -/
inductive Act (K : Type)
  | signalled (key : K)
  | dispatched (key : K)
  | cleared (key : K)
  deriving DecidableEq

namespace Session

def new : Session K S := ⟨.new, ∅, [], [], false, none, []⟩

def spawn (self : Session K S) (task : Task K S) : Session K S :=
  { self with resweepBusy := true, inFlight := task :: self.inFlight }

def dispatch (self : Session K S) (key : K) (owner : S) : Session K S :=
  { self with health := self.health.noteRepairDispatched key }.spawn (.repair key owner)

/-- The arm that takes a record found due. A record whose owner is not known is
dropped, so that it is found due again once the owner is. -/
def repairDue (self : Session K S) (key : K) (warmed attached : Bool) :
    Session K S × List (Act K) :=
  match self.recordKeyOwners.lookup key with
  | some owner =>
    if warmed && !self.resweepBusy && attached then
      ({ self with pendingRepairs := self.pendingRepairs.filter (· ≠ key) }.dispatch key owner,
        [.dispatched key])
    else if key ∉ self.pendingRepairs then
      ({ self with pendingRepairs := self.pendingRepairs ++ [key] }, [])
    else (self, [])
  | none => ({ self with health := self.health.clear key }, [.cleared key])

def sweepHealth (self : Session K S) (key : K) (input : SweepHealthInput) (warmed attached : Bool) :
    Session K S × List (Act K) :=
  let session := { self with health := (self.health.observe key input).1 }
  match (self.health.observe key input).2 with
  | .repairDue =>
    ((session.repairDue key warmed attached).1,
      .signalled key :: (session.repairDue key warmed attached).2)
  | .suppressed => (session, [])
  | .notDue => (session, [])

/-- The key of a record's owner is resolved once, and again where that failed. -/
def resolveKey (self : Session K S) (seed : S) (resolve : S → Option K) : Session K S :=
  if seed ∈ self.resolvedSeeds then self
  else
    match resolve seed with
    | some key =>
      { self with
        resolvedSeeds := seed :: self.resolvedSeeds
        recordKeyOwners := self.recordKeyOwners.insert key seed }
    | none => self

/-- Whether a tick finds the arm free. -/
def ready (self : Session K S) (warmed attached : Bool) : Bool :=
  warmed && !self.resweepBusy && attached

/-- The repair at the front of the queue, if it is due still; without any, the next resweep. -/
def tick (self : Session K S) (warmed attached : Bool) (seeds : List S) (resolve : S → Option K) :
    Session K S × List (Act K) :=
  if self.ready warmed attached then
    match self.pendingRepairs with
    | key :: rest =>
      let session := { self with pendingRepairs := rest }
      if self.health.isRepairDue key then
        match self.recordKeyOwners.lookup key with
        | some owner => (session.dispatch key owner, [.dispatched key])
        | none => (session, [])
      else (session, [])
    | [] =>
      match nextResweepRecord seeds self.resweepCursor with
      | some seed =>
        (({ self with resweepCursor := some seed }.resolveKey seed resolve).spawn (.resweep seed), [])
      | none => (self, [])
  else (self, [])

/-- A task that ends gives the arm back. -/
def ended (self : Session K S) (task : Task K S) : Session K S :=
  if task ∈ self.inFlight then
    { self with resweepBusy := false, inFlight := self.inFlight.erase task }
  else self

def step (self : Session K S) : Call K S → Session K S × List (Act K)
  | .sweepHealth key input warmed attached => self.sweepHealth key input warmed attached
  | .tick warmed attached seeds resolve => self.tick warmed attached seeds resolve
  | .ended task => (self.ended task, [])

end Session

/-! ## What has been done -/

/-- A call and what was done about repairs. -/
structure Event (K S : Type) where
  call : Call K S
  acts : List (Act K)

namespace Event

/-- A pass of the record that shows its session serving. -/
def succeeds (key : K) (e : Event K S) : Bool :=
  match e.call with
  | .sweepHealth other input _ _ => decide (other = key) && input.succeeds
  | _ => false

/-- A pass of the record whose every read failed. -/
def fails (key : K) (e : Event K S) : Bool :=
  match e.call with
  | .sweepHealth other input _ _ => decide (other = key) && input.isFailedPass
  | _ => false

def signals (key : K) (e : Event K S) : Bool := decide (Act.signalled key ∈ e.acts)

def dispatches (key : K) (e : Event K S) : Bool := decide (Act.dispatched key ∈ e.acts)

def clears (key : K) (e : Event K S) : Bool := decide (Act.cleared key ∈ e.acts)

/-- What a signal stands until. -/
def ends (key : K) (e : Event K S) : Bool := e.succeeds key || e.dispatches key || e.clears key

end Event

/-- A session and what was done so far, the newest first. -/
structure Log (K S : Type) where
  session : Session K S
  past : List (Event K S)

def Log.step (s : Log K S) (call : Call K S) : Log K S :=
  ⟨(s.session.step call).1, ⟨call, (s.session.step call).2⟩ :: s.past⟩

def Log.run (s : Log K S) (calls : List (Call K S)) : Log K S := calls.foldl Log.step s

/-- The log of a session from its start. -/
def log (calls : List (Call K S)) : Log K S := Log.run ⟨.new, []⟩ calls

/-- What happened since the last time something ended a signal of the record. -/
def sinceEnd (key : K) (past : List (Event K S)) : List (Event K S) :=
  past.takeWhile fun e => !e.ends key

/-- The record was signalled, and no successful pass, dispatch or clear came since. -/
def Standing (key : K) (past : List (Event K S)) : Prop :=
  ∃ e ∈ sinceEnd key past, e.signals key = true

/-- The failed passes since the last successful pass, dispatch or clear. -/
def failedSince (key : K) (past : List (Event K S)) : Nat := (sinceEnd key past).countP (·.fails key)

/-- The repairs dispatched since the last successful pass or clear. -/
def attemptsSince (key : K) (past : List (Event K S)) : Nat :=
  (past.takeWhile fun e => !(e.succeeds key || e.clears key)).countP (·.dispatches key)

/-- How many failed passes make the record due. -/
def threshold (key : K) (past : List (Event K S)) : Nat :=
  repairKThreshold * min (2 ^ attemptsSince key past) repairBackoffCap

/-! ## One call -/

variable {self : Session K S} {key k : K} {input : SweepHealthInput} {warmed attached : Bool}
  {seeds : List S} {resolve : S → Option K} {owner : S}

namespace Session

/-- The session after a pass, before anything is done about it. -/
def observed (self : Session K S) (key : K) (input : SweepHealthInput) : Session K S :=
  { self with health := (self.health.observe key input).1 }

omit [LinearOrder S] in
/-- A pass that signals nothing does nothing; one that signals has the repair
dispatched, queued or dropped. -/
theorem sweepHealth_cases (self : Session K S) (key : K) (input : SweepHealthInput)
    (warmed attached : Bool) :
    ((self.health.observe key input).2 ≠ .repairDue ∧
      self.sweepHealth key input warmed attached = (self.observed key input, [])) ∨
    ((self.health.observe key input).2 = .repairDue ∧
      ((∃ owner, self.recordKeyOwners.lookup key = some owner ∧ self.ready warmed attached = true ∧
        self.sweepHealth key input warmed attached =
          ({ self.observed key input with
              pendingRepairs := self.pendingRepairs.filter (· ≠ key) }.dispatch key owner,
            [.signalled key, .dispatched key])) ∨
      ((self.recordKeyOwners.lookup key).isSome = true ∧ self.ready warmed attached = false ∧
        ∃ pending, key ∈ pending ∧ (∀ k ∈ pending, k = key ∨ k ∈ self.pendingRepairs) ∧
          self.pendingRepairs <+: pending ∧
          self.sweepHealth key input warmed attached =
            ({ self.observed key input with pendingRepairs := pending }, [.signalled key])) ∨
      self.recordKeyOwners.lookup key = none ∧
        self.sweepHealth key input warmed attached =
          ({ self.observed key input with health := (self.observed key input).health.clear key },
            [.signalled key, .cleared key]))) := by
  unfold sweepHealth
  rw [← observed]
  cases decision : (self.health.observe key input).2 with
  | notDue => exact .inl ⟨by simp, rfl⟩
  | suppressed => exact .inl ⟨by simp, rfl⟩
  | repairDue =>
    refine .inr ⟨rfl, ?_⟩
    dsimp only
    unfold repairDue
    rw [show (self.observed key input).recordKeyOwners = self.recordKeyOwners from rfl,
      show (self.observed key input).resweepBusy = self.resweepBusy from rfl,
      show (self.observed key input).pendingRepairs = self.pendingRepairs from rfl]
    cases owned : self.recordKeyOwners.lookup key with
    | none => exact .inr (.inr ⟨rfl, rfl⟩)
    | some owner =>
      dsimp only
      rw [← ready]
      cases free : self.ready warmed attached with
      | true => exact .inl ⟨owner, rfl, rfl, rfl⟩
      | false =>
        refine .inr (.inl ⟨rfl, rfl, ?_⟩)
        by_cases queued : key ∈ self.pendingRepairs
        · refine ⟨self.pendingRepairs, queued, fun k mem => .inr mem, List.prefix_rfl, ?_⟩
          simp [queued]
          rfl
        · refine ⟨self.pendingRepairs ++ [key], by simp, fun k mem => ?_,
            List.prefix_append _ _, by simp [queued]⟩
          rcases List.mem_append.1 mem with old | new
          · exact .inr old
          · exact .inl (List.mem_singleton.1 new)

theorem resolveKey_same (self : Session K S) (seed : S) (resolve : S → Option K) :
    (self.resolveKey seed resolve).health = self.health ∧
      (self.resolveKey seed resolve).pendingRepairs = self.pendingRepairs ∧
      (self.resolveKey seed resolve).inFlight = self.inFlight := by
  unfold resolveKey
  split
  · exact ⟨rfl, rfl, rfl⟩
  · split <;> exact ⟨rfl, rfl, rfl⟩

/-- The owner of a record, once known, is known from then on. -/
theorem resolveKey_owners {seed : S} (mapped : (self.recordKeyOwners.lookup key).isSome = true) :
    ((self.resolveKey seed resolve).recordKeyOwners.lookup key).isSome = true := by
  unfold resolveKey
  split
  · exact mapped
  · split
    next other _ =>
      by_cases same : key = other
      · rw [same, AList.lookup_insert]
        rfl
      · rw [AList.lookup_insert_ne same]
        exact mapped
    · exact mapped

/-- A tick that does not find the arm free does nothing; one that does dispatches
the repair at the front of the queue, drops it as stale, or sweeps a record. -/
theorem tick_cases (self : Session K S) (warmed attached : Bool) (seeds : List S)
    (resolve : S → Option K) :
    (self.ready warmed attached = false ∧ self.tick warmed attached seeds resolve = (self, [])) ∨
    (self.ready warmed attached = true ∧ ∃ key rest owner, self.pendingRepairs = key :: rest ∧
      self.health.isRepairDue key = true ∧ self.recordKeyOwners.lookup key = some owner ∧
      self.tick warmed attached seeds resolve =
        ({ self with pendingRepairs := rest }.dispatch key owner, [.dispatched key])) ∨
    (self.ready warmed attached = true ∧ ∃ key rest, self.pendingRepairs = key :: rest ∧
      ¬(self.health.isRepairDue key = true ∧ (self.recordKeyOwners.lookup key).isSome = true) ∧
      self.tick warmed attached seeds resolve = ({ self with pendingRepairs := rest }, [])) ∨
    (self.pendingRepairs = [] ∧ ∃ after, self.tick warmed attached seeds resolve = (after, []) ∧
      after.health = self.health ∧ after.pendingRepairs = [] ∧
      (∀ key, (self.recordKeyOwners.lookup key).isSome = true →
        (after.recordKeyOwners.lookup key).isSome = true) ∧
      (after.resweepBusy = self.resweepBusy ∧ after.inFlight = self.inFlight ∨
        self.resweepBusy = false ∧ after.resweepBusy = true ∧
          ∃ task, after.inFlight = task :: self.inFlight)) := by
  unfold tick
  cases free : self.ready warmed attached with
  | false => exact .inl ⟨rfl, by simp⟩
  | true =>
    refine .inr ?_
    rw [if_pos rfl]
    cases queue : self.pendingRepairs with
    | cons key rest =>
      dsimp only
      cases due : self.health.isRepairDue key with
      | false => exact .inr (.inl ⟨rfl, key, rest, rfl, by simp [due], by simp⟩)
      | true =>
        rw [if_pos rfl]
        cases owned : self.recordKeyOwners.lookup key with
        | none => exact .inr (.inl ⟨rfl, key, rest, rfl, by simp [owned], rfl⟩)
        | some owner => exact .inl ⟨rfl, key, rest, owner, rfl, due, owned, rfl⟩
    | nil =>
      refine .inr (.inr ⟨rfl, ?_⟩)
      dsimp only
      cases next : nextResweepRecord seeds self.resweepCursor with
      | none => exact ⟨self, rfl, rfl, queue, fun _ mapped => mapped, .inl ⟨rfl, rfl⟩⟩
      | some seed =>
        have idle : self.resweepBusy = false := by
          simp only [ready, Bool.and_eq_true, Bool.not_eq_true'] at free
          exact free.1.2
        refine ⟨_, rfl, ?_, ?_, fun key mapped => ?_, .inr ⟨idle, rfl, .resweep seed, ?_⟩⟩
        · exact (resolveKey_same _ _ _).1
        · exact (resolveKey_same _ _ _).2.1
        · exact resolveKey_owners mapped
        · exact congrArg (_ :: ·) (resolveKey_same _ _ _).2.2

end Session

/-! ## What the loop knows -/

/-- The state of the record by what happened, where nothing is forgotten. -/
structure Known (key : K) (health : RecordHealth) (past : List (Event K S)) : Prop where
  latched : health.repairDueLatched = true ↔ Standing key past
  failed : health.consecutiveFailed = min (failedSince key past) u32Max
  mult : health.backoffMult = min (2 ^ attemptsSince key past) repairBackoffCap

/-- A tracked record is as known, every record queued has its owner known, every
record due is queued, and the arm is taken exactly by the one task in flight. -/
structure Kept (s : Log K S) : Prop where
  kThreshold : s.session.health.kThreshold = repairKThreshold
  known : ∀ key, Known key (s.session.health.entry key) s.past
  mapped : ∀ key ∈ s.session.pendingRepairs, (s.session.recordKeyOwners.lookup key).isSome = true
  queued : ∀ key, Standing key s.past → key ∈ s.session.pendingRepairs
  alone : s.session.inFlight.length ≤ 1
  busy : s.session.resweepBusy = true ↔ s.session.inFlight ≠ []

section

variable {e : Event K S} {past : List (Event K S)} {health : RecordHealth}

omit [LinearOrder S]

theorem standing_ended (ends : e.ends key = true) : ¬Standing key (e :: past) := by
  simp [Standing, sinceEnd, ends]

theorem standing_cons (goes : e.ends key = false) :
    Standing key (e :: past) ↔ e.signals key = true ∨ Standing key past := by
  simp [Standing, sinceEnd, goes]

theorem failedSince_ended (ends : e.ends key = true) : failedSince key (e :: past) = 0 := by
  simp [failedSince, sinceEnd, ends]

theorem failedSince_cons (goes : e.ends key = false) :
    failedSince key (e :: past) = failedSince key past + if e.fails key then 1 else 0 := by
  simp [failedSince, sinceEnd, goes, List.countP_cons]

theorem attemptsSince_reset (reset : (e.succeeds key || e.clears key) = true) :
    attemptsSince key (e :: past) = 0 := by
  simp only [attemptsSince, List.takeWhile_cons, reset, Bool.not_true, Bool.false_eq_true, if_false,
    List.countP_nil]

theorem attemptsSince_cons (goes : (e.succeeds key || e.clears key) = false) :
    attemptsSince key (e :: past) = attemptsSince key past + if e.dispatches key then 1 else 0 := by
  simp only [attemptsSince, List.takeWhile_cons, goes, Bool.not_false, if_true, List.countP_cons]

/-- A record that starts over. -/
theorem Known.reset (reset : (e.succeeds key || e.clears key) = true) :
    Known key {} (e :: past) := by
  have ends : e.ends key = true := by
    rcases Bool.or_eq_true _ _ ▸ reset with served | cleared
    · simp [Event.ends, served]
    · simp [Event.ends, cleared]
  refine ⟨iff_of_false (by simp) (standing_ended ends), ?_, ?_⟩
  · rw [failedSince_ended ends]
    rfl
  · rw [attemptsSince_reset reset]
    rfl

/-- A record whose repair is dispatched. -/
theorem Known.dispatched (h : Known key health past) (goes : (e.succeeds key || e.clears key) = false)
    (dispatches : e.dispatches key = true) {now : RecordHealth}
    (same : now.backoffMult = health.backoffMult) :
    Known key now.noteRepairDispatched (e :: past) := by
  have ends : e.ends key = true := by simp [Event.ends, dispatches]
  refine ⟨iff_of_false (by simp [RecordHealth.noteRepairDispatched]) (standing_ended ends), ?_, ?_⟩
  · rw [failedSince_ended ends]
    rfl
  · rw [attemptsSince_cons goes, if_pos dispatches, RecordHealth.noteRepairDispatched, same, h.mult,
      Nat.pow_succ]
    simp only [repairBackoffCap, u32Max]
    omega

/-- A record with nothing dispatched, cleared or served. -/
theorem Known.goes (h : Known key health past) (goes : e.ends key = false) {now : RecordHealth}
    (latched : now.repairDueLatched = true ↔ health.repairDueLatched = true ∨ e.signals key = true)
    (failed : now.consecutiveFailed =
      min (health.consecutiveFailed + if e.fails key then 1 else 0) u32Max)
    (mult : now.backoffMult = health.backoffMult) : Known key now (e :: past) := by
  have parts := goes
  unfold Event.ends at parts
  simp only [Bool.or_eq_false_iff] at parts
  refine ⟨?_, ?_, ?_⟩
  · rw [latched, h.latched, standing_cons goes, or_comm]
  · rw [failed, h.failed, failedSince_cons goes]
    omega
  · rw [mult, h.mult, attemptsSince_cons (by simp [parts.1.1, parts.2]), parts.1.2]
    rfl

/-- The product that a record's passes are counted up to. -/
theorem Known.threshold (h : Known key health past) :
    repairKThreshold * health.backoffMult = threshold key past := by
  rw [h.mult, Repairs.threshold]

theorem threshold_le (key : K) (past : List (Event K S)) :
    threshold key past ≤ repairKThreshold * repairBackoffCap :=
  Nat.mul_le_mul_left _ (Nat.min_le_right _ _)

end

/-! ## What one call keeps -/

omit [LinearOrder S] in
/-- The events of a pass and what is done about it, for another record and for its own. -/
theorem Event.silent (call : Call K S) {acts : List (Act K)}
    (other : ∀ act ∈ acts, act ≠ .signalled k ∧ act ≠ .dispatched k ∧ act ≠ .cleared k) :
    Event.signals k ⟨call, acts⟩ = false ∧ Event.dispatches k ⟨call, acts⟩ = false ∧
      Event.clears k ⟨call, acts⟩ = false := by
  refine ⟨?_, ?_, ?_⟩ <;> refine decide_eq_false fun mem => ?_
  · exact (other _ mem).1 rfl
  · exact (other _ mem).2.1 rfl
  · exact (other _ mem).2.2 rfl

omit [LinearOrder S] in
/-- A pass that is not of the record changes nothing for it. -/
theorem Known.elsewhere {s : Log K S} {e : Event K S} (h : Known k (s.session.health.entry k) s.past)
    (served : e.succeeds k = false) (failed : e.fails k = false) (signals : e.signals k = false)
    (dispatches : e.dispatches k = false) (clears : e.clears k = false) :
    Known k (s.session.health.entry k) (e :: s.past) := by
  refine h.goes (by simp [Event.ends, served, dispatches, clears]) (by simp [signals]) ?_ rfl
  rw [failed, h.failed]
  simp

omit [LinearOrder S] in
/-- A pass that leaves the signals as they are is known. -/
theorem Known.observed {s : Log K S} (kept : Kept s) {e : Event K S}
    (call : e.call = .sweepHealth key input warmed attached)
    (signals : e.signals key = true ↔ (s.session.health.observe key input).2 = .repairDue)
    (dispatches : e.dispatches key = false) (clears : e.clears key = false) :
    Known key ((s.session.health.observe key input).1.entry key) (e :: s.past) := by
  have known := kept.known key
  have served : e.succeeds key = input.succeeds := by simp [Event.succeeds, call]
  have failed : e.fails key = input.isFailedPass := by simp [Event.fails, call]
  rw [SessionHealthTracker.entry_observe, if_pos rfl]
  cases serves : input.succeeds with
  | true =>
    rw [RecordHealth.observe_success serves]
    exact Known.reset (by simp [served, serves])
  | false =>
    have goes : e.ends key = false := by simp [Event.ends, served, serves, dispatches, clears]
    cases failing : input.isFailedPass with
    | true =>
      have few : s.session.health.kThreshold * (s.session.health.entry key).backoffMult ≤ u32Max := by
        rw [kept.kThreshold, known.threshold]
        exact (threshold_le _ _).trans (by decide)
      obtain ⟨count, mult, latched, -⟩ := RecordHealth.observe_failed failing few
      refine known.goes goes ?_ ?_ mult
      · rw [latched, signals]
        rfl
      · rw [count, failed, failing]
        rfl
    | false =>
      have silent : input.saysNothing = true := by
        simpa [SweepHealthInput.succeeds, failing] using serves
      have still : (s.session.health.entry key).observe s.session.health.kThreshold input =
          (s.session.health.entry key, .notDue) := RecordHealth.observe_silent silent
      rw [still]
      refine known.goes goes ?_ ?_ rfl
      · rw [signals, SessionHealthTracker.observe, still]
        simp
      · rw [failed, failing, known.failed]
        simp

omit [LinearOrder S] in
theorem standing_of_cons {e : Event K S} {past : List (Event K S)} (h : Standing k (e :: past)) :
    e.ends k = false ∧ (e.signals k = true ∨ Standing k past) := by
  cases ends : e.ends k with
  | true => exact absurd h (standing_ended ends)
  | false => exact ⟨rfl, (standing_cons ends).1 h⟩

omit [LinearOrder S] in
/-- The arm found free has no task. -/
theorem Kept.idle {s : Log K S} (kept : Kept s) (free : s.session.ready warmed attached = true) :
    s.session.inFlight = [] := by
  by_contra some_
  simp [Session.ready, kept.busy.2 some_] at free

omit [LinearOrder S] in
/-- A pass is known of every other record. -/
theorem Kept.otherKnown {s : Log K S} (kept : Kept s) {acts : List (Act K)} {after : Session K S}
    (about : ∀ act ∈ acts, act = .signalled key ∨ act = .dispatched key ∨ act = .cleared key)
    (same : after.health.entry k = s.session.health.entry k) (differ : k ≠ key) :
    Known k (after.health.entry k)
      (⟨.sweepHealth key input warmed attached, acts⟩ :: s.past) := by
  rw [same]
  obtain ⟨signals, dispatches, clears⟩ := Event.silent (k := k)
    (.sweepHealth key input warmed attached : Call K S) fun act mem => by
      rcases about act mem with rfl | rfl | rfl <;> simp [differ.symm]
  exact (kept.known k).elsewhere (by simp [Event.succeeds, differ.symm])
    (by simp [Event.fails, differ.symm]) signals dispatches clears

theorem Kept.sweepHealth {s : Log K S} (kept : Kept s) :
    Kept (s.step (.sweepHealth key input warmed attached)) := by
  have others : ∀ k, k ≠ key → (s.session.health.observe key input).1.entry k =
      s.session.health.entry k := fun k differ => by
    rw [SessionHealthTracker.entry_observe, if_neg differ]
  unfold Log.step Session.step
  rcases s.session.sweepHealth_cases key input warmed attached with ⟨calm, done⟩ |
    ⟨due, ⟨owner, owned, free, done⟩ | ⟨owned, taken, pending, queued, old, grown, done⟩ |
      ⟨unowned, done⟩⟩
  · dsimp only
    rw [done]
    refine ⟨kept.kThreshold, fun k => ?_, kept.mapped, fun k standing => ?_, kept.alone, kept.busy⟩
    · by_cases same : k = key
      · subst same
        exact Known.observed kept rfl (iff_of_false (by simp [Event.signals]) calm) rfl rfl
      · exact kept.otherKnown (by simp) (others k same) same
    · rcases (standing_of_cons standing).2 with signals | standing
      · simp [Event.signals] at signals
      · exact kept.queued k standing
  · dsimp only
    rw [done]
    obtain ⟨failed, latched, mult⟩ := RecordHealth.observe_due due
    have itself : (s.session.health.observe key input).1.entry key =
        ((s.session.health.entry key).observe s.session.health.kThreshold input).1 := by
      rw [SessionHealthTracker.entry_observe, if_pos rfl]
    have isDue : (s.session.health.observe key input).1.isRepairDue key = true := by
      rw [SessionHealthTracker.isRepairDue_iff, itself, latched]
    have none_ : s.session.inFlight = [] := kept.idle free
    refine ⟨SessionHealthTracker.kThreshold_dispatched.trans kept.kThreshold, fun k => ?_,
      fun k mem => kept.mapped k (List.mem_filter.1 mem).1, fun k standing => ?_, ?_, ?_⟩
    · by_cases same : k = key
      · subst same
        refine (SessionHealthTracker.entry_dispatched isDue).trans (if_pos rfl) ▸
          (kept.known k).dispatched ?_ ?_ (itself ▸ mult)
        · simp [Event.succeeds, Event.clears, SweepHealthInput.succeeds, failed]
        · simp [Event.dispatches]
      · refine kept.otherKnown (by simp) ?_ same
        refine (SessionHealthTracker.entry_dispatched isDue).trans ?_
        rw [if_neg same]
        exact others k same
    · obtain ⟨goes, standing⟩ := standing_of_cons standing
      have differ : k ≠ key := by
        rintro rfl
        simp [Event.ends, Event.dispatches] at goes
      rcases standing with signals | standing
      · simp [Event.signals, differ] at signals
      · exact List.mem_filter.2 ⟨kept.queued k standing, by simpa using differ⟩
    · simp [Session.dispatch, Session.spawn, Session.observed, none_]
    · simp [Session.dispatch, Session.spawn]
  · dsimp only
    rw [done]
    refine ⟨kept.kThreshold, fun k => ?_, fun k mem => ?_, fun k standing => ?_, kept.alone, kept.busy⟩
    · by_cases same : k = key
      · subst same
        exact Known.observed kept rfl (iff_of_true (by simp [Event.signals]) due)
          (by simp [Event.dispatches]) (by simp [Event.clears])
      · exact kept.otherKnown (by simp) (others k same) same
    · rcases old k mem with rfl | held
      · exact owned
      · exact kept.mapped k held
    · rcases (standing_of_cons standing).2 with signals | standing
      · obtain rfl : k = key := by simpa [Event.signals] using signals
        exact queued
      · exact grown.subset (kept.queued k standing)
  · dsimp only
    rw [done]
    refine ⟨kept.kThreshold, fun k => ?_, kept.mapped, fun k standing => ?_, kept.alone, kept.busy⟩
    · by_cases same : k = key
      · subst same
        have fresh : ((s.session.health.observe k input).1.clear k).entry k = {} :=
          SessionHealthTracker.entry_clear.trans (if_pos rfl)
        show Known k (((s.session.health.observe k input).1.clear k).entry k) _
        rw [fresh]
        exact Known.reset (by simp [Event.clears])
      · refine kept.otherKnown (by simp) ?_ same
        exact (SessionHealthTracker.entry_clear.trans (if_neg same)).trans (others k same)
    · obtain ⟨goes, standing⟩ := standing_of_cons standing
      have differ : k ≠ key := by
        rintro rfl
        simp [Event.ends, Event.clears] at goes
      rcases standing with signals | standing
      · simp [Event.signals, differ] at signals
      · exact kept.queued k standing

theorem Kept.tick {s : Log K S} (kept : Kept s) :
    Kept (s.step (.tick warmed attached seeds resolve)) := by
  have quiet : ∀ k, Known k (s.session.health.entry k)
      (⟨.tick warmed attached seeds resolve, []⟩ :: s.past) :=
    fun k => (kept.known k).elsewhere rfl rfl rfl rfl rfl
  have still : ∀ k, Standing k (⟨.tick warmed attached seeds resolve, []⟩ :: s.past) →
      k ∈ s.session.pendingRepairs := by
    intro k standing
    rcases (standing_of_cons standing).2 with signals | standing
    · simp [Event.signals] at signals
    · exact kept.queued k standing
  unfold Log.step Session.step
  rcases s.session.tick_cases warmed attached seeds resolve with ⟨taken, done⟩ |
    ⟨free, key, rest, owner, queue, due, owned, done⟩ | ⟨free, key, rest, queue, stale, done⟩ |
      ⟨queue, after, done, health, pending, owners, arm⟩
  · dsimp only
    rw [done]
    exact ⟨kept.kThreshold, quiet, kept.mapped, still, kept.alone, kept.busy⟩
  · dsimp only
    rw [done]
    have none_ : s.session.inFlight = [] := kept.idle free
    refine ⟨SessionHealthTracker.kThreshold_dispatched.trans kept.kThreshold, fun k => ?_,
      fun k mem => kept.mapped k (queue ▸ List.mem_cons_of_mem _ mem), fun k standing => ?_, ?_, ?_⟩
    · refine SessionHealthTracker.entry_dispatched due ▸ ?_
      split
      next same =>
        subst same
        exact (kept.known k).dispatched rfl (by simp [Event.dispatches]) rfl
      next differ =>
        have elsewhere : ∀ act ∈ [Act.dispatched key], act ≠ .signalled k ∧ act ≠ .dispatched k ∧
            act ≠ .cleared k := by simp [Ne.symm differ]
        obtain ⟨signals, dispatches, clears⟩ :=
          Event.silent (.tick warmed attached seeds resolve : Call K S) elsewhere
        exact (kept.known k).elsewhere rfl rfl signals dispatches clears
    · obtain ⟨goes, standing⟩ := standing_of_cons standing
      have differ : k ≠ key := by
        rintro rfl
        simp [Event.ends, Event.dispatches] at goes
      rcases standing with signals | standing
      · simp [Event.signals] at signals
      · have held := kept.queued k standing
        rw [queue] at held
        exact (List.mem_cons.1 held).resolve_left differ
    · simp [Session.dispatch, Session.spawn, none_]
    · simp [Session.dispatch, Session.spawn]
  · dsimp only
    rw [done]
    refine ⟨kept.kThreshold, quiet, fun k mem => kept.mapped k (queue ▸ List.mem_cons_of_mem _ mem),
      fun k standing => ?_, kept.alone, kept.busy⟩
    have held := still k standing
    rw [queue] at held
    refine (List.mem_cons.1 held).resolve_left ?_
    rintro rfl
    have front : k ∈ s.session.pendingRepairs := queue ▸ List.mem_cons_self ..
    refine stale ⟨?_, kept.mapped k front⟩
    rw [SessionHealthTracker.isRepairDue_iff]
    exact (quiet k).latched.2 standing
  · dsimp only
    rw [done]
    refine ⟨?_, fun k => ?_, fun k mem => ?_, fun k standing => ?_, ?_, ?_⟩
    · rw [health]
      exact kept.kThreshold
    · rw [health]
      exact quiet k
    · rw [pending] at mem
      cases mem
    · have held := still k standing
      rw [queue] at held
      cases held
    · rcases arm with ⟨-, same⟩ | ⟨idle, -, task, more⟩
      · rw [same]
        exact kept.alone
      · have none_ : s.session.inFlight = [] := by
          by_contra some_
          simp [kept.busy.2 some_] at idle
        rw [more, none_]
        exact Nat.le_refl _
    · rcases arm with ⟨busy, same⟩ | ⟨-, busy, task, more⟩
      · rw [busy, same]
        exact kept.busy
      · simp [busy, more]

theorem Kept.ended {s : Log K S} (kept : Kept s) (task : Task K S) : Kept (s.step (.ended task)) := by
  have quiet : ∀ k, Known k (s.session.health.entry k) (⟨.ended task, []⟩ :: s.past) :=
    fun k => (kept.known k).elsewhere rfl rfl rfl rfl rfl
  have still : ∀ k, Standing k (⟨.ended task, []⟩ :: s.past) → k ∈ s.session.pendingRepairs := by
    intro k standing
    rcases (standing_of_cons standing).2 with signals | standing
    · simp [Event.signals] at signals
    · exact kept.queued k standing
  unfold Log.step Session.step Session.ended
  dsimp only
  split
  next runs =>
    refine ⟨kept.kThreshold, quiet, kept.mapped, still, ?_, ?_⟩
    · exact (List.length_erase_le).trans kept.alone
    · have one := kept.alone
      have gone : s.session.inFlight.erase task = [] := by
        rw [← List.length_eq_zero_iff, List.length_erase_of_mem runs]
        omega
      simp [gone]
  · exact ⟨kept.kThreshold, quiet, kept.mapped, still, kept.alone, kept.busy⟩

theorem Kept.step {s : Log K S} (kept : Kept s) (call : Call K S) : Kept (s.step call) := by
  cases call with
  | sweepHealth => exact kept.sweepHealth
  | tick => exact kept.tick
  | ended task => exact kept.ended task

omit [LinearOrder S] in
theorem kept_new : Kept (⟨.new, []⟩ : Log K S) where
  kThreshold := rfl
  known key := by
    have fresh : (Session.new : Session K S).health.entry key = {} := by
      simp [Session.new, SessionHealthTracker.new, SessionHealthTracker.entry]
    rw [fresh]
    exact ⟨iff_of_false (by simp) (by simp [Standing, sinceEnd]), rfl, rfl⟩
  mapped key mem := by cases mem
  queued key standing := by simp [Standing, sinceEnd] at standing
  alone := Nat.zero_le _
  busy := by simp [Session.new]

/-- The loop knows all of it after any calls. -/
theorem Kept.run {s : Log K S} (kept : Kept s) (calls : List (Call K S)) : Kept (s.run calls) := by
  induction calls generalizing s with
  | nil => exact kept
  | cons call rest ih => exact ih (kept.step call)

/-! ## Signals -/

/-- What a call comes to. -/
def Log.does (s : Log K S) (call : Call K S) : Event K S := ⟨call, (s.session.step call).2⟩

theorem Log.step_past (s : Log K S) (call : Call K S) : (s.step call).past = s.does call :: s.past := rfl

/-- A pass signals the record where it makes it due, and no other. -/
theorem does_signals {s : Log K S} {call : Call K S} : (s.does call).signals k = true ↔
    ∃ input warmed attached, call = .sweepHealth k input warmed attached ∧
      (s.session.health.observe k input).2 = .repairDue := by
  unfold Log.does Session.step Event.signals
  cases call with
  | sweepHealth key input warmed attached =>
    simp only [Call.sweepHealth.injEq, decide_eq_true_eq]
    rcases s.session.sweepHealth_cases key input warmed attached with ⟨calm, done⟩ |
      ⟨due, ⟨owner, -, -, done⟩ | ⟨-, -, pending, -, -, -, done⟩ | ⟨-, done⟩⟩
    · rw [done]
      refine iff_of_false (by simp) ?_
      rintro ⟨input', _, _, ⟨rfl, rfl, -, -⟩, due⟩
      exact calm due
    all_goals
      rw [done]
      refine ⟨fun mem => ?_, ?_⟩
      · obtain rfl : k = key := by simpa using mem
        exact ⟨input, warmed, attached, ⟨rfl, rfl, rfl, rfl⟩, due⟩
      · rintro ⟨input', _, _, ⟨rfl, -, -, -⟩, -⟩
        exact List.mem_cons_self ..
  | tick warmed attached seeds resolve =>
    simp only [reduceCtorEq, false_and, exists_false, decide_eq_true_eq]
    rcases s.session.tick_cases warmed attached seeds resolve with ⟨-, done⟩ |
      ⟨-, key, rest, owner, -, -, -, done⟩ | ⟨-, key, rest, -, -, done⟩ | ⟨-, after, done, -⟩
    all_goals
      rw [done]
      simp
  | ended task => simp

omit [LinearOrder S] in
theorem Kept.due_iff {s : Log K S} (kept : Kept s) (failed : input.isFailedPass = true) :
    (s.session.health.observe k input).2 = .repairDue ↔
      input.weather = .calm ∧ ¬Standing k s.past ∧ threshold k s.past ≤ failedSince k s.past + 1 := by
  have known := kept.known k
  have few : s.session.health.kThreshold * (s.session.health.entry k).backoffMult ≤ u32Max := by
    rw [kept.kThreshold, known.threshold]
    exact (threshold_le _ _).trans (by decide)
  have bound : threshold k s.past ≤ u32Max := (threshold_le _ _).trans (by decide)
  rw [SessionHealthTracker.observe, (RecordHealth.observe_failed failed few).2.2.2, kept.kThreshold,
    known.threshold, known.failed, ← Bool.not_eq_true, known.latched]
  constructor
  · rintro ⟨fresh, calm, reached⟩
    exact ⟨calm, fresh, by omega⟩
  · rintro ⟨calm, fresh, reached⟩
    exact ⟨fresh, calm, by omega⟩

/-- A failed pass signals the record exactly in calm weather, where no signal of it
stands and as many passes have failed as make it due. -/
theorem Kept.signals_iff {s : Log K S} (kept : Kept s) (failed : input.isFailedPass = true) :
    (s.does (.sweepHealth k input warmed attached)).signals k = true ↔
      input.weather = .calm ∧ ¬Standing k s.past ∧ threshold k s.past ≤ failedSince k s.past + 1 := by
  rw [does_signals, ← kept.due_iff failed]
  constructor
  · rintro ⟨input', _, _, same, due⟩
    obtain ⟨-, rfl, -, -⟩ := Call.sweepHealth.inj same
    exact due
  · exact fun due => ⟨input, warmed, attached, rfl, due⟩

/-- No record is signalled while a signal of it stands. -/
theorem Kept.signals_fresh {s : Log K S} (kept : Kept s) {call : Call K S}
    (signals : (s.does call).signals k = true) : ¬Standing k s.past := by
  obtain ⟨input, warmed, attached, rfl, due⟩ := does_signals.1 signals
  exact ((kept.due_iff (RecordHealth.observe_due due).1).1 due).2.1

/-- A repair taken from the queue is of a record whose signal stands. -/
theorem Kept.drains {s : Log K S} (kept : Kept s)
    (dispatches : (s.does (.tick warmed attached seeds resolve)).dispatches k = true) :
    Standing k s.past := by
  unfold Log.does Session.step Event.dispatches at dispatches
  dsimp only at dispatches
  rcases s.session.tick_cases warmed attached seeds resolve with ⟨-, done⟩ |
    ⟨-, key, rest, owner, -, due, -, done⟩ | ⟨-, key, rest, -, -, done⟩ | ⟨-, after, done, -⟩
  · simp [done] at dispatches
  · obtain rfl : k = key := by simpa [done] using dispatches
    rw [SessionHealthTracker.isRepairDue_iff] at due
    exact (kept.known k).latched.1 due
  · simp [done] at dispatches
  · simp [done] at dispatches

/-! ## A record whose owner is known -/

/-- The owner of the record's key has been resolved. -/
def Mapped (s : Log K S) (key : K) : Prop := (s.session.recordKeyOwners.lookup key).isSome = true

theorem Mapped.step {s : Log K S} (mapped : Mapped s k) (call : Call K S) : Mapped (s.step call) k := by
  unfold Mapped Log.step Session.step
  cases call with
  | sweepHealth key input warmed attached =>
    dsimp only
    rcases s.session.sweepHealth_cases key input warmed attached with ⟨-, done⟩ |
      ⟨-, ⟨owner, -, -, done⟩ | ⟨-, -, pending, -, -, -, done⟩ | ⟨-, done⟩⟩
    all_goals
      rw [done]
      exact mapped
  | tick warmed attached seeds resolve =>
    dsimp only
    rcases s.session.tick_cases warmed attached seeds resolve with ⟨-, done⟩ |
      ⟨-, key, rest, owner, -, -, -, done⟩ | ⟨-, key, rest, -, -, done⟩ |
        ⟨-, after, done, -, -, owners, -⟩
    · rw [done]
      exact mapped
    · rw [done]
      exact mapped
    · rw [done]
      exact mapped
    · rw [done]
      exact owners k mapped
  | ended task =>
    unfold Session.ended
    dsimp only
    split <;> exact mapped

theorem Mapped.run {s : Log K S} (mapped : Mapped s k) (calls : List (Call K S)) :
    Mapped (s.run calls) k := by
  induction calls generalizing s with
  | nil => exact mapped
  | cons call rest ih => exact ih (mapped.step call)

/-- Only a record whose owner is not known is cleared. -/
theorem Mapped.not_cleared {s : Log K S} (mapped : Mapped s k) (call : Call K S) :
    (s.does call).clears k = false := by
  unfold Log.does Session.step Event.clears
  cases call with
  | sweepHealth key input warmed attached =>
    dsimp only
    rcases s.session.sweepHealth_cases key input warmed attached with ⟨-, done⟩ |
      ⟨-, ⟨owner, -, -, done⟩ | ⟨-, -, pending, -, -, -, done⟩ | ⟨unowned, done⟩⟩
    · simp [done]
    · simp [done]
    · simp [done]
    · have differ : k ≠ key := by
        rintro rfl
        simp [Mapped, unowned] at mapped
      simp [done, differ]
  | tick warmed attached seeds resolve =>
    dsimp only
    rcases s.session.tick_cases warmed attached seeds resolve with ⟨-, done⟩ |
      ⟨-, key, rest, owner, -, -, -, done⟩ | ⟨-, key, rest, -, -, done⟩ | ⟨-, after, done, -⟩
    all_goals simp [done]
  | ended task => rfl

/-- A signal of it that finds the arm free is answered at once. -/
theorem Mapped.dispatched {s : Log K S} (mapped : Mapped s k)
    (free : s.session.ready warmed attached = true)
    (signals : (s.does (.sweepHealth k input warmed attached)).signals k = true) :
    (s.does (.sweepHealth k input warmed attached)).dispatches k = true := by
  obtain ⟨_, _, _, same, due⟩ := does_signals.1 signals
  obtain ⟨-, rfl, -, -⟩ := Call.sweepHealth.inj same
  unfold Log.does Session.step Event.dispatches
  dsimp only
  rcases s.session.sweepHealth_cases k input warmed attached with ⟨calm, -⟩ |
    ⟨-, ⟨owner, -, -, done⟩ | ⟨-, taken, -⟩ | ⟨unowned, -⟩⟩
  · exact absurd due calm
  · simp [done]
  · simp [free] at taken
  · simp [Mapped, unowned] at mapped

/-! ## A run -/

/-- What the calls of a run come to, in their order. -/
def Log.events (s : Log K S) : List (Call K S) → List (Event K S)
  | [] => []
  | call :: rest => s.does call :: (s.step call).events rest

/-- Whether a tick comes to the queue. -/
def Session.turns (self : Session K S) : Call K S → Bool
  | .tick warmed attached _ _ => self.ready warmed attached
  | _ => false

/-- The ticks of a run that find the arm free. -/
def Log.turns (s : Log K S) : List (Call K S) → Nat
  | [] => 0
  | call :: rest => (if s.session.turns call then 1 else 0) + (s.step call).turns rest

/-- A call that is no successful pass of the record. -/
def NoSuccess (key : K) (call : Call K S) : Prop :=
  ∀ input warmed attached, call = .sweepHealth key input warmed attached → input.succeeds = false

/-- A call that is no pass of the record but a failed one, or one that reads nothing, in calm weather. -/
def FailsInCalm (key : K) (call : Call K S) : Prop :=
  ∀ input warmed attached, call = .sweepHealth key input warmed attached →
    input.succeeds = false ∧ input.weather = .calm

/-- The failed passes among the calls. -/
def failedPasses (key : K) (calls : List (Call K S)) : Nat :=
  calls.countP fun call => Event.fails key ⟨call, []⟩

variable {s : Log K S} {call : Call K S}

omit [LinearOrder S] in
theorem succeeds_of_noSuccess {acts : List (Act K)} (none_ : NoSuccess k call) :
    Event.succeeds k ⟨call, acts⟩ = false := by
  unfold Event.succeeds
  cases call with
  | sweepHealth key input warmed attached =>
    by_cases same : key = k
    · subst same
      simp [none_ input warmed attached rfl]
    · simp [same]
  | tick => rfl
  | ended => rfl

/-- What stands goes on where the record's owner is known and the call neither serves
nor dispatches. -/
theorem Mapped.goes (mapped : Mapped s k) (none_ : NoSuccess k call)
    (not_ : (s.does call).dispatches k = false) : (s.does call).ends k = false := by
  have served : (s.does call).succeeds k = false := succeeds_of_noSuccess none_
  simp [Event.ends, served, not_, mapped.not_cleared call]

theorem passes_count (kept : Kept s) (mapped : Mapped s k) {calls : List (Call K S)}
    (fails : ∀ call ∈ calls, FailsInCalm k call) {n : Nat} (counted : n ≤ failedSince k s.past)
    (stands : repairKThreshold * repairBackoffCap ≤ n → Standing k s.past)
    (none_ : ∀ e ∈ s.events calls, e.dispatches k = false)
    (enough : repairKThreshold * repairBackoffCap ≤ n + failedPasses k calls) :
    Standing k (s.run calls).past := by
  induction calls generalizing s n with
  | nil => exact stands enough
  | cons call rest ih =>
    obtain ⟨here, fails⟩ := List.forall_mem_cons.1 fails
    obtain ⟨first, none_⟩ := List.forall_mem_cons.1 none_
    have goes : (s.does call).ends k = false :=
      mapped.goes (fun input warmed attached same => (here input warmed attached same).1) first
    have same : (s.does call).fails k = Event.fails k ⟨call, []⟩ := rfl
    cases failing : (s.does call).fails k with
    | false =>
      refine ih (n := n) (kept.step call) (mapped.step call) fails ?_ (fun many => ?_) none_ ?_
      · rw [s.step_past, failedSince_cons goes, failing]
        simpa using counted
      · exact (standing_cons goes).2 (.inr (stands many))
      · simpa [failedPasses, List.countP_cons, ← same, failing] using enough
    | true =>
      refine ih (n := n + 1) (kept.step call) (mapped.step call) fails ?_ (fun many => ?_) none_ ?_
      · rw [s.step_past, failedSince_cons goes, failing]
        simpa using counted
      · refine (standing_cons goes).2 ?_
        by_cases stands : Standing k s.past
        · exact .inr stands
        · have bound := threshold_le k s.past
          cases call with
          | sweepHealth key input warmed attached =>
            obtain ⟨rfl, failed⟩ : key = k ∧ input.isFailedPass = true := by
              simpa [Event.fails] using same.symm.trans failing
            exact .inl ((kept.signals_iff failed).2
              ⟨(here input warmed attached rfl).2, stands, by omega⟩)
          | tick => cases failing
          | ended => cases failing
      · simp only [failedPasses, List.countP_cons, ← same, failing, if_true] at enough ⊢
        omega

/-! ## The queue -/

omit [LinearOrder S] in
theorem idxOf_filter_le {l : List K} {p : K → Bool} (held : p k = true) :
    (l.filter p).idxOf k ≤ l.idxOf k := by
  induction l with
  | nil => exact Nat.le_refl _
  | cons first rest ih =>
    by_cases same : first = k
    · subst same
      rw [List.filter_cons_of_pos held]
      simp
    · rw [List.idxOf_cons_ne _ same]
      cases kept : p first with
      | true =>
        rw [List.filter_cons_of_pos kept, List.idxOf_cons_ne _ same]
        exact Nat.succ_le_succ ih
      | false =>
        rw [List.filter_cons_of_neg (by simp [kept])]
        exact Nat.le_succ_of_le ih

/-- A queued record comes one place nearer with each tick that finds the arm free. -/
theorem Kept.place (kept : Kept s) (mapped : Mapped s k) (stands : Standing k s.past)
    (not_ : (s.does call).dispatches k = false) :
    (s.step call).session.pendingRepairs.idxOf k + (if s.session.turns call then 1 else 0) ≤
      s.session.pendingRepairs.idxOf k := by
  have queued := kept.queued k stands
  unfold Log.does Session.step Event.dispatches at not_
  unfold Log.step Session.step Session.turns
  cases call with
  | sweepHealth key input warmed attached =>
    dsimp only at not_ ⊢
    rcases s.session.sweepHealth_cases key input warmed attached with ⟨-, done⟩ |
      ⟨-, ⟨owner, -, -, done⟩ | ⟨-, -, pending, -, -, grown, done⟩ | ⟨-, done⟩⟩
    · rw [done]
      exact Nat.le_refl _
    · have differ : k ≠ key := by
        rintro rfl
        simp [done] at not_
      rw [done]
      exact idxOf_filter_le (by simpa using differ)
    · rw [done]
      obtain ⟨more, rfl⟩ := grown
      exact (List.idxOf_append_of_mem queued).le
    · rw [done]
      exact Nat.le_refl _
  | tick warmed attached seeds resolve =>
    dsimp only at not_ ⊢
    rcases s.session.tick_cases warmed attached seeds resolve with ⟨taken, done⟩ |
      ⟨free, key, rest, owner, queue, -, -, done⟩ | ⟨free, key, rest, queue, stale, done⟩ |
        ⟨queue, after, done, -⟩
    · simp [done, taken]
    · have differ : key ≠ k := by
        rintro rfl
        simp [done] at not_
      rw [done, queue, List.idxOf_cons_ne _ differ, if_pos free]
      exact Nat.le_refl _
    · have differ : key ≠ k := by
        rintro rfl
        refine stale ⟨?_, mapped⟩
        rw [SessionHealthTracker.isRepairDue_iff]
        exact (kept.known key).latched.2 stands
      rw [done, queue, List.idxOf_cons_ne _ differ, if_pos free]
    · rw [queue] at queued
      cases queued
  | ended task =>
    unfold Session.ended
    dsimp only
    split <;> exact Nat.le_refl _

/-- A record whose signal stands is dispatched by the turn its place in the queue comes to. -/
theorem Kept.turn_comes (kept : Kept s) (mapped : Mapped s k) (stands : Standing k s.past)
    {calls : List (Call K S)} (none_ : ∀ call ∈ calls, NoSuccess k call)
    (turns : s.session.pendingRepairs.idxOf k < s.turns calls) :
    ∃ e ∈ s.events calls, e.dispatches k = true := by
  induction calls generalizing s with
  | nil => cases turns
  | cons call rest ih =>
    obtain ⟨here, none_⟩ := List.forall_mem_cons.1 none_
    cases dispatched : (s.does call).dispatches k with
    | true => exact ⟨_, List.mem_cons_self .., dispatched⟩
    | false =>
      have goes := mapped.goes here dispatched
      have nearer := kept.place mapped stands dispatched
      obtain ⟨e, mem, done⟩ := ih (kept.step call) (mapped.step call)
        ((standing_cons goes).2 (.inr stands)) none_ (by
          rw [Log.turns] at turns
          omega)
      exact ⟨e, List.mem_cons_of_mem _ mem, done⟩

/-- Whatever the passes, ticks and completions: a record is signalled only where no
signal of it stands; a failed pass signals it exactly in calm weather, from the
number of passes on that makes it due; a repair comes off the queue only where its
signal stands; one task is in flight at most; and a record whose owner is known
and whose passes all fail in calm weather has its repair dispatched before so many
passes have failed, or waits in the queue for its turn and is dispatched by then. -/
theorem repairs_fire_once (calls : List (Call K S)) :
    (∀ call key, ((log calls).does call).signals key = true → ¬Standing key (log calls).past) ∧
    (∀ key input warmed attached, input.isFailedPass = true →
      (((log calls).does (.sweepHealth key input warmed attached)).signals key = true ↔
        input.weather = .calm ∧ ¬Standing key (log calls).past ∧
          threshold key (log calls).past ≤ failedSince key (log calls).past + 1)) ∧
    (∀ key warmed attached seeds resolve,
      ((log calls).does (.tick warmed attached seeds resolve)).dispatches key = true →
        Standing key (log calls).past) ∧
    (log calls).session.inFlight.length ≤ 1 ∧
    ∀ key, Mapped (log calls) key →
      (∀ input warmed attached, (log calls).session.ready warmed attached = true →
        ((log calls).does (.sweepHealth key input warmed attached)).signals key = true →
          ((log calls).does (.sweepHealth key input warmed attached)).dispatches key = true) ∧
      ∀ further, (∀ call ∈ further, FailsInCalm key call) →
        repairKThreshold * repairBackoffCap ≤ failedPasses key further →
          (∃ e ∈ (log calls).events further, e.dispatches key = true) ∨
            key ∈ ((log calls).run further).session.pendingRepairs ∧
              ∀ later, (∀ call ∈ later, NoSuccess key call) →
                ((log calls).run further).session.pendingRepairs.idxOf key <
                    ((log calls).run further).turns later →
                  ∃ e ∈ ((log calls).run further).events later, e.dispatches key = true := by
  have kept : Kept (log calls) := kept_new.run calls
  refine ⟨fun call key => kept.signals_fresh, fun key input warmed attached => kept.signals_iff,
    fun key warmed attached seeds resolve => kept.drains, kept.alone,
    fun key mapped => ⟨fun input warmed attached => mapped.dispatched, ?_⟩⟩
  intro further fails enough
  by_cases none_ : ∃ e ∈ (log calls).events further, e.dispatches key = true
  · exact .inl none_
  · have silent : ∀ e ∈ (log calls).events further, e.dispatches key = false := by
      intro e mem
      exact Bool.eq_false_iff.2 fun done => none_ ⟨e, mem, done⟩
    have stands : Standing key ((log calls).run further).past :=
      passes_count kept mapped fails (Nat.zero_le _) (fun many => absurd many (by decide)) silent
        (by simpa using enough)
    have after := kept.run further
    exact .inr ⟨after.queued key stands, fun later others =>
      after.turn_comes (mapped.run further) stands others⟩

/-- A pass whose every read failed, in calm weather. -/
def deadPass : SweepHealthInput := ⟨64, 64, 0, .unknown, .calm⟩

/-- Four passes of a record whose owner is not known signal it twice, and nothing is dispatched. -/
theorem unmapped_signalled_twice :
    let run : List (Call Nat Nat) := List.replicate 4 (.sweepHealth 0 deadPass true true)
    ((log []).events run).countP (·.signals 0) = 2 ∧
      ((log []).events run).countP (·.dispatches 0) = 0 ∧
        ((log []).events run).countP (·.succeeds 0) = 0 := by
  decide

end Daemonseed.Net.Repairs
