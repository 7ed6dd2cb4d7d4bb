import Daemonseed.Net.Repairs
import Mathlib.Data.Finset.Basic

/-! # The manual refresh

A refresh arms the records subscribed to, and an armed record is repaired after
a single failed pass in calm weather. The arm is used up by an immediate
dispatch or by a pass that does not make the record due, and is left in place
where its repair is queued, for the drain of the queue to honour. -/
namespace Daemonseed.Net.Refresh
open Daemonseed.Lib.Maps Daemonseed.Net.SessionHealth
open Daemonseed.Net.Repairs (nextResweepRecord)

variable {K S : Type} [DecidableEq K] [LinearOrder S]

/-- What holds the arm of the resweep until it ends. -/
inductive Task (K S : Type)
  | repair (key : K) (owner : S)
  | resweep (owner : S)
  | wave (owners : List S)
  deriving DecidableEq

structure Session (K S : Type) where
  health : SessionHealthTracker K
  recordKeyOwners : Map K S
  resolvedRecords : List S
  pendingRepairs : List K
  refreshArmed : Finset K
  resweepBusy : Bool
  resweepCursor : Option S
  inFlight : List (Task K S)

inductive Call (K S : Type)
  | sweepHealth (key : K) (input : SweepHealthInput) (warmed attached : Bool)
  | tick (warmed attached : Bool) (records : List S) (resolve : S → Option K)
  | refresh (attached : Bool) (records : List S) (resolve : S → Option K)
  | ended (task : Task K S)

def refreshOrCadenceDue (decision : RepairDecision) (armed : Bool) (input : SweepHealthInput) : Bool :=
  decide (decision = .repairDue) ||
    (armed && input.isFailedPass && decide (input.weather = .calm))

def drainShouldDispatch (isRepairDue armed : Bool) : Bool := isRepairDue || armed

namespace Session

def new : Session K S := ⟨.new, ∅, [], [], ∅, false, none, []⟩

def spawn (self : Session K S) (task : Task K S) : Session K S :=
  { self with resweepBusy := true, inFlight := task :: self.inFlight }

def dispatch (self : Session K S) (key : K) (owner : S) : Session K S :=
  { self with health := self.health.noteRepairDispatched key }.spawn (.repair key owner)

def disarm (self : Session K S) (key : K) : Session K S :=
  { self with refreshArmed := self.refreshArmed.erase key }

/-- Whether a task of the resweep can start. -/
def ready (self : Session K S) (warmed attached : Bool) : Bool :=
  warmed && !self.resweepBusy && attached

/-- A record found due; beside the session, the record whose repair is
dispatched. -/
def repairDue (self : Session K S) (key : K) (warmed attached : Bool) : Session K S × Option K :=
  match self.recordKeyOwners.lookup key with
  | some owner =>
    if self.ready warmed attached then
      ({ self.disarm key with pendingRepairs := self.pendingRepairs.filter (· ≠ key) }.dispatch key owner,
        some key)
    else if key ∉ self.pendingRepairs then
      ({ self with pendingRepairs := self.pendingRepairs ++ [key] }, none)
    else (self, none)
  | none => ({ self.disarm key with health := self.health.clear key }, none)

def sweepHealth (self : Session K S) (key : K) (input : SweepHealthInput) (warmed attached : Bool) :
    Session K S × Option K :=
  let decision := (self.health.observe key input).2
  let observed := { self with health := (self.health.observe key input).1 }
  if refreshOrCadenceDue decision (decide (key ∈ self.refreshArmed)) input then
    observed.repairDue key warmed attached
  else (observed.disarm key, none)

/-- The key of a record's owner is resolved once, and again where that failed. -/
def resolveKey (self : Session K S) (record : S) (resolve : S → Option K) : Session K S :=
  if self.resolvedRecords.contains record then self
  else
    match resolve record with
    | some key =>
      { self with
        resolvedRecords := record :: self.resolvedRecords
        recordKeyOwners := self.recordKeyOwners.insert key record }
    | none => self

/-- The repair at the front of the queue, where it is due still or armed; without
any, the next resweep. -/
def tick (self : Session K S) (warmed attached : Bool) (records : List S) (resolve : S → Option K) :
    Session K S × Option K :=
  if self.ready warmed attached then
    match self.pendingRepairs with
    | key :: rest =>
      let popped := { self.disarm key with pendingRepairs := rest }
      if drainShouldDispatch (self.health.isRepairDue key) (decide (key ∈ self.refreshArmed)) then
        match self.recordKeyOwners.lookup key with
        | some owner => (popped.dispatch key owner, some key)
        | none => (popped, none)
      else (popped, none)
    | [] =>
      match nextResweepRecord records self.resweepCursor with
      | some record =>
        (({ self with resweepCursor := some record }.resolveKey record resolve).spawn (.resweep record),
          none)
      | none => (self, none)
  else (self, none)

/-- One record is armed under the key its owner is known by, or is resolved to. -/
def arm (resolve : S → Option K) (self : Session K S) (record : S) : Session K S :=
  match self.recordKeyOwners.entries.find? fun e => decide (e.2 = record) with
  | some e => { self with refreshArmed := insert e.1 self.refreshArmed }
  | none =>
    match resolve record with
    | some key =>
      { self with
        resolvedRecords := record :: self.resolvedRecords
        recordKeyOwners := self.recordKeyOwners.insert key record
        refreshArmed := insert key self.refreshArmed }
    | none => self

/-- Arm every record, then sweep them all unless a sweep is under way. -/
def refresh (self : Session K S) (attached : Bool) (records : List S) (resolve : S → Option K) :
    Session K S :=
  if attached && !records.isEmpty then
    let armed := records.foldl (arm resolve) self
    if armed.resweepBusy then armed else armed.spawn (.wave records)
  else self

def ended (self : Session K S) (task : Task K S) : Session K S :=
  if task ∈ self.inFlight then
    { self with resweepBusy := false, inFlight := self.inFlight.erase task }
  else self

def step (self : Session K S) : Call K S → Session K S × Option K
  | .sweepHealth key input warmed attached => self.sweepHealth key input warmed attached
  | .tick warmed attached records resolve => self.tick warmed attached records resolve
  | .refresh attached records resolve => (self.refresh attached records resolve, none)
  | .ended task => (self.ended task, none)

end Session

/-! ## What has been done -/

/-- A call, what it armed, and the repair it dispatched. -/
structure Event (K S : Type) where
  call : Call K S
  arms : Finset K
  dispatched : Option K

namespace Event

/-- A pass of the record that shows its session serving. -/
def succeeds (key : K) (e : Event K S) : Bool :=
  match e.call with
  | .sweepHealth other input _ _ => decide (other = key) && input.succeeds
  | .tick .. | .refresh .. | .ended _ => false

/-- A pass of the record that failed in calm weather. -/
def failsInCalm (key : K) (e : Event K S) : Bool :=
  match e.call with
  | .sweepHealth other input _ _ =>
    decide (other = key) && input.isFailedPass && decide (input.weather = .calm)
  | .tick .. | .refresh .. | .ended _ => false

end Event

/-- A session and what was done so far, the newest first. -/
structure Log (K S : Type) where
  session : Session K S
  past : List (Event K S)

/-- What a refresh arms; a call of another kind arms nothing. -/
def armedBy (session : Session K S) (call : Call K S) : Finset K :=
  match call with
  | .refresh attached records resolve =>
    if attached && !records.isEmpty then
      (records.foldl (Session.arm resolve) { session with refreshArmed := ∅ }).refreshArmed
    else ∅
  | .sweepHealth .. | .tick .. | .ended _ => ∅

/-- What a call comes to. -/
def Log.does (s : Log K S) (call : Call K S) : Event K S :=
  ⟨call, armedBy s.session call, (s.session.step call).2⟩

def Log.step (s : Log K S) (call : Call K S) : Log K S :=
  ⟨(s.session.step call).1, s.does call :: s.past⟩

def Log.run (s : Log K S) (calls : List (Call K S)) : Log K S := calls.foldl Log.step s

/-- The log of a session from its start. -/
def log (calls : List (Call K S)) : Log K S := Log.run ⟨.new, []⟩ calls

/-- What the calls of a run come to, in their order. -/
def Log.events (s : Log K S) : List (Call K S) → List (Event K S)
  | [] => []
  | call :: rest => s.does call :: (s.step call).events rest

/-- A failed pass in calm weather came after a refresh that armed the record,
and no successful pass and no dispatch since. -/
def Evidence (key : K) : List (Event K S) → Prop
  | [] => False
  | e :: past =>
    e.dispatched ≠ some key ∧
      (e.failsInCalm key = true ∧ (∃ r ∈ past, key ∈ r.arms) ∨
        e.succeeds key = false ∧ Evidence key past)

instance decidableEvidence (key : K) :
    (past : List (Event K S)) → Decidable (Evidence key past)
  | [] => inferInstanceAs (Decidable False)
  | _ :: past =>
    have := decidableEvidence key past
    inferInstanceAs (Decidable (_ ∧ (_ ∧ (∃ r ∈ past, key ∈ r.arms) ∨ _ ∧ Evidence key past)))

/-- Whether the record is latched when the call comes to its repair. -/
def latchedAt (session : Session K S) (call : Call K S) (key : K) : Bool :=
  match call with
  | .sweepHealth other input _ _ => (session.health.observe other input).1.isRepairDue key
  | .tick .. | .refresh .. | .ended _ => session.health.isRepairDue key

/-! ## One call -/

variable {self : Session K S} {key k : K} {input : SweepHealthInput} {warmed attached : Bool}
  {records : List S} {resolve : S → Option K} {owner : S}

namespace Session

/-- The session after a pass, before anything is done about it. -/
def observed (self : Session K S) (key : K) (input : SweepHealthInput) : Session K S :=
  { self with health := (self.health.observe key input).1 }

/-- Whether a pass makes the record due. -/
def due (self : Session K S) (key : K) (input : SweepHealthInput) : Bool :=
  refreshOrCadenceDue (self.health.observe key input).2 (decide (key ∈ self.refreshArmed)) input

omit [LinearOrder S] in
/-- A pass that does not make the record due uses up its arm; one that does has
the repair dispatched, queued or dropped. -/
theorem sweepHealth_cases (self : Session K S) (key : K) (input : SweepHealthInput)
    (warmed attached : Bool) :
    (self.due key input = false ∧
      self.sweepHealth key input warmed attached = ((self.observed key input).disarm key, none)) ∨
    (self.due key input = true ∧
      ((∃ owner, self.recordKeyOwners.lookup key = some owner ∧ self.ready warmed attached = true ∧
        self.sweepHealth key input warmed attached =
          ({ (self.observed key input).disarm key with
              pendingRepairs := self.pendingRepairs.filter (· ≠ key) }.dispatch key owner, some key)) ∨
      ((self.recordKeyOwners.lookup key).isSome = true ∧ self.ready warmed attached = false ∧
        ∃ pending, key ∈ pending ∧ (∀ k ∈ pending, k = key ∨ k ∈ self.pendingRepairs) ∧
          self.pendingRepairs <+: pending ∧
          self.sweepHealth key input warmed attached =
            ({ self.observed key input with pendingRepairs := pending }, none)) ∨
      self.recordKeyOwners.lookup key = none ∧
        self.sweepHealth key input warmed attached =
          ({ (self.observed key input).disarm key with
            health := (self.observed key input).health.clear key }, none))) := by
  unfold sweepHealth
  dsimp only
  rw [← due, ← observed]
  cases due : self.due key input with
  | false => exact .inl ⟨rfl, by simp⟩
  | true =>
    refine .inr ⟨rfl, ?_⟩
    rw [if_pos rfl, repairDue]
    rw [show (self.observed key input).recordKeyOwners = self.recordKeyOwners from rfl,
      show (self.observed key input).ready warmed attached = self.ready warmed attached from rfl,
      show (self.observed key input).pendingRepairs = self.pendingRepairs from rfl]
    cases owned : self.recordKeyOwners.lookup key with
    | none => exact .inr (.inr ⟨rfl, rfl⟩)
    | some owner =>
      cases free : self.ready warmed attached with
      | true => exact .inl ⟨owner, rfl, rfl, rfl⟩
      | false =>
        refine .inr (.inl ⟨rfl, rfl, ?_⟩)
        by_cases queued : key ∈ self.pendingRepairs
        · refine ⟨self.pendingRepairs, queued, fun k mem => .inr mem, List.prefix_rfl, ?_⟩
          simp [queued]
          rfl
        · refine ⟨self.pendingRepairs ++ [key], by simp, fun k mem => ?_,
            List.prefix_append _ _, by simp [queued]⟩
          rcases List.mem_append.1 mem with old | new
          · exact .inr old
          · exact .inl (List.mem_singleton.1 new)

theorem resolveKey_same (self : Session K S) (record : S) (resolve : S → Option K) :
    (self.resolveKey record resolve).health = self.health ∧
      (self.resolveKey record resolve).pendingRepairs = self.pendingRepairs ∧
      (self.resolveKey record resolve).refreshArmed = self.refreshArmed := by
  unfold resolveKey
  split
  · exact ⟨rfl, rfl, rfl⟩
  · split <;> exact ⟨rfl, rfl, rfl⟩

omit [LinearOrder S] in
/-- The owner of a record, once known, is known from then on. -/
theorem insert_owner {other : K} (mapped : (self.recordKeyOwners.lookup k).isSome = true) :
    ((self.recordKeyOwners.insert other owner).lookup k).isSome = true := by
  by_cases same : k = other
  · rw [same, AList.lookup_insert]
    rfl
  · rw [AList.lookup_insert_ne same]
    exact mapped

theorem resolveKey_owners {record : S} (mapped : (self.recordKeyOwners.lookup k).isSome = true) :
    ((self.resolveKey record resolve).recordKeyOwners.lookup k).isSome = true := by
  unfold resolveKey
  split
  · exact mapped
  · split
    · exact insert_owner mapped
    · exact mapped

/-- A tick that does not find the arm free does nothing; one that does dispatches
the repair at the front of the queue, drops it as stale, or sweeps a record. -/
theorem tick_cases (self : Session K S) (warmed attached : Bool) (records : List S)
    (resolve : S → Option K) :
    (self.ready warmed attached = false ∧ self.tick warmed attached records resolve = (self, none)) ∨
    (self.ready warmed attached = true ∧ ∃ key rest owner, self.pendingRepairs = key :: rest ∧
      (self.health.isRepairDue key = true ∨ key ∈ self.refreshArmed) ∧
      self.recordKeyOwners.lookup key = some owner ∧
      self.tick warmed attached records resolve =
        ({ self.disarm key with pendingRepairs := rest }.dispatch key owner, some key)) ∨
    (self.ready warmed attached = true ∧ ∃ key rest, self.pendingRepairs = key :: rest ∧
      ¬((self.health.isRepairDue key = true ∨ key ∈ self.refreshArmed) ∧
        (self.recordKeyOwners.lookup key).isSome = true) ∧
      self.tick warmed attached records resolve =
        ({ self.disarm key with pendingRepairs := rest }, none)) ∨
    (self.pendingRepairs = [] ∧ ∃ after, self.tick warmed attached records resolve = (after, none) ∧
      after.health = self.health ∧ after.pendingRepairs = [] ∧
      after.refreshArmed = self.refreshArmed ∧
      ∀ key, (self.recordKeyOwners.lookup key).isSome = true →
        (after.recordKeyOwners.lookup key).isSome = true) := by
  unfold tick
  cases free : self.ready warmed attached with
  | false => exact .inl ⟨rfl, by simp⟩
  | true =>
    refine .inr ?_
    rw [if_pos rfl]
    cases queue : self.pendingRepairs with
    | cons key rest =>
      dsimp only
      have due : drainShouldDispatch (self.health.isRepairDue key)
          (decide (key ∈ self.refreshArmed)) = true ↔
          self.health.isRepairDue key = true ∨ key ∈ self.refreshArmed := by
        simp [drainShouldDispatch]
      by_cases honoured : self.health.isRepairDue key = true ∨ key ∈ self.refreshArmed
      · rw [if_pos (due.2 honoured)]
        cases owned : self.recordKeyOwners.lookup key with
        | none => exact .inr (.inl ⟨rfl, key, rest, rfl, by simp [owned], rfl⟩)
        | some owner => exact .inl ⟨rfl, key, rest, owner, rfl, honoured, owned, rfl⟩
      · rw [if_neg (due.not.2 honoured)]
        exact .inr (.inl ⟨rfl, key, rest, rfl, fun h => honoured h.1, rfl⟩)
    | nil =>
      refine .inr (.inr ⟨rfl, ?_⟩)
      dsimp only
      cases next : nextResweepRecord records self.resweepCursor with
      | none => exact ⟨self, rfl, rfl, queue, rfl, fun _ mapped => mapped⟩
      | some record =>
        refine ⟨_, rfl, ?_, ?_, ?_, fun key mapped => ?_⟩
        · exact (resolveKey_same _ _ _).1
        · exact (resolveKey_same _ _ _).2.1
        · exact (resolveKey_same _ _ _).2.2
        · exact resolveKey_owners mapped

/-- Arming records leaves the queue and what is known of their health. -/
structure Armed (before after : Session K S) : Prop where
  health : after.health = before.health
  queue : after.pendingRepairs = before.pendingRepairs
  owners : ∀ key, (before.recordKeyOwners.lookup key).isSome = true →
    (after.recordKeyOwners.lookup key).isSome = true
  known : (∀ key ∈ before.refreshArmed, (before.recordKeyOwners.lookup key).isSome = true) →
    ∀ key ∈ after.refreshArmed, (after.recordKeyOwners.lookup key).isSome = true

theorem arm_armed (resolve : S → Option K) (self : Session K S) (record : S) :
    Armed self (self.arm resolve record) := by
  unfold arm
  cases found : self.recordKeyOwners.entries.find? fun e => decide (e.2 = record) with
  | some e =>
    have known : (self.recordKeyOwners.lookup e.1).isSome = true := by
      rw [AList.mem_lookup_iff.2 (List.mem_of_find?_eq_some found)]
      rfl
    refine ⟨rfl, rfl, fun _ h => h, fun all key mem => ?_⟩
    rcases Finset.mem_insert.1 mem with rfl | old
    · exact known
    · exact all key old
  | none =>
    dsimp only
    cases resolve record with
    | none => exact ⟨rfl, rfl, fun _ h => h, fun all => all⟩
    | some other =>
      refine ⟨rfl, rfl, fun _ => insert_owner, fun all key mem => ?_⟩
      rcases Finset.mem_insert.1 mem with rfl | old
      · exact Option.isSome_iff_exists.2 ⟨record, AList.lookup_insert _⟩
      · exact insert_owner (all key old)

omit [LinearOrder S] in
theorem Armed.trans {after last : Session K S} (h : Armed self after) (k : Armed after last) :
    Armed self last where
  health := k.health.trans h.health
  queue := k.queue.trans h.queue
  owners key mapped := k.owners key (h.owners key mapped)
  known all := k.known (h.known all)

theorem foldl_armed (resolve : S → Option K) (self : Session K S) (records : List S) :
    Armed self (records.foldl (arm resolve) self) := by
  induction records generalizing self with
  | nil => exact ⟨rfl, rfl, fun _ h => h, fun all => all⟩
  | cons record rest ih => exact (arm_armed resolve self record).trans (ih _)

/-- What was armed before makes no difference to what is armed. -/
theorem foldl_arm_union (resolve : S → Option K) (records : List S) (self : Session K S)
    (before now : Finset K) :
    (records.foldl (arm resolve) { self with refreshArmed := before ∪ now }).refreshArmed =
      before ∪ (records.foldl (arm resolve) { self with refreshArmed := now }).refreshArmed := by
  induction records generalizing self now with
  | nil => rfl
  | cons record rest ih =>
    rw [List.foldl_cons, List.foldl_cons]
    unfold arm
    dsimp only
    cases self.recordKeyOwners.entries.find? fun e => decide (e.2 = record) with
    | some e =>
      dsimp only
      rw [← Finset.union_insert]
      exact ih self (insert e.1 now)
    | none =>
      dsimp only
      cases resolve record with
      | none => exact ih self now
      | some other =>
        dsimp only
        rw [← Finset.union_insert]
        exact ih { self with
          resolvedRecords := record :: self.resolvedRecords
          recordKeyOwners := self.recordKeyOwners.insert other record } (insert other now)

theorem refresh_armed (self : Session K S) (attached : Bool) (records : List S)
    (resolve : S → Option K) :
    Armed self (self.refresh attached records resolve) ∧
      (self.refresh attached records resolve).refreshArmed =
        self.refreshArmed ∪ armedBy self (.refresh attached records resolve) := by
  unfold refresh armedBy
  dsimp only
  split
  · have armed := foldl_armed resolve self records
    have union := foldl_arm_union resolve records self self.refreshArmed ∅
    rw [Finset.union_empty] at union
    split
    · exact ⟨armed, union⟩
    · exact ⟨⟨armed.health, armed.queue, armed.owners, armed.known⟩, union⟩
  · exact ⟨⟨rfl, rfl, fun _ h => h, fun all => all⟩, (Finset.union_empty _).symm⟩

theorem ended_same (self : Session K S) (task : Task K S) :
    (self.ended task).health = self.health ∧ (self.ended task).pendingRepairs = self.pendingRepairs ∧
      (self.ended task).refreshArmed = self.refreshArmed ∧
      (self.ended task).recordKeyOwners = self.recordKeyOwners := by
  unfold ended
  split <;> exact ⟨rfl, rfl, rfl, rfl⟩

end Session

/-! ## The latch -/

/-- A pass that does not succeed leaves a latch. -/
theorem observe_latched {health : RecordHealth} {kThreshold : Nat}
    (latched : health.repairDueLatched = true) (fails : input.succeeds = false) :
    (health.observe kThreshold input).1.repairDueLatched = true := by
  unfold SweepHealthInput.succeeds at fails
  unfold RecordHealth.observe
  cases silent : input.saysNothing with
  | true => simpa using latched
  | false =>
    have failed : input.isFailedPass = true := by simpa [silent] using fails
    simp only [failed, latched, Bool.false_eq_true, if_false, Bool.not_true, if_true]
    split <;> rfl

theorem failed_not_success (failed : input.isFailedPass = true) : input.succeeds = false := by
  simp [SweepHealthInput.succeeds, failed]

section

variable {health : SessionHealthTracker K}

theorem latched_observe (latched : health.isRepairDue k = true)
    (fails : k = key → input.succeeds = false) : (health.observe key input).1.isRepairDue k = true := by
  rw [SessionHealthTracker.isRepairDue_iff] at latched ⊢
  rw [SessionHealthTracker.entry_observe]
  split
  · next same =>
    subst same
    exact observe_latched latched (fails rfl)
  · exact latched

theorem latched_of_due (due : (health.observe key input).2 = .repairDue) :
    (health.observe key input).1.isRepairDue key = true := by
  rw [SessionHealthTracker.isRepairDue_iff, SessionHealthTracker.entry_observe, if_pos rfl]
  exact (RecordHealth.observe_due due).2.1

theorem latched_dispatched (other : k ≠ key) (latched : health.isRepairDue k = true) :
    (health.noteRepairDispatched key).isRepairDue k = true := by
  unfold SessionHealthTracker.noteRepairDispatched
  cases health.records.lookup key with
  | none => exact latched
  | some entry =>
    unfold SessionHealthTracker.isRepairDue at latched ⊢
    rw [AList.lookup_insert_ne other]
    exact latched

theorem latched_clear (other : k ≠ key) (latched : health.isRepairDue k = true) :
    (health.clear key).isRepairDue k = true := by
  unfold SessionHealthTracker.clear
  unfold SessionHealthTracker.isRepairDue at latched ⊢
  rw [AList.lookup_erase_ne other]
  exact latched

end

omit [LinearOrder S] in
/-- What makes a record due: the latch, or its arm and this pass. -/
theorem due_cases (due : self.due key input = true) :
    (self.health.observe key input).1.isRepairDue key = true ∨
      key ∈ self.refreshArmed ∧ input.isFailedPass = true ∧ input.weather = .calm := by
  unfold Session.due refreshOrCadenceDue at due
  simp only [Bool.or_eq_true, Bool.and_eq_true, decide_eq_true_eq] at due
  rcases due with cadence | ⟨⟨armed, failed⟩, calm⟩
  · exact .inl (latched_of_due cadence)
  · exact .inr ⟨armed, failed, calm⟩

omit [LinearOrder S] in
theorem due_of_armed (armed : key ∈ self.refreshArmed) (failed : input.isFailedPass = true)
    (calm : input.weather = .calm) : self.due key input = true := by
  simp [Session.due, refreshOrCadenceDue, armed, failed, calm]

/-! ## What is known of an armed record -/

structure Kept (s : Log K S) : Prop where
  /-- The owner of an armed record is known. -/
  mapped : ∀ key ∈ s.session.refreshArmed, (s.session.recordKeyOwners.lookup key).isSome = true
  /-- It was armed by a refresh. -/
  refreshed : ∀ key ∈ s.session.refreshArmed, ∃ r ∈ s.past, key ∈ r.arms

omit [LinearOrder S] in
theorem kept_new : Kept (⟨.new, []⟩ : Log K S) := ⟨nofun, nofun⟩

omit [LinearOrder S] in
/-- Nothing is armed but by a refresh. -/
theorem Kept.shrunk {s : Log K S} (kept : Kept s) {after : Session K S} {e : Event K S}
    (armed : after.refreshArmed ⊆ s.session.refreshArmed)
    (owners : ∀ key, (s.session.recordKeyOwners.lookup key).isSome = true →
      (after.recordKeyOwners.lookup key).isSome = true) : Kept ⟨after, e :: s.past⟩ where
  mapped key mem := owners key (kept.mapped key (armed mem))
  refreshed key mem := by
    obtain ⟨r, before, arms⟩ := kept.refreshed key (armed mem)
    exact ⟨r, List.mem_cons_of_mem _ before, arms⟩

theorem Kept.step {s : Log K S} (kept : Kept s) (call : Call K S) : Kept (s.step call) := by
  unfold Log.step Session.step
  cases call with
  | sweepHealth key input warmed attached =>
    dsimp only
    rcases s.session.sweepHealth_cases key input warmed attached with ⟨-, done⟩ |
      ⟨-, ⟨owner, -, -, done⟩ | ⟨-, -, pending, -, -, -, done⟩ | ⟨-, done⟩⟩
    · rw [done]
      exact kept.shrunk (Finset.erase_subset _ _) fun _ h => h
    · rw [done]
      exact kept.shrunk (Finset.erase_subset _ _) fun _ h => h
    · rw [done]
      exact kept.shrunk (Finset.Subset.refl _) fun _ h => h
    · rw [done]
      exact kept.shrunk (Finset.erase_subset _ _) fun _ h => h
  | tick warmed attached records resolve =>
    dsimp only
    rcases s.session.tick_cases warmed attached records resolve with ⟨-, done⟩ |
      ⟨-, key, rest, owner, -, -, -, done⟩ | ⟨-, key, rest, -, -, done⟩ |
        ⟨-, after, done, -, -, armed, owners⟩
    · rw [done]
      exact kept.shrunk (Finset.Subset.refl _) fun _ h => h
    · rw [done]
      exact kept.shrunk (Finset.erase_subset _ _) fun _ h => h
    · rw [done]
      exact kept.shrunk (Finset.erase_subset _ _) fun _ h => h
    · rw [done]
      exact kept.shrunk armed.subset owners
  | refresh attached records resolve =>
    obtain ⟨armed, union⟩ := s.session.refresh_armed attached records resolve
    refine ⟨armed.known kept.mapped, fun key mem => ?_⟩
    rw [union, Finset.mem_union] at mem
    rcases mem with old | new
    · obtain ⟨r, before, arms⟩ := kept.refreshed key old
      exact ⟨r, List.mem_cons_of_mem _ before, arms⟩
    · exact ⟨_, List.mem_cons_self, new⟩
  | ended task =>
    obtain ⟨-, -, armed, owners⟩ := s.session.ended_same task
    exact kept.shrunk armed.subset fun key mapped => by rwa [owners]

theorem Kept.run {s : Log K S} (kept : Kept s) (calls : List (Call K S)) : Kept (s.run calls) := by
  induction calls generalizing s with
  | nil => exact kept
  | cons call rest ih => exact ih (kept.step call)

/-! ## What a dispatch rests on -/

/-- A queued record that is armed is latched, or there is evidence of it. -/
def Grounded (k : K) (s : Log K S) : Prop :=
  k ∈ s.session.pendingRepairs → k ∈ s.session.refreshArmed →
    s.session.health.isRepairDue k = true ∨ Evidence k s.past

/-- No refresh arms the record while it is queued and neither latched nor
armed: no stale entry of the queue meets a fresh arm. -/
def NoStale (k : K) : Log K S → List (Call K S) → Prop
  | _, [] => True
  | s, call :: rest =>
    (k ∈ armedBy s.session call → k ∈ s.session.pendingRepairs →
      s.session.health.isRepairDue k = true ∨ k ∈ s.session.refreshArmed) ∧
      NoStale k (s.step call) rest

omit [LinearOrder S] in
theorem Evidence.cons {e : Event K S} {past : List (Event K S)} (evidence : Evidence k past)
    (dispatched : e.dispatched ≠ some k) (succeeds : e.succeeds k = false) :
    Evidence k (e :: past) := ⟨dispatched, .inr ⟨succeeds, evidence⟩⟩

omit [LinearOrder S] in
/-- An event of no pass of the record that leaves its queue entry and its arm. -/
theorem Grounded.carry {s : Log K S} (grounded : Grounded k s) {after : Session K S} {e : Event K S}
    (queue : k ∈ after.pendingRepairs → k ∈ s.session.pendingRepairs)
    (armed : k ∈ after.refreshArmed → k ∈ s.session.pendingRepairs →
      s.session.health.isRepairDue k = true ∨ k ∈ s.session.refreshArmed)
    (latched : s.session.health.isRepairDue k = true → after.health.isRepairDue k = true)
    (dispatched : e.dispatched ≠ some k) (succeeds : e.succeeds k = false) :
    Grounded k ⟨after, e :: s.past⟩ := by
  intro queued arm
  rcases armed arm (queue queued) with due | arm
  · exact .inl (latched due)
  · rcases grounded (queue queued) arm with due | evidence
    · exact .inl (latched due)
    · exact .inr (evidence.cons dispatched succeeds)

theorem Grounded.step {s : Log K S} (grounded : Grounded k s) (kept : Kept s) {call : Call K S}
    (noStale : k ∈ armedBy s.session call → k ∈ s.session.pendingRepairs →
      s.session.health.isRepairDue k = true ∨ k ∈ s.session.refreshArmed) :
    Grounded k (s.step call) := by
  unfold Log.step Log.does Session.step
  cases call with
  | sweepHealth key input warmed attached =>
    dsimp only
    by_cases same : k = key
    · subst same
      -- only a queued repair leaves the arm of the record it is of
      have gone : ∀ {after : Session K S} {e : Event K S}, k ∉ after.refreshArmed →
          Grounded k ⟨after, e :: s.past⟩ := fun not_ _ arm => absurd arm not_
      rcases s.session.sweepHealth_cases k input warmed attached with ⟨-, done⟩ |
        ⟨due, ⟨owner, -, -, done⟩ | ⟨-, -, pending, -, -, -, done⟩ | ⟨-, done⟩⟩
      · rw [done]
        exact gone (Finset.notMem_erase _ _)
      · rw [done]
        exact gone (Finset.notMem_erase _ _)
      · rw [done]
        intro _ _
        rcases due_cases due with latched | ⟨armed, failed, calm⟩
        · exact .inl latched
        · refine .inr ⟨by simp, .inl ⟨?_, kept.refreshed k armed⟩⟩
          simp [Event.failsInCalm, failed, calm]
      · rw [done]
        exact gone (Finset.notMem_erase _ _)
    · have succeeds : ∀ {arms dispatched}, Event.succeeds k
          (⟨.sweepHealth key input warmed attached, arms, dispatched⟩ : Event K S) = false := by
        simp [Event.succeeds, Ne.symm same]
      have armed : k ∈ s.session.refreshArmed.erase key → k ∈ s.session.pendingRepairs →
          s.session.health.isRepairDue k = true ∨ k ∈ s.session.refreshArmed :=
        fun arm _ => .inr (Finset.mem_of_mem_erase arm)
      have latched : s.session.health.isRepairDue k = true →
          (s.session.health.observe key input).1.isRepairDue k = true :=
        fun due => latched_observe due fun h => absurd h same
      rcases s.session.sweepHealth_cases key input warmed attached with ⟨-, done⟩ |
        ⟨-, ⟨owner, -, -, done⟩ | ⟨-, -, pending, -, old, -, done⟩ | ⟨-, done⟩⟩
      · rw [done]
        exact grounded.carry id armed latched nofun succeeds
      · rw [done]
        refine grounded.carry (fun mem => (List.mem_filter.1 mem).1) armed
          (fun due => latched_dispatched same (latched due)) ?_ succeeds
        simpa using Ne.symm same
      · rw [done]
        refine grounded.carry (fun mem => ?_) (fun arm _ => .inr arm) latched nofun succeeds
        exact (old k mem).resolve_left same
      · rw [done]
        exact grounded.carry id armed (fun due => latched_clear same (latched due)) nofun succeeds
  | tick warmed attached records resolve =>
    dsimp only
    rcases s.session.tick_cases warmed attached records resolve with ⟨-, done⟩ |
      ⟨-, key, rest, owner, queue, -, -, done⟩ | ⟨-, key, rest, queue, -, done⟩ |
        ⟨-, after, done, -, none_, -, -⟩
    · rw [done]
      exact grounded.carry id (fun arm _ => .inr arm) id nofun rfl
    · rw [done]
      by_cases same : k = key
      · subst same
        exact fun _ arm => absurd arm (Finset.notMem_erase _ _)
      · refine grounded.carry (fun mem => queue ▸ List.mem_cons_of_mem _ mem)
          (fun arm _ => .inr (Finset.mem_of_mem_erase arm)) (latched_dispatched same) ?_ rfl
        simpa using Ne.symm same
    · rw [done]
      exact grounded.carry (fun mem => queue ▸ List.mem_cons_of_mem _ mem)
        (fun arm _ => .inr (Finset.mem_of_mem_erase arm)) id nofun rfl
    · rw [done]
      intro queued
      rw [none_] at queued
      cases queued
  | refresh attached records resolve =>
    dsimp only
    obtain ⟨armed, union⟩ := s.session.refresh_armed attached records resolve
    refine grounded.carry (fun mem => armed.queue ▸ mem) (fun arm queued => ?_)
      (fun due => by rwa [armed.health]) nofun rfl
    rw [union, Finset.mem_union] at arm
    rcases arm with old | new
    · exact .inr old
    · exact noStale new queued
  | ended task =>
    dsimp only
    obtain ⟨health, queue, armed, -⟩ := s.session.ended_same task
    exact grounded.carry (fun mem => queue ▸ mem) (fun arm _ => .inr (armed ▸ arm))
      (fun due => by rwa [health]) nofun rfl

theorem Grounded.run {s : Log K S} (grounded : Grounded k s) (kept : Kept s)
    {calls : List (Call K S)} (noStale : NoStale k s calls) : Grounded k (s.run calls) := by
  induction calls generalizing s with
  | nil => exact grounded
  | cons call rest ih => exact ih (grounded.step kept noStale.1) (kept.step call) noStale.2

/-- A repair is dispatched of a latched record, or on evidence. -/
theorem Grounded.dispatches {s : Log K S} (grounded : Grounded k s) (kept : Kept s) {call : Call K S}
    (dispatches : (s.does call).dispatched = some k) :
    latchedAt s.session call k = true ∨ Evidence k (⟨call, ∅, none⟩ :: s.past) := by
  unfold Log.does Session.step at dispatches
  cases call with
  | sweepHealth key input warmed attached =>
    dsimp only at dispatches
    rcases s.session.sweepHealth_cases key input warmed attached with ⟨-, done⟩ |
      ⟨due, ⟨owner, -, -, done⟩ | ⟨-, -, pending, -, -, -, done⟩ | ⟨-, done⟩⟩
    · simp [done] at dispatches
    · obtain rfl : key = k := by simpa [done] using dispatches
      rcases due_cases due with latched | ⟨armed, failed, calm⟩
      · exact .inl latched
      · refine .inr ⟨nofun, .inl ⟨?_, kept.refreshed key armed⟩⟩
        simp [Event.failsInCalm, failed, calm]
    · simp [done] at dispatches
    · simp [done] at dispatches
  | tick warmed attached records resolve =>
    dsimp only at dispatches
    rcases s.session.tick_cases warmed attached records resolve with ⟨-, done⟩ |
      ⟨-, key, rest, owner, queue, honoured, -, done⟩ | ⟨-, key, rest, -, -, done⟩ |
        ⟨-, after, done, -⟩
    · simp [done] at dispatches
    · obtain rfl : key = k := by simpa [done] using dispatches
      rcases honoured with latched | armed
      · exact .inl latched
      · rcases grounded (queue ▸ List.mem_cons_self) armed with latched | evidence
        · exact .inl latched
        · exact .inr (evidence.cons nofun rfl)
    · simp [done] at dispatches
    · simp [done] at dispatches
  | refresh attached records resolve => cases dispatches
  | ended task => cases dispatches

/-! ## An armed record -/

/-- A call that is no pass of the record. -/
def NoPass (key : K) (call : Call K S) : Prop :=
  ∀ input warmed attached, call ≠ .sweepHealth key input warmed attached

/-- A call that is no pass of the record but a failed one in calm weather. -/
def FailsInCalm (key : K) (call : Call K S) : Prop :=
  ∀ input warmed attached, call = .sweepHealth key input warmed attached →
    input.isFailedPass = true ∧ input.weather = .calm

/-- Whether a tick comes to the queue. -/
def Session.turns (self : Session K S) : Call K S → Bool
  | .tick warmed attached _ _ => self.ready warmed attached
  | .sweepHealth .. | .refresh .. | .ended _ => false

/-- The ticks of a run that find the arm free. -/
def Log.turns (s : Log K S) : List (Call K S) → Nat
  | [] => 0
  | call :: rest => (if s.session.turns call then 1 else 0) + (s.step call).turns rest

/-- The record's repair is queued, and its arm left for the drain. -/
structure Waiting (k : K) (session : Session K S) : Prop where
  queued : k ∈ session.pendingRepairs
  armed : k ∈ session.refreshArmed

section

variable {s : Log K S} {call : Call K S}

/-- An arm lasts until a pass of its record or a dispatch. -/
theorem Kept.armed (kept : Kept s) (armed : k ∈ s.session.refreshArmed) (noPass : NoPass k call) :
    (s.does call).dispatched = some k ∨ k ∈ (s.step call).session.refreshArmed := by
  unfold Log.step Log.does Session.step
  cases call with
  | sweepHealth key input warmed attached =>
    have differ : k ≠ key := fun same => noPass input warmed attached (same ▸ rfl)
    have still : k ∈ s.session.refreshArmed.erase key := Finset.mem_erase.2 ⟨differ, armed⟩
    dsimp only
    rcases s.session.sweepHealth_cases key input warmed attached with ⟨-, done⟩ |
      ⟨-, ⟨owner, -, -, done⟩ | ⟨-, -, pending, -, -, -, done⟩ | ⟨-, done⟩⟩
    · rw [done]
      exact .inr still
    · rw [done]
      exact .inr still
    · rw [done]
      exact .inr armed
    · rw [done]
      exact .inr still
  | tick warmed attached records resolve =>
    dsimp only
    rcases s.session.tick_cases warmed attached records resolve with ⟨-, done⟩ |
      ⟨-, key, rest, owner, queue, -, -, done⟩ | ⟨-, key, rest, queue, stale, done⟩ |
        ⟨-, after, done, -, -, same, -⟩
    · rw [done]
      exact .inr armed
    · rw [done]
      by_cases same : key = k
      · exact .inl (congrArg some same)
      · exact .inr (Finset.mem_erase.2 ⟨Ne.symm same, armed⟩)
    · rw [done]
      have differ : k ≠ key := by
        rintro rfl
        exact stale ⟨.inr armed, kept.mapped k armed⟩
      exact .inr (Finset.mem_erase.2 ⟨differ, armed⟩)
    · rw [done]
      exact .inr (same ▸ armed)
  | refresh attached records resolve =>
    refine .inr ?_
    dsimp only
    rw [(s.session.refresh_armed attached records resolve).2]
    exact Finset.mem_union_left _ armed
  | ended task => exact .inr ((s.session.ended_same task).2.2.1 ▸ armed)

theorem Kept.armed_run (kept : Kept s) (armed : k ∈ s.session.refreshArmed) {calls : List (Call K S)}
    (noPass : ∀ call ∈ calls, NoPass k call) :
    (∃ e ∈ s.events calls, e.dispatched = some k) ∨ k ∈ (s.run calls).session.refreshArmed := by
  induction calls generalizing s with
  | nil => exact .inr armed
  | cons call rest ih =>
    obtain ⟨here, later⟩ := List.forall_mem_cons.1 noPass
    rcases kept.armed armed here with now | armed
    · exact .inl ⟨_, List.mem_cons_self, now⟩
    · rcases ih (kept.step call) armed later with ⟨e, mem, done⟩ | last
      · exact .inl ⟨e, List.mem_cons_of_mem _ mem, done⟩
      · exact .inr last

/-- A failed pass of an armed record in calm weather has it repaired or queued. -/
theorem Kept.fails (kept : Kept s) (armed : k ∈ s.session.refreshArmed)
    (failed : input.isFailedPass = true) (calm : input.weather = .calm) (warmed attached : Bool) :
    (s.does (.sweepHealth k input warmed attached)).dispatched = some k ∨
      Waiting k (s.step (.sweepHealth k input warmed attached)).session := by
  have due := due_of_armed armed failed calm
  have mapped := kept.mapped k armed
  unfold Log.step Log.does Session.step
  dsimp only
  rcases s.session.sweepHealth_cases k input warmed attached with ⟨not_, -⟩ |
    ⟨-, ⟨owner, -, -, done⟩ | ⟨-, -, pending, queued, -, -, done⟩ | ⟨unowned, -⟩⟩
  · rw [due] at not_
    cases not_
  · rw [done]
    exact .inl rfl
  · rw [done]
    exact .inr ⟨queued, armed⟩
  · rw [unowned] at mapped
    cases mapped

/-- A queued armed record comes a place nearer with each tick that finds the arm free. -/
theorem Kept.waits (kept : Kept s) (waiting : Waiting k s.session) (fails : FailsInCalm k call)
    (not_ : (s.does call).dispatched ≠ some k) :
    Waiting k (s.step call).session ∧
      (s.step call).session.pendingRepairs.idxOf k + (if s.session.turns call then 1 else 0) ≤
        s.session.pendingRepairs.idxOf k := by
  obtain ⟨queued, armed⟩ := waiting
  have mapped := kept.mapped k armed
  unfold Log.does Session.step at not_
  unfold Log.step Session.step Session.turns
  cases call with
  | sweepHealth key input warmed attached =>
    dsimp only at not_ ⊢
    have still : k ≠ key → k ∈ s.session.refreshArmed.erase key :=
      fun differ => Finset.mem_erase.2 ⟨differ, armed⟩
    rcases s.session.sweepHealth_cases key input warmed attached with ⟨quiet, done⟩ |
      ⟨-, ⟨owner, -, -, done⟩ | ⟨-, -, pending, -, -, grown, done⟩ | ⟨unowned, done⟩⟩
    · have differ : k ≠ key := by
        rintro rfl
        obtain ⟨failed, calm⟩ := fails input warmed attached rfl
        rw [due_of_armed armed failed calm] at quiet
        cases quiet
      rw [done]
      exact ⟨⟨queued, still differ⟩, Nat.le_refl _⟩
    · have differ : k ≠ key := by
        rintro rfl
        exact not_ (by rw [done])
      rw [done]
      refine ⟨⟨List.mem_filter.2 ⟨queued, by simpa using differ⟩, still differ⟩, ?_⟩
      exact Repairs.idxOf_filter_le (by simpa using differ)
    · rw [done]
      obtain ⟨more, rfl⟩ := grown
      exact ⟨⟨List.mem_append_left _ queued, armed⟩, (List.idxOf_append_of_mem queued).le⟩
    · have differ : k ≠ key := by
        rintro rfl
        rw [unowned] at mapped
        cases mapped
      rw [done]
      exact ⟨⟨queued, still differ⟩, Nat.le_refl _⟩
  | tick warmed attached records resolve =>
    dsimp only at not_ ⊢
    rcases s.session.tick_cases warmed attached records resolve with ⟨taken, done⟩ |
      ⟨free, key, rest, owner, queue, -, -, done⟩ | ⟨free, key, rest, queue, stale, done⟩ |
        ⟨queue, after, done, -⟩
    · rw [done, if_neg (Bool.eq_false_iff.1 taken)]
      exact ⟨⟨queued, armed⟩, Nat.le_refl _⟩
    · have differ : key ≠ k := fun same => not_ (by rw [done, same])
      rw [queue] at queued
      rw [done, queue, List.idxOf_cons_ne _ differ, if_pos free]
      refine ⟨⟨(List.mem_cons.1 queued).resolve_left (Ne.symm differ), ?_⟩, Nat.le_refl _⟩
      exact Finset.mem_erase.2 ⟨Ne.symm differ, armed⟩
    · have differ : key ≠ k := by
        rintro rfl
        exact stale ⟨.inr armed, mapped⟩
      rw [queue] at queued
      rw [done, queue, List.idxOf_cons_ne _ differ, if_pos free]
      refine ⟨⟨(List.mem_cons.1 queued).resolve_left (Ne.symm differ), ?_⟩, Nat.le_refl _⟩
      exact Finset.mem_erase.2 ⟨Ne.symm differ, armed⟩
    · rw [queue] at queued
      cases queued
  | refresh attached records resolve =>
    dsimp only
    obtain ⟨arming, union⟩ := s.session.refresh_armed attached records resolve
    rw [arming.queue]
    refine ⟨⟨arming.queue ▸ queued, ?_⟩, Nat.le_refl _⟩
    rw [union]
    exact Finset.mem_union_left _ armed
  | ended task =>
    dsimp only
    obtain ⟨-, queue, same, -⟩ := s.session.ended_same task
    rw [queue]
    exact ⟨⟨queue ▸ queued, same ▸ armed⟩, Nat.le_refl _⟩

/-- It is dispatched by the turn its place in the queue comes to. -/
theorem Kept.turn_comes (kept : Kept s) (waiting : Waiting k s.session) {calls : List (Call K S)}
    (fails : ∀ call ∈ calls, FailsInCalm k call)
    (turns : s.session.pendingRepairs.idxOf k < s.turns calls) :
    ∃ e ∈ s.events calls, e.dispatched = some k := by
  induction calls generalizing s with
  | nil => cases turns
  | cons call rest ih =>
    obtain ⟨here, fails⟩ := List.forall_mem_cons.1 fails
    by_cases dispatched : (s.does call).dispatched = some k
    · exact ⟨_, List.mem_cons_self, dispatched⟩
    · obtain ⟨waiting, nearer⟩ := kept.waits waiting here dispatched
      obtain ⟨e, mem, done⟩ := ih (kept.step call) waiting fails (by
        rw [Log.turns] at turns
        omega)
      exact ⟨e, List.mem_cons_of_mem _ mem, done⟩

end

/-- **A refresh repairs what fails after it.** A repair is dispatched of a
latched record, or on evidence since a refresh that armed it, where no stale
entry of the queue meets a fresh arm; and a record a refresh armed, whose next
pass fails in calm weather, has a repair dispatched by the turn its place in the
queue comes to, where its passes until then fail in calm weather too. -/
theorem refresh_repairs (calls : List (Call K S)) (k : K) :
    (NoStale k ⟨.new, []⟩ calls → ∀ call, ((log calls).does call).dispatched = some k →
      latchedAt (log calls).session call k = true ∨ Evidence k (⟨call, ∅, none⟩ :: (log calls).past)) ∧
    ∀ attached records resolve,
      k ∈ armedBy (log calls).session (.refresh attached records resolve) →
      ∀ between, (∀ call ∈ between, NoPass k call) →
        (∃ e ∈ ((log calls).step (.refresh attached records resolve)).events between,
          e.dispatched = some k) ∨
        ∀ input warmed attached', input.isFailedPass = true → input.weather = .calm →
          let s := ((log calls).step (.refresh attached records resolve)).run between
          let pass := Call.sweepHealth k input warmed attached'
          (s.does pass).dispatched = some k ∨ k ∈ (s.step pass).session.pendingRepairs ∧
            ∀ later, (∀ call ∈ later, FailsInCalm k call) →
              (s.step pass).session.pendingRepairs.idxOf k < (s.step pass).turns later →
                ∃ e ∈ (s.step pass).events later, e.dispatched = some k := by
  have kept : Kept (log calls) := kept_new.run calls
  constructor
  · intro noStale call dispatches
    have grounded : Grounded k (log calls) :=
      Grounded.run (fun queued => by cases queued) kept_new noStale
    exact grounded.dispatches kept dispatches
  · intro attached records resolve arms between noPass
    have after := kept.step (.refresh attached records resolve)
    have armed : k ∈ ((log calls).step (.refresh attached records resolve)).session.refreshArmed := by
      unfold Log.step Session.step
      dsimp only
      rw [((log calls).session.refresh_armed attached records resolve).2]
      exact Finset.mem_union_right _ arms
    rcases after.armed_run armed noPass with dispatched | armed
    · exact .inl dispatched
    · refine .inr fun input warmed attached' failed calm => ?_
      rcases (after.run between).fails armed failed calm warmed attached' with now | waiting
      · exact .inl now
      · exact .inr ⟨waiting.queued, fun later fails turns =>
          ((after.run between).step _).turn_comes waiting fails turns⟩

/-! ## What goes wrong -/

theorem events_append (s : Log K S) (calls later : List (Call K S)) :
    s.events (calls ++ later) = s.events calls ++ (s.run calls).events later := by
  induction calls generalizing s with
  | nil => rfl
  | cons call rest ih => exact congrArg _ (ih _)

/-- A record that is not queued has no repair dispatched without a pass of it. -/
theorem not_queued {s : Log K S} (idle : k ∉ s.session.pendingRepairs) {calls : List (Call K S)}
    (noPass : ∀ call ∈ calls, NoPass k call) : ∀ e ∈ s.events calls, e.dispatched ≠ some k := by
  induction calls generalizing s with
  | nil => nofun
  | cons call rest ih =>
    obtain ⟨here, later⟩ := List.forall_mem_cons.1 noPass
    have one : (s.does call).dispatched ≠ some k ∧ k ∉ (s.step call).session.pendingRepairs := by
      unfold Log.step Log.does Session.step
      cases call with
      | sweepHealth key input warmed attached =>
        have differ : key ≠ k := fun same => here input warmed attached (same ▸ rfl)
        dsimp only
        rcases s.session.sweepHealth_cases key input warmed attached with ⟨-, done⟩ |
          ⟨-, ⟨owner, -, -, done⟩ | ⟨-, -, pending, -, old, -, done⟩ | ⟨-, done⟩⟩
        · rw [done]
          exact ⟨nofun, idle⟩
        · rw [done]
          exact ⟨fun same => differ (Option.some.inj same), fun mem => idle (List.mem_filter.1 mem).1⟩
        · rw [done]
          exact ⟨nofun, fun mem => (old k mem).elim (fun same => differ same.symm) idle⟩
        · rw [done]
          exact ⟨nofun, idle⟩
      | tick warmed attached records resolve =>
        dsimp only
        rcases s.session.tick_cases warmed attached records resolve with ⟨-, done⟩ |
          ⟨-, key, rest, owner, queue, -, -, done⟩ | ⟨-, key, rest, queue, -, done⟩ |
            ⟨-, after, done, -, none_, -⟩
        · rw [done]
          exact ⟨nofun, idle⟩
        · rw [queue, List.mem_cons, not_or] at idle
          rw [done]
          exact ⟨fun same => idle.1 (Option.some.inj same).symm, idle.2⟩
        · rw [queue, List.mem_cons, not_or] at idle
          rw [done]
          exact ⟨nofun, idle.2⟩
        · rw [done, none_]
          exact ⟨nofun, nofun⟩
      | refresh attached records resolve =>
        exact ⟨nofun, (s.session.refresh_armed attached records resolve).1.queue ▸ idle⟩
      | ended task => exact ⟨nofun, (s.session.ended_same task).2.1 ▸ idle⟩
    exact List.forall_mem_cons.2 ⟨one.1, ih one.2 later⟩

def failedPass (weather : Weather) : SweepHealthInput := ⟨64, 64, 0, .unknown, weather⟩

def goodPass : SweepHealthInput := ⟨64, 0, 1, .unknown, .calm⟩

/-- A record fails twice while the session warms up, which queues its repair, then
recovers; a refresh arms it. -/
def recovered : List (Call Nat Nat) :=
  [.tick true true [0] some, .ended (.resweep 0), .sweepHealth 0 (failedPass .calm) false true,
    .sweepHealth 0 (failedPass .calm) false true, .sweepHealth 0 goodPass false true,
    .refresh true [0] some, .ended (.wave [0])]

/-- A refresh arms a record; a pass of it fails while the wave goes on, which
queues its repair, another in elevated weather, and the drain drops the entry. -/
def suppressed : List (Call Nat Nat) :=
  [.refresh true [0] some, .sweepHealth 0 (failedPass .calm) true true,
    .sweepHealth 0 (failedPass .elevated) true true, .ended (.wave [0]), .tick true true [0] some]

/-- The healthy record is repaired, with no pass since it recovered; the failed
one never is, whatever comes but a pass of it. -/
theorem recovered_repaired :
    ((log recovered).does (.tick true true [0] some)).dispatched = some 0 ∧
      latchedAt (log recovered).session (.tick true true [0] some) 0 = false ∧
      ¬ Evidence 0 (⟨.tick true true [0] some, ∅, none⟩ :: (log recovered).past) ∧
    ∀ later, (∀ call ∈ later, NoPass 0 call) →
      ∀ e ∈ (Log.mk .new []).events (suppressed ++ later), e.dispatched ≠ some 0 := by
  refine ⟨by decide, by decide, by decide, fun later noPass e mem => ?_⟩
  rw [events_append] at mem
  rcases List.mem_append.1 mem with early | late
  · have none_ : ∀ e ∈ (Log.mk .new []).events suppressed, e.dispatched ≠ some 0 := by decide
    exact none_ e early
  · have idle : 0 ∉ ((Log.mk .new []).run suppressed).session.pendingRepairs := by decide
    exact not_queued idle noPass e late

end Daemonseed.Net.Refresh
