import Daemonseed.Lib.Maps

/-! # The health of a record's session

A record whose every read fails pass after pass is due a repair. How many passes
that takes doubles with each repair that did not help, up to a bound, and a record
that is due is signalled once. -/
namespace Daemonseed.Net.SessionHealth
open Daemonseed.Lib.Maps

def repairKThreshold : Nat := 2

/-- What the number of passes is multiplied by at most. -/
def repairBackoffCap : Nat := 8

def u32Max : Nat := 2 ^ 32 - 1

inductive Weather
  | calm
  | elevated
  deriving DecidableEq, Repr

inductive WatchState
  | unknown
  | live
  | dead
  deriving DecidableEq, Repr

/-- What one pass over a record tells of its session. -/
structure SweepHealthInput where
  attempted : Nat
  failed : Nat
  found : Nat
  watch : WatchState
  weather : Weather
  deriving DecidableEq, Repr

namespace SweepHealthInput

def isFailedPass (self : SweepHealthInput) : Bool :=
  self.watch == .dead || decide (0 < self.attempted) && self.found == 0 && decide (0 < self.failed)

/-- A pass that read nothing, over a watch that is not known dead. -/
def saysNothing (self : SweepHealthInput) : Bool := self.attempted == 0 && self.watch != .dead

/-- A pass that shows the session serving. -/
def succeeds (self : SweepHealthInput) : Bool := !self.saysNothing && !self.isFailedPass

theorem saysNothing_not_failed {input : SweepHealthInput} (silent : input.saysNothing = true) :
    input.isFailedPass = false := by
  simp only [saysNothing, Bool.and_eq_true, beq_iff_eq, bne_iff_ne] at silent
  simp [isFailedPass, silent.1, silent.2]

end SweepHealthInput

inductive RepairDecision
  | notDue
  | suppressed
  | repairDue
  deriving DecidableEq, Repr

structure RecordHealth where
  consecutiveFailed : Nat := 0
  repairDueLatched : Bool := false
  backoffMult : Nat := 1
  deriving DecidableEq, Repr

namespace RecordHealth

/-- What one pass makes of a record's state. -/
def observe (self : RecordHealth) (kThreshold : Nat) (input : SweepHealthInput) :
    RecordHealth × RepairDecision :=
  if input.saysNothing then (self, .notDue)
  else if !input.isFailedPass then ({}, .notDue)
  else
    let k := min (kThreshold * self.backoffMult) u32Max
    let entry := { self with consecutiveFailed := min (self.consecutiveFailed + 1) u32Max }
    if entry.consecutiveFailed < k then (entry, .notDue)
    else if entry.repairDueLatched then (entry, .notDue)
    else
      match input.weather with
      | .calm => ({ entry with repairDueLatched := true }, .repairDue)
      | .elevated => (entry, .suppressed)

def noteRepairDispatched (self : RecordHealth) : RecordHealth :=
  { consecutiveFailed := 0, repairDueLatched := false
    backoffMult := min (min (self.backoffMult * 2) u32Max) repairBackoffCap }

variable {self : RecordHealth} {kThreshold : Nat} {input : SweepHealthInput}

theorem observe_silent (silent : input.saysNothing = true) :
    self.observe kThreshold input = (self, .notDue) := by simp [observe, silent]

theorem observe_success (serves : input.succeeds = true) :
    self.observe kThreshold input = ({}, .notDue) := by
  simp only [SweepHealthInput.succeeds, Bool.and_eq_true, Bool.not_eq_true'] at serves
  simp [observe, serves.1, serves.2]

/-- A failed pass is counted whatever the weather, and signals the record in calm
weather where it is not signalled and the count is reached. -/
theorem observe_failed (failed : input.isFailedPass = true) (few : kThreshold * self.backoffMult ≤ u32Max) :
    (self.observe kThreshold input).1.consecutiveFailed = min (self.consecutiveFailed + 1) u32Max ∧
    (self.observe kThreshold input).1.backoffMult = self.backoffMult ∧
    ((self.observe kThreshold input).1.repairDueLatched = true ↔
      self.repairDueLatched = true ∨ (self.observe kThreshold input).2 = .repairDue) ∧
    ((self.observe kThreshold input).2 = .repairDue ↔
      self.repairDueLatched = false ∧ input.weather = .calm ∧
        kThreshold * self.backoffMult ≤ self.consecutiveFailed + 1) := by
  have spoken : input.saysNothing = false := by
    cases silent : input.saysNothing with
    | false => rfl
    | true => simp [SweepHealthInput.saysNothing_not_failed silent] at failed
  have reach : min (self.consecutiveFailed + 1) u32Max < min (kThreshold * self.backoffMult) u32Max ↔
      self.consecutiveFailed + 1 < kThreshold * self.backoffMult := by
    omega
  unfold observe
  simp only [spoken, failed, Bool.false_eq_true, if_false, Bool.not_true, reach]
  by_cases below : self.consecutiveFailed + 1 < kThreshold * self.backoffMult
  · simp [below, Nat.not_le.2 below]
  · cases self.repairDueLatched with
    | true => simp [below]
    | false =>
      cases input.weather with
      | calm => simp [below, Nat.not_lt.1 below]
      | elevated => simp [below]

/-- A pass that signals is a failed one, and leaves the record signalled. -/
theorem observe_due (due : (self.observe kThreshold input).2 = .repairDue) :
    input.isFailedPass = true ∧ (self.observe kThreshold input).1.repairDueLatched = true ∧
      (self.observe kThreshold input).1.backoffMult = self.backoffMult := by
  unfold observe at due ⊢
  cases silent : input.saysNothing with
  | true => simp [silent] at due
  | false =>
    cases failed : input.isFailedPass with
    | false => simp [silent, failed] at due
    | true =>
      simp only [silent, failed, Bool.false_eq_true, if_false, Bool.not_true] at due ⊢
      split at due
      · cases due
      next reached =>
        split at due
        · cases due
        next fresh =>
          cases sky : input.weather with
          | calm => simp [reached, fresh]
          | elevated => simp [sky] at due

end RecordHealth

structure SessionHealthTracker (K : Type) where
  records : Map K RecordHealth
  kThreshold : Nat

namespace SessionHealthTracker

variable {K : Type}

def new : SessionHealthTracker K := ⟨∅, repairKThreshold⟩

variable [DecidableEq K]

/-- The state of a record, of one not tracked the first. -/
def entry (self : SessionHealthTracker K) (key : K) : RecordHealth := (self.records.lookup key).getD {}

def observe (self : SessionHealthTracker K) (key : K) (input : SweepHealthInput) :
    SessionHealthTracker K × RepairDecision :=
  ({ self with records := self.records.insert key ((self.entry key).observe self.kThreshold input).1 },
    ((self.entry key).observe self.kThreshold input).2)

/-- Nothing changes for a record not tracked. -/
def noteRepairDispatched (self : SessionHealthTracker K) (key : K) : SessionHealthTracker K :=
  match self.records.lookup key with
  | some entry => { self with records := self.records.insert key entry.noteRepairDispatched }
  | none => self

def clear (self : SessionHealthTracker K) (key : K) : SessionHealthTracker K :=
  { self with records := self.records.erase key }

def isRepairDue (self : SessionHealthTracker K) (key : K) : Bool :=
  (self.records.lookup key).any (·.repairDueLatched)

variable {self : SessionHealthTracker K} {key other : K} {input : SweepHealthInput}

theorem isRepairDue_iff : self.isRepairDue key = (self.entry key).repairDueLatched := by
  unfold isRepairDue entry
  cases self.records.lookup key <;> rfl

theorem entry_observe : (self.observe key input).1.entry other =
    if other = key then ((self.entry key).observe self.kThreshold input).1 else self.entry other := by
  unfold observe
  split
  next same => rw [same, entry, AList.lookup_insert]; rfl
  next differ => rw [entry, AList.lookup_insert_ne differ, ← entry]

theorem entry_clear : (self.clear key).entry other = if other = key then {} else self.entry other := by
  unfold clear
  split
  next same => rw [same, entry, AList.lookup_erase]; rfl
  next differ => rw [entry, AList.lookup_erase_ne differ, ← entry]

/-- A repair is dispatched of a record that is tracked, having been found due. -/
theorem entry_dispatched (due : self.isRepairDue key = true) :
    (self.noteRepairDispatched key).entry other =
      if other = key then (self.entry key).noteRepairDispatched else self.entry other := by
  unfold isRepairDue at due
  unfold noteRepairDispatched
  cases found : self.records.lookup key with
  | none => simp [found] at due
  | some health =>
    dsimp only
    split
    next same =>
      rw [same, entry, AList.lookup_insert, entry, found]
      rfl
    next differ => rw [entry, AList.lookup_insert_ne differ, ← entry]

theorem kThreshold_dispatched : (self.noteRepairDispatched key).kThreshold = self.kThreshold := by
  unfold noteRepairDispatched
  split <;> rfl

end SessionHealthTracker

end Daemonseed.Net.SessionHealth
