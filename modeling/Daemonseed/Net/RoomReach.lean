import Daemonseed.Lib.Runs
import Daemonseed.Lib.Ticks
import Daemonseed.Net.SessionHealth

/-! # Whether a room is shown reachable

Passes and repairs of a record both tell whether it can be read, and finish in
any order. Each record's run of unanswered passes is counted, and a repair is
stamped when it is dispatched with a counter that every pass that read and
every reset advances, so that what it finds is told from what was found since. -/
namespace Daemonseed.Net.RoomReach
open Daemonseed.Lib.Maps Daemonseed.Lib.Runs Daemonseed.Lib.Ticks Daemonseed.Net.SessionHealth

variable {K Room : Type}

def unreachableAfterFailedPasses : Nat := repairKThreshold

def u64Max : Nat := 2 ^ 64 - 1

/-- Whether any read was answered, where one was attempted. -/
def readsReached (attempted failed : Nat) : Option Bool :=
  if 0 < attempted then some (decide (failed < attempted)) else none

inductive RepairOutcome
  | complete
  | incomplete (attempted failed : Nat)
  | alreadyRunning
  deriving DecidableEq, Repr

/-- What a repair shows of its record. -/
def repairReached : Except Unit RepairOutcome → Option Bool
  | .ok .complete => some true
  | .ok (.incomplete attempted failed) => readsReached attempted failed
  | .error _ => some false
  | .ok .alreadyRunning => none

/-- The room and its reach that a repair reports. -/
def repairReach (room : Room) (result : Except Unit RepairOutcome) : Option (Room × Bool) :=
  (repairReached result).map (room, ·)

structure RepairDone (K Room : Type) where
  key : K
  room : Option Room
  generation : Nat
  result : Except Unit RepairOutcome

structure FailedPasses (K : Type) where
  runs : Map K Nat
  generation : Nat
  latest : Map K Nat
  resetAt : Nat

namespace FailedPasses

def new : FailedPasses K := ⟨∅, 0, ∅, 0⟩

def reset (self : FailedPasses K) : FailedPasses K where
  runs := ∅
  latest := ∅
  generation := min (self.generation + 1) u64Max
  resetAt := min (self.generation + 1) u64Max

variable [DecidableEq K]

/-- No reset since, and no pass of the record that attempted a read. -/
def isCurrent (self : FailedPasses K) (key : K) (generation : Nat) : Bool :=
  decide (self.resetAt ≤ generation) && (self.latest.lookup key).all fun stamped =>
    decide (stamped ≤ generation)

/-- One pass of a record, and the reach it shows. -/
def observe (self : FailedPasses K) (key : K) (input : SweepHealthInput) :
    FailedPasses K × Option Bool :=
  match readsReached input.attempted input.failed with
  | none => (self, none)
  | some reached =>
    let generation := min (self.generation + 1) u64Max
    let self := { self with generation, latest := self.latest.insert key generation }
    if reached then ({ self with runs := self.runs.erase key }, some true)
    else
      let run := min ((self.runs.lookup key).getD 0 + 1) u32Max
      ({ self with runs := self.runs.insert key run },
        if unreachableAfterFailedPasses ≤ run then some false else none)

end FailedPasses

section

variable [DecidableEq K]

/-- What a pass reports, for a record whose room is known. -/
def reachAfterSweep (passes : FailedPasses K) (key : K) (input : SweepHealthInput)
    (room : Option Room) : FailedPasses K × Option (Room × Bool) :=
  ((passes.observe key input).1,
    (passes.observe key input).2.bind fun reachable => room.map (·, reachable))

/-- What a finished repair reports; one that reached its record ends the run. -/
def foldRepair (passes : FailedPasses K) (done : RepairDone K Room) :
    FailedPasses K × Option (Room × Bool) :=
  if passes.isCurrent done.key done.generation then
    match done.room.bind fun room => repairReach room done.result with
    | none => (passes, none)
    | some (room, reachable) =>
      (if reachable then { passes with runs := passes.runs.erase done.key } else passes,
        some (room, reachable))
  else (passes, none)

end

/-! ## What happens to the records -/

/-- A repair under way, and how much had happened when it was dispatched. -/
structure Repair (K : Type) where
  key : K
  generation : Nat
  since : Nat

def Repair.done (roomOf : K → Room) (repair : Repair K) (result : Except Unit RepairOutcome) :
    RepairDone K Room :=
  ⟨repair.key, some (roomOf repair.key), repair.generation, result⟩

inductive Event (K : Type)
  | pass (key : K) (input : SweepHealthInput)
  | reset
  | dispatch (key : K)
  | complete (repair : Repair K) (result : Except Unit RepairOutcome)

/-- An event and what it reported. -/
structure Happened (K Room : Type) where
  event : Event K
  report : Option (Room × Bool)

structure Log (K Room : Type) where
  passes : FailedPasses K
  inFlight : List (Repair K)
  /-- The newest first. -/
  past : List (Happened K Room)

def Log.start : Log K Room := ⟨.new, [], []⟩

variable [DecidableEq K]

/-- One event, of records whose rooms are known. Repairs complete in any order. -/
inductive Steps (roomOf : K → Room) : Log K Room → Event K → Log K Room → Prop
  | pass (s : Log K Room) (key : K) (input : SweepHealthInput) :
      Steps roomOf s (.pass key input)
        { s with
          passes := (reachAfterSweep s.passes key input (some (roomOf key))).1
          past := ⟨.pass key input, (reachAfterSweep s.passes key input (some (roomOf key))).2⟩ ::
            s.past }
  | reset (s : Log K Room) :
      Steps roomOf s .reset
        { s with passes := s.passes.reset, past := ⟨.reset, none⟩ :: s.past }
  | dispatch (s : Log K Room) (key : K) :
      Steps roomOf s (.dispatch key)
        { s with
          inFlight := ⟨key, s.passes.generation, s.past.length⟩ :: s.inFlight
          past := ⟨.dispatch key, none⟩ :: s.past }
  | complete {s : Log K Room} {before after : List (Repair K)} {repair : Repair K}
      (running : s.inFlight = before ++ repair :: after) (result : Except Unit RepairOutcome) :
      Steps roomOf s (.complete repair result)
        { passes := (foldRepair s.passes (repair.done roomOf result)).1
          inFlight := before ++ after
          past := ⟨.complete repair result, (foldRepair s.passes (repair.done roomOf result)).2⟩ ::
            s.past }

/-! ## The evidence -/

/-- A pass of the record that attempted a read. -/
def reads (key : K) (h : Happened K Room) : Bool :=
  match h.event with
  | .pass other input => decide (other = key) && decide (0 < input.attempted)
  | .reset | .dispatch _ | .complete _ _ => false

def resets (h : Happened K Room) : Bool :=
  match h.event with
  | .reset => true
  | .pass _ _ | .dispatch _ | .complete _ _ => false

/-- What advances the counter: a pass that attempted a read, of any record, or a
reset. -/
def ticks (h : Happened K Room) : Bool :=
  match h.event with
  | .pass _ input => decide (0 < input.attempted)
  | .reset => true
  | .dispatch _ | .complete _ _ => false

/-- A pass of the record that attempted a read, or a reset, came after the
repair was dispatched. -/
def superseded (repair : Repair K) (past : List (Happened K Room)) : Bool :=
  (past.take (past.length - repair.since)).any fun h => reads repair.key h || resets h

/-- What an event shows of a record. -/
def shows (key : K) (event : Event K) (past : List (Happened K Room)) : Option Bool :=
  match event with
  | .pass other input => if other = key then readsReached input.attempted input.failed else none
  | .complete repair result =>
    if repair.key = key ∧ superseded repair past = false then repairReached result else none
  | .reset | .dispatch _ => none

/-- The latest evidence of a record: of its last pass that attempted a read, or
of the last repair that completed since, dispatched after that pass and with no
reset between its dispatch and its completion. -/
def evidence (key : K) : List (Happened K Room) → Option Bool
  | [] => none
  | h :: past => (shows key h.event past).or (evidence key past)

/-- The unanswered passes of a record since an answered one, a repair that
reached it, or a reset. -/
def streak (key : K) : List (Happened K Room) → Nat
  | [] => 0
  | h :: past =>
    match h.event, shows key h.event past with
    | .reset, _ => 0
    | _, some true => 0
    | .pass _ _, some false => streak key past + 1
    | _, _ => streak key past

/-- What the last report about a record said. -/
def lastReport (key : K) : List (Happened K Room) → Option Bool
  | [] => none
  | h :: past =>
    match h.event, h.report with
    | .pass other _, some (_, reachable) =>
      if other = key then some reachable else lastReport key past
    | .complete repair _, some (_, reachable) =>
      if repair.key = key then some reachable else lastReport key past
    | _, _ => lastReport key past

/-- What an event reports, by what happened before it. -/
def reported (roomOf : K → Room) (event : Event K) (past : List (Happened K Room)) :
    Option (Room × Bool) :=
  match event with
  | .pass key input =>
    match readsReached input.attempted input.failed with
    | some true => some (roomOf key, true)
    | some false =>
      if unreachableAfterFailedPasses ≤ streak key past + 1 then some (roomOf key, false) else none
    | none => none
  | .complete repair result =>
    if superseded repair past then none else repairReach (roomOf repair.key) result
  | .reset | .dispatch _ => none

/-! ## The counters and what happened -/

/-- The counters by what happened, where no counter is at its bound. -/
structure Kept (roomOf : K → Room) (s : Log K Room) : Prop where
  generation : s.passes.generation = s.past.countP ticks
  resetAt : s.passes.resetAt = stamp ticks resets s.past
  read : ∀ key at_, s.passes.latest.lookup key = some at_ → at_ = stamp ticks (reads key) s.past
  unread : ∀ key, s.passes.latest.lookup key = none →
    stamp ticks (reads key) s.past ≤ s.passes.resetAt
  runs : ∀ key, (s.passes.runs.lookup key).getD 0 = min (streak key s.past) u32Max
  stamped : ∀ repair ∈ s.inFlight, repair.since ≤ s.past.length ∧
    repair.generation = (s.past.drop (s.past.length - repair.since)).countP ticks
  reports : ∀ h before, h :: before <:+ s.past → h.report = reported roomOf h.event before

section

variable {roomOf : K → Room} {s s' : Log K Room} {key : K} {past : List (Happened K Room)}
  {h : Happened K Room}

theorem reads_ticks (e : Happened K Room) (read : reads key e = true) : ticks e = true := by
  unfold reads at read
  unfold ticks
  split at read <;> simp_all

omit [DecidableEq K] in
theorem resets_ticks (e : Happened K Room) (reset : resets e = true) : ticks e = true := by
  unfold resets at reset
  unfold ticks
  split at reset <;> simp_all

/-- A repair in flight is current where no pass of its record that read, and no
reset, has come since. -/
theorem Kept.current (kept : Kept roomOf s) {repair : Repair K} (running : repair ∈ s.inFlight) :
    s.passes.isCurrent repair.key repair.generation = !superseded repair s.past := by
  obtain ⟨-, generation⟩ := kept.stamped repair running
  have reset := stamp_le_iff resets_ticks s.past (s.past.length - repair.since)
  have sub : ∀ e : Happened K Room, reads repair.key e = true → ticks e = true := reads_ticks
  have read := stamp_le_iff sub s.past (s.past.length - repair.since)
  rw [← generation] at reset read
  have all : s.passes.isCurrent repair.key repair.generation = true ↔
      stamp ticks resets s.past ≤ repair.generation ∧
        stamp ticks (reads repair.key) s.past ≤ repair.generation := by
    unfold FailedPasses.isCurrent
    rw [kept.resetAt, Bool.and_eq_true, decide_eq_true_eq]
    refine and_congr_right fun fresh => ?_
    cases found : s.passes.latest.lookup repair.key with
    | none =>
      have := kept.unread repair.key found
      rw [kept.resetAt] at this
      simpa using Nat.le_trans this fresh
    | some at_ => simp [← kept.read repair.key at_ found]
  rw [Bool.eq_iff_iff, all, reset, read, superseded, Bool.not_eq_true', List.any_eq_false]
  simp only [Bool.or_eq_true, not_or, Bool.not_eq_true]
  exact ⟨fun h e mem => ⟨h.2 e mem, h.1 e mem⟩, fun h => ⟨fun e mem => (h e mem).2,
    fun e mem => (h e mem).1⟩⟩

omit [DecidableEq K] in
/-- The stamps of the repairs in flight outlast an event. -/
theorem stamped_cons {repair : Repair K} (stamped : repair.since ≤ past.length ∧
    repair.generation = (past.drop (past.length - repair.since)).countP ticks) :
    repair.since ≤ (h :: past).length ∧
      repair.generation =
        ((h :: past).drop ((h :: past).length - repair.since)).countP ticks := by
  obtain ⟨since, generation⟩ := stamped
  have later : (h :: past).length - repair.since = past.length - repair.since + 1 := by
    rw [List.length_cons]
    omega
  refine ⟨Nat.le_succ_of_le since, ?_⟩
  rw [later, List.drop_succ_cons, generation]

/-- The reports so far are what they are to be if the newest is. -/
theorem reports_cons
    (reports : ∀ h before, h :: before <:+ past → h.report = reported roomOf h.event before)
    (new : h.report = reported roomOf h.event past) :
    ∀ h' before, h' :: before <:+ h :: past → h'.report = reported roomOf h'.event before := by
  intro h' before suffix
  rcases List.suffix_cons_iff.1 suffix with whole | old
  · obtain ⟨rfl, rfl⟩ := List.cons.inj whole
    exact new
  · exact reports h' before old

/-- An event that advances nothing leaves the stamps as they are. -/
theorem Kept.still (kept : Kept roomOf s) (still : ticks h = false) {runs : Map K Nat}
    (counted : ∀ key, (runs.lookup key).getD 0 = min (streak key (h :: s.past)) u32Max)
    (report : h.report = reported roomOf h.event s.past) {inFlight : List (Repair K)}
    (stamped : ∀ repair ∈ inFlight, repair ∈ s.inFlight ∨
      repair = ⟨repair.key, s.passes.generation, s.past.length⟩) :
    Kept roomOf
      { passes := { s.passes with runs := runs }, inFlight := inFlight, past := h :: s.past } := by
  have notReset : resets h = false := by
    cases reset : resets h with
    | false => rfl
    | true => rw [resets_ticks h reset] at still; cases still
  have notRead : ∀ key, reads key h = false := fun key => by
    cases read : reads key h with
    | false => rfl
    | true => rw [reads_ticks h read] at still; cases still
  have count : (h :: s.past).countP ticks = s.past.countP ticks :=
    List.countP_cons_of_neg (by simp [still])
  refine ⟨?_, ?_, fun key at_ => ?_, fun key => ?_, counted, fun repair mem => ?_,
    reports_cons kept.reports report⟩
  · rw [count, kept.generation]
  · simp only [stamp, notReset, Bool.false_eq_true, if_false]
    exact kept.resetAt
  · simp only [stamp, notRead, Bool.false_eq_true, if_false]
    exact kept.read key at_
  · simp only [stamp, notRead, Bool.false_eq_true, if_false]
    exact kept.unread key
  · rcases stamped repair mem with old | new
    · exact stamped_cons (kept.stamped repair old)
    · refine stamped_cons ?_
      rw [new, Nat.sub_self, List.drop_zero, kept.generation]
      exact ⟨Nat.le_refl _, rfl⟩

/-- What advances the counter does so by one, below its bound. -/
theorem Kept.advances (kept : Kept roomOf s) (tick : ticks h = true)
    (few : (h :: s.past).countP ticks ≤ u64Max) :
    min (s.passes.generation + 1) u64Max = (h :: s.past).countP ticks := by
  have one : (h :: s.past).countP ticks = s.past.countP ticks + 1 := List.countP_cons_of_pos tick
  rw [kept.generation]
  omega

theorem Kept.reset (kept : Kept roomOf s)
    (few : ((⟨.reset, none⟩ : Happened K Room) :: s.past).countP ticks ≤ u64Max) :
    Kept roomOf { s with passes := s.passes.reset, past := ⟨.reset, none⟩ :: s.past } := by
  have advanced := kept.advances rfl few
  refine ⟨advanced, ?_, fun key at_ found => ?_, fun key _ => ?_, fun key => ?_,
    fun repair mem => stamped_cons (kept.stamped repair mem), reports_cons kept.reports rfl⟩
  · exact advanced
  · cases found
  · refine Nat.le_trans (stamp_le _) (Nat.le_of_eq advanced.symm)
  · rw [streak]
    rfl

/-- A counter at its bound stays there. -/
theorem min_succ_min (x bound : Nat) : min (min x bound + 1) bound = min (x + 1) bound := by
  omega

/-- A pass of one record is none of another. -/
theorem shows_other {input : SweepHealthInput} {other : K} (differ : key ≠ other) :
    shows key (.pass other input) past = none := if_neg (Ne.symm differ)

theorem Kept.pass (kept : Kept roomOf s) (input : SweepHealthInput)
    (few : ((⟨.pass key input, (reachAfterSweep s.passes key input (some (roomOf key))).2⟩ :
      Happened K Room) :: s.past).countP ticks ≤ u64Max) :
    Kept roomOf { s with
      passes := (reachAfterSweep s.passes key input (some (roomOf key))).1
      past := ⟨.pass key input, (reachAfterSweep s.passes key input (some (roomOf key))).2⟩ ::
        s.past } := by
  revert few
  unfold reachAfterSweep
  cases reached : readsReached input.attempted input.failed with
  | none =>
    intro few
    have observed : s.passes.observe key input = (s.passes, none) := by
      simp only [FailedPasses.observe, reached]
    have silent : ¬ 0 < input.attempted := fun pos => by simp [readsReached, pos] at reached
    rw [observed]
    refine kept.still ?_ (fun other => ?_) ?_ fun repair mem => .inl mem
    · simpa [ticks] using silent
    · simpa [streak, shows, reached] using kept.runs other
    · simp [reported, reached]
  | some answered =>
    have pos : 0 < input.attempted := by
      by_contra silent
      simp [readsReached, silent] at reached
    generalize ho : s.passes.observe key input = o
    intro few
    have advanced := kept.advances (by simpa [ticks] using pos) few
    have generation : o.1.generation = min (s.passes.generation + 1) u64Max ∧
        o.1.resetAt = s.passes.resetAt ∧
        o.1.latest = s.passes.latest.insert key (min (s.passes.generation + 1) u64Max) := by
      rw [← ho, FailedPasses.observe, reached]
      cases answered <;> exact ⟨rfl, rfl, rfl⟩
    obtain ⟨generation, resetAt, latest⟩ := generation
    refine ⟨?_, ?_, fun other at_ found => ?_, fun other found => ?_, fun other => ?_,
      fun repair mem => stamped_cons (kept.stamped repair mem), reports_cons kept.reports ?_⟩
    · exact generation.trans advanced
    · rw [resetAt, kept.resetAt]
      rfl
    · rw [latest] at found
      by_cases same : other = key
      · subst same
        rw [AList.lookup_insert, Option.some.injEq] at found
        rw [← found, advanced]
        simp [stamp, reads, pos]
      · rw [AList.lookup_insert_ne same] at found
        rw [kept.read other at_ found]
        simp [stamp, reads, Ne.symm same]
    · rw [latest] at found
      by_cases same : other = key
      · subst same
        rw [AList.lookup_insert] at found
        cases found
      · rw [AList.lookup_insert_ne same] at found
        have := kept.unread other found
        rw [resetAt]
        simpa [stamp, reads, Ne.symm same] using this
    · rw [← ho, FailedPasses.observe, reached]
      by_cases same : other = key
      · subst same
        have told : shows other (.pass other input) s.past = some answered := (if_pos rfl).trans reached
        cases answered with
        | true => simp [streak, told]
        | false =>
          have runs := kept.runs other
          simp only [Bool.false_eq_true, if_false, AList.lookup_insert, Option.getD_some, streak, told,
            runs]
          exact min_succ_min _ _
      · have told : shows other (.pass key input) s.past = none := shows_other same
        have runs := kept.runs other
        cases answered with
        | true => simpa [streak, told, AList.lookup_erase_ne same] using runs
        | false => simpa [streak, told, AList.lookup_insert_ne same] using runs
    · rw [← ho, FailedPasses.observe, reached, reported, reached]
      cases answered with
      | true => rfl
      | false =>
        have reach : unreachableAfterFailedPasses ≤ min (min (streak key s.past) u32Max + 1) u32Max ↔
            unreachableAfterFailedPasses ≤ streak key s.past + 1 := by
          rw [min_succ_min, le_min_iff]
          exact and_iff_left (by decide)
        simp only [Bool.false_eq_true, if_false, kept.runs key, reach]
        split <;> rfl

theorem Kept.complete (kept : Kept roomOf s) {before after : List (Repair K)} {repair : Repair K}
    (running : s.inFlight = before ++ repair :: after) (result : Except Unit RepairOutcome) :
    Kept roomOf
      { passes := (foldRepair s.passes (repair.done roomOf result)).1
        inFlight := before ++ after
        past := ⟨.complete repair result, (foldRepair s.passes (repair.done roomOf result)).2⟩ ::
          s.past } := by
  have mem : repair ∈ s.inFlight := by simp [running]
  have rest : ∀ other ∈ before ++ after, other ∈ s.inFlight := by
    intro other hm
    rw [running]
    simp only [List.mem_append, List.mem_cons] at hm ⊢
    tauto
  have current := kept.current mem
  unfold foldRepair Repair.done
  rw [current]
  cases over_ : superseded repair s.past with
  | true =>
    refine kept.still rfl (fun key => ?_) ?_ fun other hm => .inl (rest other hm)
    · simpa [streak, shows, over_] using kept.runs key
    · simp [reported, over_]
  | false =>
    cases reached : repairReached result with
    | none =>
      have none_ : repairReach (roomOf repair.key) result = none := by simp [repairReach, reached]
      simp only [Bool.not_false, if_true, Option.bind_some, none_]
      refine kept.still rfl (fun key => ?_) ?_ fun other hm => .inl (rest other hm)
      · simpa [streak, shows, reached] using kept.runs key
      · simp [reported, over_, none_]
    | some answered =>
      have reach : repairReach (roomOf repair.key) result = some (roomOf repair.key, answered) := by
        simp [repairReach, reached]
      simp only [Bool.not_false, if_true, Option.bind_some, reach]
      cases answered with
      | false =>
        refine kept.still rfl (fun key => ?_) ?_ fun other hm => .inl (rest other hm)
        · by_cases same : repair.key = key
          · simpa [streak, shows, reached, over_, same] using kept.runs key
          · simpa [streak, shows, same] using kept.runs key
        · simp [reported, over_, reach]
      | true =>
        refine kept.still rfl (fun key => ?_) ?_ fun other hm => .inl (rest other hm)
        · by_cases same : repair.key = key
          · subst same
            simp [streak, shows, reached, over_]
          · simpa [streak, shows, same, AList.lookup_erase_ne (Ne.symm same)] using kept.runs key
        · simp [reported, over_, reach]

theorem Kept.step {event : Event K} (kept : Kept roomOf s) (step : Steps roomOf s event s')
    (few : s'.past.countP ticks ≤ u64Max) : Kept roomOf s' := by
  cases step with
  | pass key input => exact kept.pass input few
  | reset => exact kept.reset few
  | dispatch key =>
    refine kept.still rfl kept.runs rfl fun repair mem => ?_
    rcases List.mem_cons.1 mem with rfl | old
    · exact .inr rfl
    · exact .inl old
  | complete running result => exact kept.complete running result

/-! ## Every run -/

theorem Steps.grows {event : Event K} (step : Steps roomOf s event s') : ∃ h, s'.past = h :: s.past := by
  cases step <;> exact ⟨_, rfl⟩

/-- Whatever is counted up to a moment is counted later. -/
theorem kept_run {es : List (Event K)} (run : Trail (Steps roomOf) .start es s)
    (few : s.past.countP ticks ≤ u64Max) : Kept roomOf s := by
  refine run.invariant (I := fun s => s.past.countP ticks ≤ u64Max → Kept roomOf s)
    (fun s event s' kept step few => ?_) (fun _ => ?_) few
  · obtain ⟨h, past⟩ := step.grows
    have before : s.past.countP ticks ≤ u64Max :=
      Nat.le_trans (past ▸ (List.sublist_cons_self h s.past).countP_le) few
    exact (kept before).step step few
  · refine ⟨rfl, rfl, nofun, fun _ _ => Nat.le_refl _, fun _ => rfl, nofun, fun h before suffix => ?_⟩
    cases List.suffix_nil.1 suffix

/-- What reports: a pass that read, or a repair that is not superseded. -/
theorem lastReport_cons (report : h.report = reported roomOf h.event past) (key : K) :
    (shows key h.event past = some true → lastReport key (h :: past) = some true) ∧
      (shows key h.event past = none → lastReport key (h :: past) = lastReport key past) := by
  obtain ⟨event, told⟩ := h
  obtain rfl : told = reported roomOf event past := report
  cases event with
  | reset => exact ⟨nofun, fun _ => rfl⟩
  | dispatch other => exact ⟨nofun, fun _ => rfl⟩
  | pass other input =>
    by_cases same : other = key
    · subst same
      have shown : shows other (.pass other input) past =
          readsReached input.attempted input.failed := if_pos rfl
      rw [shown]
      constructor
      · intro reached
        simp [lastReport, reported, reached]
      · intro reached
        simp [lastReport, reported, reached]
    · rw [shows_other (Ne.symm same)]
      refine ⟨nofun, fun _ => ?_⟩
      cases reported roomOf (.pass other input) past with
      | none => rfl
      | some reach => exact if_neg same
  | complete repair result =>
    by_cases same : repair.key = key
    · subst same
      cases over_ : superseded repair past with
      | true => simp [shows, lastReport, reported, over_]
      | false =>
        have shown : shows repair.key (.complete repair result) past = repairReached result :=
          if_pos ⟨rfl, over_⟩
        rw [shown]
        constructor
        · intro reached
          simp [lastReport, reported, repairReach, over_, reached]
        · intro reached
          simp [lastReport, reported, repairReach, over_, reached]
    · have shown : shows key (.complete repair result) past = none := if_neg fun h => same h.1
      rw [shown]
      refine ⟨nofun, fun _ => ?_⟩
      cases reported roomOf (.complete repair result) past with
      | none => rfl
      | some reach => exact if_neg same

/-- A record whose latest evidence is an answer was last reported reachable. -/
theorem lastReport_of_evidence
    (reports : ∀ h before, h :: before <:+ past → h.report = reported roomOf h.event before)
    (answer : evidence key past = some true) : lastReport key past = some true := by
  induction past with
  | nil => cases answer
  | cons h past ih =>
    obtain ⟨answered, silent⟩ := lastReport_cons (reports h past List.suffix_rfl) key
    have earlier : ∀ h' before, h' :: before <:+ past → h'.report = reported roomOf h'.event before :=
      fun h' before suffix => reports h' before (suffix.trans (List.suffix_cons h past))
    rw [evidence] at answer
    cases shown : shows key h.event past with
    | none =>
      rw [silent shown]
      exact ih earlier (by simpa [shown] using answer)
    | some b =>
      obtain rfl : b = true := by simpa [shown] using answer
      exact answered shown

/-- What a report of a room unreachable rests on. -/
inductive Unreachable (before : List (Happened K Room)) : Event K → Prop
  | passes {key : K} {input : SweepHealthInput} {report : Option (Room × Bool)}
      (unanswered : readsReached input.attempted input.failed = some false)
      (run : unreachableAfterFailedPasses ≤ streak key (⟨.pass key input, report⟩ :: before)) :
      Unreachable before (.pass key input)
  | repair {repair : Repair K} {result : Except Unit RepairOutcome}
      (newer : superseded repair before = false) (failed : repairReached result = some false) :
      Unreachable before (.complete repair result)

theorem unreachable_of_report {event : Event K} {room : Room}
    (report : reported roomOf event past = some (room, false)) : Unreachable past event := by
  cases event with
  | reset => cases report
  | dispatch key => cases report
  | pass key input =>
    unfold reported at report
    dsimp only at report
    split at report
    · cases report
    · next unanswered =>
      split at report
      · next run =>
        refine @Unreachable.passes _ _ _ _ key input none unanswered ?_
        have shown : shows key (.pass key input) past = some false := (if_pos rfl).trans unanswered
        simpa [streak, shown] using run
      · cases report
    · cases report
  | complete repair result =>
    unfold reported at report
    dsimp only at report
    split at report
    · cases report
    · next newer =>
      obtain ⟨reach, reached, same⟩ := Option.map_eq_some_iff.1 report
      obtain rfl : reach = false := (Prod.mk.inj same).2
      exact .repair (by simpa using newer) reached

end

/-- **What a room is shown rests on its latest evidence**, in every run of
fewer passes and resets than the counter holds. -/
theorem room_reach {roomOf : K → Room} {es : List (Event K)} {s : Log K Room}
    (run : Trail (Steps roomOf) .start es s) (few : s.past.countP ticks ≤ u64Max) :
    (∀ key, evidence key s.past = some true → lastReport key s.past = some true) ∧
      (∀ later h before room, s.past = later ++ h :: before → h.report = some (room, false) →
        Unreachable before h.event) ∧
      ∀ later h before repair result, s.past = later ++ h :: before →
        h.event = .complete repair result → superseded repair before = true → h.report = none := by
  have kept := kept_run run few
  have reports : ∀ later h before, s.past = later ++ h :: before →
      h.report = reported roomOf h.event before := fun later h before split =>
    kept.reports h before ⟨later, split.symm⟩
  refine ⟨fun key => lastReport_of_evidence kept.reports, fun later h before room split report => ?_,
    fun later h before repair result split event late => ?_⟩
  · exact unreachable_of_report ((reports later h before split).symm.trans report)
  · rw [reports later h before split, event]
    simp [reported, late]

/-- One record, a room of it. -/
def swept (attempted failed : Nat) : Event Unit := .pass () ⟨attempted, failed, 0, .unknown, .calm⟩

theorem room_reach_one :
    ∃ s : Log Unit Unit, Trail (Steps id) .start [swept 1 0] s ∧
      evidence () s.past = some true ∧ lastReport () s.past = some true :=
  ⟨_, .cons (.pass _ _ _) (.nil _), rfl,
    (room_reach (.cons (.pass _ _ _) (.nil _)) (by decide)).1 () rfl⟩

/-- The last pass that attempted a read, or the last completed repair of those
dispatched after that pass and after the last reset. -/
def evidenceSinceReset (key : K) (past : List (Happened K Room)) : Option Bool :=
  (past.filterMap fun h =>
    match h.event with
    | .pass other input =>
      if other = key then readsReached input.attempted input.failed else none
    | .complete repair result =>
      if repair.key = key ∧ superseded repair past = false then repairReached result else none
    | .reset | .dispatch _ => none).head?

/-- A pass is answered and a repair dispatched; a pass that reads nothing comes
before the repair fails, and a new connection after. The repair is reported,
and nothing is after it. -/
theorem failed_before_reset :
    ∃ s : Log Unit Unit, Trail (Steps id) .start
        [swept 1 0, .dispatch (), swept 0 0, .complete ⟨(), 1, 1⟩ (.error ()), .reset] s ∧
      evidenceSinceReset () s.past = some true ∧ lastReport () s.past = some false ∧
      s.past.map (·.report) = [none, some ((), false), none, none, some ((), true)] :=
  ⟨_, .cons (.pass _ _ _) (.cons (.dispatch _ _) (.cons (.pass _ _ _) (.cons
    (.complete (List.nil_append _).symm _) (.cons (.reset _) (.nil _))))), rfl, rfl, rfl⟩

end Daemonseed.Net.RoomReach
