import Daemonseed.Lib.Bytes
import Mathlib.Data.Finset.Basic

/-! # Writing a subkey until the network holds it

A write to a record with one writer is set until the network keeps it, then
confirmed by asking this node whether the subkey is still queued. A write is
numbered from this node's copy, and the network keeps the highest number; what
the node could not put out is queued, and the queue's flush gives way to a
higher number as a write does. -/
namespace Daemonseed.Dm.KeptWrite
open Daemonseed.Lib.Bytes

/-! ## What Veilid does -/

/-- A value and its sequence number. -/
structure Copy where
  number : Nat
  bytes : Octets
  deriving DecidableEq

/-- This node's and the network's copies of a record's subkeys, and the subkeys
queued for the flush. -/
structure Veilid where
  localCopy : Nat → Option Copy
  network : Nat → Option Copy
  queue : Finset Nat

/-- How a set finds the network. -/
inductive Weather
  | online
  /-- Offline, or short of consensus. -/
  | queued
  | failed
  deriving DecidableEq, Repr

namespace Veilid

/-- The number a write of the subkey is given. -/
def nextNumber (self : Veilid) (subkey : Nat) : Nat :=
  match self.localCopy subkey with
  | none => 0
  | some copy => copy.number + 1

/-- Whether the network takes a value of this number. -/
def takes (self : Veilid) (subkey number : Nat) : Bool :=
  (self.network subkey).all fun kept => decide (kept.number < number)

def setLocal (self : Veilid) (subkey : Nat) (copy : Option Copy) : Veilid :=
  { self with localCopy := Function.update self.localCopy subkey copy }

def setNetwork (self : Veilid) (subkey : Nat) (copy : Option Copy) : Veilid :=
  { self with network := Function.update self.network subkey copy }

/-- One set: what is answered is the value kept instead, if one is. -/
def setDhtValue (self : Veilid) (subkey : Nat) (value : Octets) :
    Weather → Veilid × Except Unit (Option Octets)
  | .failed => (self, .error ())
  | .queued =>
    ({ self.setLocal subkey (some ⟨self.nextNumber subkey, value⟩) with
        queue := insert subkey self.queue }, .ok none)
  | .online =>
    if self.takes subkey (self.nextNumber subkey) then
      let copy := some ⟨self.nextNumber subkey, value⟩
      ((self.setLocal subkey copy).setNetwork subkey copy, .ok none)
    else (self.setLocal subkey (self.network subkey), .ok ((self.network subkey).map (·.bytes)))

/-- The flush of a queued subkey. -/
def flush (self : Veilid) (subkey : Nat) : Veilid :=
  if subkey ∈ self.queue then
    let flushed := { self with queue := self.queue.erase subkey }
    match self.localCopy subkey with
    | none => flushed
    | some copy =>
      if self.takes subkey copy.number then flushed.setNetwork subkey (some copy)
      else flushed.setLocal subkey (self.network subkey)
  else self

end Veilid

/-! ## The write -/

inductive WriteError
  | set
  /-- Every attempt was answered with other bytes. -/
  | keptOther
  | notOnNetwork
  /-- No probe was answered. -/
  | unchecked
  | probe
  deriving DecidableEq, Repr

def keptWriteAttempts : Nat := 3

/-- What a call has come to, and what Veilid held at each moment before. -/
structure Call where
  now : Veilid
  earlier : List Veilid

def Call.next (self : Call) (veilid : Veilid) : Call := ⟨veilid, self.now :: self.earlier⟩

/-- The flush, if it comes at this moment. -/
def Call.flushIf (self : Call) (subkey : Nat) (flushed : Bool) : Call :=
  if flushed then self.next (self.now.flush subkey) else self

/-- What comes at one attempt: a flush before it, perhaps, and how it finds the
network. -/
structure SetTurn where
  flushed : Bool
  weather : Weather

def writeLoop (subkey : Nat) (value : Octets) :
    Nat → (Nat → SetTurn) → Call → Call × Except WriteError Unit
  | 0, _, call => (call, .error .keptOther)
  | attempts + 1, turns, call =>
    let call := call.flushIf subkey (turns 0).flushed
    let call' := call.next (call.now.setDhtValue subkey value (turns 0).weather).1
    match (call.now.setDhtValue subkey value (turns 0).weather).2 with
    | .error _ => (call', .error .set)
    | .ok none => (call', .ok ())
    | .ok (some kept) =>
      if kept = value then (call', .ok ())
      else writeLoop subkey value attempts (fun i => turns (i + 1)) call'

def writeUntilKept (subkey : Nat) (value : Octets) (turns : Nat → SetTurn) (call : Call) :
    Call × Except WriteError Unit :=
  writeLoop subkey value keptWriteAttempts turns call

/-! ## The confirmation -/

structure LocalPending where
  seqs : List (Option Nat)
  pending : Finset Nat

/-- A local report on the subkeys below `covered`. -/
def inspectLocalPending (veilid : Veilid) (covered : Nat) : LocalPending :=
  ⟨(List.range covered).map fun k => (veilid.localCopy k).map (·.number), veilid.queue⟩

/-- A subkey past the end of the report has no number. -/
def pendingAt (report : LocalPending) (subkey : Nat) : Option Nat × Bool :=
  (report.seqs[subkey]?.join, decide (subkey ∈ report.pending))

def onNetwork (number : Option Nat) (pending : Bool) : Bool := number.isSome && !pending

/-- How a probe comes back. -/
inductive Probe
  | report (covered : Nat)
  | refusedForNow
  | unanswered
  | notHeld
  | refused
  /-- Still waiting when the budget ran out. -/
  | elapsed
  deriving DecidableEq, Repr

structure ProbeTurn where
  flushed : Bool
  probe : Probe
  /-- The budget is spent by the end of it. -/
  spent : Bool

/-- Probe after probe, until one finds the subkey out of the queue; no result
while it goes on. -/
def confirmLoop (subkey : Nat) :
    (answered : Bool) → List ProbeTurn → Call → Call × Option (Except WriteError Unit)
  | _, [], call => (call, none)
  | answered, turn :: rest, call =>
    let call := call.flushIf subkey turn.flushed
    let missed (answered : Bool) : Call × Option (Except WriteError Unit) :=
      if turn.spent then (call, some (.error (if answered then .notOnNetwork else .unchecked)))
      else confirmLoop subkey answered rest call
    match turn.probe with
    | .report covered =>
      let seen := pendingAt (inspectLocalPending call.now covered) subkey
      if onNetwork seen.1 seen.2 then (call, some (.ok ())) else missed true
    | .refusedForNow | .unanswered | .elapsed => missed answered
    | .notHeld | .refused => (call, some (.error .probe))

def confirmOnNetwork (subkey : Nat) (turns : List ProbeTurn) (call : Call) :
    Call × Option (Except WriteError Unit) :=
  confirmLoop subkey false turns call

/-- The whole write: until kept, then until confirmed. -/
def write (subkey : Nat) (value : Octets) (sets : Nat → SetTurn) (probes : List ProbeTurn)
    (veilid : Veilid) : Call × Option (Except WriteError Unit) :=
  match writeUntilKept subkey value sets ⟨veilid, []⟩ with
  | (call, .error e) => (call, some (.error e))
  | (call, .ok ()) => confirmOnNetwork subkey probes call

/-- At some moment of the call the network's copy was these bytes. -/
def Held (subkey : Nat) (value : Octets) (call : Call) : Prop :=
  ∃ veilid ∈ call.now :: call.earlier, (veilid.network subkey).map (·.bytes) = some value

/-! ## When a write is misled -/

/-- The flush comes before a probe that is answered, and no probe before ends
the wait; `flushed` where it has come already. -/
def settles (subkey : Nat) : (flushed : Bool) → List ProbeTurn → Bool
  | _, [] => false
  | flushed, turn :: rest =>
    let flushed := flushed || turn.flushed
    let missed := !turn.spent && settles subkey flushed rest
    match turn.probe with
    | .report covered => flushed && decide (subkey < covered) || missed
    | .refusedForNow | .unanswered | .elapsed => missed
    | .notHeld | .refused => false

/-- The first set is queued; at that moment this node's copy is absent or
numbered below the network's, which holds other bytes; and the flush, which the
network's value then wins, comes before a probe that is answered. -/
structure Misled (subkey : Nat) (value : Octets) (sets : Nat → SetTurn) (probes : List ProbeTurn)
    (veilid : Veilid) : Prop where
  queued : (sets 0).weather = .queued
  behind : let veilid := if (sets 0).flushed then veilid.flush subkey else veilid
    ∃ kept, veilid.network subkey = some kept ∧ veilid.nextNumber subkey ≤ kept.number ∧
      kept.bytes ≠ value
  settles : settles subkey false probes = true

section

variable {subkey : Nat} {value : Octets} {call : Call} {veilid : Veilid}

theorem Held.next (held : Held subkey value call) (veilid : Veilid) :
    Held subkey value (call.next veilid) := by
  obtain ⟨seen, mem, bytes⟩ := held
  exact ⟨seen, List.mem_cons_of_mem _ mem, bytes⟩

theorem Held.flushIf (held : Held subkey value call) (flushed : Bool) :
    Held subkey value (call.flushIf subkey flushed) := by
  unfold Call.flushIf
  split
  · exact held.next _
  · exact held

theorem held_now {kept : Copy} (now : call.now.network subkey = some kept)
    (bytes : kept.bytes = value) : Held subkey value call :=
  ⟨call.now, List.mem_cons_self, by rw [now, ← bytes]; rfl⟩

/-- A moment at which the network holds other bytes. -/
theorem held_next {kept : Copy} (now : veilid.network subkey = some kept) (other : kept.bytes ≠ value) :
    Held subkey value (call.next veilid) ↔ Held subkey value call := by
  constructor
  · rintro ⟨seen, mem, bytes⟩
    rcases List.mem_cons.1 mem with rfl | old
    · rw [now] at bytes
      exact absurd (Option.some.inj bytes) other
    · exact ⟨seen, old, bytes⟩
  · exact fun held => held.next veilid

/-! ## The flush -/

theorem flush_idle (idle : subkey ∉ veilid.queue) : veilid.flush subkey = veilid := if_neg idle

theorem flush_taken {copy : Copy} (queued : subkey ∈ veilid.queue)
    (held : veilid.localCopy subkey = some copy) (takes : veilid.takes subkey copy.number = true) :
    (veilid.flush subkey).network subkey = some copy := by
  simp [Veilid.flush, queued, held, takes, Veilid.setNetwork]

/-- A value that loses at the flush leaves the queue all the same. -/
theorem flush_lost {copy kept : Copy} (queued : subkey ∈ veilid.queue)
    (held : veilid.localCopy subkey = some copy) (now : veilid.network subkey = some kept)
    (behind : copy.number ≤ kept.number) :
    (veilid.flush subkey).network subkey = some kept ∧
      (veilid.flush subkey).localCopy subkey = some kept ∧ subkey ∉ (veilid.flush subkey).queue := by
  have lost : veilid.takes subkey copy.number = false := by simp [Veilid.takes, now, behind]
  simp [Veilid.flush, queued, held, lost, Veilid.setLocal, now]

/-- Whatever the flush does, a copy that is the network's stays so. -/
theorem flush_level {kept : Copy} (held : veilid.localCopy subkey = some kept)
    (now : veilid.network subkey = some kept) :
    (veilid.flush subkey).localCopy subkey = some kept ∧
      (veilid.flush subkey).network subkey = some kept := by
  by_cases queued : subkey ∈ veilid.queue
  · obtain ⟨network, localCopy, -⟩ := flush_lost queued held now (Nat.le_refl _)
    exact ⟨localCopy, network⟩
  · rw [flush_idle queued]
    exact ⟨held, now⟩

/-! ## The confirmation -/

theorem pendingAt_report (covered : Nat) :
    pendingAt (inspectLocalPending veilid covered) subkey =
      (if subkey < covered then (veilid.localCopy subkey).map (·.number) else none,
        decide (subkey ∈ veilid.queue)) := by
  unfold pendingAt inspectLocalPending
  by_cases inside : subkey < covered
  · simp [inside]
  · simp [inside]

theorem confirm_held (held : Held subkey value call) (answered : Bool) (turns : List ProbeTurn) :
    Held subkey value (confirmLoop subkey answered turns call).1 := by
  induction turns generalizing answered call with
  | nil => exact held
  | cons turn rest ih =>
    have now := held.flushIf turn.flushed
    unfold confirmLoop
    dsimp only
    split
    · split
      · exact now
      · split
        · exact now
        · exact ih now _
    all_goals first
      | exact now
      | (split
         · exact now
         · exact ih now _)

/-- A value that is queued and will be taken is on the network once it is
confirmed. -/
theorem confirm_taken {copy : Copy} (bytes : copy.bytes = value) (queued : subkey ∈ call.now.queue)
    (held : call.now.localCopy subkey = some copy)
    (takes : call.now.takes subkey copy.number = true) {answered : Bool} {turns : List ProbeTurn}
    (ok : (confirmLoop subkey answered turns call).2 = some (.ok ())) :
    Held subkey value (confirmLoop subkey answered turns call).1 := by
  induction turns generalizing answered with
  | nil => cases ok
  | cons turn rest ih =>
    obtain ⟨flushed, probe, spent⟩ := turn
    cases flushed with
    | true =>
      have there : Held subkey value (call.flushIf subkey true) :=
        held_now (flush_taken queued held takes) bytes
      exact confirm_held there answered (⟨false, probe, spent⟩ :: rest)
    | false =>
      have still : (call.flushIf subkey false) = call := rfl
      have waits : ∀ number, onNetwork number (decide (subkey ∈ call.now.queue)) = false := by
        simp [onNetwork, queued]
      unfold confirmLoop at ok ⊢
      simp only [still, pendingAt_report, waits, Bool.false_eq_true, if_false] at ok ⊢
      cases probe with
      | notHeld => cases ok
      | refused => cases ok
      | report _ | refusedForNow | unanswered | elapsed =>
        dsimp only at ok ⊢
        cases spent with
        | true => cases ok
        | false => exact ih ok

/-- The network holds other bytes, and the value queued under a number not above
theirs is given up at the flush; `flushed` once it has been. -/
structure Lost (subkey : Nat) (value : Octets) (flushed : Bool) (veilid : Veilid) : Prop where
  network : ∃ kept, veilid.network subkey = some kept ∧ kept.bytes ≠ value ∧
    ∃ copy, veilid.localCopy subkey = some copy ∧ (flushed = false → copy.number ≤ kept.number)
  queue : subkey ∈ veilid.queue ↔ flushed = false

theorem Lost.flush {flushed : Bool} (lost : Lost subkey value flushed veilid) :
    Lost subkey value true (veilid.flush subkey) := by
  obtain ⟨⟨kept, now, other, copy, held, behind⟩, queue⟩ := lost
  cases flushed with
  | true =>
    have idle : subkey ∉ veilid.queue := by simp [queue]
    rw [flush_idle idle]
    exact ⟨⟨kept, now, other, copy, held, nofun⟩, queue⟩
  | false =>
    obtain ⟨network, localCopy, idle⟩ := flush_lost (queue.2 rfl) held now (behind rfl)
    exact ⟨⟨kept, network, other, kept, localCopy, nofun⟩, by simp [idle]⟩

theorem Lost.flushIf {flushed : Bool} (lost : Lost subkey value flushed call.now) (now : Bool) :
    Lost subkey value (flushed || now) (call.flushIf subkey now).now ∧
      (Held subkey value (call.flushIf subkey now) ↔ Held subkey value call) := by
  cases now with
  | false => simpa [Call.flushIf] using lost
  | true =>
    have after := lost.flush
    obtain ⟨kept, network, other, -⟩ := after.network
    rw [Bool.or_true]
    exact ⟨after, held_next network other⟩

theorem confirm_lost {flushed : Bool} (lost : Lost subkey value flushed call.now) (answered : Bool)
    (turns : List ProbeTurn) :
    ((confirmLoop subkey answered turns call).2 = some (.ok ()) ↔
      settles subkey flushed turns = true) ∧
    (Held subkey value (confirmLoop subkey answered turns call).1 ↔ Held subkey value call) := by
  induction turns generalizing flushed answered call with
  | nil => simp [confirmLoop, settles]
  | cons turn rest ih =>
    obtain ⟨now, probe, spent⟩ := turn
    obtain ⟨after, same⟩ := lost.flushIf now
    have goes := fun answered => ih after answered
    obtain ⟨-, -, -, copy, held, -⟩ := after.network
    unfold confirmLoop settles
    simp only [pendingAt_report, held]
    cases probe with
    | notHeld => simpa using same
    | refused => simpa using same
    | refusedForNow | unanswered | elapsed =>
      cases spent with
      | true => simpa using same
      | false => simpa [← same] using goes answered
    | report covered =>
      have pending : decide (subkey ∈ (call.flushIf subkey now).now.queue) = !(flushed || now) := by
        rw [Bool.eq_iff_iff, decide_eq_true_eq, after.queue]
        simp
      simp only [pending]
      generalize (flushed || now) = flushed at goes
      cases flushed with
      | false =>
        cases spent with
        | true => simpa [onNetwork] using same
        | false => simpa [onNetwork, ← same] using goes true
      | true =>
        by_cases inside : subkey < covered
        · simpa [onNetwork, inside] using same
        · cases spent with
          | true => simpa [onNetwork, inside] using same
          | false => simpa [onNetwork, inside, ← same] using goes true

/-! ## The attempts -/

/-- What a set that is answered `Ok` without other bytes leaves: the network
held the value, or it is queued. -/
def Carried (subkey : Nat) (value : Octets) (call : Call) : Prop :=
  Held subkey value call ∨ subkey ∈ call.now.queue ∧
    ∃ copy, call.now.localCopy subkey = some copy ∧ copy.bytes = value ∧
      call.now.takes subkey copy.number = true

theorem Carried.confirmed (carried : Carried subkey value call) {answered : Bool}
    {turns : List ProbeTurn} (ok : (confirmLoop subkey answered turns call).2 = some (.ok ())) :
    Held subkey value (confirmLoop subkey answered turns call).1 := by
  rcases carried with held | ⟨queued, copy, held, bytes, takes⟩
  · exact confirm_held held answered turns
  · exact confirm_taken bytes queued held takes ok

/-- A queued set. -/
theorem queued_set (subkey : Nat) (value : Octets) (veilid : Veilid) :
    (veilid.setDhtValue subkey value .queued).1.localCopy subkey =
        some ⟨veilid.nextNumber subkey, value⟩ ∧
      (veilid.setDhtValue subkey value .queued).1.network = veilid.network ∧
      subkey ∈ (veilid.setDhtValue subkey value .queued).1.queue := by
  simp [Veilid.setDhtValue, Veilid.setLocal]

/-- A set that is not behind the network is carried, unless it fails. -/
theorem carried_of_takes (takes : call.now.takes subkey (call.now.nextNumber subkey) = true)
    {weather : Weather} (fine : weather ≠ .failed) :
    (call.now.setDhtValue subkey value weather).2 = .ok none ∧
      Carried subkey value (call.next (call.now.setDhtValue subkey value weather).1) := by
  cases weather with
  | failed => exact absurd rfl fine
  | queued =>
    obtain ⟨held, -, queued⟩ := queued_set subkey value call.now
    exact ⟨rfl, .inr ⟨queued, _, held, rfl, takes⟩⟩
  | online =>
    unfold Veilid.setDhtValue
    rw [if_pos takes]
    refine ⟨rfl, .inl (held_now ?_ (rfl : (⟨call.now.nextNumber subkey, value⟩ : Copy).bytes = value))⟩
    simp [Call.next, Veilid.setNetwork]

/-- From a copy that is the network's, every attempt is carried. -/
theorem writeLoop_level {kept : Copy} (held : call.now.localCopy subkey = some kept)
    (now : call.now.network subkey = some kept) (attempts : Nat) (turns : Nat → SetTurn)
    (ok : (writeLoop subkey value attempts turns call).2 = .ok ()) :
    Carried subkey value (writeLoop subkey value attempts turns call).1 := by
  cases attempts with
  | zero => cases ok
  | succ attempts =>
    have level : (call.flushIf subkey (turns 0).flushed).now.localCopy subkey = some kept ∧
        (call.flushIf subkey (turns 0).flushed).now.network subkey = some kept := by
      unfold Call.flushIf
      split
      · exact flush_level held now
      · exact ⟨held, now⟩
    have takes : (call.flushIf subkey (turns 0).flushed).now.takes subkey
        ((call.flushIf subkey (turns 0).flushed).now.nextNumber subkey) = true := by
      simp [Veilid.takes, Veilid.nextNumber, level]
    unfold writeLoop at ok ⊢
    dsimp only at ok ⊢
    by_cases failed : (turns 0).weather = .failed
    · rw [failed] at ok
      cases ok
    · obtain ⟨answer, carried⟩ : _ ∧ Carried subkey value _ := carried_of_takes takes failed
      rw [answer]
      exact carried

theorem takes_false {number : Nat} (not_ : veilid.takes subkey number = false) :
    ∃ kept, veilid.network subkey = some kept ∧ number ≤ kept.number := by
  unfold Veilid.takes at not_
  cases now : veilid.network subkey with
  | none => simp [now] at not_
  | some kept => exact ⟨kept, rfl, by simpa [now] using not_⟩

/-- A flush that changes the network's copy leaves this node's level with it. -/
theorem flush_network
    (behind : (veilid.flush subkey).takes subkey ((veilid.flush subkey).nextNumber subkey) = false) :
    (veilid.flush subkey).network = veilid.network := by
  revert behind
  unfold Veilid.flush
  split
  · cases held : veilid.localCopy subkey with
    | none => exact fun _ => rfl
    | some copy =>
      dsimp only
      split
      · intro behind
        -- this node's copy is the network's now, and the next write is above it
        simp [Veilid.takes, Veilid.nextNumber, Veilid.setNetwork, held] at behind
      · exact fun _ => rfl
  · exact fun _ => rfl

/-- The start of a call, and the flush that comes before its first set. -/
def Begun (subkey : Nat) (sets : Nat → SetTurn) (veilid : Veilid) : Call :=
  Call.flushIf ⟨veilid, []⟩ subkey (sets 0).flushed

theorem begun_now (sets : Nat → SetTurn) :
    (Begun subkey sets veilid).now =
      if (sets 0).flushed then veilid.flush subkey else veilid := by
  unfold Begun Call.flushIf
  split <;> rfl

/-- Behind the network's other bytes, nothing was held so far. -/
theorem begun_not_held {sets : Nat → SetTurn} {kept : Copy}
    (behind : (Begun subkey sets veilid).now.takes subkey
      ((Begun subkey sets veilid).now.nextNumber subkey) = false)
    (now : (Begun subkey sets veilid).now.network subkey = some kept) (other : kept.bytes ≠ value) :
    ¬ Held subkey value (Begun subkey sets veilid) := by
  have first : veilid.network subkey = some kept := by
    rw [begun_now] at behind now
    split at now
    · next flushed =>
      rw [if_pos flushed] at behind
      rw [← flush_network behind]
      exact now
    · exact now
  have start : ¬ Held subkey value ⟨veilid, []⟩ := by
    rintro ⟨seen, mem, bytes⟩
    obtain rfl : seen = veilid := by simpa using mem
    rw [first] at bytes
    exact other (Option.some.inj bytes)
  rw [begun_now] at now
  unfold Begun Call.flushIf
  split at now
  · next flushed =>
    rw [if_pos flushed, held_next now other]
    exact start
  · next unflushed =>
    rw [if_neg unflushed]
    exact start

/-- The first set is queued behind the network, or whatever is answered `Ok` is
carried. -/
theorem writeUntilKept_cases (value : Octets) (sets : Nat → SetTurn) :
    ((sets 0).weather = .queued ∧ (Begun subkey sets veilid).now.takes subkey
        ((Begun subkey sets veilid).now.nextNumber subkey) = false ∧
      writeUntilKept subkey value sets ⟨veilid, []⟩ =
        ((Begun subkey sets veilid).next
          ((Begun subkey sets veilid).now.setDhtValue subkey value .queued).1, .ok ())) ∨
    (¬ ((sets 0).weather = .queued ∧ (Begun subkey sets veilid).now.takes subkey
        ((Begun subkey sets veilid).now.nextNumber subkey) = false) ∧
      ((writeUntilKept subkey value sets ⟨veilid, []⟩).2 = .ok () →
        Carried subkey value (writeUntilKept subkey value sets ⟨veilid, []⟩).1)) := by
  unfold writeUntilKept keptWriteAttempts writeLoop
  dsimp only
  rw [← Begun]
  generalize Begun subkey sets veilid = call
  generalize (sets 0).weather = weather
  cases takes : call.now.takes subkey (call.now.nextNumber subkey) with
  | true =>
    refine .inr ⟨by simp, fun ok => ?_⟩
    by_cases failed : weather = .failed
    · subst failed
      cases ok
    · obtain ⟨answer, carried⟩ : _ ∧ Carried subkey value _ := carried_of_takes takes failed
      rw [answer]
      exact carried
  | false =>
    cases weather with
    | failed => exact .inr ⟨by simp, nofun⟩
    | queued => exact .inl ⟨rfl, rfl, rfl⟩
    | online =>
      refine .inr ⟨by simp, ?_⟩
      obtain ⟨kept, now, -⟩ := takes_false takes
      have answer : call.now.setDhtValue subkey value .online =
          (call.now.setLocal subkey (some kept), .ok (some kept.bytes)) := by
        simp [Veilid.setDhtValue, takes, now]
      rw [answer]
      dsimp only
      split
      · next same => exact fun _ => .inl (held_now (show _ = some kept from now) same)
      · have level : (call.next (call.now.setLocal subkey (some kept))).now.localCopy subkey =
            some kept := Function.update_self ..
        exact writeLoop_level level now _ _

/-- **A write reported written was on the network, exactly where it was not
misled.** -/
theorem write_reported (subkey : Nat) (value : Octets) (sets : Nat → SetTurn)
    (probes : List ProbeTurn) (veilid : Veilid) :
    ((write subkey value sets probes veilid).2 = some (.ok ()) →
        Held subkey value (write subkey value sets probes veilid).1) ↔
      ¬ Misled subkey value sets probes veilid := by
  have behind : Misled subkey value sets probes veilid →
      (sets 0).weather = .queued ∧ (Begun subkey sets veilid).now.takes subkey
        ((Begun subkey sets veilid).now.nextNumber subkey) = false := by
    intro misled
    obtain ⟨kept, now, low, -⟩ := misled.behind
    rw [← begun_now] at now low
    exact ⟨misled.queued, by simp [Veilid.takes, now, low]⟩
  rcases writeUntilKept_cases value sets with
    ⟨queued, stale, done⟩ | ⟨level, carried⟩
  · obtain ⟨kept, now, low⟩ := takes_false stale
    unfold write confirmOnNetwork
    rw [done]
    dsimp only
    by_cases same : kept.bytes = value
    · refine iff_of_true (fun _ => ?_) fun misled => ?_
      · exact confirm_held ((held_now now same).next _) false probes
      · obtain ⟨kept', now', -, other⟩ := misled.behind
        rw [← begun_now, now] at now'
        exact other ((Option.some.inj now') ▸ same)
    · have lost : Lost subkey value false ((Begun subkey sets veilid).next
          ((Begun subkey sets veilid).now.setDhtValue subkey value .queued).1).now := by
        obtain ⟨held, -, waits⟩ := queued_set subkey value (Begun subkey sets veilid).now
        exact ⟨⟨kept, now, same, _, held, fun _ => low⟩, iff_of_true waits rfl⟩
      obtain ⟨reported, held⟩ := confirm_lost lost false probes
      have never := (held.trans (held_next now same)).not.2 (begun_not_held stale now same)
      constructor
      · exact fun sound misled => never (sound (reported.2 misled.settles))
      · refine fun fine ok => absurd ⟨queued, ⟨kept, ?_, ?_, same⟩, reported.1 ok⟩ fine
        · rw [← begun_now]
          exact now
        · rw [← begun_now]
          exact low
  · refine iff_of_true (fun ok => ?_) fun misled => level (behind misled)
    unfold write confirmOnNetwork at ok ⊢
    revert ok carried
    generalize writeUntilKept subkey value sets ⟨veilid, []⟩ = written
    obtain ⟨call, result⟩ := written
    intro carried ok
    cases result with
    | error e => cases ok
    | ok => exact (carried rfl).confirmed ok

end

/-! ## A node that lost its own copy -/

/-- The network has an earlier value, and this node no copy of it. -/
def relearning : Veilid := ⟨fun _ => none, fun _ => some ⟨5, [0]⟩, ∅⟩

/-- The value is queued, loses at the flush, and is reported written. -/
theorem write_reported_elsewhere :
    (write 0 [1] (fun _ => ⟨false, .queued⟩) [⟨true, .report 1, false⟩] relearning).2 =
        some (.ok ()) ∧
      ¬ Held 0 [1] (write 0 [1] (fun _ => ⟨false, .queued⟩) [⟨true, .report 1, false⟩]
        relearning).1 := by
  refine ⟨by decide, ?_⟩
  rintro ⟨seen, mem, bytes⟩
  have never : ∀ seen ∈ (write 0 [1] (fun _ => ⟨false, .queued⟩) [⟨true, .report 1, false⟩]
      relearning).1.now :: (write 0 [1] (fun _ => ⟨false, .queued⟩) [⟨true, .report 1, false⟩]
        relearning).1.earlier, seen.network 0 = some ⟨5, [0]⟩ := by
    decide
  rw [never seen mem] at bytes
  cases bytes

end Daemonseed.Dm.KeptWrite
