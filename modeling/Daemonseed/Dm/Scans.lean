import Daemonseed.Lib.Held
import Daemonseed.Lib.Maps

/-! # Scans of a drop

A pass over a drop starts at slot 0 with a scan, and its later slots are
answered from it: a slot that the scan reports empty is not fetched. A scan of
this side's own drop that does not answer defers the pass instead. What a read
is answered from is told by the calls that came before it, and so is whether
that was the scan of its own pass. -/
namespace Daemonseed.Dm.Scans
open Daemonseed.Lib.Held Daemonseed.Lib.Maps

/-! ## Failures -/

/-- An error of the network layer: whether it is its time-out, and its text. -/
structure VeilidNetError where
  timedOut : Bool
  text : String
  deriving DecidableEq, Repr

def textContains (text part : List Char) : Bool := text.tails.any part.isPrefixOf

def isTransient (error : VeilidNetError) : Bool :=
  let text := error.text.toList.map Char.toLower
  textContains text "tryagain".toList || textContains text "offline".toList ||
    textContains text "not ready".toList

def isUnanswered (error : VeilidNetError) : Bool := error.timedOut

def scanRetryable (error : VeilidNetError) : Bool := isTransient error || isUnanswered error

inductive RecordError
  | network (error : VeilidNetError)
  | other (text : String)
  deriving DecidableEq, Repr

/-- Whether the failure is of a scan that did not answer. -/
def RecordError.unanswered : RecordError → Bool
  | .network error => scanRetryable error
  | .other _ => false

variable {D V : Type} [DecidableEq D]

/-! ## Deferrals -/

/-- How many passes in a row a scan that does not answer defers. -/
def scanDeferrals : Nat := 2

structure ScanDeferrals (D : Type) [DecidableEq D] where
  inARow : Map D Nat := ∅

namespace ScanDeferrals

def answered (self : ScanDeferrals D) (owner : D) : ScanDeferrals D :=
  ⟨self.inARow.erase owner⟩

def count (self : ScanDeferrals D) (owner : D) : Nat := (self.inARow.lookup owner).getD 0

/-- Whether the pass whose scan failed is deferred. -/
def defer (self : ScanDeferrals D) (owner : D) (failure : RecordError) :
    ScanDeferrals D × Bool :=
  if !failure.unanswered || decide (scanDeferrals ≤ self.count owner) then
    (⟨self.inARow.erase owner⟩, false)
  else (⟨self.inARow.insert owner (self.count owner + 1)⟩, true)

variable {self : ScanDeferrals D} {owner other : D} {failure : RecordError}

theorem count_answered :
    (self.answered owner).count other = if other = owner then 0 else self.count other := by
  unfold answered count
  split
  next same => rw [same, AList.lookup_erase]; rfl
  next differ => rw [AList.lookup_erase_ne differ]

theorem defer_refused (refused : (self.defer owner failure).2 = false) :
    (self.defer owner failure).1 = self.answered owner := by
  unfold defer at refused ⊢
  split
  · rfl
  next answers => simp [answers] at refused

theorem defer_deferred (other : D) (deferred : (self.defer owner failure).2 = true) :
    self.count owner < scanDeferrals ∧ (self.defer owner failure).1.count other =
      if other = owner then self.count owner + 1 else self.count other := by
  unfold defer at deferred ⊢
  split at deferred
  · exact absurd deferred (by simp)
  next answers =>
    simp only [Bool.or_eq_true, decide_eq_true_eq, not_or, Nat.not_le] at answers
    refine ⟨answers.2, ?_⟩
    rw [if_neg (by simpa using answers)]
    unfold count
    split
    next same => rw [same, AList.lookup_insert]; rfl
    next differ => rw [AList.lookup_insert_ne differ]

end ScanDeferrals

/-! ## A scan and a pass -/

/-- What a scan of a drop found: of each slot it reached, whether it holds something. -/
structure DropScan (D : Type) where
  owner : D
  populated : List Bool
  deriving DecidableEq, Repr

/-- A slot past what the scan covers is read. -/
def DropScan.needsGet (self : DropScan D) (slot : Nat) : Bool := self.populated[slot]?.getD true

def DropScan.covers (self : DropScan D) (owner : D) : Bool := decide (self.owner = owner)

structure DropPass (D : Type) [DecidableEq D] where
  ownDrop : Option D := none
  scan : Option (DropScan D) := none
  failure : Option RecordError := none
  deferred : Option D := none
  deferrals : ScanDeferrals D := {}

/-- How a slot read came out: with the failure of the scan its pass was
deferred for, empty without a fetch, or with what the fetch returned. -/
inductive Served (V : Type)
  | deferred (failure : RecordError)
  | skipped
  | fetched (value : Except RecordError (Option V))

/-- What the caller of the read sees. -/
def Served.result : Served V → Except RecordError (Option V)
  | deferred failure => .error failure
  | skipped => .ok none
  | fetched value => value

namespace DropPass

/-- The scan that starts a pass, and the failure that defers it. Where the pass
is deferred, the scan held before it is still held. -/
def start (self : DropPass D) (owner : D) (scan : Except RecordError (List Bool)) :
    DropPass D × Option RecordError :=
  match scan with
  | .ok populated =>
    ({ self with
        deferred := none, scan := some ⟨owner, populated⟩
        deferrals := self.deferrals.answered owner }, none)
  | .error failure =>
    if self.ownDrop = some owner then
      if (self.deferrals.defer owner failure).2 then
        ({ self with
            deferred := some owner, deferrals := (self.deferrals.defer owner failure).1 },
          some failure)
      else
        ({ self with
            deferred := none, scan := none, failure := some failure
            deferrals := (self.deferrals.defer owner failure).1 }, none)
    else ({ self with deferred := none, scan := none, failure := some failure }, none)

/-- Whether the scan held says that the slot is empty. -/
def skips (self : DropPass D) (owner : D) (slot : Nat) : Bool :=
  self.scan.any fun found => found.covers owner && !found.needsGet slot

/-- The part of a read that slot 0 does not have to itself. -/
def answer (self : DropPass D) (owner : D) (slot : Nat) (value : Except RecordError (Option V)) :
    Served V :=
  if self.deferred = some owner then .skipped
  else if self.skips owner slot then .skipped
  else .fetched value

def read (self : DropPass D) (owner : D) (slot : Nat) (scan : Except RecordError (List Bool))
    (value : Except RecordError (Option V)) : DropPass D × Served V :=
  if slot = 0 then
    match (self.start owner scan).2 with
    | some failure => ((self.start owner scan).1, .deferred failure)
    | none => ((self.start owner scan).1, (self.start owner scan).1.answer owner slot value)
  else (self, self.answer owner slot value)

def forget (self : DropPass D) (owner : D) : DropPass D :=
  { self with
    scan := if self.scan.any (·.covers owner) then none else self.scan
    deferred := if self.deferred = some owner then none else self.deferred }

end DropPass

/-! ## The record store's calls -/

/-- A call that the pass serves, with what the network answers to it. A write
of a hello that does not shape is refused before the scan is forgotten. -/
inductive Call (D V : Type)
  | readDropSlot (owner : D) (slot : Nat) (scan : Except RecordError (List Bool))
      (value : Except RecordError (Option V))
  | writeDropSlot (owner : D) (shapes : Bool)
  | eraseDropSlot (owner : D)
  | forget (owner : D)
  | takeScanFailure

def DropPass.serve (self : DropPass D) : Call D V → DropPass D × Option (Served V)
  | .readDropSlot owner slot scan value =>
    ((self.read owner slot scan value).1, some (self.read owner slot scan value).2)
  | .writeDropSlot owner shapes => (if shapes then self.forget owner else self, none)
  | .eraseDropSlot _ => (self, none)
  | .forget owner => (self.forget owner, none)
  | .takeScanFailure => ({ self with failure := none }, none)

/-- A call and how it was served. -/
structure Event (D V : Type) where
  call : Call D V
  served : Option (Served V)

namespace Event

/-- The drop a slot-0 read passes over. -/
def pass (e : Event D V) : Option D :=
  match e.call with
  | .readDropSlot owner slot _ _ => if slot = 0 then some owner else none
  | _ => none

/-- What the scan of a slot-0 read found. -/
def found (e : Event D V) : Option (DropScan D) :=
  match e.call with
  | .readDropSlot owner slot (.ok populated) _ => if slot = 0 then some ⟨owner, populated⟩ else none
  | _ => none

/-- The failure a slot-0 read's scan came out with. -/
def failed (e : Event D V) : Option RecordError :=
  match e.call with
  | .readDropSlot _ slot (.error failure) _ => if slot = 0 then some failure else none
  | _ => none

/-- The failure a pass was deferred for. -/
def deferral (e : Event D V) : Option RecordError :=
  match e.served with
  | some (.deferred failure) => some failure
  | _ => none

/-- Whether the scan of a drop is forgotten. -/
def forgets (owner : D) (e : Event D V) : Bool :=
  match e.call with
  | .writeDropSlot other shapes => shapes && decide (other = owner)
  | .forget other => decide (other = owner)
  | _ => false

/-- A slot-0 read. -/
def starts (e : Event D V) : Bool := e.pass.isSome

/-- A slot-0 read whose pass was not deferred. -/
def settles (e : Event D V) : Bool := e.starts && e.deferral.isNone

end Event

/-- A pass and what it served so far, the newest first. -/
structure Log (D V : Type) [DecidableEq D] where
  pass : DropPass D
  past : List (Event D V) := []

def Log.serve (s : Log D V) (call : Call D V) : Log D V :=
  ⟨(s.pass.serve call).1, ⟨call, (s.pass.serve call).2⟩ :: s.past⟩

/-- The log of the calls of a store whose own drop is `own`. -/
def log (own : Option D) (calls : List (Call D V)) : Log D V :=
  calls.foldl Log.serve { pass := { ownDrop := own } }

/-! ## What is still held -/

/-- The scan of the last pass that was not deferred. -/
def heldScan (past : List (Event D V)) : Option (DropScan D) :=
  held Event.settles Event.found (fun e found => e.forgets found.owner) past

/-- The drop of the last pass, where that was deferred. -/
def heldDeferral (past : List (Event D V)) : Option D :=
  held Event.starts (fun e => if e.deferral.isSome then e.pass else none)
    (fun e owner => e.forgets owner) past

/-- The deferred passes since the last that was not, over one drop. -/
def trailing (owner : D) (past : List (Event D V)) : List (Event D V) :=
  (past.filter fun e => decide (e.pass = some owner)).takeWhile (·.deferral.isSome)

/-- A deferral is of this side's own drop, and for the failure of its scan. -/
def Proper (own : Option D) (e : Event D V) : Prop :=
  ∀ failure, e.deferral = some failure → e.starts = true ∧ e.pass = own ∧ e.failed = some failure

/-- The pass holds what the calls so far tell. -/
structure Traced (own : Option D) (s : Log D V) : Prop where
  ownDrop : s.pass.ownDrop = own
  scan : s.pass.scan = heldScan s.past
  deferred : s.pass.deferred = heldDeferral s.past
  proper : ∀ e ∈ s.past, Proper own e
  count : ∀ owner, own = some owner →
    s.pass.deferrals.count owner = (trailing owner s.past).length ∧
      (trailing owner s.past).length ≤ scanDeferrals

/-! ## A slot-0 read -/

section

variable {self : DropPass D} {owner : D} {scan : Except RecordError (List Bool)}
  {value : Except RecordError (Option V)} {slot : Nat}

/-- The three ways a pass starts: with a scan, deferred, or without one. -/
theorem DropPass.start_cases (self : DropPass D) (owner : D)
    (scan : Except RecordError (List Bool)) :
    (∃ populated, scan = .ok populated ∧ self.start owner scan =
      ({ self with
          deferred := none, scan := some ⟨owner, populated⟩
          deferrals := self.deferrals.answered owner }, none)) ∨
    (∃ failure, scan = .error failure ∧ self.ownDrop = some owner ∧
      (self.deferrals.defer owner failure).2 = true ∧ self.start owner scan =
        ({ self with
            deferred := some owner, deferrals := (self.deferrals.defer owner failure).1 },
          some failure)) ∨
    ∃ failure deferrals, scan = .error failure ∧
      (self.ownDrop = some owner → deferrals = self.deferrals.answered owner) ∧
      (self.ownDrop ≠ some owner → deferrals = self.deferrals) ∧ self.start owner scan =
        ({ self with
            deferred := none, scan := none, failure := some failure, deferrals := deferrals },
          none) := by
  cases scan with
  | ok populated => exact .inl ⟨populated, rfl, rfl⟩
  | error failure =>
    unfold DropPass.start
    by_cases own : self.ownDrop = some owner
    · cases defers : (self.deferrals.defer owner failure).2 with
      | true => exact .inr (.inl ⟨failure, rfl, own, defers, by simp [own, defers]⟩)
      | false =>
        refine .inr (.inr ⟨failure, (self.deferrals.defer owner failure).1, rfl,
          fun _ => ScanDeferrals.defer_refused defers, fun other => absurd own other, ?_⟩)
        simp [own, defers]
    · refine .inr (.inr ⟨failure, self.deferrals, rfl, fun same => absurd same own,
        fun _ => rfl, ?_⟩)
      simp [own]

/-- A read that is not deferred is answered from the pass it leaves. -/
theorem DropPass.read_served :
    (∃ failure, (self.read owner slot scan value).2 = .deferred failure) ∨
      (self.read owner slot scan value).2 =
        (self.read owner slot scan value).1.answer owner slot value := by
  unfold DropPass.read
  split
  · cases refused : (self.start owner scan).2 with
    | some failure => exact .inl ⟨failure, rfl⟩
    | none => exact .inr rfl
  · exact .inr rfl

theorem DropPass.answer_ne_deferred (failure : RecordError) :
    self.answer owner slot value ≠ .deferred failure := by
  unfold DropPass.answer
  split
  · exact nofun
  · split <;> exact nofun

theorem DropPass.answer_skipped :
    self.answer owner slot value = .skipped ↔
      self.deferred = some owner ∨ self.skips owner slot = true := by
  unfold DropPass.answer
  split
  next deferred => simp [deferred]
  next going =>
    split
    next skips => simp [skips]
    next reads => simp [going, reads]

theorem DropPass.skips_iff :
    self.skips owner slot = true ↔
      ∃ found, self.scan = some found ∧ found.owner = owner ∧
        found.populated[slot]? = some false := by
  unfold DropPass.skips
  rw [Option.any_eq_true]
  refine exists_congr fun found => and_congr_right fun _ => ?_
  rw [Bool.and_eq_true, DropScan.covers, decide_eq_true_eq, DropScan.needsGet]
  refine and_congr_right fun _ => ?_
  cases found.populated[slot]? with
  | none => simp
  | some populated => cases populated <;> simp

end

/-! ## What a call keeps -/

variable {own : Option D} {s : Log D V} {e : Event D V} {past : List (Event D V)} {owner : D}

omit [DecidableEq D] in
theorem Event.starts_pass (idle : e.starts = false) : e.pass = none := by
  simpa [Event.starts] using idle

omit [DecidableEq D] in
theorem Event.settles_starts (settles : e.settles = true) : e.starts = true := by
  simp only [Event.settles, Bool.and_eq_true] at settles
  exact settles.1

omit [DecidableEq D] in
theorem Event.settles_idle (idle : e.starts = false) : e.settles = false := by
  simp [Event.settles, idle]

omit [DecidableEq D] in
theorem Event.settles_of_not_deferred (starts : e.starts = true) (not_ : e.deferral = none) :
    e.settles = true := by
  simp [Event.settles, starts, not_]

omit [DecidableEq D] in
theorem Event.deferred_of_unsettled (starts : e.starts = true) (unsettled : ¬e.settles = true) :
    ∃ failure, e.deferral = some failure := by
  cases deferral : e.deferral with
  | none => exact absurd (Event.settles_of_not_deferred starts deferral) unsettled
  | some failure => exact ⟨failure, rfl⟩

theorem trailing_idle (idle : e.starts = false) : trailing owner (e :: past) = trailing owner past := by
  simp [trailing, Event.starts_pass idle]

theorem trailing_other {other : D} (over_ : e.pass = some other) (differ : owner ≠ other) :
    trailing owner (e :: past) = trailing owner past := by
  simp [trailing, over_, differ.symm]

theorem trailing_settled (over_ : e.pass = some owner) (not_ : e.deferral = none) :
    trailing owner (e :: past) = [] := by
  simp [trailing, over_, not_]

theorem trailing_deferred (over_ : e.pass = some owner) {failure : RecordError}
    (deferral : e.deferral = some failure) :
    trailing owner (e :: past) = e :: trailing owner past := by
  simp [trailing, over_, deferral]

omit [DecidableEq D] in
theorem proper_of_not_deferred (not_ : e.deferral = none) : Proper own e :=
  fun failure deferral => by simp [not_] at deferral

/-- A call that starts no pass and forgets no scan. -/
theorem Traced.idle (h : Traced own s) (starts : e.starts = false) (not_ : e.deferral = none)
    (forgets : ∀ owner, e.forgets owner = false) {after : DropPass D}
    (ownDrop : after.ownDrop = s.pass.ownDrop) (scan : after.scan = s.pass.scan)
    (deferred : after.deferred = s.pass.deferred) (deferrals : after.deferrals = s.pass.deferrals) :
    Traced own ⟨after, e :: s.past⟩ where
  ownDrop := ownDrop.trans h.ownDrop
  scan := by
    rw [heldScan, held_idle (Event.settles_idle starts) fun found => forgets found.owner]
    exact scan.trans h.scan
  deferred := by
    rw [heldDeferral, held_idle starts forgets]
    exact deferred.trans h.deferred
  proper := List.forall_mem_cons.2 ⟨proper_of_not_deferred not_, h.proper⟩
  count := fun owner same => by
    rw [trailing_idle starts, deferrals]
    exact h.count owner same

/-- The scan and the deferral of a drop are forgotten. -/
theorem Traced.forget (h : Traced own s) (starts : e.starts = false) (not_ : e.deferral = none)
    (forgets : ∀ other, e.forgets other = decide (owner = other)) :
    Traced own ⟨s.pass.forget owner, e :: s.past⟩ where
  ownDrop := h.ownDrop
  scan := by
    rw [heldScan, held_kept (Event.settles_idle starts), ← heldScan, ← h.scan]
    unfold DropPass.forget DropScan.covers
    cases s.pass.scan with
    | none => rfl
    | some found =>
      by_cases same : found.owner = owner
      · simp [forgets, same, Option.filter]
      · simp [forgets, same, Ne.symm same, Option.filter]
  deferred := by
    rw [heldDeferral, held_kept starts, ← heldDeferral, ← h.deferred]
    unfold DropPass.forget
    cases s.pass.deferred with
    | none => rfl
    | some other =>
      by_cases same : other = owner
      · simp [forgets, same, Option.filter]
      · simp [forgets, same, Ne.symm same, Option.filter]
  proper := List.forall_mem_cons.2 ⟨proper_of_not_deferred not_, h.proper⟩
  count := fun owner same => by
    rw [trailing_idle starts]
    exact h.count owner same

/-- A pass that starts and is not deferred. -/
theorem Traced.settled (h : Traced own s) (owner : D) (over_ : e.pass = some owner) (not_ : e.deferral = none)
    {after : DropPass D} (ownDrop : after.ownDrop = s.pass.ownDrop) (scan : after.scan = e.found)
    (deferred : after.deferred = none)
    (answered : own = some owner → after.deferrals = s.pass.deferrals.answered owner)
    (kept : ∀ other, own = some other → other ≠ owner →
      after.deferrals.count other = s.pass.deferrals.count other) :
    Traced own ⟨after, e :: s.past⟩ where
  ownDrop := ownDrop.trans h.ownDrop
  scan := by
    have settles : e.settles = true := Event.settles_of_not_deferred (by simp [Event.starts, over_]) not_
    rw [heldScan, held_set settles]
    exact scan
  deferred := by
    rw [heldDeferral, held_set (by simp [Event.starts, over_])]
    simpa [not_] using deferred
  proper := List.forall_mem_cons.2 ⟨proper_of_not_deferred not_, h.proper⟩
  count := fun other same => by
    by_cases this : other = owner
    · subst this
      rw [trailing_settled over_ not_, answered same, ScanDeferrals.count_answered, if_pos rfl]
      exact ⟨rfl, Nat.zero_le _⟩
    · rw [trailing_other over_ this, kept other same this]
      exact h.count other same

/-- A pass that is deferred. -/
theorem Traced.passDeferred (h : Traced own s) (owner : D) {failure : RecordError}
    (over_ : e.pass = some owner) (failed : e.failed = some failure)
    (deferral : e.deferral = some failure) (same : s.pass.ownDrop = some owner)
    (defers : (s.pass.deferrals.defer owner failure).2 = true) :
    Traced own ⟨{ s.pass with
      deferred := some owner, deferrals := (s.pass.deferrals.defer owner failure).1 },
      e :: s.past⟩ where
  ownDrop := h.ownDrop
  scan := by
    have keeps : e.settles = false := by simp [Event.settles, deferral]
    have forgets : ∀ found : DropScan D, e.forgets found.owner = false := by
      intro found
      unfold Event.forgets
      unfold Event.pass at over_
      cases call : e.call with
      | readDropSlot => rfl
      | eraseDropSlot => rfl
      | takeScanFailure => rfl
      | writeDropSlot => simp [call] at over_
      | forget => simp [call] at over_
    rw [heldScan, held_idle keeps forgets]
    exact h.scan
  deferred := by
    rw [heldDeferral, held_set (by simp [Event.starts, over_])]
    simp [deferral, over_]
  proper := by
    refine List.forall_mem_cons.2 ⟨fun reason found => ?_, h.proper⟩
    obtain rfl : failure = reason := Option.some.inj (deferral.symm.trans found)
    exact ⟨by simp [Event.starts, over_], over_.trans (same.symm.trans h.ownDrop), failed⟩
  count := fun other mine => by
    obtain rfl : other = owner := Option.some.inj (mine.symm.trans (h.ownDrop.symm.trans same))
    obtain ⟨below, more⟩ := ScanDeferrals.defer_deferred other defers
    rw [trailing_deferred over_ deferral, more, if_pos rfl, (h.count other mine).1]
    refine ⟨rfl, ?_⟩
    rw [List.length_cons, ← (h.count other mine).1]
    exact below

omit [DecidableEq D] in
theorem Event.deferral_answered {call : Call D V} {served : Served V}
    (answered : ∀ failure, served ≠ .deferred failure) :
    Event.deferral ⟨call, some served⟩ = none := by
  cases served with
  | deferred failure => exact absurd rfl (answered failure)
  | skipped => rfl
  | fetched _ => rfl

theorem Traced.read (h : Traced own s) (owner : D) (slot : Nat)
    (scan : Except RecordError (List Bool)) (value : Except RecordError (Option V)) :
    Traced own (s.serve (.readDropSlot owner slot scan value)) := by
  unfold Log.serve DropPass.serve DropPass.read
  by_cases first : slot = 0
  · subst first
    simp only [if_true]
    rcases s.pass.start_cases owner scan with ⟨populated, rfl, started⟩ |
      ⟨failure, rfl, same, defers, started⟩ | ⟨failure, deferrals, rfl, mine, others, started⟩
    · rw [started]
      dsimp only
      refine h.settled owner ?_ ?_ ?_ ?_ ?_ (fun _ => ?_) fun other _ differ => ?_
      · rfl
      · exact Event.deferral_answered DropPass.answer_ne_deferred
      · rfl
      · rfl
      · rfl
      · rfl
      · exact ScanDeferrals.count_answered.trans (if_neg differ)
    · rw [started]
      exact h.passDeferred owner rfl rfl rfl same defers
    · rw [started]
      dsimp only
      refine h.settled owner ?_ ?_ ?_ ?_ ?_ ?_ ?_
      · rfl
      · exact Event.deferral_answered DropPass.answer_ne_deferred
      · rfl
      · rfl
      · rfl
      · exact fun same => mine (h.ownDrop.trans same)
      · intro other same differ
        have theirs : s.pass.ownDrop ≠ some owner := by
          rw [h.ownDrop, same]
          exact fun eq => differ (Option.some.inj eq)
        exact congrArg (·.count other) (others theirs)
  · simp only [if_neg first]
    exact h.idle (by simp [Event.starts, Event.pass, first])
      (Event.deferral_answered DropPass.answer_ne_deferred) (fun _ => rfl) rfl rfl rfl rfl

theorem Traced.serve (h : Traced own s) (call : Call D V) : Traced own (s.serve call) := by
  cases call with
  | readDropSlot owner slot scan value => exact h.read owner slot scan value
  | writeDropSlot owner shapes =>
    cases shapes with
    | true => exact h.forget rfl rfl fun other => by simp [Event.forgets]
    | false => exact h.idle rfl rfl (fun _ => rfl) rfl rfl rfl rfl
  | eraseDropSlot => exact h.idle rfl rfl (fun _ => rfl) rfl rfl rfl rfl
  | forget owner => exact h.forget rfl rfl fun other => rfl
  | takeScanFailure => exact h.idle rfl rfl (fun _ => rfl) rfl rfl rfl rfl

theorem traced_new (own : Option D) : Traced (V := V) own { pass := { ownDrop := own } } where
  ownDrop := rfl
  scan := rfl
  deferred := rfl
  proper := fun _ h => absurd h List.not_mem_nil
  count := fun _ _ => ⟨rfl, Nat.zero_le _⟩

theorem log_snoc (own : Option D) (calls : List (Call D V)) (call : Call D V) :
    log own (calls ++ [call]) = (log own calls).serve call := by
  rw [log, List.foldl_append]
  rfl

/-- After any calls the pass holds what they tell. -/
theorem log_traced (own : Option D) (calls : List (Call D V)) : Traced own (log own calls) := by
  induction calls using List.reverseRecOn with
  | nil => exact traced_new own
  | append_singleton before call ih =>
    rw [log_snoc]
    exact ih.serve call

/-! ## What a read is answered from -/

/-- The scan of the last slot-0 read is of the drop, was not forgotten since, and
reported the slot empty. -/
def Scanned (past : List (Event D V)) (owner : D) (slot : Nat) : Prop :=
  ∃ found, held Event.starts Event.found (fun e found => e.forgets found.owner) past = some found ∧
    found.owner = owner ∧ found.populated[slot]? = some false

/-- The drop is this side's own, and the last slot-0 read was of it and returned
the failure of its scan; nor was the drop forgotten since. -/
def PassDeferred (own : Option D) (past : List (Event D V)) (owner : D) : Prop :=
  own = some owner ∧ ∃ e failure, past.find? Event.starts = some e ∧ e.pass = some owner ∧
    e.failed = some failure ∧ e.served = some (.deferred failure) ∧
      ∀ x ∈ past.takeWhile fun x => !x.starts, x.forgets owner = false

/-- The last slot-0 read was deferred, and the scan held from the passes before
it is of this other drop and reports the slot empty. -/
def HeldOver (own : Option D) (past : List (Event D V)) (owner : D) (slot : Nat) : Prop :=
  own ≠ some owner ∧ slot ≠ 0 ∧
    (∃ e, past.find? Event.starts = some e ∧ e.deferral.isSome = true) ∧
    ∃ found, heldScan past = some found ∧ found.owner = owner ∧
      found.populated[slot]? = some false

/-- The log after one read more. -/
def Log.read (s : Log D V) (owner : D) (slot : Nat) (scan : Except RecordError (List Bool))
    (value : Except RecordError (Option V)) : Log D V :=
  s.serve (.readDropSlot owner slot scan value)

/-- The read returns empty and has not fetched the slot. -/
def Hides (s : Log D V) (owner : D) (slot : Nat) (scan : Except RecordError (List Bool))
    (value : Except RecordError (Option V)) : Prop :=
  (s.pass.read owner slot scan value).2 = .skipped

omit [DecidableEq D] in
theorem Event.deferral_served {failure : RecordError} (deferral : e.deferral = some failure) :
    e.served = some (.deferred failure) := by
  unfold Event.deferral at deferral
  split at deferral
  next served => rw [served, Option.some.inj deferral]
  · simp at deferral

omit [DecidableEq D] in
theorem Event.found_pass {found : DropScan D} (scanned : e.found = some found) :
    e.pass = some found.owner ∧ e.failed = none := by
  unfold Event.found at scanned
  unfold Event.pass Event.failed
  split at scanned
  next call =>
    split at scanned
    next first =>
      obtain rfl := Option.some.inj scanned
      simp [call, first]
    · simp at scanned
  · simp at scanned

theorem heldDeferral_eq_some (h : Traced own s) :
    heldDeferral s.past = some owner → PassDeferred own s.past owner := by
  intro still
  obtain ⟨e, newest, set, kept⟩ := held_eq_some.1 still
  split at set
  next deferred =>
    obtain ⟨failure, deferral⟩ := Option.isSome_iff_exists.1 deferred
    obtain ⟨_, mine, failed⟩ := h.proper e (List.mem_of_find?_eq_some newest) failure deferral
    exact ⟨mine.symm.trans set, e, failure, newest, set, failed, Event.deferral_served deferral, kept⟩
  · simp at set

theorem hides_iff {slot : Nat} {scan : Except RecordError (List Bool)}
    {value : Except RecordError (Option V)} :
    Hides s owner slot scan value →
      (s.read owner slot scan value).pass.deferred = some owner ∨
        (s.read owner slot scan value).pass.skips owner slot = true := by
  intro hidden
  unfold Hides at hidden
  rcases s.pass.read_served (V := V) with ⟨failure, deferred⟩ | answered
  · exact absurd (deferred.symm.trans hidden) nofun
  · exact DropPass.answer_skipped.1 (answered.symm.trans hidden)

theorem read_later (owner : D) {slot : Nat} (later : slot ≠ 0) (scan : Except RecordError (List Bool))
    (value : Except RecordError (Option V)) :
    (s.read owner slot scan value).pass = s.pass ∧
      ∃ e, (s.read owner slot scan value).past = e :: s.past ∧ e.starts = false ∧
        ∀ other, e.forgets other = false := by
  refine ⟨by simp [Log.read, Log.serve, DropPass.serve, DropPass.read, later], _, rfl, ?_, fun _ => rfl⟩
  simp [Event.starts, Event.pass, later]

theorem hides_of_heldOver (h : Traced own s) {slot : Nat} (over_ : HeldOver own s.past owner slot)
    (scan : Except RecordError (List Bool)) (value : Except RecordError (Option V)) :
    Hides s owner slot scan value := by
  obtain ⟨_, later, _, found, still, covers, empty⟩ := over_
  unfold Hides DropPass.read
  rw [if_neg later]
  exact DropPass.answer_skipped.2 (.inr (DropPass.skips_iff.2
    ⟨found, h.scan.trans still, covers, empty⟩))

theorem not_explained_of_heldOver (h : Traced own s) {slot : Nat}
    (over_ : HeldOver own s.past owner slot) (scan : Except RecordError (List Bool))
    (value : Except RecordError (Option V)) :
    ¬(Scanned (s.read owner slot scan value).past owner slot ∨
      PassDeferred own (s.read owner slot scan value).past owner) := by
  obtain ⟨other, later, ⟨last, newest, deferred⟩, _⟩ := over_
  obtain ⟨_, e, more, idle, forgets⟩ := read_later (s := s) owner later scan value
  rintro (⟨found, still, _⟩ | ⟨mine, _⟩)
  · rw [more, held_idle idle fun _ => forgets _] at still
    obtain ⟨x, newest', scanned, _⟩ := held_eq_some.1 still
    obtain rfl : last = x := Option.some.inj (newest.symm.trans newest')
    obtain ⟨failure, deferral⟩ := Option.isSome_iff_exists.1 deferred
    obtain ⟨_, _, failed⟩ := h.proper last (List.mem_of_find?_eq_some newest) failure deferral
    simp [(Event.found_pass scanned).2] at failed
  · exact other mine

theorem explained_of_not_heldOver (h : Traced own s) {slot : Nat}
    {scan : Except RecordError (List Bool)} {value : Except RecordError (Option V)}
    (not_ : ¬HeldOver own s.past owner slot) (hidden : Hides s owner slot scan value) :
    Scanned (s.read owner slot scan value).past owner slot ∨
      PassDeferred own (s.read owner slot scan value).past owner := by
  have after : Traced own (s.read owner slot scan value) := h.read owner slot scan value
  rcases hides_iff hidden with deferred | skips
  · exact .inr (heldDeferral_eq_some after (after.deferred.symm.trans deferred))
  · obtain ⟨found, still, covers, empty⟩ := DropPass.skips_iff.1 skips
    rw [after.scan] at still
    by_cases settled : ∀ x ∈ (s.read owner slot scan value).past.find? Event.starts, x.settles = true
    · refine .inl ⟨found, ?_, covers, empty⟩
      rw [← held_narrower (fun x => Event.settles_starts) settled]
      exact still
    · simp only [not_forall] at settled
      obtain ⟨last, newest, unsettled⟩ := settled
      have starts := List.find?_some newest
      obtain ⟨failure, deferral⟩ := Event.deferred_of_unsettled starts unsettled
      have deferred : last.deferral.isSome = true := Option.isSome_of_eq_some deferral
      obtain ⟨_, mine, _⟩ := after.proper last (List.mem_of_find?_eq_some newest) failure deferral
      by_cases same : own = some owner
      · refine .inr (heldDeferral_eq_some after (held_wider (fun x => Event.settles_starts) still
          (fun x forgets => covers ▸ forgets) newest ?_))
        rw [if_pos deferred, mine, same]
      · refine absurd ?_ not_
        have later : slot ≠ 0 := by
          rintro rfl
          obtain rfl := Option.some.inj newest
          exact same mine.symm
        obtain ⟨_, e, more, idle, forgets⟩ := read_later (s := s) owner later scan value
        rw [more] at newest still
        refine ⟨same, later, ⟨last, by simpa [idle] using newest, deferred⟩, found, ?_, covers, empty⟩
        rw [← still, heldScan, heldScan, held_idle (Event.settles_idle idle) fun _ => forgets _]

/-! ## Passes in a row -/

/-- The passes over one drop, the newest first. -/
def passes (owner : D) (past : List (Event D V)) : List (Event D V) :=
  past.filter fun e => decide (e.pass = some owner)

/-- At most so many passes in a row are deferred. -/
def FewInARow (owner : D) (past : List (Event D V)) : Prop :=
  ∀ row, row <:+: passes owner past → (∀ e ∈ row, e.deferral.isSome = true) →
    row.length ≤ scanDeferrals

theorem fewInARow_of_trailing (few : FewInARow owner past)
    (now : (trailing owner (e :: past)).length ≤ scanDeferrals) :
    FewInARow owner (e :: past) := by
  intro row inside deferred
  by_cases over_ : e.pass = some owner
  · have more : passes owner (e :: past) = e :: passes owner past := by simp [passes, over_]
    rw [more, List.infix_cons_iff, ← more] at inside
    rcases inside with ⟨rest, first⟩ | earlier
    · have kept : trailing owner (e :: past) = row ++ rest.takeWhile (·.deferral.isSome) := by
        rw [trailing, ← passes, ← first]
        exact List.takeWhile_append_of_pos deferred
      rw [kept, List.length_append] at now
      omega
    · exact few row earlier deferred
  · have same : passes owner (e :: past) = passes owner past := by simp [passes, over_]
    exact few row (same ▸ inside) deferred

theorem fewInARow_other (h : Traced own s) (other : own ≠ some owner) :
    FewInARow owner s.past := by
  intro row inside deferred
  cases row with
  | nil => exact Nat.zero_le _
  | cons e rest =>
    have mem : e ∈ passes owner s.past := inside.subset (List.mem_cons_self ..)
    obtain ⟨held, over_⟩ := List.mem_filter.1 mem
    obtain ⟨failure, deferral⟩ := Option.isSome_iff_exists.1 (deferred e (List.mem_cons_self ..))
    exact absurd ((h.proper e held failure deferral).2.1.symm.trans (of_decide_eq_true over_)) other

theorem few_in_a_row (own : Option D) (calls : List (Call D V)) (owner : D) :
    FewInARow owner (log own calls).past := by
  by_cases mine : own = some owner
  · induction calls using List.reverseRecOn with
    | nil =>
      intro row inside _
      rw [List.infix_nil.1 inside]
      exact Nat.zero_le _
    | append_singleton before call ih =>
      have now := ((log_traced own (before ++ [call])).count owner mine).2
      rw [log_snoc] at now ⊢
      exact fewInARow_of_trailing ih now
  · exact fewInARow_other (log_traced own calls) mine

/-! ## After a write -/

/-- A slot-0 read of the drop whose scan answers the read empty, or failed and deferred the pass. -/
def Answers (own : Option D) (owner : D) (slot : Nat) (e : Event D V) : Prop :=
  (∃ populated, e.found = some ⟨owner, populated⟩ ∧ populated[slot]? = some false) ∨
    own = some owner ∧ e.pass = some owner ∧ e.deferral.isSome = true

/-- What answers a read was scanned after every write of a hello to the drop. -/
theorem answered_after_write (h : Traced own s) {slot : Nat}
    {scan : Except RecordError (List Bool)} {value : Except RecordError (Option V)}
    (hidden : Hides s owner slot scan value) {after before : List (Event D V)}
    (wrote : e.call = .writeDropSlot owner true)
    (since : (s.read owner slot scan value).past = after ++ e :: before) :
    ∃ x ∈ after, Answers own owner slot x := by
  have traced : Traced own (s.read owner slot scan value) := h.read owner slot scan value
  have forgets : e.forgets owner = true := by simp [Event.forgets, wrote]
  have idle : e.starts = false := by simp [Event.starts, Event.pass, wrote]
  rcases hides_iff hidden with deferred | skips
  · rw [traced.deferred, since, heldDeferral] at deferred
    obtain ⟨x, later, _, set⟩ := held_since deferred forgets idle
    split at set
    next deferral =>
      obtain ⟨failure, reason⟩ := Option.isSome_iff_exists.1 deferral
      have mem : x ∈ (s.read owner slot scan value).past := since ▸ List.mem_append_left _ later
      exact ⟨x, later, .inr ⟨(traced.proper x mem failure reason).2.1.symm.trans set, set, deferral⟩⟩
    · simp at set
  · obtain ⟨found, still, rfl, empty⟩ := DropPass.skips_iff.1 skips
    rw [traced.scan, since, heldScan] at still
    obtain ⟨x, later, _, set⟩ := held_since still forgets (Event.settles_idle idle)
    exact ⟨x, later, .inl ⟨found.populated, set, empty⟩⟩

/-! ## The reads of any run -/

/-- A read is answered empty without a fetch from the scan of its own pass or
since that was deferred, except exactly where a slot of another drop is read
from the scan that a deferred pass left in place; no more passes in a row are
deferred than that; and what answers a read was scanned after every write of a
hello to the drop. -/
theorem drop_scan_hides (own : Option D) (calls : List (Call D V)) :
    (∀ owner slot scan value,
      (Hides (log own calls) owner slot scan value →
        Scanned ((log own calls).read owner slot scan value).past owner slot ∨
          PassDeferred own ((log own calls).read owner slot scan value).past owner) ↔
        ¬HeldOver own (log own calls).past owner slot) ∧
    (∀ owner, FewInARow owner (log own calls).past) ∧
    ∀ owner slot scan value after e before, Hides (log own calls) owner slot scan value →
      e.call = .writeDropSlot owner true →
      ((log own calls).read owner slot scan value).past = after ++ e :: before →
      ∃ x ∈ after, Answers own owner slot x := by
  have traced := log_traced own calls
  refine ⟨fun owner slot scan value => ⟨fun explained over_ => ?_, fun not_ => ?_⟩,
    few_in_a_row own calls, ?_⟩
  · exact not_explained_of_heldOver traced over_ scan value
      (explained (hides_of_heldOver traced over_ scan value))
  · exact explained_of_not_heldOver traced not_
  · intro owner slot scan value after e before hidden wrote since
    exact answered_after_write traced hidden wrote since

/-- A scan of drop 2 finds slot 1 empty, the pass over the own drop is deferred,
and slot 1 of drop 2 is answered from the scan of the pass before. -/
theorem stale_scan_hides :
    let s : Log Nat Unit := log (some 1) [
      .readDropSlot 2 0 (.ok [true, false]) (.ok (some ())),
      .readDropSlot 1 0 (.error (.network ⟨true, "inspect"⟩)) (.ok none)]
    Hides s 2 1 (.ok []) (.ok (some ())) ∧
      ¬(Scanned (s.read 2 1 (.ok []) (.ok (some ()))).past 2 1 ∨
        PassDeferred (some 1) (s.read 2 1 (.ok []) (.ok (some ()))).past 2) := by
  refine ⟨rfl, ?_⟩
  rintro (⟨found, still, _⟩ | ⟨mine, _⟩)
  · cases still
  · cases mine

end Daemonseed.Dm.Scans
