import Daemonseed.Lib.Maps

/-! # The imported routes in use

Which route was imported last for each share, how many fetches of the share
are under way, and what may be released now. The guard releases nothing itself:
it hands back the routes that its caller may release. -/
namespace Daemonseed.Room.RouteGuard
open Daemonseed.Lib.Maps

variable {S R : Type}

/-- What is tracked of one share. -/
structure GuardEntry (R : Type) where
  route : Option R
  inFlight : Nat
  pendingRelease : Option R
  withdrawn : Bool
  deriving DecidableEq

namespace GuardEntry

def default : GuardEntry R := ⟨none, 0, none, false⟩

def isEmpty (self : GuardEntry R) : Bool :=
  self.route.isNone && self.inFlight == 0 && self.pendingRelease.isNone

end GuardEntry

structure ImportedRouteGuard (S R : Type) where
  entries : Map S (GuardEntry R)

namespace ImportedRouteGuard

variable [DecidableEq S]

def new : ImportedRouteGuard S R := ⟨∅⟩

def set (self : ImportedRouteGuard S R) (share : S) (entry : GuardEntry R) :
    ImportedRouteGuard S R :=
  ⟨self.entries.insert share entry⟩

/-- The entry set, and dropped where it says nothing. -/
def settle (self : ImportedRouteGuard S R) (share : S) (entry : GuardEntry R) :
    ImportedRouteGuard S R :=
  if entry.isEmpty then ⟨self.entries.erase share⟩ else self.set share entry

def noteFetchStarted (self : ImportedRouteGuard S R) (share : S) : ImportedRouteGuard S R :=
  let entry := (self.entries.lookup share).getD .default
  self.set share { entry with inFlight := entry.inFlight + 1, withdrawn := false }

/-- The routes that may be released, and the guard after a fetch ended. -/
def noteFetchFinished (self : ImportedRouteGuard S R) (share : S) (imported : Option R) :
    List R × ImportedRouteGuard S R :=
  match self.entries.lookup share with
  | none =>
    match imported with
    | some route => ([], self.set share ⟨some route, 0, none, false⟩)
    | none => ([], self)
  | some entry =>
    let inFlight := entry.inFlight - 1
    let route := imported.or entry.route
    if inFlight = 0 then
      let withdrawnRoute := if entry.withdrawn then route else none
      (entry.pendingRelease.toList ++ withdrawnRoute.toList,
        self.settle share
          { entry with
            inFlight := inFlight, pendingRelease := none
            route := if entry.withdrawn then none else route })
    else ([], self.settle share { entry with inFlight := inFlight, route := route })

/-- The share's route was replaced by another one. -/
def noteAdvertReplaced (self : ImportedRouteGuard S R) (share : S) :
    Option R × ImportedRouteGuard S R :=
  match self.entries.lookup share with
  | none => (none, self)
  | some entry =>
    match entry.route with
    | none => (none, self)
    | some superseded =>
      if entry.inFlight = 0 then (some superseded, self.settle share { entry with route := none })
      else
        -- a second one, while the first is held back, is left to the transport
        (none, self.set share
          { entry with route := none, pendingRelease := entry.pendingRelease.or (some superseded) })

def noteShareWithdrawn (self : ImportedRouteGuard S R) (share : S) :
    Option R × ImportedRouteGuard S R :=
  match self.entries.lookup share with
  | none => (none, self)
  | some entry =>
    if entry.inFlight = 0 then (entry.route, ⟨self.entries.erase share⟩)
    else (none, self.set share { entry with withdrawn := true })

/-! ## One share's entry -/

/-- What is tracked of a share, nothing where there is no entry. -/
def entry (self : ImportedRouteGuard S R) (share : S) : GuardEntry R :=
  (self.entries.lookup share).getD .default

end ImportedRouteGuard

namespace GuardEntry

/-- An entry is there for a route or for a fetch, and an idle one holds nothing back. -/
structure Sound (e : GuardEntry R) : Prop where
  idle : e.inFlight = 0 → e.pendingRelease = none ∧ e.withdrawn = false
  tracks : e.route.isSome ∨ 0 < e.inFlight

/-- What a finished fetch gives up: the last one, all that waited for it. -/
def givenUp (e : GuardEntry R) (imported : Option R) : List R :=
  if e.inFlight - 1 = 0 then
    e.pendingRelease.toList ++ (if e.withdrawn then imported.or e.route else none).toList
  else []

/-- What the end of the share gives up, where no fetch is under way. -/
def idleRoute (e : GuardEntry R) : List R := if e.inFlight = 0 then e.route.toList else []

/-- How often the entry holds a route. -/
def holds [DecidableEq R] (r : R) (e : GuardEntry R) : Nat :=
  (e.route.toList ++ e.pendingRelease.toList).count r

theorem isEmpty_iff {e : GuardEntry R} :
    e.isEmpty = true ↔ e.route = none ∧ e.inFlight = 0 ∧ e.pendingRelease = none := by
  simp [isEmpty, and_assoc]

end GuardEntry

namespace ImportedRouteGuard

variable [DecidableEq S]

/-- Every entry is sound. -/
def Kept (self : ImportedRouteGuard S R) : Prop :=
  ∀ share e, self.entries.lookup share = some e → e.Sound

def heldBy [DecidableEq R] (self : ImportedRouteGuard S R) (r : R) : Nat :=
  self.entries.tally (GuardEntry.holds r)

variable {guard : ImportedRouteGuard S R} {share other : S} {e : GuardEntry R}
variable {imported : Option R}

theorem entry_set : (guard.set share e).entry other =
    if other = share then e else guard.entry other := by
  unfold entry set
  split
  · rename_i same
    subst same
    simp
  · rename_i ne
    rw [AList.lookup_insert_ne ne]

theorem entry_settle : (guard.settle share e).entry other =
    if other = share then (if e.isEmpty then .default else e) else guard.entry other := by
  unfold settle
  split
  · unfold entry
    split
    · rename_i same
      subst same
      simp [AList.lookup_erase]
    · rename_i ne
      rw [AList.lookup_erase_ne ne]
  · exact entry_set

theorem kept_set (kept : guard.Kept) (sound : e.Sound) : (guard.set share e).Kept := by
  intro other e' held
  unfold set at held
  by_cases same : other = share
  · subst same
    rw [AList.lookup_insert] at held
    cases held
    exact sound
  · rw [AList.lookup_insert_ne same] at held
    exact kept other e' held

theorem kept_settle (kept : guard.Kept) (sound : e.isEmpty = false → e.Sound) :
    (guard.settle share e).Kept := by
  unfold settle
  split
  · intro other e' held
    by_cases same : other = share
    · subst same
      rw [AList.lookup_erase] at held
      cases held
    · rw [AList.lookup_erase_ne same] at held
      exact kept other e' held
  · rename_i full
    exact kept_set kept (sound (by simpa using full))

theorem entry_sound (kept : guard.Kept) (held : guard.entries.lookup share = some e) :
    guard.entry share = e ∧ e.Sound :=
  ⟨by rw [entry, held]; rfl, kept share e held⟩

section

variable [DecidableEq R] {r : R}

variable (guard share e r) in
theorem heldBy_set :
    (guard.set share e).heldBy r + (guard.entry share).holds r = guard.heldBy r + e.holds r := by
  unfold heldBy set
  rw [Map.tally_insert, Map.tally_erase (m := guard.entries) (k := share)]
  have same : guard.entries.share (GuardEntry.holds r) share = (guard.entry share).holds r := by
    unfold Map.share entry
    cases guard.entries.lookup share <;> rfl
  rw [same]
  omega

variable (guard share e r) in
theorem heldBy_settle :
    (guard.settle share e).heldBy r + (guard.entry share).holds r = guard.heldBy r + e.holds r := by
  unfold settle
  split
  · rename_i empty
    obtain ⟨route, -, pending⟩ := GuardEntry.isEmpty_iff.1 empty
    have none_ : e.holds r = 0 := by simp [GuardEntry.holds, route, pending]
    have same : guard.entries.share (GuardEntry.holds r) share = (guard.entry share).holds r := by
      unfold Map.share entry
      cases guard.entries.lookup share <;> rfl
    have whole : guard.heldBy r = _ := Map.tally_erase (k := share)
    rw [none_, whole, same]
    show Map.tally (guard.entries.erase share) _ + _ = _
    omega
  · exact heldBy_set guard share e r

end

/-! ## What each call does -/

variable (share) in
theorem started_spec (kept : guard.Kept) :
    (guard.noteFetchStarted share).Kept ∧
      (∀ other, ((guard.noteFetchStarted share).entry other).inFlight =
        (guard.entry other).inFlight + if other = share then 1 else 0) ∧
      ∀ [DecidableEq R] (r : R), (guard.noteFetchStarted share).heldBy r = guard.heldBy r := by
  unfold noteFetchStarted
  refine ⟨kept_set kept ⟨fun idle => by simp at idle, .inr (Nat.succ_pos _)⟩, ?_, ?_⟩
  · intro other
    rw [entry_set]
    split
    · rename_i same
      subst same
      rfl
    · rfl
  · intro _ r
    have sum := heldBy_set guard share
      { guard.entry share with inFlight := (guard.entry share).inFlight + 1, withdrawn := false } r
    exact Nat.add_right_cancel sum

theorem counted_entry (counted : 0 < (guard.entry share).inFlight) :
    ∃ e, guard.entries.lookup share = some e ∧ guard.entry share = e := by
  cases held : guard.entries.lookup share with
  | none =>
    rw [entry, held] at counted
    cases counted
  | some e => exact ⟨e, rfl, by rw [entry, held]; rfl⟩

theorem count_or [DecidableEq R] (r : R) (x y : Option R) :
    (x.or y).toList.count r ≤ x.toList.count r + y.toList.count r := by
  cases x with
  | none => simp
  | some a => simp

theorem inFlight_settle {n : Nat} (counts : e.inFlight = n) :
    ((guard.settle share e).entry other).inFlight =
      if other = share then n else (guard.entry other).inFlight := by
  rw [entry_settle]
  split
  · split
    · rename_i empty
      have idle := (GuardEntry.isEmpty_iff.1 empty).2.1
      show 0 = n
      omega
    · exact counts
  · rfl

variable (imported) in
/-- A fetch that was counted ends. -/
theorem finished_spec (kept : guard.Kept) (counted : 0 < (guard.entry share).inFlight) :
    let after := guard.noteFetchFinished share imported
    after.1 = (guard.entry share).givenUp imported ∧ after.2.Kept ∧
      (∀ other, (after.2.entry other).inFlight =
        (guard.entry other).inFlight - if other = share then 1 else 0) ∧
      ∀ [DecidableEq R] (r : R),
        after.1.count r + after.2.heldBy r ≤ guard.heldBy r + imported.toList.count r := by
  obtain ⟨e, held, same⟩ := counted_entry counted
  have fewer : ∀ (e' : GuardEntry R), e'.inFlight = e.inFlight - 1 → ∀ other,
      ((guard.settle share e').entry other).inFlight =
        (guard.entry other).inFlight - if other = share then 1 else 0 := by
    intro e' counts other
    rw [inFlight_settle counts]
    split
    · rename_i own
      rw [own, same]
    · rfl
  unfold noteFetchFinished
  rw [held, same]
  simp only [GuardEntry.givenUp]
  split
  · rename_i last
    refine ⟨rfl, kept_settle kept ?_, fewer _ rfl, ?_⟩
    · intro full
      cases withdrawn : e.withdrawn with
      | true => simp [GuardEntry.isEmpty, withdrawn, last] at full
      | false =>
        refine ⟨fun _ => ⟨rfl, rfl⟩, .inl ?_⟩
        rw [withdrawn] at full
        cases route : imported.or e.route with
        | none => simp [GuardEntry.isEmpty, last, route] at full
        | some r => rfl
    · intro _ r
      have sum := heldBy_settle guard share
        { e with
          inFlight := e.inFlight - 1, pendingRelease := none
          route := if e.withdrawn then none else imported.or e.route } r
      rw [same] at sum
      have some_ := count_or r imported e.route
      simp only [GuardEntry.holds, List.count_append, Option.toList_none, List.count_nil] at sum
      simp only [List.count_append]
      cases withdrawn : e.withdrawn <;> simp only [withdrawn, if_true, Bool.false_eq_true, if_false,
        Option.toList_none, List.count_nil] at sum ⊢ <;> omega
  · rename_i more
    refine ⟨rfl, kept_settle kept ?_, fewer _ rfl, ?_⟩
    · intro _
      exact ⟨fun idle => absurd idle more, .inr (Nat.pos_of_ne_zero more)⟩
    · intro _ r
      have sum := heldBy_settle guard share
        { e with inFlight := e.inFlight - 1, route := imported.or e.route } r
      rw [same] at sum
      have some_ := count_or r imported e.route
      simp only [GuardEntry.holds, List.count_append] at sum
      simp only [List.count_nil]
      omega

variable (share) in
/-- The share's advert is replaced. -/
theorem replaced_spec (kept : guard.Kept) :
    let after := guard.noteAdvertReplaced share
    after.1.toList = (guard.entry share).idleRoute ∧ after.2.Kept ∧
      (∀ other, (after.2.entry other).inFlight = (guard.entry other).inFlight) ∧
      ∀ [DecidableEq R] (r : R), after.1.toList.count r + after.2.heldBy r ≤ guard.heldBy r := by
  unfold noteAdvertReplaced
  cases held : guard.entries.lookup share with
  | none =>
    refine ⟨?_, kept, fun _ => rfl, fun r => by simp⟩
    rw [entry, held]
    rfl
  | some e =>
    obtain ⟨same, sound⟩ := entry_sound kept held
    rw [same]
    dsimp only
    cases route : e.route with
    | none =>
      refine ⟨?_, kept, fun _ => rfl, fun r => by simp⟩
      simp [GuardEntry.idleRoute, route]
    | some superseded =>
      dsimp only
      split
      · rename_i idle
        refine ⟨by simp [GuardEntry.idleRoute, idle, route], kept_settle kept ?_, ?_, ?_⟩
        · intro full
          simp [GuardEntry.isEmpty, idle, (sound.idle idle).1] at full
        · intro other
          show ((guard.settle share _).entry other).inFlight = _
          rw [inFlight_settle (e := { e with route := none }) (n := e.inFlight) rfl]
          split
          · rename_i own
            rw [own, same]
          · rfl
        · intro _ r
          have sum := heldBy_settle guard share
            { e with route := none } r
          rw [same] at sum
          simp only [GuardEntry.holds, List.count_append, route, Option.toList_none,
            List.count_nil] at sum
          dsimp only
          omega
      · rename_i busy
        refine ⟨by simp [GuardEntry.idleRoute, busy], kept_set kept ?_, ?_, ?_⟩
        · exact ⟨fun idle => absurd idle busy, .inr (Nat.pos_of_ne_zero busy)⟩
        · intro other
          rw [entry_set]
          split
          · rename_i own
            rw [own, same]
          · rfl
        · intro _ r
          have sum := heldBy_set guard share
            { e with
              route := none, pendingRelease := e.pendingRelease.or (some superseded) } r
          rw [same] at sum
          have some_ := count_or r e.pendingRelease (some superseded)
          simp only [GuardEntry.holds, List.count_append, route, Option.toList_none,
            List.count_nil] at sum
          simp only [Option.toList_none, List.count_nil]
          omega

variable (share) in
/-- The share is withdrawn. -/
theorem withdrawn_spec (kept : guard.Kept) :
    let after := guard.noteShareWithdrawn share
    after.1.toList = (guard.entry share).idleRoute ∧ after.2.Kept ∧
      (∀ other, (after.2.entry other).inFlight = (guard.entry other).inFlight) ∧
      ∀ [DecidableEq R] (r : R), after.1.toList.count r + after.2.heldBy r ≤ guard.heldBy r := by
  unfold noteShareWithdrawn
  cases held : guard.entries.lookup share with
  | none =>
    refine ⟨?_, kept, fun _ => rfl, fun r => by simp⟩
    rw [entry, held]
    rfl
  | some e =>
    obtain ⟨same, sound⟩ := entry_sound kept held
    rw [same]
    dsimp only
    split
    · rename_i idle
      -- the entry goes, as one does that says nothing
      have gone : (⟨guard.entries.erase share⟩ : ImportedRouteGuard S R) =
          guard.settle share .default := rfl
      rw [gone]
      refine ⟨by simp [GuardEntry.idleRoute, idle], kept_settle kept ?_, ?_, ?_⟩
      · intro full
        cases full
      · intro other
        rw [inFlight_settle (n := 0) rfl]
        split
        · rename_i own
          rw [own, same, idle]
        · rfl
      · intro _ r
        have sum := heldBy_settle guard share .default r
        rw [same] at sum
        have none_ : GuardEntry.holds r (.default : GuardEntry R) = 0 := rfl
        rw [none_] at sum
        simp only [GuardEntry.holds, List.count_append] at sum
        dsimp only
        omega
    · rename_i busy
      refine ⟨by simp [GuardEntry.idleRoute, busy], kept_set kept ?_, ?_, ?_⟩
      · exact ⟨fun idle => absurd idle busy, .inr (Nat.pos_of_ne_zero busy)⟩
      · intro other
        rw [entry_set]
        split
        · rename_i own
          rw [own, same]
        · rfl
      · intro _ r
        have sum := heldBy_set guard share
          { e with withdrawn := true } r
        rw [same] at sum
        simp only [GuardEntry.holds] at sum
        simp only [Option.toList_none, List.count_nil]
        omega

end ImportedRouteGuard

end Daemonseed.Room.RouteGuard
