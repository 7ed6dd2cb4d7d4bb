import Mathlib
import Daemonseed.Lib.Stamped

/-! # Whether somebody is there

One party's writes and leaves, each stamped by its own clock, in whatever order
they come: the newest stamp decides, and a leave beats a write of its stamp.
What has not been heard of for long is forgotten; that is safe where nothing as
old as what is forgotten is taken any more. -/
namespace Daemonseed.Lib.Attendance
open Daemonseed.Lib.Stamped

/-- What is known of the party, and when it was heard. -/
inductive Standing (S T : Type)
  | unheard
  | here (newest : S) (heard : T)
  | gone (left : S) (heard : T)
  deriving DecidableEq

variable {S T : Type} [LinearOrder S]

namespace Standing

def writes (x : Standing S T) (s : S) (t : T) : Standing S T :=
  match x with
  | unheard => here s t
  | here newest _ => if s < newest then x else here s t
  | gone left _ => if s ≤ left then x else here s t

def leaves (x : Standing S T) (s : S) (t : T) : Standing S T :=
  match x with
  | unheard => gone s t
  | here newest _ => if s < newest then x else gone s t
  | gone left _ => if left ≤ s then gone s t else x

def ages (x : Standing S T) (alive : T → Bool) : Standing S T :=
  match x with
  | unheard => unheard
  | here _ heard => if alive heard then x else unheard
  | gone _ heard => if alive heard then x else unheard

def Here : Standing S T → Prop
  | here _ _ => True
  | _ => False

/-- The stamp everything new is measured against. -/
def bound : Standing S T → WithBot S
  | unheard => ⊥
  | here newest _ => newest
  | gone left _ => left

variable {x : Standing S T} {s s' : S} {t : T}

@[simp] theorem writes_bound : (x.writes s t).bound = max x.bound s := by
  cases x with
  | unheard => simp [writes, bound]
  | here newest heard =>
    by_cases h : s < newest
    · simp [writes, bound, h, le_of_lt h]
    · simp [writes, bound, h, not_lt.1 h]
  | gone left heard =>
    by_cases h : s ≤ left
    · simp [writes, bound, h]
    · simp [writes, bound, h, le_of_lt (not_le.1 h)]

@[simp] theorem leaves_bound : (x.leaves s t).bound = max x.bound s := by
  cases x with
  | unheard => simp [leaves, bound]
  | here newest heard =>
    by_cases h : s < newest
    · simp [leaves, bound, h, le_of_lt h]
    · simp [leaves, bound, h, not_lt.1 h]
  | gone left heard =>
    by_cases h : left ≤ s
    · simp [leaves, bound, h]
    · simp [leaves, bound, h, le_of_lt (not_le.1 h)]

/-- A write not above the bound brings nobody back. -/
theorem writes_old (old : (s : WithBot S) ≤ x.bound) (away : ¬ x.Here) :
    ¬ (x.writes s t).Here := by
  cases x with
  | unheard => simp [bound] at old
  | here newest heard => exact absurd trivial away
  | gone left heard =>
    have old : s ≤ left := WithBot.coe_le_coe.1 old
    simpa [writes, old] using away

variable {n : S} {heard : T}

theorem writes_here (h : x.writes s t = here n heard) :
    x = here n heard ∨ n = s ∧ heard = t := by
  unfold writes at h
  split at h
  · cases h
    exact .inr ⟨rfl, rfl⟩
  · split at h
    · exact .inl h
    · cases h
      exact .inr ⟨rfl, rfl⟩
  · split at h
    · exact .inl h
    · cases h
      exact .inr ⟨rfl, rfl⟩

theorem leaves_here (h : x.leaves s t = here n heard) : x = here n heard := by
  unfold leaves at h
  split at h
  · cases h
  · split at h
    · exact h
    · cases h
  · split at h
    · cases h
    · exact h

omit [LinearOrder S] in
theorem ages_here {alive : T → Bool} (h : x.ages alive = here n heard) :
    x = here n heard ∧ alive heard = true := by
  unfold ages at h
  split at h
  · cases h
  · split at h
    · rename_i kept
      cases h
      exact ⟨rfl, kept⟩
    · cases h
  · split at h
    · cases h
    · cases h

/-! ## Whatever the order -/

/-- The newest of the party's writes and the newest of its leaves, as the
standing shows them. -/
inductive Reflects : Standing S T → WithBot S → WithBot S → Prop
  | unheard : Reflects unheard ⊥ ⊥
  | here {newest : S} {heard : T} {left : WithBot S} (later : left < newest) :
      Reflects (here newest heard) newest left
  | gone {left : S} {heard : T} {newest : WithBot S} (covered : newest ≤ left) :
      Reflects (gone left heard) newest left

variable {newest left : WithBot S}

theorem Reflects.here_iff (h : Reflects x newest left) : x.Here ↔ left < newest := by
  cases h with
  | unheard => simp [Here]
  | here later => simpa [Here] using later
  | gone covered => simpa [Here] using covered

theorem Reflects.writes (h : Reflects x newest left) :
    Reflects (x.writes s t) (max newest s) left := by
  cases h with
  | unheard =>
    rw [max_eq_right bot_le]
    exact .here (WithBot.bot_lt_coe s)
  | @here n heard _ later =>
    show Reflects (if s < n then .here n heard else .here s t) _ _
    split
    · rename_i old
      rw [max_eq_left (WithBot.coe_le_coe.2 (le_of_lt old))]
      exact .here later
    · rename_i fresh
      have fresh : (n : WithBot S) ≤ s := WithBot.coe_le_coe.2 (not_lt.1 fresh)
      rw [max_eq_right fresh]
      exact .here (lt_of_lt_of_le later fresh)
  | @gone l heard _ covered =>
    show Reflects (if s ≤ l then .gone l heard else .here s t) _ _
    split
    · rename_i old
      exact .gone (max_le covered (WithBot.coe_le_coe.2 old))
    · rename_i fresh
      have fresh : (l : WithBot S) < s := WithBot.coe_lt_coe.2 (not_le.1 fresh)
      rw [max_eq_right (le_trans covered (le_of_lt fresh))]
      exact .here fresh

theorem Reflects.leaves (h : Reflects x newest left) :
    Reflects (x.leaves s t) newest (max left s) := by
  cases h with
  | unheard =>
    rw [max_eq_right bot_le]
    exact .gone bot_le
  | @here n heard _ later =>
    show Reflects (if s < n then .here n heard else .gone s t) _ _
    split
    · rename_i old
      exact .here (max_lt later (WithBot.coe_lt_coe.2 old))
    · rename_i fresh
      have fresh : (n : WithBot S) ≤ s := WithBot.coe_le_coe.2 (not_lt.1 fresh)
      rw [max_eq_right (le_trans (le_of_lt later) fresh)]
      exact .gone fresh
  | @gone l heard _ covered =>
    show Reflects (if l ≤ s then .gone s t else .gone l heard) _ _
    split
    · rename_i fresh
      have fresh : (l : WithBot S) ≤ s := WithBot.coe_le_coe.2 fresh
      rw [max_eq_right fresh]
      exact .gone (le_trans covered fresh)
    · rename_i old
      rw [max_eq_left (WithBot.coe_le_coe.2 (le_of_lt (not_le.1 old)))]
      exact .gone covered

/-! ## What is forgotten -/

variable (accepts : T → S → Prop)

/-- What the standing holds was taken when it was heard, and not later than now. -/
def Timely [LE T] (now : T) : Standing S T → Prop
  | unheard => True
  | here newest heard => accepts heard newest ∧ heard ≤ now
  | gone left heard => accepts heard left ∧ heard ≤ now

/-- Nothing stamped `s` or earlier brings the party back: it is not above the
bound, or not taken from now on. -/
def Spent [LE T] (now : T) (x : Standing S T) (s : S) : Prop :=
  (s : WithBot S) ≤ x.bound ∨ ∀ later ≥ now, ∀ s' ≤ s, ¬ accepts later s'

/-- What was heard too long ago to be alive was stamped too long ago to be
taken. -/
def Lapses [LE T] (alive : T → T → Bool) : Prop :=
  ∀ heard now newest, accepts heard newest → heard ≤ now → alive now heard = false →
    ∀ later ≥ now, ∀ s ≤ newest, ¬ accepts later s

section

variable {accepts} [Preorder T] {alive : T → T → Bool} {now later : T}

omit [LinearOrder S] in
theorem Timely.passes (h : x.Timely accepts now) (le : now ≤ later) : x.Timely accepts later := by
  cases x with
  | unheard => trivial
  | here newest heard => exact ⟨h.1, le_trans h.2 le⟩
  | gone left heard => exact ⟨h.1, le_trans h.2 le⟩

theorem Timely.writes (h : x.Timely accepts now) (taken : accepts now s) :
    (x.writes s now).Timely accepts now := by
  unfold Standing.writes
  split
  · exact ⟨taken, le_refl now⟩
  · split
    · exact h
    · exact ⟨taken, le_refl now⟩
  · split
    · exact h
    · exact ⟨taken, le_refl now⟩

theorem Timely.leaves (h : x.Timely accepts now) (taken : accepts now s) :
    (x.leaves s now).Timely accepts now := by
  unfold Standing.leaves
  split
  · exact ⟨taken, le_refl now⟩
  · split
    · exact h
    · exact ⟨taken, le_refl now⟩
  · split
    · exact ⟨taken, le_refl now⟩
    · exact h

omit [LinearOrder S] in
theorem Timely.ages (h : x.Timely accepts now) (keep : T → Bool) :
    (x.ages keep).Timely accepts now := by
  unfold Standing.ages
  split
  · trivial
  · split
    · exact h
    · trivial
  · split
    · exact h
    · trivial

theorem Spent.passes (h : x.Spent accepts now s) (le : now ≤ later) : x.Spent accepts later s :=
  h.imp_right fun spent t after => spent t (le_trans le after)

theorem Spent.writes (h : x.Spent accepts now s) : (x.writes s' t).Spent accepts now s := by
  refine h.imp_left fun old => ?_
  rw [writes_bound]
  exact le_trans old (le_max_left _ _)

theorem Spent.leaves (h : x.Spent accepts now s) : (x.leaves s' t).Spent accepts now s := by
  refine h.imp_left fun old => ?_
  rw [leaves_bound]
  exact le_trans old (le_max_left _ _)

theorem spent_writes : (x.writes s t).Spent accepts now s := by
  refine .inl ?_
  rw [writes_bound]
  exact le_max_right _ _

theorem spent_leaves : (x.leaves s t).Spent accepts now s := by
  refine .inl ?_
  rw [leaves_bound]
  exact le_max_right _ _

/-- What is forgotten need not be known. -/
theorem Spent.ages (lapses : Lapses accepts alive) (timely : x.Timely accepts now)
    (h : x.Spent accepts now s) : (x.ages (alive now)).Spent accepts now s := by
  rcases h with old | spent
  · cases x with
    | unheard => exact .inl old
    | here newest heard =>
      cases kept : alive now heard with
      | true => exact .inl (by simpa [Standing.ages, kept] using old)
      | false =>
        have old : s ≤ newest := WithBot.coe_le_coe.1 old
        exact .inr fun t after s' le =>
          lapses heard now newest timely.1 timely.2 kept t after s' (le_trans le old)
    | gone left heard =>
      cases kept : alive now heard with
      | true => exact .inl (by simpa [Standing.ages, kept] using old)
      | false =>
        have old : s ≤ left := WithBot.coe_le_coe.1 old
        exact .inr fun t after s' le =>
          lapses heard now left timely.1 timely.2 kept t after s' (le_trans le old)
  · exact .inr spent

/-- A spent write that is taken brings nobody back. -/
theorem Spent.away (h : x.Spent accepts now s) (le : s' ≤ s) (taken : accepts now s')
    (away : ¬ x.Here) : ¬ (x.writes s' now).Here := by
  rcases h with old | spent
  · exact writes_old (le_trans (WithBot.coe_le_coe.2 le) old) away
  · exact absurd taken (spent now (le_refl now) s' le)

end

end Standing

end Daemonseed.Lib.Attendance
