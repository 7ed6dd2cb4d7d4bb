import Daemonseed.Lib.Runs
import Daemonseed.Net.RouteBudget
import Mathlib.Data.List.Basic

/-! # Route admission

The leases, the permits and the acquires in progress beside the registry they
count in. A wakeup is two moves, as in the code: the registry changes under
its lock, and the waiters are notified after it. An acquire is refused under
the lock too, with its interest registered before. -/
namespace Daemonseed.Net.Admission
open Daemonseed.Net.RouteBudget Daemonseed.Lib.Runs

/-- Where an acquire is in its loop. -/
inductive Phase
  /-- Before it registers its interest. -/
  | entering
  /-- Registered, before it checks. -/
  | enabled
  /-- Refused, and asleep until it is notified. -/
  | waiting
  deriving DecidableEq, Repr

structure Acquire (R : Type) where
  route : R
  phase : Phase
  notified : Bool

/-- The registry and everything that refers to it. A lease or a permit is the
route it is for. -/
structure World (A R : Type) where
  budget : BudgetState R
  leases : List R
  permits : List R
  acquires : A → Option (Acquire R)
  /-- Calls of `notify_waiters` owed. -/
  notifying : Nat

variable {A R : Type}

/-- A notification reaches every acquire that is registered. -/
def Acquire.notify (self : Acquire R) : Acquire R :=
  match self.phase with
  | .entering => self
  | .enabled | .waiting => { self with notified := true }

def World.start : World A R := ⟨.new, [], [], fun _ => none, 0⟩

/-- What happens. -/
inductive Act (A R : Type)
  | lease (route : R) (sharer : SharerKey)
  | begins (a : A) (route : R)
  | enables (a : A)
  | admitted (a : A)
  | refused (a : A)
  | wakes (a : A)
  | cancels (a : A)
  | observe (route : R) (outcome : FragmentOutcome)
  | dropPermit (route : R)
  | dropLease (route : R)
  | notifies

variable [DecidableEq A] [DecidableEq R]

def World.put (w : World A R) (a : A) (acq : Option (Acquire R)) : World A R :=
  { w with acquires := Function.update w.acquires a acq }

/-- One move. An acquire borrows a lease of its route, so one stays while it is
in progress. -/
inductive Steps (d : Nat) : World A R → Act A R → World A R → Prop
  | lease (w : World A R) (r : R) (s : SharerKey) :
      Steps d w (.lease r s) { w with budget := w.budget.lease d r s, leases := r :: w.leases }
  | begins {w : World A R} {a : A} {r : R} (free : w.acquires a = none) (leased : r ∈ w.leases) :
      Steps d w (.begins a r) (w.put a (some ⟨r, .entering, false⟩))
  | enables {w : World A R} {a : A} {acq : Acquire R} (at_ : w.acquires a = some acq)
      (phase : acq.phase = .entering) :
      Steps d w (.enables a) (w.put a (some ⟨acq.route, .enabled, false⟩))
  | admitted {w : World A R} {a : A} {acq : Acquire R} (at_ : w.acquires a = some acq)
      (phase : acq.phase = .enabled) (admits : w.budget.admits acq.route = true) :
      Steps d w (.admitted a)
        ({ w with budget := w.budget.takePermit acq.route, permits := acq.route :: w.permits }.put a none)
  | refused {w : World A R} {a : A} {acq : Acquire R} (at_ : w.acquires a = some acq)
      (phase : acq.phase = .enabled) (admits : w.budget.admits acq.route = false) :
      Steps d w (.refused a) (w.put a (some { acq with phase := .waiting }))
  | wakes {w : World A R} {a : A} {acq : Acquire R} (at_ : w.acquires a = some acq)
      (phase : acq.phase = .waiting) (notified : acq.notified = true) :
      Steps d w (.wakes a) (w.put a (some ⟨acq.route, .entering, false⟩))
  | cancels (w : World A R) (a : A) : Steps d w (.cancels a) (w.put a none)
  | observe {w : World A R} {r : R} (o : FragmentOutcome) (leased : r ∈ w.leases) :
      Steps d w (.observe r o)
        { w with budget := w.budget.observe r o, notifying := w.notifying + 1 }
  | dropPermit {w : World A R} {r : R} (held : r ∈ w.permits) :
      Steps d w (.dropPermit r)
        { w with
          budget := w.budget.dropPermit r, permits := w.permits.erase r
          notifying := w.notifying + 1 }
  | dropLease {w : World A R} {r : R} (leased : r ∈ w.leases)
      (borrowed : ∀ a acq, w.acquires a = some acq → acq.route ∈ w.leases.erase r) :
      Steps d w (.dropLease r)
        { w with budget := w.budget.dropLease r, leases := w.leases.erase r }
  | notifies {w : World A R} (owed : 0 < w.notifying) :
      Steps d w .notifies
        { w with
          acquires := fun a => (w.acquires a).map Acquire.notify, notifying := w.notifying - 1 }

/-! ## The counts -/

/-- An account counts the permits and the leases of its route; a route with no
account has no lease. -/
def Tallied (permits leases : Nat) : Option RouteAccount → Prop
  | none => leases = 0
  | some acct => acct.inFlight = permits ∧ acct.refs = leases ∧ 0 < leases

/-- The registry counts what there is. -/
structure Counts (w : World A R) : Prop where
  account : ∀ r, Tallied (w.permits.count r) (w.leases.count r) (w.budget.routes r)
  global : w.budget.globalInFlight = w.permits.length

/-- What an operation finds when its route's permits are all counted: a lease
that opens an account finds no permit of the route's still held. -/
def Finds (w : World A R) : Act A R → Prop
  | .lease r _ => w.budget.routes r = none → r ∉ w.permits
  | _ => True

omit [DecidableEq A] in
theorem counts_start : Counts (World.start : World A R) := ⟨fun _ => rfl, rfl⟩

omit [DecidableEq A] in
/-- Only one route's account and counts move. -/
theorem Counts.of_route {w w' : World A R} (h : Counts w) {r : R}
    (routes : ∀ r' ≠ r, w'.budget.routes r' = w.budget.routes r')
    (permits : ∀ r' ≠ r, w'.permits.count r' = w.permits.count r')
    (leases : ∀ r' ≠ r, w'.leases.count r' = w.leases.count r')
    (route : Tallied (w'.permits.count r) (w'.leases.count r) (w'.budget.routes r))
    (global : w'.budget.globalInFlight = w'.permits.length) : Counts w' := by
  refine ⟨fun r' => ?_, global⟩
  by_cases hr : r' = r
  · exact hr ▸ route
  · rw [routes r' hr, permits r' hr, leases r' hr]
    exact h.account r'

theorem Counts.step {d : Nat} {w w' : World A R} {act : Act A R} (h : Counts w)
    (step : Steps d w act w') (finds : Finds w act) : Counts w' := by
  cases step with
  | lease r s =>
    have tally := h.account r
    refine h.of_route (r := r) (fun r' hr => put_routes_other _ hr) (fun _ _ => rfl)
      (fun r' hr => List.count_cons_of_ne (Ne.symm hr)) ?_ h.global
    simp only [BudgetState.lease, put_routes_self, List.count_cons_self]
    cases hacct : w.budget.routes r with
    | none =>
      rw [hacct] at tally
      exact ⟨(List.count_eq_zero.2 (finds hacct)).symm, congrArg (· + 1) tally.symm,
        Nat.succ_pos _⟩
    | some acct =>
      rw [hacct] at tally
      exact ⟨tally.1, congrArg (· + 1) tally.2.1, Nat.succ_pos _⟩
  | begins => exact ⟨h.account, h.global⟩
  | enables => exact ⟨h.account, h.global⟩
  | @admitted a acq at_ phase admits =>
    have tally := h.account acq.route
    refine h.of_route (r := acq.route) (fun r' hr => put_routes_other _ hr)
      (fun r' hr => List.count_cons_of_ne (Ne.symm hr)) (fun _ _ => rfl) ?_
      (congrArg (· + 1) h.global)
    simp only [World.put, BudgetState.takePermit, put_routes_self, List.count_cons_self]
    cases hacct : w.budget.routes acq.route with
    | none => rwa [hacct] at tally
    | some acct =>
      rw [hacct] at tally
      exact ⟨congrArg (· + 1) tally.1, tally.2⟩
  | refused => exact ⟨h.account, h.global⟩
  | wakes => exact ⟨h.account, h.global⟩
  | cancels => exact ⟨h.account, h.global⟩
  | @observe r o leased =>
    have tally := h.account r
    refine h.of_route (r := r) (fun r' hr => observe_routes_other o hr) (fun _ _ => rfl)
      (fun _ _ => rfl) ?_ ((observe_globalInFlight o).trans h.global)
    rw [observe_routes_self]
    cases hacct : w.budget.routes r with
    | none => rwa [hacct] at tally
    | some acct => rwa [hacct] at tally
  | @dropPermit r held =>
    have tally := h.account r
    refine h.of_route (r := r) (fun r' hr => put_routes_other _ hr)
      (fun r' hr => List.count_erase_of_ne hr) (fun _ _ => rfl) ?_ ?_
    · simp only [BudgetState.dropPermit, put_routes_self, List.count_erase_self]
      cases hacct : w.budget.routes r with
      | none => rwa [hacct] at tally
      | some acct =>
        rw [hacct] at tally
        exact ⟨congrArg (· - 1) tally.1, tally.2⟩
    · rw [List.length_erase_of_mem held]
      exact congrArg (· - 1) h.global
  | @dropLease r leased borrowed =>
    have tally := h.account r
    refine h.of_route (r := r) (fun r' hr => dropLease_routes_other hr) (fun _ _ => rfl)
      (fun r' hr => List.count_erase_of_ne hr) ?_ (dropLease_globalInFlight.trans h.global)
    rw [dropLease_routes_self, List.count_erase_self]
    cases hacct : w.budget.routes r with
    | none =>
      rw [hacct] at tally
      exact absurd tally (Nat.ne_of_gt (List.count_pos_iff.2 leased))
    | some acct =>
      rw [hacct] at tally
      obtain ⟨inFlight, refs, -⟩ := tally
      rw [Option.bind_some]
      split
      · exact refs ▸ ‹_›
      · exact ⟨inFlight, congrArg (· - 1) refs, by omega⟩
  | notifies => exact ⟨h.account, h.global⟩

/-! ## The waiters -/

/-- An acquire that sleeps, with nobody about to wake it, could not be
admitted. -/
structure Awake (w : World A R) : Prop where
  borrows : ∀ a acq, w.acquires a = some acq → acq.route ∈ w.leases
  asleep : ∀ a acq, w.acquires a = some acq → acq.phase = .waiting → acq.notified = false →
    w.notifying = 0 → w.budget.admits acq.route = false

omit [DecidableEq A] [DecidableEq R] in
theorem awake_start : Awake (World.start : World A R) := ⟨nofun, nofun⟩

omit [DecidableEq R] in
theorem not_admits_iff {st : BudgetState R} {r : R} :
    st.admits r = false ↔ ∀ acct, st.routes r = some acct → st.globalInFlight < gGlobal →
      acct.window.width ≤ acct.inFlight := by
  cases h : st.routes r with
  | none => simp [BudgetState.admits, h]
  | some acct => simp [BudgetState.admits, h]; omega

/-- An admission makes none possible. -/
theorem admit_admits {st : BudgetState R} {r r' : R} (h : st.admits r' = false) :
    (st.takePermit r).admits r' = false := by
  rw [not_admits_iff] at h ⊢
  intro acct hr' room
  have room' : st.globalInFlight < gGlobal := Nat.lt_of_succ_lt room
  by_cases hr : r' = r
  · subst hr
    simp only [BudgetState.takePermit, put_routes_self] at hr'
    obtain ⟨before, hb, rfl⟩ := Option.map_eq_some_iff.1 hr'
    exact Nat.le_succ_of_le (h before hb room')
  · rw [BudgetState.takePermit] at hr'
    exact h acct ((put_routes_other _ hr).symm.trans hr') room'

/-- Another lease of a route that has one makes none possible. -/
theorem lease_admits {st : BudgetState R} {d : Nat} {r r' : R} {s : SharerKey}
    (h : st.admits r' = false) (leased : st.routes r' ≠ none) :
    (st.lease d r s).admits r' = false := by
  rw [not_admits_iff] at h ⊢
  intro acct hr' room
  by_cases hr : r' = r
  · subst hr
    cases hb : st.routes r' with
    | none => exact absurd hb leased
    | some before =>
      simp only [BudgetState.lease, put_routes_self, hb, Option.getD_some, Option.some.injEq] at hr'
      rw [← hr']
      exact h before hb room
  · exact h acct ((put_routes_other _ hr).symm.trans hr') room

theorem dropLease_admits {st : BudgetState R} {r r' : R} (h : st.admits r' = false) :
    (st.dropLease r).admits r' = false := by
  rw [not_admits_iff] at h ⊢
  intro acct hr' room
  rw [dropLease_globalInFlight] at room
  by_cases hr : r' = r
  · subst hr
    rw [dropLease_routes_self] at hr'
    obtain ⟨before, hb, hr'⟩ := Option.bind_eq_some_iff.1 hr'
    split at hr'
    · cases hr'
    · cases hr'
      exact h before hb room
  · exact h acct ((dropLease_routes_other hr).symm.trans hr') room

omit [DecidableEq R] in
/-- One acquire moves on, to no sleep it could be admitted from. -/
theorem Awake.put {w : World A R} (h : Awake w) {a : A} {acq : Acquire R}
    (borrows : acq.route ∈ w.leases)
    (asleep : acq.phase = .waiting → w.budget.admits acq.route = false) :
    Awake (w.put a (some acq)) := by
  have cases_ : ∀ b acq', (w.put a (some acq)).acquires b = some acq' →
      acq' = acq ∨ w.acquires b = some acq' := by
    intro b acq' hb
    by_cases hba : b = a
    · subst hba
      simp only [World.put, Function.update_self, Option.some.injEq] at hb
      exact .inl hb.symm
    · exact .inr ((Function.update_of_ne hba _ _).symm.trans hb)
  refine ⟨fun b acq' hb => ?_, fun b acq' hb phase quiet none_ => ?_⟩
  · rcases cases_ b acq' hb with rfl | hb
    · exact borrows
    · exact h.borrows b acq' hb
  · rcases cases_ b acq' hb with rfl | hb
    · exact asleep phase
    · exact h.asleep b acq' hb phase quiet none_

omit [DecidableEq R] in
theorem Awake.drop {w : World A R} (h : Awake w) (a : A) : Awake (w.put a none) := by
  have still : ∀ b acq, (w.put a none).acquires b = some acq → w.acquires b = some acq := by
    intro b acq hb
    by_cases hba : b = a
    · subst hba
      simp [World.put] at hb
    · exact (Function.update_of_ne hba _ _).symm.trans hb
  exact ⟨fun b acq hb => h.borrows b acq (still b acq hb),
    fun b acq hb => h.asleep b acq (still b acq hb)⟩

theorem Awake.step {d : Nat} {w w' : World A R} {act : Act A R} (h : Awake w) (counts : Counts w)
    (step : Steps d w act w') : Awake w' := by
  cases step with
  | lease r s =>
    refine ⟨fun a acq ha => List.mem_cons_of_mem _ (h.borrows a acq ha),
      fun a acq ha phase quiet none_ => lease_admits (h.asleep a acq ha phase quiet none_) ?_⟩
    intro hr
    have tally := counts.account acq.route
    rw [hr] at tally
    exact List.count_eq_zero.1 tally (h.borrows a acq ha)
  | begins free leased => exact h.put leased nofun
  | @enables a acq at_ phase =>
    have leased := h.borrows a acq at_
    exact h.put leased nofun
  | @admitted a acq at_ phase admits =>
    have admitted : Awake { w with
        budget := w.budget.takePermit acq.route, permits := acq.route :: w.permits } :=
      ⟨h.borrows, fun b other hb phase quiet none_ =>
        admit_admits (h.asleep b other hb phase quiet none_)⟩
    exact admitted.drop a
  | @refused a acq at_ phase admits =>
    have leased := h.borrows a acq at_
    exact h.put leased fun _ => admits
  | @wakes a acq at_ phase notified =>
    have leased := h.borrows a acq at_
    exact h.put leased nofun
  | cancels a => exact h.drop a
  | observe o leased => exact ⟨h.borrows, fun _ _ _ _ _ none_ => nomatch none_⟩
  | dropPermit held => exact ⟨h.borrows, fun _ _ _ _ _ none_ => nomatch none_⟩
  | dropLease leased borrowed =>
    exact ⟨borrowed, fun a acq ha phase quiet none_ =>
      dropLease_admits (h.asleep a acq ha phase quiet none_)⟩
  | notifies owed =>
    refine ⟨fun a acq ha => ?_, fun a acq ha phase quiet _ => ?_⟩
    · obtain ⟨before, hb, rfl⟩ := Option.map_eq_some_iff.1 ha
      have := h.borrows a before hb
      unfold Acquire.notify
      split <;> exact this
    · obtain ⟨before, hb, rfl⟩ := Option.map_eq_some_iff.1 ha
      unfold Acquire.notify at phase quiet
      split at phase <;> simp_all

/-! ## Exactness -/

/-- What admission promises in a world. -/
structure Exact (d : Nat) (w : World A R) : Prop where
  inFlight : ∀ r acct, w.budget.routes r = some acct → acct.inFlight = w.permits.count r
  global : w.budget.globalInFlight = w.permits.length
  /-- An acquire returns only below the width and below the global cap. -/
  returns : ∀ a w', Steps d w (.admitted a) w' → ∃ acq acct, w.acquires a = some acq ∧
    w.budget.routes acq.route = some acct ∧ w.permits.count acq.route < acct.window.width ∧
      w.permits.length < gGlobal
  /-- An acquire that sleeps where it could be admitted is about to be woken. -/
  waits : ∀ a acq acct, w.acquires a = some acq → acq.phase = .waiting →
    w.budget.routes acq.route = some acct → w.permits.count acq.route < acct.window.width →
      w.permits.length < gGlobal → acq.notified = true ∨ 0 < w.notifying

omit [DecidableEq A] in
theorem Counts.inFlight {w : World A R} (h : Counts w) {r : R} {acct : RouteAccount}
    (hr : w.budget.routes r = some acct) : acct.inFlight = w.permits.count r := by
  have tally := h.account r
  rw [hr] at tally
  exact tally.1

theorem exact_of {d : Nat} {w : World A R} (counts : Counts w) (awake : Awake w) : Exact d w where
  inFlight _ _ hr := counts.inFlight hr
  global := counts.global
  returns a w' step := by
    cases step with
    | @admitted _ acq at_ phase admits =>
      simp only [BudgetState.admits, Bool.and_eq_true, Option.any_eq_true,
        decide_eq_true_eq] at admits
      obtain ⟨⟨acct, hr, below⟩, room⟩ := admits
      exact ⟨acq, acct, at_, hr, counts.inFlight hr ▸ below, counts.global ▸ room⟩
  waits a acq acct ha phase hr below room := by
    by_contra quiet
    obtain ⟨unnotified, unowed⟩ := not_or.1 quiet
    have refused := awake.asleep a acq ha phase (Bool.not_eq_true _ ▸ unnotified)
      (Nat.eq_zero_of_not_pos unowed)
    have := not_admits_iff.1 refused acct hr (counts.global ▸ room)
    have := counts.inFlight hr
    omega

/-- **Route admission is exact** in every run in which a lease that opens a
route's account finds no permit of the route's still held. -/
theorem admission_exact {d : Nat} {w : World A R} {acts : List (Act A R)}
    (run : Trail (fun w act w' => Steps d w act w' ∧ Finds w act) .start acts w) : Exact d w := by
  have kept := run.invariant (I := fun w => Counts w ∧ Awake w)
    (fun _ _ _ h step => ⟨h.1.step step.1 step.2, h.2.step h.1 step.1⟩)
    ⟨counts_start, awake_start⟩
  exact exact_of kept.1 kept.2

/-- One fragment admitted on a first lease. -/
def oneAdmitted : World Unit Unit :=
  { budget := (BudgetState.new.lease defaultRouteCeil () ⟨[1]⟩).takePermit ()
    leases := [()], permits := [()]
    acquires := Function.update (Function.update (Function.update (fun _ => none) ()
      (some ⟨(), .entering, false⟩)) () (some ⟨(), .enabled, false⟩)) () none
    notifying := 0 }

theorem oneAdmitted_run :
    Trail (fun w act w' => Steps defaultRouteCeil w act w' ∧ Finds w act) .start
      [.lease () ⟨[1]⟩, .begins () (), .enables (), .admitted ()] oneAdmitted := by
  refine .cons ⟨.lease _ _ _, fun _ => nofun⟩ <| .cons ⟨.begins rfl (by simp), trivial⟩ <|
    .cons ⟨.enables (show _ = some ⟨(), .entering, false⟩ from rfl) rfl, trivial⟩ <|
    .cons ⟨.admitted (show _ = some ⟨(), .enabled, false⟩ from rfl) rfl (by decide), trivial⟩ <| .nil _

theorem admission_exact_one : Exact defaultRouteCeil oneAdmitted :=
  admission_exact oneAdmitted_run

/-- The lease is dropped with the permit still held, and the route leased
anew. -/
theorem permit_outlives_account :
    ∃ acts w acct, Trail (Steps defaultRouteCeil) (World.start : World Unit Unit) acts w ∧
      w.budget.routes () = some acct ∧ acct.inFlight = 0 ∧ w.permits.count () = 1 := by
  have run : Trail (Steps defaultRouteCeil) _ _ oneAdmitted :=
    oneAdmitted_run.mono fun _ _ _ h => h.1
  have dropped : Steps defaultRouteCeil oneAdmitted (.dropLease ())
      { oneAdmitted with budget := oneAdmitted.budget.dropLease (), leases := [] } :=
    .dropLease (by decide) fun a acq h => nomatch h
  exact ⟨_, _, _, (run.snoc dropped).snoc (.lease _ () ⟨[1]⟩), rfl, rfl, rfl⟩

end Daemonseed.Net.Admission
