import Mathlib.Logic.Function.Basic
import Mathlib.Data.Nat.Notation

/-! # The per-route budget

The window controller of one route and the registry that admits fragments
under it. The maps of the registry are partial functions over an arbitrary
type of route keys; a sharer's key is its bytes. What a caller holds, the
leases and the permits, is beside the registry, in `Admission`. -/
namespace Daemonseed.Net.RouteBudget

/-- Slow start and collapse. -/
def wFloor : Nat := 2

/-- The widest a window opens. -/
def wCeil : Nat := 8

def defaultRouteCeil : Nat := wFloor

/-- In flight over all routes. -/
def gGlobal : Nat := 12

def latencyValveBreaches : Nat := 3

def latencyValveWindow : Nat := 5

/-- One completed fragment, as the controller is told of it. -/
inductive FragmentOutcome
  | completed (overThreshold : Bool)
  | failed
  deriving DecidableEq, Repr

/-! ## The window of one route -/

structure RouteWindow where
  width : Nat
  ceiling : Nat
  healthySinceIncrease : Nat
  recentBreaches : List Bool
  collapsed : Bool
  deriving DecidableEq, Repr

namespace RouteWindow

def new (ceiling : Nat) : RouteWindow :=
  let ceiling := max wFloor (min ceiling wCeil)
  { width := min wFloor ceiling, ceiling, healthySinceIncrease := 0, recentBreaches := []
    collapsed := false }

/-- The ceiling a death at this width teaches. -/
def learnt (self : RouteWindow) : Nat := min (max (self.width / 2) wFloor) self.ceiling

/-- A fragment failed: the first failure of a death collapses the window and
hands back what it teaches. -/
def fails (self : RouteWindow) : Option Nat × RouteWindow :=
  let self := { self with healthySinceIncrease := 0, recentBreaches := [] }
  if self.collapsed then (none, self)
  else
    (some self.learnt,
      { self with ceiling := self.learnt, width := min wFloor self.learnt, collapsed := true })

/-- The breach ring with one more completion in it. -/
def pushBreach (self : RouteWindow) (overThreshold : Bool) : List Bool :=
  let ring := self.recentBreaches ++ [overThreshold]
  if latencyValveWindow < ring.length then ring.tail else ring

/-- A clean completion, counted towards the next increase. -/
def climbs (self : RouteWindow) : RouteWindow :=
  let healthy := self.healthySinceIncrease + 1
  if self.width ≤ healthy then
    if self.width < self.ceiling then
      { self with width := self.width + 1, collapsed := false, healthySinceIncrease := 0 }
    else { self with healthySinceIncrease := 0 }
  else { self with healthySinceIncrease := healthy }

def completes (self : RouteWindow) (overThreshold : Bool) : RouteWindow :=
  let ring := self.pushBreach overThreshold
  if latencyValveBreaches ≤ ring.count true then
    { self with width := max (self.width / 2) wFloor, healthySinceIncrease := 0
                recentBreaches := [] }
  else if overThreshold then { self with recentBreaches := ring }
  else { self with recentBreaches := ring }.climbs

/-- Feed one observation; a learned ceiling is handed back. -/
def observe (self : RouteWindow) : FragmentOutcome → Option Nat × RouteWindow
  | .failed => self.fails
  | .completed overThreshold => (none, self.completes overThreshold)

end RouteWindow

/-! ## The registry -/

structure SharerKey where
  bytes : List UInt8
  deriving DecidableEq, Repr

structure RouteAccount where
  inFlight : Nat
  window : RouteWindow
  sharer : SharerKey
  refs : Nat
  deriving DecidableEq, Repr

structure BudgetState (R : Type) where
  globalInFlight : Nat
  routes : R → Option RouteAccount
  ceilings : SharerKey → Option Nat

variable {R : Type} [DecidableEq R]

namespace BudgetState

def new : BudgetState R := ⟨0, fun _ => none, fun _ => none⟩

/-- One route's account is now `acct`. -/
def put (self : BudgetState R) (route : R) (acct : Option RouteAccount) : BudgetState R :=
  { self with routes := Function.update self.routes route acct }

/-- The account a route's first lease creates. -/
def fresh (self : BudgetState R) (defaultCeiling : Nat) (sharer : SharerKey) : RouteAccount where
  inFlight := 0
  window := .new ((self.ceilings sharer).getD defaultCeiling)
  sharer := sharer
  refs := 0

/-- `RouteBudget::lease`. -/
def lease (defaultCeiling : Nat) (route : R) (sharer : SharerKey) (self : BudgetState R) :
    BudgetState R :=
  let acct := (self.routes route).getD (self.fresh defaultCeiling sharer)
  self.put route (some { acct with refs := acct.refs + 1, sharer })

/-- Whether `acquire` admits one more fragment. -/
def admits (self : BudgetState R) (route : R) : Bool :=
  (self.routes route).any (fun acct => acct.inFlight < acct.window.width) &&
    self.globalInFlight < gGlobal

/-- What an admission counts. -/
def takePermit (route : R) (self : BudgetState R) : BudgetState R :=
  let self := self.put route
    ((self.routes route).map fun acct => { acct with inFlight := acct.inFlight + 1 })
  { self with globalInFlight := self.globalInFlight + 1 }

/-- Record a learned ceiling of a sharer, where there is one: downwards only. -/
def record (sharer : SharerKey) (learned : Option Nat) (self : BudgetState R) : BudgetState R :=
  match learned with
  | none => self
  | some learned =>
    { self with
      ceilings := Function.update self.ceilings sharer
        (some (min ((self.ceilings sharer).getD wCeil) learned)) }

/-- `RouteLease::observe`, before it wakes the waiters. -/
def observe (route : R) (outcome : FragmentOutcome) (self : BudgetState R) : BudgetState R :=
  match self.routes route with
  | none => self
  | some acct =>
    (self.put route (some { acct with window := (acct.window.observe outcome).2 })).record
      acct.sharer (acct.window.observe outcome).1

/-- A lease is dropped; the last one of a route takes its account with it. -/
def dropLease (route : R) (self : BudgetState R) : BudgetState R :=
  match self.routes route with
  | none => self
  | some acct =>
    if acct.refs - 1 = 0 then self.put route none
    else self.put route (some { acct with refs := acct.refs - 1 })

/-- A permit is dropped, before it wakes the waiters. -/
def dropPermit (route : R) (self : BudgetState R) : BudgetState R :=
  let self := self.put route
    ((self.routes route).map fun acct => { acct with inFlight := acct.inFlight - 1 })
  { self with globalInFlight := self.globalInFlight - 1 }

end BudgetState

/-- One operation on the registry; `acquire` is an admission where it is
admitted. -/
inductive BudgetOp (R : Type)
  | lease (route : R) (sharer : SharerKey)
  | acquire (route : R)
  | observe (route : R) (outcome : FragmentOutcome)
  | dropPermit (route : R)
  | dropLease (route : R)
  deriving DecidableEq, Repr

def BudgetState.apply (defaultCeiling : Nat) (self : BudgetState R) : BudgetOp R → BudgetState R
  | .lease route sharer => self.lease defaultCeiling route sharer
  | .acquire route => if self.admits route then self.takePermit route else self
  | .observe route outcome => self.observe route outcome
  | .dropPermit route => self.dropPermit route
  | .dropLease route => self.dropLease route

/-- A whole session of a registry. -/
def session (defaultCeiling : Nat) (ops : List (BudgetOp R)) : BudgetState R :=
  ops.foldl (BudgetState.apply defaultCeiling) .new

/-! ## What an operation leaves -/

section

variable {self : BudgetState R} {route other : R} {acct : RouteAccount}

@[simp] theorem put_routes_self (a : Option RouteAccount) :
    (self.put route a).routes route = a := by simp [BudgetState.put]

theorem put_routes_other (a : Option RouteAccount) (h : other ≠ route) :
    (self.put route a).routes other = self.routes other := by simp [BudgetState.put, h]

@[simp] theorem put_ceilings (a : Option RouteAccount) :
    (self.put route a).ceilings = self.ceilings := rfl

@[simp] theorem put_globalInFlight (a : Option RouteAccount) :
    (self.put route a).globalInFlight = self.globalInFlight := rfl

omit [DecidableEq R] in
@[simp] theorem record_routes (sharer : SharerKey) (learned : Option Nat) :
    (self.record sharer learned).routes = self.routes := by cases learned <;> rfl

omit [DecidableEq R] in
@[simp] theorem record_globalInFlight (sharer : SharerKey) (learned : Option Nat) :
    (self.record sharer learned).globalInFlight = self.globalInFlight := by cases learned <;> rfl

theorem observe_routes_other (o : FragmentOutcome) (h : other ≠ route) :
    (self.observe route o).routes other = self.routes other := by
  unfold BudgetState.observe
  split
  · rfl
  · rw [record_routes, put_routes_other _ h]

theorem observe_routes_self (o : FragmentOutcome) :
    (self.observe route o).routes route =
      (self.routes route).map fun acct => { acct with window := (acct.window.observe o).2 } := by
  unfold BudgetState.observe
  cases h : self.routes route with
  | none => exact h
  | some acct => simp

@[simp] theorem observe_globalInFlight (o : FragmentOutcome) :
    (self.observe route o).globalInFlight = self.globalInFlight := by
  unfold BudgetState.observe
  split
  · rfl
  · simp

theorem dropLease_routes_other (h : other ≠ route) :
    (self.dropLease route).routes other = self.routes other := by
  unfold BudgetState.dropLease
  split
  · rfl
  · split <;> exact put_routes_other _ h

theorem dropLease_routes_self :
    (self.dropLease route).routes route = (self.routes route).bind fun acct =>
      if acct.refs - 1 = 0 then none else some { acct with refs := acct.refs - 1 } := by
  unfold BudgetState.dropLease
  cases h : self.routes route with
  | none => exact h
  | some acct =>
    dsimp only [Option.bind_some]
    split <;> exact put_routes_self _

@[simp] theorem dropLease_globalInFlight :
    (self.dropLease route).globalInFlight = self.globalInFlight := by
  unfold BudgetState.dropLease
  split
  · rfl
  · split <;> rfl

/-- What becomes of one route's account in one operation. -/
inductive Becomes (self : BudgetState R) (defaultCeiling : Nat) (route : R) :
    BudgetOp R → Option RouteAccount → Option RouteAccount → Prop
  /-- Nothing its window or its sharer shows. -/
  | counts (op : BudgetOp R) (acct : RouteAccount) (inFlight refs : Nat) :
      Becomes self defaultCeiling route op (some acct) (some { acct with inFlight, refs })
  | absent (op : BudgetOp R) : Becomes self defaultCeiling route op none none
  | opens (sharer : SharerKey) :
      Becomes self defaultCeiling route (.lease route sharer) none
        (some { self.fresh defaultCeiling sharer with refs := 1 })
  | leased (sharer : SharerKey) (acct : RouteAccount) :
      Becomes self defaultCeiling route (.lease route sharer) (some acct)
        (some { acct with refs := acct.refs + 1, sharer })
  | observed (outcome : FragmentOutcome) (acct : RouteAccount) :
      Becomes self defaultCeiling route (.observe route outcome) (some acct)
        (some { acct with window := (acct.window.observe outcome).2 })
  | closes (acct : RouteAccount) :
      Becomes self defaultCeiling route (.dropLease route) (some acct) none

omit [DecidableEq R] in
theorem Becomes.same (self : BudgetState R) (defaultCeiling : Nat) (route : R) (op : BudgetOp R) :
    Becomes self defaultCeiling route op (self.routes route) (self.routes route) := by
  cases self.routes route with
  | none => exact .absent op
  | some acct => exact .counts op acct acct.inFlight acct.refs

/-- **Every operation changes an account in one of these ways.** -/
theorem apply_becomes (self : BudgetState R) (defaultCeiling : Nat) (op : BudgetOp R) (route : R) :
    Becomes self defaultCeiling route op (self.routes route)
      ((self.apply defaultCeiling op).routes route) := by
  have other : ∀ {r : R} {a : Option RouteAccount}, r ≠ route →
      (self.put r a).routes route = self.routes route :=
    fun h => put_routes_other _ (Ne.symm h)
  have same := Becomes.same self defaultCeiling route op
  cases op with
  | lease r sharer =>
    simp only [BudgetState.apply, BudgetState.lease]
    by_cases hr : r = route
    · subst hr
      rw [put_routes_self]
      cases self.routes r with
      | none => exact .opens sharer
      | some acct => exact .leased sharer acct
    · rwa [other hr]
  | acquire r =>
    simp only [BudgetState.apply]
    split
    · by_cases hr : r = route
      · subst hr
        simp only [BudgetState.takePermit, put_routes_self]
        cases self.routes r with
        | none => exact .absent _
        | some acct => exact .counts _ acct (acct.inFlight + 1) acct.refs
      · simpa only [BudgetState.takePermit, other hr] using same
    · exact same
  | observe r outcome =>
    simp only [BudgetState.apply, BudgetState.observe]
    cases h : self.routes r with
    | none => exact same
    | some acct =>
      by_cases hr : r = route
      · subst hr
        simp only [h, record_routes, put_routes_self]
        exact .observed outcome acct
      · simpa only [record_routes, other hr] using same
  | dropPermit r =>
    by_cases hr : r = route
    · subst hr
      simp only [BudgetState.apply, BudgetState.dropPermit, put_routes_self]
      cases self.routes r with
      | none => exact .absent _
      | some acct => exact .counts _ acct (acct.inFlight - 1) acct.refs
    · simpa only [BudgetState.apply, BudgetState.dropPermit, other hr] using same
  | dropLease r =>
    simp only [BudgetState.apply, BudgetState.dropLease]
    cases h : self.routes r with
    | none => exact same
    | some acct =>
      by_cases hr : r = route
      · subst hr
        dsimp only
        split
        · rw [put_routes_self, h]
          exact .closes acct
        · rw [put_routes_self, h]
          exact .counts _ acct acct.inFlight (acct.refs - 1)
      · dsimp only
        split <;> rwa [other hr]

end

end Daemonseed.Net.RouteBudget
