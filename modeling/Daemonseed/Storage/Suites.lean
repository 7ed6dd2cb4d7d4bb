import Mathlib.Data.List.Basic

/-! # The suite registry

The suites a build has, which of them it still writes under, and the one it
writes under of itself. -/
namespace Daemonseed.Storage.Suites

def sentinelInvalid : UInt16 := 0x0000

def sentinelMax : UInt16 := 0xFFFF

/-- An identifier that is neither sentinel. -/
structure SuiteId where
  raw : UInt16
  plain : raw ≠ sentinelInvalid ∧ raw ≠ sentinelMax
  deriving DecidableEq

inductive SuiteIdError
  | sentinel (raw : UInt16)
  deriving DecidableEq

def SuiteId.tryNew (raw : UInt16) : Except SuiteIdError SuiteId :=
  if plain : raw ≠ sentinelInvalid ∧ raw ≠ sentinelMax then .ok ⟨raw, plain⟩
  else .error (.sentinel raw)

inductive LifecycleState
  | proposed | activeWrite | activeReadOnly | readOnlyDeprecated | removed
  deriving DecidableEq

structure Suite where
  id : SuiteId
  state : LifecycleState
  deriving DecidableEq

inductive WritePolicy
  | refuseDeprecated | refuseRemoved | allow
  deriving DecidableEq

def WritePolicy.permits : WritePolicy → LifecycleState → Bool
  | .refuseDeprecated, state => state = .activeWrite
  | .refuseRemoved, state =>
    state = .activeWrite ∨ state = .activeReadOnly ∨ state = .readOnlyDeprecated
  | .allow, _ => true

inductive WriteRefusal
  | unknown (id : SuiteId)
  | proposed (id : SuiteId)
  | activeReadOnly (id : SuiteId)
  | deprecated (id : SuiteId)
  | removed (id : SuiteId)
  deriving DecidableEq

theorem plain_one : (1 : UInt16) ≠ sentinelInvalid ∧ (1 : UInt16) ≠ sentinelMax := by decide

def cnsa20 : Suite := ⟨⟨0x0001, plain_one⟩, .activeWrite⟩

namespace Registry

def suites : List Suite := [cnsa20]

def lookup (id : SuiteId) : Option Suite := suites.find? (·.id = id)

def resolveForWriteWith (id : SuiteId) (policy : WritePolicy) : Except WriteRefusal Suite :=
  match lookup id with
  | none => .error (.unknown id)
  | some suite =>
    if policy.permits suite.state then .ok suite
    else
      match suite.state with
      | .activeWrite => .ok suite
      | .activeReadOnly => .error (.activeReadOnly id)
      | .readOnlyDeprecated => .error (.deprecated id)
      | .removed => .error (.removed id)
      | .proposed => .error (.proposed id)

def resolveForWrite (id : SuiteId) : Except WriteRefusal Suite :=
  resolveForWriteWith id .refuseDeprecated

/-- The first suite in active write; a build has one. -/
def defaultWriteSuite : Option SuiteId :=
  (suites.find? (·.state = .activeWrite)).map (·.id)

end Registry

theorem defaultWriteSuite_eq : Registry.defaultWriteSuite = some cnsa20.id := by decide

/-- The build reads and writes what it writes under of itself. -/
theorem default_lookup {id : SuiteId} (h : Registry.defaultWriteSuite = some id) :
    Registry.lookup id = some cnsa20 ∧ Registry.resolveForWrite id = .ok cnsa20 := by
  rw [defaultWriteSuite_eq] at h
  cases h
  exact ⟨by decide, rfl⟩

end Daemonseed.Storage.Suites
