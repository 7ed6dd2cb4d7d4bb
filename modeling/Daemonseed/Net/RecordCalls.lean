import Daemonseed.Net.DhtGate
import Mathlib

/-! # Direct messaging's calls on records

The transport futures of `dm/records.rs`: what each synchronous method of the
record store blocks on, once its seed has become a keypair and its subkey count
a shape. -/
namespace Daemonseed.Net.RecordCalls
open Daemonseed.Lib.Bytes Daemonseed.Lib.Maps Daemonseed.Lib.Permits Daemonseed.Net.DhtGate

/-! ## Reads -/

/-- Open a record for reading, without creating it. -/
def openForRead (owner : KeyPair) (shape : RecordShape) : NetCall (Option RendezvousHandle) :=
  guarded (.recordLock owner.key) <|
    openCachedOptional (cachedRecordId owner.key shape) (openOnly owner shape)

/-- A subkey that holds no bytes reads as one never written. -/
def getSubkey (handle : RendezvousHandle) (subkey : Nat) : NetCall (Option Octets) := do
  let got ← gatedBoundedGet "dm records" (raw (.getValue handle.key subkey))
  return (got.map Value.data).filter fun bytes => !bytes.isEmpty

def readSubkey (owner : KeyPair) (shape : RecordShape) (subkey : Nat) : NetCall (Option Octets) :=
  retryTransient do
    match ← openForRead owner shape with
    | none => return none
    | some handle => getSubkey handle subkey

def scanAttempts : Nat := 3

def scanRetryable (e : VeilidNetError) : Bool := isTransient e || isUnanswered e

/-- The inspect a pass over a drop is answered from. -/
def scanDrop (owner : KeyPair) (shape : RecordShape) : NetCall (Option (List (Option Nat))) :=
  retryWhile scanRetryable (do
    match ← openForRead owner shape with
    | none => return none
    | some handle => return some (← inspectSyncSet handle)) (scanAttempts - 1)

/-! ## Watches -/

def wants (own off : Bool) (key : RecordKey) : Act Bool := do
  let shared ← Async.modify fun s => s
  pure (!own && !off && (shared.watched.lookup key).isNone)

def noteRegistration (registered : Except VeilidNetError Bool) (key : RecordKey)
    (lookupKey : PublicKey) : Act Unit :=
  match registered with
  | .ok true => do
    let _ ← Async.modify fun s => { s with watched := s.watched.insert key lookupKey }
    pure ()
  | _ => pure ()

def registerWatch (key : RecordKey) : NetCall Bool :=
  watchRecord (.fromVeilid "watch" · .routing) key

/-- A registration that fails leaves the record unwatched, and the read goes
on. -/
def watchChannel (key : RecordKey) (lookupKey : PublicKey) : Act Unit := do
  let registered ← (registerWatch key).run
  noteRegistration registered key lookupKey

def recordOf (lookupKey : PublicKey) : Act (Option RecordKey) := do
  let shared ← Async.modify fun s => s
  pure ((shared.watched.entries.find? fun e => e.2 = lookupKey).map Sigma.fst)

def forgetWatch (key : RecordKey) : Act Unit := do
  let _ ← Async.modify fun s => { s with watched := s.watched.erase key }
  pure ()

/-- What a call comes to, its failure included. -/
def outcome {α : Type} (p : NetCall α) : NetCall (Except VeilidNetError α) := ExceptT.lift p.run

def rewatchChannel (lookupKey : PublicKey) : NetCall Unit := do
  match ← recordOf lookupKey with
  | none => return
  | some key =>
    match ← outcome (registerWatch key) with
    | .ok true => return
    | .ok false =>
      forgetWatch key
      throw (.routing "watch: Veilid holds no watch on the record")
    | .error e =>
      forgetWatch key
      throw e

def unwatchChannel (lookupKey : PublicKey) : NetCall Unit := do
  match ← recordOf lookupKey with
  | none => return
  | some key =>
    guarded .ungated do
      let answer ← raw (.cancelWatch key)
      fromApi (.fromVeilid "cancel watch" · .routing) answer
    forgetWatch key

/-! ## Channels -/

def openChannel (owner : KeyPair) (shape : RecordShape) : NetCall Unit :=
  retryTransient <| guarded (.recordLock owner.key) do
    let _ ← openCached (cachedRecordId owner.key shape) (openOrCreate owner shape)

def openExistingChannel (owner : KeyPair) (shape : RecordShape) : NetCall Bool :=
  retryTransient <| guarded (.recordLock owner.key) do
    let handle ← openCachedOptional (cachedRecordId owner.key shape) (openOnly owner shape)
    return handle.isSome

/-- Read one subkey of a channel; the first read that opens one this side does
not own registers a watch on it. -/
def readChannel (lookupKey : PublicKey) (shape : RecordShape) (own watchOff : Bool) (subkey : Nat) :
    NetCall (Option Octets) :=
  retryTransient do
    let handle ← guarded (.recordLock lookupKey) <|
      openCachedOptional (cachedRecordId lookupKey shape) (openReadOnly lookupKey shape)
    match handle with
    | none => return none
    | some handle =>
      if ← wants own watchOff handle.key then watchChannel handle.key lookupKey
      getSubkey handle subkey

structure SubkeyReport where
  localSeq : Option Nat
  networkSeq : Option Nat
  pending : Bool

def seqReports (here : LocalPending) (network : List (Option Nat)) (oCnt : Nat) :
    List SubkeyReport :=
  (List.range oCnt).map fun i =>
    ⟨(here.seqs[i]?).join, (network[i]?).join, here.pending.contains i⟩

/-- Both inspects of one open record, one after the other. -/
def inspectBoth (handle : Option RendezvousHandle) (subkeys : Nat) : NetCall (List SubkeyReport) :=
  match handle with
  | none => return List.replicate subkeys ⟨none, none, false⟩
  | some handle => do
    let here ← inspectLocalPending handle
    let network ← inspectSyncSet handle
    return seqReports here network subkeys

/-- The open of an inspect: under the owner keypair where this process opened
the channel, and read-only where it did not. -/
def openInspected (lookupKey : PublicKey) (shape : RecordShape) (own : Option KeyPair) :
    NetCall (Option RendezvousHandle) :=
  openCachedOptional (cachedRecordId lookupKey shape) <|
    match own with
    | some keypair => openOnly keypair shape
    | none => openReadOnly lookupKey shape

def inspectChannel (lookupKey : PublicKey) (shape : RecordShape) (own : Option KeyPair) :
    NetCall (List SubkeyReport) :=
  retryTransient do
    let handle ← guarded (.recordLock lookupKey) (openInspected lookupKey shape own)
    inspectBoth handle shape.oCnt

def inspectRecord (owner : KeyPair) (shape : RecordShape) : NetCall (List SubkeyReport) :=
  retryTransient do
    let handle ← openForRead owner shape
    inspectBoth handle shape.oCnt

/-! ## Confirmed writes -/

structure ConfirmTarget where
  owner : KeyPair
  shape : RecordShape
  subkey : Nat

def confirmTarget (write : RecordWrite) : Option ConfirmTarget :=
  match write.what with
  | .subkey subkey _ _ => some ⟨write.owner, write.shape, subkey⟩
  | .delete => none

def pendingAt (report : LocalPending) (subkey : Nat) : Option Nat × Bool :=
  ((report.seqs[subkey]?).join, report.pending.contains subkey)

def onNetwork (here : Option Nat) (pending : Bool) : Bool := here.isSome && !pending

def confirmProbe (target : ConfirmTarget) : NetCall (Option Nat × Bool) := do
  match ← openForRead target.owner target.shape with
  | none => throw (.refusedLocally (toString target.subkey ++
      ": the record this node just wrote is not held locally"))
  | some handle => return pendingAt (← inspectLocalPending handle) target.subkey

def unconfirmed (what : String) (answered : Bool) (last : String) : VeilidNetError :=
  if answered then .timedOut (what ++ ": not on the network after 300s")
  else .timedOut (what ++ ": could not be checked within 300s, no probe was answered (the last: " ++
    last ++ ")")

/-- Poll until the network holds the write; `polls` more fit the budget. Each
probe runs under what is left of it. -/
def confirmOnNetwork (what : String) (probe : NetCall (Option Nat × Bool)) :
    Nat → Bool → String → NetCall Unit
  | polls, answered, last => do
    match ← (Async.within probe.run : Act _) with
    | none => again polls answered "a probe still waiting when the budget ran out"
    | some (.ok (here, pending)) =>
      if onNetwork here pending then return else again polls true last
    | some (.error e) =>
      if isTransient e || isUnanswered e then again polls answered e.display else throw e
where
  again : Nat → Bool → String → NetCall Unit
  | 0, answered, last => throw (unconfirmed what answered last)
  | polls + 1, answered, last => do
    let _ ← raw .sleep
    confirmOnNetwork what probe polls answered last

def confirming (polls : Nat) (what : String) (target : ConfirmTarget) : NetCall Unit :=
  confirmOnNetwork (what ++ " write to subkey " ++ toString target.subkey) (confirmProbe target)
    polls false ""

/-- Wait for the funnel's reply, then, where the write has a target, for its
confirmation. -/
def confirmed (polls : Nat) (what : String) (write : RecordWrite) : NetCall Unit := do
  ExceptT.mk (raw .reply)
  match confirmTarget write with
  | some target => confirming polls what target
  | none => return

/-- One write of a batch, which fails on its own. -/
def batched (polls : Nat) (what : String) (write : RecordWrite) : Act Unit := do
  let _ ← (confirmed polls what write).run
  pure ()

/-- Every write is on the funnel before any is confirmed, and the
confirmations run side by side. -/
def writeBatch (polls : Nat) (writes : List (String × RecordWrite)) : Drive Unit :=
  Async.side writes.length (writes.map fun w => batched polls w.1 w.2)

end Daemonseed.Net.RecordCalls
