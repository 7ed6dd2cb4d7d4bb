import Daemonseed.Lib.Bytes
import Daemonseed.Lib.Maps
import Daemonseed.Lib.Permits
import Daemonseed.Net.WriteFunnel
import Mathlib

/-! # The gate on the node's DHT calls

The five pools of permits and the record locks, and the calls on a record that
take them: the opens, reads, writes, sweeps and repairs of `dht_gate.rs` and
`rendezvous.rs`. A raw call answers anything, or not at all before its timer. -/
namespace Daemonseed.Net.DhtGate
open Daemonseed.Lib.Bytes Daemonseed.Lib.Maps Daemonseed.Lib.Permits

def dhtGatePermits : Nat := 16
def dhtGateMargin : Nat := 2
def dhtBudget : Nat := dhtGatePermits - dhtGateMargin
def chatPermits : Nat := 2
def floorPermits : Nat := 1
def wMax : Nat := 2
def readPermits : Nat := dhtBudget - chatPermits - floorPermits - wMax

abbrev PublicKey := Octets
abbrev RecordKey := Octets

structure KeyPair where
  key : PublicKey
  secret : Octets

/-- What a task may wait for: a permit of one of the pools, or a record's lock. -/
inductive Permit
  | chat
  | floor
  | write
  | read
  | ungated
  | recordLock (owner : PublicKey)
  deriving DecidableEq

/-- The size of each pool; a lock is a pool of one. -/
def permits : Permit → Nat
  | .chat => chatPermits
  | .floor => floorPermits
  | .write => wMax
  | .read => readPermits
  | .ungated => dhtGateMargin
  | .recordLock _ => 1

/-! ## Records -/

def maxSubkeyCount : Nat := 1024

structure RecordShape where
  oCnt : Nat
  range : 1 ≤ oCnt ∧ oCnt ≤ maxSubkeyCount

namespace RecordShape

def rendezvous : RecordShape := ⟨64, by decide⟩

def maxValueLen (shape : RecordShape) : Nat := min (1048576 / shape.oCnt) 32768

end RecordShape

structure RendezvousHandle where
  key : RecordKey
  shape : RecordShape

abbrev CachedRecordId := PublicKey × Nat

def cachedRecordId (owner : PublicKey) (shape : RecordShape) : CachedRecordId := (owner, shape.oCnt)

/-- The open cache, the ring cursors and the watched channels with the lookup
keys they are read under, each behind a mutex that is held for one synchronous
section at a time. -/
structure Shared where
  opened : Map CachedRecordId RendezvousHandle
  ringSeq : Map RecordKey UInt32
  watched : Map RecordKey PublicKey

/-! ## Errors -/

inductive VeilidVariant
  | timeout | notInitialized | alreadyInitialized | shutdown | internal | unimplemented
  | parseError | invalidArgument | missingArgument | transactionNotFound | tryAgain
  | invalidTarget | noConnection | keyNotFound | generic
  deriving DecidableEq

/-- A Veilid error: its variant, and how it displays. -/
structure VeilidAPIError where
  variant : VeilidVariant
  text : String

inductive VeilidFailure
  | timedOut
  | refusedLocally
  | refused
  deriving DecidableEq

def veilidFailure (e : VeilidAPIError) : VeilidFailure :=
  match e.variant with
  | .timeout => .timedOut
  | .notInitialized | .alreadyInitialized | .shutdown | .unimplemented | .parseError
  | .invalidArgument | .missingArgument | .transactionNotFound => .refusedLocally
  | .internal | .tryAgain | .invalidTarget | .noConnection | .keyNotFound | .generic => .refused

inductive VeilidNetError
  | routing (text : String)
  | send (text : String)
  | timedOut (text : String)
  | refusedLocally (text : String)
  | identity (text : String)
  | actor (text : String)

namespace VeilidNetError

def display : VeilidNetError → String
  | routing text => "routing error: " ++ text
  | send text => "send failed: " ++ text
  | timedOut text => "timed out: " ++ text
  | refusedLocally text => "refused locally: " ++ text
  | identity text => "invalid node identity: " ++ text
  | actor text => "actor channel error: " ++ text

def fromVeilid (what : String) (e : VeilidAPIError) (refused : String → VeilidNetError) :
    VeilidNetError :=
  let text := what ++ ": " ++ e.text
  match veilidFailure e with
  | .timedOut => timedOut text
  | .refusedLocally => refusedLocally text
  | .refused => refused text

end VeilidNetError

/-! ## Raw calls -/

inductive DHTReportScope
  | localOnly
  | syncSet
  deriving DecidableEq

/-- An inspect's report: the first subkey it covers, the numbers held here and
on the network, and the subkeys still queued for the flush. -/
structure Report where
  first : Option Nat
  localSeqs : List (Option Nat)
  networkSeqs : List (Option Nat)
  offline : List Nat

structure Value where
  data : Octets
  seq : Option Nat

/-- What a task awaits that is no permit and no lock. -/
inductive Call
  | recordKey (owner : PublicKey) (shape : RecordShape)
  | openRecord (key : RecordKey) (writer : Option KeyPair)
  | createRecord (shape : RecordShape) (owner : KeyPair)
  | closeRecord (key : RecordKey)
  | deleteRecord (key : RecordKey)
  | watch (key : RecordKey)
  | cancelWatch (key : RecordKey)
  | getValue (key : RecordKey) (subkey : Nat)
  | inspect (key : RecordKey) (scope : DHTReportScope)
  | setValue (key : RecordKey) (subkey : Nat) (value : Octets) (writer : KeyPair)
  | sleep
  /-- The funnel's answer to a submitted write. -/
  | reply

@[reducible] def Call.Answer : Call → Type
  | recordKey .. => Except VeilidAPIError RecordKey
  | watch _ => Except VeilidAPIError Bool
  | getValue .. => Except VeilidAPIError (Option Value)
  | inspect .. => Except VeilidAPIError Report
  | setValue .. => Except VeilidAPIError (Option Octets)
  | sleep => Unit
  | reply => Except VeilidNetError Unit
  | openRecord .. | createRecord .. | closeRecord _ | deleteRecord _ | cancelWatch _ =>
    Except VeilidAPIError Unit

/-- An open, a watch, or a watch's cancel: what draws on the margin. -/
def Call.ungated : Call → Bool
  | openRecord .. | watch _ | cancelWatch _ => true
  | _ => false

/-- A get, an inspect or a set: what draws on the budget. -/
def Call.gated : Call → Bool
  | getValue .. | inspect .. | setValue .. => true
  | _ => false

abbrev Act := Async Shared Permit Call Call.Answer Empty
abbrev NetCall := ExceptT VeilidNetError Act
abbrev Drive := Async Shared Permit Call Call.Answer (Act Unit)
abbrev NetDrive := ExceptT VeilidNetError Drive

variable {α : Type}

/-- A fallible call as part of a task that may drive others. -/
def asPart (p : NetCall α) : NetDrive α := ExceptT.mk p.run.alone

/-- Hold a permit while a fallible call runs. -/
def guarded (r : Permit) (p : NetCall α) : NetCall α := ExceptT.mk (Async.holding r p.run)

def raw (c : Call) : Act c.Answer := Async.await c

def fromApi (refuse : VeilidAPIError → VeilidNetError) : Except VeilidAPIError α → NetCall α
  | .ok a => pure a
  | .error e => throw (refuse e)

def checked (x : Except VeilidNetError α) : NetCall α := ExceptT.mk (pure x)

/-! ## Opens -/

/-- One raw open under an un-gated permit, cut off at its bound. -/
def gatedBoundedOpen (key : RecordKey) (writer : Option KeyPair) :
    Act (Except VeilidAPIError Unit) := do
  match ← Async.holding .ungated (Async.within (raw (.openRecord key writer))) with
  | some result => pure result
  | none => pure (.error ⟨.timeout, "Timeout"⟩)

def openFailure (what : String) (e : VeilidAPIError) : VeilidNetError := .fromVeilid what e .routing

def writeFailure (what : String) (e : VeilidAPIError) : VeilidNetError := .fromVeilid what e .send

def rendezvousKey (owner : PublicKey) (shape : RecordShape) : NetCall RendezvousHandle := do
  let answer ← raw (.recordKey owner shape)
  let key ← fromApi (.fromVeilid "get_dht_record_key" · .routing) answer
  return ⟨key, shape⟩

/-- Only an absent record is created. -/
def createAbsent (e : VeilidAPIError) (shape : RecordShape) (owner : KeyPair) : Act Unit :=
  if e.variant = .keyNotFound then do
    let _ ← raw (.createRecord shape owner)
    pure ()
  else pure ()

def openOrCreate (owner : KeyPair) (shape : RecordShape) : NetCall RendezvousHandle := do
  let handle ← rendezvousKey owner.key shape
  match ← gatedBoundedOpen handle.key (some owner) with
  | .ok _ => return handle
  | .error e =>
    createAbsent e shape owner
    fromApi (openFailure "open_or_create reopen") (← gatedBoundedOpen handle.key (some owner))
    return handle

def openOutcome (what : String) (handle : RendezvousHandle) :
    Except VeilidAPIError Unit → NetCall (Option RendezvousHandle)
  | .ok _ => pure (some handle)
  | .error e => if e.variant = .keyNotFound then pure none else throw (openFailure what e)

def openOnly (owner : KeyPair) (shape : RecordShape) : NetCall (Option RendezvousHandle) := do
  let handle ← rendezvousKey owner.key shape
  openOutcome "open_only" handle (← gatedBoundedOpen handle.key (some owner))

def openReadOnly (owner : PublicKey) (shape : RecordShape) : NetCall (Option RendezvousHandle) := do
  let handle ← rendezvousKey owner shape
  openOutcome "open_read_only" handle (← gatedBoundedOpen handle.key none)

def cached (id : CachedRecordId) : Act (Option RendezvousHandle) := do
  let shared ← Async.modify fun s => s
  pure (shared.opened.lookup id)

def cache (id : CachedRecordId) (handle : RendezvousHandle) : Act Unit := do
  let _ ← Async.modify fun s => { s with opened := s.opened.insert id handle }
  pure ()

/-- Forget the cached handle, and return it. -/
def takeCached (id : CachedRecordId) : Act (Option RendezvousHandle) := do
  let shared ← Async.modify fun s => { s with opened := s.opened.erase id }
  pure (shared.opened.lookup id)

def forgetCached (id : CachedRecordId) : Act Unit := do
  let _ ← takeCached id
  pure ()

def openCached (id : CachedRecordId) (openIt : NetCall RendezvousHandle) : NetCall RendezvousHandle := do
  match ← cached id with
  | some handle => return handle
  | none =>
    let handle ← openIt
    cache id handle
    return handle

/-- An absence is never cached. -/
def openCachedOptional (id : CachedRecordId) (openIt : NetCall (Option RendezvousHandle)) :
    NetCall (Option RendezvousHandle) := do
  match ← cached id with
  | some handle => return some handle
  | none =>
    match ← openIt with
    | none => return none
    | some handle =>
      cache id handle
      return some handle

/-! ## Reads -/

/-- One raw read under a read permit, cut off at its bound. -/
def gatedBoundedGet (what : String) (get : Act (Except VeilidAPIError α)) : NetCall α := do
  match ← (Async.holding .read (Async.within get) : Act _) with
  | some (.ok v) => return v
  | some (.error e) =>
    match veilidFailure e with
    | .timedOut => throw (.timedOut (what ++ ": " ++ e.text))
    | .refusedLocally => throw (.refusedLocally (what ++ ": " ++ e.text))
    | .refused => throw (.routing e.text)
  | none => throw (.timedOut (what ++ ": GET exceeded 15s, abandoned"))

/-- A report that does not start at subkey 0 cannot be read by subkey. -/
def fromFirst (what : String) (report : Report) (part : Report → α) : NetCall α :=
  match report.first with
  | none | some 0 => pure (part report)
  | some first => throw (.routing (what ++ ": report starts at subkey " ++ toString first ++
      ", not 0; its sequence numbers cannot be read by subkey"))

def inspectSyncSet (handle : RendezvousHandle) : NetCall (List (Option Nat)) := do
  let report ← gatedBoundedGet "inspect_sync_set" (raw (.inspect handle.key .syncSet))
  fromFirst "inspect_sync_set" report Report.networkSeqs

structure LocalPending where
  seqs : List (Option Nat)
  pending : List Nat

def inspectLocalPending (handle : RendezvousHandle) : NetCall LocalPending := do
  let report ← gatedBoundedGet "inspect_local_pending"
    (raw (.inspect handle.key .localOnly))
  fromFirst "inspect_local_pending" report fun r => ⟨r.localSeqs, r.offline⟩

/-! ## Writes -/

def checkWriteCap (sealedLen : Nat) (shape : RecordShape) : Except VeilidNetError Unit :=
  if sealedLen > shape.maxValueLen then
    .error (.send ("sealed " ++ toString sealedLen ++ " bytes exceeds the " ++
      toString shape.maxValueLen ++ "-byte subkey cap of dflt(" ++ toString shape.oCnt ++
      ") (re-chunk)"))
  else .ok ()

def checkSubkeyRange (subkey : Nat) (shape : RecordShape) : Except VeilidNetError Unit :=
  if subkey ≥ shape.oCnt then
    .error (.send ("subkey " ++ toString subkey ++ " is outside dflt(" ++ toString shape.oCnt ++
      ") — valid slots are 0.." ++ toString shape.oCnt))
  else .ok ()

def publishAtSubkey (handle : RendezvousHandle) (owner : KeyPair) (subkey : Nat)
    (bytes : Octets) : NetCall Unit := do
  checked (checkWriteCap bytes.length handle.shape)
  checked (checkSubkeyRange subkey handle.shape)
  let answer ← raw (.setValue handle.key subkey bytes owner)
  let _ ← fromApi (writeFailure "set_dht_value") answer

def keptWriteAttempts : Nat := 3

/-- Write until the network keeps the bytes, with this many attempts left. -/
def writeUntilKept (set : Act (Except VeilidAPIError (Option Octets))) (subkey : Nat)
    (bytes : Octets) : Nat → NetCall Unit
  | 0 => throw (.send ("set_dht_value: the network kept other bytes at subkey " ++
      toString subkey ++ " over " ++ toString keptWriteAttempts ++ " writes"))
  | left + 1 => do
    let answer ← set
    match ← fromApi (writeFailure "set_dht_value") answer with
    | none => return
    | some kept => if kept = bytes then return else writeUntilKept set subkey bytes left

def publishSoleWriterSubkey (handle : RendezvousHandle) (owner : KeyPair) (subkey : Nat)
    (bytes : Octets) : NetCall Unit := do
  checked (checkWriteCap bytes.length handle.shape)
  checked (checkSubkeyRange subkey handle.shape)
  writeUntilKept (raw (.setValue handle.key subkey bytes owner)) subkey bytes keptWriteAttempts

def deleteRecord (handle : RendezvousHandle) : NetCall Unit := do
  let _ ← raw (.closeRecord handle.key)
  let answer ← raw (.deleteRecord handle.key)
  fromApi (writeFailure "delete_dht_record") answer

/-! ## Retries -/

def mentions (text needle : String) : Bool := (text.splitOn needle).length > 1

def isTransient (e : VeilidNetError) : Bool :=
  let text := e.display.toLower
  mentions text "tryagain" || mentions text "offline" || mentions text "not ready"

def isUnanswered : VeilidNetError → Bool
  | .timedOut _ => true
  | _ => false

/-- Make a call again while its failure is worth it, with this many attempts
after the first. -/
def retryWhile (retryable : VeilidNetError → Bool) (make : NetCall α) : Nat → NetCall α
  | 0 => make
  | left + 1 => ExceptT.mk do
    match ← make.run with
    | .ok a => pure (.ok a)
    | .error e =>
      if retryable e then
        let _ ← raw .sleep
        (retryWhile retryable make left).run
      else pure (.error e)

def transientAttempts : Nat := 8

def retryTransient (make : NetCall α) : NetCall α :=
  retryWhile isTransient make (transientAttempts - 1)

/-! ## Writes from the funnel -/

/-- What a direct-messaging write does to its record. -/
inductive What
  | subkey (subkey : Nat) (value : Octets) (soleWriter : Bool)
  | delete

structure RecordWrite where
  owner : KeyPair
  shape : RecordShape
  what : What

inductive ProdWrite
  | rendezvous (ownerSeed bytes : Octets)
  | currentState (ownerSeed : Octets) (stableId : String) (bytes : Octets)
  | dmRecord (write : RecordWrite)

def ringDepth : Nat := 2
def memberRegions : Nat := 32

def memberBaseSubkey (nodePub : Octets) : Nat :=
  (nodePub.take 4).foldr (fun b v => v * 256 + b.toNat) 0 % memberRegions * ringDepth

/-- FNV-1a over the identity's bytes. -/
def currentStateSubkey (stableId : String) : Nat :=
  (stableId.toUTF8.toList.foldl (fun h b => (h ^^^ b.toUInt32) * 0x01000193) (0x811c9dc5 : UInt32)).toNat % 64

def bumpSeq (key : RecordKey) : Act UInt32 := do
  let shared ← Async.modify fun s =>
    { s with ringSeq := s.ringSeq.insert key ((s.ringSeq.lookup key).getD 0 + 1) }
  pure ((shared.ringSeq.lookup key).getD 0)

section Node

/-- The owner keypair of a seed, and this node's public key. -/
structure Node where
  ownerKeypair : Octets → Except VeilidNetError KeyPair
  nodePub : Octets

variable (node : Node)

def publishRendezvous (ownerSeed bytes : Octets) : NetCall Unit := do
  let owner ← checked (node.ownerKeypair ownerSeed)
  guarded (.recordLock owner.key) do
    let handle ← openCached (cachedRecordId owner.key .rendezvous) (openOrCreate owner .rendezvous)
    let seq ← bumpSeq handle.key
    publishAtSubkey handle owner (memberBaseSubkey node.nodePub + seq.toNat % ringDepth) bytes

def publishCurrentState (ownerSeed : Octets) (stableId : String) (bytes : Octets) :
    NetCall Unit := do
  let owner ← checked (node.ownerKeypair ownerSeed)
  guarded (.recordLock owner.key) do
    let handle ← openCached (cachedRecordId owner.key .rendezvous) (openOrCreate owner .rendezvous)
    publishAtSubkey handle owner (currentStateSubkey stableId) bytes

/-- The write's retries run under its record's lock: one submission is one
dispatch. -/
def RecordWrite.dispatch (write : RecordWrite) : NetCall Unit :=
  let id := cachedRecordId write.owner.key write.shape
  guarded (.recordLock write.owner.key) <|
    match write.what with
    | .subkey subkey value soleWriter => retryTransient do
      let handle ← openCached id (openOrCreate write.owner write.shape)
      if soleWriter then publishSoleWriterSubkey handle write.owner subkey value
      else publishAtSubkey handle write.owner subkey value
    | .delete => do
      let opened ← retryTransient (openCachedOptional id (openOnly write.owner write.shape))
      forgetCached id
      match opened with
      | some handle => retryTransient (deleteRecord handle)
      | none => return

def lanePermit : WriteFunnel.DispatchLane → Permit
  | .chat => .chat
  | .floor => .floor
  | .window => .write

def ProdWrite.publish : ProdWrite → NetCall Unit
  | rendezvous ownerSeed bytes => publishRendezvous node ownerSeed bytes
  | currentState ownerSeed stableId bytes => publishCurrentState node ownerSeed stableId bytes
  | dmRecord write => write.dispatch

/-- The funnel's dispatch end. -/
def dispatch (item : ProdWrite) (lane : WriteFunnel.DispatchLane) : NetCall Unit :=
  guarded (lanePermit lane) (item.publish node)

/-! ## Subscribes, sweeps and repairs -/

inductive RendezvousOwner
  | held (ownerSeed : Octets)
  | publicOnly (owner : PublicKey)

inductive ResolvedOwner
  | writer (keypair : KeyPair)
  | readOnly (owner : PublicKey)

def RendezvousOwner.resolve : RendezvousOwner → Except VeilidNetError ResolvedOwner
  | held ownerSeed => (node.ownerKeypair ownerSeed).map .writer
  | publicOnly owner => .ok (.readOnly owner)

def ResolvedOwner.publicKey : ResolvedOwner → PublicKey
  | writer keypair => keypair.key
  | readOnly owner => owner

def openSubscribedRecord : ResolvedOwner → NetCall (Option RendezvousHandle)
  | .writer keypair => some <$>
      openCached (cachedRecordId keypair.key .rendezvous) (openOrCreate keypair .rendezvous)
  | .readOnly owner =>
      openCachedOptional (cachedRecordId owner .rendezvous) (openReadOnly owner .rendezvous)

/-- One raw watch under an un-gated permit. -/
def watchRecord (refuse : VeilidAPIError → VeilidNetError) (key : RecordKey) : NetCall Bool :=
  guarded .ungated do
    let answer ← raw (.watch key)
    fromApi refuse answer

/-- Open the record under its lock, then watch it; its sweep is spawned. -/
def subscribeRendezvous (owner : RendezvousOwner) : NetCall Bool := do
  let resolved ← checked (owner.resolve node)
  match ← guarded (.recordLock resolved.publicKey) (openSubscribedRecord resolved) with
  | none => return false
  | some handle =>
    let _ ← watchRecord (fun e => .routing e.text) handle.key
    return true

def openForResweep (owner : RendezvousOwner) : NetCall (Option RendezvousHandle) := do
  let resolved ← checked (owner.resolve node)
  guarded (.recordLock resolved.publicKey) (openSubscribedRecord resolved)

def sweepReadFanout : Nat := 4

/-- One read of a sweep: its permit is taken and dropped with it. -/
def sweepRead (key : RecordKey) (subkey : Nat) : Act Unit := do
  let _ ← (Async.holding .read (Async.within (raw (.getValue key subkey))) : Act _)
  pure ()

/-- Read every slot, in order, a few at a time; the sweep stops short where its
receiver is gone. -/
def sweepGated (handle : RendezvousHandle) : Drive Unit :=
  Async.side sweepReadFanout ((List.range handle.shape.oCnt).map (sweepRead handle.key))

def repairCloseFirst : Bool := true

/-- Re-establish a record's session under its lock, held to the end of the
sweep. -/
def repairGated (owner : PublicKey) (id : CachedRecordId) (closeFirst : Bool)
    (close : RendezvousHandle → Act Unit) (openIt : NetCall RendezvousHandle)
    (watch : RendezvousHandle → NetCall Unit) (sweep : RendezvousHandle → Drive Unit) :
    NetDrive Unit :=
  ExceptT.mk <| Async.holding (.recordLock owner) <| ExceptT.run do
    let old ← asPart (liftM (takeCached id))
    asPart (liftM (match (if closeFirst then old else none) with
      | some handle => close handle
      | none => pure ()))
    let handle ← asPart openIt
    asPart (liftM (cache id handle))
    asPart (watch handle)
    liftM (sweep handle)

/-- A repair's open: an absent record is a failure here. -/
def reopen : ResolvedOwner → NetCall RendezvousHandle
  | .writer keypair => openOrCreate keypair .rendezvous
  | .readOnly owner => do
    match ← openReadOnly owner .rendezvous with
    | some handle => return handle
    | none => throw (.routing "the rendezvous record was not found on repair re-open")

def closeSession (handle : RendezvousHandle) : Act Unit := do
  let _ ← raw (.closeRecord handle.key)
  pure ()

def repairRendezvous (owner : RendezvousOwner) : NetDrive Unit := do
  let resolved ← asPart (checked (owner.resolve node))
  repairGated resolved.publicKey (cachedRecordId resolved.publicKey .rendezvous) repairCloseFirst
    closeSession (reopen resolved)
    (fun handle => do
      let _ ← watchRecord (fun e => .routing e.text) handle.key)
    sweepGated

end Node

end Daemonseed.Net.DhtGate
