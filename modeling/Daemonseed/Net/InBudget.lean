import Daemonseed.Net.RecordCalls
import Mathlib

/-! # In budget, and never in a circle

Every call on a record takes a lane permit before the record's lock, and either
before an un-gated or a read permit, which it holds for one raw call and
nothing else. So the opens and watches in flight fit the margin, the reads and
writes the budget, and no set of tasks waits for itself. -/
namespace Daemonseed.Net.InBudget
open Daemonseed.Lib.Runs Daemonseed.Lib.Permits Daemonseed.Net.DhtGate Daemonseed.Net.RecordCalls

/-- A lane's permit comes first, then the lock, then what covers one raw call. -/
def rank : Permit → Nat
  | .chat | .floor | .write => 0
  | .recordLock _ => 1
  | .ungated | .read => 2

def Call.reads : Call → Bool
  | .getValue .. | .inspect .. => true
  | _ => false

/-- The permits held cover a call: an open or a watch is made under an un-gated
permit and nothing else is, a get or an inspect under a read permit and nothing
else is, and a set under a lane's permit. -/
structure Covered (held : List Permit) (c : Call) : Prop where
  ungated : .ungated ∈ held ↔ c.ungated = true
  read : .read ∈ held ↔ Call.reads c = true
  lane : c.gated = true → Call.reads c = false → ∃ p ∈ held, rank p = 0

def order : Order Permit Call where
  rank := rank
  top := 2
  fits := Covered
  rank_le p := by cases p <;> simp [rank]

section Calls

variable {job : Nat → Empty → Prop} {floor : Nat} {base : List Permit} {α β : Type}

/-- A fallible call is in order over `base`. -/
abbrev Neat (job : Nat → Empty → Prop) (floor : Nat) (base : List Permit) (p : NetCall α) : Prop :=
  Tidy order job floor base p.run

theorem neat_checked (x : Except VeilidNetError α) : Neat job floor base (checked x) := tidy_pure _

theorem neat_fromApi (refuse : VeilidAPIError → VeilidNetError) (x : Except VeilidAPIError α) :
    Neat job floor base (fromApi refuse x) := by
  cases x <;> exact tidy_pure _

theorem neat_fromFirst (what : String) (report : Report) (part : Report → α) :
    Neat job floor base (fromFirst what report part) := by
  unfold fromFirst
  split <;> exact tidy_pure _

/-- What is held ranks below the permits of raw calls. -/
abbrev Light (base : List Permit) : Prop := order.Below base 2

theorem Light.not_ungated (light : Light base) : .ungated ∉ base := by
  intro h
  have := light _ h
  simp [order, rank] at this

theorem Light.not_read (light : Light base) : .read ∉ base := by
  intro h
  have := light _ h
  simp [order, rank] at this

theorem Light.recordLock (light : order.Below base 1) (owner : PublicKey) :
    Light (.recordLock owner :: base) := by
  intro p hp
  obtain rfl | hp := List.mem_cons.1 hp
  · exact Nat.one_lt_two
  · exact (light p hp).trans (by decide)

/-- A call that no pool is about. -/
theorem tidy_plain (light : Light base) {c : Call} (hu : c.ungated = false)
    (hg : c.gated = false) : Tidy order job floor base (raw c) := by
  have hr : Call.reads c = false := by
    cases c <;> simp_all [Call.reads, Call.gated]
  refine tidy_await ⟨?_, ?_, ?_⟩
  · simp [light.not_ungated, hu]
  · simp [light.not_read, hr]
  · simp [hg]

/-- One raw call of the margin's under its permit. -/
theorem tidy_ungated (le : floor ≤ 2) (light : Light base) {c : Call} (hu : c.ungated = true) :
    Covered (.ungated :: base) c ∧ order.Lets floor base .ungated := by
  refine ⟨⟨?_, ?_, ?_⟩, le, light⟩
  · simp [hu]
  · have := light.not_read
    cases c <;> simp_all [Call.reads, Call.ungated]
  · cases c <;> simp_all [Call.gated, Call.ungated]

theorem tidy_read (le : floor ≤ 2) (light : Light base) {c : Call} (hr : Call.reads c = true) :
    Covered (.read :: base) c ∧ order.Lets floor base .read := by
  refine ⟨⟨?_, ?_, ?_⟩, le, light⟩
  · have := light.not_ungated
    cases c <;> simp_all [Call.reads, Call.ungated]
  · simp [hr]
  · simp [hr]

theorem tidy_gatedBoundedOpen (le : floor ≤ 2) (light : Light base) (key : RecordKey)
    (writer : Option KeyPair) : Tidy order job floor base (gatedBoundedOpen key writer) := by
  obtain ⟨covered, lets⟩ := tidy_ungated le light (c := .openRecord key writer) rfl
  refine (Tidy.holding lets (Tidy.within (tidy_await covered))).bind fun x => ?_
  cases x <;> exact tidy_pure _

theorem neat_rendezvousKey (light : Light base) (owner : PublicKey) (shape : RecordShape) :
    Neat job floor base (rendezvousKey owner shape) :=
  (tidy_plain light rfl rfl).lift.bindE fun _ => (neat_fromApi _ _).bindE fun _ => tidy_pureE _

theorem tidy_createAbsent (light : Light base) (e : VeilidAPIError) (shape : RecordShape)
    (owner : KeyPair) : Tidy order job floor base (createAbsent e shape owner) := by
  unfold createAbsent
  split
  · exact (tidy_plain light rfl rfl).bind fun _ => tidy_pure _
  · exact tidy_pure _

theorem neat_openOrCreate (le : floor ≤ 2) (light : Light base) (owner : KeyPair)
    (shape : RecordShape) : Neat job floor base (openOrCreate owner shape) := by
  refine (neat_rendezvousKey light _ _).bindE fun handle => ?_
  refine (tidy_gatedBoundedOpen le light _ _).lift.bindE fun open1 => ?_
  cases open1 with
  | ok _ => exact tidy_pureE _
  | error e =>
    refine (tidy_createAbsent light e shape owner).lift.bindE fun _ => ?_
    refine (tidy_gatedBoundedOpen le light _ _).lift.bindE fun reopened => ?_
    exact (neat_fromApi _ _).bindE fun _ => tidy_pureE _

theorem neat_openOutcome (what : String) (handle : RendezvousHandle)
    (opened : Except VeilidAPIError Unit) : Neat job floor base (openOutcome what handle opened) := by
  cases opened with
  | ok _ => exact tidy_pureE _
  | error e =>
    by_cases absent : e.variant = .keyNotFound
    · rw [openOutcome, if_pos absent]
      exact tidy_pureE _
    · rw [openOutcome, if_neg absent]
      exact tidy_throw _

theorem neat_openOnly (le : floor ≤ 2) (light : Light base) (owner : KeyPair)
    (shape : RecordShape) : Neat job floor base (openOnly owner shape) :=
  (neat_rendezvousKey light _ _).bindE fun _ =>
    (tidy_gatedBoundedOpen le light _ _).lift.bindE fun _ => neat_openOutcome _ _ _

theorem neat_openReadOnly (le : floor ≤ 2) (light : Light base) (owner : PublicKey)
    (shape : RecordShape) : Neat job floor base (openReadOnly owner shape) :=
  (neat_rendezvousKey light _ _).bindE fun _ =>
    (tidy_gatedBoundedOpen le light _ _).lift.bindE fun _ => neat_openOutcome _ _ _

theorem tidy_section {γ : Type} (f : Shared → Shared) (g : Shared → γ) :
    Tidy order job floor base (do
      let shared ← Async.modify f
      pure (g shared) : Act γ) :=
  (tidy_modify f).bind fun _ => tidy_pure _

theorem neat_openCached {openIt : NetCall RendezvousHandle} (id : CachedRecordId)
    (h : Neat job floor base openIt) : Neat job floor base (openCached id openIt) := by
  refine (tidy_section _ _).lift.bindE fun found => ?_
  cases found with
  | some handle => exact tidy_pureE _
  | none =>
    refine h.bindE fun handle => ?_
    exact (tidy_section _ _).lift.bindE fun _ => tidy_pureE _

theorem neat_openCachedOptional {openIt : NetCall (Option RendezvousHandle)} (id : CachedRecordId)
    (h : Neat job floor base openIt) : Neat job floor base (openCachedOptional id openIt) := by
  refine (tidy_section _ _).lift.bindE fun found => ?_
  cases found with
  | some handle => exact tidy_pureE _
  | none =>
    refine h.bindE fun opened => ?_
    cases opened with
    | none => exact tidy_pureE _
    | some handle => exact (tidy_section _ _).lift.bindE fun _ => tidy_pureE _

/-! ### Reads and writes -/

theorem neat_gatedBoundedGet (lets : order.Lets floor base .read) (what : String)
    {get : Act (Except VeilidAPIError α)} (h : Tidy order job floor (.read :: base) get) :
    Neat job floor base (gatedBoundedGet what get) := by
  refine (Tidy.holding lets (Tidy.within h)).lift.bindE fun got => ?_
  cases got with
  | none => exact tidy_throw _
  | some answer =>
    cases answer with
    | ok v => exact tidy_pureE _
    | error e =>
      simp only
      split <;> exact tidy_throw _

theorem neat_inspectSyncSet (le : floor ≤ 2) (light : Light base) (handle : RendezvousHandle) :
    Neat job floor base (inspectSyncSet handle) := by
  obtain ⟨covered, lets⟩ := tidy_read le light (c := .inspect handle.key .syncSet) rfl
  exact (neat_gatedBoundedGet lets _ (tidy_await covered)).bindE fun _ => neat_fromFirst _ _ _

theorem neat_inspectLocalPending (le : floor ≤ 2) (light : Light base)
    (handle : RendezvousHandle) : Neat job floor base (inspectLocalPending handle) := by
  obtain ⟨covered, lets⟩ := tidy_read le light (c := .inspect handle.key .localOnly) rfl
  exact (neat_gatedBoundedGet lets _ (tidy_await covered)).bindE fun _ => neat_fromFirst _ _ _

/-- A set is made under a lane's permit. -/
theorem tidy_set (light : Light base) (lane : ∃ p ∈ base, rank p = 0) (key : RecordKey)
    (subkey : Nat) (bytes : List UInt8) (owner : KeyPair) :
    Tidy order job floor base (raw (.setValue key subkey bytes owner)) :=
  tidy_await ⟨by simp [light.not_ungated, Call.ungated], by simp [light.not_read, Call.reads],
    fun _ _ => lane⟩

theorem neat_publishAtSubkey (light : Light base) (lane : ∃ p ∈ base, rank p = 0)
    (handle : RendezvousHandle) (owner : KeyPair) (subkey : Nat) (bytes : List UInt8) :
    Neat job floor base (publishAtSubkey handle owner subkey bytes) :=
  (neat_checked _).bindE fun _ => (neat_checked _).bindE fun _ =>
    (tidy_set light lane _ _ _ _).lift.bindE fun _ =>
      (neat_fromApi _ _).bindE fun _ => tidy_pureE _

theorem neat_writeUntilKept {set : Act (Except VeilidAPIError (Option (List UInt8)))}
    (h : Tidy order job floor base set) (subkey : Nat) (bytes : List UInt8) (attempts : Nat) :
    Neat job floor base (writeUntilKept set subkey bytes attempts) := by
  induction attempts with
  | zero => exact tidy_throw _
  | succ left ih =>
    refine h.lift.bindE fun answer => (neat_fromApi _ answer).bindE fun kept => ?_
    cases kept with
    | none => exact tidy_pureE _
    | some kept =>
      simp only
      split
      · exact tidy_pureE _
      · exact ih

theorem neat_publishSoleWriterSubkey (light : Light base) (lane : ∃ p ∈ base, rank p = 0)
    (handle : RendezvousHandle) (owner : KeyPair) (subkey : Nat) (bytes : List UInt8) :
    Neat job floor base (publishSoleWriterSubkey handle owner subkey bytes) :=
  (neat_checked _).bindE fun _ => (neat_checked _).bindE fun _ =>
    neat_writeUntilKept (tidy_set light lane _ _ _ _) _ _ _

theorem neat_deleteRecord (light : Light base) (handle : RendezvousHandle) :
    Neat job floor base (deleteRecord handle) :=
  (tidy_plain light rfl rfl).lift.bindE fun _ => (tidy_plain light rfl rfl).lift.bindE fun _ =>
    neat_fromApi _ _

theorem neat_retryWhile (light : Light base) {make : NetCall α} (h : Neat job floor base make)
    (retryable : VeilidNetError → Bool) (left : Nat) :
    Neat job floor base (retryWhile retryable make left) := by
  induction left with
  | zero => exact h
  | succ left ih =>
    refine Tidy.bind h fun result => ?_
    cases result with
    | ok a => exact tidy_pure _
    | error e =>
      simp only
      split
      · exact (tidy_plain light rfl rfl).bind fun _ => ih
      · exact tidy_pure _

theorem neat_retryTransient (light : Light base) {make : NetCall α}
    (h : Neat job floor base make) : Neat job floor base (retryTransient make) :=
  neat_retryWhile light h _ _

/-- What runs under a record's lock, taken over nothing but a lane's permit. -/
theorem neat_locked (le : floor ≤ 1) (below : order.Below base 1) {owner : PublicKey}
    {p : NetCall α} (h : Light (.recordLock owner :: base) →
      Neat job floor (.recordLock owner :: base) p) :
    Neat job floor base (guarded (.recordLock owner) p) :=
  Tidy.holding ⟨le, below⟩ (h (Light.recordLock below owner))

/-! ### The funnel's writes -/

theorem lane_under (lane : ∃ p ∈ base, rank p = 0) (p : Permit) : ∃ q ∈ p :: base, rank q = 0 := by
  obtain ⟨q, hq, hr⟩ := lane
  exact ⟨q, .tail _ hq, hr⟩

section Dispatch

variable (le : floor ≤ 1) (below : order.Below base 1) (lane : ∃ p ∈ base, rank p = 0)
  (node : Node)
include le below lane

theorem neat_publishRendezvous (ownerSeed bytes : List UInt8) :
    Neat job floor base (publishRendezvous node ownerSeed bytes) := by
  refine (neat_checked _).bindE fun owner => neat_locked le below fun light => ?_
  refine (neat_openCached _ (neat_openOrCreate (le.trans (by decide)) light _ _)).bindE fun handle => ?_
  refine (tidy_section _ _).lift.bindE fun seq => ?_
  exact neat_publishAtSubkey light (lane_under lane _) _ _ _ _

theorem neat_publishCurrentState (ownerSeed : List UInt8) (stableId : String) (bytes : List UInt8) :
    Neat job floor base (publishCurrentState node ownerSeed stableId bytes) := by
  refine (neat_checked _).bindE fun owner => neat_locked le below fun light => ?_
  refine (neat_openCached _ (neat_openOrCreate (le.trans (by decide)) light _ _)).bindE fun handle => ?_
  exact neat_publishAtSubkey light (lane_under lane _) _ _ _ _

theorem neat_recordWrite (write : RecordWrite) : Neat job floor base write.dispatch := by
  refine neat_locked le below fun light => ?_
  have under := lane_under lane (.recordLock write.owner.key)
  cases write.what with
  | subkey subkey value soleWriter =>
    refine neat_retryTransient light ?_
    refine (neat_openCached _ (neat_openOrCreate (le.trans (by decide)) light _ _)).bindE
      fun handle => ?_
    split
    · exact neat_publishSoleWriterSubkey light under _ _ _ _
    · exact neat_publishAtSubkey light under _ _ _ _
  | delete =>
    refine (neat_retryTransient light (neat_openCachedOptional _
      (neat_openOnly (le.trans (by decide)) light _ _))).bindE fun opened => ?_
    refine (Tidy.bind (tidy_section _ _) fun _ => tidy_pure _).lift.bindE fun _ => ?_
    cases opened with
    | none => exact tidy_pureE _
    | some handle => exact neat_retryTransient light (neat_deleteRecord light handle)

theorem neat_publish (item : ProdWrite) : Neat job floor base (item.publish node) := by
  cases item with
  | rendezvous ownerSeed bytes => exact neat_publishRendezvous le below lane node _ _
  | currentState ownerSeed stableId bytes =>
    exact neat_publishCurrentState le below lane node _ _ _
  | dmRecord write => exact neat_recordWrite le below lane write

end Dispatch

theorem rank_lanePermit (lane : WriteFunnel.DispatchLane) : rank (lanePermit lane) = 0 := by
  cases lane <;> rfl

theorem neat_dispatch (node : Node) (item : ProdWrite) (lane : WriteFunnel.DispatchLane) :
    Neat job 0 [] (dispatch node item lane) := by
  refine Tidy.holding ⟨Nat.zero_le _, below_nil⟩ (neat_publish (Nat.zero_le _) ?_ ?_ node item)
  · intro p hp
    obtain rfl := List.mem_singleton.1 hp
    show rank (lanePermit lane) < 1
    rw [rank_lanePermit]
    exact Nat.one_pos
  · exact ⟨lanePermit lane, .head _, rank_lanePermit lane⟩

/-! ### Subscribes, sweeps and repairs -/

theorem neat_openSubscribedRecord (le : floor ≤ 2) (light : Light base) (resolved : ResolvedOwner) :
    Neat job floor base (openSubscribedRecord resolved) := by
  cases resolved with
  | writer keypair =>
    exact Tidy.bindE (neat_openCached _ (neat_openOrCreate le light _ _)) fun _ => tidy_pureE _
  | readOnly owner => exact neat_openCachedOptional _ (neat_openReadOnly le light _ _)

theorem neat_watchRecord (le : floor ≤ 2) (light : Light base)
    (refuse : VeilidAPIError → VeilidNetError) (key : RecordKey) :
    Neat job floor base (watchRecord refuse key) := by
  obtain ⟨covered, lets⟩ := tidy_ungated le light (c := .watch key) rfl
  exact Tidy.holding lets (Tidy.bindE (tidy_await covered).lift fun _ => neat_fromApi _ _)

theorem light_nil : Light [] := below_nil

theorem neat_openForResweep (node : Node) (owner : RendezvousOwner) :
    Neat job 0 [] (openForResweep node owner) :=
  (neat_checked _).bindE fun _ => neat_locked (Nat.zero_le _) below_nil fun light =>
    neat_openSubscribedRecord (Nat.zero_le _) light _

theorem neat_subscribeRendezvous (node : Node) (owner : RendezvousOwner) :
    Neat job 0 [] (subscribeRendezvous node owner) := by
  refine (neat_checked _).bindE fun resolved => ?_
  refine (neat_locked (Nat.zero_le _) below_nil fun light =>
    neat_openSubscribedRecord (Nat.zero_le _) light _).bindE fun opened => ?_
  cases opened with
  | none => exact tidy_pureE _
  | some handle =>
    exact (neat_watchRecord (Nat.zero_le _) light_nil _ _).bindE fun _ => tidy_pureE _

/-- A sweep's read waits for a read permit and nothing else, whatever its task
holds below one. -/
theorem tidy_sweepRead (key : RecordKey) (subkey : Nat) : order.Job 2 (sweepRead key subkey) := by
  obtain ⟨covered, lets⟩ := tidy_read le_rfl light_nil (c := .getValue key subkey) rfl
  exact (Tidy.holding lets (Tidy.within (tidy_await covered))).bind fun _ => tidy_pure _

theorem tidy_sweepGated {base : List Permit} (light : Light base) (handle : RendezvousHandle) :
    Tidy order order.Job 0 base (sweepGated handle) := by
  refine tidy_side 2 le_rfl (Nat.zero_le _) light fun j hj => ?_
  obtain ⟨subkey, _, rfl⟩ := List.mem_map.1 hj
  exact tidy_sweepRead _ _

theorem tidy_asPart {base : List Permit} {p : NetCall α}
    (h : Neat (fun _ _ => True) 0 base p) : Tidy order order.Job 0 base (asPart p).run :=
  Tidy.alone h

theorem neat_reopen (light : Light base) (le : floor ≤ 2) (resolved : ResolvedOwner) :
    Neat job floor base (reopen resolved) := by
  cases resolved with
  | writer keypair => exact neat_openOrCreate le light _ _
  | readOnly owner =>
    refine (neat_openReadOnly le light _ _).bindE fun opened => ?_
    cases opened with
    | none => exact tidy_throw _
    | some handle => exact tidy_pureE _

/-- **The repair.** The lock is held over the open and the watch, each under an
un-gated permit of its own, and over the whole sweep. -/
theorem tidy_repairRendezvous (node : Node) (owner : RendezvousOwner) :
    Tidy order order.Job 0 [] (repairRendezvous node owner).run := by
  refine (tidy_asPart (neat_checked _)).bindE fun resolved => ?_
  have light : Light [.recordLock resolved.publicKey] := Light.recordLock below_nil _
  refine Tidy.holding ⟨Nat.zero_le _, below_nil⟩ ?_
  refine (tidy_asPart (tidy_section _ _).lift).bindE fun old => ?_
  refine (tidy_asPart (Tidy.lift ?_)).bindE fun _ => ?_
  · split
    · exact (tidy_plain light rfl rfl).bind fun _ => tidy_pure _
    · exact tidy_pure _
  refine (tidy_asPart (neat_reopen light (Nat.zero_le _) _)).bindE fun handle => ?_
  refine (tidy_asPart (tidy_section _ _).lift).bindE fun _ => ?_
  refine (tidy_asPart ((neat_watchRecord (Nat.zero_le _) light _ _).bindE fun _ =>
    tidy_pureE _)).bindE fun _ => ?_
  exact (tidy_sweepGated light handle).lift

/-! ### Direct messaging's calls -/

theorem neat_openForRead (owner : KeyPair) (shape : RecordShape) :
    Neat job 0 [] (openForRead owner shape) :=
  neat_locked (Nat.zero_le _) below_nil fun light =>
    neat_openCachedOptional _ (neat_openOnly (Nat.zero_le _) light _ _)

theorem neat_getSubkey (handle : RendezvousHandle) (subkey : Nat) :
    Neat job 0 [] (getSubkey handle subkey) := by
  obtain ⟨covered, lets⟩ :=
    tidy_read (Nat.zero_le 2) light_nil (c := .getValue handle.key subkey) rfl
  exact (neat_gatedBoundedGet lets _ (tidy_await covered)).bindE fun _ => tidy_pureE _

theorem neat_readSubkey (owner : KeyPair) (shape : RecordShape) (subkey : Nat) :
    Neat job 0 [] (readSubkey owner shape subkey) := by
  refine neat_retryTransient light_nil ((neat_openForRead _ _).bindE fun opened => ?_)
  cases opened with
  | none => exact tidy_pureE _
  | some handle => exact neat_getSubkey _ _

theorem neat_scanDrop (owner : KeyPair) (shape : RecordShape) :
    Neat job 0 [] (scanDrop owner shape) := by
  refine neat_retryWhile light_nil ((neat_openForRead _ _).bindE fun opened => ?_) _ _
  cases opened with
  | none => exact tidy_pureE _
  | some handle =>
    exact (neat_inspectSyncSet (Nat.zero_le _) light_nil _).bindE fun _ => tidy_pureE _

theorem tidy_noteRegistration (registered : Except VeilidNetError Bool) (key : RecordKey)
    (lookupKey : PublicKey) :
    Tidy order job floor base (noteRegistration registered key lookupKey) := by
  unfold noteRegistration
  split
  · exact tidy_section _ _
  · exact tidy_pure _

theorem neat_registerWatch (key : RecordKey) : Neat job 0 [] (registerWatch key) :=
  neat_watchRecord (Nat.zero_le _) light_nil _ _

theorem tidy_watchChannel (key : RecordKey) (lookupKey : PublicKey) :
    Tidy order job 0 [] (watchChannel key lookupKey) :=
  Tidy.bind (neat_registerWatch key) fun _ => tidy_noteRegistration _ _ _

theorem neat_rewatchChannel (lookupKey : PublicKey) : Neat job 0 [] (rewatchChannel lookupKey) := by
  refine (tidy_section _ _).lift.bindE fun watched => ?_
  cases watched with
  | none => exact tidy_pureE _
  | some key =>
    refine Tidy.bindE (Tidy.lift (neat_registerWatch key)) fun registered => ?_
    cases registered with
    | ok held =>
      cases held with
      | true => exact tidy_pureE _
      | false => exact (tidy_section _ _).lift.bindE fun _ => tidy_throw _
    | error e => exact (tidy_section _ _).lift.bindE fun _ => tidy_throw _

theorem neat_unwatchChannel (lookupKey : PublicKey) : Neat job 0 [] (unwatchChannel lookupKey) := by
  refine (tidy_section _ _).lift.bindE fun watched => ?_
  cases watched with
  | none => exact tidy_pureE _
  | some key =>
    obtain ⟨covered, lets⟩ := tidy_ungated (Nat.zero_le 2) light_nil (c := .cancelWatch key) rfl
    refine Tidy.bindE (Tidy.holding lets
      (Tidy.bindE (tidy_await covered).lift fun _ => neat_fromApi _ _)) fun _ => ?_
    exact (tidy_section _ _).lift

theorem neat_openChannel (owner : KeyPair) (shape : RecordShape) :
    Neat job 0 [] (openChannel owner shape) :=
  neat_retryTransient light_nil <| neat_locked (Nat.zero_le _) below_nil fun light =>
    (neat_openCached _ (neat_openOrCreate (Nat.zero_le _) light _ _)).bindE fun _ => tidy_pureE _

theorem neat_openExistingChannel (owner : KeyPair) (shape : RecordShape) :
    Neat job 0 [] (openExistingChannel owner shape) :=
  neat_retryTransient light_nil <| neat_locked (Nat.zero_le _) below_nil fun light =>
    (neat_openCachedOptional _ (neat_openOnly (Nat.zero_le _) light _ _)).bindE fun _ =>
      tidy_pureE _

theorem neat_readChannel (lookupKey : PublicKey) (shape : RecordShape) (own watchOff : Bool)
    (subkey : Nat) : Neat job 0 [] (readChannel lookupKey shape own watchOff subkey) := by
  refine neat_retryTransient light_nil ?_
  refine (neat_locked (Nat.zero_le _) below_nil fun light =>
    neat_openCachedOptional _ (neat_openReadOnly (Nat.zero_le _) light _ _)).bindE fun opened => ?_
  cases opened with
  | none => exact tidy_pureE _
  | some handle =>
    refine (tidy_section _ _).lift.bindE fun wanted => ?_
    cases wanted with
    | true => exact (tidy_watchChannel _ _).lift.bindE fun _ => neat_getSubkey _ _
    | false => exact neat_getSubkey _ _

theorem neat_inspectBoth (opened : Option RendezvousHandle) (subkeys : Nat) :
    Neat job 0 [] (inspectBoth opened subkeys) := by
  cases opened with
  | none => exact tidy_pureE _
  | some handle =>
    exact (neat_inspectLocalPending (Nat.zero_le _) light_nil _).bindE fun _ =>
      (neat_inspectSyncSet (Nat.zero_le _) light_nil _).bindE fun _ => tidy_pureE _

theorem neat_inspectChannel (lookupKey : PublicKey) (shape : RecordShape) (own : Option KeyPair) :
    Neat job 0 [] (inspectChannel lookupKey shape own) := by
  refine neat_retryTransient light_nil ?_
  refine (neat_locked (Nat.zero_le _) below_nil fun light =>
    neat_openCachedOptional _ ?_).bindE fun _ => neat_inspectBoth _ _
  cases own with
  | some keypair => exact neat_openOnly (Nat.zero_le _) light _ _
  | none => exact neat_openReadOnly (Nat.zero_le _) light _ _

theorem neat_inspectRecord (owner : KeyPair) (shape : RecordShape) :
    Neat job 0 [] (inspectRecord owner shape) :=
  neat_retryTransient light_nil <| (neat_openForRead _ _).bindE fun _ => neat_inspectBoth _ _

theorem neat_confirmProbe (target : ConfirmTarget) : Neat job 0 [] (confirmProbe target) := by
  refine (neat_openForRead _ _).bindE fun opened => ?_
  cases opened with
  | none => exact tidy_throw _
  | some handle =>
    exact (neat_inspectLocalPending (Nat.zero_le _) light_nil _).bindE fun _ => tidy_pureE _

/-- One poll of a confirmation: the probe drops what it holds where the budget
runs out under it. -/
theorem neat_poll {what : String} {probe : NetCall (Option Nat × Bool)} {polls : Nat}
    (h : Neat job 0 [] probe)
    (again : ∀ answered last, Neat job 0 [] (confirmOnNetwork.again what probe polls answered last))
    (answered : Bool) (last : String) :
    Neat job 0 [] (confirmOnNetwork what probe polls answered last) := by
  unfold confirmOnNetwork
  refine (Tidy.within h).lift.bindE fun got => ?_
  cases got with
  | none => exact again _ _
  | some result =>
    cases result with
    | ok answer =>
      simp only
      split
      · exact tidy_pureE _
      · exact again _ _
    | error e =>
      simp only
      split
      · exact again _ _
      · exact tidy_throw _

theorem neat_confirmOnNetwork {what : String} {probe : NetCall (Option Nat × Bool)}
    (h : Neat job 0 [] probe) (polls : Nat) (answered : Bool) (last : String) :
    Neat job 0 [] (confirmOnNetwork what probe polls answered last) := by
  refine neat_poll h ?_ answered last
  induction polls with
  | zero =>
    intro answered last
    rw [confirmOnNetwork.again]
    exact tidy_throw _
  | succ polls ih =>
    intro answered last
    rw [confirmOnNetwork.again]
    exact (tidy_plain light_nil rfl rfl).lift.bindE fun _ => neat_poll h ih _ _

theorem neat_confirmed (polls : Nat) (what : String) (write : RecordWrite) :
    Neat job 0 [] (confirmed polls what write) := by
  refine Tidy.bindE (tidy_plain light_nil rfl rfl) fun _ => ?_
  cases confirmTarget write with
  | none => exact tidy_pureE _
  | some target => exact neat_confirmOnNetwork (neat_confirmProbe target) _ _ _

theorem tidy_writeBatch (polls : Nat) (writes : List (String × RecordWrite)) :
    Tidy order order.Job 0 [] (writeBatch polls writes) := by
  refine tidy_side 0 (Nat.zero_le _) le_rfl below_nil fun j hj => ?_
  obtain ⟨w, _, rfl⟩ := List.mem_map.1 hj
  exact Tidy.bind (neat_confirmed _ _ _) fun _ => tidy_pure _

end Calls

/-! ## Every run -/

/-- A task whose result nobody reads. -/
def asTask {α : Type} (p : NetCall α) : Drive Unit := do
  let _ ← p.run.alone
  pure ()

def asDrive {α : Type} (p : NetDrive α) : Drive Unit := do
  let _ ← p.run
  pure ()

/-- What a task may run: any of the calls on records, one after another. -/
inductive Path (node : Node) : Drive Unit → Prop
  | dispatch (item : ProdWrite) (lane : WriteFunnel.DispatchLane) :
      Path node (asTask (dispatch node item lane))
  | subscribe (owner : RendezvousOwner) : Path node (asTask (subscribeRendezvous node owner))
  | resweep (owner : RendezvousOwner) : Path node (asTask (openForResweep node owner))
  | sweep (handle : RendezvousHandle) : Path node (sweepGated handle)
  | repair (owner : RendezvousOwner) : Path node (asDrive (repairRendezvous node owner))
  | readSubkey (owner : KeyPair) (shape : RecordShape) (subkey : Nat) :
      Path node (asTask (readSubkey owner shape subkey))
  | scanDrop (owner : KeyPair) (shape : RecordShape) : Path node (asTask (scanDrop owner shape))
  | openChannel (owner : KeyPair) (shape : RecordShape) :
      Path node (asTask (openChannel owner shape))
  | openExistingChannel (owner : KeyPair) (shape : RecordShape) :
      Path node (asTask (openExistingChannel owner shape))
  | readChannel (lookupKey : PublicKey) (shape : RecordShape) (own watchOff : Bool) (subkey : Nat) :
      Path node (asTask (readChannel lookupKey shape own watchOff subkey))
  | inspectChannel (lookupKey : PublicKey) (shape : RecordShape) (own : Option KeyPair) :
      Path node (asTask (inspectChannel lookupKey shape own))
  | inspectRecord (owner : KeyPair) (shape : RecordShape) :
      Path node (asTask (inspectRecord owner shape))
  | rewatchChannel (lookupKey : PublicKey) : Path node (asTask (rewatchChannel lookupKey))
  | unwatchChannel (lookupKey : PublicKey) : Path node (asTask (unwatchChannel lookupKey))
  | confirmed (polls : Nat) (what : String) (write : RecordWrite) :
      Path node (asTask (confirmed polls what write))
  | writeBatch (polls : Nat) (writes : List (String × RecordWrite)) :
      Path node (writeBatch polls writes)
  | andThen {p q : Drive Unit} (first : Path node p) (second : Path node q) :
      Path node (p >>= fun _ => q)

theorem tidy_asTask {α : Type} {p : NetCall α} (h : Neat (fun _ _ => True) 0 [] p) :
    Tidy order order.Job 0 [] (asTask p) :=
  Tidy.bind (Tidy.alone h) fun _ => tidy_pure _

/-- Every path takes its permits in order. -/
theorem Path.tidy {node : Node} {p : Drive Unit} (h : Path node p) :
    Tidy order order.Job 0 [] p := by
  induction h with
  | dispatch item lane => exact tidy_asTask (neat_dispatch _ _ _)
  | subscribe owner => exact tidy_asTask (neat_subscribeRendezvous _ _)
  | resweep owner => exact tidy_asTask (neat_openForResweep _ _)
  | sweep handle => exact tidy_sweepGated light_nil _
  | repair owner => exact Tidy.bind (tidy_repairRendezvous _ _) fun _ => tidy_pure _
  | readSubkey owner shape subkey => exact tidy_asTask (neat_readSubkey _ _ _)
  | scanDrop owner shape => exact tidy_asTask (neat_scanDrop _ _)
  | openChannel owner shape => exact tidy_asTask (neat_openChannel _ _)
  | openExistingChannel owner shape => exact tidy_asTask (neat_openExistingChannel _ _)
  | readChannel lookupKey shape own watchOff subkey =>
    exact tidy_asTask (neat_readChannel _ _ _ _ _)
  | inspectChannel lookupKey shape own => exact tidy_asTask (neat_inspectChannel _ _ _)
  | inspectRecord owner shape => exact tidy_asTask (neat_inspectRecord _ _)
  | rewatchChannel lookupKey => exact tidy_asTask (neat_rewatchChannel _)
  | unwatchChannel lookupKey => exact tidy_asTask (neat_unwatchChannel _)
  | confirmed polls what write => exact tidy_asTask (neat_confirmed _ _ _)
  | writeBatch polls writes => exact tidy_writeBatch _ _
  | andThen first second ih₁ ih₂ => exact Tidy.bind ih₁ fun _ => ih₂

theorem covers_ungated : Covers order Call.ungated [.ungated] := by
  intro held c covered hc
  exact ⟨.ungated, .head _, covered.ungated.2 hc⟩

theorem covers_gated : Covers order Call.gated [.chat, .floor, .write, .read] := by
  intro held c covered hc
  cases reads : Call.reads c with
  | true => exact ⟨.read, by simp, covered.read.2 reads⟩
  | false =>
    obtain ⟨p, hp, hr⟩ := covered.lane hc reads
    refine ⟨p, ?_, hp⟩
    cases p <;> simp_all [rank]

/-- **In budget and never deadlocked.** In every state reached by tasks that
begin, move, end or are dropped in any order, with any answer to any call: the
opens and watches in flight fit the margin, and the gets, inspects and sets the
budget; a line of awaits that holds a read permit waits for no permit and no
lock, and one that holds an un-gated permit for nothing but its raw call; no
set of tasks waits for permits and locks that the set itself holds; and every
permit is free or held by a task that is still there, none by one at its end. -/
theorem in_budget (node : Node) {W W' : World Shared Permit Call Call.Answer} {es : List Event}
    (fresh : W.Fresh permits) (run : Trail (Step (Path node)) W es W') :
    (W'.calls.countP Call.ungated ≤ dhtGateMargin ∧
      W'.calls.countP Call.gated ≤ chatPermits + floorPermits + wMax + readPermits) ∧
    (∀ t ∈ W'.tasks, ∀ line ∈ t.lines,
      (.read ∈ line.held → line.waits = none) ∧
      (.ungated ∈ line.held → line.waits = none ∧ line.drives = false ∧
        ∀ c, line.awaits = some c → c.ungated = true)) ∧
    (∀ D : Set Nat, D.Nonempty → ¬ W'.Deadlock D) ∧
    (∀ r, W'.free r + W'.held.count r = permits r) ∧
    ∀ t ∈ W'.tasks, t.trunk.rest = .done () → t.held = [] := by
  have sound : W'.Sound order permits := run_sound (fun p hp => hp.tidy) fresh run
  have topmost : ∀ {p : Permit} {line : Line Permit Call} {t}, t ∈ W'.tasks → line ∈ t.lines →
      rank p = 2 → p ∈ line.held → line.waits = none := by
    intro p line t ht hl hp held
    cases hw : line.waits with
    | none => rfl
    | some r =>
      have below : rank p < rank r := ((sound.tasks t ht).line hl).1 r hw p held
      have : rank r ≤ 2 := order.rank_le r
      omega
  refine ⟨⟨sound.budget covers_ungated, sound.budget covers_gated⟩, ?_,
    fun D some_task => sound.no_deadlock some_task, sound.conserved,
    fun t ht => (sound.tasks t ht).ended⟩
  intro t ht line hl
  refine ⟨topmost ht hl rfl, fun held => ⟨topmost ht hl rfl held, ?_, ?_⟩⟩
  · cases hd : line.drives with
    | false => rfl
    | true => exact absurd (((sound.tasks t ht).line hl).2 hd _ held) (lt_irrefl 2)
  · intro c hc
    obtain ⟨own, rest, whole, covered, below⟩ := (sound.tasks t ht).line_awaits hl hc
    rw [whole] at held
    obtain held | held := List.mem_append.1 held
    · exact covered.ungated.1 held
    · exact absurd (below _ held) (lt_irrefl 2)

/-- A dispatched advert has reached its first open: it holds its lane's permit,
its record's lock and an un-gated permit. -/
theorem in_budget_opening :
    ∃ W' : World Shared Permit Call Call.Answer,
      W'.held = [.ungated, .recordLock [7], .write] ∧ W'.calls.countP Call.ungated = 1 ∧
        W'.free .write = 1 ∧ ∀ D : Set Nat, D.Nonempty → ¬ W'.Deadlock D := by
  let node : Node := ⟨fun seed => .ok ⟨seed, seed⟩, []⟩
  have begun : Trail (Step (Path node)) ⟨⟨∅, ∅, ∅⟩, permits, []⟩ _ _ :=
    .cons (.begins (.dispatch (.currentState [7] "share" [1]) .window)) (.nil _)
  have lane := begun.snoc (.moves (l := []) (r := []) rfl (.trunk rfl (.acquire (by decide))))
  have lock := lane.snoc (.moves (l := []) (r := []) rfl (.trunk rfl (.acquire (by decide))))
  have looked := lock.snoc (.moves (l := []) (r := []) rfl (.trunk rfl .visit))
  have keyed := looked.snoc (.moves (l := []) (r := []) rfl (.trunk rfl (.call (.ok [9]))))
  have opening := keyed.snoc (.moves (l := []) (r := []) rfl (.trunk rfl (.acquire (by decide))))
  exact ⟨_, rfl, rfl, rfl, (in_budget node ⟨rfl, rfl⟩ opening).2.2.1⟩

end Daemonseed.Net.InBudget
