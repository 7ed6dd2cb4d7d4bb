import Daemonseed.Dm.Routes
import Daemonseed.Lib.Runs

/-! # This node's own reach

The route and handle every control record carries are held in memory only, and the
serial they were issued at is kept on disk as well. A relaunch reads the serial back
and holds no reach. -/
namespace Daemonseed.Dm.OwnReach
open Daemonseed.Lib.Bytes Daemonseed.Lib.Runs Daemonseed.Dm.Store Daemonseed.Dm.Routes

/-! ## The record -/

def reachSerialMagic : Octets := magic "daemonseed/dm/store/rser/v1"

def reachSerialRecordVersion : UInt8 := 1

/-- The last reach serial issued. -/
def encodeReachSerial (serial : U64) : Octets :=
  reachSerialMagic ++ ([reachSerialRecordVersion] ++ (toBe 8 serial.val ++ []))

def decodeReachSerial (bytes : Octets) : Except StoreError U64 := do
  let bytes ← Reader.headerVersion reachSerialMagic reachSerialRecordVersion bytes
  let (serial, bytes) ← Reader.take 8 bytes
  Reader.finish bytes
  .ok (Fin.ofNat _ (fromBe serial))

theorem decodeReachSerial_encodeReachSerial (serial : U64) :
    decodeReachSerial (encodeReachSerial serial) = .ok serial := by
  have back : Fin.ofNat (2 ^ 64) (fromBe (toBe 8 serial.val)) = serial := by
    apply Fin.ext
    rw [fromBe_toBe, Fin.val_ofNat]
    have := serial.isLt
    omega
  rw [encodeReachSerial, decodeReachSerial, headerVersion_append]
  simp only [bind, Except.bind]
  rw [take_eq (toBe_length 8 _)]
  simp only [Reader.finish, if_true, back]

/-! ## The store -/

def noReach : Reach := ⟨none, none⟩

/-- The reach and serial held, and the record on disk. -/
structure Store where
  reach : Reach
  serial : U64
  record : Held Octets

/-- Opening never fails on the record: what is not read is read as no serial issued. -/
def Store.open_ (record : Held Octets) : Store where
  reach := noReach
  serial := match record with
    | .payload bytes => (decodeReachSerial bytes).toOption.getD 0
    | _ => 0
  record := record

/-- A write that fails leaves the record as it was, or has landed. -/
inductive WriteFault
  | refused
  | landed

structure SetFaults where
  reading : Bool
  writing : Option WriteFault

inductive SetReachError
  | notRead
  | notWritten

inductive SetReach
  | unchanged
  | issued
  | issuedOverUndecodable
  deriving DecidableEq

/-- The serial in the record under the profile lock, and whether the record was no serial's. -/
def readFloor (faulty : Bool) (record : Held Octets) : Except SetReachError (U64 × Bool) :=
  if faulty then .error .notRead
  else match record with
    | .absent => .ok (0, false)
    | .payload bytes =>
      if bytes = [] then .ok (0, false)
      else match decodeReachSerial bytes with
        | .ok serial => .ok (serial, false)
        | .error _ => .ok (0, true)
    | .scrubbed | .unreadable => .ok (0, true)

/-- The clock's time, or one past the last serial issued where that is not higher; the sum
saturates. -/
def nextSerial (now floor persisted : U64) : U64 :=
  Fin.ofNat _ (max now.val (min (max floor.val persisted.val + 1) (2 ^ 64 - 1)))

/-- The serial is written first, and held with the reach only once the write has succeeded. -/
def Store.setReach (self : Store) (faults : SetFaults) (now : U64) (reach : Reach) :
    Except SetReachError SetReach × Store :=
  if self.reach = reach then (.ok .unchanged, self)
  else match readFloor faults.reading self.record with
    | .error e => (.error e, self)
    | .ok (persisted, undecodable) =>
      let next := nextSerial now self.serial persisted
      match faults.writing with
      | some .refused => (.error .notWritten, self)
      | some .landed => (.error .notWritten, { self with record := .payload (encodeReachSerial next) })
      | none =>
        (.ok (if undecodable then .issuedOverUndecodable else .issued),
          ⟨reach, next, .payload (encodeReachSerial next)⟩)

/-- The pair every control record is sealed with. -/
def Store.reachWithSerial (self : Store) : Reach × U64 := (self.reach, self.serial)

/-! ## The runner over it -/

structure PushState where
  ownRoute : Option Octets
  ownHandle : Option String
  reachRetry : Bool

def PushState.reach (self : PushState) : Reach := ⟨self.ownRoute, self.ownHandle⟩

structure Node where
  store : Store
  push : PushState

/-- A launch over the record an earlier one left. -/
def Node.launch (record : Held Octets) : Node := ⟨.open_ record, ⟨none, none, false⟩⟩

/-- A serial that could not be written is owed. -/
def Node.setOwnReach (self : Node) (faults : SetFaults) (now : U64) :
    Except SetReachError SetReach × Node :=
  match self.store.setReach faults now self.push.reach with
  | (.ok set, store) => (.ok set, { store, push := { self.push with reachRetry := false } })
  | (.error e, store) => (.error e, { store, push := { self.push with reachRetry := true } })

/-- What the runner does with its reach. `republish` is the set that every notice and every
rewrite of the control subkeys begins with. -/
inductive Act
  | allocateRoute (allocated : Option Octets) (faults : SetFaults) (now : U64)
  | setOwnHandle (handle : String) (faults : SetFaults) (now : U64)
  | republish (faults : SetFaults) (now : U64)
  | retryOwedReach (faults : SetFaults) (now : U64)
  | sealControl
  | relaunch

section

variable (sha384 : Octets → Option Octets) (publicKey : Octets)

/-- The push state a step calls `set_own_reach` with, where it calls it. -/
def Node.sets (self : Node) : Act → Option (PushState × SetFaults × U64)
  | .allocateRoute allocated faults now => some ({ self.push with ownRoute := allocated }, faults, now)
  | .setOwnHandle handle faults now =>
    let verified := Reach.verifiedHandle sha384 ⟨none, some handle⟩ publicKey
    if verified = self.push.ownHandle then none
    else some ({ self.push with ownHandle := verified }, faults, now)
  | .republish faults now => some (self.push, faults, now)
  | .retryOwedReach faults now =>
    if self.push.reachRetry then some ({ self.push with reachRetry := false }, faults, now) else none
  | .sealControl | .relaunch => none

/-- A node, the pairs its profile has sealed control records with, in order, and whether the
serial held was issued since the last launch. -/
structure History where
  node : Node
  controls : List (Reach × U64)
  issued : Bool

def issues : Except SetReachError SetReach → Bool
  | .ok .issued | .ok .issuedOverUndecodable => true
  | _ => false

def History.step (self : History) (a : Act) : History :=
  match self.node.sets sha384 publicKey a with
  | some (push, faults, now) =>
    let (set, node) := Node.setOwnReach { self.node with push } faults now
    { self with node, issued := self.issued || issues set }
  | none =>
    match a with
    | .sealControl => { self with controls := self.controls ++ [self.node.store.reachWithSerial] }
    | .relaunch => { self with node := .launch self.node.store.record, issued := false }
    | _ => self

end

/-! ## What a set leaves -/

/-- The record holds the serial, or there is none and no serial was issued. -/
def Kept (record : Held Octets) (n : U64) : Prop :=
  record = .absent ∧ n = 0 ∨ record = .payload (encodeReachSerial n)

variable {record : Held Octets} {n : U64} {s : Store} {faults : SetFaults} {now : U64} {reach : Reach}

theorem open_kept (kept : Kept record n) : (Store.open_ record).serial = n := by
  rcases kept with ⟨rfl, rfl⟩ | rfl
  · rfl
  · simp only [Store.open_, decodeReachSerial_encodeReachSerial]
    rfl

theorem readFloor_kept (kept : Kept record n) : readFloor false record = .ok (n, false) := by
  rcases kept with ⟨rfl, rfl⟩ | rfl
  · rfl
  · have some_ : encodeReachSerial n ≠ [] := by
      intro e
      have length := congrArg List.length e
      simp [encodeReachSerial] at length
    simp only [readFloor, Bool.false_eq_true, if_false, if_neg some_, decodeReachSerial_encodeReachSerial]

theorem nextSerial_above {floor : U64} (within : floor ≤ n) (room : n.val + 1 < 2 ^ 64) :
    n < nextSerial now floor n := by
  have small := now.isLt
  rw [Fin.lt_def, nextSerial, Fin.val_ofNat]
  rw [Fin.le_def] at within
  rw [Nat.max_eq_right within, Nat.min_eq_left (by omega)]
  rw [Nat.mod_eq_of_lt (by omega)]
  omega

variable (faults now reach) in
/-- A set issues a higher serial for the reach it is given, or keeps the pair held. -/
theorem setReach_spec (kept : Kept s.record n) (within : s.serial ≤ n)
    (room : faults.reading = false → s.reach = reach ∨ n.val + 1 < 2 ^ 64) :
    (issues (s.setReach faults now reach).1 = false ∧ (s.setReach faults now reach).2.reach = s.reach ∧
      (s.setReach faults now reach).2.serial = s.serial ∧
      ∃ m, n ≤ m ∧ Kept (s.setReach faults now reach).2.record m) ∨
    (issues (s.setReach faults now reach).1 = true ∧ (s.setReach faults now reach).2.reach = reach ∧
      n < (s.setReach faults now reach).2.serial ∧
      Kept (s.setReach faults now reach).2.record (s.setReach faults now reach).2.serial) := by
  by_cases same : s.reach = reach
  · rw [Store.setReach, if_pos same]
    exact .inl ⟨rfl, rfl, rfl, n, le_refl n, kept⟩
  · obtain ⟨reading, writing⟩ := faults
    cases reading with
    | true =>
      rw [Store.setReach, if_neg same]
      exact .inl ⟨rfl, rfl, rfl, n, le_refl n, kept⟩
    | false =>
      rw [Store.setReach, if_neg same]
      simp only [readFloor_kept kept]
      have above : n < nextSerial now s.serial n :=
        nextSerial_above within ((room rfl).resolve_left same)
      cases writing with
      | none => exact .inr ⟨rfl, rfl, above, .inr rfl⟩
      | some fault =>
        cases fault with
        | refused => exact .inl ⟨rfl, rfl, rfl, n, le_refl n, kept⟩
        | landed => exact .inl ⟨rfl, rfl, rfl, _, le_of_lt above, .inr rfl⟩

/-! ## Every run -/

/-- Control records under one serial carry one reach, and the serials do not go back. -/
def Consistent (controls : List (Reach × U64)) : Prop :=
  controls.Pairwise fun c d => c.2 ≤ d.2 ∧ (c.2 = d.2 → c.1 = d.1)

instance (controls : List (Reach × U64)) : Decidable (Consistent controls) :=
  inferInstanceAs (Decidable (controls.Pairwise _))

section

variable (sha384 : Octets → Option Octets) (publicKey : Octets)

/-- The step does not issue a serial where the last one is the highest there is. -/
def Unsaturated (h : History) (a : Act) : Prop :=
  ∀ push faults now, h.node.sets sha384 publicKey a = some (push, faults, now) →
    h.node.store.reach = push.reach ∨
      ∀ persisted undecodable,
        readFloor faults.reading h.node.store.record = .ok (persisted, undecodable) →
          (max h.node.store.serial.val persisted.val) + 1 < 2 ^ 64

/-- A control record is sealed under a serial issued since the launch, or under one that none
with a route or a handle has been sealed under. -/
def Fresh (h : History) (a : Act) : Prop :=
  a = .sealControl → h.issued = true ∨
    ∀ c ∈ h.controls, c.2 = h.node.store.serial → c.1 = noReach

end

structure Inv (h : History) (n : U64) : Prop where
  kept : Kept h.node.store.record n
  within : h.node.store.serial ≤ n
  below : ∀ c ∈ h.controls, c.2 ≤ h.node.store.serial
  issued : h.issued = true → ∀ c ∈ h.controls, c.2 = h.node.store.serial → c.1 = h.node.store.reach
  readBack : h.issued = false → h.node.store.reach = noReach

variable {sha384 : Octets → Option Octets} {publicKey : Octets} {h : History} {a : Act}

theorem Inv.room {push : PushState} (inv : Inv h n) (unsaturated : Unsaturated sha384 publicKey h a)
    (sets : h.node.sets sha384 publicKey a = some (push, faults, now)) (reads : faults.reading = false) :
    h.node.store.reach = push.reach ∨ n.val + 1 < 2 ^ 64 := by
  refine (unsaturated push faults now sets).imp_right fun room => ?_
  have last := room n false (by rw [reads]; exact readFloor_kept inv.kept)
  rwa [Nat.max_eq_right inv.within] at last

/-- What a step that sets the reach leaves. -/
theorem step_sets {push : PushState} (sets : h.node.sets sha384 publicKey a = some (push, faults, now)) :
    (h.step sha384 publicKey a).controls = h.controls ∧
      (h.step sha384 publicKey a).node.store = (h.node.store.setReach faults now push.reach).2 ∧
      (h.step sha384 publicKey a).issued =
        (h.issued || issues (h.node.store.setReach faults now push.reach).1) := by
  simp only [History.step, sets, Node.setOwnReach]
  split
  · rename_i set store e
    rw [e]
    exact ⟨trivial, rfl, rfl⟩
  · rename_i error store e
    rw [e]
    exact ⟨trivial, rfl, rfl⟩

theorem consistent_seal {controls : List (Reach × U64)} {c : Reach × U64}
    (below : ∀ d ∈ controls, d.2 ≤ c.2) :
    Consistent (controls ++ [c]) ↔ Consistent controls ∧ ∀ d ∈ controls, d.2 = c.2 → d.1 = c.1 := by
  unfold Consistent
  rw [List.pairwise_append]
  constructor
  · rintro ⟨old, -, new⟩
    exact ⟨old, fun d mem => (new d mem c List.mem_cons_self).2⟩
  · rintro ⟨old, new⟩
    refine ⟨old, List.pairwise_singleton .., ?_⟩
    intro d mem e last
    rw [List.mem_singleton.1 last]
    exact ⟨below d mem, new d mem⟩

/-- A step keeps the invariant, and the records sealed stay consistent where it is a fresh one. -/
theorem inv_step (inv : Inv h n) (unsaturated : Unsaturated sha384 publicKey h a) :
    (∃ m, Inv (h.step sha384 publicKey a) m) ∧
      (Consistent (h.step sha384 publicKey a).controls ↔ Consistent h.controls ∧ Fresh h a) := by
  cases sets : h.node.sets sha384 publicKey a with
  | some call =>
    obtain ⟨push, faults, now⟩ := call
    obtain ⟨controls, store, issued⟩ := step_sets sets
    have quiet : a ≠ .sealControl := by
      rintro rfl
      cases sets
    refine ⟨?_, by rw [controls]; exact ⟨fun c => ⟨c, fun e => absurd e quiet⟩, And.left⟩⟩
    rcases setReach_spec faults now push.reach inv.kept inv.within
      (inv.room unsaturated sets) with ⟨old, reach, serial, m, up, kept⟩ | ⟨new, reach, up, kept⟩
    · rw [old, Bool.or_false] at issued
      rw [← store] at reach serial kept
      refine ⟨m, ⟨kept, serial ▸ le_trans inv.within up, ?_, ?_, ?_⟩⟩
      · rw [controls, serial]
        exact inv.below
      · rw [controls, serial, issued, reach]
        exact inv.issued
      · rw [issued, reach]
        exact inv.readBack
    · rw [new, Bool.or_true] at issued
      rw [← store] at reach up kept
      -- nothing has been sealed under the serial issued
      have below (c : Reach × U64) (mem : c ∈ h.controls) :
          c.2 < (h.step sha384 publicKey a).node.store.serial :=
        lt_of_le_of_lt (le_trans (inv.below c mem) inv.within) up
      refine ⟨_, ⟨kept, le_refl _, ?_, ?_, ?_⟩⟩
      · rw [controls]
        exact fun c mem => le_of_lt (below c mem)
      · rw [controls]
        exact fun _ c mem e => absurd (below c mem) (e ▸ lt_irrefl _)
      · rw [issued]
        exact fun e => absurd e (by decide)
  | none =>
    cases a with
    | sealControl =>
      have e : h.step sha384 publicKey .sealControl =
          { h with controls := h.controls ++ [h.node.store.reachWithSerial] } := rfl
      rw [e]
      refine ⟨⟨n, inv.kept, inv.within, ?_, ?_, inv.readBack⟩, ?_⟩
      · intro c mem
        rcases List.mem_append.1 mem with old | new
        · exact inv.below c old
        · rw [List.mem_singleton.1 new]
          exact le_refl _
      · intro issued c mem own
        rcases List.mem_append.1 mem with old | new
        · exact inv.issued issued c old own
        · rw [List.mem_singleton.1 new]
          rfl
      · rw [consistent_seal inv.below]
        refine and_congr_right fun _ => ?_
        cases issued : h.issued with
        | true => exact ⟨fun _ _ => .inl issued, fun _ => inv.issued issued⟩
        | false =>
          have none_ := inv.readBack issued
          constructor
          · intro all _
            exact .inr fun c mem own => (all c mem own).trans none_
          · intro fresh c mem own
            exact ((fresh rfl).resolve_left (by simp [issued]) c mem own).trans none_.symm
    | relaunch =>
      have serial := open_kept inv.kept
      have e : h.step sha384 publicKey .relaunch =
          { h with node := .launch h.node.store.record, issued := false } := rfl
      rw [e]
      refine ⟨⟨n, inv.kept, le_of_eq serial, ?_, fun issued => (by cases issued), fun _ => rfl⟩,
        ⟨fun c => ⟨c, fun e => by cases e⟩, And.left⟩⟩
      intro c mem
      exact le_trans (inv.below c mem) (le_trans inv.within (le_of_eq serial.symm))
    | allocateRoute => cases sets
    | republish => cases sets
    | setOwnHandle handle faults now =>
      have e : h.step sha384 publicKey (.setOwnHandle handle faults now) = h := by
        simp only [History.step, sets]
      rw [e]
      exact ⟨⟨n, inv⟩, ⟨fun c => ⟨c, fun e => by cases e⟩, And.left⟩⟩
    | retryOwedReach faults now =>
      have e : h.step sha384 publicKey (.retryOwedReach faults now) = h := by
        simp only [History.step, sets]
      rw [e]
      exact ⟨⟨n, inv⟩, ⟨fun c => ⟨c, fun e => by cases e⟩, And.left⟩⟩

theorem consistent_run {acts : List Act} (inv : Inv h n)
    (unsaturated : Trail.Along (History.step sha384 publicKey) (Unsaturated sha384 publicKey) h acts) :
    Consistent (acts.foldl (History.step sha384 publicKey) h).controls ↔
      Consistent h.controls ∧ Trail.Along (History.step sha384 publicKey) Fresh h acts := by
  induction acts generalizing h n with
  | nil => exact (and_iff_left trivial).symm
  | cons a rest ih =>
    obtain ⟨⟨m, next⟩, seal_⟩ := inv_step inv unsaturated.1
    rw [List.foldl_cons, ih next unsaturated.2, seal_]
    exact and_assoc

/-- A profile's history from its first launch over a record that is neither lost nor damaged. -/
def start (record : Held Octets) : History := ⟨.launch record, [], false⟩

/-- In a history that never issues over the highest serial, any two control records sealed under
one serial carry the same reach and the serials do not go back, if and only if each record is
sealed under a serial issued since the last launch, or under one that none with a route or a
handle has been sealed under. -/
theorem one_reach_a_serial {record : Held Octets} (kept : Kept record n) {acts : List Act}
    (unsaturated : Trail.Along (History.step sha384 publicKey) (Unsaturated sha384 publicKey)
      (start record) acts) :
    Consistent (acts.foldl (History.step sha384 publicKey) (start record)).controls ↔
      Trail.Along (History.step sha384 publicKey) Fresh (start record) acts := by
  have inv : Inv (start record) n :=
    ⟨kept, le_of_eq (open_kept kept), fun _ mem => absurd mem List.not_mem_nil,
      fun issued => (by cases issued), fun _ => rfl⟩
  rw [consistent_run inv unsaturated]
  exact and_iff_right List.Pairwise.nil

def noFaults : SetFaults := ⟨false, none⟩

/-- A route held, and another one after a relaunch. -/
def renewed : List Act :=
  [.allocateRoute (some [1]) noFaults 5, .sealControl, .relaunch, .allocateRoute (some [2]) noFaults 3,
    .sealControl]

theorem one_reach_a_serial_renewed :
    Consistent (renewed.foldl (History.step (fun _ => none) []) (start .absent)).controls := by
  have unsaturated : Trail.Along (History.step (fun _ => none) []) (Unsaturated (fun _ => none) [])
      (start .absent) renewed := by
    refine ⟨?_, ?_, ?_, ?_, ?_, trivial⟩
    · rintro push faults now ⟨⟩
      refine .inr fun persisted undecodable read => ?_
      cases read
      decide
    · rintro push faults now ⟨⟩
    · rintro push faults now ⟨⟩
    · rintro push faults now ⟨⟩
      refine .inr fun persisted undecodable read => ?_
      have kept := readFloor_kept (.inr (Eq.refl (Held.payload (encodeReachSerial 5))))
      cases kept.symm.trans read
      decide
    · rintro push faults now ⟨⟩
  refine (one_reach_a_serial (.inl ⟨rfl, rfl⟩) unsaturated).2 ⟨?_, fun _ => .inl rfl, ?_, ?_,
    fun _ => .inl rfl, trivial⟩
  · intro e
    cases e
  · intro e
    cases e
  · intro e
    cases e

/-- The route is refused after the relaunch. -/
def refused : List Act :=
  [.allocateRoute (some [1]) noFaults 5, .sealControl, .relaunch, .allocateRoute none noFaults 9,
    .sealControl]

theorem refused_inconsistent :
    ¬ Consistent (refused.foldl (History.step (fun _ => none) []) (start .absent)).controls := by
  have run : (refused.foldl (History.step (fun _ => none) []) (start .absent)).controls =
      [(⟨some [1], none⟩, 5), (noReach, 5)] := by
    decide
  rw [run]
  decide

end Daemonseed.Dm.OwnReach
