import Daemonseed.Dm.Drop
import Daemonseed.Lib.Bytes
import Daemonseed.Lib.Runs

/-! # The rotation of the advert keys

The current key, the one retired before it and the moment its retention runs
from: a poll drops the retained key once its window is over and rotates when
the current one is due. -/
namespace Daemonseed.Dm.AdvertRotation
open Daemonseed.Lib.Bytes Daemonseed.Lib.Runs

abbrev U64 := Fin (2 ^ 64)

def saturatingAdd (a b : U64) : U64 := Fin.ofNat _ (min (a.val + b.val) (2 ^ 64 - 1))

theorem saturatingAdd_val (a b : U64) :
    (saturatingAdd a b).val = min (a.val + b.val) (2 ^ 64 - 1) := by
  simp only [saturatingAdd, Fin.val_ofNat]
  omega

theorem lt_of_lt_saturatingAdd {a b c : U64} (h : c < saturatingAdd a b) :
    c.val < a.val + b.val := by
  rw [Fin.lt_def, saturatingAdd_val] at h
  exact Nat.lt_of_lt_of_le h (Nat.min_le_left _ _)

def rotationPeriodSecs : U64 := 7 * 24 * 60 * 60

theorem rotationPeriodSecs_val : rotationPeriodSecs.val = 604800 := by decide

inductive AdvertError
  | entropy
  | module (message : String)
  deriving DecidableEq, Repr

variable {B : Type}

/-- The key encapsulation the module provides. -/
structure MlKem (B : Type) where
  /-- Both halves, the public first, from the two seeds. -/
  keygen : B → B → Except String (B × B)
  ekFromDk : B → B

structure AdvertKey (B : Type) where
  serial : U64
  notBefore : U64
  ek : B
  dk : B
  deriving DecidableEq, Repr

/-- The key that stopped being current, and the moment it did. -/
structure RetiredKey (B : Type) where
  key : AdvertKey B
  retiredAt : U64
  deriving DecidableEq, Repr

inductive Rotation
  | rotated
  | unchanged
  deriving DecidableEq, Repr

structure RetiredSnapshot (B : Type) where
  serial : U64
  retiredAt : U64
  decapsulationKey : B

structure AdvertSnapshot (B : Type) where
  serial : U64
  notBefore : U64
  decapsulationKey : B
  previous : Option (RetiredSnapshot B)

structure AdvertKeys (B : Type) where
  current : AdvertKey B
  previous : Option (RetiredKey B)
  deriving DecidableEq, Repr

/-- A fresh keypair, from the two seeds where the source of randomness gave
them. -/
def generate (K : MlKem B) (serial notBefore : U64) (seeds : Option (B × B)) :
    Except AdvertError (AdvertKey B) :=
  match seeds with
  | none => .error .entropy
  | some (d, z) =>
    match K.keygen d z with
    | .ok (ek, dk) => .ok ⟨serial, notBefore, ek, dk⟩
    | .error e => .error (.module e)

namespace AdvertKeys

variable (K : MlKem B)

def new (now : U64) (seeds : Option (B × B)) : Except AdvertError (AdvertKeys B) :=
  (generate K 0 now seeds).map (⟨·, none⟩)

def previousRetiredAt (self : AdvertKeys B) : Option U64 := self.previous.map (·.retiredAt)

def snapshot (self : AdvertKeys B) : AdvertSnapshot B where
  serial := self.current.serial
  notBefore := self.current.notBefore
  decapsulationKey := self.current.dk
  previous := self.previous.map fun p => ⟨p.key.serial, p.retiredAt, p.key.dk⟩

/-- The public halves come from the secret ones. -/
def restore (snapshot : AdvertSnapshot B) : AdvertKeys B where
  current := ⟨snapshot.serial, snapshot.notBefore, K.ekFromDk snapshot.decapsulationKey,
    snapshot.decapsulationKey⟩
  previous := snapshot.previous.map fun p =>
    -- a retained key is not published again, so when it became current is not kept
    ⟨⟨p.serial, p.retiredAt, K.ekFromDk p.decapsulationKey, p.decapsulationKey⟩, p.retiredAt⟩

/-- A retained key is dropped a full period after it stopped being current. -/
def prune (self : AdvertKeys B) (now : U64) : AdvertKeys B :=
  if self.previous.any fun p => saturatingAdd p.retiredAt rotationPeriodSecs ≤ now then
    { self with previous := none }
  else self

/-- The body both rotations share. -/
def rotate (self : AdvertKeys B) (now retiredAt : U64) (seeds : Option (B × B)) :
    Except AdvertError Unit × AdvertKeys B :=
  match generate K (saturatingAdd self.current.serial 1) now seeds with
  | .error e => (.error e, self)
  | .ok fresh => (.ok (), ⟨fresh, some ⟨self.current, retiredAt⟩⟩)

def dueAt (self : AdvertKeys B) : U64 := saturatingAdd self.current.notBefore rotationPeriodSecs

/-- The retained key is pruned first, and the one retired counts from when it
was due. -/
def rotateIfDue (self : AdvertKeys B) (now : U64) (seeds : Option (B × B)) :
    Except AdvertError Rotation × AdvertKeys B :=
  let pruned := self.prune now
  if now < pruned.dueAt then (.ok .unchanged, pruned)
  else
    match pruned.rotate K now pruned.dueAt seeds with
    | (.ok _, rotated) => (.ok .rotated, rotated)
    | (.error e, kept) => (.error e, kept)

def rotateNow (self : AdvertKeys B) (now : U64) (seeds : Option (B × B)) :
    Except AdvertError Unit × AdvertKeys B :=
  (self.prune now).rotate K now now seeds

/-- What a hello is opened with. -/
def held (self : AdvertKeys B) : Drop.AdvertKeys B where
  current := ⟨self.current.serial.val, self.current.dk⟩
  previous := self.previous.map fun p => ⟨p.key.serial.val, p.key.dk⟩

/-! ## What a call leaves -/

variable {K} {self : AdvertKeys B} {now : U64} {seeds : Option (B × B)}

@[simp] theorem prune_current : (self.prune now).current = self.current := by
  unfold prune
  split <;> rfl

@[simp] theorem prune_dueAt : (self.prune now).dueAt = self.dueAt := by
  unfold dueAt
  rw [prune_current]

theorem rotate_ok {retiredAt : U64} {after : AdvertKeys B}
    (h : self.rotate K now retiredAt seeds = (.ok (), after)) :
    after.previous = some ⟨self.current, retiredAt⟩ := by
  unfold rotate at h
  split at h
  · cases h
  · cases h
    rfl

/-- A poll that returns `Ok` has rotated at the due moment, or the key was not
yet due. -/
theorem rotateIfDue_ok {done : Rotation} {after : AdvertKeys B}
    (h : self.rotateIfDue K now seeds = (.ok done, after)) :
    now < self.dueAt ∧ after = self.prune now ∨
      self.dueAt ≤ now ∧ after.previous = some ⟨self.current, self.dueAt⟩ := by
  unfold rotateIfDue at h
  simp only [prune_dueAt] at h
  split at h
  · rename_i early
    cases h
    exact .inl ⟨early, rfl⟩
  · rename_i late
    refine .inr ⟨Fin.not_lt.1 late, ?_⟩
    split at h
    · rename_i rotated hr
      cases h
      rw [rotate_ok hr, prune_current]
    · cases h

/-! ## The window -/

/-- Any retained key was to stop being current less than a period ago. -/
def Bounded (self : AdvertKeys B) (now : U64) : Prop :=
  ∀ r ∈ self.previousRetiredAt, now.val < r.val + rotationPeriodSecs.val

instance : Decidable (self.Bounded now) :=
  inferInstanceAs (Decidable (∀ r ∈ self.previousRetiredAt, _))

/-- The current key is not overdue by a whole period. -/
def Timely (self : AdvertKeys B) (now : U64) : Prop :=
  now.val < self.dueAt.val + rotationPeriodSecs.val

theorem bounded_prune : (self.prune now).Bounded now := by
  intro r hr
  unfold prune at hr
  split at hr
  · cases hr
  · rename_i kept
    obtain ⟨p, hp, rfl⟩ := Option.map_eq_some_iff.1 hr
    rw [hp, Option.any_some, decide_eq_true_eq] at kept
    exact lt_of_lt_saturatingAdd (Fin.not_le.1 kept)

/-- A key not due yet is timely. -/
theorem timely_of_early (early : now < self.dueAt) : self.Timely now := by
  unfold Timely
  exact Nat.lt_of_lt_of_le early (Nat.le_add_right _ _)

theorem bounded_rotateIfDue {done : Rotation} {after : AdvertKeys B}
    (h : self.rotateIfDue K now seeds = (.ok done, after)) :
    after.Bounded now ↔ self.Timely now := by
  rcases rotateIfDue_ok h with ⟨early, rfl⟩ | ⟨-, retired⟩
  · exact iff_of_true bounded_prune (timely_of_early early)
  · unfold Bounded Timely previousRetiredAt
    rw [retired]
    simp

/-- Past its window a retained key opens nothing. -/
theorem expired_opens_nothing (C : Primitives.Crypto B) {serial : Nat} {ciphertext : B}
    (expired : ∀ r ∈ self.previousRetiredAt, saturatingAdd r rotationPeriodSecs ≤ now)
    (other : self.current.serial.val ≠ serial) :
    (self.prune now).held.decapsulate C serial ciphertext = none := by
  have gone : (self.prune now).previous = none := by
    unfold prune
    split
    · rfl
    · rename_i kept
      cases hp : self.previous with
      | none => rfl
      | some p =>
        rw [hp, Option.any_some, decide_eq_true_eq] at kept
        exact absurd (expired p.retiredAt (by rw [previousRetiredAt, hp]; rfl)) kept
  unfold Drop.AdvertKeys.decapsulate held
  simp only [gone, prune_current, if_neg other, Option.map_none]

end AdvertKeys

/-! ## Every run -/

/-- A call on the keys a process holds, or on those it has on disk. -/
inductive Call (B : Type)
  | rotateIfDue (now : U64) (seeds : Option (B × B))
  | rotateNow (now : U64) (seeds : Option (B × B))
  | prune (now : U64)
  | snapshot
  | restore (i : Nat)

/-- The keys, and every snapshot taken of them. -/
structure World (B : Type) where
  keys : AdvertKeys B
  saved : List (AdvertSnapshot B)

def World.step (K : MlKem B) (w : World B) : Call B → World B
  | .rotateIfDue now seeds => { w with keys := (w.keys.rotateIfDue K now seeds).2 }
  | .rotateNow now seeds => { w with keys := (w.keys.rotateNow K now seeds).2 }
  | .prune now => { w with keys := w.keys.prune now }
  | .snapshot => { w with saved := w.saved ++ [w.keys.snapshot] }
  | .restore i =>
    match w.saved[i]? with
    | some snapshot => { w with keys := .restore K snapshot }
    | none => w

/-- A poll that returns `Ok` leaves no key past its window. -/
def Bounds (K : MlKem B) (w : World B) (call : Call B) : Prop :=
  ∀ now seeds done, call = .rotateIfDue now seeds →
    (w.keys.rotateIfDue K now seeds).1 = .ok done → (w.step K call).keys.Bounded now

/-- A poll that returns `Ok` is less than a period late. -/
def InTime (K : MlKem B) (w : World B) (call : Call B) : Prop :=
  ∀ now seeds done, call = .rotateIfDue now seeds →
    (w.keys.rotateIfDue K now seeds).1 = .ok done → w.keys.Timely now

theorem bounds_iff (K : MlKem B) (w : World B) (call : Call B) :
    Bounds K w call ↔ InTime K w call := by
  refine forall_congr' fun now => forall_congr' fun seeds => forall_congr' fun done => ?_
  refine forall_congr' fun hc => forall_congr' fun hd => ?_
  subst hc
  cases h : w.keys.rotateIfDue K now seeds with
  | mk result after =>
    rw [h] at hd
    obtain rfl : result = .ok done := hd
    rw [← AdvertKeys.bounded_rotateIfDue h, World.step, h]

/-- **The retention of a retired key is bounded in the runs whose polls come
in time, and in no others.** -/
theorem retention_bounded_iff (K : MlKem B) (keys : AdvertKeys B) (calls : List (Call B)) :
    Trail.Along (World.step K) (Bounds K) ⟨keys, []⟩ calls ↔
      Trail.Along (World.step K) (InTime K) ⟨keys, []⟩ calls :=
  Trail.along_congr (bounds_iff K) ⟨keys, []⟩ calls

/-- Keys that are their own seeds. -/
def plainKem : MlKem Nat := ⟨fun d z => .ok (d, z), fun dk => dk⟩

/-- Polled for the first time two periods after it was made, the first key is
retained a whole period after it was to stop being current. -/
theorem late_poll_retains :
    ∃ keys : AdvertKeys Nat, AdvertKeys.new plainKem 0 (some (1, 2)) = .ok keys ∧
      ¬ Trail.Along (World.step plainKem) (Bounds plainKem) ⟨keys, []⟩
        [.rotateIfDue 1209600 (some (3, 4))] := by
  refine ⟨⟨⟨0, 0, 1, 2⟩, none⟩, rfl, fun h => ?_⟩
  have bounded := h.1 1209600 (some (3, 4)) .rotated rfl (by decide)
  have retained : (AdvertKeys.rotateIfDue plainKem ⟨⟨0, 0, 1, 2⟩, none⟩ 1209600
      (some (3, 4))).2.previousRetiredAt = some 604800 := by decide
  exact absurd (bounded 604800 retained) (by decide)

end Daemonseed.Dm.AdvertRotation
