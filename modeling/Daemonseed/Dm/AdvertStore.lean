import Daemonseed.Dm.AdvertWindow

/-! # The stored advert keys

The record of the keys with the serial of the last advert confirmed published: what
changes it, which is read, decided and written in one critical section; and the
poll of a runner over it, which also replaces a key made in the future. -/
namespace Daemonseed.Dm.AdvertStore
open Daemonseed.Dm.AdvertRotation Daemonseed.Dm.AdvertWindow

variable {B : Type}

/-- The stored keys, and the serial of the last advert confirmed published. -/
structure AdvertRecord (B : Type) where
  snapshot : AdvertSnapshot B
  published : Option U64

inductive StoreError
  | missingAdvertKeys
  | unbuiltAdvertSerial (serial current : U64)
  deriving DecidableEq, Repr

/-- A record written whole names no published advert. -/
def persistAdvertKeys (snapshot : AdvertSnapshot B) : Option (AdvertRecord B) := some ⟨snapshot, none⟩

/-- The keys are changed by `f`, which is handed the published serial beside them, and
written whatever it returns. -/
def updateAdvertState {R : Type} (K : MlKem B)
    (f : AdvertKeys B → Option U64 → R × AdvertKeys B) :
    Option (AdvertRecord B) → Except StoreError R × Option (AdvertRecord B)
  | none => (.error .missingAdvertKeys, none)
  | some stored =>
    let out := f (.restore K stored.snapshot) stored.published
    (.ok out.1, some ⟨out.2.snapshot, stored.published⟩)

def updateAdvertKeys {R : Type} (K : MlKem B) (f : AdvertKeys B → R × AdvertKeys B) :
    Option (AdvertRecord B) → Except StoreError R × Option (AdvertRecord B) :=
  updateAdvertState K fun keys _ => f keys

/-- The published serial only moves forward, and not past the current key's. -/
def markAdvertPublished (serial : U64) :
    Option (AdvertRecord B) → Except StoreError Unit × Option (AdvertRecord B)
  | none => (.error .missingAdvertKeys, none)
  | some stored =>
    if stored.snapshot.serial < serial then
      (.error (.unbuiltAdvertSerial serial stored.snapshot.serial), some stored)
    else
      (.ok (), some ⟨stored.snapshot, some ((stored.published.map (max · serial)).getD serial)⟩)

/-! ## The poll -/

/-- Whether the current key became current too far after now for any correspondent to
have used it. -/
def currentKeyBeyondSkew (keys : AdvertKeys B) (now : U64) : Prop :=
  saturatingAdd now clockSkewSecs < keys.current.notBefore

instance (keys : AdvertKeys B) (now : U64) : Decidable (currentKeyBeyondSkew keys now) :=
  inferInstanceAs (Decidable (saturatingAdd now clockSkewSecs < keys.current.notBefore))

/-- A retained key, retired no later than now. -/
def retiredBy (now : U64) (p : RetiredSnapshot B) : RetiredSnapshot B :=
  { p with retiredAt := min p.retiredAt now }

/-- A key made in the future is replaced by one current from now, and dropped: the key
before it stays retained. -/
def rotateAdvert (K : MlKem B) (keys : AdvertKeys B) (now : U64) (seeds : Option (B × B)) :
    Except AdvertError Rotation × AdvertKeys B :=
  if currentKeyBeyondSkew keys now then
    match keys.rotateNow K now seeds with
    | (.error e, kept) => (.error e, kept)
    | (.ok _, rotated) =>
      let after := { rotated.snapshot with
        previous := keys.snapshot.previous.map (retiredBy now) }
      (.ok .rotated, (AdvertKeys.restore K after).prune now)
  else keys.rotateIfDue K now seeds

/-- The poll of a runner over what is stored. -/
def poll (K : MlKem B) (now : U64) (seeds : Option (B × B)) :
    Option (AdvertRecord B) → Except StoreError (Except AdvertError Rotation) × Option (AdvertRecord B) :=
  updateAdvertKeys K fun keys => rotateAdvert K keys now seeds

/-! ## What a call leaves stored -/

/-- A retained key is dropped a full period after its retention runs from. -/
def pruned (s : AdvertSnapshot B) (now : U64) : AdvertSnapshot B :=
  if s.previous.any fun p => saturatingAdd p.retiredAt rotationPeriodSecs ≤ now then
    { s with previous := none }
  else s

/-- The key that is fresh at the next serial, over what is retained. -/
def fresh (s : AdvertSnapshot B) (now : U64) (dk : B) (previous : Option (RetiredSnapshot B)) :
    AdvertSnapshot B :=
  ⟨saturatingAdd s.serial 1, now, dk, previous⟩

/-- The current key, retired at a time. -/
def retired (s : AdvertSnapshot B) (at_ : U64) : RetiredSnapshot B :=
  ⟨s.serial, at_, s.decapsulationKey⟩

def due (s : AdvertSnapshot B) : U64 := saturatingAdd s.notBefore rotationPeriodSecs

/-- The current key was made in the future, further than any correspondent allows. -/
def Beyond (s : AdvertSnapshot B) (now : U64) : Prop := saturatingAdd now clockSkewSecs < s.notBefore

/-- What a poll leaves stored. -/
inductive Polled (s : AdvertSnapshot B) (now : U64) : AdvertSnapshot B → Prop
  | kept : Polled s now (pruned s now)
  | rotated (dk : B) (near : ¬Beyond s now) (late : due s ≤ now) :
      Polled s now (fresh s now dk (some (retired s (due s))))
  | replaced (dk : B) (beyond : Beyond s now) :
      Polled s now (pruned (fresh s now dk (s.previous.map (retiredBy now))) now)

section

variable {K : MlKem B} {s : AdvertSnapshot B} {keys : AdvertKeys B} {now : U64}
  {seeds : Option (B × B)}

theorem restore_snapshot (K : MlKem B) (s : AdvertSnapshot B) : (AdvertKeys.restore K s).snapshot = s := by
  obtain ⟨serial, notBefore, dk, previous⟩ := s
  cases previous <;> rfl

theorem prune_snapshot (keys : AdvertKeys B) (now : U64) :
    (keys.prune now).snapshot = pruned keys.snapshot now := by
  have expired : (keys.snapshot.previous.any fun p =>
      saturatingAdd p.retiredAt rotationPeriodSecs ≤ now) =
        keys.previous.any fun p => saturatingAdd p.retiredAt rotationPeriodSecs ≤ now := by
    unfold AdvertKeys.snapshot
    rw [Option.any_map]
  unfold AdvertKeys.prune pruned
  rw [expired]
  exact apply_ite AdvertKeys.snapshot _ _ _

@[simp] theorem pruned_serial : (pruned s now).serial = s.serial := by
  unfold pruned
  split <;> rfl

@[simp] theorem pruned_notBefore : (pruned s now).notBefore = s.notBefore := by
  unfold pruned
  split <;> rfl

@[simp] theorem pruned_decapsulationKey : (pruned s now).decapsulationKey = s.decapsulationKey := by
  unfold pruned
  split <;> rfl

theorem pruned_previous {p : RetiredSnapshot B} :
    (pruned s now).previous = some p ↔
      s.previous = some p ∧ now < saturatingAdd p.retiredAt rotationPeriodSecs := by
  unfold pruned
  cases previous : s.previous with
  | none => simp [previous]
  | some q =>
    rw [Option.any_some]
    split
    next expired =>
      rw [decide_eq_true_eq] at expired
      refine iff_of_false nofun fun ⟨same, inside⟩ => ?_
      obtain rfl := Option.some.inj same
      exact absurd expired (Fin.not_le.2 inside)
    next inside =>
      rw [decide_eq_true_eq, Fin.not_le] at inside
      rw [previous]
      refine ⟨fun same => ⟨same, ?_⟩, And.left⟩
      obtain rfl := Option.some.inj same
      exact inside

theorem restore_dueAt (K : MlKem B) (s : AdvertSnapshot B) : (AdvertKeys.restore K s).dueAt = due s := by
  unfold AdvertKeys.dueAt due
  rfl

theorem rotateIfDue_polled (near : ¬Beyond s now) :
    Polled s now ((AdvertKeys.restore K s).rotateIfDue K now seeds).2.snapshot := by
  obtain same | ⟨late, key, serial, notBefore, -, new⟩ :=
    rotateIfDue_cases K (AdvertKeys.restore K s) now seeds
  · rw [same, prune_snapshot, restore_snapshot]
    exact .kept
  · have left : ((AdvertKeys.restore K s).rotateIfDue K now seeds).2.snapshot =
        fresh s now key.dk (some (retired s (due s))) := by
      rw [new, AdvertKeys.snapshot, serial, notBefore]
      rfl
    rw [left]
    exact .rotated key.dk near late

theorem generate_ok {serial notBefore : U64} {key : AdvertKey B}
    (made : generate K serial notBefore seeds = .ok key) :
    key.serial = serial ∧ key.notBefore = notBefore := by
  unfold generate at made
  split at made
  · cases made
  · split at made
    · cases made
      exact ⟨rfl, rfl⟩
    · cases made

/-- A poll keeps, rotates or replaces the current key; and where it returns `Ok` the
one it leaves is not made in the future. -/
theorem rotateAdvert_polled (K : MlKem B) (s : AdvertSnapshot B) (now : U64)
    (seeds : Option (B × B)) :
    Polled s now (rotateAdvert K (.restore K s) now seeds).2.snapshot ∧
      ∀ done, (rotateAdvert K (.restore K s) now seeds).1 = .ok done →
        ¬Beyond (rotateAdvert K (.restore K s) now seeds).2.snapshot now := by
  have nowNear : ¬saturatingAdd now clockSkewSecs < now := by
    rw [Fin.lt_def, saturatingAdd_val]
    have := now.isLt
    omega
  unfold rotateAdvert
  by_cases beyond : currentKeyBeyondSkew (.restore K s) now
  · rw [if_pos beyond]
    unfold AdvertKeys.rotateNow AdvertKeys.rotate
    rw [AdvertKeys.prune_current]
    cases made : generate K (saturatingAdd (AdvertKeys.restore K s).current.serial 1) now seeds with
    | error e =>
      dsimp only
      rw [prune_snapshot, restore_snapshot]
      exact ⟨.kept, nofun⟩
    | ok key =>
      obtain ⟨serial, notBefore⟩ := generate_ok made
      dsimp only
      rw [prune_snapshot, restore_snapshot, restore_snapshot]
      dsimp only [AdvertKeys.snapshot]
      rw [serial, notBefore]
      refine ⟨.replaced key.dk beyond, fun _ _ => ?_⟩
      rwa [Beyond, pruned_notBefore]
  · rw [if_neg beyond]
    have polled : Polled s now ((AdvertKeys.restore K s).rotateIfDue K now seeds).2.snapshot :=
      rotateIfDue_polled beyond
    refine ⟨polled, fun _ _ => ?_⟩
    generalize ((AdvertKeys.restore K s).rotateIfDue K now seeds).2.snapshot = left at polled
    cases polled with
    | kept => rwa [Beyond, pruned_notBefore]
    | rotated => exact nowNear
    | replaced _ is => exact absurd is beyond

end

end Daemonseed.Dm.AdvertStore
