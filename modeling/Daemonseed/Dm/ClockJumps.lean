import Daemonseed.Dm.AdvertStore

/-! # Advert keys under a wrong clock

Polls at whatever the system clock reads, with marks and restarts between them. A key
is current, retained or gone; which polls drop a retained one, whatever the clock did
before, and what the readings cannot break. -/
namespace Daemonseed.Dm.ClockJumps
open Daemonseed.Dm.AdvertRotation Daemonseed.Dm.AdvertWindow Daemonseed.Dm.AdvertStore
open Daemonseed.Dm.Primitives Daemonseed.Lib.Runs

variable {B : Type}

/-- A poll at a reading of the clock, a mark of the advert published, or a restart. -/
inductive Event (B : Type)
  | poll (now : U64) (seeds : Option (B × B))
  | markPublished (serial : U64)
  | restart

def Event.isPoll : Event B → Bool
  | poll _ _ => true
  | markPublished _ | restart => false

section

variable (K : MlKem B)

/-- A restart reads what is stored, which it leaves. -/
def step (stored : AdvertRecord B) : Event B → AdvertRecord B
  | .poll now seeds => ((poll K now seeds (some stored)).2).getD stored
  | .markPublished serial => ((markAdvertPublished serial (some stored)).2).getD stored
  | .restart => stored

def run (stored : AdvertRecord B) (events : List (Event B)) : AdvertRecord B :=
  events.foldl (step K) stored

instance (s : AdvertSnapshot B) (now : U64) : Decidable (Beyond s now) :=
  inferInstanceAs (Decidable (saturatingAdd now clockSkewSecs < s.notBefore))

/-- The readings of the polls that found a current key made in the future. -/
def foundBeyond : AdvertRecord B → List (Event B) → List U64
  | _, [] => []
  | stored, event :: rest =>
    let later := foundBeyond (step K stored event) rest
    match event with
    | .poll now _ => if Beyond stored.snapshot now then now :: later else later
    | .markPublished _ | .restart => later

end

/-- What an event can leave stored. -/
def Stepped (s : AdvertSnapshot B) (event : Event B) (s' : AdvertSnapshot B) : Prop :=
  match event with
  | .poll now _ => Polled s now s'
  | .markPublished _ | .restart => s' = s

theorem step_stepped (K : MlKem B) (stored : AdvertRecord B) (event : Event B) :
    Stepped stored.snapshot event (step K stored event).snapshot := by
  cases event with
  | poll now seeds => exact (rotateAdvert_polled K stored.snapshot now seeds).1
  | restart => rfl
  | markPublished serial =>
    show ((markAdvertPublished serial (some stored)).2.getD stored).snapshot = stored.snapshot
    by_cases past : stored.snapshot.serial < serial
    · simp only [markAdvertPublished, if_pos past, Option.getD_some]
    · simp only [markAdvertPublished, if_neg past, Option.getD_some]

/-! ## The serials -/

/-- There have been as many polls as serials, and a retained key is the older. -/
structure Numbered (polls : Nat) (s : AdvertSnapshot B) : Prop where
  bound : s.serial.val ≤ polls
  before : ∀ p, s.previous = some p → p.serial < s.serial

/-! ## Where a key is -/

/-- The key that was current is. -/
structure Own (key s : AdvertSnapshot B) : Prop where
  serial : s.serial = key.serial
  notBefore : s.notBefore = key.notBefore
  decapsulationKey : s.decapsulationKey = key.decapsulationKey

/-- It is retained, from no later than the current key's start. -/
structure Aside (key s : AdvertSnapshot B) : Prop where
  older : key.serial < s.serial
  retained : ∃ p, s.previous = some p ∧ p.serial = key.serial ∧
    p.decapsulationKey = key.decapsulationKey ∧ p.retiredAt ≤ s.notBefore

/-- It is dropped. -/
structure Gone (key s : AdvertSnapshot B) : Prop where
  older : key.serial < s.serial
  dropped : ∀ p, s.previous = some p → p.serial ≠ key.serial

def Kept (key s : AdvertSnapshot B) : Prop := Own key s ∨ Aside key s

/-- No poll finds the key current and made in the future. -/
def Ahead (key : AdvertSnapshot B) (stored : AdvertRecord B) : Event B → Prop
  | .poll now _ => stored.snapshot.serial = key.serial → ¬Beyond stored.snapshot now
  | .markPublished _ | .restart => True

/-- No poll finds the key retained since a whole period. -/
def Inside (key : AdvertSnapshot B) (stored : AdvertRecord B) : Event B → Prop
  | .poll now _ => ∀ p, stored.snapshot.previous = some p → p.serial = key.serial →
      now < saturatingAdd p.retiredAt rotationPeriodSecs
  | .markPublished _ | .restart => True

section

variable {key s s' : AdvertSnapshot B} {now : U64} {polls : Nat}

theorem fresh_later (room : s.serial.val < 2 ^ 64 - 1) (now : U64) (dk : B)
    (previous : Option (RetiredSnapshot B)) : s.serial < (fresh s now dk previous).serial := by
  rw [Fin.lt_def, fresh, saturatingAdd_val]
  have one : (1 : U64).val = 1 := rfl
  omega

theorem fresh_val (dk : B) (previous : Option (RetiredSnapshot B)) :
    (fresh s now dk previous).serial.val ≤ s.serial.val + 1 := by
  rw [fresh, saturatingAdd_val]
  have one : (1 : U64).val = 1 := rfl
  omega

theorem Numbered.polled (h : Numbered polls s) (room : polls < 2 ^ 64 - 1)
    (polled : Polled s now s') : Numbered (polls + 1) s' := by
  have later := fresh_later (Nat.lt_of_le_of_lt h.bound room) now
  cases polled with
  | kept =>
    refine ⟨?_, fun p same => ?_⟩
    · rw [pruned_serial]
      exact h.bound.trans (Nat.le_succ _)
    · rw [pruned_serial]
      exact h.before p (pruned_previous.1 same).1
  | rotated dk =>
    refine ⟨(fresh_val _ _).trans (Nat.succ_le_succ h.bound), fun p same => ?_⟩
    obtain rfl := Option.some.inj same
    exact later dk _
  | replaced dk =>
    refine ⟨?_, fun p same => ?_⟩
    · rw [pruned_serial]
      exact (fresh_val _ _).trans (Nat.succ_le_succ h.bound)
    · rw [pruned_serial]
      obtain ⟨q, held, rfl⟩ := Option.map_eq_some_iff.1 (pruned_previous.1 same).1
      exact (h.before q held).trans (later dk _)

/-- A key that is current stays so, or is retained, or is dropped by a poll that finds it
made in the future. -/
theorem Own.polled (h : Own key s) (numbered : Numbered polls s) (room : polls < 2 ^ 64 - 1)
    (polled : Polled s now s') :
    (¬Beyond s now → Kept key s') ∧ (Own key s' ∨ Aside key s' ∨ Gone key s') := by
  have later := fresh_later (Nat.lt_of_le_of_lt numbered.bound room) now
  rw [h.serial] at later
  cases polled with
  | kept =>
    have own : Own key (pruned s now) := by
      refine ⟨?_, ?_, ?_⟩
      · rw [pruned_serial, h.serial]
      · rw [pruned_notBefore, h.notBefore]
      · rw [pruned_decapsulationKey, h.decapsulationKey]
    exact ⟨fun _ => .inl own, .inl own⟩
  | rotated dk near late =>
    have aside : Aside key (fresh s now dk (some (retired s (due s)))) :=
      ⟨later dk _, _, rfl, h.serial, h.decapsulationKey, late⟩
    exact ⟨fun _ => .inr aside, .inr (.inl aside)⟩
  | replaced dk beyond =>
    refine ⟨fun near => absurd beyond near, .inr (.inr ⟨?_, fun p same => ?_⟩)⟩
    · rw [pruned_serial]
      exact later dk _
    · obtain ⟨q, held, rfl⟩ := Option.map_eq_some_iff.1 (pruned_previous.1 same).1
      exact (h.serial ▸ numbered.before q held).ne

/-- Lowering the moment a retention runs from to the poll's own ends no retention at it. -/
theorem inside_retiredBy {p : RetiredSnapshot B} (early : now.val < 2 ^ 64 - 1) :
    now < saturatingAdd (retiredBy now p).retiredAt rotationPeriodSecs ↔
      now < saturatingAdd p.retiredAt rotationPeriodSecs := by
  rw [Fin.lt_def, Fin.lt_def, saturatingAdd_val, saturatingAdd_val, rotationPeriodSecs_val,
    retiredBy]
  dsimp only
  obtain le | le := le_total p.retiredAt now
  · rw [min_eq_left le]
  · rw [min_eq_right le]
    rw [Fin.le_def] at le
    omega

theorem early_of_beyond (beyond : Beyond s now) : now.val < 2 ^ 64 - 1 := by
  rw [Beyond, Fin.lt_def, saturatingAdd_val] at beyond
  have := s.notBefore.isLt
  omega

/-- A retained key is dropped by just the polls a whole period after its retention
runs from. -/
theorem Aside.polled (h : Aside key s) (room : s.serial.val < 2 ^ 64 - 1)
    (polled : Polled s now s') :
    (Aside key s' ∨ Gone key s') ∧ (Aside key s' ↔ ∀ p, s.previous = some p →
      p.serial = key.serial → now < saturatingAdd p.retiredAt rotationPeriodSecs) := by
  obtain ⟨older, p, held, serial, dk, since⟩ := h
  have later := fun dk previous => older.trans (fresh_later room now dk previous)
  have only : (∀ p, s.previous = some p → p.serial = key.serial →
      now < saturatingAdd p.retiredAt rotationPeriodSecs) ↔
        now < saturatingAdd p.retiredAt rotationPeriodSecs := by
    refine ⟨fun all => all p held serial, fun inside q same _ => ?_⟩
    obtain rfl := Option.some.inj (held.symm.trans same)
    exact inside
  rw [only]
  by_cases inside : now < saturatingAdd p.retiredAt rotationPeriodSecs
  · have aside : Aside key s' := by
      cases polled with
      | kept =>
        exact ⟨by rwa [pruned_serial], p, pruned_previous.2 ⟨held, inside⟩, serial, dk,
          by rwa [pruned_notBefore]⟩
      | rotated new near late =>
        -- the current key began no earlier, so it is not due before the retention ends
        exact absurd (late.trans_lt inside)
          (Fin.not_lt.2 (saturatingAdd_mono rotationPeriodSecs since))
      | replaced new beyond =>
        refine ⟨by rw [pruned_serial]; exact later new _, retiredBy now p,
          pruned_previous.2 ⟨?_, (inside_retiredBy (early_of_beyond beyond)).2 inside⟩, serial, dk, ?_⟩
        · rw [fresh, held, Option.map_some]
        · rw [pruned_notBefore]
          exact min_le_right _ _
    exact ⟨.inl aside, iff_of_true aside inside⟩
  · have gone : Gone key s' := by
      cases polled with
      | kept =>
        refine ⟨by rwa [pruned_serial], fun q same => ?_⟩
        obtain ⟨same, within⟩ := pruned_previous.1 same
        obtain rfl := Option.some.inj (held.symm.trans same)
        exact absurd within inside
      | rotated new =>
        refine ⟨later new _, fun q same => ?_⟩
        obtain rfl := Option.some.inj same
        exact older.ne'
      | replaced new beyond =>
        refine ⟨by rw [pruned_serial]; exact later new _, fun q same => ?_⟩
        obtain ⟨same, within⟩ := pruned_previous.1 same
        rw [fresh, held, Option.map_some] at same
        obtain rfl := Option.some.inj same
        exact absurd ((inside_retiredBy (early_of_beyond beyond)).1 within) inside
    refine ⟨.inr gone, iff_of_false (fun aside => ?_) inside⟩
    obtain ⟨-, q, same, serial, -⟩ := aside
    exact gone.dropped q same serial

theorem Gone.polled (h : Gone key s) (room : s.serial.val < 2 ^ 64 - 1)
    (polled : Polled s now s') : Gone key s' := by
  have later := fun dk previous => h.older.trans (fresh_later room now dk previous)
  cases polled with
  | kept =>
    refine ⟨?_, fun p same => h.dropped p (pruned_previous.1 same).1⟩
    rw [pruned_serial]
    exact h.older
  | rotated dk =>
    refine ⟨later dk _, fun p same => ?_⟩
    obtain rfl := Option.some.inj same
    exact h.older.ne'
  | replaced dk =>
    refine ⟨by rw [pruned_serial]; exact later dk _, fun p same => ?_⟩
    obtain ⟨q, held, rfl⟩ := Option.map_eq_some_iff.1 (pruned_previous.1 same).1
    exact h.dropped q held

theorem Gone.not_kept (h : Gone key s) : ¬Kept key s := by
  rintro (own | aside)
  · exact h.older.ne' own.serial
  · obtain ⟨-, p, held, serial, -⟩ := aside
    exact h.dropped p held serial

end

/-! ## Every run -/

/-- How many polls there are. -/
def pollCount (events : List (Event B)) : Nat := events.countP (·.isPoll)

theorem pollCount_cons (event : Event B) (rest : List (Event B)) :
    pollCount (event :: rest) = pollCount rest + pollCount [event] := by
  simp [pollCount, List.countP_cons]

/-- The key is somewhere, and the serials are numbered. -/
structure Placed (key : AdvertSnapshot B) (polls : Nat) (s : AdvertSnapshot B) : Prop where
  place : Own key s ∨ Aside key s ∨ Gone key s
  numbered : Numbered polls s

/-- The moment the retention of a key runs from: when it was due, or an earlier one of
the readings. -/
def Since (key : AdvertSnapshot B) (readings : List U64) (s : AdvertSnapshot B) : Prop :=
  ∀ p, s.previous = some p → p.serial = key.serial →
    p.retiredAt = due key ∨ p.retiredAt < due key ∧ p.retiredAt ∈ readings

section

variable {K : MlKem B} {key s s' : AdvertSnapshot B} {stored : AdvertRecord B} {event : Event B}
  {events : List (Event B)} {polls : Nat} {readings : List U64}

theorem Placed.stepped (h : Placed key polls s) (few : polls + pollCount [event] < 2 ^ 64)
    (stepped : Stepped s event s') : Placed key (polls + pollCount [event]) s' := by
  cases event with
  | poll now seeds =>
    have room : polls < 2 ^ 64 - 1 := Nat.lt_sub_of_add_lt few
    refine ⟨?_, h.numbered.polled room stepped⟩
    obtain own | aside | gone := h.place
    · exact (own.polled h.numbered room stepped).2
    · exact .inr (aside.polled (Nat.lt_of_le_of_lt h.numbered.bound room) stepped).1
    · exact .inr (.inr (gone.polled (Nat.lt_of_le_of_lt h.numbered.bound room) stepped))
  | markPublished serial =>
    obtain rfl : s' = s := stepped
    exact h
  | restart =>
    obtain rfl : s' = s := stepped
    exact h

theorem Placed.run (h : Placed key polls stored.snapshot)
    (few : polls + pollCount events < 2 ^ 64) :
    Placed key (polls + pollCount events) (run K stored events).snapshot := by
  induction events generalizing stored polls with
  | nil => exact h
  | cons event rest ih =>
    rw [pollCount_cons] at few ⊢
    have next := h.stepped (by omega) (step_stepped K stored event)
    have last := ih next (by omega)
    rwa [show polls + pollCount [event] + pollCount rest =
      polls + (pollCount rest + pollCount [event]) by omega] at last

/-- A key that is current or retained is so after a step unless it has been retained a
whole period. -/
theorem Placed.kept_step (h : Placed key polls stored.snapshot)
    (few : polls + pollCount [event] < 2 ^ 64) (ahead : Ahead key stored event) :
    Kept key (step K stored event).snapshot ↔ Kept key stored.snapshot ∧ Inside key stored event := by
  have stepped := step_stepped K stored event
  cases event with
  | poll now seeds =>
    have room : polls < 2 ^ 64 - 1 := Nat.lt_sub_of_add_lt few
    obtain own | aside | gone := h.place
    · refine iff_of_true ((own.polled h.numbered room stepped).1 (ahead own.serial))
        ⟨.inl own, fun p held serial => ?_⟩
      exact absurd (serial.trans own.serial.symm) (h.numbered.before p held).ne
    · obtain ⟨place, inside⟩ :=
        aside.polled (Nat.lt_of_le_of_lt h.numbered.bound room) stepped
      rw [and_iff_right (show Kept key stored.snapshot from .inr aside)]
      refine Iff.trans ?_ inside
      refine ⟨fun kept => place.resolve_right fun gone => gone.not_kept kept, .inr⟩
    · exact iff_of_false
        (gone.polled (Nat.lt_of_le_of_lt h.numbered.bound room) stepped).not_kept
        fun kept => gone.not_kept kept.1
  | markPublished serial =>
    rw [show (step K stored (.markPublished serial)).snapshot = stored.snapshot from stepped]
    exact (and_iff_left trivial).symm
  | restart => exact (and_iff_left trivial).symm

theorem Placed.kept_run (h : Placed key polls stored.snapshot)
    (few : polls + pollCount events < 2 ^ 64)
    (ahead : Trail.Along (step K) (Ahead key) stored events) :
    Kept key (ClockJumps.run K stored events).snapshot ↔
      Kept key stored.snapshot ∧ Trail.Along (step K) (Inside key) stored events := by
  induction events generalizing stored polls with
  | nil => exact (and_iff_left trivial).symm
  | cons event rest ih =>
    rw [pollCount_cons] at few
    have next := h.stepped (by omega) (step_stepped K stored event)
    refine (ih next (by omega) ahead.2).trans ?_
    rw [h.kept_step (by omega) ahead.1, and_assoc]
    exact Iff.rfl

theorem Since.mono {more : List U64} (h : Since key readings s) (sub : readings ⊆ more) :
    Since key more s := fun p held serial =>
  (h p held serial).imp_right fun ⟨early, mem⟩ => ⟨early, sub mem⟩

/-- What a poll that found the current key beyond the skew lowers a moment to is its own
reading. -/
theorem Since.polled {now : U64} (h : Since key readings s) (placed : Placed key polls s)
    (polled : Polled s now s') :
    Since key (if Beyond s now then now :: readings else readings) s' := by
  have sub : readings ⊆ if Beyond s now then now :: readings else readings := by
    split
    · exact List.subset_cons_self _ _
    · exact List.Subset.refl _
  intro p same serial
  cases polled with
  | kept => exact h.mono sub p (pruned_previous.1 same).1 serial
  | rotated dk =>
    obtain rfl := Option.some.inj same
    obtain own | aside | gone := placed.place
    · exact .inl (by rw [retired, due, due, own.notBefore])
    · exact absurd serial aside.older.ne'
    · exact absurd serial gone.older.ne'
  | replaced dk beyond =>
    obtain ⟨q, held, rfl⟩ := Option.map_eq_some_iff.1 (pruned_previous.1 same).1
    rw [if_pos beyond]
    obtain le | lt := le_or_gt q.retiredAt now
    · rw [retiredBy, min_eq_left le]
      exact (h q held serial).imp_right fun ⟨early, mem⟩ => ⟨early, List.mem_cons_of_mem _ mem⟩
    · rw [retiredBy, min_eq_right lt.le]
      refine .inr ⟨lt.trans_le ?_, List.mem_cons_self⟩
      obtain same | ⟨early, -⟩ := h q held serial
      · exact same.le
      · exact early.le

theorem Since.run (h : Since key readings stored.snapshot) (placed : Placed key polls stored.snapshot)
    (few : polls + pollCount events < 2 ^ 64) :
    Since key (readings ++ foundBeyond K stored events) (run K stored events).snapshot := by
  induction events generalizing stored polls readings with
  | nil => exact h.mono (List.subset_append_left _ _)
  | cons event rest ih =>
    rw [pollCount_cons] at few
    have stepped := step_stepped K stored event
    have next := placed.stepped (by omega) stepped
    have last {more : List U64} (h : Since key more (step K stored event).snapshot) :=
      ih h next (by omega)
    cases event with
    | poll now seeds =>
      refine (last (h.polled placed stepped)).mono ?_
      rw [foundBeyond]
      split
      · exact fun x => by simp; tauto
      · exact List.Subset.refl _
    | markPublished serial =>
      refine last ?_
      rw [show (step K stored (.markPublished serial)).snapshot = stored.snapshot from stepped]
      exact h
    | restart => exact last h

/-! ## What opens -/

/-- What is sealed to a key opens under its serial. -/
def Opens (C : Crypto B) (K : MlKem B) (key : AdvertSnapshot B) (stored : AdvertRecord B) : Prop :=
  ∀ ct, (AdvertKeys.restore K stored.snapshot).held.decapsulate C key.serial.val ct =
    some (C.decapsulate key.decapsulationKey ct)

theorem Kept.opens (C : Crypto B) (K : MlKem B) (h : Kept key stored.snapshot) :
    Opens C K key stored := by
  intro ct
  unfold Drop.AdvertKeys.decapsulate AdvertKeys.held AdvertKeys.restore
  dsimp only
  obtain own | ⟨older, p, held, serial, dk, -⟩ := h
  · rw [if_pos (congrArg Fin.val own.serial), own.decapsulationKey]
  · rw [if_neg (fun same => older.ne' (Fin.ext same)), held, Option.map_some, Option.map_some]
    dsimp only
    rw [if_pos (congrArg Fin.val serial), dk]

theorem Gone.opens_nothing (C : Crypto B) (K : MlKem B) (h : Gone key stored.snapshot) :
    ¬Opens C K key stored := by
  intro opens
  have opened := opens key.decapsulationKey
  unfold Drop.AdvertKeys.decapsulate AdvertKeys.held AdvertKeys.restore at opened
  dsimp only at opened
  rw [if_neg fun same => h.older.ne' (Fin.ext same)] at opened
  cases held : stored.snapshot.previous with
  | none =>
    rw [held] at opened
    cases opened
  | some p =>
    rw [held, Option.map_some, Option.map_some] at opened
    dsimp only at opened
    rw [if_neg fun same => h.dropped p held (Fin.ext same)] at opened
    cases opened

theorem Placed.opens_iff (C : Crypto B) (K : MlKem B) (h : Placed key polls stored.snapshot) :
    Opens C K key stored ↔ Kept key stored.snapshot := by
  refine ⟨fun opens => ?_, (·.opens C K)⟩
  obtain own | aside | gone := h.place
  · exact .inl own
  · exact .inr aside
  · exact absurd opens (gone.opens_nothing C K)

/-- Whatever is held under a key's serial is that key. -/
theorem Placed.same_key (h : Placed key polls s) :
    (s.serial = key.serial → Own key s) ∧
      ∀ p, s.previous = some p → p.serial = key.serial →
        p.decapsulationKey = key.decapsulationKey := by
  refine ⟨fun same => ?_, fun p held serial => ?_⟩
  · obtain own | aside | gone := h.place
    · exact own
    · exact absurd same aside.older.ne'
    · exact absurd same gone.older.ne'
  · obtain own | ⟨-, q, held', -, dk, -⟩ | gone := h.place
    · exact absurd (serial.trans own.serial.symm) (h.numbered.before p held).ne
    · obtain rfl := Option.some.inj (held.symm.trans held')
      exact dk
    · exact absurd serial (gone.dropped p held)

theorem new_numbered {t₀ : U64} {seeds : Option (B × B)} {keys : AdvertKeys B}
    (made : AdvertKeys.new K t₀ seeds = .ok keys) : Numbered 0 keys.snapshot := by
  unfold AdvertKeys.new at made
  cases first : generate K 0 t₀ seeds with
  | error e =>
    rw [first] at made
    cases made
  | ok key =>
    rw [first] at made
    obtain rfl := Except.ok.inj made
    refine ⟨?_, nofun⟩
    show key.serial.val ≤ 0
    rw [(generate_ok first).1]
    exact le_rfl

end

/-- **Keys under a wrong clock.** From the first mint on, whatever the readings: where
no poll finds a key current and made in the future, what is sealed to it opens just until
a poll finds it retained a whole period, and its retention runs from when it was due or
an earlier reading that found its successor made in the future; a poll that returns `Ok`
leaves no current key made in the future; and what is held under a key's serial is that
key. -/
theorem key_outlasts (C : Crypto B) (K : MlKem B) {t₀ : U64} {seeds : Option (B × B)}
    {keys : AdvertKeys B} (made : AdvertKeys.new K t₀ seeds = .ok keys)
    (before after : List (Event B)) (few : pollCount before + pollCount after < 2 ^ 64) :
    let start := run K ⟨keys.snapshot, none⟩ before
    let stored := run K start after
    (Trail.Along (step K) (Ahead start.snapshot) start after →
      (Opens C K start.snapshot stored ↔
        Trail.Along (step K) (Inside start.snapshot) start after)) ∧
    Since start.snapshot (foundBeyond K start after) stored.snapshot ∧
    (∀ now seeds done, (poll K now seeds (some stored)).1 = .ok (.ok done) →
      ¬Beyond (step K stored (.poll now seeds)).snapshot now) ∧
    (stored.snapshot.serial = start.snapshot.serial → Own start.snapshot stored.snapshot) ∧
    ∀ p, stored.snapshot.previous = some p → p.serial = start.snapshot.serial →
      p.decapsulationKey = start.snapshot.decapsulationKey := by
  intro start stored
  have first : Placed keys.snapshot 0 (⟨keys.snapshot, none⟩ : AdvertRecord B).snapshot :=
    ⟨.inl ⟨rfl, rfl, rfl⟩, new_numbered made⟩
  have begun : Placed start.snapshot (0 + pollCount before) start.snapshot :=
    ⟨.inl ⟨rfl, rfl, rfl⟩, (first.run (K := K) (by omega)).numbered⟩
  have last : Placed start.snapshot (0 + pollCount before + pollCount after) stored.snapshot :=
    begun.run (by omega)
  refine ⟨fun ahead => ?_, ?_, fun now seeds done ok => ?_, last.same_key.1, last.same_key.2⟩
  · rw [last.opens_iff C K]
    exact (begun.kept_run (by omega) ahead).trans (and_iff_right (.inl ⟨rfl, rfl, rfl⟩))
  · have since : Since start.snapshot [] start.snapshot := fun p held serial =>
      absurd serial (begun.numbered.before p held).ne
    exact since.run begun (by omega)
  · exact (rotateAdvert_polled K stored.snapshot now seeds).2 done (Except.ok.inj ok)

/-- A key that a poll found due opens after it. -/
theorem key_outlasts_due : ∃ keys : AdvertKeys Nat,
    AdvertKeys.new mirrorKem 1000000 (some (7, 7)) = .ok keys ∧
      Opens mirrorCrypto mirrorKem keys.snapshot (run mirrorKem ⟨keys.snapshot, none⟩
        [.poll 1604800 (some (8, 8)), .restart]) := by
  have made : AdvertKeys.new mirrorKem 1000000 (some (7, 7)) = .ok ⟨⟨0, 1000000, 7, 7⟩, none⟩ := rfl
  refine ⟨_, made, ((key_outlasts mirrorCrypto mirrorKem made [] _ (by decide)).1 ?_).2 ?_⟩
  · exact ⟨fun _ => by decide, trivial, trivial⟩
  · exact ⟨fun p held => (Option.some_ne_none p held.symm).elim, trivial, trivial⟩

/-- The clock is a day ahead at 1518400, right when it is next read, and right ever after. The
key that was confirmed published before is dropped at 2123260, though a whole period from
when it was due ends at 2209600. -/
theorem day_ahead_drops : ∃ keys : AdvertKeys Nat,
    AdvertKeys.new mirrorKem 1000000 (some (7, 7)) = .ok keys ∧
      let start := run mirrorKem ⟨keys.snapshot, none⟩ [.markPublished 0]
      start.published = some 0 ∧ start.snapshot.serial = 0 ∧
      ¬Opens mirrorCrypto mirrorKem start.snapshot (run mirrorKem start
        [.poll 1604800 (some (8, 8)), .poll 1518460 (some (9, 9)), .poll 2123260 none]) ∧
      2123260 < due start.snapshot + rotationPeriodSecs := by
  refine ⟨⟨⟨0, 1000000, 7, 7⟩, none⟩, rfl, rfl, rfl, fun opens => ?_, by decide⟩
  exact absurd (opens 7) (by decide)

end Daemonseed.Dm.ClockJumps
