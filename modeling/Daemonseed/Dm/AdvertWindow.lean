import Daemonseed.Dm.AdvertRotation

/-! # A usable advert can be opened

What a sender may still encapsulate to, the owner still holds the secret half of:
the key stays current until it is due, and a rotation retains it until its window
closes, before which no other rotation is due. -/
namespace Daemonseed.Dm.AdvertWindow
open Daemonseed.Dm.AdvertRotation Daemonseed.Dm.Primitives Daemonseed.Dm.Records

variable {B : Type}

def clockSkewSecs : U64 := 60 * 60

def saturatingSub (a b : U64) : U64 := Fin.ofNat _ (a.val - b.val)

/-- The end of the window of an advert. -/
def closes (notBefore : U64) : U64 :=
  saturatingAdd notBefore (Fin.ofNat _ (min (2 * rotationPeriodSecs.val) (2 ^ 64 - 1)))

/-- Whether a sender may encapsulate to an advert. -/
def usableAt (notBefore now : U64) : Prop :=
  saturatingSub notBefore clockSkewSecs ≤ now ∧ now < closes notBefore

theorem closes_val (nb : U64) : (closes nb).val = min (nb.val + 1209600) (2 ^ 64 - 1) := by
  rw [closes, saturatingAdd_val, Fin.val_ofNat, rotationPeriodSecs_val]
  omega

/-- A poll at a time, or a restart from what the keys are. -/
inductive Event (B : Type)
  | poll (now : U64) (seeds : Option (B × B))
  | restart

/-- The times of the polls do not decrease, from one time to another. -/
def Ordered : U64 → List (Event B) → U64 → Prop
  | since, [], t => since ≤ t
  | since, .poll now _ :: rest, t => since ≤ now ∧ Ordered now rest t
  | since, .restart :: rest, t => Ordered since rest t

section

variable (K : MlKem B)

/-- A step, where a poll is `rotate`. -/
def stepWith {R : Type} (rotate : AdvertKeys B → U64 → Option (B × B) → R × AdvertKeys B)
    (keys : AdvertKeys B) : Event B → AdvertKeys B
  | .poll now seeds => (rotate keys now seeds).2
  | .restart => .restore K keys.snapshot

def step (keys : AdvertKeys B) (event : Event B) : AdvertKeys B :=
  stepWith K (AdvertKeys.rotateIfDue K) keys event

def run (keys : AdvertKeys B) (events : List (Event B)) : AdvertKeys B := events.foldl (step K) keys

end

/-! ## The serials -/

/-- Each serial has taken a whole period, until the clock stands at its last time. -/
def Paced (clock : U64) (keys : AdvertKeys B) : Prop :=
  clock.val = 2 ^ 64 - 1 ∨
    keys.current.serial.val * rotationPeriodSecs.val ≤ keys.current.notBefore.val ∧
      keys.current.notBefore ≤ clock

/-! ## Where a published key is -/

/-- It is current. -/
def Own (key : AdvertKey B) (keys : AdvertKeys B) : Prop :=
  keys.current.serial = key.serial ∧ keys.current.notBefore = key.notBefore ∧ keys.current.dk = key.dk

/-- It is retained until its window closes, and its successor not due before. -/
structure Retained (key : AdvertKey B) (keys : AdvertKeys B) : Prop where
  other : keys.current.serial ≠ key.serial
  held : ∃ p, keys.previous = some p ∧ p.key.serial = key.serial ∧ p.key.dk = key.dk ∧
    p.retiredAt = saturatingAdd key.notBefore rotationPeriodSecs
  later : saturatingAdd key.notBefore rotationPeriodSecs ≤ keys.current.notBefore

/-- It can be opened with, or its window is closed. -/
def Kept (key : AdvertKey B) (clock : U64) (keys : AdvertKeys B) : Prop :=
  closes key.notBefore ≤ clock ∨ Own key keys ∨ Retained key keys

section

variable {K : MlKem B} {key : AdvertKey B} {keys : AdvertKeys B} {clock now : U64}
  {seeds : Option (B × B)}

theorem saturatingAdd_period (nb : U64) : saturatingAdd
    (saturatingAdd nb rotationPeriodSecs) rotationPeriodSecs = closes nb := by
  apply Fin.ext
  rw [closes_val, saturatingAdd_val, saturatingAdd_val, rotationPeriodSecs_val]
  omega

theorem saturatingAdd_mono {a b : U64} (c : U64) (h : a ≤ b) :
    saturatingAdd a c ≤ saturatingAdd b c := by
  rw [Fin.le_def] at h ⊢
  rw [saturatingAdd_val, saturatingAdd_val]
  omega

variable (K keys now seeds) in
/-- What a poll leaves: the keys pruned, or rotated. -/
theorem rotateIfDue_cases : (keys.rotateIfDue K now seeds).2 = keys.prune now ∨
    keys.dueAt ≤ now ∧ ∃ fresh, fresh.serial = saturatingAdd keys.current.serial 1 ∧
      fresh.notBefore = now ∧ (∃ d z, K.keygen d z = .ok (fresh.ek, fresh.dk)) ∧
      (keys.rotateIfDue K now seeds).2 = ⟨fresh, some ⟨keys.current, keys.dueAt⟩⟩ := by
  generalize h : keys.rotateIfDue K now seeds = out
  unfold AdvertKeys.rotateIfDue at h
  simp only [AdvertKeys.prune_dueAt] at h
  by_cases early : now < keys.dueAt
  · rw [if_pos early] at h
    exact .inl (h ▸ rfl)
  · rw [if_neg early] at h
    unfold AdvertKeys.rotate generate at h
    rcases seeds with _ | ⟨d, z⟩
    · exact .inl (h ▸ rfl)
    · dsimp only at h
      cases made : K.keygen d z with
      | error e =>
        rw [made] at h
        exact .inl (h ▸ rfl)
      | ok pair =>
        rw [made] at h
        simp only [AdvertKeys.prune_current] at h
        refine .inr ⟨Fin.not_lt.1 early,
          ⟨saturatingAdd keys.current.serial 1, now, pair.1, pair.2⟩, rfl, rfl, ⟨d, z, made⟩, ?_⟩
        rw [← h]

/-- A poll before the end of a retained key's window leaves it. -/
theorem prune_held {p : RetiredKey B} (held : keys.previous = some p)
    (inside : now < saturatingAdd p.retiredAt rotationPeriodSecs) :
    (keys.prune now).previous = some p := by
  unfold AdvertKeys.prune
  rw [held, Option.any_some, if_neg]
  · exact held
  · rw [decide_eq_true_eq]
    exact Fin.not_le.2 inside

theorem Paced.poll (h : Paced clock keys) (later : clock ≤ now) :
    Paced now (keys.rotateIfDue K now seeds).2 := by
  have bound := now.isLt
  rw [Fin.le_def] at later
  by_cases last : now.val = 2 ^ 64 - 1
  · exact .inl last
  obtain ⟨pace, begun⟩ := h.resolve_left (by omega)
  rw [Fin.le_def] at begun
  refine .inr ?_
  rcases rotateIfDue_cases K keys now seeds with
    same | ⟨due, fresh, serial, notBefore, -, new⟩
  · rw [same, AdvertKeys.prune_current, Fin.le_def]
    exact ⟨pace, begun.trans later⟩
  · rw [new, Fin.le_def]
    dsimp only
    rw [serial, notBefore, saturatingAdd_val]
    rw [Fin.le_def, AdvertKeys.dueAt, saturatingAdd_val] at due
    rw [rotationPeriodSecs_val] at *
    have one : (1 : U64).val = 1 := rfl
    omega

theorem Kept.poll (h : Kept key clock keys) (later : clock ≤ now) (paced : Paced clock keys) :
    Kept key now (keys.rotateIfDue K now seeds).2 := by
  by_cases closed : closes key.notBefore ≤ now
  · exact .inl closed
  have inside := Fin.not_le.1 closed
  refine .inr ?_
  rcases h.resolve_left fun closed' => closed (closed'.trans later) with own | retained
  · obtain ⟨serial, notBefore, dk⟩ := own
    rcases rotateIfDue_cases K keys now seeds with
      same | ⟨due, fresh, next, begins, -, new⟩
    · rw [same, Own, AdvertKeys.prune_current]
      exact .inl ⟨serial, notBefore, dk⟩
    · rw [new]
      refine .inr ⟨fun same => ?_, ⟨_, rfl, serial, dk, ?_⟩, ?_⟩
      · -- no serial is the last while a window is open
        rw [Fin.lt_def, closes_val] at inside
        rw [Fin.le_def] at later
        obtain ⟨pace, -⟩ := paced.resolve_left (by omega)
        have twice := congrArg Fin.val (next.symm.trans (same.trans serial.symm))
        rw [saturatingAdd_val, rotationPeriodSecs_val] at *
        have one : (1 : U64).val = 1 := rfl
        have bound := keys.current.notBefore.isLt
        omega
      · rw [AdvertKeys.dueAt, notBefore]
      · simpa only [begins, AdvertKeys.dueAt, notBefore] using due
  · obtain ⟨other, ⟨p, held, serial, dk, retiredAt⟩, successor⟩ := retained
    have early : now < keys.dueAt := by
      refine Fin.lt_of_lt_of_le inside ?_
      rw [← saturatingAdd_period]
      exact saturatingAdd_mono _ successor
    rcases rotateIfDue_cases K keys now seeds with
      same | ⟨due, -⟩
    · rw [same]
      refine .inr ⟨?_, ⟨p, prune_held held ?_, serial, dk, retiredAt⟩, ?_⟩
      · simpa only [AdvertKeys.prune_current] using other
      · simpa only [retiredAt, saturatingAdd_period] using inside
      · simpa only [AdvertKeys.prune_current] using successor
    · exact absurd early (Fin.not_lt.2 due)

theorem stepWith_poll {R : Type}
    {rotate : AdvertKeys B → U64 → Option (B × B) → R × AdvertKeys B} :
    stepWith K rotate keys (.poll now seeds) = (rotate keys now seeds).2 := rfl

-- unfolding `step` at once would have the kernel count to the due time
theorem step_poll : step K keys (.poll now seeds) = (keys.rotateIfDue K now seeds).2 := by
  rw [AdvertWindow.step, stepWith_poll]

/-- A restart leaves the serials, the times and the secret halves as they are. -/
theorem restart_serial : (step K keys .restart).current.serial = keys.current.serial := rfl

theorem restart_notBefore : (step K keys .restart).current.notBefore = keys.current.notBefore := rfl

theorem restart_dk : (step K keys .restart).current.dk = keys.current.dk := rfl

theorem restart_previous : (step K keys .restart).previous =
    (keys.previous.map fun p => (⟨p.key.serial, p.retiredAt, p.key.dk⟩ : RetiredSnapshot B)).map
      fun p => ⟨⟨p.serial, p.retiredAt, K.ekFromDk p.decapsulationKey, p.decapsulationKey⟩,
        p.retiredAt⟩ := rfl

theorem Paced.restart (h : Paced clock keys) : Paced clock (step K keys .restart) := by
  rw [Paced, restart_serial, restart_notBefore]
  exact h

theorem Own.restart (h : Own key keys) : Own key (step K keys .restart) := by
  rw [Own, restart_serial, restart_notBefore, restart_dk]
  exact h

theorem Retained.restart (h : Retained key keys) : Retained key (step K keys .restart) := by
  obtain ⟨other, ⟨p, held, serial, dk, retiredAt⟩, successor⟩ := h
  refine ⟨?_, ⟨⟨⟨p.key.serial, p.retiredAt, K.ekFromDk p.key.dk, p.key.dk⟩, p.retiredAt⟩,
    ?_, serial, dk, retiredAt⟩, ?_⟩
  · rw [restart_serial]
    exact other
  · rw [restart_previous, held, Option.map_some, Option.map_some]
  · rw [restart_notBefore]
    exact successor

theorem Kept.step (h : Kept key clock keys) (paced : Paced clock keys) (event : Event B)
    {rest : List (Event B)} {t : U64} (ordered : Ordered clock (event :: rest) t) :
    ∃ clock', Ordered clock' rest t ∧ Kept key clock' (step K keys event) ∧
      Paced clock' (step K keys event) := by
  cases event with
  | poll now seeds =>
    rw [step_poll]
    exact ⟨now, ordered.2, h.poll ordered.1 paced, paced.poll ordered.1⟩
  | restart =>
    exact ⟨clock, ordered, h.imp_right (Or.imp Own.restart Retained.restart), paced.restart⟩

theorem Kept.run {events : List (Event B)} {t : U64} (h : Kept key clock keys)
    (paced : Paced clock keys) (ordered : Ordered clock events t) : Kept key t (run K keys events) := by
  induction events generalizing clock keys with
  | nil => exact h.imp_left fun closed => closed.trans ordered
  | cons event rest ih =>
    obtain ⟨clock', ordered', kept, paced'⟩ := h.step (K := K) paced event ordered
    exact ih kept paced' ordered'

/-- The polls up to some point, and those after it. -/
theorem Paced.run {before after : List (Event B)} {t : U64} (paced : Paced clock keys)
    (ordered : Ordered clock (before ++ after) t) : ∃ clock', Ordered clock' after t ∧
      Paced clock' (run K keys before) := by
  induction before generalizing clock keys with
  | nil => exact ⟨clock, ordered, paced⟩
  | cons event rest ih =>
    rw [List.cons_append] at ordered
    change ∃ clock', Ordered clock' after t ∧ Paced clock' (run K (step K keys event) rest)
    cases event with
    | poll now seeds =>
      obtain ⟨later, ordered⟩ := ordered
      have next : Paced now (step K keys (.poll now seeds)) := by
        rw [step_poll]
        exact paced.poll later
      exact ih next ordered
    | restart =>
      exact ih paced.restart ordered

theorem Kept.opens (C : Crypto B) (h : Kept key clock keys) (inside : clock < closes key.notBefore)
    (ct : B) :
    keys.held.decapsulate C key.serial.val ct = some (C.decapsulate key.dk ct) ∧
      key.serial.val ∈ keys.held.serials := by
  rcases h.resolve_left (Fin.not_le.2 inside) with ⟨serial, -, dk⟩ | ⟨other, ⟨p, held, serial, dk, -⟩, -⟩
  · unfold AdvertKeys.held Drop.AdvertKeys.decapsulate Drop.AdvertKeys.serials
    have same : keys.current.serial.val = key.serial.val := by rw [serial]
    dsimp only
    rw [if_pos same, dk, same]
    exact ⟨rfl, List.mem_cons_self⟩
  · have ne : keys.current.serial.val ≠ key.serial.val := fun e => other (Fin.ext e)
    unfold AdvertKeys.held Drop.AdvertKeys.decapsulate Drop.AdvertKeys.serials
    dsimp only
    rw [if_neg ne, held, Option.map_some]
    dsimp only
    rw [if_pos (congrArg Fin.val serial), dk, serial]
    exact ⟨rfl, by simp⟩

end

/-! ## What is sealed to an advert -/

/-- The module's keys are the ones the secrets of the channel come from. -/
structure Lawful (C : Crypto B) (K : MlKem B) : Prop where
  keygen : ∀ d z pair, K.keygen d z = .ok pair → pair = C.keygen d z
  derived : ∀ d z, K.ekFromDk (C.keygen d z).2 = (C.keygen d z).1

/-- Both halves of the current key are of one generation. -/
def Paired (C : Crypto B) (keys : AdvertKeys B) : Prop :=
  ∃ d z, C.keygen d z = (keys.current.ek, keys.current.dk)

/-- A hello to the identity behind an advert, for a slot: its ciphertext and its secret are
of one encapsulation. -/
structure SealedTo (C : Crypto B) (P : Platform B) (ek myPk : B) (slot : Nat)
    (hello : SealedHello B) : Prop where
  encapsulated : ∃ m, (hello.secret, hello.kemCt) = C.encapsulate ek m
  recipient : hello.recipient = myPk
  carried : hello.original ≠ some P.zeros
  picks : dropSlotFor C P hello.r = slot

section

variable {C : Crypto B} {K : MlKem B} {keys : AdvertKeys B}

theorem Paired.step (lawful : Lawful C K) (h : Paired C keys) (event : Event B) :
    Paired C (step K keys event) := by
  cases event with
  | poll now seeds =>
    rcases rotateIfDue_cases K keys now seeds with
      same | ⟨-, fresh, -, -, ⟨d, z, made⟩, new⟩
    · rw [step_poll, same, Paired, AdvertKeys.prune_current]
      exact h
    · rw [step_poll, new]
      exact ⟨d, z, (lawful.keygen d z _ made).symm⟩
  | restart =>
    obtain ⟨d, z, made⟩ := h
    have derived := lawful.derived d z
    rw [made] at derived
    exact ⟨d, z, made.trans (Prod.ext derived.symm rfl)⟩

theorem Paired.run (lawful : Lawful C K) (h : Paired C keys) (events : List (Event B)) :
    Paired C (run K keys events) := by
  induction events generalizing keys with
  | nil => exact h
  | cons event rest ih => exact ih (h.step lawful event)

theorem new_spec {t₀ : U64} {seeds : Option (B × B)} (made : AdvertKeys.new K t₀ seeds = .ok keys) :
    keys.current.serial = 0 ∧ keys.current.notBefore = t₀ ∧
      ∃ d z, K.keygen d z = .ok (keys.current.ek, keys.current.dk) := by
  unfold AdvertKeys.new generate at made
  rcases seeds with _ | ⟨d, z⟩
  · cases made
  · dsimp only at made
    cases pair : K.keygen d z with
    | error e =>
      rw [pair] at made
      cases made
    | ok pair' =>
      rw [pair] at made
      obtain rfl := Except.ok.inj made
      exact ⟨rfl, rfl, d, z, pair⟩

variable [DecidableEq B] {P : Platform B}

/-- A hello opens wherever its secret is recovered. -/
theorem openAgainstEither_isSome {held : Drop.AdvertKeys B} {serial slot : Nat} {myPk ek dk : B}
    {hello : SealedHello B} (sealed : SealedTo C P ek myPk slot hello)
    (selects : held.decapsulate C serial hello.kemCt = some (C.decapsulate dk hello.kemCt) ∧
      serial ∈ held.serials) (recovers : C.decapsulate dk hello.kemCt = hello.secret) :
    (Drop.openAgainstEither C P held (.hello hello) myPk slot).isSome = true := by
  unfold Drop.openAgainstEither
  dsimp only
  rw [List.findSome?_isSome_iff]
  refine ⟨serial, selects.2, ?_⟩
  have opens : Drop.openHello C P hello.secret hello myPk slot = true := by
    simp [Drop.openHello, sealed.recipient, sealed.carried, sealed.picks]
  rw [selects.1, recovers, Option.bind_some, if_pos opens]
  rfl

/-- **A usable advert can be opened.** Whenever keys made at one time are polled at times that
do not decrease, and restarted from what they are, whatever serial they had published is
opened with its own key until its window closes, and so are the hellos sealed to it. -/
theorem usable_opens (lawful : Lawful C K) (correct : KemCorrect C) {t₀ : U64}
    {seeds : Option (B × B)} (made : AdvertKeys.new K t₀ seeds = .ok keys)
    (before after : List (Event B)) {t : U64} (ordered : Ordered t₀ (before ++ after) t)
    (inside : t < closes (run K keys before).current.notBefore) :
    (∀ ct, (run K keys (before ++ after)).held.decapsulate C
        (run K keys before).current.serial.val ct =
      some (C.decapsulate (run K keys before).current.dk ct)) ∧
    ∀ myPk slot hello, SealedTo C P (run K keys before).current.ek myPk slot hello →
      (Drop.openAgainstEither C P (run K keys (before ++ after)).held (.hello hello) myPk
        slot).isSome = true := by
  obtain ⟨serial, notBefore, d, z, halves⟩ := new_spec made
  have paced : Paced t₀ keys := by
    refine .inr ⟨?_, ?_⟩
    · rw [serial]
      exact Nat.zero_mul _ ▸ Nat.zero_le _
    · rw [notBefore]
  have paired : Paired C keys := ⟨d, z, (lawful.keygen d z _ halves).symm⟩
  obtain ⟨clock, ordered', paced'⟩ := paced.run (K := K) ordered
  have kept : Kept (run K keys before).current t (run K keys (before ++ after)) := by
    have here : Kept (run K keys before).current clock (run K keys before) :=
      .inr (.inl ⟨rfl, rfl, rfl⟩)
    have there := here.run (K := K) paced' ordered'
    rwa [AdvertWindow.run, AdvertWindow.run, ← List.foldl_append] at there
  have opens := kept.opens C inside
  refine ⟨fun ct => (opens ct).1, fun myPk slot hello sealed => ?_⟩
  refine openAgainstEither_isSome sealed (opens hello.kemCt) ?_
  obtain ⟨m, encapsulated⟩ := sealed.encapsulated
  obtain ⟨d, z, pair⟩ := paired.run lawful before
  have secret := correct.decapsulate_encapsulate d z m
  rw [pair, ← encapsulated] at secret
  exact secret

end

/-! ## On keys of one half -/

/-- Keys whose halves are one, and secrets made of the key and the ciphertext. -/
def mirrorCrypto : Crypto Nat where
  label _ := 0
  hkdf _ _ _ := 0
  keygen d _ := (d, d)
  encapsulate pk m := (pk + m, m)
  decapsulate dk ct := dk + ct
  sealEnvelope _ _ _ body := body
  openEnvelope _ _ body := some body

def mirrorKem : MlKem Nat := ⟨fun d _ => .ok (d, d), id⟩

def mirrorPlatform : Platform Nat where
  length _ := 0
  zeros := 0
  u8 _ rest := rest
  u64 _ rest := rest
  takeU8 _ := none
  takeU64 _ := none
  sha384 _ := 0
  lastByte := id
  sign _ _ := 0
  publicKey := id
  verify _ _ _ := true

/-- A first key a period after it was made, at the end of a period retained. -/
theorem usable_opens_retained : ∃ keys : AdvertKeys Nat,
    AdvertKeys.new mirrorKem 0 (some (1, 2)) = .ok keys ∧
      (run mirrorKem keys ([] ++ [.poll 604800 (some (3, 4)), .restart])).held.decapsulate
        mirrorCrypto 0 5 = some 6 := by
  refine ⟨⟨⟨0, 0, 1, 1⟩, none⟩, rfl, ?_⟩
  have lawful : Lawful mirrorCrypto mirrorKem :=
    ⟨fun d z pair made => (Except.ok.inj made).symm, fun _ _ => rfl⟩
  have correct : KemCorrect mirrorCrypto := ⟨fun _ _ _ => rfl⟩
  have opens := usable_opens (P := mirrorPlatform) (t := 1209599) lawful correct
    (show AdvertKeys.new mirrorKem 0 (some (1, 2)) = .ok ⟨⟨0, 0, 1, 1⟩, none⟩ from rfl) []
    [.poll 604800 (some (3, 4)), .restart] ⟨by decide, show (604800 : U64) ≤ 1209599 by decide⟩
    (by decide)
  exact opens.1 5

/-- At the last time there is, a key whose window would go on is gone after two polls. -/
theorem last_time_gone : ∃ (t₀ t : U64) (keys : AdvertKeys Nat),
    AdvertKeys.new mirrorKem t₀ (some (1, 2)) = .ok keys ∧
      Ordered t₀ [.poll t (some (3, 4)), .poll t (some (5, 6))] t ∧
      t.val < keys.current.notBefore.val + 2 * rotationPeriodSecs.val ∧
      (run mirrorKem keys [.poll t (some (3, 4)), .poll t (some (5, 6))]).held.decapsulate
        mirrorCrypto keys.current.serial.val 7 = none := by
  refine ⟨18446744073708946815, 18446744073709551615,
    ⟨⟨0, 18446744073708946815, 1, 1⟩, none⟩, rfl, ?_, ?_, ?_⟩
  · exact ⟨by decide, Fin.le_refl _, Fin.le_refl _⟩
  · decide
  · decide

end Daemonseed.Dm.AdvertWindow
