import Daemonseed.Dm.AdvertStore
import Daemonseed.Dm.ForcedTurns
import Daemonseed.Lib.Sorted

/-! # Resets of a profile

Every conversation of a profile and its advert keys, under resets, polls, marks and
the flows of its conversations. A reset flags one conversation after another, and
rotates the advert keys only where the current one has been published. -/
namespace Daemonseed.Dm.ProfileResets
open Daemonseed.Dm.AdvertRotation hiding Call
open Daemonseed.Dm.Records hiding AdvertError
open Daemonseed.Lib
open Daemonseed.Dm.Primitives Daemonseed.Dm.Store Daemonseed.Dm.Flows Daemonseed.Dm.Contact
  Daemonseed.Dm.AdvertStore Daemonseed.Dm.AdvertWindow Daemonseed.Dm.ForcedTurns
  Daemonseed.Dm.Sections Daemonseed.Lib.Runs Daemonseed.Lib.Flows Daemonseed.Lib.Flows.Flow Daemonseed.Lib.Pools
  Daemonseed.Lib.Results Daemonseed.Lib.Sorted Daemonseed.Lib.Visits

variable {L B R : Type}

/-- What a profile holds of its correspondences, and the record of its advert keys. -/
structure Profile (L B : Type) where
  peers : SortedMap L (Correspondence B)
  advert : Option (AdvertRecord B)

inductive ProfileError
  | flow (e : FlowError)
  | advert (e : AdvertError)
  | store (e : AdvertStore.StoreError)

abbrev ProfileFlow (L B α : Type) := Flow (Profile L B) (Query B) Reply ProfileError α

section

variable [LinearOrder L]

/-- A correspondence that is not there holds nothing. -/
def Profile.peer (l : L) (p : Profile L B) : Correspondence B :=
  (p.peers.lookup l).getD ⟨none, fun _ => none⟩

def Profile.setPeer (l : L) (c : Correspondence B) (p : Profile L B) : Profile L B :=
  { p with peers := p.peers.insert l c }

def Profile.correspondences (p : Profile L B) : List L := ordered p.peers.keys

@[simp] theorem peer_setPeer_self (l : L) (c : Correspondence B) (p : Profile L B) :
    (p.setPeer l c).peer l = c := by
  simp [Profile.peer, Profile.setPeer]

theorem peer_setPeer_other {l l' : L} (other : l ≠ l') (c : Correspondence B) (p : Profile L B) :
    (p.setPeer l' c).peer l = p.peer l := by
  simp [Profile.peer, Profile.setPeer, Finmap.lookup_insert_of_ne _ other]

theorem mem_correspondences {l : L} {p : Profile L B} (there : (p.peer l).conv.isSome) :
    l ∈ p.correspondences := by
  unfold Profile.peer at there
  cases held : p.peers.lookup l with
  | none => simp [held] at there
  | some c => exact mem_ordered.2 (Finmap.mem_keys.2 (Finmap.mem_of_lookup_eq_some held))

/-! ## The calls -/

/-- A flow of one conversation. -/
def onPeer (l : L) {α : Type} (p : DmFlow B α) : ProfileFlow L B α :=
  within (Profile.peer l) (Profile.setPeer l) .flow p

omit [LinearOrder L] in
/-- A section over the record of the advert keys. -/
def onAdvert (f : Option (AdvertRecord B) → Except AdvertStore.StoreError R × Option (AdvertRecord B))
    (returns : Except AdvertStore.StoreError R → Except ProfileError Unit) : ProfileFlow L B Unit :=
  visit fun p => (returns (f p.advert).1, { p with advert := (f p.advert).2 })

def pollReturns (r : Except AdvertStore.StoreError (Except AdvertError Rotation)) :
    Except ProfileError Unit := do
  let rotated ← r.mapError .store
  let _ ← rotated.mapError .advert
  return ()

/-- The advert keys are rotated where the current one has been published. -/
def resetAdvert (K : MlKem B) (now : U64) (seeds : Option (B × B)) :
    Option (AdvertRecord B) →
      Except AdvertStore.StoreError (Except AdvertError Unit) × Option (AdvertRecord B) :=
  updateAdvertState K fun keys published =>
    if published.any (keys.current.serial ≤ ·) then keys.rotateNow K now seeds else (.ok (), keys)

/-- Keys that were never minted are nothing to rotate. -/
def resetReturns :
    Except AdvertStore.StoreError (Except AdvertError Unit) → Except ProfileError Unit
  | .ok rotated => rotated.mapError .advert
  | .error .missingAdvertKeys => .ok ()
  | .error e => .error (.store e)

variable [DecidableEq B]

/-- The correspondences that have a conversation. -/
def loadConvs : List L → ProfileFlow L B (List L)
  | [] => return []
  | l :: rest => do
    match ← onPeer l loadAll with
    | none => loadConvs rest
    | some _ => return l :: (← loadConvs rest)

def flagConvs : List L → ProfileFlow L B Unit
  | [] => return ()
  | l :: rest => do
    onPeer l (Flow.attempt flagSection)
    flagConvs rest

def reset (K : MlKem B) (now : U64) (seeds : Option (B × B)) : ProfileFlow L B Unit := do
  let peers ← Flow.view fun p => .ok p.correspondences
  let convs ← loadConvs peers
  flagConvs convs
  onAdvert (resetAdvert K now seeds) resetReturns

/-- What runs over a profile. A restart stops what is running. -/
inductive ProfileCall (L B : Type)
  | conversation (l : L) (call : Call B)
  | deleteConv (l : L)
  | poll (now : U64) (seeds : Option (B × B))
  | markPublished (serial : U64)
  | reset (now : U64) (seeds : Option (B × B))

def ProfileCall.flow (C : Crypto B) (P : Platform B) (K : MlKem B) (me : Me B) (rounds : Nat) :
    ProfileCall L B → ProfileFlow L B Unit
  | .conversation l call => do
    let _ ← onPeer l (call.flow C P me rounds)
  | .deleteConv l => visit fun p => (.ok (), { p with peers := p.peers.erase l })
  | .poll now seeds => onAdvert (AdvertStore.poll K now seeds) pollReturns
  | .markPublished serial => onAdvert (markAdvertPublished serial) (·.mapError .store)
  | .reset now seeds => ProfileResets.reset K now seeds

end

/-! ## What a section does to a conversation -/

section

variable [LinearOrder L] {C : Crypto B} {P : Platform B} {K : MlKem B} {me : Me B} {rounds : Nat}
  {l : L} {S : ConvState B → ConvState B → Prop}

/-- A section of a profile, over a conversation that is there before it and after it. -/
def OnPeer (l : L) (S : ConvState B → ConvState B → Prop) (f : Profile L B → Profile L B)
    (p : Profile L B) : Prop :=
  ∀ s t, (p.peer l).conv = some s → ((f p).peer l).conv = some t → S s t

theorem OnPeer.mono {S' : ConvState B → ConvState B → Prop} (sub : ∀ s t, S s t → S' s t)
    (f : Profile L B → Profile L B) (p : Profile L B) (h : OnPeer l S f p) : OnPeer l S' f p :=
  fun s t before after => sub s t (h s t before after)

theorem onPeer_same (refl : ∀ s, S s s) {f : Profile L B → Profile L B} {p : Profile L B}
    (same : (f p).peer l = p.peer l) : OnPeer l S f p := fun s t before after => by
  rw [same, before] at after
  obtain rfl := Option.some.inj after
  exact refl s

/-- What a section of a conversation is, it is of each. -/
theorem onPeer_setPeer (refl : ∀ s, S s s) {l' : L} {f : Correspondence B → Correspondence B}
    {p : Profile L B} (h : OnRecord S f (p.peer l')) :
    OnPeer l S (fun p => p.setPeer l' (f (p.peer l'))) p := by
  by_cases same : l = l'
  · subst same
    intro s t before after
    rw [peer_setPeer_self] at after
    exact h s t before after
  · exact onPeer_same refl (peer_setPeer_other same _ p)

omit [LinearOrder L] in
theorem each_onAdvert {T : (Profile L B → Profile L B) → Profile L B → Prop}
    {f : Option (AdvertRecord B) → Except AdvertStore.StoreError R × Option (AdvertRecord B)}
    {returns : Except AdvertStore.StoreError R → Except ProfileError Unit}
    (h : ∀ p, T (fun p => { p with advert := (f p.advert).2 }) p) : Each T (onAdvert f returns) :=
  each_visit h

theorem each_onPeer (refl : ∀ s, S s s) {l' : L} {α : Type} {p : DmFlow B α}
    (h : Each (OnRecord S) p) : Each (OnPeer l S) (onPeer l' p : ProfileFlow L B α) :=
  Each.within (fun _ _ => onPeer_setPeer refl) h

variable [DecidableEq B]

/-- The sections of a reset: what it reads, the flags it writes, and the keys. -/
theorem each_reset {T : (Profile L B → Profile L B) → Profile L B → Prop} {K : MlKem B} {now : U64}
    {seeds : Option (B × B)} (views : ∀ p, T id p)
    (loads : ∀ l p, T (fun p => p.setPeer l (p.peer l)) p)
    (flags : ∀ l p, T (fun p => p.setPeer l (attempted flagSection (p.peer l))) p)
    (keys : ∀ p, T (fun p => { p with advert := (resetAdvert K now seeds p.advert).2 }) p) :
    Each T (reset K now seeds : ProfileFlow L B Unit) := by
  have loading (peers : List L) : Each T (loadConvs peers : ProfileFlow L B (List L)) := by
    induction peers with
    | nil => trivial
    | cons l rest ih =>
      have loaded : Each T (onPeer l loadAll : ProfileFlow L B (Option (LoadedConv B))) :=
        fun p => ⟨loads l p, trivial⟩
      refine loaded.bind fun found => ?_
      cases found with
      | none => exact ih
      | some _ => exact Each.bind ih fun _ => trivial
  have flagging (convs : List L) : Each T (flagConvs convs : ProfileFlow L B Unit) := by
    induction convs with
    | nil => trivial
    | cons l rest ih =>
      have flagged : Each T (onPeer l (attempt flagSection) : ProfileFlow L B Unit) :=
        fun p => ⟨flags l p, trivial⟩
      exact flagged.bind fun _ => ih
  refine each_view_bind views fun _ _ _ => ?_
  exact (loading _).bind fun _ => (flagging _).bind fun _ => each_onAdvert keys

/-- Only the flow of a conversation touches what it commits. -/
theorem leaves_other {call : ProfileCall L B} (other : ∀ c, call ≠ .conversation l c) :
    Each (OnPeer l Leaves) (call.flow C P K me rounds) := by
  cases call with
  | conversation l' call =>
    have apart : l ≠ l' := fun same => other call (same ▸ rfl)
    refine Each.bind (Each.within (fun _ p _ => ?_) (kept_call (C := C) call)) fun _ => trivial
    exact onPeer_same Leaves.refl (peer_setPeer_other apart _ p)
  | deleteConv l' =>
    refine each_visit fun p s t before after => ?_
    by_cases same : l = l'
    · subst same
      simp [Profile.peer] at after
    · refine onPeer_same (f := fun p => { p with peers := p.peers.erase l' }) Leaves.refl ?_ s t
        before after
      simp [Profile.peer, Finmap.lookup_erase_ne same]
  | poll => exact each_onAdvert fun p => onPeer_same Leaves.refl rfl
  | markPublished => exact each_onAdvert fun p => onPeer_same Leaves.refl rfl
  | reset now seeds =>
    exact each_reset (fun p => onPeer_same Leaves.refl rfl)
      (fun _ p => onPeer_setPeer Leaves.refl (plain_id _))
      (fun _ p => onPeer_setPeer Leaves.refl (plain_flagSection _))
      fun p => onPeer_same Leaves.refl rfl

/-- **No call clears a flag but by the message it forces.** -/
theorem keeps_flow (call : ProfileCall L B) (l : L) :
    Each (OnPeer l (Keeps C)) (call.flow C P K me rounds) := by
  by_cases other : ∀ c, call ≠ .conversation l c
  · exact Each.mono (OnPeer.mono fun _ _ => Leaves.keeps) (leaves_other other)
  · obtain ⟨c, rfl⟩ := not_forall_not.1 other
    exact Each.bind (each_onPeer (Keeps.refl C) (kept_call c)) fun _ => trivial

/-- **A call that finds the flag set forces the message it commits.** -/
theorem turns_flow (call : ProfileCall L B) (l : L) :
    Informed (fun p => Forced (p.peer l)) (OnPeer l (Turns C)) (call.flow C P K me rounds) := by
  by_cases other : ∀ c, call ≠ .conversation l c
  · exact Each.informed (Each.mono (OnPeer.mono fun _ _ => Leaves.turns) (leaves_other other))
  · obtain ⟨c, rfl⟩ := not_forall_not.1 other
    refine Informed.bind ?_ fun _ => trivial
    exact Informed.within (fun _ _ => onPeer_setPeer (Turns.refl C)) (turned_call c)

end

/-! ## What a section does to the advert keys -/

/-- What a reset that may rotate leaves of the keys. -/
inductive ResetTo (s : AdvertSnapshot B) (now : U64) : AdvertSnapshot B → Prop
  | kept : ResetTo s now (pruned s now)
  | rotated (dk : B) : ResetTo s now (fresh s now dk (some (retired s now)))

theorem rotateNow_resetTo (K : MlKem B) (s : AdvertSnapshot B) (now : U64)
    (seeds : Option (B × B)) :
    ResetTo s now ((AdvertKeys.restore K s).rotateNow K now seeds).2.snapshot := by
  unfold AdvertKeys.rotateNow AdvertKeys.rotate
  rw [AdvertKeys.prune_current]
  cases made : generate K (saturatingAdd (AdvertKeys.restore K s).current.serial 1) now seeds with
  | error e =>
    dsimp only
    rw [prune_snapshot, restore_snapshot]
    exact .kept
  | ok key =>
    obtain ⟨serial, notBefore⟩ := generate_ok made
    have left : AdvertKeys.snapshot ⟨key, some ⟨(AdvertKeys.restore K s).current, now⟩⟩ =
        fresh s now key.dk (some (retired s now)) := by
      rw [AdvertKeys.snapshot, serial, notBefore]
      rfl
    dsimp only
    rw [left]
    exact .rotated key.dk

/-- How a section of a call may move the record of the advert keys. -/
inductive AdvertMoved : ProfileCall L B → Option (AdvertRecord B) → Option (AdvertRecord B) → Prop
  | same (call : ProfileCall L B) (r : Option (AdvertRecord B)) : AdvertMoved call r r
  | polled {now : U64} {seeds : Option (B × B)} {s s' : AdvertSnapshot B} {published : Option U64}
      (to_ : Polled s now s') :
      AdvertMoved (.poll now seeds) (some ⟨s, published⟩) (some ⟨s', published⟩)
  | marked {serial : U64} {s : AdvertSnapshot B} {published : Option U64} (built : serial ≤ s.serial) :
      AdvertMoved (.markPublished serial) (some ⟨s, published⟩)
        (some ⟨s, some ((published.map (max · serial)).getD serial)⟩)
  | reset {now : U64} {seeds : Option (B × B)} {s s' : AdvertSnapshot B} {published : U64}
      (told : s.serial ≤ published) (to_ : ResetTo s now s') :
      AdvertMoved (.reset now seeds) (some ⟨s, some published⟩) (some ⟨s', some published⟩)

section

variable {call : ProfileCall L B} {r r' : Option (AdvertRecord B)}

theorem polled_moved (K : MlKem B) (now : U64) (seeds : Option (B × B))
    (r : Option (AdvertRecord B)) :
    AdvertMoved (.poll now seeds : ProfileCall L B) r (AdvertStore.poll K now seeds r).2 := by
  cases r with
  | none => exact .same _ _
  | some stored => exact .polled (rotateAdvert_polled K stored.snapshot now seeds).1

theorem marked_moved (serial : U64) (r : Option (AdvertRecord B)) :
    AdvertMoved (.markPublished serial : ProfileCall L B) r (markAdvertPublished serial r).2 := by
  cases r with
  | none => exact .same _ _
  | some stored =>
    by_cases past : stored.snapshot.serial < serial
    · simp only [markAdvertPublished, if_pos past]
      exact .same _ _
    · simp only [markAdvertPublished, if_neg past]
      exact .marked (Fin.not_lt.1 past)

theorem reset_moved (K : MlKem B) (now : U64) (seeds : Option (B × B))
    (r : Option (AdvertRecord B)) :
    AdvertMoved (.reset now seeds : ProfileCall L B) r (resetAdvert K now seeds r).2 := by
  cases r with
  | none => exact .same _ _
  | some stored =>
    obtain ⟨s, published⟩ := stored
    unfold resetAdvert updateAdvertState
    dsimp only
    cases published with
    | none =>
      rw [Option.any_none, if_neg Bool.false_ne_true, restore_snapshot]
      exact .same _ _
    | some m =>
      rw [Option.any_some]
      by_cases told : (AdvertKeys.restore K s).current.serial ≤ m
      · rw [if_pos (decide_eq_true told)]
        exact .reset told (rotateNow_resetTo K s now seeds)
      · rw [if_neg fun le => told (of_decide_eq_true le), restore_snapshot]
        exact .same _ _

end

section

variable [LinearOrder L] [DecidableEq B] {C : Crypto B} {P : Platform B} {K : MlKem B} {me : Me B}
  {rounds : Nat}

/-- A section that moves the record of the advert keys as its call may. -/
def OnKeys (call : ProfileCall L B) (f : Profile L B → Profile L B) (p : Profile L B) : Prop :=
  AdvertMoved call p.advert (f p).advert

/-- **Every section of a call leaves the advert keys, or moves them as its call may.** -/
theorem keys_flow (call : ProfileCall L B) :
    Each (OnKeys call) (call.flow C P K me rounds) := by
  cases call with
  | conversation l call =>
    refine Each.bind (Each.within (fun _ _ _ => ?_) (kept_call (C := C) call)) fun _ => trivial
    exact .same _ _
  | deleteConv l => exact each_visit fun p => .same _ _
  | poll now seeds => exact each_onAdvert fun p => polled_moved K now seeds p.advert
  | markPublished serial => exact each_onAdvert fun p => marked_moved serial p.advert
  | reset now seeds =>
    exact each_reset (fun p => .same _ _) (fun _ p => .same _ _) (fun _ p => .same _ _)
      fun p => reset_moved K now seeds p.advert

end

/-! ## What is known of the advert keys -/

/-- The serial is not yet the largest there is. -/
def Room (s : AdvertSnapshot B) : Prop := s.serial.val < 2 ^ 64 - 1

/-- A key is held under a serial. -/
def Holds (s : AdvertSnapshot B) (serial : U64) (dk : B) : Prop :=
  s.serial = serial ∧ s.decapsulationKey = dk ∨
    ∃ p, s.previous = some p ∧ p.serial = serial ∧ p.decapsulationKey = dk

/-- The keys a section leaves are those it found, or a new one over them. -/
inductive Renewed (s s' : AdvertSnapshot B) : Prop
  | same (serial : s'.serial = s.serial) (dk : s'.decapsulationKey = s.decapsulationKey)
      (previous : ∀ p, s'.previous = some p → s.previous = some p)
  | next (serial : s'.serial = saturatingAdd s.serial 1) (previous : ∀ p, s'.previous = some p →
      p.serial = s.serial ∨ ∃ q, s.previous = some q ∧ p.serial = q.serial)

section

variable {s s' : AdvertSnapshot B} {now : U64}

theorem pruned_renewed (s : AdvertSnapshot B) (now : U64) : Renewed s (pruned s now) :=
  .same pruned_serial pruned_decapsulationKey fun _ held => (pruned_previous.1 held).1

theorem fresh_renewed (s : AdvertSnapshot B) (now at_ : U64) (dk : B) :
    Renewed s (fresh s now dk (some (retired s at_))) :=
  .next rfl fun _ held => by
    obtain rfl := Option.some.inj held
    exact .inl rfl

theorem polled_renewed (polled : Polled s now s') : Renewed s s' := by
  cases polled with
  | kept => exact pruned_renewed s now
  | rotated dk => exact fresh_renewed s now _ dk
  | replaced dk =>
    refine .next pruned_serial fun p held => ?_
    obtain ⟨q, before, rfl⟩ := Option.map_eq_some_iff.1 (pruned_previous.1 held).1
    exact .inr ⟨q, before, rfl⟩

theorem resetTo_renewed (reset : ResetTo s now s') : Renewed s s' := by
  cases reset with
  | kept => exact pruned_renewed s now
  | rotated dk => exact fresh_renewed s now now dk

theorem later_of_room (room : Room s') (next : s'.serial = saturatingAdd s.serial 1) :
    s.serial < s'.serial := by
  rw [Room, next, saturatingAdd_val] at room
  rw [next, Fin.lt_def, saturatingAdd_val]
  have one : (1 : U64).val = 1 := rfl
  omega

theorem Renewed.serial_le (renewed : Renewed s s') : s.serial ≤ s'.serial := by
  cases renewed with
  | same serial => exact serial.ge
  | next serial =>
    rw [serial, Fin.le_def, saturatingAdd_val]
    have := s.serial.isLt
    omega

theorem Renewed.room (renewed : Renewed s s') (room : Room s') : Room s :=
  Nat.lt_of_le_of_lt (Fin.le_def.1 renewed.serial_le) room

/-- A reset keeps the current key and drops none but the retained one. -/
theorem ResetTo.holds (reset : ResetTo s now s') {serial : U64} {dk : B}
    (held : Holds s serial dk) : Holds s' serial dk ∨ ∃ p, s.previous = some p ∧ p.serial = serial := by
  obtain ⟨current, same⟩ | ⟨p, retained, older, -⟩ := held
  · refine .inl ?_
    cases reset with
    | kept => exact .inl ⟨pruned_serial.trans current, pruned_decapsulationKey.trans same⟩
    | rotated => exact .inr ⟨_, rfl, current, same⟩
  · exact .inr ⟨p, retained, older⟩

end

section

variable {ι : Type} {calls : ι → ProfileCall L B}
  {es es' : List (Pools.Event ι (Profile L B) (Query B) Reply)} {r r' : AdvertRecord B}

/-- A mark of the key's serial was taken while the key was current. -/
def Told (calls : ι → ProfileCall L B)
    (es : List (Pools.Event ι (Profile L B) (Query B) Reply)) (s : AdvertSnapshot B) : Prop :=
  ∃ j u u' published, Pools.Event.moves j (.visits u u') ∈ es ∧
    calls j = .markPublished s.serial ∧
    (∃ found, u.advert = some ⟨found, published⟩ ∧ found.serial = s.serial ∧
      found.decapsulationKey = s.decapsulationKey) ∧
    u'.advert.bind (·.published) = some s.serial

theorem Told.mono {s s' : AdvertSnapshot B} (h : Told calls es s) (sub : es ⊆ es')
    (serial : s'.serial = s.serial) (dk : s'.decapsulationKey = s.decapsulationKey) :
    Told calls es' s' := by
  unfold Told
  rw [serial, dk]
  obtain ⟨j, u, u', published, mem, rest⟩ := h
  exact ⟨j, u, u', published, sub mem, rest⟩

/-- What holds of the record after the events. -/
structure Known (calls : ι → ProfileCall L B)
    (es : List (Pools.Event ι (Profile L B) (Query B) Reply)) (r : AdvertRecord B) : Prop where
  inside : ∀ m, r.published = some m → m ≤ r.snapshot.serial
  older : Room r.snapshot → ∀ p, r.snapshot.previous = some p → p.serial < r.snapshot.serial
  told : Room r.snapshot → r.published = some r.snapshot.serial → Told calls es r.snapshot

/-- The published mark does not go back. -/
def Forward (r r' : AdvertRecord B) : Prop :=
  ∀ m, r.published = some m → ∃ m', r'.published = some m' ∧ m ≤ m'

theorem Known.mono (h : Known calls es r) (sub : es ⊆ es') : Known calls es' r :=
  ⟨h.inside, h.older, fun room told => (h.told room told).mono sub rfl rfl⟩

theorem Known.renewed (h : Known calls es r) (sub : es ⊆ es') {s : AdvertSnapshot B}
    (renewed : Renewed r.snapshot s) : Known calls es' ⟨s, r.published⟩ := by
  refine ⟨fun m told => (h.inside m told).trans renewed.serial_le, fun room p held => ?_,
    fun room told => ?_⟩
  · have older := h.older (renewed.room room)
    cases renewed with
    | same serial _ previous => exact serial ▸ older p (previous p held)
    | next serial previous =>
      have later := later_of_room room serial
      obtain same | ⟨q, before, same⟩ := previous p held
      · exact same ▸ later
      · exact same ▸ (older q before).trans later
  · cases renewed with
    | same serial dk =>
      exact (h.told (by rwa [Room, ← serial]) (told.trans (congrArg some serial))).mono sub serial dk
    | next serial =>
      exact absurd (h.inside _ told) (Fin.not_le.2 (later_of_room room serial))

theorem Known.marked (h : Known calls es r) {serial : U64} (built : serial ≤ r.snapshot.serial)
    {i : ι} (is : calls i = .markPublished serial) {u u' : Profile L B} (found : u.advert = some r)
    (left : u'.advert = some ⟨r.snapshot, some ((r.published.map (max · serial)).getD serial)⟩) :
    Known calls (es ++ [.moves i (.visits u u')])
      ⟨r.snapshot, some ((r.published.map (max · serial)).getD serial)⟩ := by
  refine ⟨fun m told => ?_, h.older, fun room told => ?_⟩
  · obtain rfl := Option.some.inj told
    cases published : r.published with
    | none => exact built
    | some m => exact max_le (h.inside m published) built
  · by_cases same : r.published = some r.snapshot.serial
    · exact (h.told room same).mono (List.subset_append_left _ _) rfl rfl
    · have now_ : serial = r.snapshot.serial := by
        have last := Option.some.inj told
        cases published : r.published with
        | none => rwa [published] at last
        | some m =>
          rw [published, Option.map_some, Option.getD_some] at last
          obtain le | lt := le_total m serial
          · rwa [max_eq_right le] at last
          · rw [max_eq_left lt] at last
            exact absurd (published.trans (congrArg some last)) same
      refine ⟨i, u, u', r.published, by simp, now_ ▸ is, ⟨_, found, rfl, rfl⟩, ?_⟩
      rw [left]
      exact told

/-- **One section** keeps what is known, and takes no mark back. -/
theorem Known.moved (h : Known calls es r) {i : ι} {u u' : Profile L B} (found : u.advert = some r)
    (moved : AdvertMoved (calls i) u.advert u'.advert) :
    ∃ r', u'.advert = some r' ∧ Forward r r' ∧
      Known calls (es ++ [.moves i (.visits u u')]) r' := by
  have sub : es ⊆ es ++ [.moves i (.visits u u')] := List.subset_append_left _ _
  rw [found] at moved
  generalize is : calls i = call at moved
  generalize left : u'.advert = after at moved
  cases moved with
  | same => exact ⟨r, rfl, fun m told => ⟨m, told, le_rfl⟩, h.mono sub⟩
  | polled to_ =>
    exact ⟨_, rfl, fun m told => ⟨m, told, le_rfl⟩, h.renewed sub (polled_renewed to_)⟩
  | marked built =>
    refine ⟨_, rfl, fun m told => ⟨_, rfl, ?_⟩, h.marked built is found left⟩
    obtain rfl : _ = some m := told
    exact le_max_left _ _
  | reset told to_ =>
    exact ⟨_, rfl, fun m told => ⟨m, told, le_rfl⟩, h.renewed sub (resetTo_renewed to_)⟩

end

/-! ## What a reset flags -/

section

variable [LinearOrder L] {l : L}

/-- The record of a conversation is written back with its flag set. -/
def Flags (l : L) (s s' : Profile L B) : Prop :=
  ∃ r, (s.peer l).conv = some r ∧
    s' = s.setPeer l { s.peer l with conv := some (setForceTurn r true) }

theorem Flags.forced {s s' : Profile L B} (flags : Flags l s s') : Forced (s'.peer l) := by
  obtain ⟨r, -, rfl⟩ := flags
  rw [peer_setPeer_self]
  exact ⟨_, rfl, rfl⟩

variable [DecidableEq B]

theorem decodeConv_not_missing (s : ConvState B) : decodeConv s ≠ .error .missingConversation := by
  unfold decodeConv
  repeat' split
  all_goals nofun

theorem load_none {c : Correspondence B} (h : c.load = .ok none) : c.conv = none := by
  unfold Correspondence.load at h
  obtain ⟨found, loaded, h⟩ := bind_ok.1 h
  cases found with
  | none => exact loadConv_none loaded
  | some s =>
    obtain ⟨_, -, h⟩ := bind_ok.1 h
    cases h

/-- A reset that goes on has flagged the record, where there was one. -/
theorem flagSection_ok {c c' : Correspondence B} {u : Unit} {r : ConvState B}
    (taken : flagSection c = .ok (u, c')) (there : c.conv = some r) :
    c' = { c with conv := some (setForceTurn r true) } := by
  unfold flagSection at taken
  cases flagged : c.updateConv fun state => setForceTurn state true with
  | ok c₁ =>
    rw [flagged] at taken
    cases taken
    obtain ⟨r', -, held, rfl⟩ := updateConv_ok flagged
    obtain rfl := Option.some.inj (held.symm.trans there)
    rfl
  | error e =>
    rw [flagged] at taken
    cases e with
    | missingConversation =>
      -- a record that is there is not missing
      unfold Correspondence.updateConv Correspondence.loadConv at flagged
      rw [there] at flagged
      dsimp only at flagged
      cases decoded : decodeConv r with
      | ok r' =>
        rw [decoded] at flagged
        cases flagged
      | error e =>
        rw [decoded] at flagged
        cases flagged
        exact absurd decoded (decodeConv_not_missing r)
    | _ => cases taken

theorem mem_loadConvs {peers convs : List L} {ms : List (Move (Profile L B) (Query B) Reply)}
    (runs : Runs (loadConvs peers) ms (.ok convs)) (mem : l ∈ peers)
    (there : ∀ s s', .visits s s' ∈ ms → (s.peer l).conv.isSome) : l ∈ convs := by
  induction peers generalizing ms convs with
  | nil => cases mem
  | cons l' rest ih =>
    obtain ⟨found, ms₁, ms₂, rfl, loaded, runs⟩ := runs_bind_ok.1 runs
    have ih {convs : List L} (runs : Runs (loadConvs rest) ms₂ (.ok convs)) (later : l ∈ rest) :=
      ih runs later fun s s' mem => there s s' (List.mem_append_right _ mem)
    cases found with
    | none =>
      obtain rfl | later := List.mem_cons.1 mem
      · obtain ⟨s, rfl, read⟩ := runs_within_view loaded
        have held := there s _ List.mem_cons_self
        rw [load_none (mapError_ok.1 read)] at held
        cases held
      · exact ih runs later
    | some _ =>
      obtain ⟨more, _, _, rfl, loads, returned⟩ := runs_bind_ok.1 runs
      obtain ⟨rfl, same⟩ := runs_pure.1 returned
      rw [List.append_nil] at ih
      rw [Except.ok.inj same]
      obtain rfl | later := List.mem_cons.1 mem
      · exact List.mem_cons_self
      · exact List.mem_cons_of_mem _ (ih loads later)

theorem mem_flagConvs {convs : List L} {ms : List (Move (Profile L B) (Query B) Reply)} {u : Unit}
    (runs : Runs (flagConvs convs) ms (.ok u)) (mem : l ∈ convs)
    (there : ∀ s s', .visits s s' ∈ ms → (s.peer l).conv.isSome) :
    ∃ s s', .visits s s' ∈ ms ∧ Flags l s s' := by
  induction convs generalizing ms with
  | nil => cases mem
  | cons l' rest ih =>
    obtain ⟨_, ms₁, ms₂, rfl, flagged, runs⟩ := runs_bind_ok.1 runs
    obtain rfl | later := List.mem_cons.1 mem
    · obtain ⟨s, c, rfl, taken⟩ := runs_within_attempt flagged
      obtain ⟨r, held⟩ := Option.isSome_iff_exists.1 (there s _ List.mem_cons_self)
      exact ⟨s, _, List.mem_cons_self, r, held, by rw [flagSection_ok taken held]⟩
    · obtain ⟨s, s', mem, flags⟩ :=
        ih runs later fun s s' mem => there s s' (List.mem_append_right _ mem)
      exact ⟨s, s', List.mem_append_right _ mem, flags⟩

/-- **A reset that returns `Ok` has flagged each conversation** that was there all along. -/
theorem reset_flags {K : MlKem B} {now : U64} {seeds : Option (B × B)} {u : Unit}
    {ms : List (Move (Profile L B) (Query B) Reply)} (runs : Runs (reset K now seeds) ms (.ok u))
    (there : ∀ s s', .visits s s' ∈ ms → (s.peer l).conv.isSome) :
    ∃ s s', .visits s s' ∈ ms ∧ Flags l s s' := by
  obtain ⟨peers, ms₁, ms₂, rfl, listed, runs⟩ := runs_bind_ok.1 runs
  obtain ⟨convs, ms₃, ms₄, rfl, loaded, runs⟩ := runs_bind_ok.1 runs
  obtain ⟨_, ms₅, ms₆, rfl, flagged, -⟩ := runs_bind_ok.1 runs
  obtain ⟨s, rfl, read⟩ := runs_view.1 listed
  obtain rfl := Except.ok.inj read
  have mem : l ∈ s.correspondences := mem_correspondences (there s s (by simp))
  obtain ⟨s, s', mem, flags⟩ :=
    mem_flagConvs flagged (mem_loadConvs loaded mem fun s s' mem => there s s' (by simp [mem]))
      fun s s' mem => there s s' (by simp [mem])
  exact ⟨s, s', by simp [mem], flags⟩

end

end Daemonseed.Dm.ProfileResets
