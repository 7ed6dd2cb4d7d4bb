import Daemonseed.Dm.ProfileResets

/-! # Runs with resets in them

Everything that runs over a profile, from the first mint of its advert keys on. What
the mark of the last advert confirmed published says, which keys a reset may drop, and
what the conversations it flagged go on to commit. -/
namespace Daemonseed.Dm.ResetRuns
open Daemonseed.Dm.AdvertRotation hiding Call
open Daemonseed.Dm.Records hiding AdvertError
open Daemonseed.Lib
open Daemonseed.Dm.Primitives Daemonseed.Dm.Store Daemonseed.Dm.Flows Daemonseed.Dm.Contact
  Daemonseed.Dm.AdvertStore Daemonseed.Dm.AdvertWindow Daemonseed.Dm.ForcedTurns
  Daemonseed.Dm.ProfileResets Daemonseed.Lib.Runs Daemonseed.Lib.Flows Daemonseed.Lib.Flows.Flow
  Daemonseed.Lib.Pools Daemonseed.Lib.Sorted Daemonseed.Lib.Visits

variable {L B : Type}

/-! ## What follows a flag -/

section

variable {ι : Type} [LinearOrder L] {l : L}
  {es : List (Pools.Event ι (Profile L B) (Query B) Reply)}

/-- A message of the conversation is committed. -/
def Sends (l : L) (s s' : Profile L B) : Prop :=
  ∃ r r', (s.peer l).conv = some r ∧ (s'.peer l).conv = some r' ∧ r'.sendSeq ≠ r.sendSeq

/-- It is one that starts a turn. -/
def SendsTurn (C : Crypto B) (l : L) (s s' : Profile L B) : Prop :=
  ∃ r r', (s.peer l).conv = some r ∧ (s'.peer l).conv = some r' ∧ StartsTurn C r r'

/-- The conversation is there in every state between the events. -/
def There (l : L) (es : List (Pools.Event ι (Profile L B) (Query B) Reply)) : Prop :=
  ∀ i s s', .moves i (.visits s s') ∈ es → (s.peer l).conv.isSome ∧ (s'.peer l).conv.isSome

/-- Of the messages the conversation goes on to commit, one starts a turn, up to and including
the first whose run had taken no section before. -/
def ForcesTurn (C : Crypto B) (l : L)
    (before after : List (Pools.Event ι (Profile L B) (Query B) Reply)) : Prop :=
  ∀ mid j t t' rest, after = mid ++ .moves j (.visits t t') :: rest → There l mid →
    Fresh j before → Sends l t t' →
    ∃ k u u', .moves k (.visits u u') ∈ mid ++ [.moves j (.visits t t')] ∧ SendsTurn C l u u'

variable {C : Crypto B}

/-- A flag stays set until a message starts a turn. -/
theorem forced_trail {p p' : Profile L B}
    (trail : Trail (Visited fun _ : ι => OnPeer l (Keeps C)) p es p') (forced : Forced (p.peer l))
    (there : There l es) :
    (∃ k u u', .moves k (.visits u u') ∈ es ∧ SendsTurn C l u u') ∨
      Forced (p'.peer l) ∧ ∀ k u u', .moves k (.visits u u') ∈ es → Forced (u.peer l) := by
  induction trail with
  | nil => exact .inr ⟨forced, fun _ _ _ mem => nomatch mem⟩
  | @cons p p₁ p₂ e rest head _ ih =>
    have later := fun forced => ih forced fun i s s' mem => there i s s' (List.mem_cons_of_mem _ mem)
    have goes (forced₁ : Forced (p₁.peer l))
        (here : ∀ k u u', e = .moves k (.visits u u') → u = p) :
        (∃ k u u', .moves k (.visits u u') ∈ e :: rest ∧ SendsTurn C l u u') ∨
          Forced (p₂.peer l) ∧ ∀ k u u', .moves k (.visits u u') ∈ e :: rest → Forced (u.peer l) := by
      obtain ⟨k, u, u', mem, sends⟩ | ⟨last, all⟩ := later forced₁
      · exact .inl ⟨k, u, u', List.mem_cons_of_mem _ mem, sends⟩
      · refine .inr ⟨last, fun k u u' mem => ?_⟩
        obtain same | mem := List.mem_cons.1 mem
        · exact here k u u' same.symm ▸ forced
        · exact all k u u' mem
    cases head with
    | @visits i f _ is =>
      obtain ⟨before, after⟩ := there i _ _ List.mem_cons_self
      obtain ⟨r, held⟩ := Option.isSome_iff_exists.1 before
      obtain ⟨r', left⟩ := Option.isSome_iff_exists.1 after
      obtain ⟨s, same, flag⟩ := forced
      obtain rfl := Option.some.inj (held.symm.trans same)
      obtain stays | starts := is r r' held left flag
      · exact goes ⟨r', left, stays⟩ fun _ _ _ same => by cases same; rfl
      · exact .inl ⟨i, _, _, List.mem_cons_self, r, r', held, left, starts⟩
    | begins => exact goes forced nofun
    | asks => exact goes forced nofun
    | ends => exact goes forced nofun
    | stops => exact goes forced nofun

variable [DecidableEq ι] [DecidableEq B] {P : Platform B} {K : MlKem B} {me : Me B} {rounds : Nat}
  {calls : ι → ProfileCall L B}
  {may : (Profile L B → Profile L B) → Profile L B → Prop}

/-- **After a flag**: the messages committed are as the flag has them. -/
theorem forcesTurn {Q Q' : Pool ι (Profile L B) (Query B) Reply ProfileError Unit}
    {before after : List (Pools.Event ι (Profile L B) (Query B) Reply)} {i : ι} {s s' : Profile L B}
    (idle : Idle Q)
    (run : Trail (Steps (fun i => (calls i).flow C P K me rounds) may) Q
      (before ++ .moves i (.visits s s') :: after) Q') (flags : Flags l s s') :
    ForcesTurn C l (before ++ [.moves i (.visits s s')]) after := by
  rintro mid j t t' rest rfl there fresh ⟨r, r', held, left, sent⟩
  rw [List.append_cons] at run
  obtain ⟨Q₁, first, run⟩ := run.split
  obtain ⟨Q₂, middle, run⟩ := run.split
  have keeps (i : ι) : Each (OnPeer l (Keeps C)) ((calls i).flow C P K me rounds) := keeps_flow _ l
  have forced : Forced (Q₁.state.peer l) := by
    obtain ⟨_, -, last⟩ := first.split
    cases last with
    | cons last nil =>
      cases nil
      cases last
      exact flags.forced
  have sectioned := (Sectioned.trail keeps (sectioned_idle idle) first).2
  obtain turned | ⟨-, all⟩ := forced_trail (sectioned.trail keeps middle).1 forced there
  · obtain ⟨k, u, u', mem, sends⟩ := turned
    exact ⟨k, u, u', List.mem_append_left _ mem, sends⟩
  have informed : ∀ p, Q₂.life j = .running p →
      Informed (fun p => Forced (p.peer l)) (OnPeer l (Turns C)) p := by
    refine informed_trail (turns_flow _ l) ?_ (fun u u' mem => all j u u' mem) middle
    refine informed_trail (turns_flow _ l) (fun p at_ => ?_) (fun u u' mem => ?_) first
    · rw [idle j] at at_
      cases at_
    · exact absurd mem (fresh u u')
  cases run with
  | cons last _ =>
    obtain ⟨f, turns, rfl, rfl⟩ := informed_section informed last
    exact ⟨j, _, _, by simp, r, r', held, left, turns r r' held left sent⟩

end

/-! ## The advert keys -/

section

variable {ι : Type} {calls : ι → ProfileCall L B}
  {es : List (Pools.Event ι (Profile L B) (Query B) Reply)} {r : AdvertRecord B}

/-- What is known of the record when the events have happened. -/
theorem known_trail {p p' : Profile L B}
    (trail : Trail (Visited fun i => OnKeys (calls i)) p es p')
    {before : List (Pools.Event ι (Profile L B) (Query B) Reply)} (known : Known calls before r)
    (found : p.advert = some r) :
    ∃ r', p'.advert = some r' ∧ Known calls (before ++ es) r' := by
  induction trail generalizing before r with
  | nil => exact ⟨r, found, known.mono (List.subset_append_left _ _)⟩
  | @cons p p₁ p₂ e rest head _ ih =>
    rw [List.append_cons]
    have stays (same : p₁.advert = some r) :
        ∃ r', p₂.advert = some r' ∧ Known calls (before ++ [e] ++ rest) r' :=
      ih (known.mono (List.subset_append_left _ _)) same
    cases head with
    | visits is =>
      obtain ⟨r₁, left, -, known⟩ := known.moved found is
      exact ih known left
    | begins => exact stays found
    | asks => exact stays found
    | ends => exact stays found
    | stops => exact stays found

/-- A reset leaves the keys alone, or the current one was marked published while it was
current, and none is dropped but one of an older serial. -/
def Spares (calls : ι → ProfileCall L B)
    (before : List (Pools.Event ι (Profile L B) (Query B) Reply)) (r r' : AdvertRecord B) : Prop :=
  r' = r ∨ Told calls before r.snapshot ∧ ∀ serial dk, Holds r.snapshot serial dk →
    Holds r'.snapshot serial dk ∨ serial < r.snapshot.serial

theorem known_spares (known : Known calls es r) {now : U64} {seeds : Option (B × B)}
    {after : Option (AdvertRecord B)}
    (moved : AdvertMoved (.reset now seeds : ProfileCall L B) (some r) after)
    (room : Room r.snapshot) : ∃ r', after = some r' ∧ Spares calls es r r' := by
  cases moved with
  | same => exact ⟨r, rfl, .inl rfl⟩
  | reset told to_ =>
    have current := le_antisymm (known.inside _ rfl) told
    refine ⟨_, rfl, .inr ⟨known.told room (congrArg some current), fun serial dk held => ?_⟩⟩
    refine (to_.holds held).imp_right fun ⟨p, retained, same⟩ => ?_
    exact same ▸ known.older room p retained

/-- What a section does to the record of the advert keys. -/
theorem keys_section [LinearOrder L] [DecidableEq ι] [DecidableEq B] {C : Crypto B} {P : Platform B} {K : MlKem B}
    {me : Me B} {rounds : Nat} {may : (Profile L B → Profile L B) → Profile L B → Prop}
    {Q Q' : Pool ι (Profile L B) (Query B) Reply ProfileError Unit}
    {before after : List (Pools.Event ι (Profile L B) (Query B) Reply)} {i : ι}
    {u u' : Profile L B} (idle : Idle Q) (known : Known calls [] r) (found : Q.state.advert = some r)
    (run : Trail (Steps (fun i => (calls i).flow C P K me rounds) may) Q
      (before ++ .moves i (.visits u u') :: after) Q') :
    ∃ r, u.advert = some r ∧ Known calls before r ∧ AdvertMoved (calls i) (some r) u'.advert := by
  have keys (i : ι) : Each (OnKeys (calls i)) ((calls i).flow C P K me rounds) := keys_flow _
  obtain ⟨p, first, rest⟩ := (Sectioned.trail keys (sectioned_idle idle) run).1.split
  obtain ⟨r, found, known⟩ := known_trail first known found
  cases rest with
  | cons head _ =>
    cases head with
    | visits is => exact ⟨r, found, known, found ▸ is⟩

theorem new_known {K : MlKem B} {t₀ : U64} {seeds : Option (B × B)} {keys : AdvertKeys B}
    (made : AdvertKeys.new K t₀ seeds = .ok keys) : Known calls [] ⟨keys.snapshot, none⟩ := by
  have previous : keys.snapshot.previous = none := by
    unfold AdvertKeys.new at made
    cases first : generate K 0 t₀ seeds with
    | error e =>
      rw [first] at made
      cases made
    | ok key =>
      rw [first] at made
      obtain rfl := Except.ok.inj made
      rfl
  refine ⟨nofun, fun _ p held => ?_, nofun⟩
  rw [previous] at held
  cases held

end

/-! ## Every run -/

section

variable {ι : Type} [DecidableEq ι] [LinearOrder L] [DecidableEq B]

/-- **Resets among everything else.** From the first mint on, whatever runs and stops, in any
order: the published mark never goes back and is never past the current serial; a reset that
finds a serial short of the largest changes the keys only where the current one was marked
published, and drops only one of an older serial; and where a reset returns `Ok`, it has
flagged every conversation that was there all along, and of the messages committed in it
after that, one starts a turn, up to and including the first whose run loaded the record
after the flag. -/
theorem reset_spares (C : Crypto B) (P : Platform B) (K : MlKem B) (me : Me B) (rounds : Nat)
    (calls : ι → ProfileCall L B) (may : (Profile L B → Profile L B) → Profile L B → Prop)
    {t₀ : U64} {first : Option (B × B)} {keys : AdvertKeys B}
    (made : AdvertKeys.new K t₀ first = .ok keys)
    {Q Q' : Pool ι (Profile L B) (Query B) Reply ProfileError Unit}
    {es : List (Pools.Event ι (Profile L B) (Query B) Reply)} (idle : Idle Q)
    (minted : Q.state.advert = some ⟨keys.snapshot, none⟩)
    (run : Trail (Steps (fun i => (calls i).flow C P K me rounds) may) Q es Q') :
    (∀ before i u u' after, es = before ++ .moves i (.visits u u') :: after →
      ∃ r r', u.advert = some r ∧ u'.advert = some r' ∧ Forward r r' ∧
        (∀ m, r'.published = some m → m ≤ r'.snapshot.serial) ∧
        ∀ now seeds, calls i = .reset now seeds → Room r.snapshot → Spares calls before r r') ∧
    ∀ before i during after now seeds l,
      es = before ++ .begins i :: (during ++ .ends i :: after) → calls i = .reset now seeds →
      Q'.life i = .finished (.ok ()) → There l during →
      ∃ early s s' late, during = early ++ .moves i (.visits s s') :: late ∧ Flags l s s' ∧
        ForcesTurn C l (before ++ .begins i :: early ++ [.moves i (.visits s s')])
          (late ++ .ends i :: after) := by
  refine ⟨?_, ?_⟩
  · rintro before i u u' after rfl
    obtain ⟨r, found, known, moved⟩ := keys_section idle (new_known made) minted run
    obtain ⟨r', left, forward, known'⟩ := known.moved found (found ▸ moved)
    refine ⟨r, r', found, left, forward, known'.inside, fun now seeds is room => ?_⟩
    obtain ⟨r₁, left₁, spares⟩ := known_spares known (is ▸ moved) room
    obtain rfl := Option.some.inj (left₁.symm.trans left)
    exact spares
  · rintro before i during after now seeds l rfl is ended there
    have runs := runs_between idle run ended
    rw [is] at runs
    obtain ⟨s, s', mem, flags⟩ := reset_flags runs fun s s' mem => (there i s s' (mem_movesOf.1 mem)).1
    obtain ⟨early, late, rfl⟩ := List.append_of_mem (mem_movesOf.1 mem)
    have run' : Trail (Steps (fun i => (calls i).flow C P K me rounds) may) Q
        ((before ++ .begins i :: early) ++ .moves i (.visits s s') :: (late ++ .ends i :: after)) Q' := by
      simpa using run
    exact ⟨early, s, s', late, rfl, flags, forcesTurn idle run' flags⟩

end

/-! ## Runs over keys of one half -/

section

variable {P : Platform Nat} {calls : Nat → ProfileCall Nat Nat} {me : Me Nat}
  {Q : Pool Nat (Profile Nat Nat) (Query Nat) Reply ProfileError Unit} {i : Nat}
  {s : AdvertSnapshot Nat} {published : Option U64}

/-- A profile with no correspondences. -/
def alone (s : AdvertSnapshot Nat) (published : Option U64) : Profile Nat Nat :=
  ⟨∅, some ⟨s, published⟩⟩

abbrev MirrorSteps (P : Platform Nat) (me : Me Nat) (calls : Nat → ProfileCall Nat Nat) :=
  Steps (fun i => (calls i).flow mirrorCrypto P mirrorKem me 0) fun _ _ => True

/-- What happens in a run that marks the current key published. -/
def marking (i : Nat) (s : AdvertSnapshot Nat) (published : Option U64) :
    List (Pools.Event Nat (Profile Nat Nat) (Query Nat) Reply) :=
  [.begins i, .moves i (.visits (alone s published) (alone s (some s.serial))), .ends i]

/-- What happens in a reset that rotates. -/
def resetting (i : Nat) (s s' : AdvertSnapshot Nat) :
    List (Pools.Event Nat (Profile Nat Nat) (Query Nat) Reply) :=
  [.begins i, .moves i (.visits (alone s (some s.serial)) (alone s (some s.serial))),
    .moves i (.visits (alone s (some s.serial)) (alone s' (some s.serial))), .ends i]

/-- A section taken from one state to another. -/
theorem visits_step {Q : Pool Nat (Profile Nat Nat) (Query Nat) Reply ProfileError Unit}
    {f : Profile Nat Nat → Profile Nat Nat}
    {k : Profile Nat Nat → ProfileFlow Nat Nat Unit} {u u' : Profile Nat Nat}
    (at_ : Q.life i = .running (.atomic f k)) (here : Q.state = u) (left : f u = u') :
    MirrorSteps P me calls Q (.moves i (.visits u u'))
      ({ Q with state := u' }.put i (.running (k u))) := by
  subst here left
  exact .visits at_ trivial

theorem marking_run (P : Platform Nat) (me : Me Nat) (at_ : Q.state = alone s published) (unborn : Q.life i = .unborn)
    (is : calls i = .markPublished s.serial) (inside : ∀ m, published = some m → m ≤ s.serial) :
    ∃ Q', Trail (MirrorSteps P me calls) Q (marking i s published) Q' ∧
      Q'.state = alone s (some s.serial) ∧ ∀ j, j ≠ i → Q'.life j = Q.life j := by
  have marked : (markAdvertPublished s.serial (some ⟨s, published⟩)).2 =
      some ⟨s, some s.serial⟩ := by
    have not_past : ¬ s.serial < s.serial := lt_irrefl _
    simp only [markAdvertPublished, if_neg not_past]
    cases published with
    | none => rfl
    | some m => rw [Option.map_some, Option.getD_some, max_eq_right (inside m rfl)]
  refine ⟨_, .cons (.begins unborn) (.cons (visits_step (by rw [put_self, is]; rfl) at_ ?_)
    (.cons (.ends (put_self _ _ _)) (.nil _))), rfl, fun j other => ?_⟩
  · show (⟨∅, (markAdvertPublished s.serial (some ⟨s, published⟩)).2⟩ : Profile Nat Nat) = _
    rw [marked]
    rfl
  · rw [put_other _ _ other, put_other _ _ other]
    exact put_other _ _ other

theorem resetting_run (P : Platform Nat) (me : Me Nat) {now : U64} {d : Nat} (at_ : Q.state = alone s (some s.serial))
    (unborn : Q.life i = .unborn) (is : calls i = .reset now (some (d, d))) :
    ∃ Q', Trail (MirrorSteps P me calls) Q
        (resetting i s (fresh s now d (some (retired s now)))) Q' ∧
      Q'.state = alone (fresh s now d (some (retired s now))) (some s.serial) ∧
      ∀ j, j ≠ i → Q'.life j = Q.life j := by
  have rotated : (resetAdvert mirrorKem now (some (d, d)) (some ⟨s, some s.serial⟩)).2 =
      some ⟨fresh s now d (some (retired s now)), some s.serial⟩ := by
    unfold resetAdvert updateAdvertState
    dsimp only
    have told : (AdvertKeys.restore mirrorKem s).current.serial ≤ s.serial := le_rfl
    rw [Option.any_some, if_pos (decide_eq_true told)]
    unfold AdvertKeys.rotateNow AdvertKeys.rotate
    rw [AdvertKeys.prune_current]
    rfl
  have listed : (alone s (some s.serial)).correspondences = [] := by
    simp [alone, Profile.correspondences]
  let f (p : Profile Nat Nat) : Profile Nat Nat :=
    { p with advert := (resetAdvert mirrorKem now (some (d, d)) p.advert).2 }
  let k (p : Profile Nat Nat) : ProfileFlow Nat Nat Unit :=
    .done (resetReturns (resetAdvert mirrorKem now (some (d, d)) p.advert).1)
  refine ⟨_, .cons (.begins unborn) (.cons (visits_step (by rw [put_self, is]; rfl) at_ rfl)
    (.cons (visits_step (f := f) (k := k) ?_ rfl ?_)
    (.cons (.ends (put_self _ _ _)) (.nil _)))), rfl, fun j other => ?_⟩
  · -- a profile with no correspondences has nothing to load or to flag
    rw [put_self]
    show Life.running ((loadConvs (alone s (some s.serial)).correspondences) >>= _) = _
    rw [listed]
    rfl
  · show (⟨∅, (resetAdvert mirrorKem now (some (d, d)) (some ⟨s, some s.serial⟩)).2⟩ :
      Profile Nat Nat) = _
    rw [rotated]
    rfl
  · rw [put_other _ _ other, put_other _ _ other]
    show (Pool.put _ i _).life j = _
    rw [put_other _ _ other]
    exact put_other _ _ other

/-- The first key of a profile, and nothing running. -/
def firstSnapshot : AdvertSnapshot Nat := ⟨0, 0, 7, none⟩

def firstPool : Pool Nat (Profile Nat Nat) (Query Nat) Reply ProfileError Unit :=
  ⟨alone firstSnapshot none, fun _ => .unborn⟩

/-- One serial after another is marked and rotated away, over one key until the last. -/
def upwards (j : Nat) : ProfileCall Nat Nat :=
  if j % 2 = 0 then .markPublished (Fin.ofNat _ (j / 2))
  else .reset 0 (some (if j ≤ 2 * (2 ^ 64 - 1) then (7, 7) else (j, j)))

theorem upwards_marks {n : Nat} {serial : U64} (is : serial.val = n) :
    upwards (2 * n) = .markPublished serial := by
  have half : (Fin.ofNat (2 ^ 64) (2 * n / 2) : U64) = serial := by
    refine Fin.ext ?_
    rw [Fin.val_ofNat, ← is]
    have := serial.isLt
    omega
  rw [upwards, if_pos (by omega), half]

theorem upwards_resets {n : Nat} (low : n < 2 ^ 64 - 1) :
    upwards (2 * n + 1) = .reset 0 (some (7, 7)) := by
  rw [upwards, if_neg (by omega), if_pos (by omega)]

theorem upwards_resets_last {n : Nat} (high : 2 ^ 64 - 1 ≤ n) :
    upwards (2 * n + 1) = .reset 0 (some (2 * n + 1, 2 * n + 1)) := by
  rw [upwards, if_neg (by omega), if_neg (by omega)]

/-- The secret half of a profile's current key. -/
def currentKey (p : Profile Nat Nat) : Option Nat := p.advert.map (·.snapshot.decapsulationKey)

theorem marking_current {i j : Nat} {u u' : Profile Nat Nat} (key : s.decapsulationKey = 7)
    (mem : .moves j (.visits u u') ∈ marking i s published) : currentKey u = some 7 := by
  obtain ⟨-, rfl, -⟩ : j = i ∧ u = alone s published ∧ u' = alone s (some s.serial) := by
    simpa [marking] using mem
  exact congrArg some key

theorem resetting_current {i j : Nat} {s' : AdvertSnapshot Nat} {u u' : Profile Nat Nat}
    (mem : .moves j (.visits u u') ∈ resetting i s s') :
    j = i ∧ currentKey u = some s.decapsulationKey := by
  have here : j = i ∧ u = alone s (some s.serial) := by
    simp only [resetting, List.mem_cons, reduceCtorEq, Event.moves.injEq, Move.visits.injEq,
      List.not_mem_nil, false_or, or_false] at mem
    tauto
  exact ⟨here.1, here.2 ▸ rfl⟩

/-- As many resets as it takes to come to a serial. -/
theorem upwards_reaches (P : Platform Nat) (me : Me Nat) {n : Nat} (le : n ≤ 2 ^ 64 - 1) :
    ∃ es Q s published, Trail (MirrorSteps P me upwards) firstPool es Q ∧
      Q.state = alone s published ∧ s.serial.val = n ∧ s.decapsulationKey = 7 ∧
      (∀ m, published = some m → m ≤ s.serial) ∧ (∀ j, 2 * n ≤ j → Q.life j = .unborn) ∧
      ∀ j u u', .moves j (.visits u u') ∈ es → currentKey u = some 7 := by
  induction n with
  | zero =>
    exact ⟨[], firstPool, firstSnapshot, none, .nil _, rfl, rfl, rfl, nofun, fun _ _ => rfl,
      fun _ _ _ mem => nomatch mem⟩
  | succ n ih =>
    obtain ⟨es, Q, s, published, trail, at_, serial, key, inside, unborn, current⟩ := ih (by omega)
    obtain ⟨Q₁, marked, at₁, same₁⟩ :=
      marking_run P me at_ (unborn (2 * n) le_rfl) (upwards_marks serial) inside
    have unborn₁ : Q₁.life (2 * n + 1) = .unborn := by
      rw [same₁ _ (by omega)]
      exact unborn _ (by omega)
    obtain ⟨Q₂, rotated, at₂, same₂⟩ := resetting_run P me at₁ unborn₁ (upwards_resets (by omega))
    refine ⟨_, Q₂, _, _, (trail.append marked).append rotated, at₂, ?_, rfl, fun m told => ?_,
      fun j later => ?_, fun j u u' mem => ?_⟩
    · rw [fresh, saturatingAdd_val, serial]
      have one : (1 : U64).val = 1 := rfl
      omega
    · obtain rfl := Option.some.inj told
      rw [fresh, Fin.le_def, saturatingAdd_val]
      have := s.serial.isLt
      omega
    · rw [same₂ _ (by omega), same₁ _ (by omega)]
      exact unborn _ (by omega)
    · obtain mem | mem := List.mem_append.1 mem
      · obtain mem | mem := List.mem_append.1 mem
        · exact current j u u' mem
        · exact marking_current key mem
      · exact (resetting_current mem).2.trans (congrArg some key)

/-- The serial stays at the largest there is. -/
theorem fresh_largest {now : U64} {dk : Nat} {previous : Option (RetiredSnapshot Nat)}
    (largest : s.serial.val = 2 ^ 64 - 1) : (fresh s now dk previous).serial = s.serial := by
  refine Fin.ext ?_
  rw [fresh, saturatingAdd_val, largest]
  have one : (1 : U64).val = 1 := rfl
  omega

/-- The first mark and the first reset: the key it retires was marked while it was current. -/
theorem reset_spares_first :
    Spares upwards (marking 0 firstSnapshot none ++
        [.begins 1, .moves 1 (.visits (alone firstSnapshot (some 0)) (alone firstSnapshot (some 0)))])
      ⟨firstSnapshot, some 0⟩
      ⟨fresh firstSnapshot 0 7 (some (retired firstSnapshot 0)), some 0⟩ := by
  obtain ⟨Q₁, marked, at₁, same₁⟩ := marking_run mirrorPlatform ⟨0, 0⟩ (Q := firstPool) rfl rfl
    (upwards_marks (n := 0) rfl) nofun
  have unborn : Q₁.life 1 = .unborn := same₁ 1 (by decide)
  have resets : upwards 1 = .reset 0 (some (7, 7)) := upwards_resets (n := 0) (by decide)
  obtain ⟨Q₂, rotated, -⟩ := resetting_run mirrorPlatform ⟨0, 0⟩ at₁ unborn resets
  have made : AdvertKeys.new mirrorKem 0 (some (7, 7)) = .ok ⟨⟨0, 0, 7, 7⟩, none⟩ := rfl
  obtain ⟨r, r', found, left, -, -, spares⟩ := (reset_spares mirrorCrypto mirrorPlatform mirrorKem
    ⟨0, 0⟩ 0 upwards (fun _ _ => True) made (fun _ => rfl) rfl (marked.append rotated)).1
    (marking 0 firstSnapshot none ++ [.begins 1, .moves 1 (.visits _ _)]) 1 _ _ [.ends 1] rfl
  obtain rfl := Option.some.inj found
  obtain rfl := Option.some.inj left
  exact spares 0 _ resets (by show (0 : Nat) < _; decide)

/-- At the largest serial a key has that of the one before, which was marked: a reset then
retires a key no mark was for, and drops the one before it, though no advert is newer. -/
theorem largest_serial_burns : ∃ Q' before i u u' after r r',
    AdvertKeys.new mirrorKem 0 (some (7, 7)) = .ok ⟨⟨0, 0, 7, 7⟩, none⟩ ∧ Idle firstPool ∧
      firstPool.state.advert = some ⟨(⟨⟨0, 0, 7, 7⟩, none⟩ : AdvertKeys Nat).snapshot, none⟩ ∧
      Trail (MirrorSteps mirrorPlatform ⟨0, 0⟩ upwards) firstPool
        (before ++ .moves i (.visits u u') :: after) Q' ∧
      (∃ now seeds, upwards i = .reset now seeds) ∧ u.advert = some r ∧ u'.advert = some r' ∧
      r'.snapshot.decapsulationKey ≠ r.snapshot.decapsulationKey ∧
      ¬Told upwards before r.snapshot ∧ ∃ serial dk, (∀ later : U64, ¬serial < later) ∧
        Holds r.snapshot serial dk ∧ ¬Holds r'.snapshot serial dk := by
  obtain ⟨n, largest⟩ : ∃ n, n = 2 ^ 64 - 1 := ⟨_, rfl⟩
  obtain ⟨es, Q, s, published, trail, at_, serial, key, inside, unborn, current⟩ :=
    upwards_reaches mirrorPlatform ⟨0, 0⟩ largest.le
  obtain ⟨Q₁, marked, at₁, same₁⟩ :=
    marking_run mirrorPlatform ⟨0, 0⟩ at_ (unborn _ le_rfl) (upwards_marks serial) inside
  have unborn₁ : Q₁.life (2 * n + 1) = .unborn := by
    rw [same₁ _ (by omega)]
    exact unborn _ (by omega)
  obtain ⟨Q₂, rotated, at₂, same₂⟩ := resetting_run mirrorPlatform ⟨0, 0⟩ at₁ unborn₁
    (upwards_resets_last largest.ge)
  generalize is₁ : fresh s 0 (2 * n + 1) (some (retired s 0)) = s₁ at rotated at₂
  have stays : s₁.serial = s.serial := is₁ ▸ fresh_largest (serial.trans largest)
  have at₂ : Q₂.state = alone s₁ (some s₁.serial) := stays.symm ▸ at₂
  have unborn₂ : Q₂.life (2 * (n + 1) + 1) = .unborn := by
    rw [same₂ _ (by omega), same₁ _ (by omega)]
    exact unborn _ (by omega)
  have resets := upwards_resets_last (n := n + 1) (by omega)
  obtain ⟨Q₃, again, -⟩ := resetting_run mirrorPlatform ⟨0, 0⟩ at₂ unborn₂ resets
  refine ⟨Q₃, es ++ marking (2 * n) s published ++ resetting (2 * n + 1) s s₁ ++
      [.begins (2 * (n + 1) + 1), .moves (2 * (n + 1) + 1)
        (.visits (alone s₁ (some s₁.serial)) (alone s₁ (some s₁.serial)))], _,
    alone s₁ (some s₁.serial), alone (fresh s₁ 0 (2 * (n + 1) + 1) (some (retired s₁ 0)))
      (some s₁.serial),
    [.ends (2 * (n + 1) + 1)], _, _, rfl, fun _ => rfl, rfl, ?_, ⟨_, _, resets⟩, rfl, rfl, ?_, ?_,
    s.serial, 7, fun later above => ?_, ?_, ?_⟩
  · rw [List.append_assoc]
    exact ((trail.append marked).append rotated).append again
  · subst is₁
    show 2 * (n + 1) + 1 ≠ 2 * n + 1
    omega
  · -- every mark there was found the key that both resets left behind
    rintro ⟨j, u, u', _, mem, marks, ⟨found, held, -, same⟩, -⟩
    have here : currentKey u = some (2 * n + 1) := by
      rw [currentKey, held, Option.map_some, same, ← is₁]
      rfl
    have early : currentKey u = some 7 := by
      obtain mem | mem := List.mem_append.1 mem
      · obtain mem | mem := List.mem_append.1 mem
        · obtain mem | mem := List.mem_append.1 mem
          · exact current j u u' mem
          · exact marking_current key mem
        · exact (resetting_current mem).2.trans (congrArg some key)
      · obtain ⟨rfl, -⟩ : j = 2 * (n + 1) + 1 ∧ _ := by simpa using mem
        rw [resets] at marks
        cases marks
    have := Option.some.inj (here.symm.trans early)
    omega
  · rw [Fin.lt_def, serial] at above
    have := later.isLt
    omega
  · subst is₁
    exact .inr ⟨_, rfl, rfl, key⟩
  · subst is₁
    rintro (⟨-, same⟩ | ⟨p, held, -, same⟩)
    · have same : 2 * (n + 1) + 1 = 7 := same
      omega
    · obtain rfl := Option.some.inj held
      have same : 2 * n + 1 = 7 := same
      omega

end

end Daemonseed.Dm.ResetRuns
