import Daemonseed.Gui.Unlocked
import Daemonseed.Storage.Reopened

/-! # What the saves of a profile leave

Every run of the calls that save, of saves that fail or are cut, and of relaunches: what
the blob on disk opens as, beside what the client holds and has held. -/
namespace Daemonseed.Gui.Saves
open Daemonseed.Lib.Bytes Daemonseed.Lib.Lines Daemonseed.Lib.Runs Daemonseed.Lib.Sorted
  Daemonseed.Storage.Suites Daemonseed.Storage.Profile Daemonseed.Storage.Blob Daemonseed.Storage.Directives
  Daemonseed.Storage.Written Daemonseed.Gui.Unlocked
open Daemonseed.Storage.Reopened (Kept opened_iff fromPlaintext_kept kept_profileOf)

variable {K M : Type} {crypto : Crypto K} {bip39 : Bip39 M}

/-! ## What a call changes -/

/-- Whether the call finds something to change, and the Seeds it saves then. -/
def mutates (s : Seeds bip39) : Call → Bool × Seeds bip39
  | .persistCircle phrase label => s.addCircle phrase label
  | .forgetCircle phrase => s.removeCircle phrase
  | .persistPublished root name => s.addPublished root name
  | .unpersistPublished root => s.removePublished root
  | .persistAnnounceSeen serverId marker => s.setAnnounceSeen serverId marker
  | .persistCircleSeen entropy ms => s.setCircleSeen entropy ms
  | .rename newName => if isValidDisplayName newName then s.setDisplayName (some newName) else (false, s)

variable {s : Seeds bip39} {c : Call} {p : Profile bip39} {key blob : Octets} {attempt : Attempt}

theorem filter_kept {α : Type} {p : α → Bool} {l : List α} (h : (l.filter p).length = l.length) :
    l.filter p = l :=
  List.filter_sublist.eq_of_length h

/-- What is found to be as the call wants it stays as it is. -/
theorem mutates_same (h : (mutates s c).1 = false) : (mutates s c).2 = s := by
  cases c with
  | persistCircle phrase label =>
    simp only [mutates, Seeds.addCircle] at h ⊢
    split at h
    · rename_i known
      rw [if_pos known]
    · cases h
  | forgetCircle phrase =>
    simp only [mutates, Seeds.removeCircle, decide_eq_false_iff_not, not_not] at h ⊢
    rw [filter_kept h]
  | persistPublished root name =>
    simp only [mutates, Seeds.addPublished] at h ⊢
    split at h
    · rename_i known
      rw [if_pos known]
    · cases h
  | unpersistPublished root =>
    simp only [mutates, Seeds.removePublished, decide_eq_false_iff_not, not_not] at h ⊢
    rw [filter_kept h]
  | persistAnnounceSeen serverId marker =>
    simp only [mutates, Seeds.setAnnounceSeen] at h ⊢
    split at h
    · rename_i blanks
      rw [if_pos blanks]
    · rename_i plain
      rw [if_neg plain]
      split at h
      · rename_i known
        rw [if_pos known]
      · cases h
  | persistCircleSeen entropy ms =>
    simp only [mutates, Seeds.setCircleSeen] at h ⊢
    split at h
    · rename_i known
      rw [if_pos known]
    · cases h
  | rename newName =>
    simp only [mutates, Seeds.setDisplayName] at h ⊢
    split at h
    · rename_i valid
      rw [if_pos valid]
      split at h
      · rename_i breaks
        rw [if_pos breaks]
      · rename_i whole
        rw [if_neg whole]
        split at h
        · rename_i known
          rw [if_pos known]
        · cases h
    · rename_i invalid
      rw [if_neg invalid]

/-- What the call has changed is as the call wants it. -/
theorem mutates_again : (mutates (mutates s c).2 c).1 = false := by
  cases changes : (mutates s c).1 with
  | false => rw [mutates_same changes, changes]
  | true =>
    cases c with
    | persistCircle phrase label =>
      simp only [mutates, Seeds.addCircle] at changes
      split at changes
      · cases changes
      · rename_i new
        have e : mutates s (.persistCircle phrase label) =
            (true, { s with circles := s.circles ++ [⟨phrase, label⟩] }) := if_neg new
        rw [e]
        simp [mutates, Seeds.addCircle]
    | forgetCircle phrase => simp [mutates, Seeds.removeCircle]
    | persistPublished root name =>
      simp only [mutates, Seeds.addPublished] at changes
      split at changes
      · cases changes
      · rename_i new
        have e : mutates s (.persistPublished root name) =
            (true, { s with published := s.published ++ [⟨root, name⟩] }) := if_neg new
        rw [e]
        simp [mutates, Seeds.addPublished]
    | unpersistPublished root => simp [mutates, Seeds.removePublished]
    | persistAnnounceSeen serverId marker =>
      simp only [mutates, Seeds.setAnnounceSeen] at changes
      split at changes
      · cases changes
      · rename_i plain
        split at changes
        · cases changes
        · rename_i new
          have e : mutates s (.persistAnnounceSeen serverId marker) =
              (true, { s with announceSeen := s.announceSeen.insert serverId marker }) :=
            (if_neg plain).trans (if_neg new)
          rw [e]
          simp [mutates, Seeds.setAnnounceSeen]
    | persistCircleSeen entropy ms =>
      simp only [mutates, Seeds.setCircleSeen] at changes
      split at changes
      · cases changes
      · rename_i new
        have e : mutates s (.persistCircleSeen entropy ms) =
            (true, { s with circleSeen := s.circleSeen.insert entropy ms }) := if_neg new
        rw [e]
        simp [mutates, Seeds.setCircleSeen]
    | rename newName =>
      simp only [mutates, Seeds.setDisplayName] at changes
      split at changes
      · rename_i valid
        split at changes
        · cases changes
        · rename_i whole
          split at changes
          · cases changes
          · rename_i new
            have e : mutates s (.rename newName) = (true, { s with displayName := some newName }) :=
              (if_pos valid).trans ((if_neg whole).trans (if_neg new))
            rw [e]
            simp [mutates, Seeds.setDisplayName]
      · cases changes

/-- The Seeds the call is about to save, or the ones it leaves. -/
def held (p : Profile bip39) (c : Call) : Profile bip39 := { p with seeds := (mutates p.seeds c).2 }

/-- The Seeds after a save that failed. -/
def afterFailure (s : Seeds bip39) : Call → Seeds bip39
  | .persistAnnounceSeen serverId marker =>
    Profile.restoreMarker (mutates s (.persistAnnounceSeen serverId marker)).2 serverId
      (s.announceSeen.lookup serverId)
  | c => (mutates s c).2

variable (crypto) in
/-- The save the call makes. -/
def save (p : Profile bip39) (key : Octets) (attempt : Attempt) (blob : Octets) (c : Call) :
    Except SaveError Unit × Octets := (held p c).reseal crypto key attempt blob

theorem reseal_seeds {p q : Profile bip39} (same : p.seeds = q.seeds) :
    p.reseal crypto key attempt blob = q.reseal crypto key attempt blob := by
  unfold Profile.reseal
  rw [same]

variable (crypto key attempt blob) in
/-- A call that finds nothing to change leaves the Seeds and the blob. -/
theorem call_idle (idle : (mutates p.seeds c).1 = false) :
    (p.call crypto key attempt blob c).2.1.seeds = p.seeds ∧
      (p.call crypto key attempt blob c).2.2 = blob := by
  have same := mutates_same idle
  have persists : ∀ {mutated : Bool × Seeds bip39}, mutated.1 = false → mutated.2 = p.seeds →
      (p.persist crypto key attempt blob mutated).2.1.seeds = p.seeds ∧
        (p.persist crypto key attempt blob mutated).2.2 = blob := by
    rintro ⟨_, seeds⟩ ⟨⟩ same
    exact ⟨same, rfl⟩
  cases c with
  | persistCircle phrase label => exact persists idle same
  | forgetCircle phrase => exact persists idle same
  | persistPublished root name => exact persists idle same
  | unpersistPublished root => exact persists idle same
  | persistCircleSeen entropy ms => exact persists idle same
  | persistAnnounceSeen serverId marker =>
    rw [Profile.call, Profile.persistAnnounceSeen]
    split
    · exact ⟨rfl, rfl⟩
    · have quiet : (p.seeds.setAnnounceSeen serverId marker).1 = false := idle
      have kept : (p.seeds.setAnnounceSeen serverId marker).2 = p.seeds := same
      generalize p.seeds.setAnnounceSeen serverId marker = mutated at quiet kept
      obtain ⟨_, seeds⟩ := mutated
      cases quiet
      exact ⟨kept, rfl⟩
  | rename newName =>
    rw [Profile.call, Profile.rename]
    split
    · exact ⟨rfl, rfl⟩
    · rename_i h
      have valid : isValidDisplayName newName = true := by simpa using h
      have name : (p.seeds.setDisplayName (some newName)).1 = false := by
        simpa [mutates, valid] using idle
      have kept : (p.seeds.setDisplayName (some newName)).2 = p.seeds := by
        simpa [mutates, valid] using same
      generalize p.seeds.setDisplayName (some newName) = renamed at name kept
      obtain ⟨_, seeds⟩ := renamed
      cases name
      exact ⟨kept, rfl⟩

/-- The calls that return Ok where they find nothing to change. -/
def quiet : Call → Bool
  | .rename _ => false
  | .persistAnnounceSeen _ marker => !contains marker [' ', '\t', '\n', '\r']
  | _ => true

/-- A call that finds nothing to change returns Ok, unless it is one that reports it. -/
theorem call_quiet (idle : (mutates p.seeds c).1 = false) (ok : quiet c = true) :
    (p.call crypto key attempt blob c).1 = .ok false := by
  have persists : ∀ {mutated : Bool × Seeds bip39}, mutated.1 = false →
      (p.persist crypto key attempt blob mutated).1 = .ok false := by
    rintro ⟨_, seeds⟩ ⟨⟩
    rfl
  cases c with
  | persistCircle phrase label => exact persists idle
  | forgetCircle phrase => exact persists idle
  | persistPublished root name => exact persists idle
  | unpersistPublished root => exact persists idle
  | persistCircleSeen entropy ms => exact persists idle
  | persistAnnounceSeen serverId marker =>
    rw [Profile.call, Profile.persistAnnounceSeen, if_neg (by simpa [quiet] using ok)]
    have none_ : (p.seeds.setAnnounceSeen serverId marker).1 = false := idle
    generalize p.seeds.setAnnounceSeen serverId marker = mutated at none_
    obtain ⟨_, seeds⟩ := mutated
    cases none_
    rfl
  | rename newName => cases ok

variable (crypto p c key attempt blob) in
/-- What a persisted change returns is what its save does. -/
theorem persist_saves (q : Profile bip39) (mutated : Bool × Seeds bip39) (changes : mutated.1 = true)
    (same : mutated.2 = (mutates p.seeds c).2) :
    (∃ u, save crypto p key attempt blob c = (.ok u, (q.persist crypto key attempt blob mutated).2.2) ∧
      (q.persist crypto key attempt blob mutated).1 = .ok true ∧
      (q.persist crypto key attempt blob mutated).2.1.seeds = (mutates p.seeds c).2) ∨
    (∃ e, save crypto p key attempt blob c = (.error e, (q.persist crypto key attempt blob mutated).2.2) ∧
      (q.persist crypto key attempt blob mutated).1 = .error e ∧
      (q.persist crypto key attempt blob mutated).2.1.seeds = (mutates p.seeds c).2) := by
  obtain ⟨_, seeds⟩ := mutated
  cases changes
  have saved : save crypto p key attempt blob c =
      ({ q with seeds } : Profile bip39).reseal crypto key attempt blob := reseal_seeds same.symm
  rw [saved, ← same]
  unfold Profile.persist
  simp only
  cases ({ q with seeds } : Profile bip39).reseal crypto key attempt blob with
  | mk result blob' =>
    cases result with
    | ok u => exact .inl ⟨u, rfl, rfl, rfl⟩
    | error e => exact .inr ⟨e, rfl, rfl, rfl⟩

variable (crypto key attempt blob) in
/-- A call that finds something to change saves it, and returns what its save does. -/
theorem call_saves (changes : (mutates p.seeds c).1 = true) :
    (∃ u, save crypto p key attempt blob c = (.ok u, (p.call crypto key attempt blob c).2.2) ∧
      (p.call crypto key attempt blob c).1 = .ok true ∧
      (p.call crypto key attempt blob c).2.1.seeds = (mutates p.seeds c).2) ∨
    (∃ e, save crypto p key attempt blob c = (.error e, (p.call crypto key attempt blob c).2.2) ∧
      (p.call crypto key attempt blob c).1 = .error e ∧
      (p.call crypto key attempt blob c).2.1.seeds = afterFailure p.seeds c) := by
  cases c with
  | persistCircle phrase label => exact persist_saves _ _ _ _ _ _ p _ changes rfl
  | forgetCircle phrase => exact persist_saves _ _ _ _ _ _ p _ changes rfl
  | persistPublished root name => exact persist_saves _ _ _ _ _ _ p _ changes rfl
  | unpersistPublished root => exact persist_saves _ _ _ _ _ _ p _ changes rfl
  | persistCircleSeen entropy ms => exact persist_saves _ _ _ _ _ _ p _ changes rfl
  | persistAnnounceSeen serverId marker =>
    have plain : ¬ contains marker [' ', '\t', '\n', '\r'] := by
      intro blanks
      simp [mutates, Seeds.setAnnounceSeen, blanks] at changes
    have done := persist_saves crypto (.persistAnnounceSeen serverId marker) p key blob attempt p
      (p.seeds.setAnnounceSeen serverId marker) changes rfl
    rw [Profile.call, Profile.persistAnnounceSeen, if_neg plain]
    generalize p.persist crypto key attempt blob (p.seeds.setAnnounceSeen serverId marker) = outcome at done
    obtain ⟨result, q, blob'⟩ := outcome
    rcases done with ⟨u, saved, rfl, seeds⟩ | ⟨e, saved, rfl, seeds⟩
    · exact .inl ⟨u, saved, rfl, seeds⟩
    · exact .inr ⟨e, saved, rfl, congrArg (Profile.restoreMarker · serverId _) seeds⟩
  | rename newName =>
    have valid : isValidDisplayName newName = true := by
      by_contra invalid
      rw [mutates, if_neg invalid] at changes
      cases changes
    have name : (p.seeds.setDisplayName (some newName)).1 = true := by
      simpa [mutates, valid] using changes
    have same : (p.seeds.setDisplayName (some newName)).2 = (mutates p.seeds (.rename newName)).2 := by
      rw [mutates, if_pos valid]
    rw [Profile.call, Profile.rename, valid]
    have done := persist_saves crypto (.rename newName) p key blob attempt
      { p with displayHandle := newName } _ name same
    generalize p.seeds.setDisplayName (some newName) = renamed at name done
    obtain ⟨_, seeds⟩ := renamed
    cases name
    exact done

/-! ## Seeds that are read back as they are -/

/-- What is written of the Seeds is read back as it was: the fields written as they are are in
order, and no label or name is the empty one, which is read as none. -/
structure Good (s : Seeds bip39) : Prop where
  kept : Kept s
  labels : ∀ sh ∈ s.shares, sh.label ≠ some ""
  names : ∀ ps ∈ s.published, ps.name ≠ some ""

theorem unlessEmpty_named {name : Option String} (h : name ≠ some "") :
    name.bind Seeds.unlessEmpty = name := by
  cases name with
  | none => rfl
  | some name =>
    have some_ : name ≠ "" := fun e => h (congrArg some e)
    simp [Seeds.unlessEmpty, some_]

theorem normal_good (good : Good s) : normal s = s := by
  have shares : s.shares.map (fun sh => ⟨sh.root, sh.label.bind Seeds.unlessEmpty⟩) = s.shares := by
    conv => rhs; rw [← List.map_id s.shares]
    exact List.map_congr_left fun sh mem => by rw [unlessEmpty_named (good.labels sh mem)]; rfl
  have published : s.published.map (fun ps => ⟨ps.root, ps.name.bind Seeds.unlessEmpty⟩) =
      s.published := by
    conv => rhs; rw [← List.map_id s.published]
    exact List.map_congr_left fun ps mem => by rw [unlessEmpty_named (good.names ps mem)]; rfl
  unfold normal
  rw [shares, published]

theorem unlessEmpty_ne (text : String) : Seeds.unlessEmpty text ≠ some "" := by
  intro e
  unfold Seeds.unlessEmpty at e
  split at e
  · cases e
  · rename_i some_
    exact some_ (Option.some.inj e ▸ rfl)

/-- What a payload is read as has no empty label or name. -/
theorem good_profileOf {m : Mnemonic bip39} {ds : List Directive} (clean : ∀ d ∈ ds, d.Clean) :
    Good (profileOf m ds) := by
  have step (s : Seeds bip39) (d : Directive) (labels : ∀ sh ∈ s.shares, sh.label ≠ some "")
      (names : ∀ ps ∈ s.published, ps.name ≠ some "") :
      (∀ sh ∈ (d.take s).shares, sh.label ≠ some "") ∧
        ∀ ps ∈ (d.take s).published, ps.name ≠ some "" := by
    cases d with
    | share root label =>
      refine ⟨fun sh mem => ?_, names⟩
      rcases List.mem_append.1 mem with old | new
      · exact labels sh old
      · rw [List.mem_singleton.1 new]
        exact unlessEmpty_ne label
    | publish root shown =>
      refine ⟨labels, fun ps mem => ?_⟩
      rcases List.mem_append.1 mem with old | new
      · exact names ps old
      · rw [List.mem_singleton.1 new]
        cases shown with
        | none => intro e; cases e
        | some text => exact unlessEmpty_ne text
    | sendCounter | seen | mute | hide | name | circle | announceSeen | circleSeen =>
      exact ⟨labels, names⟩
  have fold (s : Seeds bip39) (labels : ∀ sh ∈ s.shares, sh.label ≠ some "")
      (names : ∀ ps ∈ s.published, ps.name ≠ some "") :
      (∀ sh ∈ (ds.foldl Directive.take s).shares, sh.label ≠ some "") ∧
        ∀ ps ∈ (ds.foldl Directive.take s).published, ps.name ≠ some "" := by
    clear clean
    induction ds generalizing s with
    | nil => exact ⟨labels, names⟩
    | cons d ds ih =>
      obtain ⟨labels, names⟩ := step s d labels names
      exact ih (d.take s) labels names
  obtain ⟨labels, names⟩ := fold (Seeds.new m) (by intro sh mem; cases mem) (by intro ps mem; cases mem)
  exact ⟨kept_profileOf clean, labels, names⟩

/-- No share is published under the empty name. -/
def Named : Call → Prop
  | .persistPublished _ name => name ≠ some ""
  | _ => True

variable (s c) in
theorem mutates_run : ∃ k : Storage.Reopened.Call, k.Tame ∧ k.run s = some (mutates s c).2 := by
  cases c with
  | persistCircle phrase label => exact ⟨.addCircle phrase label, trivial, rfl⟩
  | forgetCircle phrase => exact ⟨.removeCircle phrase, trivial, rfl⟩
  | persistPublished root name => exact ⟨.addPublished root name, trivial, rfl⟩
  | unpersistPublished root => exact ⟨.removePublished root, trivial, rfl⟩
  | persistAnnounceSeen serverId marker => exact ⟨.setAnnounceSeen serverId marker, trivial, rfl⟩
  | persistCircleSeen entropy ms => exact ⟨.setCircleSeen entropy ms, trivial, rfl⟩
  | rename newName =>
    simp only [mutates]
    split
    · exact ⟨.setDisplayName (some newName), trivial, rfl⟩
    · exact ⟨.setDisplayName s.displayName, trivial, by
        simp only [Storage.Reopened.Call.run, Seeds.setDisplayName]
        split <;> simp⟩

theorem mutates_shares : (mutates s c).2.shares = s.shares := by
  cases c with
  | persistCircle => simp only [mutates, Seeds.addCircle]; split <;> rfl
  | forgetCircle => rfl
  | persistPublished => simp only [mutates, Seeds.addPublished]; split <;> rfl
  | unpersistPublished => rfl
  | persistAnnounceSeen => simp only [mutates, Seeds.setAnnounceSeen]; split <;> [rfl; split <;> rfl]
  | persistCircleSeen => simp only [mutates, Seeds.setCircleSeen]; split <;> rfl
  | rename =>
    simp only [mutates, Seeds.setDisplayName]
    split <;> [split <;> [rfl; split <;> rfl]; rfl]

theorem mutates_published {ps : PublishedShare} (mem : ps ∈ (mutates s c).2.published) :
    ps ∈ s.published ∨ c = .persistPublished ps.root ps.name := by
  cases c with
  | persistCircle =>
    simp only [mutates, Seeds.addCircle] at mem
    split at mem <;> exact .inl mem
  | forgetCircle => exact .inl mem
  | persistPublished root name =>
    simp only [mutates, Seeds.addPublished] at mem
    split at mem
    · exact .inl mem
    · rcases List.mem_append.1 mem with old | new
      · exact .inl old
      · rw [List.mem_singleton.1 new]
        exact .inr rfl
  | unpersistPublished root => exact .inl (List.mem_of_mem_filter mem)
  | persistAnnounceSeen =>
    simp only [mutates, Seeds.setAnnounceSeen] at mem
    split at mem
    · exact .inl mem
    · split at mem <;> exact .inl mem
  | persistCircleSeen =>
    simp only [mutates, Seeds.setCircleSeen] at mem
    split at mem <;> exact .inl mem
  | rename =>
    simp only [mutates, Seeds.setDisplayName] at mem
    split at mem
    · split at mem
      · exact .inl mem
      · split at mem <;> exact .inl mem
    · exact .inl mem

theorem Good.mutates (good : Good s) (named : Named c) : Good (mutates s c).2 where
  kept := by
    obtain ⟨k, tame, ran⟩ := mutates_run s c
    exact good.kept.call tame ran
  labels sh mem := good.labels sh (mutates_shares ▸ mem)
  names ps mem := by
    rcases mutates_published mem with old | rfl
    · exact good.names ps old
    · exact named

/-- A marker put back changes nothing but the marker. -/
theorem restoreMarker_call (s : Seeds bip39) (serverId : String) (previous : Option String) :
    ∃ k : Storage.Reopened.Call, k.Tame ∧ k.run s = some (Profile.restoreMarker s serverId previous) ∧
      (Profile.restoreMarker s serverId previous).shares = s.shares ∧
      (Profile.restoreMarker s serverId previous).published = s.published := by
  cases previous with
  | none => exact ⟨.clearAnnounceSeen serverId, trivial, rfl, rfl, rfl⟩
  | some marker =>
    refine ⟨.setAnnounceSeen serverId marker, trivial, rfl, ?_, ?_⟩
    all_goals
      simp only [Profile.restoreMarker, Seeds.setAnnounceSeen]
      split <;> [rfl; split <;> rfl]

theorem Good.afterFailure (good : Good s) (named : Named c) : Good (afterFailure s c) := by
  have changed := good.mutates named
  cases c with
  | persistAnnounceSeen serverId marker =>
    obtain ⟨k, tame, ran, shares, published⟩ := restoreMarker_call
      (Saves.mutates s (.persistAnnounceSeen serverId marker)).2 serverId
      (s.announceSeen.lookup serverId)
    exact ⟨changed.kept.call tame ran, fun sh mem => changed.labels sh (shares ▸ mem),
      fun ps mem => changed.names ps (published ▸ mem)⟩
  | persistCircle | forgetCircle | persistPublished | unpersistPublished | persistCircleSeen | rename =>
    exact changed


/-! ## Histories -/

variable (crypto) in
/-- Whether the call's save returns Ok. -/
def saves (p : Profile bip39) (key : Octets) (attempt : Attempt) (blob : Octets) (c : Call) : Bool :=
  (mutates p.seeds c).1 && (save crypto p key attempt blob c).1.toOption.isSome

/-- The running client and the blob, and beside them the Seeds last written whole and those held
at or after the last save that returned Ok. -/
structure History (bip39 : Bip39 M) where
  running : Option (Profile bip39)
  blob : Octets
  saved : Seeds bip39
  since : Set (Seeds bip39)

inductive Act
  | call (c : Call) (attempt : Attempt)
  | cut (c : Call) (attempt : Attempt)
  | stop
  | relaunch

namespace History

variable (crypto) in
/-- After a call that returned. -/
def called (h : History bip39) (p : Profile bip39) (key : Octets) (c : Call) (attempt : Attempt) :
    History bip39 :=
  let outcome := p.call crypto key attempt h.blob c
  let after := (mutates p.seeds c).2
  { running := some outcome.2.1
    blob := outcome.2.2
    saved := if saves crypto p key attempt h.blob c then after else h.saved
    since := if saves crypto p key attempt h.blob c then {after}
      else insert after (insert outcome.2.1.seeds h.since) }

variable (crypto) in
/-- After a call in which the process stopped. -/
def cut (h : History bip39) (p : Profile bip39) (key : Octets) (c : Call) (attempt : Attempt) :
    History bip39 :=
  { h.called crypto p key c attempt with
    running := none
    since := insert (mutates p.seeds c).2 h.since }

end History

/-- A stopped client is launched again where the blob opens. -/
inductive Step (crypto : Crypto K) (passphrase : String) (profileId : Uuid) (params : ArgonParams)
    (key : Octets) : History bip39 → Act → History bip39 → Prop
  | call {h : History bip39} {p : Profile bip39} {c : Call} {attempt : Attempt}
    (running : h.running = some p) :
    Step crypto passphrase profileId params key h (.call c attempt) (h.called crypto p key c attempt)
  | cut {h : History bip39} {p : Profile bip39} {c : Call} {attempt : Attempt}
    (running : h.running = some p) :
    Step crypto passphrase profileId params key h (.cut c attempt) (h.cut crypto p key c attempt)
  | stop {h : History bip39} :
    Step crypto passphrase profileId params key h .stop { h with running := none }
  | relaunch {h : History bip39} {opened : Opened bip39} (displayHandle : String)
    (stopped : h.running = none)
    (opens : openBlob crypto bip39 h.blob passphrase profileId params = .ok opened) :
    Step crypto passphrase profileId params key h .relaunch
      { h with running := some ⟨opened.seeds, displayHandle⟩, since := insert opened.seeds h.since }

/-- A write that begins is not cut short, and no share is published under the empty name. -/
def Safe (s : Seeds bip39) (c : Call) (attempt : Attempt) : Prop :=
  (mutates s c).1 = true → (∀ n, attempt.write ≠ .torn n) ∧ Named c

/-- Safe, and a call that finds nothing to change is made only where the memory is what was last
written. -/
def Sound (h : History bip39) : Act → Prop
  | .call c attempt => ∀ p, h.running = some p → Safe p.seeds c attempt ∧
      ((mutates p.seeds c).1 = false → quiet c = true → p.seeds = h.saved)
  | .cut c attempt => ∀ p, h.running = some p → Safe p.seeds c attempt
  | .stop | .relaunch => True

/-- The blob opens to these Seeds. -/
def Opens (crypto : Crypto K) (passphrase : String) (profileId : Uuid) (params : ArgonParams)
    (blob : Octets) (t : Seeds bip39) : Prop :=
  ∃ opened, openBlob crypto bip39 blob passphrase profileId params = .ok opened ∧ opened.seeds = t

structure Inv (crypto : Crypto K) (passphrase : String) (profileId : Uuid) (params : ArgonParams)
    (h : History bip39) : Prop where
  opens : Opens crypto passphrase profileId params h.blob h.saved
  since : h.saved ∈ h.since
  saved : Good h.saved
  running : ∀ p, h.running = some p → Good p.seeds

variable {passphrase : String} {profileId : Uuid} {params : ArgonParams}

theorem Opens.unique {t u : Seeds bip39} (first : Opens crypto passphrase profileId params blob t)
    (second : Opens crypto passphrase profileId params blob u) : t = u := by
  obtain ⟨o, opens, rfl⟩ := first
  obtain ⟨o', opens', rfl⟩ := second
  rw [Except.ok.inj (opens.symm.trans opens')]

variable (crypto p key blob c) in
/-- A save fills the blob with what it sealed, or leaves it, unless its write is cut short. -/
theorem save_blob (whole : ∀ n, attempt.write ≠ .torn n) :
    (∃ bytes, sealBytes crypto key attempt.nonce (mutates p.seeds c).2 = some (.ok bytes) ∧
      save crypto p key attempt blob c = (.ok (), bytes)) ∨
    (∃ e, save crypto p key attempt blob c = (.error e, blob)) := by
  unfold save Profile.reseal held
  cases sealed : sealBytes crypto key attempt.nonce (mutates p.seeds c).2 with
  | none => exact .inr ⟨_, rfl⟩
  | some result =>
    cases result with
    | error e => exact .inr ⟨_, rfl⟩
    | ok bytes =>
      simp only [writeSeedsBlob]
      cases write : attempt.write with
      | whole => exact .inl ⟨bytes, rfl, rfl⟩
      | refused => exact .inr ⟨_, rfl⟩
      | torn n => exact absurd write (whole n)

theorem save_sealed {bytes : Octets}
    (sealed : sealBytes crypto key attempt.nonce (mutates p.seeds c).2 = some (.ok bytes)) :
    save crypto p key attempt blob c = writeSeedsBlob attempt.write bytes blob := by
  unfold save Profile.reseal held
  rw [sealed]

/-- A save that returns Ok leaves what it sealed. -/
theorem save_ok {u : Unit} {bytes : Octets} (saved : save crypto p key attempt blob c = (.ok u, bytes)) :
    sealBytes crypto key attempt.nonce (mutates p.seeds c).2 = some (.ok bytes) := by
  unfold save Profile.reseal held at saved
  cases sealed : sealBytes crypto key attempt.nonce (mutates p.seeds c).2 with
  | none =>
    rw [sealed] at saved
    cases congrArg Prod.fst saved
  | some result =>
    rw [sealed] at saved
    cases result with
    | error e => cases congrArg Prod.fst saved
    | ok all =>
      simp only [writeSeedsBlob] at saved
      cases write : attempt.write with
      | whole =>
        rw [write] at saved
        have e : all = bytes := congrArg Prod.snd saved
        rw [e]
      | refused | torn n =>
        rw [write] at saved
        cases congrArg Prod.fst saved

/-- What the cached key seals opens to the Seeds it was given, empty labels and names being none. -/
theorem sealBytes_opens (genuine : crypto.Genuine) (lawful : Lawful bip39)
    (derived : deriveAeadKey crypto passphrase profileId params = .ok key) {nonce : Except String Nonce}
    (kept : Kept s) {bytes : Octets} (sealed : sealBytes crypto key nonce s = some (.ok bytes)) :
    Opens crypto passphrase profileId params bytes (normal s) := by
  have whole : sealSeeds crypto nonce s passphrase profileId params = some (.ok bytes) := by
    rw [← sealed, sealSeeds, sealBytes]
    congr 1
    funext suiteId
    rw [sealUnder, derived]
    rfl
  exact (opened_iff genuine whole _).2 (fromPlaintext_kept lawful kept)


/-- Under a name that is empty, what is sealed is not what is read back. -/
theorem normal_named (changes : (mutates s c).1 = true) (same : normal (mutates s c).2 = (mutates s c).2) :
    Named c := by
  cases c with
  | persistPublished root name =>
    rintro rfl
    simp only [mutates, Seeds.addPublished] at changes same
    split at changes
    · cases changes
    · rename_i new
      rw [if_neg new] at same
      have mem : (⟨root, some ""⟩ : PublishedShare) ∈
          (normal { s with published := s.published ++ [⟨root, some ""⟩] }).published := by
        rw [same]
        exact List.mem_append_right _ (List.mem_singleton_self _)
      obtain ⟨ps, -, e⟩ := List.mem_map.1 mem
      obtain ⟨root', name⟩ := ps
      cases name with
      | none => cases e
      | some text => exact unlessEmpty_ne text (congrArg PublishedShare.name e)
  | persistCircle | forgetCircle | unpersistPublished | persistAnnounceSeen | persistCircleSeen | rename =>
    trivial

section Calls
variable {h : History bip39}

variable (crypto key attempt h) in
theorem called_idle (idle : (mutates p.seeds c).1 = false) :
    (h.called crypto p key c attempt).blob = h.blob ∧ (h.called crypto p key c attempt).saved = h.saved ∧
      h.since ⊆ (h.called crypto p key c attempt).since := by
  have unsaved : saves crypto p key attempt h.blob c = false := by rw [saves, idle, Bool.false_and]
  simp only [History.called, unsaved, Bool.false_eq_true, if_false]
  exact ⟨(call_idle crypto key h.blob attempt idle).2, trivial,
    (Set.subset_insert _ _).trans (Set.subset_insert _ _)⟩

theorem called_saved (changes : (mutates p.seeds c).1 = true) {u : Unit} {bytes : Octets}
    (saved : save crypto p key attempt h.blob c = (.ok u, bytes)) :
    (p.call crypto key attempt h.blob c).1 = .ok true ∧
      (p.call crypto key attempt h.blob c).2.1.seeds = (mutates p.seeds c).2 ∧
      (h.called crypto p key c attempt).blob = bytes ∧
      (h.called crypto p key c attempt).saved = (mutates p.seeds c).2 ∧
      (h.called crypto p key c attempt).since = {(mutates p.seeds c).2} := by
  have all : saves crypto p key attempt h.blob c = true := by rw [saves, changes, saved]; rfl
  simp only [History.called, all, if_true]
  rcases call_saves crypto key h.blob attempt changes with
    ⟨_, made, result, seeds⟩ | ⟨_, made, -⟩
  · rw [saved] at made
    exact ⟨result, seeds, (congrArg Prod.snd made).symm, trivial, trivial⟩
  · rw [saved] at made
    cases congrArg Prod.fst made

theorem called_failed (changes : (mutates p.seeds c).1 = true) {e : SaveError} {bytes : Octets}
    (failed : save crypto p key attempt h.blob c = (.error e, bytes)) :
    (p.call crypto key attempt h.blob c).1 = .error e ∧
      (p.call crypto key attempt h.blob c).2.1.seeds = afterFailure p.seeds c ∧
      (h.called crypto p key c attempt).blob = bytes ∧
      (h.called crypto p key c attempt).saved = h.saved ∧
      h.since ⊆ (h.called crypto p key c attempt).since := by
  have none_ : saves crypto p key attempt h.blob c = false := by rw [saves, changes, failed]; rfl
  simp only [History.called, none_, Bool.false_eq_true, if_false]
  rcases call_saves crypto key h.blob attempt changes with
    ⟨_, made, -⟩ | ⟨_, made, result, seeds⟩
  · rw [failed] at made
    cases congrArg Prod.fst made
  · rw [failed] at made
    cases congrArg Prod.fst made
    exact ⟨result, seeds, (congrArg Prod.snd made).symm, trivial,
      (Set.subset_insert _ _).trans (Set.subset_insert _ _)⟩

/-- What a safe call leaves. -/
theorem called_inv (genuine : crypto.Genuine) (lawful : Lawful bip39)
    (derived : deriveAeadKey crypto passphrase profileId params = .ok key)
    (inv : Inv crypto passphrase profileId params h) (running : h.running = some p)
    (safe : Safe p.seeds c attempt) :
    Inv crypto passphrase profileId params (h.called crypto p key c attempt) := by
  have good := inv.running p running
  cases changes : (mutates p.seeds c).1 with
  | false =>
    obtain ⟨blob, saved, since⟩ := called_idle crypto key attempt h changes
    refine ⟨by rw [blob, saved]; exact inv.opens, by rw [saved]; exact since inv.since,
      by rw [saved]; exact inv.saved, ?_⟩
    intro q e
    cases e
    rw [(call_idle crypto key h.blob attempt changes).1]
    exact good
  | true =>
    obtain ⟨whole, named⟩ := safe changes
    have changed := good.mutates named
    rcases save_blob crypto c p key h.blob whole with
      ⟨bytes, sealed, save⟩ | ⟨e, save⟩
    · obtain ⟨-, seeds, blob, saved, since⟩ := called_saved changes save
      refine ⟨?_, by rw [saved, since]; exact rfl, by rw [saved]; exact changed, ?_⟩
      · rw [blob, saved]
        exact normal_good changed ▸ sealBytes_opens genuine lawful derived changed.kept sealed
      · intro q e
        cases e
        rw [seeds]
        exact changed
    · obtain ⟨-, seeds, blob, saved, since⟩ := called_failed changes save
      refine ⟨by rw [blob, saved]; exact inv.opens, by rw [saved]; exact since inv.since,
        by rw [saved]; exact inv.saved, ?_⟩
      intro q e
      cases e
      rw [seeds]
      exact good.afterFailure named

variable (crypto p key c attempt h) in
theorem called_saved_eq : (h.called crypto p key c attempt).saved = (mutates p.seeds c).2 ∨
    (h.called crypto p key c attempt).saved = h.saved := by
  simp only [History.called]
  split
  · exact .inl rfl
  · exact .inr rfl

theorem inv_step (genuine : crypto.Genuine) (lawful : Lawful bip39)
    (derived : deriveAeadKey crypto passphrase profileId params = .ok key) {h' : History bip39} {a : Act}
    (inv : Inv crypto passphrase profileId params h) (sound : Sound h a)
    (step : Step crypto passphrase profileId params key h a h') :
    Inv crypto passphrase profileId params h' := by
  cases step with
  | call running => exact called_inv genuine lawful derived inv running (sound _ running).1
  | @cut p c attempt running =>
    have after := called_inv genuine lawful derived inv running (sound _ running)
    refine ⟨after.opens, ?_, after.saved, by intro q e; cases e⟩
    rcases called_saved_eq crypto c p key attempt h with e | e
    · exact Set.mem_insert_iff.2 (.inl e)
    · refine Set.mem_insert_iff.2 (.inr ?_)
      show (h.called crypto p key c attempt).saved ∈ h.since
      rw [e]
      exact inv.since
  | stop => exact ⟨inv.opens, inv.since, inv.saved, by intro q e; cases e⟩
  | relaunch displayHandle stopped opens =>
    have read := Opens.unique ⟨_, opens, rfl⟩ inv.opens
    refine ⟨inv.opens, Set.mem_insert_of_mem _ inv.since, inv.saved, ?_⟩
    intro q e
    cases e
    rw [read]
    exact inv.saved

/-- A call that says Ok leaves the blob open to the memory exactly where it saved under no empty
name, or found the memory to be what was last written. -/
theorem called_agrees (genuine : crypto.Genuine) (lawful : Lawful bip39)
    (derived : deriveAeadKey crypto passphrase profileId params = .ok key)
    (inv : Inv crypto passphrase profileId params h) (running : h.running = some p) {changed : Bool}
    (said : (p.call crypto key attempt h.blob c).1 = .ok changed) :
    (mutates (p.call crypto key attempt h.blob c).2.1.seeds c).1 = false ∧
      (Opens crypto passphrase profileId params (p.call crypto key attempt h.blob c).2.2
          (p.call crypto key attempt h.blob c).2.1.seeds ↔
        ((mutates p.seeds c).1 = true → Named c) ∧
        ((mutates p.seeds c).1 = false → p.seeds = h.saved)) := by
  have good := inv.running p running
  cases changes : (mutates p.seeds c).1 with
  | false =>
    obtain ⟨seeds, blob⟩ := call_idle crypto key h.blob attempt changes
    rw [seeds, blob]
    refine ⟨changes, ⟨fun opens => ⟨fun e => (by cases e), fun _ => opens.unique inv.opens⟩, ?_⟩⟩
    rintro ⟨-, same⟩
    rw [same rfl]
    exact inv.opens
  | true =>
    cases result : save crypto p key attempt h.blob c with
    | mk outcome bytes =>
      cases outcome with
      | error e => cases said.symm.trans (called_failed changes result).1
      | ok u =>
        obtain ⟨-, seeds, blob, -⟩ := called_saved changes result
        have blob : (p.call crypto key attempt h.blob c).2.2 = bytes := blob
        rw [seeds, blob]
        refine ⟨mutates_again, ?_⟩
        obtain ⟨k, tame, ran⟩ := mutates_run p.seeds c
        have sealed := save_ok result
        have opens := sealBytes_opens genuine lawful derived (good.kept.call tame ran) sealed
        constructor
        · intro same
          exact ⟨fun _ => normal_named changes (opens.unique same), fun e => by cases e⟩
        · rintro ⟨named, -⟩
          exact normal_good (good.mutates (named rfl)) ▸ opens

end Calls

/-- A blob cut short before its magic is through opens to nothing. -/
theorem torn_opens {n : Nat} {bytes : Octets} (short : n < magic.length) (t : Seeds bip39) :
    ¬ Opens crypto passphrase profileId params (bytes.take n) t := by
  rintro ⟨opened, opens, -⟩
  have few : (bytes.take n).length < magic.length :=
    lt_of_le_of_lt (List.length_take_le n bytes) short
  rw [openBlob, if_pos few] at opens
  cases opens

/-- A stopped client over a blob that a payload of these directives was laid out as. -/
def start (m : Mnemonic bip39) (older : List Directive) (blob : Octets) : History bip39 :=
  ⟨none, blob, profileOf m older, {profileOf m older}⟩

theorem start_inv (genuine : crypto.Genuine) (lawful : Lawful bip39) {m : Mnemonic bip39}
    {older : List Directive} (clean : ∀ d ∈ older, d.Clean) {layout : Layout} {nonce : Nonce}
    (laid : layout.laidOut crypto nonce (payload m older) passphrase profileId params = .ok blob) :
    Inv crypto passphrase profileId params (start m older blob) := by
  obtain ⟨key, indexKey, -, opens⟩ := openBlob_laidOut bip39 genuine laid
  rw [fromPlaintext_payload lawful clean] at opens
  exact ⟨⟨_, opens, rfl⟩, rfl, good_profileOf clean, by intro p e; cases e⟩

/-- In a run of sound steps the blob opens to Seeds held at or after the last save that returned
Ok, every sound call that returns Ok leaves it open to the memory, in which the call finds nothing
more to change, and one that returns Ok without being sound leaves it open to other Seeds. -/
theorem saves_kept (genuine : crypto.Genuine) (lawful : Lawful bip39) (passphrase : String)
    (profileId : Uuid) (params : ArgonParams) {key : Octets}
    (derived : deriveAeadKey crypto passphrase profileId params = .ok key) {m : Mnemonic bip39}
    {older : List Directive} (clean : ∀ d ∈ older, d.Clean) {layout : Layout} {nonce : Nonce}
    (laid : layout.laidOut crypto nonce (payload m older) passphrase profileId params = .ok blob)
    {acts : List Act} {h : History bip39}
    (run : Trail (fun h a h' => Sound h a ∧ Step crypto passphrase profileId params key h a h')
      (start m older blob) acts h) :
    (∃ t ∈ h.since, Opens crypto passphrase profileId params h.blob t) ∧
      ∀ p c attempt changed, h.running = some p →
        (p.call crypto key attempt h.blob c).1 = .ok changed →
        (mutates (p.call crypto key attempt h.blob c).2.1.seeds c).1 = false ∧
        (Opens crypto passphrase profileId params (p.call crypto key attempt h.blob c).2.2
            (p.call crypto key attempt h.blob c).2.1.seeds ↔
          ((mutates p.seeds c).1 = true → Named c) ∧
          ((mutates p.seeds c).1 = false → p.seeds = h.saved)) := by
  have inv : Inv crypto passphrase profileId params h :=
    Trail.invariant (I := Inv crypto passphrase profileId params)
      (fun _ _ _ inv step => inv_step genuine lawful derived inv step.1 step.2)
      run (start_inv genuine lawful clean laid)
  refine ⟨⟨h.saved, inv.since, inv.opens⟩, fun p c attempt changed running said => ?_⟩
  exact called_agrees genuine lawful derived inv running said

/-! ### A circle joined -/

open Daemonseed.Storage.Reopened (sampleCrypto sampleCrypto_genuine sampleBip39 sampleBip39_lawful
  sampleId sampleParams sampleSeeds sampleNonce)

theorem sampleBip39_words : sampleBip39.wordCount () = wordCount := rfl

theorem sampleBip39_english : sampleBip39.english () = true := rfl

def sampleMnemonic : Mnemonic sampleBip39 := ⟨(), sampleBip39_words, sampleBip39_english⟩

def sampleKey : Octets := (utf8 (atRest sampleId.text) ++
  (utf8 "pass" ++ sampleId.bytes).take argon2OutputLen).take aeadKeyLen

theorem sampleKey_derived : deriveAeadKey sampleCrypto "pass" sampleId sampleParams = .ok sampleKey :=
  rfl

def sampleBlob : Octets := Layout.v2.header ++ sampleNonce.val ++ utf8 (payload sampleMnemonic []) ++
  Storage.Reopened.sampleTag

theorem sampleBlob_laid : Layout.v2.laidOut sampleCrypto sampleNonce (payload sampleMnemonic []) "pass"
    sampleId sampleParams = .ok sampleBlob := rfl

def joining : Call := .persistCircle "a phrase" "a circle"

def unlocked : Profile sampleBip39 := ⟨profileOf sampleMnemonic [], "a handle"⟩

theorem joining_changes : (mutates unlocked.seeds joining).1 = true := rfl

theorem joined_sealed : ∃ bytes,
    sealBytes sampleCrypto sampleKey (.ok sampleNonce) (mutates unlocked.seeds joining).2 =
      some (.ok bytes) := ⟨_, rfl⟩

theorem relaunched : ∃ h, Step sampleCrypto "pass" sampleId sampleParams sampleKey
    (start sampleMnemonic [] sampleBlob) .relaunch h ∧ h.running = some unlocked ∧
    h.blob = sampleBlob ∧ h.saved = unlocked.seeds := by
  have no : ∀ d ∈ ([] : List Directive), d.Clean := by
    intro d mem
    cases mem
  obtain ⟨opened, opens, seeds⟩ :=
    (start_inv sampleCrypto_genuine sampleBip39_lawful no sampleBlob_laid).opens
  refine ⟨_, .relaunch "a handle" rfl opens, ?_, rfl, rfl⟩
  show some _ = some _
  rw [seeds]
  rfl

/-- A circle that is joined is in the blob. -/
theorem saves_kept_joined : ∃ h, Step sampleCrypto "pass" sampleId sampleParams sampleKey
      (start sampleMnemonic [] sampleBlob) .relaunch h ∧
    Opens sampleCrypto "pass" sampleId sampleParams
      (unlocked.call sampleCrypto sampleKey ⟨.ok sampleNonce, .whole⟩ h.blob joining).2.2
      (unlocked.call sampleCrypto sampleKey ⟨.ok sampleNonce, .whole⟩ h.blob joining).2.1.seeds := by
  obtain ⟨h, step, running, -⟩ := relaunched
  have no : ∀ d ∈ ([] : List Directive), d.Clean := by
    intro d mem
    cases mem
  have run : Trail (fun h a h' => Sound h a ∧
        Step sampleCrypto "pass" sampleId sampleParams sampleKey h a h')
      (start sampleMnemonic [] sampleBlob) [.relaunch] h := .cons ⟨trivial, step⟩ (.nil h)
  have kept := (saves_kept sampleCrypto_genuine sampleBip39_lawful "pass" sampleId sampleParams
    sampleKey_derived no sampleBlob_laid run).2 unlocked joining ⟨.ok sampleNonce, .whole⟩ true
    running rfl
  exact ⟨h, step, kept.2.2 ⟨fun _ => trivial, fun e => by cases e⟩⟩

/-- A write of the joined circle that is cut short leaves a blob that opens to nothing; and after one
that is refused, joining it again returns Ok with the blob open to Seeds without it. -/
theorem refused_lost :
    (∃ acts h, Trail (Step sampleCrypto "pass" sampleId sampleParams sampleKey)
      (start sampleMnemonic [] sampleBlob) acts h ∧
      ∀ t : Seeds sampleBip39, ¬ Opens sampleCrypto "pass" sampleId sampleParams h.blob t) ∧
    ∃ acts h p, Trail (Step sampleCrypto "pass" sampleId sampleParams sampleKey)
      (start sampleMnemonic [] sampleBlob) acts h ∧ h.running = some p ∧
      (p.call sampleCrypto sampleKey ⟨.ok sampleNonce, .whole⟩ h.blob joining).1 = .ok false ∧
      ¬ Opens sampleCrypto "pass" sampleId sampleParams
        (p.call sampleCrypto sampleKey ⟨.ok sampleNonce, .whole⟩ h.blob joining).2.2
        (p.call sampleCrypto sampleKey ⟨.ok sampleNonce, .whole⟩ h.blob joining).2.1.seeds := by
  obtain ⟨h, step, running, blob, saved⟩ := relaunched
  obtain ⟨bytes, sealed⟩ := joined_sealed
  constructor
  · have cut : save sampleCrypto unlocked sampleKey ⟨.ok sampleNonce, .torn 0⟩ h.blob joining =
        (.error .write, bytes.take 0) := save_sealed sealed
    refine ⟨_, h.called sampleCrypto unlocked sampleKey joining ⟨.ok sampleNonce, .torn 0⟩,
      .cons step (.cons (.call running) (.nil _)), fun t => ?_⟩
    rw [(called_failed joining_changes cut).2.2.1]
    exact torn_opens (by decide) t
  · have refused : save sampleCrypto unlocked sampleKey ⟨.ok sampleNonce, .refused⟩ h.blob joining =
        (.error .write, h.blob) := save_sealed sealed
    obtain ⟨-, seeds, -, kept, -⟩ := called_failed joining_changes refused
    let after := h.called sampleCrypto unlocked sampleKey joining ⟨.ok sampleNonce, .refused⟩
    let p := (unlocked.call sampleCrypto sampleKey ⟨.ok sampleNonce, .refused⟩ h.blob joining).2.1
    have known : (mutates p.seeds joining).1 = false := by
      show (mutates (unlocked.call sampleCrypto sampleKey ⟨.ok sampleNonce, .refused⟩ h.blob
        joining).2.1.seeds joining).1 = false
      rw [seeds]
      exact mutates_again
    have said : (p.call sampleCrypto sampleKey ⟨.ok sampleNonce, .whole⟩ after.blob joining).1 =
        .ok false := call_quiet known rfl
    refine ⟨_, after, p, .cons step (.cons (.call running) (.nil _)), rfl, said, fun opens => ?_⟩
    have no : ∀ d ∈ ([] : List Directive), d.Clean := by
      intro d mem
      cases mem
    have calm : Sound (start sampleMnemonic [] sampleBlob) .relaunch := trivial
    have safe : Safe unlocked.seeds joining ⟨.ok sampleNonce, .refused⟩ := by
      intro _
      exact ⟨fun n e => (by cases e), trivial⟩
    have inv := called_inv sampleCrypto_genuine sampleBip39_lawful sampleKey_derived
      (inv_step sampleCrypto_genuine sampleBip39_lawful sampleKey_derived
        (start_inv sampleCrypto_genuine sampleBip39_lawful no sampleBlob_laid) calm step) running safe
    have same := ((called_agrees sampleCrypto_genuine sampleBip39_lawful sampleKey_derived inv rfl
      said).2.1 opens).2 known
    have circles := congrArg Seeds.circles (seeds.symm.trans (same.trans (kept.trans saved)))
    cases circles

end Daemonseed.Gui.Saves
