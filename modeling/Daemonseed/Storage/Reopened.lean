import Daemonseed.Lib.Runs
import Daemonseed.Storage.Blob
import Daemonseed.Storage.Written

/-! # A profile sealed and opened again

Every run of the calls that change a profile, with the profile sealed and opened
again between them, and what is opened at any point of it. -/
namespace Daemonseed.Storage.Reopened
open Daemonseed.Lib.Lines Daemonseed.Lib.Sorted Daemonseed.Lib.Results Daemonseed.Lib.Runs
open Daemonseed.Storage.Suites Daemonseed.Storage.Profile Daemonseed.Storage.Blob
open Daemonseed.Storage.Directives Daemonseed.Storage.Written

variable {K M : Type} {crypto : Crypto K} {bip39 : Bip39 M}

/-! ## Calls -/

inductive Call
  | nextSend
  | recordSeen (target : String) (counter : UInt64)
  | addMute (handle : String)
  | removeMute (handle : String)
  | addHiddenShare (handle : String)
  | removeHiddenShare (handle : String)
  | setDisplayName (name : Option String)
  | addCircle (entropy label : String)
  | removeCircle (entropy : String)
  | renameCircle (entropy newLabel : String)
  | addShare (root : String) (label : Option String)
  | removeShare (root : String)
  | addPublished (root : String) (name : Option String)
  | removePublished (root : String)
  | setAnnounceSeen (serverId marker : String)
  | clearAnnounceSeen (serverId : String)
  | setCircleSeen (entropy : String) (ms : Int64)

/-- The profile after a call; none where the call panics. -/
def Call.run (s : Seeds bip39) : Call → Option (Seeds bip39)
  | nextSend => s.counters.nextSend.map fun (_, counters) => { s with counters := counters }
  | recordSeen target counter => some { s with counters := s.counters.recordSeen target counter }
  | addMute handle => some (s.addMute handle).2
  | removeMute handle => some (s.removeMute handle).2
  | addHiddenShare handle => some (s.addHiddenShare handle).2
  | removeHiddenShare handle => some (s.removeHiddenShare handle).2
  | setDisplayName name => some (s.setDisplayName name).2
  | addCircle entropy label => some (s.addCircle entropy label).2
  | removeCircle entropy => some (s.removeCircle entropy).2
  | renameCircle entropy newLabel => some (s.renameCircle entropy newLabel).2
  | addShare root label => some (s.addShare root label).2
  | removeShare root => some (s.removeShare root).2
  | addPublished root name => some (s.addPublished root name).2
  | removePublished root => some (s.removePublished root).2
  | setAnnounceSeen serverId marker => some (s.setAnnounceSeen serverId marker).2
  | clearAnnounceSeen serverId => some (s.clearAnnounceSeen serverId).2
  | setCircleSeen entropy ms => some (s.setCircleSeen entropy ms).2

/-- A target that stands on its line with neither a blank nor a line feed. -/
def Call.Tame : Call → Prop
  | recordSeen target _ => Directive.Spaceless target.toList
  | _ => True

/-! ## What a call leaves in the raw fields -/

/-- The fields written as they are hold nothing that another line is read for. -/
structure Kept (s : Seeds bip39) : Prop where
  seen : ∀ t n, s.counters.seen.lookup t = some n → Directive.Spaceless t.toList
  muted : ∀ handle ∈ s.muted, Whole handle.toList
  hidden : ∀ handle ∈ s.hiddenShares, Whole handle.toList
  name : ∀ name, s.displayName = some name → Whole name.toList
  announce : ∀ serverId marker, s.announceSeen.lookup serverId = some marker →
    Directive.Spaceless serverId.toList ∧ Whole marker.toList

/-- Every directive of such a profile is clean. -/
theorem Kept.clean {s : Seeds bip39} (kept : Kept s) : ∀ d ∈ directives s, d.Clean := by
  intro d mem
  simp only [directives, counterDirectives, List.mem_append, List.mem_map, mem_ordered] at mem
  rcases mem with ((((((((mem | mem) | mem) | mem) | mem) | mem) | mem) | mem) | mem) | mem
  · split at mem
    · rw [List.mem_singleton.1 mem]
      trivial
    · cases mem
  · obtain ⟨⟨t, n⟩, held, rfl⟩ := mem
    exact kept.seen t n (SortedMap.mem_entries.1 held)
  · obtain ⟨handle, held, rfl⟩ := mem
    exact kept.muted handle held
  · obtain ⟨handle, held, rfl⟩ := mem
    exact kept.hidden handle held
  · obtain ⟨name, held, rfl⟩ := mem
    exact kept.name name (Option.mem_toList.1 held)
  · obtain ⟨c, -, rfl⟩ := mem
    trivial
  · obtain ⟨sh, -, rfl⟩ := mem
    trivial
  · obtain ⟨ps, -, rfl⟩ := mem
    trivial
  · obtain ⟨⟨serverId, marker⟩, held, rfl⟩ := mem
    exact kept.announce serverId marker (SortedMap.mem_entries.1 held)
  · obtain ⟨e, -, rfl⟩ := mem
    trivial

theorem contains_absent {s : String} {chars : List Char} (h : ¬ contains s chars) {c : Char}
    (mem : c ∈ chars) : c ∉ s.toList := by
  intro held
  refine h (List.any_eq_true.2 ⟨c, held, ?_⟩)
  exact List.contains_iff_mem.2 mem

theorem whole_of_guard {s : String} (h : ¬ contains s ['\n', '\r']) : Whole s.toList :=
  whole_of_absent (contains_absent h (by decide)) (contains_absent h (by decide))

/-- The fields that are written as they are. -/
def raw (s : Seeds bip39) :
    SortedMap String UInt64 × Finset String × Finset String × Option String × SortedMap String String :=
  (s.counters.seen, s.muted, s.hiddenShares, s.displayName, s.announceSeen)

theorem Kept.same {s s' : Seeds bip39} (kept : Kept s) (same : raw s' = raw s) : Kept s' := by
  obtain ⟨seen, muted, hidden, name, announce⟩ := kept
  simp only [raw, Prod.mk.injEq] at same
  obtain ⟨eqSeen, eqMuted, eqHidden, eqName, eqAnnounce⟩ := same
  exact ⟨eqSeen ▸ seen, eqMuted ▸ muted, eqHidden ▸ hidden, eqName ▸ name, eqAnnounce ▸ announce⟩

theorem raw_nextSend {s s' : Seeds bip39} (ran : Call.nextSend.run s = some s') :
    raw s' = raw s := by
  obtain ⟨⟨n, counters⟩, sent, rfl⟩ := Option.map_eq_some_iff.1 ran
  unfold CounterState.nextSend at sent
  split at sent
  · cases sent
    rfl
  · cases sent

theorem Kept.recordSeen {s : Seeds bip39} (kept : Kept s) {target : String} (counter : UInt64)
    (tame : Directive.Spaceless target.toList) :
    Kept { s with counters := s.counters.recordSeen target counter } := by
  refine { kept with seen := fun t n held => ?_ }
  by_cases e : t = target
  · exact e ▸ tame
  · rw [CounterState.recordSeen, Finmap.lookup_insert_of_ne _ e] at held
    exact kept.seen t n held

theorem Kept.addMute {s : Seeds bip39} (kept : Kept s) (handle : String) :
    Kept (s.addMute handle).2 := by
  unfold Seeds.addMute
  split
  · exact kept
  · rename_i guard
    refine { kept with muted := fun other mem => ?_ }
    rcases Finset.mem_insert.1 mem with rfl | mem
    · exact whole_of_guard guard
    · exact kept.muted other mem

theorem Kept.addHiddenShare {s : Seeds bip39} (kept : Kept s) (handle : String) :
    Kept (s.addHiddenShare handle).2 := by
  unfold Seeds.addHiddenShare
  split
  · exact kept
  · rename_i guard
    refine { kept with hidden := fun other mem => ?_ }
    rcases Finset.mem_insert.1 mem with rfl | mem
    · exact whole_of_guard guard
    · exact kept.hidden other mem

theorem Kept.setDisplayName {s : Seeds bip39} (kept : Kept s) (name : Option String) :
    Kept (s.setDisplayName name).2 := by
  unfold Seeds.setDisplayName
  split
  · exact kept
  · rename_i guard
    split
    · exact kept
    · refine { kept with name := fun chosen e => ?_ }
      have e : name = some chosen := e
      subst e
      exact whole_of_guard guard

theorem Kept.setAnnounceSeen {s : Seeds bip39} (kept : Kept s) (serverId marker : String) :
    Kept (s.setAnnounceSeen serverId marker).2 := by
  unfold Seeds.setAnnounceSeen
  split
  · exact kept
  · rename_i guard
    rw [Bool.or_eq_true, not_or] at guard
    split
    · exact kept
    · refine { kept with announce := fun other value held => ?_ }
      by_cases e : other = serverId
      · subst e
        have value_eq : value = marker := by
          rw [Finmap.lookup_insert] at held
          exact (Option.some.inj held).symm
        subst value_eq
        exact ⟨⟨contains_absent guard.1 (by decide), contains_absent guard.1 (by decide)⟩,
          whole_of_absent (contains_absent guard.2 (by decide))
            (contains_absent guard.2 (by decide))⟩
      · rw [Finmap.lookup_insert_of_ne _ e] at held
        exact kept.announce other value held

theorem Kept.clearAnnounceSeen {s : Seeds bip39} (kept : Kept s) (serverId : String) :
    Kept (s.clearAnnounceSeen serverId).2 := by
  refine { kept with announce := fun other value held => ?_ }
  by_cases e : other = serverId
  · subst e
    cases (Finmap.lookup_erase ..).symm.trans held
  · exact kept.announce other value ((Finmap.lookup_erase_ne e).symm.trans held)

/-- A call whose target is tame keeps the raw fields clean. -/
theorem Kept.call {s s' : Seeds bip39} {c : Call} (kept : Kept s) (tame : c.Tame)
    (ran : c.run s = some s') : Kept s' := by
  cases c with
  | nextSend => exact kept.same (raw_nextSend ran)
  | recordSeen target counter =>
    cases ran
    exact kept.recordSeen counter tame
  | addMute handle =>
    cases ran
    exact kept.addMute handle
  | removeMute handle =>
    cases ran
    exact { kept with muted := fun other mem => kept.muted other (Finset.mem_of_mem_erase mem) }
  | addHiddenShare handle =>
    cases ran
    exact kept.addHiddenShare handle
  | removeHiddenShare handle =>
    cases ran
    exact { kept with hidden := fun other mem => kept.hidden other (Finset.mem_of_mem_erase mem) }
  | setDisplayName name =>
    cases ran
    exact kept.setDisplayName name
  | setAnnounceSeen serverId marker =>
    cases ran
    exact kept.setAnnounceSeen serverId marker
  | clearAnnounceSeen serverId =>
    cases ran
    exact kept.clearAnnounceSeen serverId
  | addCircle entropy label =>
    cases ran
    refine kept.same ?_
    unfold Seeds.addCircle
    split <;> rfl
  | addShare root label =>
    cases ran
    refine kept.same ?_
    unfold Seeds.addShare
    split <;> rfl
  | addPublished root name =>
    cases ran
    refine kept.same ?_
    unfold Seeds.addPublished
    split <;> rfl
  | setCircleSeen entropy ms =>
    cases ran
    refine kept.same ?_
    unfold Seeds.setCircleSeen
    split <;> rfl
  | removeCircle entropy =>
    cases ran
    exact kept.same rfl
  | renameCircle entropy newLabel =>
    cases ran
    exact kept.same rfl
  | removeShare root =>
    cases ran
    exact kept.same rfl
  | removePublished root =>
    cases ran
    exact kept.same rfl

theorem Kept.take {s : Seeds bip39} (kept : Kept s) {d : Directive} (clean : d.Clean) :
    Kept (d.take s) := by
  cases d with
  | seen target n =>
    refine { kept with seen := fun t m held => ?_ }
    by_cases e : t = target
    · exact e ▸ clean
    · exact kept.seen t m ((Finmap.lookup_insert_of_ne _ e).symm.trans held)
  | mute handle =>
    refine { kept with muted := fun other mem => ?_ }
    rcases Finset.mem_insert.1 mem with rfl | mem
    · exact clean
    · exact kept.muted other mem
  | hide handle =>
    refine { kept with hidden := fun other mem => ?_ }
    rcases Finset.mem_insert.1 mem with rfl | mem
    · exact clean
    · exact kept.hidden other mem
  | name chosen =>
    refine { kept with name := fun other e => ?_ }
    cases e
    exact clean
  | announceSeen serverId marker =>
    refine { kept with announce := fun other value held => ?_ }
    by_cases e : other = serverId
    · subst e
      cases (Finmap.lookup_insert _).symm.trans held
      exact clean
    · exact kept.announce other value ((Finmap.lookup_insert_of_ne _ e).symm.trans held)
  | sendCounter n => exact kept.same rfl
  | circle entropy label => exact kept.same rfl
  | share root label => exact kept.same rfl
  | publish root shown => exact kept.same rfl
  | circleSeen entropy ms => exact kept.same rfl

theorem kept_new (m : Mnemonic bip39) : Kept (Seeds.new m) where
  seen t n held := by cases (Finmap.lookup_empty t).symm.trans held
  muted handle mem := absurd mem (Finset.notMem_empty handle)
  hidden handle mem := absurd mem (Finset.notMem_empty handle)
  name chosen e := by cases e
  announce serverId marker held := by cases (Finmap.lookup_empty serverId).symm.trans held

theorem kept_profileOf {m : Mnemonic bip39} {ds : List Directive} (clean : ∀ d ∈ ds, d.Clean) :
    Kept (profileOf m ds) := by
  have fold (s : Seeds bip39) (kept : Kept s) : Kept (ds.foldl Directive.take s) := by
    induction ds generalizing s with
    | nil => exact kept
    | cons d ds ih =>
      obtain ⟨first, others⟩ := List.forall_mem_cons.1 clean
      exact ih others (d.take s) (kept.take first)
  exact fold (Seeds.new m) (kept_new m)

/-! ## Runs -/

inductive Act
  | call (c : Call)
  | reopen (blob : List UInt8)

def Act.Tame : Act → Prop
  | call c => c.Tame
  | reopen _ => True

/-- A call, or the profile sealed and the blob opened in its place. -/
inductive Step (crypto : Crypto K) (passphrase : String) (profileId : Uuid) (params : ArgonParams) :
    Seeds bip39 → Act → Seeds bip39 → Prop
  | call {s s' : Seeds bip39} {c : Call} (ran : c.run s = some s') :
    Step crypto passphrase profileId params s (.call c) s'
  | reopen {s : Seeds bip39} {nonce : Except String Nonce} {blob : List UInt8} {opened : Opened bip39}
    (sealed : sealSeeds crypto nonce s passphrase profileId params = some (.ok blob))
    (opens : openBlob crypto bip39 blob passphrase profileId params = .ok opened) :
    Step crypto passphrase profileId params s (.reopen blob) opened.seeds

variable {passphrase : String} {profileId : Uuid} {params : ArgonParams} {s : Seeds bip39}
  {nonce : Except String Nonce} {blob : List UInt8}

/-- A sealed profile opens as its payload reads. -/
theorem opened_iff (genuine : crypto.Genuine)
    (sealed : sealSeeds crypto nonce s passphrase profileId params = some (.ok blob))
    (t : Seeds bip39) :
    (∃ opened, openBlob crypto bip39 blob passphrase profileId params = .ok opened ∧
      opened.seeds = t) ↔ Seeds.fromPlaintext bip39 s.toPlaintext = .ok t := by
  obtain ⟨nonce, laid⟩ := sealSeeds_laidOut sealed
  obtain ⟨key, indexKey, -, opens⟩ := openBlob_laidOut bip39 genuine laid
  rw [opens]
  cases Seeds.fromPlaintext bip39 s.toPlaintext with
  | error e => simp [Except.map]
  | ok u => simp [Except.map, Layout.opened]

theorem fromPlaintext_kept (lawful : Lawful bip39) (kept : Kept s) :
    Seeds.fromPlaintext bip39 s.toPlaintext = .ok (normal s) := by
  rw [toPlaintext_eq, fromPlaintext_payload lawful kept.clean, profileOf_directives]

theorem kept_step (genuine : crypto.Genuine) (lawful : Lawful bip39) {s s' : Seeds bip39} {a : Act}
    (kept : Kept s) (tame : a.Tame) (step : Step crypto passphrase profileId params s a s') :
    Kept s' := by
  cases step with
  | call ran => exact kept.call tame ran
  | reopen sealed opens =>
    have read := (opened_iff genuine sealed _).1 ⟨_, opens, rfl⟩
    rw [fromPlaintext_kept lawful kept] at read
    have e := Except.ok.inj read
    exact e ▸ kept.same rfl

/-! ## What no payload gives -/

/-- Every target stands before a blank on its line. -/
def Spelled (s : Seeds bip39) : Prop :=
  ∀ t n, s.counters.seen.lookup t = some n → Directive.Spaceless t.toList

theorem spelled_same {s s' : Seeds bip39} (spelled : Spelled s) (same : s'.counters = s.counters) :
    Spelled s' := by
  unfold Spelled
  rw [same]
  exact spelled

/-- The second field of a line of three. -/
theorem splitn3_second {line first target rest : Text} (unbroken : '\n' ∉ line)
    (h : splitn3 line = [first, target, rest]) : Directive.Spaceless target := by
  unfold splitn3 at h
  split at h
  · cases h
  · rename_i first' after found
    split at h
    · cases h
    · rename_i second' after' found'
      cases h
      obtain ⟨rfl, -⟩ := splitOnce_some found
      obtain ⟨rfl, absent⟩ := splitOnce_some found'
      refine ⟨fun mem => unbroken ?_, absent⟩
      exact List.mem_append_right _ (List.mem_cons_of_mem _ (List.mem_append_left _ mem))

theorem readCounters_spelled {s s' : Seeds bip39} {line : Text} (unbroken : '\n' ∉ line)
    (spelled : Spelled s) (h : s.readCounters line = .ok s') : Spelled s' := by
  unfold Seeds.readCounters at h
  split at h
  · cases h
  · rename_i first args fields
    split at h
    · split at h
      · cases h
      · obtain ⟨n, -, e⟩ := bind_ok.1 h
        cases e
        exact spelled
    · split at h
      · split at h
        · rename_i target n
          obtain ⟨count, -, e⟩ := bind_ok.1 h
          cases e
          intro t m held
          by_cases e : t = String.ofList target
          · subst e
            rw [String.toList_ofList]
            exact splitn3_second unbroken fields
          · exact spelled t m ((Finmap.lookup_insert_of_ne _ e).symm.trans held)
        · cases h
      · cases h

theorem readCircle_counters {s s' : Seeds bip39} {rest : Text} (h : s.readCircle rest = .ok s') :
    s'.counters = s.counters := by
  obtain ⟨⟨front, back⟩, -, h⟩ := bind_ok.1 h
  obtain ⟨first, -, h⟩ := bind_ok.1 h
  obtain ⟨second, -, h⟩ := bind_ok.1 h
  cases h
  rfl

theorem readShare_counters {s s' : Seeds bip39} {rest : Text} (h : s.readShare rest = .ok s') :
    s'.counters = s.counters := by
  obtain ⟨⟨front, back⟩, -, h⟩ := bind_ok.1 h
  obtain ⟨first, -, h⟩ := bind_ok.1 h
  obtain ⟨second, -, h⟩ := bind_ok.1 h
  cases h
  rfl

theorem readPublish_counters {s s' : Seeds bip39} {rest : Text} (h : s.readPublish rest = .ok s') :
    s'.counters = s.counters := by
  unfold Seeds.readPublish at h
  split at h
  · obtain ⟨name, -, h⟩ := bind_ok.1 h
    obtain ⟨fields, -, h⟩ := bind_ok.1 h
    obtain ⟨root, -, h⟩ := bind_ok.1 h
    cases h
    rfl
  · obtain ⟨fields, -, h⟩ := bind_ok.1 h
    obtain ⟨root, -, h⟩ := bind_ok.1 h
    cases h
    rfl

theorem readAnnounceSeen_counters {rest : Text} :
    (s.readAnnounceSeen rest).counters = s.counters := by
  unfold Seeds.readAnnounceSeen
  split <;> rfl

theorem readCircleSeen_counters {rest : Text} : (s.readCircleSeen rest).counters = s.counters := by
  unfold Seeds.readCircleSeen
  split
  · split <;> rfl
  · rfl

theorem readLine_spelled {s s' : Seeds bip39} {line : Text} (unbroken : '\n' ∉ line)
    (spelled : Spelled s) (h : s.readLine line = .ok s') : Spelled s' := by
  unfold Seeds.readLine at h
  split at h
  · cases h
    exact spelled
  split at h
  · cases h
    exact spelled
  split at h
  · cases h
    exact spelled
  split at h
  · exact spelled_same spelled (readCircle_counters h)
  split at h
  · exact spelled_same spelled (readShare_counters h)
  split at h
  · exact spelled_same spelled (readPublish_counters h)
  split at h
  · cases h
    exact spelled_same spelled readAnnounceSeen_counters
  split at h
  · cases h
    exact spelled_same spelled readCircleSeen_counters
  · exact readCounters_spelled unbroken spelled h

theorem fromPlaintext_spelled {text : String} (h : Seeds.fromPlaintext bip39 text = .ok s) :
    Spelled s := by
  unfold Seeds.fromPlaintext at h
  split at h
  · cases h
  · rename_i phrase rest split
    obtain ⟨m, -, h⟩ := bind_ok.1 h
    have keeps : ∀ line ∈ rest, ∀ s s' : Seeds bip39, Spelled s → s.readLine line = .ok s' →
        Spelled s' := by
      intro line mem s s' spelled read
      exact readLine_spelled (lines_unbroken (split ▸ List.mem_cons_of_mem _ mem)) spelled read
    exact foldlM_keeps keeps (kept_new m).seen h

/-! ## What was sealed is opened -/

/-- The blob opens, and the profile in it is the one that was sealed, field for
field and in order, an empty label or published name being none. -/
def Reopens (crypto : Crypto K) (passphrase : String) (profileId : Uuid) (params : ArgonParams)
    (s : Seeds bip39) : Prop :=
  ∀ nonce blob, sealSeeds crypto nonce s passphrase profileId params = some (.ok blob) →
    ∃ opened, openBlob crypto bip39 blob passphrase profileId params = .ok opened ∧
      opened.seeds = normal s

/-- Recording a target keeps a profile in order exactly where the target is tame. -/
theorem reopens_recordSeen (genuine : crypto.Genuine) (lawful : Lawful bip39) (kept : Kept s)
    {target : String} {counter : UInt64}
    (sealed : sealSeeds crypto nonce { s with counters := s.counters.recordSeen target counter }
      passphrase profileId params = some (.ok blob)) :
    (∃ opened, openBlob crypto bip39 blob passphrase profileId params = .ok opened ∧
      opened.seeds = normal { s with counters := s.counters.recordSeen target counter }) ↔
    (Call.recordSeen target counter).Tame := by
  rw [opened_iff genuine sealed]
  constructor
  · intro read
    exact fromPlaintext_spelled read target _ (Finmap.lookup_insert _)
  · intro tame
    exact fromPlaintext_kept lawful (kept.recordSeen counter tame)

/-- What is sealed in a run of tame calls opens as it was, from whatever older
payload the run began; the first recorded target that is not tame is where it
stops. Every payload of the directives, of either layout, opens as what they
set with the kinds it misses at their defaults, and none is written that is
longer than was reserved. -/
theorem reopened_equal (genuine : crypto.Genuine) (lawful : Lawful bip39) (passphrase : String)
    (profileId : Uuid) (params : ArgonParams) :
    (∀ (m : Mnemonic bip39) (older : List Directive) (acts : List Act) (s : Seeds bip39),
      (∀ d ∈ older, d.Clean) →
      Trail (Step crypto passphrase profileId params) (profileOf m older) acts s →
      (∀ a ∈ acts, a.Tame) →
      Reopens crypto passphrase profileId params s ∧
      ∀ target counter nonce blob,
        sealSeeds crypto nonce { s with counters := s.counters.recordSeen target counter }
          passphrase profileId params = some (.ok blob) →
        ((∃ opened, openBlob crypto bip39 blob passphrase profileId params = .ok opened ∧
          opened.seeds = normal { s with counters := s.counters.recordSeen target counter }) ↔
        (Call.recordSeen target counter).Tame)) ∧
    (∀ (layout : Layout) (nonce : Nonce) (m : Mnemonic bip39) (older : List Directive)
        (blob : List UInt8), (∀ d ∈ older, d.Clean) →
      layout.laidOut crypto nonce (payload m older) passphrase profileId params = .ok blob →
      ∃ opened, openBlob crypto bip39 blob passphrase profileId params = .ok opened ∧
        opened.seeds = profileOf m older ∧ opened.legacyV1 = (layout = .v1) ∧
        opened.seeds.mnemonic = m ∧
        ∀ k : Kind, (∀ d ∈ older, d.kind ≠ k) → k.Same opened.seeds (Seeds.new m)) ∧
    ∀ s : Seeds bip39, s.toPlaintext.utf8ByteSize ≤ s.plaintextCapacity := by
  refine ⟨fun m older acts s clean run tame => ?_, fun layout nonce m older blob clean laid => ?_,
    toPlaintext_size lawful⟩
  · have kept : Kept s := run.invariant_on
      (fun _ _ _ tame kept step => kept_step genuine lawful kept tame step) tame
      (kept_profileOf clean)
    refine ⟨fun nonce blob sealed => ?_, fun target counter nonce blob sealed => ?_⟩
    · exact (opened_iff genuine sealed _).2 (fromPlaintext_kept lawful kept)
    · exact reopens_recordSeen genuine lawful kept sealed
  · obtain ⟨key, indexKey, -, opens⟩ := openBlob_laidOut bip39 genuine laid
    rw [fromPlaintext_payload lawful clean] at opens
    refine ⟨_, opens, rfl, ?_, profileOf_mnemonic, fun k missing => profileOf_same missing⟩
    show (decide (layout = Layout.v1) = true) = _
    rw [decide_eq_true_eq]

/-! ### A profile of one phrase -/

/-- One phrase, and no other. -/
def onlyPhrase (phrase : String) : Bip39 Unit where
  parse other := if other = phrase then .ok () else .error "unknown word"
  wordCount _ := 24
  english _ := true
  display _ := phrase

theorem onlyPhrase_lawful {phrase : String} (whole : Whole phrase.toList) (some_ : phrase.toList ≠ [])
    (short : phrase.utf8ByteSize ≤ maxPhraseLen) : Lawful (onlyPhrase phrase) where
  parses _ _ := if_pos rfl
  line _ _ := whole
  some_ _ _ := some_
  short _ _ := short

/-- One word again and again, then the last. -/
def repeated (n : Nat) (word last : Text) : Text := (List.replicate n word).flatten ++ last

theorem repeated_size (n : Nat) {word last : Text} {a b : Nat} (first : String.utf8Len word = a)
    (final : String.utf8Len last = b) : String.utf8Len (repeated n word last) = n * a + b := by
  have words : String.utf8Len (List.replicate n word).flatten = n * a := by
    induction n with
    | zero => exact (Nat.zero_mul _).symm
    | succ n ih =>
      rw [List.replicate_succ, List.flatten_cons, String.utf8Len_append, ih, first, Nat.succ_mul,
        Nat.add_comm]
  rw [repeated, String.utf8Len_append, words, final]

theorem repeated_absent {c : Char} {n : Nat} {word last : Text} (first : c ∉ word)
    (final : c ∉ last) : c ∉ repeated n word last := by
  intro mem
  rcases List.mem_append.1 mem with mem | mem
  · obtain ⟨held, at_, mem⟩ := List.mem_flatten.1 mem
    rw [List.eq_of_mem_replicate at_] at mem
    exact first mem
  · exact final mem

theorem onlyPhrase_repeated {n a b : Nat} {word last : Text} (feed : '\n' ∉ word ∧ '\n' ∉ last)
    (ret : '\r' ∉ word ∧ '\r' ∉ last) (some_ : last ≠ []) (first : String.utf8Len word = a)
    (final : String.utf8Len last = b) (short : n * a + b ≤ maxPhraseLen) :
    Lawful (onlyPhrase (String.ofList (repeated n word last))) := by
  refine onlyPhrase_lawful ?_ ?_ ?_
  · rw [String.toList_ofList]
    exact whole_of_absent (repeated_absent feed.1 feed.2) (repeated_absent ret.1 ret.2)
  · rw [String.toList_ofList]
    exact List.append_ne_nil_of_right_ne_nil _ some_
  · rw [String.utf8ByteSize_ofList, repeated_size n first final]
    exact short

def sampleBip39 : Bip39 Unit :=
  onlyPhrase (String.ofList (repeated 23 "abandon ".toList "art".toList))

theorem sampleBip39_lawful : Lawful sampleBip39 :=
  onlyPhrase_repeated (by decide) (by decide) (by decide) rfl rfl (by decide : 23 * 8 + 3 ≤ _)

def sampleTag : List UInt8 := List.replicate tagLen 0

/-- A cipher that only marks what it is given. -/
def sampleCrypto : Crypto (List UInt8) where
  argon2id _ length passphrase salt := .ok ((passphrase ++ salt).take length)
  fromPrk prk := .ok prk
  expand prk info length := .ok ((info ++ prk).take length)
  newKey key := .ok key
  gcmEncrypt _ _ _ plaintext := .ok (plaintext, sampleTag)
  gcmDecrypt _ _ _ ciphertext tag :=
    if tag = sampleTag then .ok ciphertext else .error .tagMismatch

theorem sampleCrypto_genuine : sampleCrypto.Genuine where
  decrypts h := by
    cases h
    show (if sampleTag = sampleTag then Except.ok _ else Except.error CipherError.tagMismatch) = _
    rw [if_pos (Eq.refl sampleTag)]
  tag_length h := by
    cases h
    rfl

def sampleId : Uuid := ⟨List.replicate 16 7, "07070707-0707-0707-0707-070707070707"⟩

def sampleParams : ArgonParams := ⟨65536, 3, 1⟩

def sampleSeeds : Seeds sampleBip39 := Seeds.new ⟨(), rfl, rfl⟩

theorem reopened_equal_renamed :
    Reopens sampleCrypto "pass" sampleId sampleParams
      { sampleSeeds with displayName := some "Ada Lovelace" } ∧
    sampleSeeds.toPlaintext.utf8ByteSize ≤ sampleSeeds.plaintextCapacity := by
  have all := reopened_equal sampleCrypto_genuine sampleBip39_lawful "pass" sampleId sampleParams
  have run : Trail (Step sampleCrypto "pass" sampleId sampleParams) (profileOf ⟨(), rfl, rfl⟩ [])
      [.call (.setDisplayName (some "Ada Lovelace"))]
      { sampleSeeds with displayName := some "Ada Lovelace" } := .cons (.call rfl) (.nil _)
  have tame : ∀ a ∈ [Act.call (.setDisplayName (some "Ada Lovelace"))], a.Tame := by
    intro a mem
    rw [List.mem_singleton.1 mem]
    trivial
  have none : ∀ d ∈ ([] : List Directive), d.Clean := by
    intro d mem
    cases mem
  exact ⟨(all.1 _ [] _ _ none run tame).1, all.2.2 sampleSeeds⟩

theorem directives_one_seen (m : Mnemonic bip39) (target : String) (n : UInt64) :
    directives { Seeds.new m with counters := ⟨0, Finmap.insert target n ∅⟩ } = [.seen target n] := by
  simp [directives, counterDirectives, Seeds.new, SortedMap.entries_single]

def sampleNonce : Nonce := ⟨List.replicate nonceLen 0, rfl⟩

/-- One target with a blank, and the profile does not open again. -/
theorem recordSeen_unopenable :
    ∃ blob, sealSeeds sampleCrypto (.ok sampleNonce)
        { sampleSeeds with counters := sampleSeeds.counters.recordSeen "a b" 1 }
        "pass" sampleId sampleParams = some (.ok blob) ∧
      openBlob sampleCrypto sampleBip39 blob "pass" sampleId sampleParams
        = .error .invalidPlaintext := by
  let spoiled : Seeds sampleBip39 :=
    { sampleSeeds with counters := sampleSeeds.counters.recordSeen "a b" 1 }
  obtain ⟨blob, sealed⟩ : ∃ blob, sealSeeds sampleCrypto (.ok sampleNonce) spoiled "pass" sampleId
      sampleParams = some (.ok blob) := ⟨_, rfl⟩
  refine ⟨blob, sealed, ?_⟩
  obtain ⟨nonce, laid⟩ := sealSeeds_laidOut sealed
  obtain ⟨key, indexKey, -, opens⟩ := openBlob_laidOut sampleBip39 sampleCrypto_genuine laid
  have seen : sampleSeeds.counters.recordSeen "a b" 1 = ⟨0, Finmap.insert "a b" 1 ∅⟩ := rfl
  have line : directives spoiled = [.seen "a b" 1] := by
    show directives { sampleSeeds with counters := sampleSeeds.counters.recordSeen "a b" 1 } = _
    rw [seen]
    exact directives_one_seen _ "a b" 1
  have whole : ∀ d ∈ [Directive.seen "a b" 1], Whole d.text ∧ d.text ≠ [] := by
    intro d mem
    rw [List.mem_singleton.1 mem]
    exact ⟨whole_fields (by decide) (whole_fields (by decide) (whole_showNat _)), by decide⟩
  have read : Seeds.fromPlaintext sampleBip39 spoiled.toPlaintext = .error .invalidPlaintext := by
    rw [toPlaintext_eq, line, fromPlaintext_lines sampleBip39_lawful whole]
    rfl
  rw [opens, read]
  rfl

end Daemonseed.Storage.Reopened
