import Daemonseed.Storage.ManagedDownloads

/-! # Each share in a folder of its own

What the index holds after any run: one entry a share, in the order they were
last entered, with the folder it was first given, and no two in one folder. -/
namespace Daemonseed.Storage.DistinctFolders
open Daemonseed.Lib.Files (Path IoError)
open Daemonseed.Lib.Lines Daemonseed.Lib.Runs Daemonseed.Storage.DownloadsIndex
  Daemonseed.Storage.Fetched Daemonseed.Storage.ManagedDownloads Daemonseed.Storage.ManagedFolders

/-! ## On the disk -/

/-- Where a path leads from a directory: nothing and `.` lead nowhere, `..` leads
to the directory above. -/
def settle : Path → List Text → Path
  | dir, [] => dir
  | dir, part :: rest =>
    if part = [] ∨ part = ['.'] then settle dir rest
    else if part = ['.', '.'] then settle dir.dropLast rest
    else settle (dir ++ [String.ofList part]) rest

/-- Where a file of a share is, by its path below the share's folder. -/
def onDisk (root : Path) (folder : String) (p : Path) : Path :=
  settle root (folder.toList.splitOn '/') ++ p

/-- The names in the root that are no share's. -/
def reserved : List String := [".", "..", manifestName, ".idx.lock"]

/-- A folder of a name below the root. -/
structure Named (folder : String) : Prop where
  some_ : folder ≠ ""
  whole : '/' ∉ folder.toList
  free : folder ∉ reserved

theorem onDisk_named {folder : String} (named : Named folder) (root p : Path) :
    onDisk root folder p = root ++ folder :: p := by
  have split : folder.toList.splitOn '/' = [folder.toList] := by
    have := @List.splitOn_intercalate _ [folder.toList] _ _ '/'
      (fun l mem => List.mem_singleton.1 mem ▸ named.whole) (List.cons_ne_nil _ _)
    rwa [List.intercalate_singleton] at this
  have other : ∀ t : String, t ∈ "" :: reserved → folder.toList ≠ t.toList := by
    intro t mem e
    obtain rfl := String.toList_injective e
    rcases List.mem_cons.1 mem with none_ | held
    · exact named.some_ none_
    · exact named.free held
  have plain : ¬ (folder.toList = [] ∨ folder.toList = ['.']) :=
    not_or.2 ⟨other "" (by decide), other "." (by decide)⟩
  have below : ¬ folder.toList = ['.', '.'] := other ".." (by decide)
  rw [onDisk, split, settle, if_neg plain, if_neg below, settle, String.ofList_toList,
    List.append_assoc]
  rfl

/-- Neither of two files in folders of two names is the other, nor in it. -/
theorem onDisk_apart {f f' : String} (named : Named f) (named' : Named f') (ne : f ≠ f')
    (root p p' : Path) : ¬ onDisk root f p <+: onDisk root f' p' := by
  rw [onDisk_named named, onDisk_named named', List.prefix_append_right_inj, List.cons_prefix_cons]
  exact fun h => ne h.1

/-! ## The entries -/

/-- The entries are those of the history: a share once, where it was last
entered, with the folder it was first. -/
structure Kept (recorded : List (String × String)) (shares : List FetchedShare) : Prop where
  ids : shares.map (·.shareId) = (recorded.map Prod.fst).dedup
  first : ∀ s ∈ shares, recorded.find? (fun r => r.1 = s.shareId) = some (s.shareId, s.folder)
  folders : ∀ s ∈ shares, ∀ s' ∈ shares, s.shareId ≠ s'.shareId → s.folder ≠ s'.folder

/-- No file of one share is another's or stands in the way of it. -/
def Apart (shares : List FetchedShare) : Prop :=
  ∀ s ∈ shares, ∀ s' ∈ shares, s.shareId ≠ s'.shareId →
    ∀ root p p', ¬ onDisk root s.folder p <+: onDisk root s'.folder p'

section

variable {α : Type*} [DecidableEq α]

theorem dedup_snoc (l : List α) (a : α) : (l ++ [a]).dedup = l.dedup.filter (· ≠ a) ++ [a] := by
  induction l with
  | nil => simp
  | cons x l ih =>
    by_cases here : x ∈ l
    · rw [List.cons_append, List.dedup_cons_of_mem (List.mem_append_left _ here), ih,
        List.dedup_cons_of_mem here]
    · by_cases same : x = a
      · rw [List.cons_append, List.dedup_cons_of_mem (by simp [same]), ih,
          List.dedup_cons_of_notMem here, List.filter_cons_of_neg (by simp [same])]
      · rw [List.cons_append, List.dedup_cons_of_notMem (by simp [here, same]), ih,
          List.dedup_cons_of_notMem here, List.filter_cons_of_pos (by simp [same]), List.cons_append]

end

section

variable {recorded : List (String × String)} {shares : List FetchedShare} {share : FetchedShare}

theorem entered_ids : (entered shares share).map (·.shareId) =
    (shares.map (·.shareId)).filter (· ≠ share.shareId) ++ [share.shareId] := by
  simp [entered, List.filter_map, Function.comp_def]

theorem Kept.recorded_iff (kept : Kept recorded shares) {shareId : String} :
    Recorded shares shareId ↔ shareId ∈ recorded.map Prod.fst := by
  rw [← List.mem_dedup, ← kept.ids, List.mem_map]
  rfl

/-- A share entered with its own folder, or with one that is no other's. -/
theorem Kept.enters (kept : Kept recorded shares)
    (own : ∀ s ∈ shares, s.shareId = share.shareId ↔ s.folder = share.folder) :
    Kept (recorded ++ [(share.shareId, share.folder)]) (entered shares share) := by
  refine ⟨?_, fun s mem => ?_, fun s mem s' mem' ne => ?_⟩
  · rw [entered_ids, kept.ids, List.map_append, List.map_cons, List.map_nil, dedup_snoc]
  · rcases mem_entered.1 mem with ⟨mem, -⟩ | rfl
    · rw [List.find?_append, kept.first s mem]
      rfl
    · by_cases before : Recorded shares s.shareId
      · obtain ⟨s₀, mem₀, same⟩ := before
        have found := kept.first s₀ mem₀
        rw [same, (own s₀ mem₀).1 same] at found
        rw [List.find?_append, found]
        rfl
      · have none_ : recorded.find? (fun r => r.1 = s.shareId) = none := by
          rw [List.find?_eq_none]
          intro r held same
          exact before (kept.recorded_iff.2 (List.mem_map.2 ⟨r, held, of_decide_eq_true same⟩))
        rw [List.find?_append, none_]
        simp
  · rcases mem_entered.1 mem with ⟨old, -⟩ | rfl <;>
      rcases mem_entered.1 mem' with ⟨old', -⟩ | rfl
    · exact kept.folders s old s' old' ne
    · exact fun same => ne ((own s old).2 same)
    · exact fun same => ne ((own s' old').2 same.symm).symm
    · exact absurd rfl ne

end

/-! ## The runs -/

/-- A new share's derived name stands for nothing else in the root, and where it
is taken, what is put behind it is no separator. -/
def Usable (shares : List FetchedShare) (shareId name : String) : Prop :=
  Recorded shares shareId ∨
    (Taken shares (safeFolderName name) → '/' ∉ shareId.toList.take 6) ∧
    (¬ Taken shares (safeFolderName name) → safeFolderName name ∉ reserved)

/-- The suffixed name of a new share is not taken as the derived one is. -/
def Untaken (shares : List FetchedShare) (shareId name : String) : Prop :=
  Recorded shares shareId ∨
    (Taken shares (safeFolderName name) → ¬ Taken shares (suffixed (safeFolderName name) shareId))

/-- A download ends with the folder of its own share, or with one that is none's. -/
def StillOwn (shares : List FetchedShare) (d : Download) : Prop :=
  ∀ s ∈ shares, s.shareId = d.shareId ↔ s.folder = d.folder

def Careful (w : World) : Act → Prop
  | .record _ shareId name _ => ∀ shares, listShares w.index = .ok shares →
    Usable shares shareId name ∧ Untaken shares shareId name
  | .start shareId name => ∀ shares, listShares w.index = .ok shares → Usable shares shareId name
  | .complete i _ => ∀ shares d, listShares w.index = .ok shares → w.going[i]? = some d →
    StillOwn shares d
  | .abandon _ => True

section

variable {shares : List FetchedShare} {shareId name : String} {recorded : List (String × String)}

theorem resolve_named (named : ∀ s ∈ shares, Named s.folder) (usable : Usable shares shareId name) :
    Named (resolveShareFolder shares shareId name) := by
  by_cases old : Recorded shares shareId
  · obtain ⟨s, mem, -, folder⟩ := resolve_recorded name old
    rw [folder]
    exact named s mem
  · obtain ⟨suffix, base⟩ := usable.resolve_left old
    have tidy := safeFolderName_tidy name
    have slash : '/' ∉ (safeFolderName name).toList := fun mem => (tidy.chars '/' mem).1 rfl
    by_cases taken : Taken shares (safeFolderName name)
    · rw [resolve_taken old taken]
      have text := suffixed_toList (safeFolderName name) shareId
      have dash : '-' ∈ (suffixed (safeFolderName name) shareId).toList := by
        rw [text]
        simp
      refine ⟨fun none_ => ?_, fun mem => ?_, fun held => ?_⟩
      · rw [none_] at dash
        cases dash
      · rw [text, List.mem_append, List.mem_cons] at mem
        rcases mem with mem | mem | mem
        · exact slash mem
        · cases mem
        · exact suffix taken mem
      · have none_ : ∀ t ∈ reserved, '-' ∉ t.toList := by decide
        exact none_ _ held dash
    · rw [resolve_free old taken]
      exact ⟨tidy.named, slash, base taken⟩

/-- The folder resolved is the share's own, or none's. -/
theorem resolve_own (kept : Kept recorded shares) (untaken : Untaken shares shareId name) :
    ∀ s ∈ shares, s.shareId = shareId ↔ s.folder = resolveShareFolder shares shareId name := by
  intro s mem
  by_cases old : Recorded shares shareId
  · obtain ⟨s₀, mem₀, same, folder⟩ := resolve_recorded name old
    rw [folder, ← same]
    refine ⟨fun e => ?_, fun e => ?_⟩
    · have found := kept.first s mem
      rw [e] at found
      exact congrArg Prod.snd (Option.some.inj (found.symm.trans (kept.first s₀ mem₀)))
    · by_contra ne
      exact kept.folders s mem s₀ mem₀ ne e
  · refine iff_of_false (fun same => old ⟨s, mem, same⟩) fun same => ?_
    by_cases taken : Taken shares (safeFolderName name)
    · rw [resolve_taken old taken] at same
      exact untaken.resolve_left old taken ⟨s, mem, same⟩
    · rw [resolve_free old taken] at same
      exact taken ⟨s, mem, same⟩

end

/-- What the steps keep. -/
structure Sound (w : World) (shares : List FetchedShare) : Prop where
  listed : listShares w.index = .ok shares
  kept : Kept w.recorded shares
  named : ∀ s ∈ shares, Named s.folder
  going : ∀ d ∈ w.going, Named d.folder

section

variable {w : World} {shares : List FetchedShare} {act : Act}

theorem Careful.usable {shareId name : String} (careful : Careful w act)
    (asked : act.asks = some (shareId, name)) (listed : listShares w.index = .ok shares) :
    Usable shares shareId name := by
  cases act with
  | record =>
    cases asked
    exact (careful shares listed).1
  | start =>
    cases asked
    exact careful shares listed
  | complete => cases asked
  | abandon => cases asked

theorem Sound.enters {share : FetchedShare} {index : Index} {going : List Download}
    (sound : Sound w shares) (own : ∀ s ∈ shares, s.shareId = share.shareId ↔ s.folder = share.folder)
    (named : Named share.folder) (rest : ∀ d ∈ going, Named d.folder)
    (now : listShares index = .ok (entered shares share)) :
    Sound ⟨index, going, w.recorded ++ [(share.shareId, share.folder)]⟩ (entered shares share) := by
  refine ⟨now, sound.kept.enters own, fun s mem => ?_, rest⟩
  rcases mem_entered.1 mem with ⟨mem, -⟩ | rfl
  · exact sound.named s mem
  · exact named

/-- A folder that is made for a share leaves the index. -/
theorem spares_named {folder : String} {index index' : Index} (named : Named folder)
    (spares : Spares folder index index') : index' = index := by
  rcases spares with same | ⟨taken, -⟩
  · exact same
  · exact absurd (taken ▸ by decide) named.free

theorem step_sound (sound : Sound w shares) (careful : Careful w act) :
    ∃ shares', Sound (w.step act) shares' := by
  have fewer : ∀ i, ∀ d ∈ w.going.eraseIdx i, Named d.folder := fun i d mem =>
    sound.going d ((List.eraseIdx_sublist w.going i).subset mem)
  have step := step_cases sound.listed act
  generalize w.step act = w' at step
  cases step with
  | entered was now =>
    subst was
    obtain ⟨usable, untaken⟩ := careful shares sound.listed
    exact ⟨_, sound.enters (resolve_own sound.kept untaken) (resolve_named sound.named usable)
      sound.going now⟩
  | refused was spares =>
    have named := resolve_named sound.named (careful.usable was sound.listed)
    obtain rfl := spares_named named spares
    exact ⟨shares, sound⟩
  | started spares =>
    have named := resolve_named sound.named (careful shares sound.listed)
    obtain rfl := spares_named named spares
    refine ⟨shares, sound.listed, sound.kept, sound.named, fun d mem => ?_⟩
    rcases List.mem_append.1 mem with mem | mem
    · exact sound.going d mem
    · rw [List.mem_singleton.1 mem]
      exact named
  | @completed i files d index was now =>
    have own := careful shares d sound.listed was
    have named := sound.going d (List.mem_of_getElem? was)
    exact ⟨_, @Sound.enters _ _ ⟨d.shareId, d.name, d.folder, files⟩ _ _ sound own named (fewer i) now⟩
  | none => exact ⟨shares, sound⟩
  | abandoned => exact ⟨shares, sound.listed, sound.kept, sound.named, fewer _⟩

end

/-- **No two shares in one folder** in any run whose steps are careful. -/
theorem never_shared {acts : List Act} (careful : Trail.Along World.step Careful fresh acts) :
    ∃ shares, listShares (acts.foldl World.step fresh).index = .ok shares ∧
      Kept (acts.foldl World.step fresh).recorded shares ∧ Apart shares := by
  have first : Sound fresh [] := by
    refine ⟨rfl, ⟨rfl, ?_, ?_⟩, ?_, ?_⟩ <;> exact fun _ mem => absurd mem List.not_mem_nil
  obtain ⟨shares, sound⟩ := Trail.along_keeps (I := fun w => ∃ shares, Sound w shares)
    (fun w act ⟨shares, sound⟩ careful => step_sound sound careful) ⟨[], first⟩ careful
  refine ⟨shares, sound.listed, sound.kept, fun s mem s' mem' ne => ?_⟩
  exact onDisk_apart (sound.named s mem) (sound.named s' mem') (sound.kept.folders s mem s' mem' ne)

/-- A download begun and ended. -/
theorem never_shared_download : ∃ shares,
    listShares ([Act.start "a1" "Vacation", .complete 0 []].foldl World.step fresh).index = .ok shares ∧
      Kept ([Act.start "a1" "Vacation", .complete 0 []].foldl World.step fresh).recorded shares ∧
      Apart shares := by
  refine never_shared ⟨fun shares listed => ?_, fun shares d listed _ => ?_, trivial⟩
  · obtain rfl : [] = shares := Except.ok.inj listed
    refine .inr ⟨fun taken => ?_, fun _ => by decide⟩
    obtain ⟨s, mem, -⟩ := taken
    cases mem
  · obtain rfl : [] = shares := Except.ok.inj listed
    exact fun s mem => absurd mem List.not_mem_nil

/-- A share recorded with one file. -/
def recordOne (shareId name : String) : Act :=
  .record (fun _ => .ok ()) shareId name [⟨"f", []⟩]

theorem recordOne_listed (shareId name : String) {w : World} {shares : List FetchedShare}
    {folder : String} (listed : listShares w.index = .ok shares)
    (resolved : resolveShareFolder shares shareId name = folder) (other : folder ≠ manifestName) :
    listShares (w.step (recordOne shareId name)).index =
      .ok (entered shares ⟨shareId, name, folder, [⟨"f", 0⟩]⟩) := by
  have safe : sanitizeRelPath "f" = .ok ["f"] := by decide
  have files : writeFiles (fun _ => .ok ()) folder [⟨"f", []⟩] w.index = (.ok [⟨"f", 0⟩], w.index) := by
    simp only [writeFiles, safe, makeFolder, if_neg other]
    rfl
  have result : recordShare (fun _ => .ok ()) shareId name [⟨"f", []⟩] w.index =
      (.ok ⟨shareId, name, folder, [⟨"f", 0⟩]⟩,
        .file (manifestText (entered shares ⟨shareId, name, folder, [⟨"f", 0⟩]⟩))) := by
    unfold recordShare
    rw [listed]
    dsimp only
    rw [resolved, files]
    exact enter_file (usable_of_listed listed)
  show listShares (w.record _).index = _
  rw [result]
  exact listShares_entered

/-- Three shares of one name, two of them with ids that begin alike. -/
theorem suffix_shared : ∃ shares,
    listShares ([recordOne "aaaaaa11" "x", recordOne "bbbbbb11" "x",
      recordOne "bbbbbb22" "x"].foldl World.step fresh).index = .ok shares ∧
    shares.map (fun s => (s.shareId, s.folder)) =
      [("aaaaaa11", "x"), ("bbbbbb11", "x-bbbbbb"), ("bbbbbb22", "x-bbbbbb")] ∧
    ¬ (∃ recorded, Kept recorded shares) ∧ ¬ Apart shares := by
  have first := recordOne_listed "aaaaaa11" "x"
    (show listShares fresh.index = .ok [] from rfl) (show _ = "x" by decide) (by decide)
  have second := recordOne_listed "bbbbbb11" "x" first
    (show _ = "x-bbbbbb" by decide) (by decide)
  have third := recordOne_listed "bbbbbb22" "x" second
    (show _ = "x-bbbbbb" by decide) (by decide)
  refine ⟨_, third, by decide, ?_, fun apart => ?_⟩
  · rintro ⟨recorded, kept⟩
    exact kept.folders ⟨"bbbbbb11", "x", "x-bbbbbb", [⟨"f", 0⟩]⟩ (by decide)
      ⟨"bbbbbb22", "x", "x-bbbbbb", [⟨"f", 0⟩]⟩ (by decide) (by decide) rfl
  · exact apart ⟨"bbbbbb11", "x", "x-bbbbbb", [⟨"f", 0⟩]⟩ (by decide)
      ⟨"bbbbbb22", "x", "x-bbbbbb", [⟨"f", 0⟩]⟩ (by decide) (by decide) [] ["f"] ["f"]
      (List.prefix_rfl)

end Daemonseed.Storage.DistinctFolders
