import Daemonseed.Storage.DownloadsIndex

/-! # Downloads into the managed root

Shares are recorded at once, or downloaded: the folder is resolved as a download
starts and entered in the index as it ends, and others start and end meanwhile. -/
namespace Daemonseed.Storage.ManagedDownloads
open Daemonseed.Lib.Files (Path IoError)
open Daemonseed.Gui.SingleInstance (whiteSpace)
open Daemonseed.Lib.Lines Daemonseed.Lib.Runs Daemonseed.Lib.Trims Daemonseed.Storage.DownloadsIndex
  Daemonseed.Storage.Fetched Daemonseed.Storage.ManagedFolders

/-- A download that goes on, with the folder it resolved. -/
structure Download where
  shareId : String
  name : String
  folder : String
  deriving DecidableEq

/-- The index and the downloads that go on; `recorded` are the shares entered so
far and the folders they were entered with, the oldest first. -/
structure World where
  index : Index
  going : List Download
  recorded : List (String × String)

def fresh : World := ⟨.absent, [], []⟩

inductive Act
  | record (write : Path → Except IoError Unit) (shareId name : String) (files : List VerifiedFile)
  | start (shareId name : String)
  | complete (i : Nat) (files : List FetchedFile)
  | abandon (i : Nat)

namespace World

/-- A share entered, as the history has it. -/
def record (w : World) (result : Except FetchedError FetchedShare × Index) : World :=
  match result with
  | (.error _, index) => { w with index }
  | (.ok share, index) => { w with index, recorded := w.recorded ++ [(share.shareId, share.folder)] }

/-- What a download does as it starts: the folder resolved from what is recorded
now, and made for what it stages. -/
def start (w : World) (shareId name : String) : World :=
  match listShares w.index with
  | .error _ => w
  | .ok shares =>
    let folder := resolveShareFolder shares shareId name
    match makeFolder folder w.index with
    | .error _ => w
    | .ok index => { w with index, going := w.going ++ [⟨shareId, name, folder⟩] }

/-- The download ends, and what it resolved as it started is entered. -/
def complete (w : World) (i : Nat) (files : List FetchedFile) : World :=
  match w.going[i]? with
  | none => w
  | some d =>
    { w with going := w.going.eraseIdx i }.record
      (registerShare d.shareId d.name d.folder files w.index)

def step (w : World) : Act → World
  | .record write shareId name files => w.record (recordShare write shareId name files w.index)
  | .start shareId name => w.start shareId name
  | .complete i files => w.complete i files
  | .abandon i => { w with going := w.going.eraseIdx i }

end World

/-- The share whose folder is resolved, and its name. -/
def Act.asks : Act → Option (String × String)
  | .record _ shareId name _ | .start shareId name => some (shareId, name)
  | _ => none

section

variable {w : World} {shares : List FetchedShare}

/-- What one step does to the index: a share with the folder it was given is
entered, or the index stays, or a folder of its name is made. -/
inductive Step (w : World) (shares : List FetchedShare) : Act → World → Prop
  | entered {act write shareId name files recs index} (was : act = .record write shareId name files)
    (now : listShares index = .ok (entered shares
      ⟨shareId, name, resolveShareFolder shares shareId name, recs⟩)) :
    Step w shares act
      ⟨index, w.going, w.recorded ++ [(shareId, resolveShareFolder shares shareId name)]⟩
  | refused {act shareId name index} (was : act.asks = some (shareId, name))
    (spares : Spares (resolveShareFolder shares shareId name) w.index index) :
    Step w shares act { w with index }
  | started {shareId name index}
    (spares : Spares (resolveShareFolder shares shareId name) w.index index) :
    Step w shares (.start shareId name)
      { w with index, going := w.going ++ [⟨shareId, name, resolveShareFolder shares shareId name⟩] }
  | completed {i files d index} (was : w.going[i]? = some d)
    (now : listShares index = .ok (entered shares ⟨d.shareId, d.name, d.folder, files⟩)) :
    Step w shares (.complete i files)
      ⟨index, w.going.eraseIdx i, w.recorded ++ [(d.shareId, d.folder)]⟩
  | none {i files} : Step w shares (.complete i files) w
  | abandoned {i} : Step w shares (.abandon i) { w with going := w.going.eraseIdx i }

theorem complete_some {i : Nat} {d : Download} (was : w.going[i]? = some d)
    (files : List FetchedFile) : w.complete i files = { w with going := w.going.eraseIdx i }.record
      (registerShare d.shareId d.name d.folder files w.index) := by
  unfold World.complete
  rw [was]

theorem complete_none {i : Nat} (was : w.going[i]? = none) (files : List FetchedFile) :
    w.complete i files = w := by
  unfold World.complete
  rw [was]

theorem step_cases (listed : listShares w.index = .ok shares) (act : Act) :
    Step w shares act (w.step act) := by
  cases act with
  | record write shareId name files =>
    show Step w shares _ (w.record _)
    rcases recordShare_spec write shareId name listed files with
      ⟨e, index, result, spares⟩ | ⟨recs, index, result, now⟩
    · rw [result]
      exact .refused rfl spares
    · rw [result]
      exact .entered rfl now
  | start shareId name =>
    show Step w shares _ (w.start shareId name)
    unfold World.start
    rw [listed]
    dsimp only
    cases made : makeFolder (resolveShareFolder shares shareId name) w.index with
    | error e => exact @Step.refused _ _ _ shareId name _ rfl (.inl rfl)
    | ok index => exact .started (makeFolder_spares made)
  | complete i files =>
    show Step w shares _ (w.complete i files)
    cases was : w.going[i]? with
    | none =>
      rw [complete_none was]
      exact .none
    | some d =>
      obtain ⟨index, result, now⟩ := registerShare_spec d.shareId d.name d.folder listed files
      rw [complete_some was, result]
      exact .completed was now
  | abandon i => exact .abandoned

/-- Where the index cannot be read, nothing comes of a step. -/
theorem step_unread {e : FetchedError} (unread : listShares w.index = .error e) (act : Act) :
    (w.step act).index = w.index ∧ ∀ d ∈ (w.step act).going, d ∈ w.going := by
  have fewer : ∀ i, ∀ d ∈ w.going.eraseIdx i, d ∈ w.going := fun i d mem =>
    (List.eraseIdx_sublist w.going i).subset mem
  cases act with
  | record write shareId name files =>
    have result : recordShare write shareId name files w.index = (.error e, w.index) := by
      rw [recordShare, unread]
    show (w.record _).index = _ ∧ ∀ d ∈ (w.record _).going, _
    rw [result]
    exact ⟨rfl, fun _ mem => mem⟩
  | start shareId name =>
    have same : w.start shareId name = w := by
      rw [World.start, unread]
    show (w.start shareId name).index = _ ∧ ∀ d ∈ (w.start shareId name).going, _
    rw [same]
    exact ⟨rfl, fun _ mem => mem⟩
  | complete i files =>
    show (w.complete i files).index = _ ∧ ∀ d ∈ (w.complete i files).going, _
    cases was : w.going[i]? with
    | none =>
      rw [complete_none was]
      exact ⟨rfl, fun _ mem => mem⟩
    | some d =>
      have result : registerShare d.shareId d.name d.folder files w.index = (.error e, w.index) := by
        rw [registerShare, unread]
      rw [complete_some was, result]
      exact ⟨rfl, fewer i⟩
  | abandon i => exact ⟨rfl, fewer i⟩

theorem mem_entered {share s : FetchedShare} :
    s ∈ entered shares share ↔ s ∈ shares ∧ s.shareId ≠ share.shareId ∨ s = share := by
  simp [entered]

end

/-! ## Inside the root -/

/-- Each share id is written in hexadecimal. -/
def HexIds (acts : List Act) : Prop :=
  ∀ act ∈ acts, ∀ shareId name, act.asks = some (shareId, name) → Hex shareId

/-- The folder that is resolved is one normal component below the root. -/
def Contained (w : World) (act : Act) : Prop :=
  ∀ shareId name shares, act.asks = some (shareId, name) → listShares w.index = .ok shares →
    OneComponent (resolveShareFolder shares shareId name)

def PlainlyNamed (w : World) (act : Act) : Prop :=
  ∀ shareId name shares, act.asks = some (shareId, name) → listShares w.index = .ok shares →
    Plain shares shareId name

/-- Every folder recorded or resolved is one component. -/
structure Normal (w : World) : Prop where
  listed : ∀ shares, listShares w.index = .ok shares → ∀ s ∈ shares, OneComponent s.folder
  going : ∀ d ∈ w.going, OneComponent d.folder

section

variable {w : World} {shares : List FetchedShare}

theorem Normal.enters {share : FetchedShare} {index : Index} {going : List Download}
    {recorded : List (String × String)} (normal : ∀ s ∈ shares, OneComponent s.folder)
    (here : OneComponent share.folder) (rest : ∀ d ∈ going, OneComponent d.folder)
    (now : listShares index = .ok (entered shares share)) : Normal ⟨index, going, recorded⟩ := by
  refine ⟨fun shares' listed => ?_, rest⟩
  obtain rfl : entered shares share = shares' := Except.ok.inj (now.symm.trans listed)
  intro s mem
  rcases mem_entered.1 mem with ⟨mem, -⟩ | rfl
  · exact normal s mem
  · exact here

theorem Normal.spared {folder : String} {index : Index} {going : List Download}
    {recorded : List (String × String)} (normal : Normal w) (spares : Spares folder w.index index)
    (rest : ∀ d ∈ going, OneComponent d.folder) : Normal ⟨index, going, recorded⟩ := by
  refine ⟨fun shares listed => ?_, rest⟩
  rcases spares with rfl | ⟨-, rfl⟩
  · exact normal.listed shares listed
  · cases listed

/-- A step whose folder is one component keeps them all so. -/
theorem step_normal (normal : Normal w) {act : Act} (contained : Contained w act) :
    Normal (w.step act) := by
  have fewer : ∀ i, ∀ d ∈ w.going.eraseIdx i, OneComponent d.folder := fun i d mem =>
    normal.going d ((List.eraseIdx_sublist w.going i).subset mem)
  cases listed : listShares w.index with
  | error e =>
    obtain ⟨same, going⟩ := step_unread listed act
    refine ⟨fun shares now => ?_, fun d mem => normal.going d (going d mem)⟩
    rw [same, listed] at now
    cases now
  | ok shares =>
    have step := step_cases listed act
    generalize w.step act = w' at step
    cases step with
    | entered was now =>
      subst was
      exact .enters (normal.listed shares listed) (contained _ _ shares rfl listed) normal.going now
    | refused was spares => exact normal.spared spares normal.going
    | started spares =>
      refine normal.spared spares fun d mem => ?_
      rcases List.mem_append.1 mem with mem | mem
      · exact normal.going d mem
      · rw [List.mem_singleton.1 mem]
        exact contained _ _ shares rfl listed
    | completed was now =>
      exact .enters (normal.listed shares listed) (normal.going _ (List.mem_of_getElem? was))
        (fewer _) now
    | none => exact normal
    | abandoned => exact ⟨normal.listed, fewer _⟩

end

/-- **A folder never leaves the root**, for as long as no new share is named with
dots that the trimming leaves at an end. -/
theorem contained_iff {acts : List Act} (hex : HexIds acts) :
    Trail.Along World.step Contained fresh acts ↔ Trail.Along World.step PlainlyNamed fresh acts := by
  refine Trail.along_congr_on (I := Normal) (fun w act normal => step_normal normal) (fun w act hex normal => ?_)
    ⟨fun shares listed => ?_, fun d mem => absurd mem List.not_mem_nil⟩ hex
  · have same : ∀ shareId name shares, act.asks = some (shareId, name) →
        listShares w.index = .ok shares →
        (OneComponent (resolveShareFolder shares shareId name) ↔ Plain shares shareId name) :=
      fun shareId name shares asked listed =>
        resolve_oneComponent_iff (normal.listed shares listed) (hex shareId name asked)
    exact ⟨fun h shareId name shares asked listed =>
        (same shareId name shares asked listed).1 (h shareId name shares asked listed),
      fun h shareId name shares asked listed =>
        (same shareId name shares asked listed).2 (h shareId name shares asked listed)⟩
  · obtain rfl : [] = shares := Except.ok.inj listed
    exact fun s mem => absurd mem List.not_mem_nil

theorem hex_a1 : Hex "a1" := by
  intro c mem
  have mem : c ∈ ['a', '1'] := mem
  simp only [List.mem_cons, List.not_mem_nil, or_false] at mem
  rcases mem with rfl | rfl <;> decide

/-- A share with an ordinary name. -/
theorem contained_named :
    Trail.Along World.step Contained fresh [.start "a1" "Vacation"] := by
  have hex : HexIds [.start "a1" "Vacation"] := by
    intro act mem shareId name asked
    rw [List.mem_singleton.1 mem] at asked
    obtain rfl : "a1" = shareId := congrArg Prod.fst (Option.some.inj asked)
    exact hex_a1
  refine (contained_iff hex).2 ⟨fun shareId name shares asked listed => .inr ?_, trivial⟩
  obtain rfl : "Vacation" = name := congrArg Prod.snd (Option.some.inj asked)
  refine ⟨?_, .inl ?_⟩ <;> rintro ⟨rest, edge, -⟩
  · cases (show pastEdge whiteSpace isDot (cleaned "Vacation") = "Vacation".toList by decide).symm.trans edge
  · cases (show pastEdge whiteSpace isDot (cleaned "Vacation").reverse = "noitacaV".toList by
      decide).symm.trans edge

/-- Dots and spaces in turn, and the folder is the one above the root. -/
theorem dots_leave :
    HexIds [.start "a1" ". .. ."] ∧
      resolveShareFolder [] "a1" ". .. ." = ".." ∧
      ¬ Trail.Along World.step Contained fresh [.start "a1" ". .. ."] := by
  have above : resolveShareFolder [] "a1" ". .. ." = ".." := by decide
  refine ⟨?_, above, fun h => ?_⟩
  · intro act mem shareId name asked
    rw [List.mem_singleton.1 mem] at asked
    obtain rfl : "a1" = shareId := congrArg Prod.fst (Option.some.inj asked)
    exact hex_a1
  · have one := h.1 "a1" ". .. ." [] rfl rfl
    rw [above] at one
    exact one.dots.2 rfl

end Daemonseed.Storage.ManagedDownloads
