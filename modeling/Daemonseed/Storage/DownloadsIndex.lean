import Daemonseed.Storage.ManagedFolders

/-! # The index of downloads

The text that names each share fetched, its folder and its files, and the calls
that read it, write it and add a share to it. -/
namespace Daemonseed.Storage.DownloadsIndex
open Daemonseed.Gui.SingleInstance (trim whiteSpace digit_not_whiteSpace unsigned unsigned_showNat)
open Daemonseed.Lib.Bytes Daemonseed.Lib.Files Daemonseed.Lib.Lines Daemonseed.Storage.Fetched
  Daemonseed.Lib.Trims Daemonseed.Storage.ManagedFolders

/-! ## The text -/

def manifestHeader : String := "# daemonseed downloads manifest v2"

def hexText (s : String) : Text := showHex (utf8 s)

def shareFields (s : FetchedShare) : List Text :=
  [['S'], hexText s.shareId, hexText s.name, hexText s.folder, showNat s.files.length]

def fileFields (f : FetchedFile) : List Text := [['F'], hexText f.relPath, showNat f.size.toNat]

def line (fields : List Text) : Text := [' '].intercalate fields

def shareLines (s : FetchedShare) : List Text :=
  line (shareFields s) :: s.files.map fun f => line (fileFields f)

def manifestText (shares : List FetchedShare) : Text :=
  (manifestHeader.toList :: shares.flatMap shareLines).flatMap fun l => l ++ ['\n']

def nextHexStr (parts : List Text) (field : String) : Except FetchedError (String × List Text) :=
  match parts with
  | [] => .error (.corrupt s!"missing {field}")
  | token :: rest =>
    match parseHex token with
    | none => .error (.corrupt s!"{field} not hex")
    | some bytes =>
      match ofUtf8 bytes with
      | none => .error (.corrupt s!"{field} not UTF-8")
      | some s => .ok (s, rest)

def parseFileLine (l : Text) : Except FetchedError FetchedFile :=
  match l.splitOn ' ' with
  | ['F'] :: parts => do
    let (relPath, parts) ← nextHexStr parts "rel_path"
    match parts with
    | [] => .error (.corrupt "F line missing size")
    | size :: _ =>
      match parseU64 size with
      | none => .error (.corrupt "F line size not a number")
      | some size => .ok ⟨relPath, size⟩
  | _ => .error (.corrupt s!"expected F line, got `{String.ofList l}`")

/-- What a count is read as; it counts what is held in memory. -/
def parseCount (t : Text) : Option Nat := parseDigits (unsigned t)

/-- So many of the lines as files. -/
def parseFiles : Nat → List Text → Except FetchedError (List FetchedFile)
  | 0, _ => .ok []
  | _ + 1, [] => .error (.corrupt "manifest ended mid-share")
  | count + 1, l :: rest => do
    let f ← parseFileLine (trim l)
    let files ← parseFiles count rest
    return f :: files

/-- A share's line, with how many of the lines that follow are its files'. -/
def parseShareLine (parts : List Text) : Except FetchedError ((List FetchedFile → FetchedShare) × Nat) := do
  let (shareId, parts) ← nextHexStr parts "share_id"
  let (name, parts) ← nextHexStr parts "name"
  let (folder, parts) ← nextHexStr parts "folder"
  match parts with
  | [] => .error (.corrupt "S line missing file count")
  | count :: _ =>
    match parseCount count with
    | none => .error (.corrupt "S line file count not a number")
    | some count => .ok (fun files => ⟨shareId, name, folder, files⟩, count)

/-- The shares of the lines, of which so many have been read. -/
def parseShares : Nat → List Text → Except FetchedError (List FetchedShare)
  | _, [] => .ok []
  | read + 1, _ :: rest => parseShares read rest
  | 0, l :: rest =>
    let l := trim l
    if l = [] ∨ l.head? = some '#' then parseShares 0 rest
    else
      match l.splitOn ' ' with
      | ['S'] :: parts => do
        let (share, count) ← parseShareLine parts
        let files ← parseFiles count rest
        let shares ← parseShares count rest
        return share files :: shares
      | other :: _ =>
        .error (.corrupt s!"unexpected manifest record `{String.ofList other}`")
      | [] => parseShares 0 rest

def parseManifest (raw : Text) : Except FetchedError (List FetchedShare) := parseShares 0 (lines raw)

/-! ### What is written is read back -/

section

variable {s : FetchedShare} {f : FetchedFile} {c : Char}

theorem hexText_plain {t : String} (mem : c ∈ hexText t) :
    c ≠ ' ' ∧ c ≠ '\n' ∧ c ≠ '\r' := by
  obtain ⟨n, small, rfl⟩ := showHex_digits mem
  have all : ∀ n < 16, Nat.digitChar n ≠ ' ' ∧ Nat.digitChar n ≠ '\n' ∧ Nat.digitChar n ≠ '\r' := by
    decide
  exact all n small

theorem digit_plain (digit : c.isDigit = true) : c ≠ ' ' ∧ c ≠ '\n' ∧ c ≠ '\r' := by
  refine ⟨?_, ?_, ?_⟩ <;> rintro rfl <;> cases digit

/-- A field is free of separators. -/
def PlainField (field : Text) : Prop := ∀ c ∈ field, c ≠ ' ' ∧ c ≠ '\n' ∧ c ≠ '\r'

theorem shareFields_plain (s : FetchedShare) : ∀ field ∈ shareFields s, PlainField field := by
  simp only [shareFields, List.forall_mem_cons]
  refine ⟨?_, fun c => hexText_plain, fun c => hexText_plain, fun c => hexText_plain,
    fun c mem => digit_plain (showNat_digits _ c mem), by simp⟩
  intro c mem
  rw [List.mem_singleton.1 mem]
  decide

theorem fileFields_plain (f : FetchedFile) : ∀ field ∈ fileFields f, PlainField field := by
  simp only [fileFields, List.forall_mem_cons]
  refine ⟨?_, fun c => hexText_plain, fun c mem => digit_plain (showNat_digits _ c mem), by simp⟩
  intro c mem
  rw [List.mem_singleton.1 mem]
  decide

variable {fields : List Text} {a : Char} {last : Text}

theorem line_cons {field : Text} (some_ : fields ≠ []) :
    line (field :: fields) = field ++ ' ' :: line fields := by
  unfold line
  rw [List.intercalate_cons_of_ne_nil some_, List.append_assoc]
  rfl

theorem line_split (plain : ∀ field ∈ fields, PlainField field) (some_ : fields ≠ []) :
    (line fields).splitOn ' ' = fields :=
  List.splitOn_intercalate ' ' (fun field mem space => (plain field mem ' ' space).1 rfl) some_

theorem line_chars (mem : c ∈ line fields) : c = ' ' ∨ ∃ field ∈ fields, c ∈ field := by
  induction fields with
  | nil => cases mem
  | cons field fields ih =>
    cases fields with
    | nil => exact .inr ⟨field, List.mem_cons_self, by simpa [line] using mem⟩
    | cons next fields =>
      rw [line_cons (List.cons_ne_nil _ _), List.mem_append, List.mem_cons] at mem
      rcases mem with mem | space | mem
      · exact .inr ⟨field, List.mem_cons_self, mem⟩
      · exact .inl space
      · exact (ih mem).imp_right fun ⟨f, held, mem⟩ => ⟨f, List.mem_cons_of_mem _ held, mem⟩

theorem line_head : (line ([a] :: fields)).head? = some a := by
  cases fields with
  | nil => rfl
  | cons next fields =>
    rw [line_cons (List.cons_ne_nil _ _)]
    rfl

theorem line_last (some_ : last ≠ []) : (line (fields ++ [last])).getLast? = last.getLast? := by
  induction fields with
  | nil => simp [line]
  | cons field fields ih =>
    have more : line (fields ++ [last]) ≠ [] := by
      intro none_
      rw [none_] at ih
      exact some_ (List.getLast?_eq_none_iff.1 ih.symm)
    rw [List.cons_append, line_cons (by simp), List.getLast?_append_of_ne_nil _ (by simp),
      List.getLast?_cons_of_ne_nil more, ih]

/-- A line of plain fields that a letter begins and a number ends. -/
structure Written (l : Text) : Prop where
  whole : Whole l
  trimmed : trim l = l
  letter : ∃ a, l.head? = some a ∧ a ≠ '#'

theorem written (letter : whiteSpace a = false ∧ a ≠ '#') {n : Nat}
    (plain : ∀ field ∈ [a] :: fields ++ [showNat n], PlainField field) :
    Written (line ([a] :: fields ++ [showNat n])) := by
  have head : (line ([a] :: fields ++ [showNat n])).head? = some a := line_head
  have ends : (line ([a] :: fields ++ [showNat n])).getLast? = (showNat n).getLast? :=
    line_last Nat.toDigits_ne_nil
  have digit : ∀ c, (line ([a] :: fields ++ [showNat n])).getLast? = some c → c.isDigit = true := by
    intro c hc
    rw [ends] at hc
    exact showNat_digits n c (List.mem_of_getLast? hc)
  refine ⟨⟨fun feed => ?_, fun hc => ?_⟩, ?_, a, head, letter.2⟩
  · rcases line_chars feed with space | ⟨field, held, mem⟩
    · cases space
    · exact (plain field held _ mem).2.1 rfl
  · cases digit _ hc
  · refine trimBoth_self (fun c hc => ?_) fun c hc => digit_not_whiteSpace (digit c hc)
    obtain rfl : a = c := Option.some.inj (head.symm.trans hc)
    exact letter.1

theorem shareLine_written (s : FetchedShare) : Written (line (shareFields s)) :=
  @written [hexText s.shareId, hexText s.name, hexText s.folder] _ (by decide) _
    (shareFields_plain s)

theorem fileLine_written (f : FetchedFile) : Written (line (fileFields f)) :=
  @written [hexText f.relPath] _ (by decide) _ (fileFields_plain f)

theorem nextHexStr_hexText (t field : String) (rest : List Text) :
    nextHexStr (hexText t :: rest) field = .ok (t, rest) := by
  simp only [nextHexStr, hexText, parseHex_showHex, ofUtf8_utf8]

theorem parseFileLine_line (f : FetchedFile) : parseFileLine (line (fileFields f)) = .ok f := by
  unfold parseFileLine
  rw [line_split (fileFields_plain f) (List.cons_ne_nil _ _)]
  simp only [fileFields, nextHexStr_hexText, bind, Except.bind, parseU64_showNat]

theorem parseFiles_lines (files : List FetchedFile) (rest : List Text) :
    parseFiles files.length ((files.map fun f => line (fileFields f)) ++ rest) = .ok files := by
  induction files with
  | nil => rfl
  | cons f files ih =>
    simp only [List.length_cons, List.map_cons, List.cons_append, parseFiles,
      (fileLine_written f).trimmed, parseFileLine_line, ih]
    rfl

theorem parseShareLine_fields (s : FetchedShare) : ∃ share,
    parseShareLine [hexText s.shareId, hexText s.name, hexText s.folder, showNat s.files.length] =
      .ok (share, s.files.length) ∧ share s.files = s := by
  refine ⟨fun files => ⟨s.shareId, s.name, s.folder, files⟩, ?_, rfl⟩
  simp only [parseShareLine, nextHexStr_hexText, bind, Except.bind, parseCount, unsigned_showNat,
    parseDigits_showNat]

theorem parseShares_skip (skipped rest : List Text) :
    parseShares skipped.length (skipped ++ rest) = parseShares 0 rest := by
  induction skipped with
  | nil => rfl
  | cons l skipped ih => rw [List.length_cons, List.cons_append, parseShares, ih]

theorem parseShares_lines (shares : List FetchedShare) :
    parseShares 0 (shares.flatMap shareLines) = .ok shares := by
  induction shares with
  | nil => rfl
  | cons s shares ih =>
    have skip := parseShares_skip (s.files.map fun f => line (fileFields f))
      (shares.flatMap shareLines)
    rw [List.length_map] at skip
    obtain ⟨share, read, same⟩ := parseShareLine_fields s
    obtain ⟨a, head, letter⟩ := (shareLine_written s).letter
    have some_ : line (shareFields s) ≠ [] := by
      intro none_
      rw [none_] at head
      cases head
    have comment : ¬ (line (shareFields s) = [] ∨ (line (shareFields s)).head? = some '#') := by
      rw [head]
      exact not_or.2 ⟨some_, fun e => letter (Option.some.inj e)⟩
    rw [List.flatMap_cons, shareLines, List.cons_append, parseShares, (shareLine_written s).trimmed]
    dsimp only
    rw [if_neg comment, line_split (shareFields_plain s) (List.cons_ne_nil _ _)]
    simp only [shareFields, read, parseFiles_lines, skip, ih, bind, Except.bind, pure, Except.pure,
      same]

/-- **What is written is read back.** -/
theorem parseManifest_manifestText (shares : List FetchedShare) :
    parseManifest (manifestText shares) = .ok shares := by
  have text : ∀ ls : List Text, (∀ l ∈ ls, Whole l) → lines (ls.flatMap fun l => l ++ ['\n']) = ls := by
    intro ls whole
    induction ls with
    | nil => rfl
    | cons l ls ih =>
      obtain ⟨here, others⟩ := List.forall_mem_cons.1 whole
      rw [List.flatMap_cons, List.append_assoc, List.singleton_append, lines_feed here, ih others]
  have whole : ∀ l ∈ shares.flatMap shareLines, Whole l := by
    intro l mem
    obtain ⟨s, -, mem⟩ := List.mem_flatMap.1 mem
    rcases List.mem_cons.1 mem with rfl | mem
    · exact (shareLine_written s).whole
    · obtain ⟨f, -, rfl⟩ := List.mem_map.1 mem
      exact (fileLine_written f).whole
  have header : Whole manifestHeader.toList := ⟨by decide, by decide⟩
  rw [parseManifest, manifestText, text _ (List.forall_mem_cons.2 ⟨header, whole⟩), parseShares]
  exact parseShares_lines shares

end

/-! ## The calls -/

def manifestName : String := "downloads.idx"

/-- What stands in the downloads root under the index's name. -/
inductive Index
  | absent
  | file (text : Text)
  | directory
  deriving DecidableEq

def listShares : Index → Except FetchedError (List FetchedShare)
  | .absent => .ok []
  | .file raw => parseManifest raw
  | .directory => .error (.io .isADirectory)

def writeManifest (index : Index) (shares : List FetchedShare) : Except FetchedError Index :=
  match index with
  | .directory => .error (.io .isADirectory)
  | _ => .ok (.file (manifestText shares))

/-- A directory made in the root, or for a path below it; the index's name may
be the one asked for. -/
def makeFolder (folder : String) (index : Index) : Except FetchedError Index :=
  if folder = manifestName then
    match index with
    | .file _ => .error (.io .notADirectory)
    | _ => .ok .directory
  else .ok index

structure VerifiedFile where
  relPath : String
  bytes : Octets

/-- The files of a share into its folder; `write` is what becomes of each, by its
path below the folder. -/
def writeFiles (write : Path → Except IoError Unit) (folder : String) :
    List VerifiedFile → Index → Except FetchedError (List FetchedFile) × Index
  | [], index => (.ok [], index)
  | vf :: rest, index =>
    match sanitizeRelPath vf.relPath with
    | .error e => (.error e, index)
    | .ok safe =>
      match makeFolder folder index with
      | .error e => (.error e, index)
      | .ok index =>
        match write safe with
        | .error e => (.error (.io e), index)
        | .ok () =>
          match writeFiles write folder rest index with
          | (.error e, index) => (.error e, index)
          | (.ok recs, index) => (.ok (⟨vf.relPath, UInt64.ofNat vf.bytes.length⟩ :: recs), index)

/-- A share after the others, in the place of what was recorded of it. -/
def entered (shares : List FetchedShare) (share : FetchedShare) : List FetchedShare :=
  shares.filter (·.shareId ≠ share.shareId) ++ [share]

/-- A share entered and the index written. -/
def enter (shares : List FetchedShare) (share : FetchedShare) (index : Index) :
    Except FetchedError FetchedShare × Index :=
  match writeManifest index (entered shares share) with
  | .error e => (.error e, index)
  | .ok index => (.ok share, index)

def recordShare (write : Path → Except IoError Unit) (shareId name : String)
    (files : List VerifiedFile) (index : Index) : Except FetchedError FetchedShare × Index :=
  match listShares index with
  | .error e => (.error e, index)
  | .ok shares =>
    let folder := resolveShareFolder shares shareId name
    match writeFiles write folder files index with
    | (.error e, index) => (.error e, index)
    | (.ok recs, index) => enter shares ⟨shareId, name, folder, recs⟩ index

def registerShare (shareId name folder : String) (files : List FetchedFile) (index : Index) :
    Except FetchedError FetchedShare × Index :=
  match listShares index with
  | .error e => (.error e, index)
  | .ok shares => enter shares ⟨shareId, name, folder, files⟩ index

section

variable {write : Path → Except IoError Unit} {shareId name folder : String} {index : Index}
  {shares : List FetchedShare} {share : FetchedShare}

/-- A folder made for a path leaves the index be, or stands in its place. -/
def Spares (folder : String) (index index' : Index) : Prop :=
  index' = index ∨ folder = manifestName ∧ index' = .directory

theorem makeFolder_spares {index' : Index} (made : makeFolder folder index = .ok index') :
    Spares folder index index' := by
  unfold makeFolder at made
  split at made
  · split at made
    · cases made
    · exact .inr ⟨‹_›, (Except.ok.inj made).symm⟩
  · exact .inl (Except.ok.inj made).symm

theorem Spares.trans {a b c : Index} (h : Spares folder a b) (h' : Spares folder b c) :
    Spares folder a c := by
  rcases h' with rfl | other
  · exact h
  · exact .inr other

theorem writeFiles_spares (files : List VerifiedFile) :
    Spares folder index (writeFiles write folder files index).2 := by
  induction files generalizing index with
  | nil => exact .inl rfl
  | cons vf rest ih =>
    unfold writeFiles
    cases sanitizeRelPath vf.relPath with
    | error e => exact .inl rfl
    | ok safe =>
      dsimp only
      cases made : makeFolder folder index with
      | error e => exact .inl rfl
      | ok index₁ =>
        have first := makeFolder_spares made
        dsimp only
        cases write safe with
        | error e => exact first
        | ok _ =>
          have others : Spares folder index (writeFiles write folder rest index₁).2 := first.trans ih
          dsimp only
          rcases h : writeFiles write folder rest index₁ with ⟨_ | _, index'⟩ <;>
            exact (congrArg Prod.snd h) ▸ others

theorem enter_file (usable : index ≠ .directory) :
    enter shares share index = (.ok share, .file (manifestText (entered shares share))) := by
  cases index with
  | directory => exact absurd rfl usable
  | _ => rfl

theorem listShares_entered :
    listShares (.file (manifestText (entered shares share))) = .ok (entered shares share) :=
  parseManifest_manifestText _

theorem usable_of_listed (listed : listShares index = .ok shares) : index ≠ .directory := by
  rintro rfl
  cases listed

variable (write shareId name) in
/-- A share recorded: entered in the list, or not. -/
theorem recordShare_spec (listed : listShares index = .ok shares) (files : List VerifiedFile) :
    (∃ e index', recordShare write shareId name files index = (.error e, index') ∧
      Spares (resolveShareFolder shares shareId name) index index') ∨
    ∃ recs index', recordShare write shareId name files index =
      (.ok ⟨shareId, name, resolveShareFolder shares shareId name, recs⟩, index') ∧
      listShares index' = .ok (entered shares ⟨shareId, name, resolveShareFolder shares shareId name, recs⟩) := by
  have spares : Spares (resolveShareFolder shares shareId name) index
      (writeFiles write (resolveShareFolder shares shareId name) files index).2 := writeFiles_spares files
  unfold recordShare
  rw [listed]
  dsimp only
  rcases h : writeFiles write (resolveShareFolder shares shareId name) files index with ⟨e | recs, index'⟩
  · rw [h] at spares
    exact .inl ⟨e, index', rfl, spares⟩
  · rw [h] at spares
    by_cases usable : index' = .directory
    · refine .inl ⟨.io .isADirectory, index', ?_, spares⟩
      rw [usable]
      rfl
    · exact .inr ⟨recs, _, enter_file usable, listShares_entered⟩

variable (shareId name folder) in
theorem registerShare_spec (listed : listShares index = .ok shares) (files : List FetchedFile) :
    ∃ index', registerShare shareId name folder files index = (.ok ⟨shareId, name, folder, files⟩, index') ∧
      listShares index' = .ok (entered shares ⟨shareId, name, folder, files⟩) := by
  refine ⟨_, ?_, listShares_entered⟩
  unfold registerShare
  rw [listed]
  exact enter_file (usable_of_listed listed)

end

end Daemonseed.Storage.DownloadsIndex
