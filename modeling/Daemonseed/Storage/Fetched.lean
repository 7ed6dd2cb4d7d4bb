import Daemonseed.Lib.Files
import Daemonseed.Net.ShareServe

/-! # The staging area of a download

Paths from a manifest are made safe, a file's chunks are written under the
reserved directory, and a file that is whole is moved to its place. A resume
looks again at what the area and the destination hold. -/
namespace Daemonseed.Storage.Fetched
open Daemonseed.Lib.Bytes Daemonseed.Lib.Files Daemonseed.Net.ShareFrames
  Daemonseed.Net.ShareServe

def stagingDir : String := ".dspart"

inductive FetchedError
  | io (e : IoError)
  | corrupt (message : String)
  | unsafePath (path : String)
  deriving DecidableEq

/-- The kind's own text; the operating system's is its own. -/
def ioErrorText : IoError → String
  | .notFound => "entity not found"
  | .alreadyExists => "entity already exists"
  | .notADirectory => "not a directory"
  | .isADirectory => "is a directory"
  | .other => "other error"

def FetchedError.text : FetchedError → String
  | .io e => "downloads-store I/O failed: " ++ ioErrorText e
  | .corrupt message => "downloads manifest corrupt: " ++ message
  | .unsafePath path => "refusing to write a download path escaping its folder: " ++ path

/-! ## Paths -/

/-- Case and trailing dots and spaces apart, the reserved name. -/
def isReserved (seg : List Char) : Bool :=
  (seg.rdropWhile fun c => c = '.' ∨ c = ' ').map Char.toLower = stagingDir.toList

/-- The segments that name something, each a normal component. -/
def pushSegments (safe : Path) : List (List Char) → Option Path
  | [] => some safe
  | seg :: rest =>
    if seg = [] then pushSegments safe rest
    else if isReserved seg then none
    else if seg = ['.'] ∨ seg = ['.', '.'] then none
    else pushSegments (safe ++ [String.ofList seg]) rest

def sanitizeRelPath (rel : String) : Except FetchedError Path :=
  if rel.toList = [] then .error (.unsafePath rel)
  else if rel.toList.head? = some '/' then .error (.unsafePath rel)
  else
    match pushSegments [] (rel.toList.splitOn '/') with
    | some safe => if safe = [] then .error (.unsafePath rel) else .ok safe
    | none => .error (.unsafePath rel)

/-- A name before its last dot and after it; a leading dot alone is no such. -/
def stemExtension (name : List Char) : List Char × Option (List Char) :=
  let after := name.reverse.takeWhile (· ≠ '.')
  let stem := (name.reverse.drop (after.length + 1)).reverse
  if '.' ∉ name ∨ stem = [] then (name, none) else (stem, some after.reverse)

/-- The name before its extension, the number after it. -/
def numbered (name : String) (n : Nat) : String :=
  match stemExtension name.toList with
  | (stem, some ext) => String.ofList (stem ++ '-' :: (Nat.toDigits 10 n ++ '.' :: ext))
  | (stem, none) => String.ofList (stem ++ '-' :: Nat.toDigits 10 n)

/-- The `n`-th name a file may be given. -/
def slotName (intended : Path) (n : Nat) : Path :=
  if n = 1 then intended else intended.dropLast ++ [numbered (intended.getLastD "file") n]

/-! ## The area -/

structure StagingArea where
  shareId : String

namespace StagingArea

def component (self : StagingArea) : String := String.ofList (hex (pathBytes self.shareId))

def dir (self : StagingArea) : Path := [stagingDir, self.component]

def stagingPath (self : StagingArea) (finalRel : String) : Except FetchedError Path :=
  (sanitizeRelPath finalRel).map (self.dir ++ ·)

def progressMarkerPath (self : StagingArea) : Path := self.dir ++ [stagingDir, "progress"]

end StagingArea

/-- A program's I/O error as the store's. -/
def io {α : Type} (m : Sys IoError α) : Sys FetchedError α := m.mapError .io

theorem io_of {α : Type} {m : Sys IoError α} {d d' : Disk} {r : Except IoError α}
    (h : m d = (r, d')) : io m d = (r.mapError .io, d') := by
  rw [io, Sys.mapError, h]

namespace StagingArea

def preallocate (self : StagingArea) (finalRel : String) (size : Nat) : Sys FetchedError Unit := do
  let path ← .ofExcept (self.stagingPath finalRel)
  io (createDirAll path.dropLast)
  io (.call (openOrCreate path))
  io (.call (modify path (resize size)))

def markProgress (self : StagingArea) : Sys FetchedError Unit := do
  let marker := self.progressMarkerPath
  if ← .look fun t => (t.find marker).isSome then pure ()
  else
    io (createDirAll marker.dropLast)
    io (.call (openOrCreate marker))

/-- The chunk must land within the file as it was sized. -/
def writeVerifiedChunk (self : StagingArea) (finalRel : String) (offset : Nat) (bytes : Octets) :
    Sys FetchedError Unit := do
  let path ← .ofExcept (self.stagingPath finalRel)
  let allocated ← io (.call (openFile path))
  if allocated.length < offset + bytes.length then
    .fail (.corrupt s!"chunk at offset {offset} (+{bytes.length} bytes) exceeds the {allocated.length}-byte staged file")
  else
    io (pwriteAll path offset bytes)
    self.markProgress

end StagingArea

/-- The length of a file; a directory has none. -/
def metadata (p : Path) : SysCall (Option Nat) := fun t =>
  match t.find p with
  | some (.file bytes) => .ok (some bytes.length, t)
  | some .dir => .ok (none, t)
  | none => .error (noDirectory t p.dropLast)

/-- Whether two files that are there have the same bytes. -/
def compare (existing candidate : Path) : SysCall Bool := fun t =>
  match t.find existing, t.find candidate with
  | some (.file a), some (.file b) => .ok (a = b, t)
  | _, _ => .error .notFound

/-- What cannot be looked at counts as different. -/
def filesHaveIdenticalContent (existing candidate : Path) : Sys FetchedError Bool := do
  let em ← (Sys.call (metadata existing)).attempt
  let cm ← (Sys.call (metadata candidate)).attempt
  match em, cm with
  | .ok (some e), .ok (some c) => if e = c then io (.call (compare existing candidate)) else pure false
  | _, _ => pure false

/-- The first free slot from the `n`-th on, taken by `create_new`; `fuel` bounds
the names tried. -/
def reserveFrom (intended : Path) : Nat → Nat → Sys FetchedError Path
  | 0, _ => .fail (.io .other)
  | fuel + 1, n => do
    match ← (Sys.call (createNode (slotName intended n) (.file []))).attempt with
    | .ok () => pure (slotName intended n)
    | .error .alreadyExists => reserveFrom intended fuel (n + 1)
    | .error e => .fail (.io e)

/-- There are fewer nodes than names to try. -/
def reserveNoClobberTarget (intended : Path) : Sys FetchedError Path := do
  let nodes ← .look fun t => t.nodes.keys.length
  reserveFrom intended (nodes + 1) 1

/-- A file that is whole, in its place: kept where the same one stands there,
else under the first free name. -/
def StagingArea.promote (self : StagingArea) (finalRel : String) : Sys FetchedError Path := do
  let staging ← .ofExcept (self.stagingPath finalRel)
  let intended ← .ofExcept (sanitizeRelPath finalRel)
  io (createDirAll intended.dropLast)
  if ← filesHaveIdenticalContent intended staging then
    io (.call (removeFile staging))
    pure intended
  else
    let target ← reserveNoClobberTarget intended
    io (.call (rename staging target))
    pure target

/-- What destroying the area leaves: below it what could not be removed, the
reserved directory or not, all else as it was. -/
structure StagingArea.Destroyed (area : StagingArea) (t t' : Tree) : Prop where
  below : ∀ p, area.dir <+: p → t'.find p = none ∨ t'.find p = t.find p
  reserved : t'.find [stagingDir] = t.find [stagingDir] ∨
    t.find [stagingDir] = some .dir ∧ t'.find [stagingDir] = none
  elsewhere : ∀ p, ¬ area.dir <+: p → p ≠ [stagingDir] → t'.find p = t.find p

/-! ## Resuming -/

def chunkRegion (index size : Nat) : Nat × Nat :=
  let offset := index * chunkSize
  if size ≤ offset then (offset, 0) else (offset, min (offset + chunkSize) size - offset)

variable (chunkAddr : Octets → Except String ChunkAddr)

def readRegionAt (candidate : Octets) (offset len : Nat) : Option Octets :=
  if candidate.length < offset + len then none else some (region offset len candidate)

def chunkVerifiesIn (candidate : Option Octets) (offset len : Nat) (addr : ChunkAddr) : Bool :=
  match candidate with
  | none => false
  | some bytes =>
    match readRegionAt bytes offset len with
    | none => false
    | some chunk =>
      match chunkAddr chunk with
      | .ok found => found = addr
      | .error _ => false

/-- A file of this size that can be read. -/
def openCandidate (t : Tree) (path : Except FetchedError Path) (size : Nat) : Option Octets :=
  match path with
  | .error _ => none
  | .ok p =>
    match t.find p with
    | some (.file bytes) => if bytes.length = size then some bytes else none
    | _ => none

structure FileResume where
  relPath : String
  size : Nat
  totalChunks : Nat
  verified : List Nat
  missing : List Nat
  promotedComplete : Bool
  deriving DecidableEq

/-- The chunks a list of addresses needs for a size. -/
def expectedChunks (size : Nat) : Nat := divCeil size chunkSize

/-- One file's entry of `derive_resume_state`. -/
def deriveFile (staging : StagingArea) (t : Tree) (relPath : String) (size : Nat)
    (chunks : List ChunkAddr) : FileResume :=
  let indices := List.range chunks.length
  if chunks.length ≠ expectedChunks size then ⟨relPath, size, chunks.length, [], indices, false⟩
  else
    let verifies := fun (candidate : Option Octets) (i : Nat) =>
      match chunks[i]? with
      | some addr =>
        chunkVerifiesIn chunkAddr candidate (chunkRegion i size).1 (chunkRegion i size).2 addr
      | none => false
    let staged := openCandidate t (staging.stagingPath relPath) size
    let promoted := openCandidate t (sanitizeRelPath relPath) size
    ⟨relPath, size, chunks.length, indices.filter (verifies staged),
      indices.filter fun i => !verifies staged i,
      promoted.isSome && indices.all (verifies promoted)⟩

def deriveResumeState (staging : StagingArea) (t : Tree) (manifest : List ManifestEntry) :
    List FileResume :=
  manifest.map fun entry => deriveFile chunkAddr staging t entry.relPath entry.size.val entry.chunks

section

variable {chunkAddr}

theorem chunkVerifiesIn_true {candidate : Option Octets} {offset len : Nat} {addr : ChunkAddr}
    (h : chunkVerifiesIn chunkAddr candidate offset len addr = true) :
    ∃ bytes, candidate = some bytes ∧ chunkAddr (region offset len bytes) = .ok addr := by
  unfold chunkVerifiesIn at h
  split at h
  · cases h
  · rename_i bytes
    unfold readRegionAt at h
    split at h
    · cases h
    · rename_i chunk read
      split at read
      · cases read
      · cases read
        split at h
        · rename_i found hash
          exact ⟨bytes, rfl, of_decide_eq_true h ▸ hash⟩
        · cases h

theorem openCandidate_some {t : Tree} {path : Except FetchedError Path} {size : Nat}
    {bytes : Octets} (h : openCandidate t path size = some bytes) :
    ∃ p, path = .ok p ∧ t.find p = some (.file bytes) ∧ bytes.length = size := by
  unfold openCandidate at h
  split at h
  · cases h
  · rename_i p
    split at h
    · rename_i held
      split at h
      · cases h
        exact ⟨p, rfl, held, ‹_›⟩
      · cases h
    · cases h

end

/-! ## Safe paths -/

theorem isReserved_stagingDir : isReserved stagingDir.toList = true := by decide

theorem pushSegments_safe {safe p : Path} {segs : List (List Char)}
    (h : pushSegments safe segs = some p) (clean : stagingDir ∉ safe) : stagingDir ∉ p := by
  induction segs generalizing safe with
  | nil =>
    obtain rfl := Option.some.inj h
    exact clean
  | cons seg rest ih =>
    unfold pushSegments at h
    split at h
    · exact ih h clean
    · split at h
      · cases h
      · rename_i free
        split at h
        · cases h
        · refine ih h fun held => ?_
          rcases List.mem_append.1 held with held | held
          · exact clean held
          · refine free ?_
            rw [← String.toList_ofList (l := seg), ← List.mem_singleton.1 held]
            exact isReserved_stagingDir

/-- A safe path names something, and not the reserved directory. -/
theorem sanitize_safe {rel : String} {p : Path} (h : sanitizeRelPath rel = .ok p) :
    p ≠ [] ∧ stagingDir ∉ p := by
  unfold sanitizeRelPath at h
  split at h
  · cases h
  · split at h
    · cases h
    · split at h
      · rename_i safe pushed
        split at h
        · cases h
        · rename_i named
          cases h
          exact ⟨named, pushSegments_safe pushed (by simp)⟩
      · cases h

theorem slotName_length {p : Path} (named : p ≠ []) (n : Nat) : (slotName p n).length = p.length := by
  unfold slotName
  split
  · rfl
  · have := List.length_pos_iff.2 named
    simp only [List.length_append, List.length_dropLast, List.length_singleton]
    omega

/-- No slot is in the staging area. -/
theorem slotName_outside (area : StagingArea) {p : Path} (named : p ≠ []) (clean : stagingDir ∉ p)
    (n : Nat) : ¬ area.dir <+: slotName p n := by
  rintro ⟨rest, h⟩
  have len := congrArg List.length h
  rw [slotName_length named] at len
  unfold slotName at h
  split at h
  · exact clean (h ▸ by simp [StagingArea.dir])
  · simp only [StagingArea.dir, List.length_append, List.length_cons, List.length_nil] at len
    have first : (p.dropLast ++ [numbered (p.getLastD "file") n]).head? = p.dropLast.head? := by
      cases hd : p.dropLast with
      | nil =>
        have := congrArg List.length hd
        rw [List.length_dropLast] at this
        simp only [List.length_nil] at this
        omega
      | cons => rfl
    rw [← h] at first
    have held : stagingDir ∈ p.dropLast := List.mem_of_mem_head? (by rw [← first]; rfl)
    exact clean (List.dropLast_subset p held)

/-! ## What the area's operations do -/

namespace StagingArea

variable {self : StagingArea} {rel : String} {p : Path} {d d' : Disk}

theorem stagingPath_safe (safe : sanitizeRelPath rel = .ok p) :
    self.stagingPath rel = .ok (self.dir ++ p) := by
  rw [stagingPath, safe]
  rfl

theorem staged_ne : self.dir ++ p ≠ [] := by simp [dir]

theorem stagingPath_unsafe {e : FetchedError} (bad : sanitizeRelPath rel = .error e) :
    self.stagingPath rel = .error e := by
  rw [stagingPath, bad]
  rfl

theorem preallocate_unsafe {e : FetchedError} (bad : sanitizeRelPath rel = .error e) {size : Nat} :
    self.preallocate rel size d = (.error e, d) := by
  rw [preallocate, stagingPath_unsafe bad, Sys.ofExcept_error_bind]

theorem write_unsafe {e : FetchedError} (bad : sanitizeRelPath rel = .error e) {offset : Nat}
    {bytes : Octets} : self.writeVerifiedChunk rel offset bytes d = (.error e, d) := by
  rw [writeVerifiedChunk, stagingPath_unsafe bad, Sys.ofExcept_error_bind]

theorem promote_unsafe {e : FetchedError} (bad : sanitizeRelPath rel = .error e) :
    self.promote rel d = (.error e, d) := by
  rw [promote, stagingPath_unsafe bad, Sys.ofExcept_error_bind]

theorem not_prefix_dropLast {q : Path} (named : q ≠ []) : ¬ q <+: q.dropLast := by
  intro h
  have len := h.length_le
  have := List.length_pos_iff.2 named
  rw [List.length_dropLast] at len
  omega

variable (self) in
/-- No staged file is the marker, and none is above it. -/
theorem marker_apart (clean : stagingDir ∉ p) (named : p ≠ []) :
    ¬ self.dir ++ p <+: self.progressMarkerPath := by
  rintro ⟨rest, h⟩
  simp only [progressMarkerPath, List.append_assoc, List.append_cancel_left_eq] at h
  cases p with
  | nil => exact named rfl
  | cons name p =>
    simp only [List.cons_append, List.cons.injEq] at h
    exact clean (h.1 ▸ List.mem_cons_self)

section

variable (safe : sanitizeRelPath rel = .ok p)

include safe

theorem preallocate_within (size : Nat) :
    Sys.Within (Changes (· <+: (self.dir ++ p).dropLast) (· = self.dir ++ p))
      (self.preallocate rel size) := by
  have apart : ∀ q, q <+: (self.dir ++ p).dropLast → ¬ q = self.dir ++ p := fun q above e =>
    not_prefix_dropLast staged_ne (e ▸ above)
  unfold preallocate
  rw [stagingPath_safe safe, Sys.ofExcept_ok_bind]
  refine .bind_changes apart (((createDirAll_within _).mono fun _ _ => Dirs.changes).mapError) fun _ => ?_
  refine .bind_changes apart (openOrCreate_within _).mapError fun _ => ?_
  exact (modify_within _ _).mapError

theorem preallocate_ok {size : Nat} (done : self.preallocate rel size d = (.ok (), d')) :
    ∃ old, (d.tree.find (self.dir ++ p) = some (.file old) ∨
        d.tree.find (self.dir ++ p) = none ∧ old = []) ∧
      d'.tree.find (self.dir ++ p) = some (.file (resize size old)) := by
  unfold preallocate at done
  rw [stagingPath_safe safe, Sys.ofExcept_ok_bind] at done
  obtain ⟨_, d₁, dirs, done⟩ := Sys.bind_ok done
  obtain ⟨_, d₂, opened, done⟩ := Sys.bind_ok done
  have same : d₁.tree.find (self.dir ++ p) = d.tree.find (self.dir ++ p) := by
    have within := createDirAll_within (self.dir ++ p).dropLast d
    rw [Sys.mapError_ok dirs] at within
    exact within.outside (not_prefix_dropLast staged_ne)
  obtain ⟨⟨old, now, before⟩, -⟩ :=
    openOrCreate_changes (Sys.callCut_ok (Sys.mapError_ok opened))
  obtain ⟨old', held, sized⟩ := modify_ok (Sys.callCut_ok (Sys.mapError_ok done))
  obtain rfl : old' = old := by simpa using held.symm.trans now
  exact ⟨old', same ▸ before, (sized _).trans (if_pos rfl)⟩

end

variable (self) in
theorem markProgress_within :
    Sys.Within (Changes (· <+: self.dir ++ [stagingDir]) (· = self.progressMarkerPath))
      self.markProgress := by
  have apart : ∀ q, q <+: self.dir ++ [stagingDir] → ¬ q = self.progressMarkerPath := by
    intro q above e
    have len := (e ▸ above : self.progressMarkerPath <+: _).length_le
    simp [progressMarkerPath] at len
  have parent : self.progressMarkerPath.dropLast = self.dir ++ [stagingDir] := by
    simp [progressMarkerPath, dir]
  intro d
  unfold markProgress
  rw [Sys.look_bind]
  split
  · exact .refl
  · refine Sys.Within.bind_changes apart ?_ (fun _ => (openOrCreate_within _).mapError) d
    rw [parent]
    exact ((createDirAll_within _).mono fun _ _ => Dirs.changes).mapError

section

variable (safe : sanitizeRelPath rel = .ok p)

include safe

theorem write_within (offset : Nat) (bytes : Octets) :
    Sys.Within (Changes (· <+: self.dir ++ [stagingDir])
        (fun q => q = self.dir ++ p ∨ q = self.progressMarkerPath))
      (self.writeVerifiedChunk rel offset bytes) := by
  obtain ⟨named, clean⟩ := sanitize_safe safe
  have apart : ∀ q, q <+: self.dir ++ [stagingDir] →
      ¬ (q = self.dir ++ p ∨ q = self.progressMarkerPath) := by
    rintro q above (rfl | rfl)
    · refine marker_apart self clean named (above.trans ?_)
      exact ⟨["progress"], by simp [progressMarkerPath]⟩
    · have len := above.length_le
      simp [progressMarkerPath] at len
  unfold writeVerifiedChunk
  rw [stagingPath_safe safe, Sys.ofExcept_ok_bind]
  refine .bind_changes apart ?_ fun allocated => ?_
  · refine (Sys.Within.callCut (fun _ => .refl) (fun t a t' h => ?_) fun _ _ => .refl).mapError
    rw [(openFile_ok h).1]
    exact .refl
  · split
    · exact .fail fun _ => .refl
    · refine .bind_changes apart (Sys.Within.mapError (.mono (pwriteAll_within _ _ _)
        fun _ _ h => Changes.mono (D := (· <+: self.dir ++ [stagingDir])) h ?_ ?_)) fun _ => ?_
      · exact fun _ => id
      · exact fun _ => .inl
      · exact (markProgress_within self).mono fun _ _ h => h.mono (fun _ => id) fun _ => .inr

theorem write_ok {offset : Nat} {bytes : Octets}
    (done : self.writeVerifiedChunk rel offset bytes d = (.ok (), d')) :
    ∃ old, d.tree.find (self.dir ++ p) = some (.file old) ∧ offset + bytes.length ≤ old.length ∧
      d'.tree.find (self.dir ++ p) = some (.file (splice offset bytes old)) := by
  obtain ⟨named, clean⟩ := sanitize_safe safe
  unfold writeVerifiedChunk at done
  rw [stagingPath_safe safe, Sys.ofExcept_ok_bind] at done
  obtain ⟨allocated, d₁, opened, done⟩ := Sys.bind_ok done
  obtain ⟨same, held⟩ := openFile_ok (Sys.callCut_ok (Sys.mapError_ok opened))
  split at done
  · cases done
  · rename_i inside
    obtain ⟨_, d₂, wrote, marked⟩ := Sys.bind_ok done
    obtain ⟨old, held', now⟩ := modify_ok (Sys.callCut_ok (Sys.mapError_ok wrote))
    cases (same ▸ held' : d.tree.find _ = _).symm.trans held
    refine ⟨allocated, held, by omega, ?_⟩
    have kept := markProgress_within self d₂
    rw [marked] at kept
    refine kept.spares (fun e => ?_) ((now _).trans (if_pos rfl))
    exact marker_apart self clean named (e ▸ List.prefix_rfl)

end

end StagingArea

/-! ## A file in its place -/

/-- A look changes nothing. -/
theorem metadata_within (p : Path) : Sys.Within (fun t t' => t' = t) (Sys.call (metadata p)) := by
  refine .callCut (fun _ => rfl) (fun t a t' h => ?_) fun _ _ => rfl
  unfold metadata at h
  split at h <;> cases h <;> rfl

theorem compare_ok {existing candidate : Path} {t t' : Tree} {same : Bool}
    (h : compare existing candidate t = .ok (same, t')) :
    t' = t ∧ ∃ a b, t.find existing = some (.file a) ∧ t.find candidate = some (.file b) ∧
      same = decide (a = b) := by
  unfold compare at h
  split at h
  · rename_i a b hold hnew
    cases h
    exact ⟨rfl, a, b, hold, hnew, rfl⟩
  · cases h

theorem identical_within (existing candidate : Path) :
    Sys.Within (fun t t' => t' = t) (filesHaveIdenticalContent existing candidate) := by
  have trans : ∀ t₁ t₂ t₃ : Tree, t₂ = t₁ → t₃ = t₂ → t₃ = t₁ := fun _ _ _ h h' => h'.trans h
  unfold filesHaveIdenticalContent
  refine .bind trans (metadata_within _).attempt fun em => ?_
  refine .bind trans (metadata_within _).attempt fun cm => ?_
  split
  · split
    · have same : Sys.Within (fun t t' => t' = t) (Sys.call (compare existing candidate)) :=
        .callCut (fun _ => rfl) (fun _ _ _ h => (compare_ok h).1) fun _ _ => rfl
      exact same.mapError
    · exact .pure fun _ => rfl
  · exact .pure fun _ => rfl

theorem identical_true {existing candidate : Path} {d d' : Disk}
    (h : filesHaveIdenticalContent existing candidate d = (.ok true, d')) :
    ∃ bytes, d.tree.find existing = some (.file bytes) ∧
      d.tree.find candidate = some (.file bytes) := by
  have here := metadata_within existing d
  unfold filesHaveIdenticalContent at h
  rw [Sys.attempt_bind] at h
  rcases looked : Sys.call (metadata existing) d with ⟨em, d₁⟩
  rw [looked] at h here
  have there := metadata_within candidate d₁
  rw [Sys.attempt_bind] at h
  rcases looked' : Sys.call (metadata candidate) d₁ with ⟨cm, d₂⟩
  rw [looked'] at h there
  match em, cm with
  | .ok (some e), .ok (some c) =>
    change (if e = c then io (.call (compare existing candidate)) else pure false) d₂ = _ at h
    split at h
    · obtain ⟨-, a, b, hold, hnew, same⟩ := compare_ok (Sys.callCut_ok (Sys.mapError_ok h))
      rw [there, here] at hold hnew
      obtain rfl := of_decide_eq_true same.symm
      exact ⟨a, hold, hnew⟩
    · cases h
  | .ok none, _ => cases h
  | .error _, _ => cases h
  | .ok (some _), .ok none => cases h
  | .ok (some _), .error _ => cases h

section

variable {intended : Path} {fuel n : Nat} {d d' : Disk}

/-- The slot taken was the first free one. -/
theorem reserveFrom_ok {target : Path} (h : reserveFrom intended fuel n d = (.ok target, d')) :
    ∃ k, n ≤ k ∧ target = slotName intended k ∧ d.tree.find target = none ∧
      (∀ m, n ≤ m → m < k → d.tree.find (slotName intended m) ≠ none) ∧
      ∀ q, d'.tree.find q = if q = target then some (.file []) else d.tree.find q := by
  induction fuel generalizing n d with
  | zero => cases h
  | succ fuel ih =>
    unfold reserveFrom at h
    rw [Sys.attempt_bind] at h
    rcases tried : Sys.call (createNode (slotName intended n) (.file [])) d with ⟨r, d₁⟩
    rw [tried] at h
    cases r with
    | ok _ =>
      cases h
      obtain ⟨free, -, now⟩ := createNode_ok (Sys.callCut_ok tried)
      exact ⟨n, le_rfl, rfl, free, fun m lo hi => by omega, now⟩
    | error e =>
      have same := Sys.call_error tried
      cases e with
      | alreadyExists =>
        obtain ⟨k, lo, slot, free, before, now⟩ := ih h
        rw [same] at free before now
        refine ⟨k, by omega, slot, free, fun m hm hk => ?_, now⟩
        rcases Nat.lt_or_eq_of_le hm with later | rfl
        · exact before m later hk
        · exact createNode_taken (Sys.call_refused tried (by simp))
      | _ => cases h

theorem reserveFrom_error {e : FetchedError} (h : reserveFrom intended fuel n d = (.error e, d')) :
    d'.tree = d.tree := by
  induction fuel generalizing n d with
  | zero =>
    cases h
    rfl
  | succ fuel ih =>
    unfold reserveFrom at h
    rw [Sys.attempt_bind] at h
    rcases tried : Sys.call (createNode (slotName intended n) (.file [])) d with ⟨r, d₁⟩
    rw [tried] at h
    cases r with
    | ok _ => cases h
    | error e =>
      have same := Sys.call_error tried
      cases e with
      | alreadyExists => rw [ih h, same]
      | _ =>
        cases h
        exact same

end

/-- How moving a file from `staged` to its place may end. -/
inductive Promotion (staged intended : Path) (t : Tree) : Except FetchedError Path → Tree → Prop
  | failed {e t'} (dirs : Dirs (· <+: intended.dropLast) t t') : Promotion _ _ _ (.error e) t'
  /-- The name was taken and the file not moved onto it. -/
  | half {e n t₁ t'} (dirs : Dirs (· <+: intended.dropLast) t t₁)
    (free : t₁.find (slotName intended n) = none)
    (now : ∀ q, t'.find q = if q = slotName intended n then some (.file []) else t₁.find q) :
    Promotion _ _ _ (.error e) t'
  | kept {bytes t₁ t'} (dirs : Dirs (· <+: intended.dropLast) t t₁)
    (there : t.find intended = some (.file bytes)) (held : t.find staged = some (.file bytes))
    (now : ∀ q, t'.find q = if q = staged then none else t₁.find q) :
    Promotion _ _ _ (.ok intended) t'
  | moved {bytes n t₁ t'} (dirs : Dirs (· <+: intended.dropLast) t t₁)
    (held : t.find staged = some (.file bytes)) (free : t₁.find (slotName intended n) = none)
    (first : ∀ m, 1 ≤ m → m < n → t₁.find (slotName intended m) ≠ none)
    (now : ∀ q, t'.find q = if q = slotName intended n then some (.file bytes)
      else if q = staged then none else t₁.find q) :
    Promotion _ _ _ (.ok (slotName intended n)) t'

/-- No file but the staged one is touched. -/
theorem Promotion.spares {staged intended : Path} {t t' : Tree} {result : Except FetchedError Path}
    (h : Promotion staged intended t result t') {q : Path} {bytes : Octets} (other : q ≠ staged)
    (held : t.find q = some (.file bytes)) : t'.find q = some (.file bytes) := by
  cases h with
  | failed dirs => exact dirs.file.2 held
  | half dirs free now =>
    have stays := dirs.file.2 held
    rw [now, if_neg, stays]
    rintro rfl
    cases free.symm.trans stays
  | kept dirs there staged now =>
    rw [now, if_neg other]
    exact dirs.file.2 held
  | moved dirs staged free first now =>
    have stays := dirs.file.2 held
    rw [now, if_neg, if_neg other, stays]
    rintro rfl
    cases free.symm.trans stays

namespace StagingArea

variable {self : StagingArea} {rel : String} {p : Path}

variable (self) in
theorem slot_ne_staged (named : p ≠ []) (n : Nat) : self.dir ++ p ≠ slotName p n := by
  intro e
  have len := congrArg List.length e
  rw [slotName_length named, List.length_append] at len
  simp only [dir, List.length_cons, List.length_nil] at len
  omega

variable (self) in
theorem promote_spec (safe : sanitizeRelPath rel = .ok p) (d : Disk) :
    Promotion (self.dir ++ p) p d.tree (self.promote rel d).1 (self.promote rel d).2.tree := by
  have named := (sanitize_safe safe).1
  unfold promote
  rw [stagingPath_safe safe, Sys.ofExcept_ok_bind, safe, Sys.ofExcept_ok_bind]
  have dirs := createDirAll_within p.dropLast d
  rcases made : createDirAll p.dropLast d with ⟨r, d₁⟩
  rw [made] at dirs
  cases r with
  | error e =>
    rw [Sys.bind_of_error (io_of made)]
    exact .failed dirs
  | ok _ =>
    rw [Sys.bind_of_ok (io_of made)]
    have looked := identical_within p (self.dir ++ p) d₁
    rcases same : filesHaveIdenticalContent p (self.dir ++ p) d₁ with ⟨r, d₂⟩
    rw [same] at looked
    replace dirs : Dirs (· <+: p.dropLast) d.tree d₂.tree := looked ▸ dirs
    cases r with
    | error e =>
      rw [Sys.bind_of_error same]
      exact .failed dirs
    | ok b =>
      rw [Sys.bind_of_ok same]
      cases b with
      | true =>
        obtain ⟨bytes, there, held⟩ := identical_true same
        rcases gone : Sys.call (removeFile (self.dir ++ p)) d₂ with ⟨r, d₃⟩
        cases r with
        | error e =>
          have left := Sys.call_error gone
          simp only [if_true]
          rw [Sys.bind_of_error (io_of gone)]
          exact .failed (left ▸ dirs)
        | ok _ =>
          simp only [if_true]
          rw [Sys.bind_of_ok (io_of gone)]
          rw [← looked] at there held
          exact .kept dirs (dirs.file.1 there) (dirs.file.1 held) (removeFile_ok (Sys.callCut_ok gone)).2
      | false =>
        simp only [Bool.false_eq_true, if_false]
        rcases took : reserveNoClobberTarget p d₂ with ⟨r, d₃⟩
        cases r with
        | error e =>
          rw [Sys.bind_of_error took]
          exact .failed ((reserveFrom_error took).symm ▸ dirs)
        | ok target =>
          obtain ⟨n, -, rfl, free, first, now⟩ := reserveFrom_ok took
          rw [Sys.bind_of_ok took]
          rcases moved : Sys.call (rename (self.dir ++ p) (slotName p n)) d₃ with ⟨r, d₄⟩
          cases r with
          | error e =>
            have left := Sys.call_error moved
            rw [Sys.bind_of_error (io_of moved)]
            exact .half dirs free (left ▸ now)
          | ok _ =>
            have apart := slot_ne_staged self named n
            obtain ⟨bytes, held, there⟩ := rename_ok apart (Sys.callCut_ok moved)
            rw [now, if_neg apart] at held
            rw [Sys.bind_of_ok (io_of moved)]
            refine .moved dirs (dirs.file.1 held) free (fun m lo hi => first m lo hi) fun q => ?_
            refine (there q).trans ?_
            rw [now]
            by_cases e : q = slotName p n
            · rw [if_pos e, if_pos e]
            · simp only [if_neg e]

end StagingArea

end Daemonseed.Storage.Fetched
