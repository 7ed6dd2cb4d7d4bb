import Mathlib.Data.List.Sort
import Daemonseed.Lib.Files
import Daemonseed.Lib.Maps
import Daemonseed.Lib.Results
import Daemonseed.Lib.Streams
import Daemonseed.Net.HonestSharer

/-! # What a shared folder is served from

A folder is indexed into memory, or hashed chunk by chunk and served from disk.
The hash of a chunk is a parameter, which may refuse. -/
namespace Daemonseed.Net.ShareContent
open Daemonseed.Lib Daemonseed.Lib.Bytes Daemonseed.Lib.Files Daemonseed.Lib.Maps Daemonseed.Lib.Streams
open Daemonseed.Net.HonestSharer Daemonseed.Net.ShareFrames Daemonseed.Net.ShareServe

inductive ServeError
  | io (e : IoError)
  | cas (message : String)
  | cancelled
  | unknownChunk
  | chunkModified (relPath : String)
  deriving DecidableEq

/-- Where a file stands below the root of its share. -/
@[ext] structure RelPath where
  parts : Path
  named : parts ≠ []
  clean : ∀ part ∈ parts, '/' ∉ part.toList
  deriving DecidableEq

/-- The path a manifest names the file by. -/
def shareRelPath (p : RelPath) : String :=
  String.ofList (['/'].intercalate (p.parts.map String.toList))

/-- The path below the root that a manifest's path stands for. -/
def joinRel (relPath : String) : Path := (relPath.toList.splitOn '/').map String.ofList

/-- A file that is open: its length as the file system gives it, and what the
reads from an offset on are answered. -/
structure OpenFile where
  len : Except IoError (Fin (2 ^ 64))
  from_ : Nat → Stream IoError

/-- What opening a file below the root comes to. -/
abbrev Disk := Path → Except IoError OpenFile

/-- The open file has these bytes, however short its reads are. -/
structure OpenFile.Holds (f : OpenFile) (bytes : Octets) : Prop where
  len : ∃ n, f.len = .ok n ∧ n.val = bytes.length
  reads : ∀ offset, readToEnd (f.from_ offset) = .ok (bytes.drop offset)

/-! ## The hash pass -/

/-- The pieces of `width` bytes, of which the last may be shorter. -/
def chunks (width : Nat) (bytes : Octets) : List Octets :=
  (List.range (divCeil bytes.length width)).map (piece width bytes)

variable (chunkAddr : Octets → Except String ChunkAddr)

/-- The addresses of a file's chunks and the bytes read. `cancelled` is what the
flag says at each check. -/
def hashChunks (cancelled : Nat → Bool) (check : Nat) (s : Stream IoError) :
    Except ServeError (List ChunkAddr × Nat) :=
  if cancelled check then .error .cancelled
  else
    match _read : readToFill chunkSize s with
    | (.error e, _) => .error (.io e)
    | (.ok bytes, rest) =>
      if _some : bytes = [] then .ok ([], 0)
      else
        match chunkAddr bytes with
        | .error e => .error (.cas e)
        | .ok addr =>
          if bytes.length < chunkSize then .ok ([addr], bytes.length)
          else (hashChunks cancelled (check + 1) rest).map fun later =>
            (addr :: later.1, bytes.length + later.2)
termination_by size s
decreasing_by
  have less := (readToFill_ok _read).2.2.2
  have pos := List.length_pos_iff.2 _some
  omega

def hashFileChunks (cancelled : Nat → Bool) (s : Stream IoError) :
    Except ServeError (List ChunkAddr × Nat) := hashChunks chunkAddr cancelled 0 s

/-- The files of a walk, in the order of their paths. -/
def shareFiles (walk : List RelPath) : List RelPath :=
  walk.mergeSort fun a b => decide (a.parts ≤ b.parts)

/-- One file of the hash pass. The flag is read once before it, and then before
each of its chunks. -/
def hashFile (disk : Disk) (cancelled : Nat → Bool) (p : RelPath) : Except ServeError ManifestEntry :=
  if cancelled 0 then .error .cancelled
  else
    match disk p.parts with
    | .error e => .error (.io e)
    | .ok file => (hashFileChunks chunkAddr (fun check => cancelled (check + 1)) (file.from_ 0)).map
        fun hashed => ⟨shareRelPath p, Fin.ofNat _ hashed.2, hashed.1⟩

/-- The manifest of a folder. `cancelled` is what the flag says at each check of
each file. -/
def hashShare (disk : Disk) (cancelled : RelPath → Nat → Bool) (walk : List RelPath) :
    Except ServeError (List ManifestEntry) :=
  (shareFiles walk).mapM fun p => hashFile chunkAddr disk (cancelled p) p

/-! ## Content in memory -/

structure MemEntry where
  bytes : Octets
  refs : Nat

abbrev MemoryChunkStore := Map ChunkAddr MemEntry

/-- One more reference to a chunk, which is kept as it was first put. -/
def MemoryChunkStore.put (store : MemoryChunkStore) (chunk : Octets) :
    Except String (ChunkAddr × MemoryChunkStore) :=
  (chunkAddr chunk).map fun addr =>
    (addr, store.insert addr <|
      (store.lookup addr).elim ⟨chunk, 1⟩ fun entry => { entry with refs := entry.refs + 1 })

def MemoryChunkStore.get (store : MemoryChunkStore) (addr : ChunkAddr) : Option Octets :=
  (store.lookup addr).map (·.bytes)

structure InMemory where
  manifest : List ManifestEntry
  store : MemoryChunkStore

/-- Every chunk of a manifest, with the file it is of and its place there. -/
def slots (manifest : List ManifestEntry) : List (ChunkAddr × Nat × Nat) :=
  manifest.zipIdx.flatMap fun entry => entry.1.chunks.zipIdx.map fun chunk =>
    (chunk.1, entry.2, chunk.2)

/-- A manifest, and for each address the first chunk that has it. -/
structure OnDisk where
  manifest : List ManifestEntry
  byAddr : Map ChunkAddr (Nat × Nat)
  located : ∀ addr slot, byAddr.lookup addr = some slot →
    ∃ entry, manifest[slot.1]? = some entry ∧ entry.chunks[slot.2]? = some addr

/-- The first of an address stays. -/
def locate (byAddr : Map ChunkAddr (Nat × Nat)) (slot : ChunkAddr × Nat × Nat) :
    Map ChunkAddr (Nat × Nat) :=
  if (byAddr.lookup slot.1).isSome then byAddr else byAddr.insert slot.1 slot.2

variable {chunkAddr}

theorem mem_slots {manifest : List ManifestEntry} {addr : ChunkAddr} {i c : Nat} :
    (addr, i, c) ∈ slots manifest ↔
      ∃ entry, manifest[i]? = some entry ∧ entry.chunks[c]? = some addr := by
  unfold slots
  simp only [List.mem_flatMap, List.mem_map, Prod.exists, List.mem_zipIdx_iff_getElem?]
  constructor
  · rintro ⟨entry, i', at_, addr', c', at_', e⟩
    obtain ⟨rfl, rfl, rfl⟩ : addr' = addr ∧ i' = i ∧ c' = c := by simpa using e
    exact ⟨entry, at_, at_'⟩
  · rintro ⟨entry, at_, at_'⟩
    exact ⟨entry, i, at_, addr, c, at_', rfl⟩

theorem locate_lookup {all : List (ChunkAddr × Nat × Nat)} {byAddr : Map ChunkAddr (Nat × Nat)}
    {addr : ChunkAddr} : (all.foldl locate byAddr).lookup addr =
      (byAddr.lookup addr).or ((all.find? (·.1 = addr)).map (·.2)) := by
  induction all generalizing byAddr with
  | nil => simp
  | cons slot all ih =>
    rw [List.foldl_cons, ih]
    unfold locate
    by_cases same : slot.1 = addr
    · subst same
      rw [List.find?_cons_of_pos (by simp)]
      cases held : byAddr.lookup slot.1 with
      | none => simp
      | some at_ => simp [held]
    · rw [List.find?_cons_of_neg (by simpa using same)]
      split
      · rfl
      · rw [AList.lookup_insert_ne (Ne.symm same)]

/-- What a manifest is served by from disk. -/
def OnDisk.new (manifest : List ManifestEntry) : OnDisk where
  manifest
  byAddr := (slots manifest).foldl locate ∅
  located addr slot found := by
    rw [locate_lookup, AList.lookup_empty, Option.none_or] at found
    obtain ⟨first, first_found, rfl⟩ := Option.map_eq_some_iff.1 found
    have same : first.1 = addr := by simpa using List.find?_some first_found
    exact mem_slots.1 (same ▸ List.mem_of_find?_eq_some first_found)

/-- The bytes of one chunk of a file, as they are on disk now. -/
def readChunk (disk : Disk) (entry : ManifestEntry) (chunk : Nat) : Except ServeError Octets :=
  match disk (joinRel entry.relPath) with
  | .error e => .error (.io e)
  | .ok file =>
    match file.len with
    | .error e => .error (.io e)
    | .ok onDisk =>
      if onDisk ≠ entry.size then .error (.chunkModified entry.relPath)
      else
        let offset := chunk * chunkSize
        let expected := min (entry.size.val - offset) chunkSize
        match (readToFill expected (file.from_ offset)).1 with
        | .error e => .error (.io e)
        | .ok buf =>
          if buf.length < expected then .error (.chunkModified entry.relPath) else .ok buf

/-- The chunk of an address. Only the lengths are checked: what the bytes hash to
is the receiver's to see. -/
def OnDisk.getChunk (self : OnDisk) (disk : Disk) (addr : ChunkAddr) : Except ServeError Octets :=
  match found : self.byAddr.lookup addr with
  | none => .error .unknownChunk
  | some slot =>
    have inside : slot.1 < self.manifest.length := by
      obtain ⟨entry, at_, -⟩ := self.located addr slot found
      exact (List.getElem?_eq_some_iff.1 at_).1
    readChunk disk self.manifest[slot.1] slot.2

theorem chunks_nil {width : Nat} : chunks width [] = [] := by
  have none_left : divCeil 0 width = 0 := by
    rcases width with _ | width
    · rfl
    · exact Nat.div_eq_of_lt (by omega)
  rw [chunks, List.length_nil, none_left]
  rfl

theorem chunks_cons {width : Nat} {bytes : Octets} (pos : 0 < width) (some_ : bytes ≠ []) :
    chunks width bytes = bytes.take width :: chunks width (bytes.drop width) := by
  have len := List.length_pos_iff.2 some_
  have one_more : divCeil bytes.length width = divCeil (bytes.drop width).length width + 1 := by
    unfold divCeil
    rw [List.length_drop]
    rcases Nat.lt_or_ge width bytes.length with more | last
    · rw [← Nat.add_div_right _ pos]
      congr 1
      omega
    · have sum : bytes.length + width - 1 = (bytes.length - 1) + width := by omega
      rw [Nat.sub_eq_zero_of_le last, sum, Nat.add_div_right _ pos, Nat.div_eq_of_lt (by omega),
        Nat.div_eq_of_lt (by omega)]
  rw [chunks, one_more, List.range_succ_eq_map, List.map_cons, List.map_map, chunks]
  congr 1
  · simp [piece]
  · refine List.map_congr_left fun i _ => ?_
    rw [Function.comp_apply, piece, piece, List.drop_drop, Nat.succ_mul, Nat.add_comm width]

theorem chunks_short {width : Nat} {bytes : Octets} (pos : 0 < width) (some_ : bytes ≠ [])
    (short : bytes.length ≤ width) : chunks width bytes = [bytes] := by
  rw [chunks_cons pos some_, List.take_of_length_le short, List.drop_of_length_le short, chunks_nil]

theorem chunks_full {width : Nat} {front more : Octets} (pos : 0 < width)
    (full : front.length = width) : chunks width (front ++ more) = front :: chunks width more := by
  have some_ : front ++ more ≠ [] := by
    intro none_
    rw [(List.append_eq_nil_iff.1 none_).1] at full
    exact absurd full (Nat.ne_of_lt pos)
  rw [chunks_cons pos some_, ← full, List.take_left, List.drop_left]

theorem getElem_chunks {width c : Nat} {bytes : Octets} (h : c < (chunks width bytes).length) :
    (chunks width bytes)[c] = piece width bytes c := by
  simp [chunks]

theorem chunks_join {width : Nat} {bytes : Octets} (pos : 0 < width) :
    (chunks width bytes).flatten = bytes := by
  rw [chunks, ← List.flatMap_def, pieces_join (divCeil_mul_ge _ pos)]

theorem chunkSize_pos : 0 < chunkSize := by decide

variable {s : Stream IoError} {cancelled : Nat → Bool} {check n : Nat} {addrs : List ChunkAddr}
  {content : Octets}

theorem hashChunks_reads {bytes : Octets} {rest : Stream IoError} (going : ¬ cancelled check = true)
    (read : readToFill chunkSize s = (.ok bytes, rest)) :
    hashChunks chunkAddr cancelled check s =
      if bytes = [] then .ok ([], 0)
      else (chunkAddr bytes).mapError .cas >>= fun addr =>
        if bytes.length < chunkSize then .ok ([addr], bytes.length)
        else (hashChunks chunkAddr cancelled (check + 1) rest).map fun later =>
          (addr :: later.1, bytes.length + later.2) := by
  rw [hashChunks, if_neg going]
  split
  · rename_i other
    cases read.symm.trans other
  · rename_i other
    cases read.symm.trans other
    split
    · rfl
    · cases chunkAddr bytes <;> rfl

/-- **What the hash pass gives is of the whole file**, cut at the same places
however short the reads were. -/
theorem hashChunks_ok (h : hashChunks chunkAddr cancelled check s = .ok (addrs, n)) :
    ∃ content, readToEnd s = .ok content ∧ content.length = n ∧
      (chunks chunkSize content).mapM chunkAddr = .ok addrs := by
  induction check, s using hashChunks.induct chunkAddr cancelled generalizing addrs n with
  | case1 check s stop => simp [hashChunks, stop] at h
  | case2 check s going e rest read =>
    rw [hashChunks, if_neg going] at h
    split at h
    · cases h
    · rename_i other
      cases read.symm.trans other
  | case3 check s going rest read =>
    rw [hashChunks_reads going read, if_pos rfl] at h
    cases h
    exact ⟨[], (readToFill_ok read).2.2.1 chunkSize_pos, rfl, by rw [chunks_nil]; rfl⟩
  | case4 check s going bytes rest read some_ e refused =>
    rw [hashChunks_reads going read, if_neg some_, refused] at h
    cases h
  | case5 check s going bytes rest read some_ addr hashed short =>
    rw [hashChunks_reads going read, if_neg some_, hashed] at h
    change (if _ then _ else _) = _ at h
    rw [if_pos short] at h
    cases h
    refine ⟨bytes, (readToFill_ok read).2.2.1 short, rfl, ?_⟩
    rw [chunks_short chunkSize_pos some_ short.le, List.mapM_cons, hashed]
    rfl
  | case6 check s going bytes rest read some_ addr hashed long ih =>
    rw [hashChunks_reads going read, if_neg some_, hashed] at h
    change (if _ then _ else _) = _ at h
    rw [if_neg long] at h
    obtain ⟨later, more, same⟩ := map_ok.1 h
    obtain ⟨le, full, -, -⟩ := readToFill_ok read
    have all : bytes.length = chunkSize := by omega
    obtain ⟨content, whole, length, each⟩ := ih more
    cases same
    refine ⟨bytes ++ content, ?_, ?_, ?_⟩
    · rw [full all, whole]
      rfl
    · rw [List.length_append, length]
    · rw [chunks_full chunkSize_pos all, List.mapM_cons, hashed]
      exact Results.bind_ok.2 ⟨addr, rfl, Results.bind_ok.2 ⟨later.1, each, rfl⟩⟩

variable (chunkAddr) in
/-- What both passes make of a file with these bytes. -/
def hashed (p : RelPath) (content : Octets) : Except ServeError ManifestEntry :=
  (((chunks chunkSize content).mapM chunkAddr).mapError .cas).map fun addrs =>
    ⟨shareRelPath p, Fin.ofNat _ content.length, addrs⟩

theorem hashChunks_eq (going : ∀ check, ¬ cancelled check = true)
    (whole : readToEnd s = .ok content) :
    hashChunks chunkAddr cancelled check s =
      (((chunks chunkSize content).mapM chunkAddr).mapError .cas).map (·, content.length) := by
  induction check, s using hashChunks.induct chunkAddr cancelled generalizing content with
  | case1 check s stop => exact absurd stop (going check)
  | case2 check s _ e rest read =>
    cases whole.symm.trans (readToFill_error (show (readToFill chunkSize s).1 = .error e by rw [read]))
  | case3 check s _ rest read =>
    rw [hashChunks_reads (going check) read, if_pos rfl]
    obtain rfl := Except.ok.inj (whole.symm.trans ((readToFill_ok read).2.2.1 chunkSize_pos))
    rw [chunks_nil]
    rfl
  | case4 check s _ bytes rest read some_ e refused =>
    rw [hashChunks_reads (going check) read, if_neg some_, refused]
    obtain ⟨_, front⟩ := readToFill_of_end whole chunkSize
    obtain rfl := Except.ok.inj (Prod.mk.inj (read.symm.trans front)).1
    rw [chunks_cons chunkSize_pos (by rintro rfl; exact some_ rfl), List.mapM_cons, refused]
    rfl
  | case5 check s _ bytes rest read some_ addr hashed short =>
    rw [hashChunks_reads (going check) read, if_neg some_, hashed]
    obtain rfl := Except.ok.inj (whole.symm.trans ((readToFill_ok read).2.2.1 short))
    rw [chunks_short chunkSize_pos some_ short.le, List.mapM_cons, hashed]
    exact if_pos short
  | case6 check s _ bytes rest read some_ addr hashed long ih =>
    rw [hashChunks_reads (going check) read, if_neg some_, hashed]
    change (if _ then _ else _) = _
    obtain ⟨le, full, -, -⟩ := readToFill_ok read
    have all : bytes.length = chunkSize := by omega
    obtain ⟨more, later, rfl⟩ := map_ok.1 ((full all).symm.trans whole)
    rw [if_neg long, ih later, chunks_full chunkSize_pos all, List.mapM_cons, hashed,
      List.length_append]
    change _ = Except.map _ (Except.mapError _ (Except.bind _ _))
    cases (chunks chunkSize more).mapM chunkAddr <;> rfl

theorem hashFile_eq {disk : Disk} {p : RelPath} {file : OpenFile}
    (going : ∀ check, ¬ cancelled check = true) (opened : disk p.parts = .ok file)
    (whole : readToEnd (file.from_ 0) = .ok content) :
    hashFile chunkAddr disk cancelled p = hashed chunkAddr p content := by
  rw [hashFile, if_neg (going 0), opened]
  change Except.map _ (hashFileChunks ..) = _
  rw [hashFileChunks, hashChunks_eq (fun check => going _) whole, hashed]
  cases ((chunks chunkSize content).mapM chunkAddr) <;> rfl

/-! ## What each source holds -/

/-- The chunks of the files, each under its address. -/
def stored (contents : RelPath → Octets) (files : List RelPath) (manifest : List ManifestEntry) :
    List (ChunkAddr × Octets) :=
  (manifest.zip files).flatMap fun e => e.1.chunks.zip (chunks chunkSize (contents e.2))

theorem hashed_ok {p : RelPath} {entry : ManifestEntry} :
    hashed chunkAddr p content = .ok entry ↔
      (chunks chunkSize content).mapM chunkAddr = .ok entry.chunks ∧
        entry.relPath = shareRelPath p ∧ entry.size = Fin.ofNat _ content.length := by
  rw [hashed, map_ok]
  simp only [Results.mapError_ok]
  constructor
  · rintro ⟨addrs, each, rfl⟩
    exact ⟨each, rfl, rfl⟩
  · rintro ⟨each, named, sized⟩
    exact ⟨entry.chunks, each, by rw [← named, ← sized]⟩

/-- The files of these bytes are there to be read. -/
def Reads (disk : Disk) (contents : RelPath → Octets) (files : List RelPath) : Prop :=
  ∀ p ∈ files, ∃ file, disk p.parts = .ok file ∧ file.Holds (contents p)

variable {disk : Disk} {contents : RelPath → Octets} {files : List RelPath}

theorem OpenFile.Holds.whole {file : OpenFile} (h : file.Holds content) :
    readToEnd (file.from_ 0) = .ok content := h.reads 0

theorem mem_shareFiles {walk : List RelPath} {p : RelPath} : p ∈ shareFiles walk ↔ p ∈ walk :=
  (List.mergeSort_perm _ _).mem_iff

/-- A manifest that is of these files, with these bytes. -/
def Of (chunkAddr : Octets → Except String ChunkAddr) (contents : RelPath → Octets) :
    List RelPath → List ManifestEntry → Prop :=
  List.Forall₂ fun p entry => hashed chunkAddr p (contents p) = .ok entry

variable {manifest : List ManifestEntry}

theorem Of.chunks_length {p : RelPath} {entry : ManifestEntry}
    (h : hashed chunkAddr p content = .ok entry) :
    entry.chunks.length = divCeil content.length chunkSize := by
  have := (Results.mapM_ok.1 (hashed_ok.1 h).1).length_eq
  rw [← this, chunks, List.length_map, List.length_range]

theorem Of.zip {p : RelPath} {entry : ManifestEntry}
    (h : hashed chunkAddr p content = .ok entry) :
    entry.chunks.zipIdx.map (fun c => (c.1, piece chunkSize content c.2)) =
      entry.chunks.zip (chunks chunkSize content) := by
  have len : entry.chunks.length = (chunks chunkSize content).length := by
    rw [Of.chunks_length h, chunks, List.length_map, List.length_range]
  refine List.ext_getElem (by simp [len]) fun i h₁ h₂ => ?_
  simp [chunks]

/-- The slots of a manifest, each with its chunk's bytes. -/
theorem Of.slots (of : Of chunkAddr contents files manifest) :
    (slots manifest).map (fun slot => (slot.1, piece chunkSize
      ((files[slot.2.1]?.map contents).getD []) slot.2.2)) = stored contents files manifest := by
  let cut (e : ManifestEntry × Octets) :=
    e.1.chunks.zipIdx.map fun c => (c.1, piece chunkSize e.2 c.2)
  have entries : manifest.zipIdx.map (fun e => (e.1, (files[e.2]?.map contents).getD [])) =
      (manifest.zip files).map fun e => (e.1, contents e.2) := by
    have len := of.length_eq
    refine List.ext_getElem (by simp [len]) fun i h₁ h₂ => ?_
    have inside : i < files.length := by
      rw [len]
      simpa using h₁
    simp [inside]
  calc (ShareContent.slots manifest).map _
      = (manifest.zipIdx.map fun e => (e.1, (files[e.2]?.map contents).getD [])).flatMap cut := by
        rw [List.flatMap_map, ShareContent.slots, List.map_flatMap]
        simp only [cut, List.map_map]
        rfl
    _ = ((manifest.zip files).map fun e => (e.1, contents e.2)).flatMap cut := by rw [entries]
    _ = stored contents files manifest := by
        rw [List.flatMap_map, stored]
        refine List.flatMap_congr fun e mem => ?_
        have paired : (e.2, e.1) ∈ files.zip manifest := by
          rw [← List.zip_swap]
          exact List.mem_map_of_mem mem
        exact Of.zip ((List.forall₂_iff_zip.1 of).2 paired)

/-- An address is served from the first chunk that has it. -/
theorem OnDisk.new_lookup (manifest : List ManifestEntry) (addr : ChunkAddr) : (OnDisk.new manifest).byAddr.lookup addr =
    ((slots manifest).find? (·.1 = addr)).map (·.2) := by
  rw [OnDisk.new, locate_lookup, AList.lookup_empty, Option.none_or]

theorem getChunk_found {self : OnDisk} {addr : ChunkAddr} {slot : Nat × Nat} {entry : ManifestEntry}
    (found : self.byAddr.lookup addr = some slot) (at_ : self.manifest[slot.1]? = some entry) :
    self.getChunk disk addr = readChunk disk entry slot.2 := by
  unfold OnDisk.getChunk
  split
  · rename_i none_
    cases none_.symm.trans found
  · rename_i slot' some_
    obtain rfl := Option.some.inj (some_.symm.trans found)
    exact congrArg (readChunk disk · slot'.2) (List.getElem?_eq_some_iff.1 at_).2

theorem getChunk_absent {self : OnDisk} {addr : ChunkAddr}
    (absent : self.byAddr.lookup addr = none) : self.getChunk disk addr = .error .unknownChunk := by
  unfold OnDisk.getChunk
  split
  · rfl
  · rename_i slot' some_
    cases some_.symm.trans absent

/-- What is served from disk has the length its place in the manifest says. -/
theorem readChunk_length {entry : ManifestEntry} {c : Nat} {bytes : Octets}
    (read : readChunk disk entry c = .ok bytes) :
    bytes.length = min (entry.size.val - c * chunkSize) chunkSize := by
  unfold readChunk at read
  split at read
  · cases read
  · split at read
    · cases read
    · split at read
      · cases read
      · dsimp only at read
        split at read
        · cases read
        · rename_i filled
          split at read
          · cases read
          · rename_i long
            cases read
            have le := (readToFill_ok (Prod.ext filled rfl)).1
            omega

theorem readChunk_known {entry : ManifestEntry} {c : Nat} :
    readChunk disk entry c ≠ .error .unknownChunk := by
  unfold readChunk
  split
  · simp
  · split
    · simp
    · split
      · simp
      · dsimp only
        split
        · simp
        · split <;> simp

theorem hashShare_of {cancelled : RelPath → Nat → Bool} {walk : List RelPath}
    (hashes : hashShare chunkAddr disk cancelled walk = .ok manifest) :
    List.Forall₂ (fun p entry => ∃ file content, disk p.parts = .ok file ∧
      readToEnd (file.from_ 0) = .ok content ∧ hashed chunkAddr p content = .ok entry)
      (shareFiles walk) manifest := by
  refine (Results.mapM_ok.1 hashes).imp fun p entry one => ?_
  rw [hashFile] at one
  split at one
  · cases one
  · split at one
    · cases one
    · rename_i file opened
      obtain ⟨chunked, reads, rfl⟩ := map_ok.1 one
      obtain ⟨content, whole, length, each⟩ := hashChunks_ok reads
      exact ⟨file, content, opened, whole, hashed_ok.2 ⟨each, rfl, by rw [length]⟩⟩

theorem slots_known {addr : ChunkAddr} :
    (OnDisk.new manifest).byAddr.lookup addr = none ↔ ∀ e ∈ manifest, addr ∉ e.chunks := by
  rw [OnDisk.new_lookup, Option.map_eq_none_iff, List.find?_eq_none]
  constructor
  · intro none_ e mem held
    obtain ⟨i, at_⟩ := List.mem_iff_getElem?.1 mem
    obtain ⟨c, at_'⟩ := List.mem_iff_getElem?.1 held
    exact none_ _ (mem_slots.2 ⟨e, at_, at_'⟩) (by simp)
  · intro none_ slot mem same
    obtain rfl : slot.1 = addr := by simpa using same
    obtain ⟨e, at_, at_'⟩ := mem_slots.1 mem
    exact none_ e (List.mem_of_getElem? at_) (List.mem_of_getElem? at_')

/-! ## The two sources -/

/-- Each slot of the manifest is a chunk of its file. -/
theorem Of.chunk {i c : Nat} {entry : ManifestEntry} {addr : ChunkAddr}
    (of : Of chunkAddr contents files manifest) (at_ : manifest[i]? = some entry)
    (listed : entry.chunks[c]? = some addr) : ∃ p, files[i]? = some p ∧
      hashed chunkAddr p (contents p) = .ok entry ∧
        chunkAddr (piece chunkSize (contents p) c) = .ok addr := by
  obtain ⟨inside, rfl⟩ := List.getElem?_eq_some_iff.1 at_
  have inside' : i < files.length := of.length_eq ▸ inside
  have hashes : hashed chunkAddr files[i] (contents files[i]) = .ok manifest[i] :=
    of.get inside' inside
  refine ⟨files[i], List.getElem?_eq_getElem inside', hashes, ?_⟩
  obtain ⟨here, rfl⟩ := List.getElem?_eq_some_iff.1 listed
  have each := Results.mapM_ok.1 (hashed_ok.1 hashes).1
  have inside_ : c < (chunks chunkSize (contents files[i])).length := each.length_eq.symm ▸ here
  have one : chunkAddr (chunks chunkSize (contents files[i]))[c] = .ok manifest[i].chunks[c] :=
    each.get inside_ here
  rwa [getElem_chunks] at one

theorem Of.stored (of : Of chunkAddr contents files manifest) (addr : ChunkAddr) :
    ((stored contents files manifest).find? (·.1 = addr)).map (·.2) =
      ((ShareContent.slots manifest).find? (·.1 = addr)).map fun slot =>
        piece chunkSize ((files[slot.2.1]?.map contents).getD []) slot.2.2 := by
  rw [← of.slots, List.find?_map, Option.map_map]
  rfl

/-- A folder of one file, each read of which gives one byte. -/
def bytewise : Disk := fun path =>
  if path = ["song"] then .ok ⟨.ok 3, fun offset => ([1, 2, 3].drop offset).map fun b => .ok [b]⟩
  else .error .notFound

def song : RelPath := ⟨["song"], by decide, by decide⟩

theorem bytewise_reads : Reads bytewise (fun _ => [1, 2, 3]) [song] := by
  intro p mem
  obtain rfl := List.mem_singleton.1 mem
  refine ⟨_, rfl, ⟨3, rfl, rfl⟩, fun offset => ?_⟩
  have each : ∀ bytes : Octets, readToEnd (bytes.map fun b => (.ok [b] : Except IoError Octets)) =
      .ok bytes := by
    intro bytes
    induction bytes with
    | nil => rfl
    | cons b bytes ih =>
      change (if _ then _ else _) = _
      rw [if_neg (List.cons_ne_nil _ _), ih]
      rfl
  exact each _

def songEntry : ManifestEntry where
  relPath := "song"
  size := 3
  chunks := [⟨[1, 2, 3] ++ List.replicate 45 0, by decide⟩]

theorem bytewise_hashed : hashShare toyAddr bytewise (fun _ _ => false) [song] = .ok [songEntry] := by
  obtain ⟨file, opened, holds⟩ := bytewise_reads song (List.mem_singleton_self _)
  have each : (chunks chunkSize [1, 2, 3]).mapM toyAddr = .ok songEntry.chunks := by
    rw [chunks_short chunkSize_pos (by decide) (by decide)]
    rfl
  have one : hashFile toyAddr bytewise (fun _ => false) song = hashed toyAddr song [1, 2, 3] :=
    hashFile_eq (fun _ => Bool.false_ne_true) opened holds.whole
  rw [hashed, each] at one
  rw [hashShare, shareFiles, List.mergeSort_singleton, List.mapM_cons, one]
  rfl

/-- A chunk that is accepted has the address that was asked for. -/
theorem openAndVerifyChunk_ok {gcm : Gcm} {want : ChunkAddr} {blob bytes : Octets}
    (accepted : openAndVerifyChunk chunkAddr gcm want blob = .ok bytes) :
    chunkAddr bytes = .ok want := by
  obtain ⟨frame, -, rest⟩ := Results.bind_ok.1 accepted
  cases frame with
  | chunkResponse got data =>
    dsimp only at rest
    split at rest
    · cases rest
    · obtain ⟨derived, addressed, rest⟩ := Results.bind_ok.1 rest
      split at rest
      · cases rest
      · rename_i same
        cases rest
        rw [Results.mapError_ok.1 addressed, not_not.1 same]
  | _ => cases rest

/-- **Whatever the disk has become, what is fetched is what was hashed.** The
addresses served are those of the manifest, each chunk served has its place's
length, and the chunks of an entry that pass the receiver's check join to the
bytes its file had in the hash pass, unless one of them is another preimage of
its chunk's address. -/
theorem fetched_as_hashed {hashing : Disk} {walk : List RelPath} {cancelled : RelPath → Nat → Bool}
    (hashes : hashShare chunkAddr hashing cancelled walk = .ok manifest) :
    (∀ later addr, (OnDisk.new manifest).getChunk later addr = .error .unknownChunk ↔
      ∀ e ∈ manifest, addr ∉ e.chunks) ∧
    (∀ later addr bytes, (OnDisk.new manifest).getChunk later addr = .ok bytes →
      ∃ e ∈ manifest, ∃ c, e.chunks[c]? = some addr ∧
        bytes.length = min (e.size.val - c * chunkSize) chunkSize) ∧
    ∀ e ∈ manifest, ∃ p ∈ walk, e.relPath = shareRelPath p ∧ ∃ file content,
      hashing p.parts = .ok file ∧ readToEnd (file.from_ 0) = .ok content ∧
        ∀ (gcm : Gcm) (data : List Octets),
          List.Forall₂ (fun addr bytes => ∃ blob, openAndVerifyChunk chunkAddr gcm addr blob =
            .ok bytes) e.chunks data →
          (∀ sent ∈ data, ∀ chunk ∈ chunks chunkSize content,
            chunkAddr sent = chunkAddr chunk → sent = chunk) →
          data.flatten = content := by
  refine ⟨fun later addr => ?_, fun later addr bytes served => ?_, fun e mem => ?_⟩
  · rw [← slots_known]
    constructor
    · intro unknown
      cases found : (OnDisk.new manifest).byAddr.lookup addr with
      | none => rfl
      | some slot =>
        obtain ⟨entry, at_, -⟩ := (OnDisk.new manifest).located addr slot found
        exact absurd ((getChunk_found found at_).symm.trans unknown) readChunk_known
    · exact getChunk_absent
  · cases found : (OnDisk.new manifest).byAddr.lookup addr with
    | none => cases (getChunk_absent found).symm.trans served
    | some slot =>
      obtain ⟨entry, at_, listed⟩ := (OnDisk.new manifest).located addr slot found
      exact ⟨entry, List.mem_of_getElem? at_, slot.2, listed,
        readChunk_length ((getChunk_found found at_).symm.trans served)⟩
  · obtain ⟨i, inside, rfl⟩ := List.getElem_of_mem mem
    have of := hashShare_of hashes
    have inside' : i < (shareFiles walk).length := of.length_eq ▸ inside
    obtain ⟨file, content, opened, whole, one⟩ := of.get inside' inside
    obtain ⟨each, named, -⟩ := hashed_ok.1 one
    refine ⟨(shareFiles walk)[i], mem_shareFiles.1 (List.getElem_mem inside'), named, file, content,
      opened, whole, fun gcm data fetched single => ?_⟩
    have same : data = chunks chunkSize content := by
      have addressed := Results.mapM_ok.1 each
      have len := addressed.length_eq.trans fetched.length_eq
      refine List.ext_getElem len.symm fun k here here' => ?_
      have listed : k < (manifest[i]).chunks.length := fetched.length_eq ▸ here
      obtain ⟨blob, accepted⟩ := fetched.get listed here
      refine single _ (List.getElem_mem here) _ (List.getElem_mem here') ?_
      exact (openAndVerifyChunk_ok accepted).trans (addressed.get here' listed).symm
    rw [same, chunks_join chunkSize_pos]

/-- Read one byte at a time, sent and checked. -/
theorem fetched_as_hashed_bytewise : ∃ p ∈ [song], songEntry.relPath = shareRelPath p ∧
    ∃ file content, bytewise p.parts = .ok file ∧ readToEnd (file.from_ 0) = .ok content ∧
      ∀ (gcm : Gcm) (data : List Octets),
        List.Forall₂ (fun addr bytes => ∃ blob, openAndVerifyChunk toyAddr gcm addr blob =
          .ok bytes) songEntry.chunks data →
        (∀ sent ∈ data, ∀ chunk ∈ chunks chunkSize content,
          toyAddr sent = toyAddr chunk → sent = chunk) →
        data.flatten = content :=
  (fetched_as_hashed bytewise_hashed).2.2 songEntry (List.mem_singleton_self _)

end Daemonseed.Net.ShareContent
