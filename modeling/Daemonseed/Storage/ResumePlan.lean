import Daemonseed.Storage.Fetched

/-! # The resume plan

What a resume takes as fetched is what the staging area holds of each chunk, what
it takes as done is what stands whole at the destination, and the regions looked
at are those of the chunks, computed in 64 bits. -/
namespace Daemonseed.Storage.ResumePlan
open Daemonseed.Lib.Bytes Daemonseed.Lib.Files Daemonseed.Net.ShareFrames
  Daemonseed.Net.ShareServe Daemonseed.Storage.Fetched

/-! ## Regions -/

/-- The chunk's region holds the byte. -/
def Covers (size i pos : Nat) : Prop :=
  (chunkRegion i size).1 ≤ pos ∧ pos < (chunkRegion i size).1 + (chunkRegion i size).2

/-- The regions of so many chunks are the bytes of the file, none of them empty. -/
structure TiledBy (n size : Nat) : Prop where
  whole : ∀ pos < size, ∃ i < n, Covers size i pos
  used : ∀ i < n, 0 < (chunkRegion i size).2

section

variable {size i j n pos : Nat}

theorem chunkSize_pos : 0 < chunkSize := by decide

theorem covers_iff : Covers size i pos ↔ pos < size ∧ pos / chunkSize = i := by
  have quotient : pos / chunkSize = i ↔ i * chunkSize ≤ pos ∧ pos < i * chunkSize + chunkSize := by
    rw [Nat.div_eq_iff chunkSize_pos]
    have := chunkSize_pos
    omega
  rw [quotient]
  unfold Covers chunkRegion
  dsimp only
  split <;> dsimp only <;> omega

/-- No byte is in two. -/
theorem covers_unique (h : Covers size i pos) (h' : Covers size j pos) : i = j :=
  (covers_iff.1 h).2.symm.trans (covers_iff.1 h').2

theorem region_pos : 0 < (chunkRegion i size).2 ↔ i * chunkSize < size := by
  have := chunkSize_pos
  unfold chunkRegion
  dsimp only
  split <;> dsimp only <;> omega

theorem lt_expectedChunks : i < expectedChunks size ↔ i * chunkSize < size := by
  refine ⟨lt_of_lt_divCeil, fun h => ?_⟩
  by_contra high
  have reaches := divCeil_mul_ge size chunkSize_pos
  have := Nat.mul_le_mul_right chunkSize (Nat.not_lt.1 high)
  unfold expectedChunks at this
  omega

/-- **The regions tile the file** for one number of chunks. -/
theorem tiledBy_iff : TiledBy n size ↔ n = expectedChunks size := by
  constructor
  · intro tiled
    by_contra other
    rcases Nat.lt_or_gt_of_ne other with few | many
    · have inside := lt_expectedChunks.1 few
      obtain ⟨i, small, covers⟩ := tiled.whole _ inside
      have := (covers_iff.1 covers).2
      rw [Nat.mul_div_cancel _ chunkSize_pos] at this
      omega
    · have := lt_expectedChunks.2 (region_pos.1 (tiled.used _ many))
      omega
  · rintro rfl
    refine ⟨fun pos inside => ⟨pos / chunkSize, ?_, covers_iff.2 ⟨inside, rfl⟩⟩, fun i small => ?_⟩
    · have := Nat.div_mul_le_self pos chunkSize
      exact lt_expectedChunks.2 (by omega)
    · exact region_pos.2 (lt_expectedChunks.1 small)

end

/-! ## In 64 bits -/

def wordMax : Nat := 2 ^ 64 - 1

def saturatingMul (a b : Nat) : Nat := min (a * b) wordMax

def saturatingAdd (a b : Nat) : Nat := min (a + b) wordMax

def checkedAdd (a b : Nat) : Option Nat := if a + b ≤ wordMax then some (a + b) else none

/-- A difference, unless it is below zero. -/
def checkedSub (a b : Nat) : Option Nat := if b ≤ a then some (a - b) else none

/-- `div_ceil`, which rounds the quotient and adds nothing first. -/
def divCeilWord (n d : Nat) : Nat := if n % d = 0 then n / d else n / d + 1

/-- The region as it is computed; `none` is a difference below zero. -/
def chunkRegionWord (index size : Nat) : Option (Nat × Nat) :=
  let offset := saturatingMul index chunkSize
  if size ≤ offset then some (offset, 0)
  else (checkedSub (min (saturatingAdd offset chunkSize) size) offset).map fun len => (offset, len)

def readRegionWord (candidate : Octets) (offset len : Nat) : Option Octets :=
  match checkedAdd offset len with
  | none => none
  | some last => if candidate.length < last then none else some (region offset len candidate)

section

variable {size i : Nat}

theorem divCeilWord_eq (n : Nat) {d : Nat} (pos : 0 < d) : divCeilWord n d = divCeil n d := by
  unfold divCeilWord divCeil
  have parts := Nat.div_add_mod n d
  have small := Nat.mod_lt n pos
  split
  · rename_i exact_
    refine (Nat.div_eq_of_lt_le ?_ ?_).symm
    · rw [Nat.mul_comm]
      omega
    · rw [Nat.succ_mul, Nat.mul_comm]
      omega
  · refine (Nat.div_eq_of_lt_le ?_ ?_).symm
    · rw [Nat.succ_mul, Nat.mul_comm]
      omega
    · rw [Nat.succ_mul, Nat.succ_mul, Nat.mul_comm]
      omega

theorem expectedChunks_word (word : size ≤ wordMax) : expectedChunks size ≤ wordMax := by
  unfold expectedChunks
  rw [← divCeilWord_eq size chunkSize_pos]
  unfold divCeilWord wordMax chunkSize at *
  split <;> omega

/-- No step of a region wraps, and what saturates is cut off at the size. -/
theorem chunkRegionWord_eq (word : size ≤ wordMax) (inside : i < expectedChunks size) :
    chunkRegionWord i size = some (chunkRegion i size) := by
  have low := lt_expectedChunks.1 inside
  have offset : saturatingMul i chunkSize = i * chunkSize := Nat.min_eq_left (by omega)
  unfold chunkRegionWord chunkRegion
  simp only [offset, if_neg (Nat.not_le.2 low)]
  have ends : min (saturatingAdd (i * chunkSize) chunkSize) size = min (i * chunkSize + chunkSize) size := by
    unfold saturatingAdd
    omega
  have above : i * chunkSize ≤ min (i * chunkSize + chunkSize) size := by omega
  rw [ends, checkedSub, if_pos above]
  rfl

theorem readRegionWord_eq (word : size ≤ wordMax) (inside : i < expectedChunks size)
    (candidate : Octets) :
    readRegionWord candidate (chunkRegion i size).1 (chunkRegion i size).2 =
      readRegionAt candidate (chunkRegion i size).1 (chunkRegion i size).2 := by
  have low := lt_expectedChunks.1 inside
  have ends : (chunkRegion i size).1 + (chunkRegion i size).2 ≤ size := by
    unfold chunkRegion
    simp only [if_neg (Nat.not_le.2 low)]
    omega
  rw [readRegionWord, checkedAdd, if_pos (ends.trans word)]
  rfl

end

/-! ## The plan -/

variable (chunkAddr : Octets → Except String ChunkAddr)

/-- The file that stands at a path. -/
def FileAt (t : Tree) (path : Except FetchedError Path) (bytes : Octets) : Prop :=
  ∃ p, path = .ok p ∧ t.find p = some (.file bytes)

/-- The bytes of a chunk's region are what its address says. -/
def Hashes (entry : ManifestEntry) (bytes : Octets) (i : Nat) : Prop :=
  ∃ addr, entry.chunks[i]? = some addr ∧
    chunkAddr (region (chunkRegion i entry.size.val).1 (chunkRegion i entry.size.val).2 bytes) = .ok addr

/-- What the plan says of a file of the manifest. -/
structure Plans (staging : StagingArea) (t : Tree) (entry : ManifestEntry) (r : FileResume) : Prop where
  file : r.relPath = entry.relPath ∧ r.size = entry.size.val ∧ r.totalChunks = entry.chunks.length
  ascending : r.verified.Pairwise (· < ·) ∧ r.missing.Pairwise (· < ·)
  partition : (r.verified ++ r.missing).Perm (List.range entry.chunks.length)
  verified : ∀ i, i ∈ r.verified ↔ TiledBy entry.chunks.length entry.size.val ∧
    ∃ bytes, FileAt t (staging.stagingPath entry.relPath) bytes ∧ bytes.length = entry.size.val ∧
      Hashes chunkAddr entry bytes i
  promoted : r.promotedComplete = true ↔ TiledBy entry.chunks.length entry.size.val ∧
    ∃ bytes, FileAt t (sanitizeRelPath entry.relPath) bytes ∧ bytes.length = entry.size.val ∧
      ∀ i < entry.chunks.length, Hashes chunkAddr entry bytes i
  regions : TiledBy entry.chunks.length entry.size.val → ∀ pos < entry.size.val,
    ∃! i, i < entry.chunks.length ∧ Covers entry.size.val i pos
  arithmetic : divCeilWord entry.size.val chunkSize = expectedChunks entry.size.val ∧
    expectedChunks entry.size.val ≤ wordMax ∧
    ∀ i < expectedChunks entry.size.val, ∀ bytes,
      chunkRegionWord i entry.size.val = some (chunkRegion i entry.size.val) ∧
      readRegionWord bytes (chunkRegion i entry.size.val).1 (chunkRegion i entry.size.val).2 =
        readRegionAt bytes (chunkRegion i entry.size.val).1 (chunkRegion i entry.size.val).2

section

variable {chunkAddr} {t : Tree} {path : Except FetchedError Path} {entry : ManifestEntry}
  {size i : Nat}

theorem openCandidate_iff {bytes : Octets} :
    openCandidate t path size = some bytes ↔ FileAt t path bytes ∧ bytes.length = size := by
  refine ⟨fun h => ?_, fun h => ?_⟩
  · obtain ⟨p, safe, held, len⟩ := openCandidate_some h
    exact ⟨⟨p, safe, held⟩, len⟩
  · obtain ⟨⟨p, rfl, held⟩, len⟩ := h
    simp only [openCandidate, held, if_pos len]

/-- A chunk verifies in a file of the whole size where its region hashes to its
address. -/
theorem verifies_iff {bytes : Octets} {addr : ChunkAddr} (whole : bytes.length = size)
    (inside : i * chunkSize < size) :
    chunkVerifiesIn chunkAddr (some bytes) (chunkRegion i size).1 (chunkRegion i size).2 addr = true ↔
      chunkAddr (region (chunkRegion i size).1 (chunkRegion i size).2 bytes) = .ok addr := by
  have fits : ¬ bytes.length < (chunkRegion i size).1 + (chunkRegion i size).2 := by
    unfold chunkRegion
    simp only [if_neg (Nat.not_le.2 inside)]
    omega
  simp only [chunkVerifiesIn, readRegionAt, if_neg fits]
  cases chunkAddr (region (chunkRegion i size).1 (chunkRegion i size).2 bytes) with
  | error e => exact iff_of_false nofun nofun
  | ok found => simp

/-- What is asked of each index, in the words of the plan. -/
def verifiesAt (chunkAddr : Octets → Except String ChunkAddr) (entry : ManifestEntry)
    (candidate : Option Octets) (i : Nat) : Bool :=
  match entry.chunks[i]? with
  | some addr =>
    chunkVerifiesIn chunkAddr candidate (chunkRegion i entry.size.val).1
      (chunkRegion i entry.size.val).2 addr
  | none => false

theorem deriveFile_tiled (staging : StagingArea) (t : Tree)
    (tiled : entry.chunks.length = expectedChunks entry.size.val) :
    deriveFile chunkAddr staging t entry.relPath entry.size.val entry.chunks =
      ⟨entry.relPath, entry.size.val, entry.chunks.length,
        (List.range entry.chunks.length).filter (verifiesAt chunkAddr entry
          (openCandidate t (staging.stagingPath entry.relPath) entry.size.val)),
        (List.range entry.chunks.length).filter (fun i => !verifiesAt chunkAddr entry
          (openCandidate t (staging.stagingPath entry.relPath) entry.size.val) i),
        (openCandidate t (sanitizeRelPath entry.relPath) entry.size.val).isSome &&
          (List.range entry.chunks.length).all (verifiesAt chunkAddr entry
            (openCandidate t (sanitizeRelPath entry.relPath) entry.size.val))⟩ :=
  if_neg (not_not.2 tiled)

theorem verifiesAt_iff (tiled : entry.chunks.length = expectedChunks entry.size.val)
    (inside : i < entry.chunks.length) :
    verifiesAt chunkAddr entry (openCandidate t path entry.size.val) i = true ↔
      ∃ bytes, FileAt t path bytes ∧ bytes.length = entry.size.val ∧ Hashes chunkAddr entry bytes i := by
  have low := lt_expectedChunks.1 (tiled ▸ inside)
  unfold verifiesAt Hashes
  rw [List.getElem?_eq_getElem inside]
  cases opened : openCandidate t path entry.size.val with
  | none =>
    refine iff_of_false Bool.false_ne_true ?_
    rintro ⟨bytes, there, whole, -⟩
    have := openCandidate_iff.2 ⟨there, whole⟩
    rw [opened] at this
    cases this
  | some bytes =>
    obtain ⟨there, whole⟩ := openCandidate_iff.1 opened
    dsimp only
    rw [verifies_iff whole low]
    constructor
    · intro hash
      exact ⟨bytes, there, whole, _, rfl, hash⟩
    · rintro ⟨bytes', there', whole', addr, asked, hash⟩
      have same := openCandidate_iff.2 ⟨there', whole'⟩
      rw [opened] at same
      obtain rfl := Option.some.inj same
      obtain rfl := Option.some.inj asked
      exact hash

variable (chunkAddr) in
theorem plans (staging : StagingArea) (t : Tree) (entry : ManifestEntry) :
    Plans chunkAddr staging t entry
      (deriveFile chunkAddr staging t entry.relPath entry.size.val entry.chunks) := by
  have word : entry.size.val ≤ wordMax := Nat.le_sub_one_of_lt entry.size.isLt
  have regions : TiledBy entry.chunks.length entry.size.val → ∀ pos < entry.size.val,
      ∃! i, i < entry.chunks.length ∧ Covers entry.size.val i pos := by
    intro tiled pos inside
    obtain ⟨i, small, covers⟩ := tiled.whole pos inside
    exact ⟨i, ⟨small, covers⟩, fun j h => covers_unique h.2 covers⟩
  have arithmetic : divCeilWord entry.size.val chunkSize = expectedChunks entry.size.val ∧
      expectedChunks entry.size.val ≤ wordMax ∧
      ∀ i < expectedChunks entry.size.val, ∀ bytes,
        chunkRegionWord i entry.size.val = some (chunkRegion i entry.size.val) ∧
        readRegionWord bytes (chunkRegion i entry.size.val).1 (chunkRegion i entry.size.val).2 =
          readRegionAt bytes (chunkRegion i entry.size.val).1 (chunkRegion i entry.size.val).2 :=
    ⟨divCeilWord_eq _ chunkSize_pos, expectedChunks_word word, fun i small bytes =>
      ⟨chunkRegionWord_eq word small, readRegionWord_eq word small bytes⟩⟩
  by_cases tiled : entry.chunks.length = expectedChunks entry.size.val
  · have whole := tiledBy_iff.2 tiled
    rw [deriveFile_tiled staging t tiled]
    refine ⟨⟨rfl, rfl, rfl⟩, ⟨List.pairwise_lt_range.filter _, List.pairwise_lt_range.filter _⟩,
      List.filter_append_perm _ _, fun i => ?_, ?_, regions, arithmetic⟩
    · rw [List.mem_filter, List.mem_range]
      constructor
      · rintro ⟨inside, holds⟩
        exact ⟨whole, (verifiesAt_iff tiled inside).1 holds⟩
      · rintro ⟨-, bytes, there, len, addr, asked, hash⟩
        have inside := (List.getElem?_eq_some_iff.1 asked).1
        exact ⟨inside, (verifiesAt_iff tiled inside).2 ⟨bytes, there, len, addr, asked, hash⟩⟩
    · rw [Bool.and_eq_true, List.all_eq_true]
      constructor
      · rintro ⟨opened, all⟩
        obtain ⟨bytes, opened⟩ := Option.isSome_iff_exists.1 opened
        obtain ⟨there, len⟩ := openCandidate_iff.1 opened
        refine ⟨whole, bytes, there, len, fun i inside => ?_⟩
        obtain ⟨bytes', there', len', hash⟩ := (verifiesAt_iff tiled inside).1
          (all i (List.mem_range.2 inside))
        have same := openCandidate_iff.2 ⟨there', len'⟩
        rw [opened] at same
        exact Option.some.inj same ▸ hash
      · rintro ⟨-, bytes, there, len, all⟩
        refine ⟨?_, fun i mem => ?_⟩
        · rw [openCandidate_iff.2 ⟨there, len⟩]
          rfl
        · have inside := List.mem_range.1 mem
          exact (verifiesAt_iff tiled inside).2 ⟨bytes, there, len, all i inside⟩
  · have gaps : ¬ TiledBy entry.chunks.length entry.size.val := fun h => tiled (tiledBy_iff.1 h)
    have none_ : deriveFile chunkAddr staging t entry.relPath entry.size.val entry.chunks =
        ⟨entry.relPath, entry.size.val, entry.chunks.length, [],
          List.range entry.chunks.length, false⟩ := if_pos tiled
    rw [none_]
    exact ⟨⟨rfl, rfl, rfl⟩, ⟨.nil, List.pairwise_lt_range⟩, .refl _,
      fun i => iff_of_false List.not_mem_nil fun h => gaps h.1,
      iff_of_false Bool.false_ne_true fun h => gaps h.1, regions, arithmetic⟩

end

/-- **A resume takes for fetched what the staging area holds, and nothing else**,
one entry a file in the order of the manifest. -/
theorem resume_plan (staging : StagingArea) (t : Tree) (manifest : List ManifestEntry) :
    List.Forall₂ (Plans chunkAddr staging t) manifest
      (deriveResumeState chunkAddr staging t manifest) := by
  rw [deriveResumeState, List.forall₂_map_right_iff, List.forall₂_same]
  exact fun entry _ => plans chunkAddr staging t entry

end Daemonseed.Storage.ResumePlan
