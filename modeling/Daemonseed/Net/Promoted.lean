import Daemonseed.Net.Download

/-! # What a download puts in its place

Every file moved to its place is the one the manifest names, and none that was
there is changed, as long as no two planned files have one safe path. -/
namespace Daemonseed.Net.Promoted
open Daemonseed.Lib.Bytes Daemonseed.Lib.Files Daemonseed.Lib.Runs Daemonseed.Net.Download
  Daemonseed.Net.ShareFrames Daemonseed.Net.ShareServe Daemonseed.Storage.Fetched

variable (chunkAddr : Octets → Except String ChunkAddr)

/-- A chunk's region of these bytes is what its address says. -/
def VerifiedAt (file : PlannedFile) (bytes : Octets) (k : Nat) : Prop :=
  ∀ addr, file.chunks[k]? = some addr →
    chunkAddr (region (chunkRegion k file.size.val).1 (chunkRegion k file.size.val).2 bytes) =
      .ok addr

/-- These bytes are the file the manifest names. -/
structure Holds (file : PlannedFile) (bytes : Octets) : Prop where
  size : bytes.length = file.size.val
  chunks : ∀ k, VerifiedAt chunkAddr file bytes k

/-- No two files of the plan have one safe path. -/
def Apart (files : List PlannedFile) : Prop :=
  ∀ (i j : Nat) (f g : PlannedFile) p, files[i]? = some f → files[j]? = some g → sanitizeRelPath f.destRel = .ok p →
    sanitizeRelPath g.destRel = .ok p → i = j

/-- What a file's chunks already verified were derived from: nothing, or the
staging area as it is. -/
def Derived (area : StagingArea) (t : Tree) (file : PlannedFile) : Prop :=
  file.alreadyVerified = [] ∨ file.alreadyVerified =
    (deriveFile chunkAddr area t file.destRel file.size.val file.chunks).verified

/-! ## Regions -/

def Tiles (file : PlannedFile) : Prop := file.chunks.length = expectedChunks file.size.val

theorem Tiles.region {file : PlannedFile} (tiles : Tiles file) {k : Nat}
    (inside : k < file.chunks.length) :
    chunkRegion k file.size.val = (k * chunkSize, expectedChunkLen k file.last file.size.val) ∧
      k * chunkSize + expectedChunkLen k file.last file.size.val ≤ file.size.val ∧
      expectedChunkLen k file.last file.size.val ≤ chunkSize := by
  have pos : 0 < chunkSize := by decide
  have count : file.chunks.length = divCeil file.size.val chunkSize := tiles
  have low : k * chunkSize < file.size.val := lt_of_lt_divCeil (count ▸ inside)
  have high := divCeil_mul_ge file.size.val pos
  rw [← count] at high
  unfold chunkRegion expectedChunkLen PlannedFile.last
  simp only [if_neg (Nat.not_le.2 low)]
  by_cases before : k < file.chunks.length - 1
  · have next : (k + 1) * chunkSize < file.size.val := lt_of_lt_divCeil (by omega)
    rw [Nat.succ_mul] at next
    simp only [if_pos before, Prod.mk.injEq, true_and]
    omega
  · obtain rfl : k = file.chunks.length - 1 := by omega
    have one_more : file.chunks.length = file.chunks.length - 1 + 1 := by omega
    rw [one_more, Nat.succ_mul] at high
    simp only [if_neg before, Prod.mk.injEq, true_and]
    omega

/-! ## What the operations spare -/

/-- Every file but this one's staged bytes and the marker is as it was. -/
def Spares (area : StagingArea) (file : PlannedFile) (t t' : Tree) : Prop :=
  ∀ q bytes, (∀ p, sanitizeRelPath file.destRel = .ok p → q ≠ area.dir ++ p) →
    q ≠ area.progressMarkerPath → t.find q = some (.file bytes) → t'.find q = some (.file bytes)

section

variable {area : StagingArea} {file : PlannedFile} {d d' : Disk}

theorem Spares.refl {t : Tree} : Spares area file t t := fun _ _ _ _ => id

theorem beginFile_spares {result : Except Stop Unit} (ran : beginFile area file d = (result, d')) :
    Spares area file d.tree d'.tree := by
  unfold beginFile at ran
  split at ran
  · cases ran
    exact .refl
  · intro q bytes mine marker held
    have left : d' = (area.preallocate file.destRel file.size.val d).2 :=
      (congrArg Prod.snd ran).symm
    rw [left]
    cases safe : sanitizeRelPath file.destRel with
    | error e => rwa [StagingArea.preallocate_unsafe safe]
    | ok p => exact (StagingArea.preallocate_within safe _ d).spares (mine p safe) held

theorem landChunk_spares {k : Nat} {reply : Except VeilidNetError Octets}
    {result : Except Stop Unit} (ran : landChunk area file k reply d = (result, d')) :
    Spares area file d.tree d'.tree := by
  unfold landChunk at ran
  split at ran
  · cases ran
    exact .refl
  · dsimp only at ran
    split at ran
    · cases ran
      exact .refl
    · rename_i bytes _
      intro q held mine marker was
      have left : d' = (area.writeVerifiedChunk file.destRel (k * chunkSize) bytes d).2 :=
        (congrArg Prod.snd ran).symm
      rw [left]
      cases safe : sanitizeRelPath file.destRel with
      | error e => rwa [StagingArea.write_unsafe safe]
      | ok p =>
        refine (StagingArea.write_within safe _ _ d).spares ?_ was
        rintro (e | e)
        · exact mine p safe e
        · exact marker e

theorem promoteFile_spares {result : Except Stop Path}
    (ran : promoteFile area file d = (result, d')) : Spares area file d.tree d'.tree := by
  intro q bytes mine marker held
  have left : d' = (area.promote file.destRel d).2 := (congrArg Prod.snd ran).symm
  rw [left]
  cases safe : sanitizeRelPath file.destRel with
  | error e => rwa [StagingArea.promote_unsafe safe]
  | ok p =>
    exact (StagingArea.promote_spec _ safe d).spares (mine p safe) held

end

/-! ## Where each file stands -/

/-- The staged file has its size, and these chunks are verified in it. -/
def Staged (area : StagingArea) (file : PlannedFile) (t : Tree) (done : Nat → Prop) : Prop :=
  ∃ p bytes, sanitizeRelPath file.destRel = .ok p ∧
    t.find (area.dir ++ p) = some (.file bytes) ∧ bytes.length = file.size.val ∧
      ∀ k, done k → VerifiedAt chunkAddr file bytes k

/-- What a file that is still to come rests on. -/
def Open (area : StagingArea) (file : PlannedFile) (t : Tree) : FileState → Prop
  | .waiting => ∀ k ∈ file.already, Staged chunkAddr area file t (· = k)
  | .fetching results worst => worst = none → Tiles file ∧
      Staged chunkAddr area file t fun k => k ∈ file.already ∨ results k ≠ none
  | .ended _ => True

/-- A file in its place, out of the area. -/
def InPlace (area : StagingArea) (file : PlannedFile) (t : Tree) (path : Path) : Prop :=
  ¬ area.dir <+: path ∧ ∃ bytes, t.find path = some (.file bytes) ∧ Holds chunkAddr file bytes

/-- The files that were there are as they were, those promoted are the manifest's,
and those still to come rest on what is verified. -/
structure Good (area : StagingArea) (files : List PlannedFile) (t₀ : Tree) (w : World) : Prop where
  prior : ∀ p bytes, ¬ area.dir <+: p → t₀.find p = some (.file bytes) →
    w.tree.find p = some (.file bytes)
  promoted : ∀ i file path, files[i]? = some file → w.files i = .ended (.ok path) →
    InPlace chunkAddr area file w.tree path
  still : w.outcome = none → ∀ i file, files[i]? = some file →
    Open chunkAddr area file w.tree (w.files i)
  clean : w.worst = none → ∀ i s, w.files i ≠ .ended (.error s)
  whole : ∀ n m, w.outcome = some (.complete n m) →
    w.worst = none ∧ ∀ i < files.length, (w.files i).isOver = true

section

variable {chunkAddr} {area : StagingArea} {files : List PlannedFile} {t₀ : Tree}

theorem Staged.stays {file : PlannedFile} {t t' : Tree} {done : Nat → Prop}
    (h : Staged chunkAddr area file t done)
    (keeps : ∀ p bytes, sanitizeRelPath file.destRel = .ok p →
      t.find (area.dir ++ p) = some (.file bytes) → t'.find (area.dir ++ p) = some (.file bytes)) :
    Staged chunkAddr area file t' done := by
  obtain ⟨p, bytes, safe, held, rest⟩ := h
  exact ⟨p, bytes, safe, keeps p bytes safe held, rest⟩

theorem Open.stays {file : PlannedFile} {t t' : Tree} {state : FileState}
    (h : Open chunkAddr area file t state)
    (keeps : ∀ p bytes, sanitizeRelPath file.destRel = .ok p →
      t.find (area.dir ++ p) = some (.file bytes) → t'.find (area.dir ++ p) = some (.file bytes)) :
    Open chunkAddr area file t' state := by
  cases state with
  | waiting => exact fun k hk => (h k hk).stays keeps
  | fetching results worst => exact fun none => (h none).imp_right (·.stays keeps)
  | ended => trivial

/-- A move of one file. -/
theorem Good.moves {w w' : World} {j : Nat} {file : PlannedFile} (apart : Apart files)
    (good : Good chunkAddr area files t₀ w) (going : w.outcome = none) (same : w'.outcome = none)
    (at_ : files[j]? = some file) (spares : Spares area file w.tree w'.tree)
    (others : ∀ i, i ≠ j → w'.files i = w.files i)
    (mine : Open chunkAddr area file w'.tree (w'.files j))
    (placed : ∀ path, w'.files j = .ended (.ok path) → InPlace chunkAddr area file w'.tree path)
    (worst : w'.worst = none → w.worst = none ∧ ∀ s, w'.files j ≠ .ended (.error s)) :
    Good chunkAddr area files t₀ w' := by
  have outside : ∀ q bytes, ¬ area.dir <+: q → w.tree.find q = some (.file bytes) →
      w'.tree.find q = some (.file bytes) := by
    intro q bytes out held
    refine spares q bytes (fun p _ e => out (e ▸ List.prefix_append ..)) (fun e => out ?_) held
    exact e ▸ List.prefix_append ..
  refine ⟨fun p bytes out held => outside p bytes out (good.prior p bytes out held),
    fun i f path hf ended => ?_, fun _ i f hf => ?_, fun none i s => ?_, fun n m done => ?_⟩
  · by_cases e : i = j
    · subst e
      obtain rfl := Option.some.inj (hf.symm.trans at_)
      exact placed path ended
    · rw [others i e] at ended
      obtain ⟨out, bytes, held, holds⟩ := good.promoted i f path hf ended
      exact ⟨out, bytes, outside path bytes out held, holds⟩
  · by_cases e : i = j
    · subst e
      obtain rfl := Option.some.inj (hf.symm.trans at_)
      exact mine
    · rw [others i e]
      refine (good.still going i f hf).stays fun p bytes safe held => ?_
      refine spares _ bytes (fun p' safe' eq => e ?_) (fun eq => ?_) held
      · rw [List.append_cancel_left_eq] at eq
        exact apart i j f file p' hf at_ (eq ▸ safe) safe'
      · have safe := sanitize_safe safe
        exact StagingArea.marker_apart area safe.2 safe.1 (eq ▸ List.prefix_rfl)
  · obtain ⟨before, ok⟩ := worst none
    by_cases e : i = j
    · exact e ▸ ok s
    · rw [others i e]
      exact good.clean before i s
  · rw [same] at done
    cases done

/-! ## What each move gives -/

theorem Derived.staged {file : PlannedFile} {t : Tree} (derived : Derived chunkAddr area t file)
    {k : Nat} (hk : k ∈ file.already) : Staged chunkAddr area file t (· = k) := by
  obtain ⟨inside, hk⟩ := List.mem_filter.1 hk
  have hk : k ∈ file.alreadyVerified := of_decide_eq_true hk
  rcases derived with none | derived
  · simp [none] at hk
  · rw [derived] at hk
    unfold deriveFile at hk
    dsimp only at hk
    split at hk
    · cases hk
    · have verified := (List.mem_filter.1 hk).2
      rw [List.getElem?_eq_getElem (List.mem_range.1 inside)] at verified
      obtain ⟨bytes, candidate, found⟩ := chunkVerifiesIn_true verified
      obtain ⟨path, staging, held, size⟩ := openCandidate_some candidate
      cases safe : sanitizeRelPath file.destRel with
      | error e =>
        rw [StagingArea.stagingPath_unsafe safe] at staging
        cases staging
      | ok p =>
        rw [StagingArea.stagingPath_safe safe] at staging
        cases staging
        refine ⟨p, bytes, safe, held, size, ?_⟩
        rintro j rfl addr asked
        obtain ⟨-, rfl⟩ := List.getElem?_eq_some_iff.1 asked
        exact found

theorem good_start (derived : ∀ file ∈ files, Derived chunkAddr area t₀ file) :
    Good chunkAddr area files t₀ (World.start t₀) where
  prior _ _ _ held := held
  promoted i file path _ ended := by cases ended
  still _ i file at_ _ hk := (derived file (List.mem_of_getElem? at_)).staged hk
  clean _ i s ended := by cases ended
  whole n m done := by cases done

theorem begin_ok {file : PlannedFile} {d d' : Disk}
    (ran : beginFile area file d = (.ok (), d'))
    (before : ∀ k ∈ file.already, Staged chunkAddr area file d.tree (· = k)) :
    Tiles file ∧ Staged chunkAddr area file d'.tree (· ∈ file.already) := by
  unfold beginFile at ran
  split at ran
  · cases ran
  · rename_i tiles
    refine ⟨not_not.1 tiles, ?_⟩
    have done := Sys.mapError_ok ran
    cases safe : sanitizeRelPath file.destRel with
    | error e =>
      rw [StagingArea.preallocate_unsafe safe] at done
      cases done
    | ok p =>
      obtain ⟨old, was, now⟩ := StagingArea.preallocate_ok safe done
      refine ⟨p, _, safe, now, resize_length, fun k hk => ?_⟩
      obtain ⟨p', bytes, safe', held, size, verified⟩ := before k hk
      obtain rfl : p = p' := Except.ok.inj (safe.symm.trans safe')
      rcases was with was | ⟨free, -⟩
      · cases held.symm.trans was
        rw [resize_self size]
        exact verified k rfl
      · cases held.symm.trans free

theorem land_ok {file : PlannedFile} {d d' : Disk} {k : Nat} {addr : ChunkAddr}
    {reply : Except VeilidNetError Octets} {done : Nat → Prop} (tiles : Tiles file)
    (asked : file.chunks[k]? = some addr)
    (genuine : ∀ bytes, reply = .ok bytes → chunkAddr bytes = .ok addr)
    (ran : landChunk area file k reply d = (.ok (), d'))
    (before : Staged chunkAddr area file d.tree done) :
    Staged chunkAddr area file d'.tree fun j => j = k ∨ done j := by
  have inside : k < file.chunks.length := (List.getElem?_eq_some_iff.1 asked).1
  unfold landChunk at ran
  split at ran
  · cases ran
  · rename_i bytes
    dsimp only at ran
    split at ran
    · cases ran
    · rename_i exact_
      have exact_ := not_not.1 exact_
      obtain ⟨p, held, safe, there, size, verified⟩ := before
      obtain ⟨old, was, fits, now⟩ := StagingArea.write_ok safe (Sys.mapError_ok ran)
      cases there.symm.trans was
      refine ⟨p, _, safe, now, (splice_length fits).trans size, fun j hj => ?_⟩
      intro addr' asked'
      obtain ⟨regionK, -, shortK⟩ := tiles.region inside
      have inside' : j < file.chunks.length := (List.getElem?_eq_some_iff.1 asked').1
      obtain ⟨regionJ, -, shortJ⟩ := tiles.region inside'
      by_cases e : j = k
      · subst e
        obtain rfl := Option.some.inj (asked.symm.trans asked')
        rw [regionK]
        dsimp only
        rw [← exact_, region_splice_self fits]
        exact genuine bytes rfl
      · rw [regionJ]
        dsimp only
        rw [region_splice_other fits]
        · have was := verified j (hj.resolve_left e) addr' asked'
          rwa [regionJ] at was
        · rw [exact_]
          rcases Nat.lt_or_gt_of_ne e with lo | hi
          · have := Nat.mul_le_mul_right chunkSize (Nat.succ_le_of_lt lo)
            rw [Nat.succ_mul] at this
            exact .inl (by omega)
          · have := Nat.mul_le_mul_right chunkSize (Nat.succ_le_of_lt hi)
            rw [Nat.succ_mul] at this
            exact .inr (by omega)

/-- A staged file whose chunks are all verified is the manifest's. -/
theorem Staged.holds {file : PlannedFile} {t : Tree} {results : Nat → Option (Except Stop Unit)}
    (all : ∀ k ∈ file.toFetch, results k ≠ none)
    (h : Staged chunkAddr area file t fun k => k ∈ file.already ∨ results k ≠ none) :
    ∃ p bytes, sanitizeRelPath file.destRel = .ok p ∧
      t.find (area.dir ++ p) = some (.file bytes) ∧ Holds chunkAddr file bytes := by
  obtain ⟨p, bytes, safe, held, size, verified⟩ := h
  refine ⟨p, bytes, safe, held, size, fun k addr asked => ?_⟩
  have inside : k ∈ List.range file.chunks.length :=
    List.mem_range.2 (List.getElem?_eq_some_iff.1 asked).1
  refine verified k ?_ addr asked
  by_cases skipped : k ∈ file.alreadyVerified
  · exact .inl (List.mem_filter.2 ⟨inside, by simpa using skipped⟩)
  · exact .inr (all k (List.mem_filter.2 ⟨inside, by simpa using skipped⟩))

theorem promote_ok {file : PlannedFile} {d d' : Disk} {path p : Path} {bytes : Octets}
    (ran : promoteFile area file d = (.ok path, d')) (safe : sanitizeRelPath file.destRel = .ok p)
    (held : d.tree.find (area.dir ++ p) = some (.file bytes)) (holds : Holds chunkAddr file bytes) :
    InPlace chunkAddr area file d'.tree path := by
  obtain ⟨named, clean⟩ := sanitize_safe safe
  have ran := Sys.mapError_ok ran
  have spec := StagingArea.promote_spec area safe d
  rw [ran] at spec
  cases spec with
  | kept dirs there staged now =>
    cases held.symm.trans staged
    refine ⟨slotName_outside area named clean 1, bytes, ?_, holds⟩
    have apart : path ≠ area.dir ++ path :=
      (StagingArea.slot_ne_staged area named 1).symm
    exact (now path).trans ((if_neg apart).trans (dirs.file.2 there))
  | moved dirs staged free first now =>
    cases held.symm.trans staged
    exact ⟨slotName_outside area named clean _, bytes, (now _).trans (if_pos rfl), holds⟩

theorem settle_self {w : World} {i : Nat} {result : Except Stop Path} :
    (w.settle i result).files i = .ended result := Function.update_self ..

theorem settle_other {w : World} {i j : Nat} {result : Except Stop Path} (ne : j ≠ i) :
    (w.settle i result).files j = w.files j := Function.update_of_ne ne ..

/-- A file that fails, whatever it left. -/
theorem Good.failed {w : World} {j : Nat} {file : PlannedFile} {t : Tree} {s : Stop}
    (apart : Apart files) (good : Good chunkAddr area files t₀ w) (going : w.outcome = none)
    (at_ : files[j]? = some file) (spares : Spares area file w.tree t) :
    Good chunkAddr area files t₀ (World.settle { w with tree := t } j (.error s)) := by
  refine good.moves apart going going at_ spares (fun i ne => settle_other ne) ?_ ?_ ?_
  · rw [settle_self]
    trivial
  · intro path ended
    rw [settle_self] at ended
    cases ended
  · intro none
    cases none

/-- A file whose chunks go on. -/
theorem Good.goes {w w' : World} {j : Nat} {file : PlannedFile}
    {results : Nat → Option (Except Stop Unit)} {worst : Option Stop}
    (apart : Apart files) (good : Good chunkAddr area files t₀ w) (going : w.outcome = none)
    (at_ : files[j]? = some file) (spares : Spares area file w.tree w'.tree)
    (files' : w'.files = Function.update w.files j (.fetching results worst))
    (worst' : w'.worst = w.worst) (outcome' : w'.outcome = w.outcome)
    (mine : worst = none → Tiles file ∧ Staged chunkAddr area file w'.tree
      fun k => k ∈ file.already ∨ results k ≠ none) :
    Good chunkAddr area files t₀ w' := by
  have here : w'.files j = .fetching results worst := by
    rw [files']
    exact Function.update_self ..
  refine good.moves apart going (outcome'.trans going) at_ spares (fun i ne => ?_) ?_ ?_ ?_
  · rw [files']
    exact Function.update_of_ne ne ..
  · rw [here]
    exact mine
  · intro path ended
    rw [here] at ended
    cases ended
  · intro none
    refine ⟨worst' ▸ none, fun s ended => ?_⟩
    rw [here] at ended
    cases ended

/-- No end touches a file outside the area. -/
theorem left_keeps {worst : Option Stop} {t t' : Tree} (left : Left area worst t t') {q : Path}
    {bytes : Octets} (out : ¬ area.dir <+: q) (held : t.find q = some (.file bytes)) :
    t'.find q = some (.file bytes) := by
  have destroyed : area.Destroyed t t' → t'.find q = some (.file bytes) := by
    intro gone
    by_cases reserved : q = [stagingDir]
    · subst reserved
      rcases gone.reserved with same | ⟨dir, -⟩
      · rw [same, held]
      · cases dir.symm.trans held
    · rw [gone.elsewhere q out reserved, held]
  unfold Left at left
  split at left
  · exact destroyed left
  · split at left
    · exact destroyed left
    · rw [left, held]

/-- One move of a download. -/
theorem Good.step {w w' : World} {act : Act} (apart : Apart files)
    (good : Good chunkAddr area files t₀ w) (step : Steps chunkAddr area files w act w') :
    Good chunkAddr area files t₀ w' := by
  cases step with
  | @starts i file faults result d going at_ waits polls ran =>
    have spares := beginFile_spares ran
    cases result with
    | error s => exact good.failed apart going.1 at_ spares
    | ok _ =>
      have still := good.still going.1 i file at_
      rw [waits] at still
      obtain ⟨tiles, staged⟩ := begin_ok ran still
      obtain ⟨p, bytes, safe, held, size, verified⟩ := staged
      refine good.goes apart going.1 at_ spares rfl rfl rfl fun _ =>
        ⟨tiles, p, bytes, safe, held, size, fun k hk => verified k (hk.resolve_right ?_)⟩
      simp
  | @fetched i file k addr results worst reply faults result d going at_ fetching asked missing
      first polls genuine ran =>
    have spares := landChunk_spares ran
    cases result with
    | error s =>
      unfold World.landed
      dsimp only
      split
      · exact good.failed apart going.1 at_ spares
      · refine good.goes apart going.1 at_ spares rfl rfl rfl fun none => ?_
        cases none
    | ok _ =>
      refine good.goes apart going.1 at_ spares rfl rfl rfl fun none => ?_
      have still := good.still going.1 i file at_
      rw [fetching] at still
      obtain ⟨tiles, staged⟩ := still none
      obtain ⟨p, bytes, safe, held, size, verified⟩ := land_ok tiles asked genuine ran staged
      refine ⟨tiles, p, bytes, safe, held, size, fun j hj => verified j ?_⟩
      by_cases e : j = k
      · exact .inl e
      · rcases hj with skipped | came
        · exact .inr (.inl skipped)
        · rw [Function.update_of_ne e] at came
          exact .inr (.inr came)
  | @fails i file results s going at_ fetching all =>
    exact good.failed (t := w.tree) apart going.1 at_ .refl
  | @promotes i file results faults result d going at_ fetching all ran =>
    have spares := promoteFile_spares ran
    cases result with
    | error s => exact good.failed apart going.1 at_ spares
    | ok path =>
      have still := good.still going.1 i file at_
      rw [fetching] at still
      obtain ⟨p, bytes, safe, held, holds⟩ := (still rfl).2.holds all
      have placed := promote_ok ran safe held holds
      refine good.moves apart going.1 going.1 at_ spares (fun j ne => settle_other ne) ?_ ?_ ?_
      · rw [settle_self]
        trivial
      · intro path' ended
        rw [settle_self] at ended
        cases ended
        exact placed
      · intro none
        refine ⟨none, fun s ended => ?_⟩
        rw [settle_self] at ended
        cases ended
  | finishes going all left =>
    refine ⟨fun p bytes out held => left_keeps left out (good.prior p bytes out held),
      fun i file path at_ ended => ?_, fun going => (by cases going), good.clean,
      fun n m done => ?_⟩
    · obtain ⟨out, bytes, held, holds⟩ := good.promoted i file path at_ ended
      exact ⟨out, bytes, left_keeps left out held, holds⟩
    · have worst : w.worst = none := by
        unfold World.concluded at done
        cases h : w.worst with
        | none => rfl
        | some s =>
          rw [h] at done
          dsimp only at done
          split at done <;> cases done
      refine ⟨worst, all.resolve_left ?_⟩
      rintro ⟨s, broken, -⟩
      cases worst.symm.trans broken

/-- **Promoted files are the manifest's**: in every order of a download's moves,
each file it has moved to its place has there exactly the manifest's bytes, every
file that was at the destination is as it was, and the download is complete only
when every planned file is in its place. -/
theorem promoted_exact (apart : Apart files) (derived : ∀ file ∈ files, Derived chunkAddr area t₀ file)
    {acts : List Act} {w : World}
    (run : Trail (Steps chunkAddr area files) (World.start t₀) acts w) :
    (∀ i file path, files[i]? = some file → w.files i = .ended (.ok path) →
      ∃ bytes, w.tree.find path = some (.file bytes) ∧ Holds chunkAddr file bytes) ∧
    (∀ p bytes, ¬ area.dir <+: p → t₀.find p = some (.file bytes) →
      w.tree.find p = some (.file bytes)) ∧
    (∀ n m, w.outcome = some (.complete n m) →
      ∀ i < files.length, ∃ path, w.files i = .ended (.ok path)) := by
  have good := run.invariant (I := Good chunkAddr area files t₀)
    (fun _ _ _ good step => good.step apart step) (good_start derived)
  refine ⟨fun i file path at_ ended => (good.promoted i file path at_ ended).2, good.prior,
    fun n m done i inside => ?_⟩
  obtain ⟨worst, past⟩ := good.whole n m done
  have ended := past i inside
  cases state : w.files i with
  | waiting => simp [state, FileState.isOver] at ended
  | fetching => simp [state, FileState.isOver] at ended
  | ended result =>
    cases result with
    | ok path => exact ⟨path, rfl⟩
    | error s => exact absurd state (good.clean worst i s)

end

/-! ## One file -/

def toyArea : StagingArea := ⟨"s"⟩

/-- A destination with nothing but the area. -/
def toyTree : Tree := (createDirAll toyArea.dir ⟨.bare, []⟩).2.tree

theorem firstBytes_length (data : Octets) :
    ((data ++ List.replicate chunkAddrLen 0).take chunkAddrLen).length = chunkAddrLen := by
  simp

/-- A toy hash: a chunk's first bytes. -/
def firstBytes (data : Octets) : Except String ChunkAddr :=
  .ok ⟨_, firstBytes_length data⟩

def toyAddress (b : UInt8) : ChunkAddr := ⟨b :: List.replicate (chunkAddrLen - 1) 0, by simp [chunkAddrLen]⟩

def oneByte : PlannedFile := ⟨"a/b", 1, [toyAddress 7], []⟩

theorem ran_eq {ε α : Type} {m : Sys ε α} {d : Disk} {result : Except ε α}
    (h : (m d).1 = result) : m d = (result, (m d).2) := h ▸ rfl

theorem going_clear {w : World} (open_ : w.outcome = none) (clean : w.worst = none) : w.Going := by
  refine ⟨open_, ?_⟩
  rintro ⟨s, broken, -⟩
  cases clean.symm.trans broken

/-- The disk as the file begins, its byte comes, and it is promoted. -/
def oneBegun : Disk := (beginFile toyArea oneByte ⟨toyTree, []⟩).2

def aloneLanded : Disk := (landChunk toyArea oneByte 0 (.ok [7]) ⟨oneBegun.tree, []⟩).2

def alonePromoted : Disk := (promoteFile toyArea oneByte ⟨aloneLanded.tree, []⟩).2

/-- One file to its place. -/
theorem promoted_exact_alone : ∃ (acts : List Act) (w : World),
    Trail (Steps firstBytes toyArea [oneByte]) (World.start toyTree) acts w ∧
      w.outcome = some (.complete 1 1) ∧
      ∃ bytes, w.tree.find ["a", "b"] = some (.file bytes) ∧ Holds firstBytes oneByte bytes := by
  have ran₁ : beginFile toyArea oneByte ⟨toyTree, []⟩ = (.ok (), oneBegun) :=
    ran_eq (by decide +kernel)
  have ran₂ : landChunk toyArea oneByte 0 (.ok [7]) ⟨oneBegun.tree, []⟩ = (.ok (), aloneLanded) :=
    ran_eq (by decide +kernel)
  have ran₃ : promoteFile toyArea oneByte ⟨aloneLanded.tree, []⟩ = (.ok ["a", "b"], alonePromoted) :=
    ran_eq (by decide +kernel)
  let w₁ := World.begun { World.start toyTree with tree := oneBegun.tree } 0 oneByte (.ok ())
  let w₂ := World.landed { w₁ with tree := aloneLanded.tree } 0 0 (fun _ => none) none (.ok [7])
    (.ok ())
  let w₃ := World.settle { w₂ with tree := alonePromoted.tree } 0 (.ok ["a", "b"])
  have first : Steps firstBytes toyArea [oneByte] (World.start toyTree) (.starts 0 []) w₁ :=
    .starts (going_clear rfl rfl) rfl rfl (Nat.lt_add_right _ (by decide)) ran₁
  have second : Steps firstBytes toyArea [oneByte] w₁ (.fetched 0 0 (.ok [7]) []) w₂ := by
    refine .fetched (going_clear rfl rfl) rfl rfl rfl (by decide) rfl
      (Nat.lt_add_right _ (by decide)) ?_ ran₂
    intro bytes reply
    cases reply
    rfl
  have third : Steps firstBytes toyArea [oneByte] w₂ (.promotes 0 []) w₃ := by
    refine .promotes (going_clear rfl rfl) rfl rfl ?_ ran₃
    decide
  have fourth : Steps firstBytes toyArea [oneByte] w₃ .finishes
      { w₃ with outcome := some w₃.concluded } := by
    refine .finishes rfl (.inr fun i inside => ?_) ⟨fun _ _ => .inr rfl, .inl rfl, fun _ _ _ => rfl⟩
    obtain rfl : i = 0 := by simpa using inside
    rfl
  have run := Trail.cons first <| .cons second <| .cons third <| .cons fourth (.nil _)
  have apart : Apart [oneByte] := by
    intro i j f g p hi hj _ _
    have inside := (List.getElem?_eq_some_iff.1 hi).1
    have inside' := (List.getElem?_eq_some_iff.1 hj).1
    simp only [List.length_singleton] at inside inside'
    omega
  have derived : ∀ file ∈ [oneByte], Derived firstBytes toyArea toyTree file := by
    intro file hfile
    rw [List.mem_singleton.1 hfile]
    exact .inl rfl
  exact ⟨_, _, run, rfl, (promoted_exact apart derived run).1 0 oneByte _ rfl rfl⟩

/-! ## Two names, one path -/

/-- A file of two bytes under another spelling of that name. -/
def twoBytes : PlannedFile := ⟨"a//b", 2, [toyAddress 9], []⟩

def bothBegun : Disk := (beginFile toyArea twoBytes ⟨oneBegun.tree, []⟩).2

def oneLanded : Disk := (landChunk toyArea oneByte 0 (.ok [7]) ⟨bothBegun.tree, []⟩).2

def onePromoted : Disk := (promoteFile toyArea oneByte ⟨oneLanded.tree, []⟩).2

/-- Two spellings of one path: the first file is moved with the second's length. -/
theorem spelled_twice : ([oneByte, twoBytes].map PlannedFile.destRel).Nodup ∧
    (∀ file ∈ [oneByte, twoBytes], Derived firstBytes toyArea toyTree file) ∧
    ∃ (acts : List Act) (w : World) (path : Path),
      Trail (Steps firstBytes toyArea [oneByte, twoBytes]) (World.start toyTree) acts w ∧
        w.files 0 = .ended (.ok path) ∧
          ¬ ∃ bytes, w.tree.find path = some (.file bytes) ∧ Holds firstBytes oneByte bytes := by
  refine ⟨by decide +kernel, fun file hfile => .inl ?_, ?_⟩
  · rcases List.mem_cons.1 hfile with rfl | hfile
    · rfl
    · rw [List.mem_singleton.1 hfile]
      rfl
  · have ran₁ : beginFile toyArea oneByte ⟨toyTree, []⟩ = (.ok (), oneBegun) :=
      ran_eq (by decide +kernel)
    have ran₂ : beginFile toyArea twoBytes ⟨oneBegun.tree, []⟩ = (.ok (), bothBegun) :=
      ran_eq (by decide +kernel)
    have ran₃ : landChunk toyArea oneByte 0 (.ok [7]) ⟨bothBegun.tree, []⟩ = (.ok (), oneLanded) :=
      ran_eq (by decide +kernel)
    have ran₄ : promoteFile toyArea oneByte ⟨oneLanded.tree, []⟩ = (.ok ["a", "b"], onePromoted) :=
      ran_eq (by decide +kernel)
    have left : onePromoted.tree.find ["a", "b"] = some (.file [7, 0]) := by decide +kernel
    let w₁ := World.begun { World.start toyTree with tree := oneBegun.tree } 0 oneByte (.ok ())
    let w₂ := World.begun { w₁ with tree := bothBegun.tree } 1 twoBytes (.ok ())
    let w₃ := World.landed { w₂ with tree := oneLanded.tree } 0 0 (fun _ => none) none (.ok [7])
      (.ok ())
    let w₄ := World.settle { w₃ with tree := onePromoted.tree } 0 (.ok ["a", "b"])
    have first : Steps firstBytes toyArea [oneByte, twoBytes] (World.start toyTree) (.starts 0 []) w₁ :=
      .starts (going_clear rfl rfl) rfl rfl (Nat.lt_add_right _ (by decide)) ran₁
    have second : Steps firstBytes toyArea [oneByte, twoBytes] w₁ (.starts 1 []) w₂ :=
      .starts (going_clear rfl rfl) rfl rfl (Nat.lt_add_right _ (by decide)) ran₂
    have third : Steps firstBytes toyArea [oneByte, twoBytes] w₂ (.fetched 0 0 (.ok [7]) []) w₃ := by
      refine .fetched (going_clear rfl rfl) rfl rfl rfl (by decide) rfl
        (Nat.lt_add_right _ (by decide)) ?_ ran₃
      intro bytes reply
      cases reply
      rfl
    have fourth : Steps firstBytes toyArea [oneByte, twoBytes] w₃ (.promotes 0 []) w₄ := by
      refine .promotes (going_clear rfl rfl) rfl rfl ?_ ran₄
      decide
    refine ⟨_, w₄, _, .cons first <| .cons second <| .cons third <| .cons fourth (.nil _), rfl, ?_⟩
    rintro ⟨bytes, held, holds⟩
    cases left.symm.trans held
    exact absurd holds.size (by decide)

end Daemonseed.Net.Promoted
