import Daemonseed.Lib.Runs
import Daemonseed.Net.RouteBudget
import Daemonseed.Storage.Fetched

/-! # A download

The files of a confirmed manifest, a few of them at a time, and of each a few
chunks at a time: each chunk is written where it belongs as it comes, and a file
whose chunks have all come is moved to its place. The worst of the failures
decides how the download ends. -/
namespace Daemonseed.Net.Download
open Daemonseed.Lib.Bytes Daemonseed.Lib.Files Daemonseed.Lib.Runs Daemonseed.Net.RouteBudget
  Daemonseed.Net.ShareFrames Daemonseed.Net.ShareServe Daemonseed.Storage.Fetched

/-- How many files are driven at once. -/
def fFiles : Nat := 4

/-- How many chunks of a file are polled at once. -/
def chunkPollCap : Nat := wCeil

structure PlannedFile where
  destRel : String
  size : Fin (2 ^ 64)
  chunks : List ChunkAddr
  alreadyVerified : List Nat

inductive DownloadOutcome
  | complete (files : UInt32) (bytes : UInt64)
  | transientFailed (message : String)
  | integrityFailed (message : String)
  | localFailed (message : String)
  deriving DecidableEq

/-! ## Failures -/

structure Stop where
  cls : FetchErrorClass
  message : String
  deriving DecidableEq

def stagingError (context destRel : String) (e : FetchedError) : String :=
  context ++ " " ++ destRel ++ ": " ++ e.text

namespace Stop

def fromFetch (context : String) (e : VeilidNetError) : Stop :=
  ⟨e.fetchClass, context ++ ": " ++ e.text⟩

def localFault (message : String) : Stop := ⟨.localFault, message⟩

def integrity (message : String) : Stop := ⟨.integrity, message⟩

/-- Bytes that do not fit the file's layout are the sharer's. -/
def fromStagingWrite (context destRel : String) (e : FetchedError) : Stop :=
  match e with
  | .corrupt _ => ⟨.integrity, stagingError context destRel e⟩
  | _ => ⟨.localFault, stagingError context destRel e⟩

end Stop

/-- An integrity failure before any other, else the first. -/
def mergeStop (current : Option Stop) (incoming : Stop) : Stop :=
  match current with
  | none => incoming
  | some c =>
    if c.cls = .integrity then c else if incoming.cls = .integrity then incoming else c

/-! ## One file -/

def expectedChunkLen (index last size : Nat) : Nat :=
  if index < last then chunkSize else size - last * chunkSize

namespace PlannedFile

/-- The chunks a resume skips. -/
def already (self : PlannedFile) : List Nat :=
  (List.range self.chunks.length).filter (· ∈ self.alreadyVerified)

def toFetch (self : PlannedFile) : List Nat :=
  (List.range self.chunks.length).filter (· ∉ self.alreadyVerified)

def last (self : PlannedFile) : Nat := self.chunks.length - 1

/-- What the chunks skipped count for. -/
def seededBytes (self : PlannedFile) : Nat :=
  (self.already.map fun i => expectedChunkLen i self.last self.size.val).sum

end PlannedFile

section

variable (area : StagingArea) (file : PlannedFile)

/-- The start of `fetch_one_file`: the chunks must tile the size exactly. -/
def beginFile : Sys Stop Unit :=
  let expected := expectedChunks file.size.val
  if file.chunks.length ≠ expected then
    .fail (.integrity s!"manifest for {file.destRel} lists {file.chunks.length} chunk(s) but its {file.size.val}-byte size requires {expected}")
  else
    (area.preallocate file.destRel file.size.val).mapError fun e =>
      .localFault (stagingError "could not stage" file.destRel e)

/-- A chunk that came: it must fill its slot exactly. -/
def landChunk (i : Nat) (reply : Except VeilidNetError Octets) : Sys Stop Unit :=
  match reply with
  | .error e => .fail (.fromFetch "chunk fetch failed" e)
  | .ok bytes =>
    let expected := expectedChunkLen i file.last file.size.val
    if bytes.length ≠ expected then
      .fail (.integrity s!"chunk {i} of {file.destRel} verified but is {bytes.length} bytes, not the manifest's {expected}")
    else
      (area.writeVerifiedChunk file.destRel (i * chunkSize) bytes).mapError
        (.fromStagingWrite "could not write" file.destRel)

def promoteFile : Sys Stop Path :=
  (area.promote file.destRel).mapError fun e =>
    .localFault (stagingError "could not finalize" file.destRel e)

end

/-- Where a file stands: its chunks' results, and the worst of them. -/
inductive FileState
  | waiting
  | fetching (results : Nat → Option (Except Stop Unit)) (worst : Option Stop)
  | ended (result : Except Stop Path)

def FileState.isOver : FileState → Bool
  | .ended _ => true
  | _ => false

/-- The driver polls a chunk once all but a few before it are over. -/
def PlannedFile.Polls (file : PlannedFile) (results : Nat → Option (Except Stop Unit)) (k : Nat) :
    Prop :=
  file.toFetch.idxOf k < chunkPollCap + (file.toFetch.filter fun j => (results j).isSome).length

/-! ## The download -/

structure World where
  tree : Tree
  files : Nat → FileState
  worst : Option Stop
  chunksDone : UInt32
  bytesDone : UInt64
  filesDone : UInt32
  outcome : Option DownloadOutcome

namespace World

def start (tree : Tree) : World :=
  ⟨tree, fun _ => .waiting, none, .ofNat 0, .ofNat 0, .ofNat 0, none⟩

/-- A file's driver has returned. -/
def settle (w : World) (i : Nat) (result : Except Stop Path) : World :=
  { w with
    files := Function.update w.files i (.ended result)
    worst := match result with
      | .ok _ => w.worst
      | .error s => some (mergeStop w.worst s)
    filesDone := match result with
      | .ok _ => w.filesDone + .ofNat 1
      | .error _ => w.filesDone }

/-- What a file is after its start. -/
def begun (w : World) (i : Nat) (file : PlannedFile) (result : Except Stop Unit) : World :=
  match result with
  | .error s => w.settle i (.error s)
  | .ok _ =>
    { w with
      files := Function.update w.files i (.fetching (fun _ => none) none)
      chunksDone := w.chunksDone + .ofNat file.already.length
      bytesDone := w.bytesDone + .ofNat file.seededBytes }

/-- What a file is after one more chunk; an integrity failure ends it. -/
def landed (w : World) (i k : Nat) (results : Nat → Option (Except Stop Unit))
    (worst : Option Stop) (reply : Except VeilidNetError Octets) (result : Except Stop Unit) :
    World :=
  let results := Function.update results k (some result)
  match result with
  | .ok _ =>
    { w with
      files := Function.update w.files i (.fetching results worst)
      chunksDone := w.chunksDone + .ofNat 1
      bytesDone := w.bytesDone + .ofNat (match reply with
        | .ok bytes => bytes.length
        | .error _ => 0) }
  | .error s =>
    if s.cls = .integrity then w.settle i (.error (mergeStop worst s))
    else { w with files := Function.update w.files i (.fetching results (some (mergeStop worst s))) }

/-- The driver has stopped at an integrity failure. -/
def Broken (w : World) : Prop := ∃ s, w.worst = some s ∧ s.cls = .integrity

def Going (w : World) : Prop := w.outcome = none ∧ ¬ w.Broken

/-- The driver polls a file once all but a few before it are over. -/
def Polls (w : World) (count i : Nat) : Prop :=
  i < fFiles + ((List.range count).filter fun j => (w.files j).isOver).length

def concluded (w : World) : DownloadOutcome :=
  match w.worst with
  | none => .complete w.filesDone w.bytesDone
  | some s =>
    match s.cls with
    | .integrity => .integrityFailed s.message
    | .transient | .notServed => .transientFailed s.message
    | .localFault => .localFailed s.message

end World

inductive Act
  | starts (i : Nat) (faults : List (Option Nat))
  | fetched (i k : Nat) (reply : Except VeilidNetError Octets) (faults : List (Option Nat))
  | fails (i : Nat)
  | promotes (i : Nat) (faults : List (Option Nat))
  | finishes

/-- What becomes of the area at the end: it is destroyed, but kept where a
resume may come. -/
def Left (area : StagingArea) (worst : Option Stop) (t t' : Tree) : Prop :=
  match worst with
  | none => area.Destroyed t t'
  | some s => if s.cls = .integrity then area.Destroyed t t' else t' = t

/-- One move of `run_download`. A chunk that comes hashes to the address asked
for; any system call may fail. -/
inductive Steps (chunkAddr : Octets → Except String ChunkAddr) (area : StagingArea)
    (files : List PlannedFile) (w : World) : Act → World → Prop
  | starts {i file faults result d} (going : w.Going) (at_ : files[i]? = some file)
    (waits : w.files i = .waiting) (polls : w.Polls files.length i)
    (ran : beginFile area file ⟨w.tree, faults⟩ = (result, d)) :
    Steps _ _ _ w (.starts i faults) (World.begun { w with tree := d.tree } i file result)
  | fetched {i file k addr results worst reply faults result d} (going : w.Going)
    (at_ : files[i]? = some file) (fetching : w.files i = .fetching results worst)
    (asked : file.chunks[k]? = some addr) (missing : k ∈ file.toFetch) (first : results k = none)
    (polls : file.Polls results k) (genuine : ∀ bytes, reply = .ok bytes → chunkAddr bytes = .ok addr)
    (ran : landChunk area file k reply ⟨w.tree, faults⟩ = (result, d)) :
    Steps _ _ _ w (.fetched i k reply faults)
      (World.landed { w with tree := d.tree } i k results worst reply result)
  | fails {i file results s} (going : w.Going) (at_ : files[i]? = some file)
    (fetching : w.files i = .fetching results (some s))
    (all : ∀ k ∈ file.toFetch, results k ≠ none) :
    Steps _ _ _ w (.fails i) (w.settle i (.error s))
  | promotes {i file results faults result d} (going : w.Going) (at_ : files[i]? = some file)
    (fetching : w.files i = .fetching results none) (all : ∀ k ∈ file.toFetch, results k ≠ none)
    (ran : promoteFile area file ⟨w.tree, faults⟩ = (result, d)) :
    Steps _ _ _ w (.promotes i faults) (World.settle { w with tree := d.tree } i result)
  | finishes {t'} (going : w.outcome = none)
    (all : w.Broken ∨ ∀ i < files.length, (w.files i).isOver = true)
    (left : Left area w.worst w.tree t') :
    Steps _ _ _ w .finishes { w with tree := t', outcome := some w.concluded }

end Daemonseed.Net.Download
