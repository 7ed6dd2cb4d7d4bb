import Daemonseed.Lib.Visits
import Daemonseed.Net.ShareContent
import Daemonseed.Storage.IndexRows

/-! # The index of a shared folder

Scans, watched changes and hash passes over one folder and the index of it, at
the same time as the folder is edited. The index keeps what each file's chunks
hash to, under the size and the time it had then. -/
namespace Daemonseed.Storage.Indexer
open Daemonseed.Lib Daemonseed.Lib.Bytes Daemonseed.Lib.Files Daemonseed.Lib.Flows
  Daemonseed.Lib.Flows.Flow Daemonseed.Lib.Maps Daemonseed.Lib.Pools Daemonseed.Lib.Runs
  Daemonseed.Lib.Streams
open Daemonseed.Net.HonestSharer (toyAddr)
open Daemonseed.Net.ShareContent Daemonseed.Net.ShareFrames Daemonseed.Net.ShareServe
  Daemonseed.Storage.IndexRows

structure FileState where
  bytes : Octets
  mtimeUnixMs : UInt64
  short : bytes.length < 2 ^ 64

/-- What the system says of a path instead of a file's size and time. -/
inductive StatFault
  | fails (e : IoError)
  | isDir

/-- The folder, and the index of it. Every time that a path's file has had is kept
in `had`, and every path that was opened to be read in `opened`. -/
structure Folder where
  files : Path → Option FileState
  faults : Path → Option StatFault
  had : List (Path × UInt64)
  opened : List Path
  index : Map String ShareEntry

inductive CachedHashError
  | index (e : IndexError)
  | serve (e : ServeError)

/-- How one read of an open file goes. It gives that many bytes and one more, as
far as there are; of a file that is not the one that was looked at, anything. -/
inductive ReadReply
  | fails (e : IoError)
  | gives (count : Nat) (other : Octets)

inductive Query
  | cancelled
  | cancels
  | index
  | walk
  | opens (p : Path)

@[reducible] def Reply : Query → Type
  | .cancelled => Bool
  | .cancels => Nat → Bool
  | .index => Option IndexError
  | .walk => List RelPath
  | .opens _ => Except IoError (List ReadReply)

abbrev IndexFlow (α : Type) := Flow Folder Query Reply CachedHashError α

/-! ## The index -/

def onIndex : IndexFlow Unit := do
  let fault : Option IndexError ← call Query.index
  match fault with
  | none => return ()
  | some e => throw (.index e)

def get (relPath : String) : IndexFlow (Option ShareEntry) := do
  onIndex
  view fun w => .ok (w.index.lookup relPath)

def put (entry : ShareEntry) : IndexFlow Unit := do
  onIndex
  attempt fun w => .ok ((), { w with index := w.index.insert entry.relPath entry })

def remove (relPath : String) : IndexFlow Unit := do
  onIndex
  attempt fun w => .ok ((), { w with index := w.index.erase relPath })

def entries : IndexFlow (List ShareEntry) := do
  onIndex
  view fun w => .ok w.index.values

/-! ## Scans -/

structure Metadata where
  size : UInt64
  mtimeUnixMs : UInt64

def statOf (w : Folder) (p : Path) : Except StatFault Metadata :=
  match w.faults p with
  | some fault => .error fault
  | none =>
    match w.files p with
    | none => .error (.fails .notFound)
    | some f => .ok ⟨.ofNat f.bytes.length, f.mtimeUnixMs⟩

def metadata (p : Path) : IndexFlow (Except StatFault Metadata) := view fun w => .ok (statOf w p)

def ShareEntry.unchanged (stat : Metadata) (entry : ShareEntry) : Bool :=
  entry.size = stat.size ∧ entry.mtimeUnixMs = stat.mtimeUnixMs

/-- What a scan does with one file, and whether it indexed it. The addresses of a
file that has not changed stay. -/
def scanFile (p : RelPath) : IndexFlow Bool := do
  match ← metadata p.parts with
  | .error _ => return false
  | .ok stat => do
    let held ← get (shareRelPath p)
    put ⟨shareRelPath p, stat.size, stat.mtimeUnixMs,
      (held.filter (ShareEntry.unchanged stat)).bind (·.chunkAddrs)⟩
    return true

def scanFiles : Nat → List RelPath → IndexFlow Nat
  | count, [] => return count
  | count, p :: rest => do
    if ← call Query.cancelled then return count
    else do
      let indexed ← scanFile p
      scanFiles (if indexed then count + 1 else count) rest

def scanInto : IndexFlow Nat := do
  scanFiles 0 (← call Query.walk)

def isFile (p : Path) : IndexFlow Bool := do
  return (← metadata p).toOption.isSome

def prune : List ShareEntry → IndexFlow Unit
  | [] => return ()
  | existing :: rest => do
    if ← isFile (joinRel existing.relPath) then prune rest
    else do
      remove existing.relPath
      prune rest

def reconcileInto : IndexFlow Nat := do
  let count ← scanInto
  if ← call Query.cancelled then return count
  else do
    prune (← entries)
    return count

/-- Only the files that changed after `since`. -/
def rescanFiles (since : UInt64) : Nat → List RelPath → IndexFlow Nat
  | updated, [] => return updated
  | updated, p :: rest => do
    match ← metadata p.parts with
    | .error _ => rescanFiles since updated rest
    | .ok stat =>
      if stat.mtimeUnixMs ≤ since then rescanFiles since updated rest
      else do
        put ⟨shareRelPath p, stat.size, stat.mtimeUnixMs, none⟩
        rescanFiles since (updated + 1) rest

def mtimeRescan (since : UInt64) : IndexFlow Nat := do
  rescanFiles since 0 (← call Query.walk)

/-! ## Watched changes -/

/-- A change of a path, which is below the root or is passed over. -/
inductive FsEvent
  | upserted (path : Option RelPath)
  | removed (path : Option RelPath)

def applyEvent : FsEvent → IndexFlow Unit
  | .upserted none | .removed none => return ()
  | .upserted (some p) => do
    match ← metadata p.parts with
    | .ok stat => put ⟨shareRelPath p, stat.size, stat.mtimeUnixMs, none⟩
    | .error .isDir => return ()
    | .error (.fails .notFound) => remove (shareRelPath p)
    | .error (.fails _) => return ()
  | .removed (some p) => remove (shareRelPath p)

/-! ## The cached hash pass -/

variable (chunkAddr : Octets → Except String ChunkAddr)

/-- What one read gives of a file that was looked at when it had this time. -/
def answerOf (w : Folder) (p : Path) (mtimeUnixMs : UInt64) (offset count : Nat)
    (other : Octets) : Octets :=
  match (w.files p).filter (·.mtimeUnixMs = mtimeUnixMs) with
  | some f => (f.bytes.drop offset).take (count + 1)
  | none => other

/-- The reads of a file up to its end, each a section of its own. -/
def readOn (p : Path) (mtimeUnixMs : UInt64) : List ReadReply → Nat → IndexFlow (Stream IoError)
  | [], _ => return [.error .other]
  | .fails e :: _, _ => return [.error e]
  | .gives count other :: replies, offset => do
    let answer ← view fun w => .ok (answerOf w p mtimeUnixMs offset count other)
    if answer = [] then return [.ok []]
    else do
      let rest ← readOn p mtimeUnixMs replies (offset + answer.length)
      return .ok answer :: rest

def hashMiss (p : Path) (mtimeUnixMs : UInt64) : IndexFlow (List ChunkAddr × Nat) := do
  attempt fun w => .ok ((), { w with opened := p :: w.opened })
  let opened : Except IoError (List ReadReply) ← call (Query.opens p)
  match opened with
  | .error e => throw (.serve (.io e))
  | .ok replies => do
    let s ← readOn p mtimeUnixMs replies 0
    let cancels ← call Query.cancels
    liftM ((hashFileChunks chunkAddr cancels s).mapError CachedHashError.serve)

def addrBlob (chunks : List ChunkAddr) : Octets := chunks.flatMap (·.val)

/-- Addresses that are as many as a file of this size has chunks. -/
def parseAddrBlob (blob : Octets) (size : UInt64) : Option (List ChunkAddr) :=
  if blob.length % chunkAddrLen ≠ 0 then none
  else
    let count := blob.length / chunkAddrLen
    if count ≠ divCeil size.toNat chunkSize then none
    else (readChunks count blob).toOption.map (·.1)

/-- The addresses kept for a file, where they can be used. -/
def cachedAddrs (stat : Metadata) (held : Option ShareEntry) : Option (List ChunkAddr) :=
  ((held.filter (ShareEntry.unchanged stat)).bind (·.chunkAddrs)).bind (parseAddrBlob · stat.size)

def StatFault.error : StatFault → IoError
  | .fails e => e
  | .isDir => .other

def cachedFile (p : RelPath) : IndexFlow ManifestEntry := do
  if ← call Query.cancelled then throw (.serve .cancelled)
  else
    match ← metadata p.parts with
    | .error fault => throw (.serve (.io fault.error))
    | .ok stat => do
      let held ← get (shareRelPath p)
      match cachedAddrs stat held with
      | some chunks => return ⟨shareRelPath p, stat.size.toFin, chunks⟩
      | none => do
        let hashed ← hashMiss chunkAddr p.parts stat.mtimeUnixMs
        put ⟨shareRelPath p, .ofNat hashed.2, stat.mtimeUnixMs, some (addrBlob hashed.1)⟩
        return ⟨shareRelPath p, .ofNat _ hashed.2, hashed.1⟩

def cachedFiles : List RelPath → IndexFlow (List ManifestEntry)
  | [] => return []
  | p :: rest => do
    let entry ← cachedFile chunkAddr p
    return entry :: (← cachedFiles rest)

def cachedOrHash : IndexFlow (List ManifestEntry) := do
  cachedFiles chunkAddr (shareFiles (← call Query.walk))

/-! ## What happens to a folder -/

inductive Act
  | scans
  | reconciles
  | hashes
  | rescans (since : UInt64)
  | applies (event : FsEvent)
  | edits (p : Path) (file : Option FileState)
  | breaks (p : Path) (fault : Option StatFault)

inductive Outcome
  | done
  | counted (files : Nat)
  | manifest (entries : List ManifestEntry)

def edit (p : Path) (file : Option FileState) (w : Folder) : Folder :=
  { w with
    files := Function.update w.files p file
    had := file.elim w.had fun f => (p, f.mtimeUnixMs) :: w.had }

def Act.flow : Act → IndexFlow Outcome
  | .scans => return .counted (← scanInto)
  | .reconciles => return .counted (← reconcileInto)
  | .hashes => return .manifest (← cachedOrHash chunkAddr)
  | .rescans since => return .counted (← mtimeRescan since)
  | .applies event => do
    applyEvent event
    return .done
  | .edits p file => do
    attempt fun w => .ok ((), edit p file w)
    return .done
  | .breaks p fault => do
    attempt fun w => .ok ((), { w with faults := Function.update w.faults p fault })
    return .done

/-! ## Coherence -/

variable {chunkAddr : Octets → Except String ChunkAddr}

/-- What is kept for a path under a time: if its file has that time, what its
bytes hash to. -/
def Told (chunkAddr : Octets → Except String ChunkAddr) (w : Folder) (p : Path)
    (size mtimeUnixMs : UInt64) (blob : Octets) : Prop :=
  (p, mtimeUnixMs) ∈ w.had ∧ ∀ f, w.files p = some f → f.mtimeUnixMs = mtimeUnixMs →
    size = .ofNat f.bytes.length ∧
      ∃ addrs, (chunks chunkSize f.bytes).mapM chunkAddr = .ok addrs ∧ blob = addrBlob addrs

/-- Every row stands under its own path, and its addresses are right. -/
structure Coherent (chunkAddr : Octets → Except String ChunkAddr) (w : Folder) : Prop where
  had : ∀ p f, w.files p = some f → (p, f.mtimeUnixMs) ∈ w.had
  named : ∀ key entry, w.index.lookup key = some entry → entry.relPath = key
  told : ∀ key entry blob, w.index.lookup key = some entry → entry.chunkAddrs = some blob →
    Told chunkAddr w (joinRel key) entry.size entry.mtimeUnixMs blob

/-- A file that is not what it was has a time it never had. -/
structure Later (w t : Folder) : Prop where
  had : ∀ x ∈ w.had, x ∈ t.had
  files : ∀ p f, t.files p = some f → w.files p = some f ∨ (p, f.mtimeUnixMs) ∉ w.had

/-- A section that changes a file gives it a time it never had. -/
def Fresh (f : Folder → Folder) (w : Folder) : Prop := Later w (f w)

variable {w t u : Folder} {p : Path} {size mtimeUnixMs : UInt64} {blob : Octets}

theorem Later.refl : Later w w := ⟨fun _ mem => mem, fun _ _ held => .inl held⟩

theorem Later.trans (h : Later w t) (h' : Later t u) : Later w u where
  had x mem := h'.had x (h.had x mem)
  files p f held := by
    rcases h'.files p f held with held | new
    · exact h.files p f held
    · exact .inr fun mem => new (h.had _ mem)

/-- What was told of a file's time stays true of it. -/
theorem Told.later (h : Told chunkAddr w p size mtimeUnixMs blob) (later : Later w t) :
    Told chunkAddr t p size mtimeUnixMs blob := by
  refine ⟨later.had _ h.1, fun f held same => ?_⟩
  rcases later.files p f held with held | new
  · exact h.2 f held same
  · exact absurd (same ▸ h.1) new

/-- A row that is right, or has no addresses. -/
theorem Coherent.insert {entry : ShareEntry} (h : Coherent chunkAddr w)
    (right : ∀ blob, entry.chunkAddrs = some blob →
      Told chunkAddr w (joinRel entry.relPath) entry.size entry.mtimeUnixMs blob) :
    Coherent chunkAddr { w with index := w.index.insert entry.relPath entry } where
  had := h.had
  named key e held := by
    dsimp only at held
    by_cases same : key = entry.relPath
    · subst same
      rw [AList.lookup_insert] at held
      rw [Option.some.inj held]
    · rw [AList.lookup_insert_ne same] at held
      exact h.named key e held
  told key e blob held has := by
    dsimp only at held
    by_cases same : key = entry.relPath
    · subst same
      rw [AList.lookup_insert] at held
      obtain rfl := Option.some.inj held
      exact right blob has
    · rw [AList.lookup_insert_ne same] at held
      exact h.told key e blob held has

theorem Coherent.erase {key : String} (h : Coherent chunkAddr w) :
    Coherent chunkAddr { w with index := w.index.erase key } where
  had := h.had
  named key' e held := by
    dsimp only at held
    by_cases same : key' = key
    · rw [same, AList.lookup_erase] at held
      cases held
    · rw [AList.lookup_erase_ne same] at held
      exact h.named key' e held
  told key' e blob held has := by
    dsimp only at held
    by_cases same : key' = key
    · rw [same, AList.lookup_erase] at held
      cases held
    · rw [AList.lookup_erase_ne same] at held
      exact h.told key' e blob held has

/-- An edit leaves the rows right. -/
theorem Coherent.edit {file : Option FileState} (h : Coherent chunkAddr w)
    (later : Later w (edit p file w)) : Coherent chunkAddr (edit p file w) where
  had q f held := by
    change Function.update w.files p file q = some f at held
    by_cases same : q = p
    · subst same
      rw [Function.update_self] at held
      rw [Indexer.edit, held]
      exact List.mem_cons_self
    · rw [Function.update_of_ne same] at held
      exact later.had _ (h.had q f held)
  named := h.named
  told key e blob held has := (h.told key e blob held has).later later

/-! ## What every run keeps -/

/-- The addresses kept for a file are such that a pass uses them. -/
def Cached (w : Folder) (p : RelPath) : Prop := ∃ f, w.files p.parts = some f ∧
  ∃ addrs, cachedAddrs ⟨.ofNat f.bytes.length, f.mtimeUnixMs⟩ (w.index.lookup (shareRelPath p)) =
    some addrs

/-- The rows are right, the files of `K` are those of `F`, and those of `C` are
cached and have not been read. -/
structure Keeps (chunkAddr : Octets → Except String ChunkAddr) (F : RelPath → Option FileState)
    (K C : RelPath → Prop) (w : Folder) : Prop where
  coherent : Coherent chunkAddr w
  frozen : ∀ p, K p → w.files p.parts = F p
  calm : ∀ p, C p → w.faults p.parts = none
  cached : ∀ p, C p → Cached w p
  unread : ∀ p, C p → p.parts ∉ w.opened

/-- A section that gives a file that it changes a time it never had, and leaves the
files of `K`. -/
structure Lets (K C : RelPath → Prop) (f : Folder → Folder) (w : Folder) : Prop where
  fresh : Fresh f w
  files : ∀ p, K p → (f w).files p.parts = w.files p.parts
  faults : ∀ p, C p → (f w).faults p.parts = w.faults p.parts

/-- Besides, what is cached of `D` stays so. -/
structure Grows (D : RelPath → Prop) (w t : Folder) : Prop extends Later w t where
  kept : ∀ p, D p → Cached w p → Cached t p

variable {F : RelPath → Option FileState} {K C D : RelPath → Prop} {α : Type}
  {post : α → Folder → Prop}

theorem Grows.refl : Grows D w w := ⟨.refl, fun _ _ h => h⟩

theorem Grows.trans (h : Grows D w t) (h' : Grows D t u) : Grows D w u :=
  ⟨h.toLater.trans h'.toLater, fun p mem cached => h'.kept p mem (h.kept p mem cached)⟩

theorem Cached.put {entry : ShareEntry} {q : RelPath} (h : Cached w q)
    (here : shareRelPath q = entry.relPath →
      Cached { w with index := w.index.insert entry.relPath entry } q) :
    Cached { w with index := w.index.insert entry.relPath entry } q := by
  by_cases same : shareRelPath q = entry.relPath
  · exact here same
  · obtain ⟨f, held, addrs, found⟩ := h
    exact ⟨f, held, addrs, by rwa [AList.lookup_insert_ne same]⟩

theorem Cached.remove {key : String} {q : RelPath} (h : Cached w q) (other : shareRelPath q ≠ key) :
    Cached { w with index := w.index.erase key } q := by
  obtain ⟨f, held, addrs, found⟩ := h
  exact ⟨f, held, addrs, by rwa [AList.lookup_erase_ne other]⟩

/-- A cached file is there. -/
theorem Keeps.stat {q : RelPath} (h : Keeps chunkAddr F K C w) (mem : C q) :
    ∃ stat, statOf w q.parts = .ok stat := by
  obtain ⟨f, held, -⟩ := h.cached q mem
  exact ⟨⟨.ofNat f.bytes.length, f.mtimeUnixMs⟩, by simp [statOf, held, h.calm q mem]⟩

/-- The event is of no path in `C`. -/
def FsEvent.Spares (C : RelPath → Prop) : FsEvent → Prop
  | .upserted path | .removed path => ∀ p, path = some p → ¬ C p

/-- A file that still has a time it had is the file it was. -/
theorem Later.same {f : FileState} (later : Later w t) (had : (p, mtimeUnixMs) ∈ w.had)
    (held : t.files p = some f) (same : f.mtimeUnixMs = mtimeUnixMs) : w.files p = some f :=
  (later.files p f held).resolve_right fun new => new (same ▸ had)

/-- The act leaves what is cached of `C`, if that is so from the beginning, and what
is cached of `D`, since whenever it is. -/
def Act.Spares (F : RelPath → Option FileState) (C D : RelPath → Prop) : Act → Prop
  | .scans | .reconciles => ∀ p, ¬ D p
  | .rescans since => (∀ p, C p → ∀ f, F p = some f → f.mtimeUnixMs ≤ since) ∧ ∀ p, ¬ D p
  | .applies event => event.Spares C ∧ event.Spares D
  | .hashes | .edits _ _ | .breaks _ _ => True

/-- The index is left, and the files of `K`. -/
theorem Keeps.changed {f : Folder → Folder} (h : Keeps chunkAddr F K C w) (sub : ∀ p, C p → K p)
    (sub' : ∀ p, D p → K p) (coherent : Coherent chunkAddr (f w)) (lets : Lets K C f w)
    (same : (f w).index = w.index) (same' : (f w).opened = w.opened) :
    Keeps chunkAddr F K C (f w) ∧ Grows D w (f w) := by
  have stays : ∀ p, K p → Cached w p → Cached (f w) p := by
    rintro p mem ⟨g, held, addrs, found⟩
    exact ⟨g, (lets.files p mem).trans held, addrs, by rw [same, found]⟩
  refine ⟨?_, lets.fresh, fun p mem => stays p (sub' p mem)⟩
  exact {
    coherent
    frozen := fun p mem => (lets.files p mem).trans (h.frozen p mem)
    calm := fun p mem => (lets.faults p mem).trans (h.calm p mem)
    cached := fun p mem => stays p (sub p mem) (h.cached p mem)
    unread := fun p mem => same' ▸ h.unread p mem }

variable {ι : Type} [DecidableEq ι] {acts : ι → Act}

/-- No path. -/
def Nowhere (_ : RelPath) : Prop := False

/-- A folder that has not been indexed. -/
structure New (w : Folder) : Prop where
  index : w.index = ∅
  had : ∀ p f, w.files p = some f → (p, f.mtimeUnixMs) ∈ w.had

theorem New.coherent (h : New w) : Coherent chunkAddr w where
  had := h.had
  named key entry held := by
    rw [h.index] at held
    cases held
  told key entry blob held := by
    rw [h.index] at held
    cases held

/-- Nothing is asked of a folder whose rows are right. -/
theorem Coherent.keeps (h : Coherent chunkAddr w) :
    Keeps chunkAddr (fun p => w.files p.parts) K Nowhere w where
  coherent := h
  frozen _ _ := rfl
  calm _ mem := mem.elim
  cached _ mem := mem.elim
  unread _ mem := mem.elim

theorem Fresh.lets {f : Folder → Folder} (h : Fresh f w) : Lets Nowhere Nowhere f w :=
  ⟨h, fun _ mem => mem.elim, fun _ mem => mem.elim⟩

/-! ## One file -/

/-- A section of a scan or of a pass: the folder is left as it is. -/
def Leaves (f : Folder → Folder) (w : Folder) : Prop :=
  (f w).files = w.files ∧ (f w).faults = w.faults ∧ (f w).had = w.had

/-- What a manifest lists, of the files that are left alone. -/
def Listed (K : RelPath → Prop) (entries : List ManifestEntry) (p : RelPath) : Prop :=
  K p ∧ ∃ e ∈ entries, e.relPath = shareRelPath p

end Daemonseed.Storage.Indexer
