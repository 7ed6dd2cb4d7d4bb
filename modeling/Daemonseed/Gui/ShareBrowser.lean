import Mathlib
import Daemonseed.Lib.Maps
import Daemonseed.Lib.Outlines

/-! # The tree of shares

Each share that is listed is a root; once its manifest is fetched its files hang below
it in folders made from their paths. Every node is given a number when it is made, and
a click names a node by that number, however many listings and manifests have come in
between. How names are folded for their order and how a size is written are
parameters. -/
namespace Daemonseed.Gui.ShareBrowser
open Daemonseed.Lib.Maps Daemonseed.Lib.Outlines Daemonseed.Lib.Outlines.Outline

inductive NodeKind
  | share
  | folder
  | file
  deriving DecidableEq, Repr

/-- A line of the tree as it is drawn. -/
structure Row where
  id : Nat
  depth : Nat
  label : String
  size : String
  kind : NodeKind
  expandable : Bool
  expanded : Bool
  mine : Bool
  loading : Bool
  sharer : String
  sharerFingerprint : String
  deriving DecidableEq, Repr

/-- Which kind of node a download was asked at. -/
inductive RootKind
  | share
  | file
  | dir (path : String)
  deriving DecidableEq, Repr

structure FetchRequest where
  shareId : String
  name : String
  deriving DecidableEq, Repr

/-- What a download at a node fetches; all of the share where nothing is selected. -/
structure FetchTarget where
  shareId : String
  name : String
  selected : Option (List Nat)
  rootKind : RootKind
  deriving DecidableEq, Repr

structure ManifestRow where
  relPath : String
  size : Nat
  index : Nat
  deriving DecidableEq, Repr

structure Dir where
  id : Nat
  name : String
  expanded : Bool
  deriving DecidableEq, Repr

structure File where
  id : Nat
  name : String
  size : Nat
  manifestIndex : Nat
  deriving DecidableEq, Repr

abbrev Node := Item Dir File

structure ShareNode where
  id : Nat
  shareId : String
  name : String
  mine : Bool
  sharerHandle : String
  sharerFingerprint : String
  expanded : Bool
  loaded : Bool
  children : List Node

/-- The shares of the last listing, and the number the next node gets. -/
structure ShareBrowser where
  nextId : Nat
  shares : List ShareNode

def ShareBrowser.new : ShareBrowser := ⟨0, []⟩

/-- A share as it is listed. -/
structure Listing where
  shareId : String
  name : String
  sharerHandle : String
  sharerFingerprint : String
  deriving DecidableEq, Repr

/-! ## A listing -/

def isMine (myHandle : Option String) (sharerHandle : String) : Bool :=
  myHandle.any fun h => !h.isEmpty && h == sharerHandle

/-- What a listing says of a share that stays. -/
def ShareNode.relisted (share : ShareNode) (listing : Listing) (mine : Bool) : ShareNode :=
  { share with
    name := listing.name
    mine := mine
    sharerHandle := listing.sharerHandle
    sharerFingerprint := listing.sharerFingerprint }

def ShareNode.fresh (id : Nat) (listing : Listing) (mine : Bool) : ShareNode where
  id := id
  shareId := listing.shareId
  name := listing.name
  mine := mine
  sharerHandle := listing.sharerHandle
  sharerFingerprint := listing.sharerFingerprint
  expanded := false
  loaded := false
  children := []

/-- The listed shares one after another: one that was there is taken over, another one
is made. -/
def relist (myHandle : Option String) :
    List Listing → Map String ShareNode → Nat → List ShareNode × Nat
  | [], _, nextId => ([], nextId)
  | listing :: rest, prior, nextId =>
    let mine := isMine myHandle listing.sharerHandle
    match prior.lookup listing.shareId with
    | some existing =>
      let next := relist myHandle rest (prior.erase listing.shareId) nextId
      (existing.relisted listing mine :: next.1, next.2)
    | none =>
      let next := relist myHandle rest prior (nextId + 1)
      (.fresh nextId listing mine :: next.1, next.2)

/-- The shares under their ids; of two with one id the later. -/
def byShareId (shares : List ShareNode) : Map String ShareNode :=
  shares.foldl (fun prior share => prior.insert share.shareId share) ∅

def ShareBrowser.setShares (self : ShareBrowser) (listings : List Listing)
    (myHandle : Option String) : ShareBrowser :=
  let next := relist myHandle listings (byShareId self.shares) self.nextId
  ⟨next.2, next.1⟩

/-! ## A manifest -/

/-- The parts of a path, the empty ones left out. -/
def segments (relPath : String) : List String :=
  ((relPath.toList.splitOn '/').filter (· ≠ [])).map String.ofList

/-- An entry below its folders, which are made where they are missing. A path without
parts is left out. -/
def insertPath (root : List Node × Nat) (entry : ManifestRow) : List Node × Nat :=
  match (segments entry.relPath).getLast? with
  | none => root
  | some fileName =>
    grow Dir.name (fun id name => ⟨id, name, false⟩)
      (fun id => ⟨id, fileName, entry.size, entry.index⟩)
      (segments entry.relPath).dropLast root.1 root.2

section Order
variable (toLowercase : String → String)

/-- Folders first, then by name with its case folded. -/
def browserOrder (a b : Dir ⊕ File) : Bool :=
  let rank : Dir ⊕ File → Nat := Sum.elim (fun _ => 0) (fun _ => 1)
  let name : Dir ⊕ File → String :=
    Sum.elim (fun d => toLowercase d.name) (fun f => toLowercase f.name)
  decide (rank a < rank b ∨ rank a = rank b ∧ name a ≤ name b)

def sortTree (root : List Node) : List Node := arrange (browserOrder toLowercase) root

/-- The first share with this id gets these files. -/
def loadInto (shareId : String) (children : List Node) : List ShareNode → List ShareNode
  | [] => []
  | share :: rest =>
    if share.shareId = shareId then { share with children := children, loaded := true } :: rest
    else share :: loadInto shareId children rest

/-- A manifest of a share that is no longer listed changes nothing. -/
def ShareBrowser.loadManifest (self : ShareBrowser) (shareId : String)
    (entries : List ManifestRow) : ShareBrowser :=
  if self.shares.any (·.shareId = shareId) then
    let root := entries.foldl insertPath ([], self.nextId)
    ⟨root.2, loadInto shareId (sortTree toLowercase root.1) self.shares⟩
  else self

end Order

/-! ## A click -/

def toggleIn (level : List Node) (id : Nat) : Option (List Node) :=
  amend (fun dir => decide (dir.id = id)) (fun dir => { dir with expanded := !dir.expanded }) level

/-- The node opened or closed; with it what has to be fetched first. -/
def toggleShares (id : Nat) : List ShareNode → List ShareNode × Option FetchRequest
  | [] => ([], none)
  | share :: rest =>
    if share.id = id then
      let share := { share with expanded := !share.expanded }
      (share :: rest,
        if share.expanded && !share.loaded then some ⟨share.shareId, share.name⟩ else none)
    else
      match toggleIn share.children id with
      | some children => ({ share with children := children } :: rest, none)
      | none =>
        let next := toggleShares id rest
        (share :: next.1, next.2)

def ShareBrowser.toggle (self : ShareBrowser) (id : Nat) : ShareBrowser × Option FetchRequest :=
  let next := toggleShares id self.shares
  (⟨self.nextId, next.1⟩, next.2)

/-- The indices of the files of a level and of all below it. -/
def collectFileIndices (level : List Node) : List Nat :=
  gather (fun _ held => held) (fun file => [file.manifestIndex]) level

/-- A folder's path from that of the folder above it. -/
def dirPath (above name : String) : String := if above.isEmpty then name else above ++ "/" ++ name

mutual

def indicesUnderNode (id : Nat) (above : String) : Node → Option (Option String × List Nat)
  | .leaf file => if file.id = id then some (none, [file.manifestIndex]) else none
  | .branch dir children =>
    if dir.id = id then some (some (dirPath above dir.name), collectFileIndices children)
    else indicesUnder id (dirPath above dir.name) children

/-- What the node selects that has this number: a folder its path and all files below
it, a file itself. -/
def indicesUnder (id : Nat) (above : String) : List Node → Option (Option String × List Nat)
  | [] => none
  | node :: rest => (indicesUnderNode id above node).or (indicesUnder id above rest)

end

def ShareNode.fetchTarget (share : ShareNode) (id : Nat) : Option FetchTarget :=
  if share.id = id then some ⟨share.shareId, share.name, none, .share⟩
  else (indicesUnder id "" share.children).map fun found =>
    ⟨share.shareId, share.name, some found.2, (found.1.map .dir).getD .file⟩

def ShareBrowser.fetchTarget (self : ShareBrowser) (id : Nat) : Option FetchTarget :=
  self.shares.findSome? (·.fetchTarget id)

/-! ## The tree as it is drawn -/

/-- The name before the last `#`, where there is one before it. -/
def stripHandleHash (handle : String) : String :=
  let before := handle.toList.rdropWhile (· ≠ '#')
  if before.dropLast = [] then handle else .ofList before.dropLast

section Rows
variable (humanBytes : Nat → String)

def folderRow (depth : Nat) (dir : Dir) (children : List Node) : Row :=
  ⟨dir.id, depth, dir.name, "", .folder, !children.isEmpty, dir.expanded, false, false, "", ""⟩

def fileRow (depth : Nat) (file : File) : Row :=
  ⟨file.id, depth, file.name, humanBytes file.size, .file, false, false, false, false, "", ""⟩

mutual

def nodeRows (depth : Nat) : Node → List Row
  | .branch dir children =>
    folderRow depth dir children :: if dir.expanded then pushRows (depth + 1) children else []
  | .leaf file => [fileRow humanBytes depth file]

/-- A level, and below each folder that is open what it holds. -/
def pushRows (depth : Nat) : List Node → List Row
  | [] => []
  | node :: rest => nodeRows depth node ++ pushRows depth rest

end

def shareRow (share : ShareNode) : Row where
  id := share.id
  depth := 0
  label := share.name
  size := ""
  kind := .share
  expandable := true
  expanded := share.expanded
  mine := share.mine
  loading := share.expanded && !share.loaded
  sharer := if share.mine then "" else stripHandleHash share.sharerHandle
  sharerFingerprint := if share.mine then "" else share.sharerFingerprint

def ShareBrowser.rows (self : ShareBrowser) : List Row :=
  self.shares.flatMap fun share =>
    shareRow share ::
      if share.expanded && share.loaded then pushRows humanBytes 1 share.children else []

end Rows

/-! ## Runs -/

/-- What the window tells the tree. -/
inductive Event
  | listing (shares : List Listing) (myHandle : Option String)
  | manifest (shareId : String) (entries : List ManifestRow)
  | toggled (id : Nat)

section Runs
variable (toLowercase : String → String)

def ShareBrowser.step (self : ShareBrowser) : Event → ShareBrowser
  | .listing shares myHandle => self.setShares shares myHandle
  | .manifest shareId entries => self.loadManifest toLowercase shareId entries
  | .toggled id => (self.toggle id).1

def run (events : List Event) : ShareBrowser := events.foldl (ShareBrowser.step toLowercase) .new

theorem run_concat {events : List Event} {e : Event} :
    run toLowercase (events ++ [e]) = (run toLowercase events).step toLowercase e :=
  List.foldl_concat ..

end Runs

/-! ## What a node selects -/

abbrev Label := Dir ⊕ File

def idOf : Label → Nat := Sum.elim Dir.id File.id

/-- The path of the folder that is reached by these names. -/
def joined (above : String) (names : List String) : String := names.foldl dirPath above

/-- What an item selects that is below the folders with these names. -/
def pick (above : String) : List String × Node → Option String × List Nat
  | (names, .branch dir children) =>
    (some (joined above (names ++ [dir.name])), collectFileIndices children)
  | (_, .leaf file) => (none, [file.manifestIndex])

theorem pick_below {above : String} {name : String} (e : List String × Node) :
    pick above (name :: e.1, e.2) = pick (dirPath above name) e := by
  obtain ⟨names, i⟩ := e
  cases i with
  | branch dir children => rfl
  | leaf file => rfl

/-- **The first node with the number is selected**, in the order they are drawn. -/
theorem indicesUnder_eq {id : Nat} {above : String} {level : List Node} :
    indicesUnder id above level =
      ((items Dir.name level).find? fun e => idOf (label e.2) = id).map (pick above) := by
  induction level using induction generalizing above with
  | nil => rfl
  | leaf file rest ih =>
    rw [indicesUnder, indicesUnderNode, ih, items, itemsOf, List.singleton_append, List.find?_cons]
    by_cases here : file.id = id
    · simp [here, idOf, label, pick]
    · simp [here, idOf, label]
  | branch dir children rest ihBelow ihRest =>
    rw [indicesUnder, indicesUnderNode, ihBelow, ihRest, items, itemsOf, List.cons_append]
    by_cases here : dir.id = id
    · simp [here, idOf, label, pick, joined]
    · have other : ¬ decide (idOf (label ((([] : List String), Item.branch dir children)).2) = id) :=
        fun same => here (of_decide_eq_true same)
      rw [if_neg here, List.find?_cons_of_neg (p := fun e : List String × Node =>
        decide (idOf (label e.2) = id)) other, List.find?_append, List.find?_map, Option.map_or,
        Option.map_map]
      exact congrArg₂ Option.or (Option.map_congr fun e _ => (pick_below e).symm) rfl

/-- The numbers of a share and of all that hangs below it. -/
def ShareNode.ids (share : ShareNode) : List Nat := share.id :: (labels share.children).map idOf

variable {share : ShareNode} {self : ShareBrowser} {id : Nat} {t : FetchTarget}

theorem ShareNode.mem_ids (found : share.fetchTarget id = some t) : id ∈ share.ids := by
  unfold ShareNode.fetchTarget at found
  split at found
  · rename_i here
    exact here ▸ List.mem_cons_self
  · obtain ⟨r, found, -⟩ := Option.map_eq_some_iff.1 found
    rw [indicesUnder_eq] at found
    obtain ⟨e, found, -⟩ := Option.map_eq_some_iff.1 found
    refine List.mem_cons_of_mem _ ?_
    rw [← labels_items Dir.name, List.map_map]
    have same := List.find?_some found
    exact List.mem_map.2 ⟨e, List.mem_of_find?_eq_some found, of_decide_eq_true same⟩

/-- What a share's own line selects. -/
theorem ShareNode.fetchTarget_self :
    share.fetchTarget share.id = some ⟨share.shareId, share.name, none, .share⟩ := if_pos rfl

theorem disjoint_of_nodup {α : Type} {f : α → List Nat} {xs : List α} {a b : α}
    (distinct : (xs.flatMap f).Nodup) (ha : a ∈ xs) (hb : b ∈ xs) (ne : a ≠ b) :
    List.Disjoint (f a) (f b) := by
  induction xs with
  | nil => cases ha
  | cons x xs ih =>
    rw [List.flatMap_cons, List.nodup_append'] at distinct
    obtain ⟨-, rest, away⟩ := distinct
    rcases List.mem_cons.1 ha with rfl | heldA
    · rcases List.mem_cons.1 hb with rfl | heldB
      · exact absurd rfl ne
      · exact fun id ma mb => away ma (List.mem_flatMap.2 ⟨b, heldB, mb⟩)
    · rcases List.mem_cons.1 hb with rfl | heldB
      · exact fun id ma mb => away mb (List.mem_flatMap.2 ⟨a, heldA, ma⟩)
      · exact ih rest heldA heldB

/-- All numbers differ and are below the next one. -/
structure Sound (browser : ShareBrowser) : Prop where
  distinct : (browser.shares.flatMap ShareNode.ids).Nodup
  below : ∀ id ∈ browser.shares.flatMap ShareNode.ids, id < browser.nextId

theorem Sound.apart (sound : Sound self) {a b : ShareNode} (ha : a ∈ self.shares)
    (hb : b ∈ self.shares) (ne : a ≠ b) : List.Disjoint a.ids b.ids :=
  disjoint_of_nodup sound.distinct ha hb ne

/-- **A number is that of one node**: the first share that has it is the one. -/
theorem Sound.fetchTarget_iff (sound : Sound self) : self.fetchTarget id = some t ↔
    ∃ share ∈ self.shares, share.fetchTarget id = some t := by
  refine ⟨List.exists_of_findSome?_eq_some, fun held => ?_⟩
  obtain ⟨share, mem, found⟩ := held
  cases first : self.fetchTarget id with
  | none => exact absurd (List.findSome?_eq_none_iff.1 first share mem) (by simp [found])
  | some t' =>
    obtain ⟨share', mem', found'⟩ := List.exists_of_findSome?_eq_some first
    by_cases same : share' = share
    · rw [← found', same, found]
    · exact absurd (sound.apart mem' mem same (ShareNode.mem_ids found') (ShareNode.mem_ids found))
        not_false

theorem Sound.lt (sound : Sound self) (found : self.fetchTarget id = some t) :
    id < self.nextId := by
  obtain ⟨share, mem, found⟩ := sound.fetchTarget_iff.1 found
  exact sound.below id (List.mem_flatMap.2 ⟨share, mem, ShareNode.mem_ids found⟩)

/-! ## What a listing leaves -/

/-- A share as it was, but for what a listing says of it. -/
def Kept (old share : ShareNode) : Prop := ∃ listing mine, share = old.relisted listing mine

theorem byShareId_some {shares : List ShareNode} {key : String} {old : ShareNode}
    (held : (byShareId shares).lookup key = some old) : old ∈ shares ∧ old.shareId = key := by
  have fold (shares : List ShareNode) (m : Map String ShareNode)
      (held : (shares.foldl (fun prior share => prior.insert share.shareId share) m).lookup key =
        some old) : (old ∈ shares ∧ old.shareId = key) ∨ m.lookup key = some old := by
    induction shares generalizing m with
    | nil => exact .inr held
    | cons share shares ih =>
      rcases ih _ held with ⟨mem, same⟩ | held
      · exact .inl ⟨List.mem_cons_of_mem _ mem, same⟩
      · by_cases here : key = share.shareId
        · rw [here, AList.lookup_insert] at held
          exact .inl ⟨Option.some.inj held ▸ List.mem_cons_self,
            (Option.some.inj held ▸ here).symm⟩
        · rw [AList.lookup_insert_ne here] at held
          exact .inr held
  rcases fold shares ∅ held with found | found
  · exact found
  · cases found

section Relist
variable {old : List ShareNode} {prior : Map String ShareNode} {n : Nat} {myHandle : Option String}
  {listings : List Listing}

/-- The shares that are there, under their ids. -/
def Given (old : List ShareNode) (prior : Map String ShareNode) : Prop :=
  ∀ key s, prior.lookup key = some s → s ∈ old ∧ s.shareId = key

theorem Given.erase (given : Given old prior) (key : String) : Given old (prior.erase key) := by
  intro other s held
  by_cases same : other = key
  · rw [same, AList.lookup_erase] at held
    cases held
  · rw [AList.lookup_erase_ne same] at held
    exact given other s held

/-- A share is taken over from those given, or made with a number not given before. -/
structure Relisted (prior : Map String ShareNode) (n m : Nat) (share : ShareNode) : Prop where
  origin : (∃ old, prior.lookup share.shareId = some old ∧ Kept old share) ∨
    n ≤ share.id ∧ share.id < m ∧ share.children = [] ∧ share.loaded = false

theorem Relisted.loaded {m : Nat} (relisted : Relisted prior n m share)
    (loaded : share.loaded = true) : prior.lookup share.shareId ≠ none := by
  rcases relisted.origin with ⟨old, held, -⟩ | ⟨-, -, -, not⟩
  · simp [held]
  · exact absurd (loaded.symm.trans not) (by decide)

/-- **What a listing makes of the shares.** -/
theorem relist_spec (myHandle : Option String) (listings : List Listing) (n : Nat)
    (given : Given old prior) :
    n ≤ (relist myHandle listings prior n).2 ∧
    (relist myHandle listings prior n).1.map ShareNode.shareId = listings.map Listing.shareId ∧
    (∀ share ∈ (relist myHandle listings prior n).1,
      Relisted prior n (relist myHandle listings prior n).2 share) ∧
    ∀ key s, prior.lookup key = some s → key ∈ listings.map Listing.shareId →
      ∃ share ∈ (relist myHandle listings prior n).1, Kept s share := by
  induction listings generalizing prior n with
  | nil =>
    refine ⟨Nat.le_refl _, rfl, fun _ mem => ?_, fun _ _ _ mem => ?_⟩
    · cases mem
    · cases mem
  | cons listing rest ih =>
    unfold relist
    cases held : prior.lookup listing.shareId with
    | some existing =>
      obtain ⟨later, ids, each, stay⟩ := ih (n := n) (given.erase listing.shareId)
      have own := (given _ _ held).2
      refine ⟨later, congrArg₂ List.cons own ids, List.forall_mem_cons.2
        ⟨⟨.inl ⟨existing, ?_, _, _, rfl⟩⟩, fun share mem => ⟨?_⟩⟩, fun key s kept mem => ?_⟩
      · exact own.symm ▸ held
      · rcases (each share mem).origin with ⟨s, kept, alike⟩ | fresh
        · by_cases same : share.shareId = listing.shareId
          · rw [same, AList.lookup_erase] at kept
            cases kept
          · rw [AList.lookup_erase_ne same] at kept
            exact .inl ⟨s, kept, alike⟩
        · exact .inr fresh
      · by_cases same : key = listing.shareId
        · rw [same, held] at kept
          obtain rfl := Option.some.inj kept
          exact ⟨_, List.mem_cons_self, listing, _, rfl⟩
        · obtain ⟨share, mem, alike⟩ := stay key s ((AList.lookup_erase_ne same).trans kept)
            ((List.mem_cons.1 mem).resolve_left same)
          exact ⟨share, List.mem_cons_of_mem _ mem, alike⟩
    | none =>
      obtain ⟨later, ids, each, stay⟩ := ih (n := n + 1) given
      refine ⟨Nat.le_of_succ_le later, congrArg₂ List.cons rfl ids, List.forall_mem_cons.2
        ⟨⟨.inr ⟨Nat.le_refl _, later, rfl, rfl⟩⟩, fun share mem => ⟨?_⟩⟩, fun key s kept mem => ?_⟩
      · rcases (each share mem).origin with kept | ⟨lo, hi, bare⟩
        · exact .inl kept
        · exact .inr ⟨Nat.le_of_succ_le lo, hi, bare⟩
      · have other : key ≠ listing.shareId := fun same => by
          rw [same, held] at kept
          cases kept
        obtain ⟨share, mem, alike⟩ := stay key s kept ((List.mem_cons.1 mem).resolve_left other)
        exact ⟨share, List.mem_cons_of_mem _ mem, alike⟩

theorem Kept.ids {s : ShareNode} (kept : Kept s share) : share.ids = s.ids := by
  obtain ⟨listing, mine, rfl⟩ := kept
  rfl

/-- The numbers still differ, and of the shares with one id only the first has files. -/
theorem relist_apart (given : Given old prior) (distinct : (old.flatMap ShareNode.ids).Nodup)
    (below : ∀ id ∈ old.flatMap ShareNode.ids, id < n) :
    ((relist myHandle listings prior n).1.flatMap ShareNode.ids).Nodup ∧
    (relist myHandle listings prior n).1.Pairwise fun a b =>
      b.loaded = true → a.shareId ≠ b.shareId := by
  induction listings generalizing prior n with
  | nil => exact ⟨.nil, .nil⟩
  | cons listing rest ih =>
    unfold relist
    cases held : prior.lookup listing.shareId with
    | some existing =>
      have given' := given.erase listing.shareId
      obtain ⟨apart, first⟩ := ih (n := n) given' below
      obtain ⟨-, -, each, -⟩ := relist_spec myHandle rest n given'
      obtain ⟨mem, own⟩ := given _ _ held
      refine ⟨?_, List.pairwise_cons.2 ⟨fun share there loaded same => ?_, first⟩⟩
      · rw [List.flatMap_cons, List.nodup_append']
        refine ⟨(List.nodup_flatMap.1 distinct).1 existing mem, apart, fun id here there => ?_⟩
        obtain ⟨share, there, has⟩ := List.mem_flatMap.1 there
        rcases (each share there).origin with ⟨s, kept, alike⟩ | ⟨lo, -, bare, -⟩
        · obtain ⟨memS, ownS⟩ := given' _ _ kept
          -- a share is taken over once: the id it was found under is erased
          refine disjoint_of_nodup distinct mem memS (fun same => ?_) here (alike.ids ▸ has)
          rw [← ownS, ← same, own, AList.lookup_erase] at kept
          cases kept
        · have small := below id (List.mem_flatMap.2 ⟨existing, mem, here⟩)
          rw [ShareNode.ids, bare] at has
          rw [List.mem_singleton.1 has] at small
          omega
      · have none_ := (each share there).loaded loaded
        rw [← same] at none_
        exact none_ (own.symm ▸ AList.lookup_erase ..)
    | none =>
      obtain ⟨apart, first⟩ := ih (n := n + 1) given fun id mem => Nat.lt_succ_of_lt (below id mem)
      obtain ⟨-, -, each, -⟩ := relist_spec myHandle rest (n + 1) given
      refine ⟨?_, List.pairwise_cons.2 ⟨fun share there loaded same => ?_, first⟩⟩
      · rw [List.flatMap_cons, List.nodup_append']
        refine ⟨List.nodup_singleton _, apart, fun id here there => ?_⟩
        obtain ⟨share, there, has⟩ := List.mem_flatMap.1 there
        have new : id = n := List.mem_singleton.1 here
        rcases (each share there).origin with ⟨s, kept, alike⟩ | ⟨lo, -, bare, -⟩
        · have small := below id (List.mem_flatMap.2 ⟨s, (given _ _ kept).1, alike.ids ▸ has⟩)
          exact absurd (new ▸ small) (Nat.lt_irrefl _)
        · rw [ShareNode.ids, bare] at has
          have same := List.mem_singleton.1 has
          omega
      · exact (each share there).loaded loaded (same ▸ held)

end Relist

theorem given_byShareId (shares : List ShareNode) : Given shares (byShareId shares) :=
  fun _ _ held => byShareId_some held

theorem Sound.setShares (sound : Sound self) (listings : List Listing) (myHandle : Option String) :
    Sound (self.setShares listings myHandle) := by
  obtain ⟨later, -, each, -⟩ := relist_spec myHandle listings self.nextId
    (given_byShareId self.shares)
  refine ⟨(relist_apart (given_byShareId self.shares) sound.distinct sound.below).1, fun id mem => ?_⟩
  obtain ⟨share, mem, has⟩ := List.mem_flatMap.1 mem
  rcases (each share mem).origin with ⟨s, kept, alike⟩ | ⟨-, small, bare, -⟩
  · exact Nat.lt_of_lt_of_le (sound.below id (List.mem_flatMap.2
      ⟨s, (byShareId_some kept).1, alike.ids ▸ has⟩)) later
  · rw [ShareNode.ids, bare] at has
    rw [List.mem_singleton.1 has]
    exact small

/-! ## What a manifest leaves -/

/-- A file of a manifest, with the folders it is in. -/
structure Listed where
  folders : List String
  name : String
  size : Nat
  index : Nat
  deriving DecidableEq, Repr

/-- The file an entry names; none where its path has no parts. -/
def listed (entry : ManifestRow) : Option Listed :=
  (segments entry.relPath).getLast?.map fun name =>
    ⟨(segments entry.relPath).dropLast, name, entry.size, entry.index⟩

/-- A file of the tree, with the folders it hangs below. -/
def filed (e : List String × File) : Listed := ⟨e.1, e.2.name, e.2.size, e.2.manifestIndex⟩

/-- **The tree of a manifest**: each of its files hangs once below its folders, and no
folder is there twice. -/
structure Tree (entries : List ManifestRow) (root : List Node) : Prop where
  files : ((leaves Dir.name root).map filed).Perm (entries.filterMap listed)
  apart : Apart Dir.name root
  named : ∀ dir, .inl dir ∈ labels root → dir.name ≠ ""

/-- The numbers of a tree differ, and lie between where it was begun and the next one. -/
structure Numbered (first : Nat) (root : List Node × Nat) : Prop where
  begun : first ≤ root.2
  distinct : ((labels root.1).map idOf).Nodup
  within : ∀ id ∈ (labels root.1).map idOf, first ≤ id ∧ id < root.2

theorem segments_ne {path name : String} (mem : name ∈ segments path) : name ≠ "" := by
  obtain ⟨cs, held, rfl⟩ := List.mem_map.1 mem
  have some_ := of_decide_eq_true (List.mem_filter.1 held).2
  intro empty
  exact some_ (by simpa using congrArg String.toList empty)

section Insert
variable {entries done : List ManifestRow} {entry : ManifestRow} {root : List Node × Nat}
  {first : Nat}

theorem Tree.insertPath (tree : Tree done root.1) (entry : ManifestRow) :
    Tree (done ++ [entry]) (insertPath root entry).1 := by
  unfold ShareBrowser.insertPath
  cases last : (segments entry.relPath).getLast? with
  | none =>
    refine ⟨?_, tree.apart, tree.named⟩
    have none_ : listed entry = none := by rw [listed, last]; rfl
    rw [List.filterMap_append, List.filterMap_cons_none none_, List.filterMap_nil, List.append_nil]
    exact tree.files
  | some fileName =>
    have opened : ∀ n k, Dir.name ⟨n, k, false⟩ = k := fun _ _ => rfl
    refine ⟨?_, apart_grow opened tree.apart, fun dir mem => ?_⟩
    · obtain ⟨m, more⟩ := leaves_grow (fun id => File.mk id fileName entry.size entry.index)
        (segments entry.relPath).dropLast root.1 root.2 opened
      have some_ : listed entry = some ⟨(segments entry.relPath).dropLast, fileName, entry.size,
          entry.index⟩ := by rw [listed, last]; rfl
      rw [List.filterMap_append, List.filterMap_cons_some some_, List.filterMap_nil]
      exact (more.map filed).trans ((tree.files.cons _).trans (List.perm_append_singleton ..).symm)
    · obtain ⟨new, more, -, -, named⟩ := labels_grow idOf
        (fun id => File.mk id fileName entry.size entry.index) (segments entry.relPath).dropLast
        root.1 root.2 opened (fun _ _ => rfl) (fun _ => rfl)
      rcases List.mem_append.1 (more.mem_iff.1 mem) with mem | mem
      · exact segments_ne (List.mem_of_mem_dropLast (named dir mem))
      · exact tree.named dir mem

theorem Numbered.insertPath (numbered : Numbered first root) (entry : ManifestRow) :
    Numbered first (insertPath root entry) := by
  unfold ShareBrowser.insertPath
  cases last : (segments entry.relPath).getLast? with
  | none => exact numbered
  | some fileName =>
    have opened : ∀ n k, Dir.name ⟨n, k, false⟩ = k := fun _ _ => rfl
    obtain ⟨new, more, tags, next, -⟩ := labels_grow idOf
      (fun id => File.mk id fileName entry.size entry.index) (segments entry.relPath).dropLast
      root.1 root.2 opened (fun _ _ => rfl) (fun _ => rfl)
    have ids := more.map idOf
    rw [List.map_append, tags] at ids
    have fresh {id : Nat} (mem : id ∈ List.range' root.2 new.length) :
        root.2 ≤ id ∧ id < root.2 + new.length := by
      simpa using mem
    have begun := numbered.begun
    refine ⟨by rw [next]; omega, ids.nodup_iff.2 (List.nodup_append'.2
      ⟨List.nodup_range', numbered.distinct, fun id here there => ?_⟩), fun id mem => ?_⟩
    · have := fresh here
      have := numbered.within id there
      omega
    · rw [next]
      rcases List.mem_append.1 (ids.mem_iff.1 mem) with mem | mem
      · have := fresh mem
        omega
      · have := numbered.within id mem
        omega

theorem tree_foldl (entries done : List ManifestRow) (tree : Tree done root.1)
    (numbered : Numbered first root) :
    Tree (done ++ entries) (entries.foldl ShareBrowser.insertPath root).1 ∧
      Numbered first (entries.foldl ShareBrowser.insertPath root) := by
  induction entries generalizing done root with
  | nil => exact ⟨(List.append_nil done).symm ▸ tree, numbered⟩
  | cons entry rest ih =>
    have grown := ih (done ++ [entry]) (tree.insertPath entry) (numbered.insertPath entry)
    rwa [List.append_assoc] at grown

/-- **A manifest becomes its tree**, all of it newly numbered. -/
theorem tree_built (entries : List ManifestRow) (n : Nat) :
    Tree entries (entries.foldl ShareBrowser.insertPath ([], n)).1 ∧
      Numbered n (entries.foldl ShareBrowser.insertPath ([], n)) :=
  tree_foldl entries [] ⟨.refl _, trivial, fun _ mem => absurd mem List.not_mem_nil⟩
    ⟨Nat.le_refl n, .nil, fun _ mem => absurd mem List.not_mem_nil⟩

end Insert

section Order
variable {toLowercase : String → String} {entries : List ManifestRow} {root : List Node}

theorem Tree.sortTree (tree : Tree entries root) : Tree entries (sortTree toLowercase root) :=
  ⟨(leaves_arrange.map filed).trans tree.files, apart_arrange tree.apart, fun dir mem =>
    tree.named dir (labels_arrange.mem_iff.1 mem)⟩

/-- Put in order, the nodes keep their numbers. -/
theorem Numbered.sortTree (toLowercase : String → String) {first : Nat} {root : List Node × Nat}
    (numbered : Numbered first root) : Numbered first (sortTree toLowercase root.1, root.2) := by
  have same : ((labels (ShareBrowser.sortTree toLowercase root.1)).map idOf).Perm
      ((labels root.1).map idOf) := labels_arrange.map idOf
  exact ⟨numbered.begun, same.nodup_iff.2 numbered.distinct, fun id mem =>
    numbered.within id (same.mem_iff.1 mem)⟩

theorem browserOrder_iff {a b : Label} : browserOrder toLowercase a b = true ↔
    toLex (Sum.elim (fun _ => 0) (fun _ => 1) a,
        Sum.elim (fun d => toLowercase d.name) (fun f => toLowercase f.name) a) ≤
      toLex ((Sum.elim (fun _ => 0) (fun _ => 1) b : Nat),
        Sum.elim (fun d => toLowercase d.name) (fun f => toLowercase f.name) b) := by
  rw [Prod.Lex.toLex_le_toLex]
  exact decide_eq_true_iff

theorem ordered_sortTree : Ordered (browserOrder toLowercase) (sortTree toLowercase root) := by
  refine ordered_arrange (fun a b c hab hbc => ?_) fun a b => ?_
  · exact browserOrder_iff.2 ((browserOrder_iff.1 hab).trans (browserOrder_iff.1 hbc))
  · rw [Bool.or_eq_true, browserOrder_iff, browserOrder_iff]
    exact le_total _ _

end Order

/-- Of the shares with one id only the first has files. -/
def First (shares : List ShareNode) : Prop :=
  shares.Pairwise fun a b => b.loaded = true → a.shareId ≠ b.shareId

def ShareNode.filled (share : ShareNode) (children : List Node) : ShareNode :=
  { share with children := children, loaded := true }

section Load
variable {shareId : String} {children : List Node} {shares : List ShareNode}

/-- Only the first share with the id gets the files; no other one with it has any. -/
theorem loadInto_mem (first : First shares) (mem : share ∈ loadInto shareId children shares) :
    (share ∈ shares ∧ (share.shareId = shareId → share.loaded = false)) ∨
      ∃ s ∈ shares, s.shareId = shareId ∧ share = s.filled children := by
  induction shares with
  | nil => cases mem
  | cons s rest ih =>
    obtain ⟨alone, first⟩ := List.pairwise_cons.1 first
    unfold loadInto at mem
    split at mem
    · rename_i here
      rcases List.mem_cons.1 mem with rfl | mem
      · exact .inr ⟨s, List.mem_cons_self, here, rfl⟩
      · refine .inl ⟨List.mem_cons_of_mem _ mem, fun same => ?_⟩
        by_contra loaded
        exact alone share mem (by simpa using loaded) (here.trans same.symm)
    · rename_i other
      rcases List.mem_cons.1 mem with rfl | mem
      · exact .inl ⟨List.mem_cons_self, fun same => absurd same other⟩
      · rcases ih first mem with ⟨held, bare⟩ | ⟨s, held, same, rfl⟩
        · exact .inl ⟨List.mem_cons_of_mem _ held, bare⟩
        · exact .inr ⟨s, List.mem_cons_of_mem _ held, same, rfl⟩

theorem First.loadInto (first : First shares) : First (loadInto shareId children shares) := by
  induction shares with
  | nil => exact .nil
  | cons s rest ih =>
    obtain ⟨alone, first⟩ := List.pairwise_cons.1 first
    unfold ShareBrowser.loadInto
    split
    · exact List.pairwise_cons.2 ⟨alone, first⟩
    · rename_i other
      refine List.pairwise_cons.2 ⟨fun share mem loaded => ?_, ih first⟩
      rcases loadInto_mem first mem with ⟨mem, -⟩ | ⟨s, mem, same, rfl⟩
      · exact alone share mem loaded
      · exact fun alike => other (alike.trans same)

theorem loadInto_nodup (shareId : String) (distinct : (shares.flatMap ShareNode.ids).Nodup)
    (inner : ((labels children).map idOf).Nodup)
    (away : List.Disjoint (shares.flatMap ShareNode.ids) ((labels children).map idOf)) :
    ((loadInto shareId children shares).flatMap ShareNode.ids).Nodup ∧
      ∀ id ∈ (loadInto shareId children shares).flatMap ShareNode.ids,
        id ∈ shares.flatMap ShareNode.ids ∨ id ∈ (labels children).map idOf := by
  induction shares with
  | nil => exact ⟨.nil, fun _ mem => absurd mem List.not_mem_nil⟩
  | cons s rest ih =>
    rw [List.flatMap_cons] at distinct away
    obtain ⟨own, later, apart⟩ := List.nodup_append'.1 distinct
    have awayOwn : List.Disjoint s.ids ((labels children).map idOf) := fun id here there =>
      away (List.mem_append_left _ here) there
    have awayLater : List.Disjoint (rest.flatMap ShareNode.ids) ((labels children).map idOf) :=
      fun id here there => away (List.mem_append_right _ here) there
    unfold loadInto
    split
    · simp only [List.flatMap_cons]
      refine ⟨List.nodup_append'.2 ⟨List.nodup_cons.2
        ⟨fun mem => awayOwn List.mem_cons_self mem, inner⟩, later, fun id here there => ?_⟩,
        fun id mem => ?_⟩
      · rcases List.mem_cons.1 here with rfl | here
        · exact apart List.mem_cons_self there
        · exact awayLater there here
      · rcases List.mem_append.1 mem with mem | mem
        · rcases List.mem_cons.1 mem with rfl | mem
          · exact .inl (List.mem_append_left _ List.mem_cons_self)
          · exact .inr mem
        · exact .inl (List.mem_append_right _ mem)
    · obtain ⟨nodup, each⟩ := ih later awayLater
      simp only [List.flatMap_cons]
      refine ⟨List.nodup_append'.2 ⟨own, nodup, fun id here there => ?_⟩, fun id mem => ?_⟩
      · rcases each id there with there | there
        · exact apart here there
        · exact awayOwn here there
      · rcases List.mem_append.1 mem with mem | mem
        · exact .inl (List.mem_append_left _ mem)
        · exact (each id mem).imp_left (List.mem_append_right _)

end Load

section Manifest
variable {toLowercase : String → String}

theorem Sound.loadManifest (sound : Sound self) (shareId : String) (entries : List ManifestRow) :
    Sound (self.loadManifest toLowercase shareId entries) := by
  unfold ShareBrowser.loadManifest
  split
  · have numbered := (tree_built entries self.nextId).2.sortTree toLowercase
    -- what is new is numbered from `nextId` on, and all that is there below it
    obtain ⟨nodup, each⟩ := loadInto_nodup shareId sound.distinct numbered.distinct
      fun id here there => by
        have small := sound.below id here
        have large := numbered.within id there
        omega
    refine ⟨nodup, fun id mem => ?_⟩
    rcases each id mem with mem | mem
    · exact Nat.lt_of_lt_of_le (sound.below id mem) numbered.begun
    · exact (numbered.within id mem).2
  · exact sound

end Manifest

/-! ## What a click leaves -/

def shut (dir : Dir) : Dir := { dir with expanded := false }

/-- A share with all that is open closed. -/
def ShareNode.collapse (share : ShareNode) : ShareNode :=
  { share with expanded := false, children := relabel shut share.children }

theorem toggleShares_collapse (id : Nat) (shares : List ShareNode) :
    (toggleShares id shares).1.map ShareNode.collapse = shares.map ShareNode.collapse := by
  induction shares with
  | nil => rfl
  | cons share rest ih =>
    unfold toggleShares
    split
    · rfl
    · cases inside : toggleIn share.children id with
      | some children =>
        have same := relabel_amend (g := shut)
          (f := fun dir : Dir => { dir with expanded := !dir.expanded }) (fun _ => rfl) inside
        simp only [List.map_cons, ShareNode.collapse, same]
      | none => simp only [List.map_cons, ih]

theorem ids_collapse : share.collapse.ids = share.ids := by
  have same (x : Label) : idOf (x.map shut id) = idOf x := by
    cases x with
    | inl d => rfl
    | inr f => rfl
  simp only [ShareNode.ids, ShareNode.collapse, labels_relabel, List.map_map, Function.comp_def,
    same]

theorem pick_relabel {above : String} (e : List String × Node) :
    pick above (e.1, relabelItem shut e.2) = pick above e := by
  obtain ⟨names, i⟩ := e
  cases i with
  | branch dir children => exact congrArg (Prod.mk _) gather_relabel
  | leaf file => rfl

theorem indicesUnder_relabel {id : Nat} {above : String} {level : List Node} :
    indicesUnder id above (relabel shut level) = indicesUnder id above level := by
  have same (i : Node) : idOf (label (relabelItem shut i)) = idOf (label i) := by
    cases i with
    | branch dir children => rfl
    | leaf file => rfl
  rw [indicesUnder_eq, indicesUnder_eq, items_relabel, List.find?_map, Option.map_map]
  simp only [Function.comp_def, same, pick_relabel]
  rfl

theorem ShareNode.fetchTarget_collapse : share.collapse.fetchTarget id = share.fetchTarget id := by
  simp only [ShareNode.fetchTarget, ShareNode.collapse, indicesUnder_relabel]

theorem tree_relabel {entries : List ManifestRow} {root : List Node} :
    Tree entries (relabel shut root) ↔ Tree entries root := by
  constructor
  · intro tree
    refine ⟨leaves_relabel shut Dir.name ▸ tree.files,
      (apart_relabel shut Dir.name).1 tree.apart,
      fun dir mem => tree.named (shut dir) ?_⟩
    rw [labels_relabel]
    exact List.mem_map.2 ⟨_, mem, rfl⟩
  · intro tree
    refine ⟨(leaves_relabel shut Dir.name).symm ▸ tree.files,
      (apart_relabel shut Dir.name).2 tree.apart, fun dir mem => ?_⟩
    rw [labels_relabel] at mem
    obtain ⟨x, held, same⟩ := List.mem_map.1 mem
    cases x with
    | inl d =>
      obtain rfl := Sum.inl.inj same
      exact tree.named d held
    | inr f => cases same

theorem ordered_shut {toLowercase : String → String} {root : List Node} :
    Ordered (browserOrder toLowercase) (relabel shut root) ↔
      Ordered (browserOrder toLowercase) root := by
  have same : (fun x y : Label => browserOrder toLowercase (x.map shut id) (y.map shut id)) =
      browserOrder toLowercase := by
    funext x y
    cases x with
    | inl d =>
      cases y with
      | inl d' => rfl
      | inr f => rfl
    | inr f =>
      cases y with
      | inl d' => rfl
      | inr f' => rfl
  rw [ordered_relabel, same]

theorem toggle_mem (mem : share ∈ (self.toggle id).1.shares) :
    ∃ s ∈ self.shares, share.collapse = s.collapse := by
  have mem' := List.mem_map_of_mem (f := ShareNode.collapse) mem
  rw [ShareBrowser.toggle, toggleShares_collapse] at mem'
  obtain ⟨s, held, same⟩ := List.mem_map.1 mem'
  exact ⟨s, held, same.symm⟩

theorem fetchTarget_toggle (clicked : Nat) :
    (self.toggle clicked).1.fetchTarget id = self.fetchTarget id := by
  have via (shares : List ShareNode) : (shares.map ShareNode.collapse).findSome? (·.fetchTarget id) =
      shares.findSome? (·.fetchTarget id) := by
    rw [List.findSome?_map]
    simp only [Function.comp_def, ShareNode.fetchTarget_collapse]
  unfold ShareBrowser.fetchTarget ShareBrowser.toggle
  rw [← via, toggleShares_collapse, via]

theorem Sound.toggle (sound : Sound self) (id : Nat) : Sound (self.toggle id).1 := by
  have via (shares : List ShareNode) :
      (shares.map ShareNode.collapse).flatMap ShareNode.ids = shares.flatMap ShareNode.ids := by
    rw [List.flatMap_map]
    simp only [ids_collapse]
  have same :
      (self.toggle id).1.shares.flatMap ShareNode.ids = self.shares.flatMap ShareNode.ids := by
    unfold ShareBrowser.toggle
    rw [← via, toggleShares_collapse, via]
  exact ⟨same ▸ sound.distinct, fun other mem => sound.below other (same ▸ mem)⟩

theorem Sound.step {toLowercase : String → String} (sound : Sound self) (e : Event) :
    Sound (self.step toLowercase e) := by
  cases e with
  | listing shares myHandle => exact sound.setShares shares myHandle
  | manifest shareId entries => exact sound.loadManifest shareId entries
  | toggled id => exact sound.toggle id

theorem sound_run (toLowercase : String → String) (events : List Event) :
    Sound (run toLowercase events) := by
  induction events using List.reverseRecOn with
  | nil => exact ⟨.nil, fun _ mem => absurd mem List.not_mem_nil⟩
  | append_singleton events e ih =>
    rw [run_concat]
    exact ih.step e

/-! ## The tree shows the last manifest -/

/-- The manifest an event brings for a share. -/
def Event.loads (shareId : String) : Event → Option (List ManifestRow)
  | .manifest id entries => if id = shareId then some entries else none
  | _ => none

/-- The manifest that came last for a share. -/
def lastManifest (events : List Event) (shareId : String) : Option (List ManifestRow) :=
  events.foldl (fun last e => (e.loads shareId).or last) none

theorem lastManifest_concat {events : List Event} {e : Event} {shareId : String} :
    lastManifest (events ++ [e]) shareId = (e.loads shareId).or (lastManifest events shareId) :=
  List.foldl_concat ..

/-- **What the tree shows**: below each share whose manifest came, the tree of the last
one that came, each level in its order; below the others nothing. -/
structure Shows (toLowercase : String → String) (events : List Event) (browser : ShareBrowser) :
    Prop where
  bare : ∀ share ∈ browser.shares, share.loaded = false → share.children = []
  tree : ∀ share ∈ browser.shares, share.loaded = true →
    ∃ entries, lastManifest events share.shareId = some entries ∧ Tree entries share.children ∧
      Ordered (browserOrder toLowercase) share.children
  first : First browser.shares

section Shows
variable {toLowercase : String → String} {events : List Event}

theorem Shows.listing (shows_ : Shows toLowercase events self) (listings : List Listing)
    (myHandle : Option String) (sound : Sound self) :
    Shows toLowercase (events ++ [.listing listings myHandle])
      (self.setShares listings myHandle) := by
  obtain ⟨-, -, each, -⟩ := relist_spec myHandle listings self.nextId
    (given_byShareId self.shares)
  refine ⟨fun share mem bare => ?_, fun share mem loaded => ?_,
    (relist_apart (given_byShareId self.shares) sound.distinct sound.below).2⟩
  · rcases (each share mem).origin with ⟨s, held, listing, mine, rfl⟩ | ⟨-, -, none_, -⟩
    · exact shows_.bare s (byShareId_some held).1 bare
    · exact none_
  · rw [lastManifest_concat]
    rcases (each share mem).origin with ⟨s, held, listing, mine, rfl⟩ | ⟨-, -, -, not⟩
    · exact shows_.tree s (byShareId_some held).1 loaded
    · exact absurd (loaded.symm.trans not) (by decide)

theorem Shows.manifest (shows_ : Shows toLowercase events self) (shareId : String)
    (entries : List ManifestRow) : Shows toLowercase (events ++ [.manifest shareId entries])
      (self.loadManifest toLowercase shareId entries) := by
  have other {share : ShareNode} (ne : share.shareId ≠ shareId) :
      lastManifest (events ++ [.manifest shareId entries]) share.shareId =
        lastManifest events share.shareId := by
    rw [lastManifest_concat, Event.loads, if_neg (Ne.symm ne)]
    rfl
  unfold ShareBrowser.loadManifest
  split
  · refine ⟨fun share mem bare => ?_, fun share mem loaded => ?_, shows_.first.loadInto⟩
    · rcases loadInto_mem shows_.first mem with ⟨held, -⟩ | ⟨s, -, -, rfl⟩
      · exact shows_.bare share held bare
      · cases bare
    · rcases loadInto_mem shows_.first mem with ⟨held, without⟩ | ⟨s, -, same, rfl⟩
      · have ne : share.shareId ≠ shareId := fun same =>
          absurd (loaded.symm.trans (without same)) (by decide)
        rw [other ne]
        exact shows_.tree share held loaded
      · refine ⟨entries, ?_, (tree_built entries self.nextId).1.sortTree, ordered_sortTree⟩
        rw [lastManifest_concat, Event.loads]
        exact congrArg (Option.or · _) (if_pos same.symm)
  · rename_i absent
    refine ⟨shows_.bare, fun share mem loaded => ?_, shows_.first⟩
    have ne : share.shareId ≠ shareId := fun same =>
      absent (List.any_eq_true.2 ⟨share, mem, decide_eq_true same⟩)
    rw [other ne]
    exact shows_.tree share mem loaded

theorem Shows.toggled (shows_ : Shows toLowercase events self) (clicked : Nat) :
    Shows toLowercase (events ++ [.toggled clicked]) (self.toggle clicked).1 := by
  have first (shares : List ShareNode) : First (shares.map ShareNode.collapse) ↔ First shares :=
    List.pairwise_map
  refine ⟨fun share mem bare => ?_, fun share mem loaded => ?_, ?_⟩
  · obtain ⟨s, held, same⟩ := toggle_mem mem
    have none_ := shows_.bare s held ((congrArg ShareNode.loaded same).symm.trans bare)
    have alike := congrArg ShareNode.children same
    change relabel shut share.children = relabel shut s.children at alike
    rw [none_] at alike
    cases children : share.children with
    | nil => rfl
    | cons i rest =>
      rw [children] at alike
      cases alike
  · obtain ⟨s, held, same⟩ := toggle_mem mem
    obtain ⟨entries, last, tree, ordered⟩ := shows_.tree s held
      ((congrArg ShareNode.loaded same).symm.trans loaded)
    have alike := congrArg ShareNode.children same
    change relabel shut share.children = relabel shut s.children at alike
    refine ⟨entries, ?_, tree_relabel.1 (alike ▸ tree_relabel.2 tree),
      ordered_shut.1 (alike ▸ ordered_shut.2 ordered)⟩
    have own : share.collapse.shareId = s.collapse.shareId := congrArg ShareNode.shareId same
    change share.shareId = s.shareId at own
    rw [lastManifest_concat, own]
    exact last
  · refine (first _).1 ?_
    rw [ShareBrowser.toggle, toggleShares_collapse]
    exact (first _).2 shows_.first

theorem shows_run (toLowercase : String → String) (events : List Event) :
    Shows toLowercase events (run toLowercase events) := by
  induction events using List.reverseRecOn with
  | nil =>
    refine ⟨fun _ mem => ?_, fun _ mem => ?_, List.Pairwise.nil⟩
    · cases mem
    · cases mem
  | append_singleton events e ih =>
    rw [run_concat]
    cases e with
    | listing shares myHandle => exact ih.listing shares myHandle (sound_run toLowercase events)
    | manifest shareId entries => exact ih.manifest shareId entries
    | toggled id => exact ih.toggled id

end Shows

/-! ## What a row selects -/

theorem collectFileIndices_eq {level : List Node} :
    collectFileIndices level = (leaves Dir.name level).map fun e => e.2.manifestIndex := by
  induction level using induction with
  | nil => rfl
  | leaf file rest ih => exact congrArg (file.manifestIndex :: ·) ih
  | branch dir children rest ihBelow ihRest =>
    rw [leaves_branch, List.map_append, List.map_map, ← ihRest]
    exact congrArg (· ++ collectFileIndices rest) ihBelow

/-- **A folder selects all files of the manifest below it**, and no other. -/
theorem Tree.whole {entries : List ManifestRow} {root below : List Node} {above : List String}
    {dir : Dir} (tree : Tree entries root)
    (mem : (above, .branch dir below) ∈ items Dir.name root) :
    (collectFileIndices below).Perm
      (((entries.filterMap listed).filter fun file => decide (above ++ [dir.name] <+: file.folders)).map
        Listed.index) := by
  have same := congrArg (List.map fun e => (filed e).index) (through_branch tree.apart mem)
  have files := (tree.files.filter fun file => decide (above ++ [dir.name] <+: file.folders)).map
    Listed.index
  rw [List.filter_map, List.map_map] at files
  refine .trans (.of_eq ?_) files
  rw [collectFileIndices_eq]
  rw [List.map_map] at same
  refine same.symm.trans ?_
  unfold through
  refine congrArg (List.map _) (List.filter_congr fun e _ => ?_)
  rw [Bool.eq_iff_iff, List.isPrefixOf_iff_prefix]
  exact decide_eq_true_iff.symm

section Rows
variable {humanBytes : Nat → String}

end Rows

/-! ## A click comes late -/

/-- The same download, whatever the share is called by now. -/
structure Alike (t t' : FetchTarget) : Prop where
  shareId : t'.shareId = t.shareId
  selected : t'.selected = t.selected
  rootKind : t'.rootKind = t.rootKind

theorem Alike.trans {t t' t'' : FetchTarget} (h : Alike t t') (k : Alike t' t'') : Alike t t'' :=
  ⟨k.shareId.trans h.shareId, k.selected.trans h.selected, k.rootKind.trans h.rootKind⟩

theorem ShareNode.fetchTarget_shareId (found : share.fetchTarget id = some t) :
    t.shareId = share.shareId := by
  unfold ShareNode.fetchTarget at found
  split at found
  · exact Option.some.inj found ▸ rfl
  · obtain ⟨r, -, rfl⟩ := Option.map_eq_some_iff.1 found
    rfl

theorem Kept.fetchTarget {s : ShareNode} (kept : Kept s share) :
    share.fetchTarget id = (s.fetchTarget id).map fun t => { t with name := share.name } := by
  obtain ⟨listing, mine, rfl⟩ := kept
  unfold ShareNode.fetchTarget
  by_cases here : s.id = id
  · have here' : (s.relisted listing mine).id = id := here
    rw [if_pos here, if_pos here']
    rfl
  · have here' : (s.relisted listing mine).id ≠ id := here
    rw [if_neg here, if_neg here', Option.map_map]
    rfl

/-- A share with new files selects, by a number from before them, what it did. -/
theorem filled_fetchTarget {children : List Node} (away : id ∉ (labels children).map idOf)
    (found : (share.filled children).fetchTarget id = some t) : share.fetchTarget id = some t := by
  have here : id = share.id := by
    rcases List.mem_cons.1 (ShareNode.mem_ids found) with here | inside
    · exact here
    · exact absurd inside away
  have whole : (share.filled children).fetchTarget share.id =
      some ⟨share.shareId, share.name, none, .share⟩ := if_pos rfl
  rw [← found, here, whole]
  exact ShareNode.fetchTarget_self

theorem loadInto_other {shareId : String} {children : List Node} {shares : List ShareNode}
    (mem : share ∈ shares) (other : share.shareId ≠ shareId) :
    share ∈ loadInto shareId children shares := by
  induction shares with
  | nil => cases mem
  | cons s rest ih =>
    unfold loadInto
    split
    · rename_i here
      rcases List.mem_cons.1 mem with rfl | mem
      · exact absurd here other
      · exact List.mem_cons_of_mem _ mem
    · rcases List.mem_cons.1 mem with rfl | mem
      · exact List.mem_cons_self
      · exact List.mem_cons_of_mem _ (ih mem)

section Late
variable {toLowercase : String → String} {t' : FetchTarget}

theorem nextId_step (e : Event) : self.nextId ≤ (self.step toLowercase e).nextId := by
  cases e with
  | listing shares myHandle => exact (relist_spec myHandle shares _ (given_byShareId self.shares)).1
  | manifest shareId entries =>
    change _ ≤ (self.loadManifest toLowercase shareId entries).nextId
    unfold ShareBrowser.loadManifest
    split
    · exact (tree_built entries self.nextId).2.begun
    · exact Nat.le_refl _
  | toggled id => exact Nat.le_refl _

/-- **One step back**: what a number given before a step selects after it, it selected
before it. -/
theorem fetchTarget_back (sound : Sound self) (first : First self.shares) (e : Event)
    (old : id < self.nextId) (found : (self.step toLowercase e).fetchTarget id = some t') :
    ∃ t, self.fetchTarget id = some t ∧ Alike t t' := by
  obtain ⟨share, mem, found'⟩ := (sound.step e).fetchTarget_iff.1 found
  cases e with
  | listing shares myHandle =>
    obtain ⟨-, -, each, -⟩ := relist_spec myHandle shares self.nextId
      (given_byShareId self.shares)
    rcases (each share mem).origin with ⟨s, held, kept⟩ | ⟨new, -, bare, -⟩
    · rw [kept.fetchTarget] at found'
      obtain ⟨t, chosen, rfl⟩ := Option.map_eq_some_iff.1 found'
      exact ⟨t, sound.fetchTarget_iff.2 ⟨s, (byShareId_some held).1, chosen⟩, rfl, rfl, rfl⟩
    · have has := ShareNode.mem_ids found'
      rw [ShareNode.ids, bare] at has
      have := List.mem_singleton.1 has
      omega
  | manifest shareId entries =>
    change share ∈ (self.loadManifest toLowercase shareId entries).shares at mem
    unfold ShareBrowser.loadManifest at mem
    split at mem
    · rcases loadInto_mem first mem with ⟨held, -⟩ | ⟨s, held, -, rfl⟩
      · exact ⟨t', sound.fetchTarget_iff.2 ⟨share, held, found'⟩, rfl, rfl, rfl⟩
      · have away : id ∉ (labels (sortTree toLowercase
            (entries.foldl insertPath ([], self.nextId)).1)).map idOf := fun inside => by
          have large := ((tree_built entries self.nextId).2.sortTree toLowercase).within id inside
          omega
        exact ⟨t', sound.fetchTarget_iff.2 ⟨s, held, filled_fetchTarget away found'⟩, rfl, rfl, rfl⟩
    · exact ⟨t', sound.fetchTarget_iff.2 ⟨share, mem, found'⟩, rfl, rfl, rfl⟩
  | toggled clicked => exact ⟨t', fetchTarget_toggle clicked ▸ found, rfl, rfl, rfl⟩

/-- A listing that names no share twice. -/
def Event.Distinct : Event → Prop
  | .listing shares _ => (shares.map Listing.shareId).Nodup
  | _ => True

/-- The share stays listed, and no other manifest of it comes. -/
def Event.Keeps (shareId : String) : Event → Prop
  | .listing shares _ => shareId ∈ shares.map Listing.shareId
  | .manifest id _ => id ≠ shareId
  | .toggled _ => True

/-- No share is listed twice. -/
def Unique (browser : ShareBrowser) : Prop := (browser.shares.map ShareNode.shareId).Nodup

theorem byShareId_of_nodup {shares : List ShareNode} {s : ShareNode}
    (unique : (shares.map ShareNode.shareId).Nodup) (mem : s ∈ shares) :
    (byShareId shares).lookup s.shareId = some s := by
  have absent (shares : List ShareNode) (key : String) (m : Map String ShareNode)
      (absent : key ∉ shares.map ShareNode.shareId) :
      (shares.foldl (fun prior share => prior.insert share.shareId share) m).lookup key =
        m.lookup key := by
    induction shares generalizing m with
    | nil => rfl
    | cons share rest ih =>
      rw [List.map_cons, List.mem_cons, not_or] at absent
      rw [List.foldl_cons, ih _ absent.2, AList.lookup_insert_ne absent.1]
  have fold (shares : List ShareNode) (m : Map String ShareNode)
      (unique : (shares.map ShareNode.shareId).Nodup) (mem : s ∈ shares) :
      (shares.foldl (fun prior share => prior.insert share.shareId share) m).lookup s.shareId =
        some s := by
    induction shares generalizing m with
    | nil => cases mem
    | cons share rest ih =>
      obtain ⟨new, unique⟩ := List.nodup_cons.1 unique
      rcases List.mem_cons.1 mem with rfl | later
      · rw [List.foldl_cons, absent rest _ _ new, AList.lookup_insert]
      · exact ih _ unique later
  exact fold shares ∅ unique mem

theorem map_loadInto {shareId : String} {children : List Node} (shares : List ShareNode) :
    (loadInto shareId children shares).map ShareNode.shareId = shares.map ShareNode.shareId := by
  induction shares with
  | nil => rfl
  | cons s rest ih =>
    unfold loadInto
    split
    · rfl
    · rw [List.map_cons, ih, List.map_cons]

theorem Unique.step (unique : Unique self) {e : Event} (distinct : e.Distinct) :
    Unique (self.step toLowercase e) := by
  cases e with
  | listing shares myHandle =>
    have same := (relist_spec myHandle shares self.nextId (given_byShareId self.shares)).2.1
    change ((relist myHandle shares (byShareId self.shares) self.nextId).1.map _).Nodup
    rw [same]
    exact distinct
  | manifest shareId entries =>
    change Unique (self.loadManifest toLowercase shareId entries)
    unfold ShareBrowser.loadManifest
    split
    · exact (congrArg List.Nodup (map_loadInto self.shares)).mpr unique
    · exact unique
  | toggled id =>
    have via (shares : List ShareNode) :
        (shares.map ShareNode.collapse).map ShareNode.shareId = shares.map ShareNode.shareId :=
      List.map_map ..
    change ((toggleShares id self.shares).1.map ShareNode.shareId).Nodup
    rw [← via, toggleShares_collapse, via]
    exact unique

/-- **One step on**: what a number selects it still selects while its share stays. -/
theorem fetchTarget_on (sound : Sound self) (unique : Unique self) {e : Event}
    (found : self.fetchTarget id = some t) (keeps : e.Keeps t.shareId) :
    ∃ t', (self.step toLowercase e).fetchTarget id = some t' ∧ Alike t t' := by
  obtain ⟨share, mem, found'⟩ := sound.fetchTarget_iff.1 found
  have own := ShareNode.fetchTarget_shareId found'
  have after : Sound (self.step toLowercase e) := sound.step e
  cases e with
  | listing shares myHandle =>
    obtain ⟨-, -, -, stay⟩ := relist_spec myHandle shares self.nextId
      (given_byShareId self.shares)
    obtain ⟨next, held, kept⟩ := stay _ share (byShareId_of_nodup unique mem) (own ▸ keeps)
    refine ⟨{ t with name := next.name }, after.fetchTarget_iff.2 ⟨next, held, ?_⟩, rfl, rfl, rfl⟩
    rw [kept.fetchTarget, found']
    rfl
  | manifest shareId entries =>
    refine ⟨t, after.fetchTarget_iff.2 ⟨share, ?_, found'⟩, rfl, rfl, rfl⟩
    change share ∈ (self.loadManifest toLowercase shareId entries).shares
    unfold ShareBrowser.loadManifest
    split
    · exact loadInto_other mem fun same => keeps (same.symm.trans own.symm)
    · exact mem
  | toggled clicked => exact ⟨t, (fetchTarget_toggle clicked).symm ▸ found, rfl, rfl, rfl⟩

theorem unique_run {events : List Event} (distinct : ∀ e ∈ events, e.Distinct) :
    Unique (run toLowercase events) := by
  induction events using List.reverseRecOn with
  | nil => exact List.nodup_nil
  | append_singleton events e ih =>
    obtain ⟨before, last⟩ := List.forall_mem_append.1 distinct
    rw [run_concat]
    exact (ih before).step (last e List.mem_cons_self)

theorem nextId_run (before after : List Event) :
    (run toLowercase before).nextId ≤ (run toLowercase (before ++ after)).nextId := by
  induction after using List.reverseRecOn with
  | nil => rw [List.append_nil]
  | append_singleton after e ih =>
    rw [← List.append_assoc, run_concat]
    exact ih.trans (nextId_step e)

/-- **A click may come late.** A row's number, clicked after any further listings,
manifests and clicks, fetches what the row was drawn for or nothing; and it still
fetches it while its share stays listed and no other manifest of it comes, where no
listing names a share twice. -/
theorem late_click (before after : List Event)
    (drawn : (run toLowercase before).fetchTarget id = some t) :
    (∀ t', (run toLowercase (before ++ after)).fetchTarget id = some t' → Alike t t') ∧
    ((∀ e ∈ before ++ after, e.Distinct) → (∀ e ∈ after, e.Keeps t.shareId) →
      ∃ t', (run toLowercase (before ++ after)).fetchTarget id = some t' ∧ Alike t t') := by
  -- on what comes after the row was drawn: one step back and one step on, to the last input
  induction after using List.reverseRecOn with
  | nil =>
    rw [List.append_nil]
    refine ⟨fun t' found => ?_, fun _ _ => ⟨t, drawn, rfl, rfl, rfl⟩⟩
    obtain rfl := Option.some.inj (drawn.symm.trans found)
    exact ⟨rfl, rfl, rfl⟩
  | append_singleton after e ih =>
    obtain ⟨back, on⟩ := ih
    have sound := sound_run toLowercase (before ++ after)
    have old := Nat.lt_of_lt_of_le ((sound_run toLowercase before).lt drawn)
      (nextId_run before after)
    rw [← List.append_assoc, run_concat]
    refine ⟨fun t' found => ?_, fun distinct keeps => ?_⟩
    · obtain ⟨between, found, alike⟩ := fetchTarget_back sound
        (shows_run toLowercase (before ++ after)).first e old found
      exact (back between found).trans alike
    · obtain ⟨earlier, -⟩ := List.forall_mem_append.1 distinct
      obtain ⟨keeps, last⟩ := List.forall_mem_append.1 keeps
      obtain ⟨between, found, alike⟩ := on earlier keeps
      have stays : e.Keeps between.shareId := alike.shareId.symm ▸ last e List.mem_cons_self
      obtain ⟨t', found, alike'⟩ := fetchTarget_on sound (unique_run earlier) found stays
      exact ⟨t', found, alike.trans alike'⟩

theorem late_click_toggled :
    ∃ t', (run (fun name => name)
        ([.listing [⟨"s", "n", "h", "f"⟩] none] ++ [.toggled 0])).fetchTarget 0 = some t' ∧
      Alike ⟨"s", "n", none, .share⟩ t' :=
  (late_click [.listing [⟨"s", "n", "h", "f"⟩] none] [.toggled 0] rfl).2
    (by simp [Event.Distinct]) (by simp [Event.Keeps])

end Late

end Daemonseed.Gui.ShareBrowser
