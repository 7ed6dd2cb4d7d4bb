import Mathlib.Data.List.AList
import Mathlib.Data.List.DropRight
import Mathlib.Data.List.Infix
import Daemonseed.Lib.Bytes

/-! # A tree of directories and files

The system calls on it as functions, and the programs made of them, where any
call may fail. What a program may have changed is stated of every outcome; what
it has done, of its success. -/
namespace Daemonseed.Lib.Files
open Daemonseed.Lib.Bytes

abbrev Path := List String

inductive Node
  | dir
  | file (bytes : Octets)
  deriving DecidableEq

/-- What has a node stands in a directory. -/
structure Tree where
  nodes : AList fun _ : Path => Node
  root : nodes.lookup [] = some .dir
  closed : ∀ p, p ≠ [] → nodes.lookup p ≠ none → nodes.lookup p.dropLast = some .dir

namespace Tree

def find (t : Tree) (p : Path) : Option Node := t.nodes.lookup p

theorem dropLast_ne {p : Path} (named : p ≠ []) : p.dropLast ≠ p := by
  intro h
  have len := congrArg List.length h
  have pos := List.length_pos_iff.2 named
  rw [List.length_dropLast] at len
  omega

theorem ne_nil {t : Tree} {p : Path} {node : Option Node} (held : t.find p = node)
    (other : node ≠ some .dir) : p ≠ [] := by
  rintro rfl
  exact other (held.symm.trans t.root)

/-- Nothing but the root. -/
def bare : Tree where
  nodes := AList.singleton [] .dir
  root := rfl
  closed p named held := by
    refine absurd ?_ held
    rw [AList.lookup_eq_none, AList.mem_keys, AList.keys_singleton]
    simpa using named

/-- A node where there was none. -/
def make (t : Tree) (p : Path) (node : Node) (free : t.find p = none)
    (parent : t.find p.dropLast = some .dir) : Tree where
  nodes := t.nodes.insert p node
  root := (AList.lookup_insert_ne (ne_nil free (by simp)).symm).trans t.root
  closed q hq held := by
    by_cases e : q = p
    · rw [e, AList.lookup_insert_ne (dropLast_ne (e ▸ hq))]
      exact parent
    · rw [AList.lookup_insert_ne e] at held
      have above := t.closed q hq held
      have ne : q.dropLast ≠ p := by
        intro e
        rw [e] at above
        exact absurd (free.symm.trans above) (by simp)
      rw [AList.lookup_insert_ne ne, above]

/-- Other bytes in a file. -/
def write (t : Tree) (p : Path) (bytes : Octets) (held : ∃ old, t.find p = some (.file old)) :
    Tree where
  nodes := t.nodes.insert p (.file bytes)
  root := by
    obtain ⟨old, held⟩ := held
    exact (AList.lookup_insert_ne (ne_nil held (by simp)).symm).trans t.root
  closed q hq now := by
    obtain ⟨old, held⟩ := held
    have before : t.find q ≠ none := by
      by_cases e : q = p
      · rw [e, held]
        simp
      · rwa [AList.lookup_insert_ne e] at now
    have above := t.closed q hq before
    have ne : q.dropLast ≠ p := by
      intro e
      rw [e] at above
      exact absurd (held.symm.trans above) (by simp)
    rw [AList.lookup_insert_ne ne, above]

def remove (t : Tree) (p : Path) (held : ∃ old, t.find p = some (.file old)) : Tree where
  nodes := t.nodes.erase p
  root := by
    obtain ⟨old, held⟩ := held
    exact (AList.lookup_erase_ne (ne_nil held (by simp)).symm).trans t.root
  closed q hq now := by
    obtain ⟨old, held⟩ := held
    have ne : q ≠ p := by
      intro e
      exact now (e ▸ AList.lookup_erase ..)
    rw [AList.lookup_erase_ne ne] at now
    have above := t.closed q hq now
    have ne : q.dropLast ≠ p := by
      intro e
      rw [e] at above
      exact absurd (held.symm.trans above) (by simp)
    rw [AList.lookup_erase_ne ne, above]

variable {t : Tree} {p q : Path} {node : Node} {bytes : Octets}

theorem find_make {free : t.find p = none} {parent : t.find p.dropLast = some .dir} :
    (t.make p node free parent).find q = if q = p then some node else t.find q := by
  split
  · rename_i e
    subst e
    exact AList.lookup_insert _
  · rename_i ne
    exact AList.lookup_insert_ne ne

theorem find_write {held : ∃ old, t.find p = some (.file old)} :
    (t.write p bytes held).find q = if q = p then some (.file bytes) else t.find q := by
  split
  · rename_i e
    subst e
    exact AList.lookup_insert _
  · rename_i ne
    exact AList.lookup_insert_ne ne

theorem find_remove {held : ∃ old, t.find p = some (.file old)} :
    (t.remove p held).find q = if q = p then none else t.find q := by
  split
  · rename_i e
    subst e
    exact AList.lookup_erase ..
  · rename_i ne
    exact AList.lookup_erase_ne ne

/-- Above what has a node there are directories alone. -/
theorem find_above (held : t.find p ≠ none) (above : q <+: p) (ne : q ≠ p) :
    t.find q = some .dir := by
  obtain ⟨rest, rfl⟩ := above
  induction rest using List.reverseRecOn with
  | nil => simp at ne
  | append_singleton rest name ih =>
    have parent := t.closed (q ++ (rest ++ [name])) (by simp) held
    rw [← List.append_assoc, List.dropLast_concat] at parent
    by_cases last : rest = []
    · subst last
      rw [List.append_nil] at parent
      exact parent
    · refine ih ?_ (by simpa using last)
      rw [find, parent]
      simp

end Tree

/-! ## Bytes of a file -/

/-- `set_len`. -/
def resize (size : Nat) (bytes : Octets) : Octets := padded (bytes.take size) size

/-- A positional write. -/
def splice (offset : Nat) (new bytes : Octets) : Octets :=
  (padded bytes offset).take offset ++ new ++ bytes.drop (offset + new.length)

def region (offset len : Nat) (bytes : Octets) : Octets := (bytes.drop offset).take len

section

variable {offset len size : Nat} {new bytes : Octets}

@[simp] theorem resize_length : (resize size bytes).length = size := by
  rw [resize, padded_length (by simp)]

theorem resize_self (h : bytes.length = size) : resize size bytes = bytes := by
  rw [resize, ← h, List.take_length, padded, Nat.sub_self, List.replicate_zero, List.append_nil]

theorem splice_length (inside : offset + new.length ≤ bytes.length) :
    (splice offset new bytes).length = bytes.length := by
  simp only [splice, List.length_append, List.length_take, List.length_drop, padded,
    List.length_replicate]
  omega

theorem splice_getElem? (inside : offset + new.length ≤ bytes.length) (j : Nat) :
    (splice offset new bytes)[j]? =
      if offset ≤ j ∧ j < offset + new.length then new[j - offset]? else bytes[j]? := by
  have front : (padded bytes offset).take offset = bytes.take offset := by
    rw [padded, List.take_append_of_le_length (by omega)]
  have long : (bytes.take offset).length = offset := by
    rw [List.length_take]
    omega
  rw [splice, front, List.append_assoc]
  by_cases before : j < offset
  · rw [List.getElem?_append_left (by omega), List.getElem?_take_of_lt before, if_neg (by omega)]
  · rw [List.getElem?_append_right (by omega), long]
    by_cases within : j < offset + new.length
    · rw [List.getElem?_append_left (by omega), if_pos (by omega)]
    · rw [List.getElem?_append_right (by omega), List.getElem?_drop, if_neg (by omega)]
      congr 1
      omega

theorem region_getElem? (j : Nat) :
    (region offset len bytes)[j]? = if j < len then bytes[offset + j]? else none := by
  rw [region, List.getElem?_take, List.getElem?_drop]

/-- What was written is read back. -/
theorem region_splice_self (inside : offset + new.length ≤ bytes.length) :
    region offset new.length (splice offset new bytes) = new := by
  refine List.ext_getElem? fun j => ?_
  rw [region_getElem?, splice_getElem? inside]
  by_cases within : j < new.length
  · rw [if_pos within, if_pos (by omega)]
    congr 1
    omega
  · rw [if_neg within]
    exact (List.getElem?_eq_none (by omega)).symm

/-- And nothing else changed. -/
theorem region_splice_other (inside : offset + new.length ≤ bytes.length) {o l : Nat}
    (apart : o + l ≤ offset ∨ offset + new.length ≤ o) :
    region o l (splice offset new bytes) = region o l bytes := by
  refine List.ext_getElem? fun j => ?_
  rw [region_getElem?, region_getElem?]
  by_cases within : j < l
  · rw [if_pos within, if_pos within, splice_getElem? inside, if_neg (by omega)]
  · rw [if_neg within, if_neg within]

theorem region_length (inside : offset + len ≤ bytes.length) :
    (region offset len bytes).length = len := by
  simp only [region, List.length_take, List.length_drop]
  omega

end

/-! ## System calls -/

inductive IoError
  | notFound
  | alreadyExists
  | notADirectory
  | isADirectory
  | other
  deriving DecidableEq

abbrev SysCall (α : Type) := Tree → Except IoError (α × Tree)

/-- Why nothing stands below a path. -/
def noDirectory (t : Tree) (p : Path) : IoError :=
  if t.find p = none then .notFound else .notADirectory

/-- A new node: a directory, or a file of `create_new`. -/
def createNode (p : Path) (node : Node) : SysCall Unit := fun t =>
  if free : t.find p = none then
    if parent : t.find p.dropLast = some .dir then .ok ((), t.make p node free parent)
    else .error (noDirectory t p.dropLast)
  else .error .alreadyExists

/-- `mkdir` where there is no directory yet. -/
def needDir (p : Path) : SysCall Unit := fun t =>
  if t.find p = some .dir then .ok ((), t) else createNode p .dir t

/-- `create(true)` without `truncate`. -/
def openOrCreate (p : Path) : SysCall Unit := fun t =>
  match t.find p with
  | some (.file _) => .ok ((), t)
  | some .dir => .error .isADirectory
  | none => createNode p (.file []) t

/-- The bytes of a file that is opened. -/
def openFile (p : Path) : SysCall Octets := fun t =>
  match t.find p with
  | some (.file bytes) => .ok (bytes, t)
  | some .dir => .error .isADirectory
  | none => .error (noDirectory t p.dropLast)

/-- What the bytes of a file become. -/
def modify (p : Path) (f : Octets → Octets) : SysCall Unit := fun t =>
  match held : t.find p with
  | some (.file bytes) => .ok ((), t.write p (f bytes) ⟨bytes, held⟩)
  | some .dir => .error .isADirectory
  | none => .error .notFound

def removeFile (p : Path) : SysCall Unit := fun t =>
  match held : t.find p with
  | some (.file bytes) => .ok ((), t.remove p ⟨bytes, held⟩)
  | some .dir => .error .isADirectory
  | none => .error .notFound

/-- A file takes another's place, or a free one. -/
def rename (src dst : Path) : SysCall Unit := fun t =>
  match held : t.find src with
  | some (.file bytes) =>
    if src = dst then .ok ((), t)
    else
      let gone := t.remove src ⟨bytes, held⟩
      match gone.find dst with
      | some _ => modify dst (fun _ => bytes) gone
      | none => createNode dst (.file bytes) gone
  -- A directory does not replace a file.
  | some .dir => .error .notADirectory
  | none => .error .notFound

/-! ## Programs -/

/-- The tree, and which of the calls to come fail: one that is to fail may have
written so many bytes. -/
structure Disk where
  tree : Tree
  faults : List (Option Nat)

/-- A program that may fail. -/
def Sys (ε α : Type) := Disk → Except ε α × Disk

namespace Sys

variable {ε ε' α β : Type}

instance : Monad (Sys ε) where
  pure a := fun d => (.ok a, d)
  bind m f := fun d =>
    match m d with
    | (.ok a, d) => f a d
    | (.error e, d) => (.error e, d)

def fail (e : ε) : Sys ε α := fun d => (.error e, d)

/-- The outcome of a program, its failure included. -/
def attempt (m : Sys ε α) : Sys ε' (Except ε α) := fun d => (.ok (m d).1, (m d).2)

def mapError (f : ε → ε') (m : Sys ε α) : Sys ε' α := fun d => ((m d).1.mapError f, (m d).2)

/-- What is seen without a call that may fail. -/
def look (f : Tree → α) : Sys ε α := fun d => (.ok (f d.tree), d)

/-- What needs no call. -/
def ofExcept (r : Except ε α) : Sys ε α := fun d => (r, d)

/-- One call; `cut` is what one that fails may have done. -/
def callCut (f : SysCall α) (cut : Nat → Tree → Tree) : Sys IoError α := fun d =>
  match d.faults with
  | some n :: rest => (.error .other, ⟨cut n d.tree, rest⟩)
  | faults =>
    match f d.tree with
    | .ok (a, t) => (.ok a, ⟨t, faults.tail⟩)
    | .error e => (.error e, ⟨d.tree, faults.tail⟩)

def call (f : SysCall α) : Sys IoError α := callCut f fun _ t => t

end Sys

/-- The tree a call leaves where it succeeds. -/
def after (f : SysCall Unit) (t : Tree) : Tree :=
  match f t with
  | .ok (_, t) => t
  | .error _ => t

/-- `write_all_at`: a write that fails may have written its first bytes. -/
def pwriteAll (p : Path) (offset : Nat) (bytes : Octets) : Sys IoError Unit :=
  Sys.callCut (modify p (splice offset bytes)) fun n =>
    after (modify p (splice offset (bytes.take n)))

/-- `create_dir_all` below a directory that is there. -/
def createDirsBelow : Path → List String → Sys IoError Unit
  | _, [] => pure ()
  | above, name :: rest => do
    Sys.call (needDir (above ++ [name]))
    createDirsBelow (above ++ [name]) rest

def createDirAll (p : Path) : Sys IoError Unit := createDirsBelow [] p

/-! ## What calls do -/

section

variable {t t' : Tree} {p q : Path} {node : Node} {bytes : Octets}

theorem createNode_ok (h : createNode p node t = .ok ((), t')) :
    t.find p = none ∧ t.find p.dropLast = some .dir ∧
      ∀ q, t'.find q = if q = p then some node else t.find q := by
  unfold createNode at h
  split at h
  · rename_i free
    split at h
    · rename_i parent
      cases h
      exact ⟨free, parent, fun q => Tree.find_make⟩
    · cases h
  · cases h

theorem createNode_taken (h : createNode p node t = .error .alreadyExists) : t.find p ≠ none := by
  intro free
  rw [createNode, dif_pos free] at h
  split at h
  · cases h
  · unfold noDirectory at h
    split at h <;> cases h

theorem createNode_free (free : t.find p = none) (parent : t.find p.dropLast = some .dir) :
    ∃ t', createNode p node t = .ok ((), t') := by
  rw [createNode, dif_pos free, dif_pos parent]
  exact ⟨_, rfl⟩

theorem openFile_ok (h : openFile p t = .ok (bytes, t')) :
    t' = t ∧ t.find p = some (.file bytes) := by
  unfold openFile at h
  split at h
  · rename_i held
    cases h
    exact ⟨rfl, held⟩
  · cases h
  · cases h

theorem modify_ok {f : Octets → Octets} (h : modify p f t = .ok ((), t')) :
    ∃ bytes, t.find p = some (.file bytes) ∧
      ∀ q, t'.find q = if q = p then some (.file (f bytes)) else t.find q := by
  unfold modify at h
  split at h
  · rename_i bytes held
    cases h
    exact ⟨bytes, held, fun q => Tree.find_write⟩
  · cases h
  · cases h

theorem modify_held {f : Octets → Octets} (held : t.find p = some (.file bytes)) :
    ∃ t', modify p f t = .ok ((), t') := by
  unfold modify
  split
  · exact ⟨_, rfl⟩
  · rename_i dir
    cases held.symm.trans dir
  · rename_i gone
    cases held.symm.trans gone

theorem removeFile_ok (h : removeFile p t = .ok ((), t')) :
    (∃ bytes, t.find p = some (.file bytes)) ∧
      ∀ q, t'.find q = if q = p then none else t.find q := by
  unfold removeFile at h
  split at h
  · rename_i bytes held
    cases h
    exact ⟨⟨bytes, held⟩, fun q => Tree.find_remove⟩
  · cases h
  · cases h

theorem removeFile_held (held : t.find p = some (.file bytes)) :
    ∃ t', removeFile p t = .ok ((), t') := by
  unfold removeFile
  split
  · exact ⟨_, rfl⟩
  · rename_i dir
    cases held.symm.trans dir
  · rename_i gone
    cases held.symm.trans gone

/-- A file renamed stands where it is to, and no longer where it did. -/
theorem rename_ok {src dst : Path} (ne : src ≠ dst) (h : rename src dst t = .ok ((), t')) :
    ∃ bytes, t.find src = some (.file bytes) ∧
      ∀ q, t'.find q = if q = dst then some (.file bytes) else if q = src then none else t.find q := by
  unfold rename at h
  split at h
  · rename_i bytes held
    rw [if_neg ne] at h
    refine ⟨bytes, held, fun q => ?_⟩
    dsimp only at h
    split at h
    · obtain ⟨_, -, now⟩ := modify_ok h
      rw [now, Tree.find_remove]
    · obtain ⟨-, -, now⟩ := createNode_ok h
      rw [now, Tree.find_remove]
  · cases h
  · cases h

theorem rename_held {src dst : Path} {old : Octets} (ne : src ≠ dst)
    (held : t.find src = some (.file bytes)) (there : t.find dst = some (.file old)) :
    ∃ t', rename src dst t = .ok ((), t') := by
  unfold rename
  split
  · rw [if_neg ne]
    have there' : ∀ h, (t.remove src h).find dst = some (.file old) := fun _ => by
      rw [Tree.find_remove, if_neg ne.symm, there]
    dsimp only
    split
    · exact modify_held (there' _)
    · rename_i gone
      cases (there' _).symm.trans gone
  · rename_i dir
    cases held.symm.trans dir
  · rename_i gone
    cases held.symm.trans gone

end

/-! ## What programs do -/

namespace Sys

variable {ε ε' α β : Type} {m : Sys ε α} {f : α → Sys ε β} {d d' d'' : Disk} {a : α} {b : β} {e : ε}

theorem bind_ok (h : (m >>= f) d = (.ok b, d'')) :
    ∃ a d', m d = (.ok a, d') ∧ f a d' = (.ok b, d'') := by
  change (match m d with
    | (.ok a, d) => f a d
    | (.error e, d) => (.error e, d)) = _ at h
  split at h
  · rename_i a d' first
    exact ⟨a, d', first, h⟩
  · cases h

theorem bind_of_ok (h : m d = (.ok a, d')) : (m >>= f) d = f a d' := by
  change (match m d with
    | (.ok a, d) => f a d
    | (.error e, d) => (.error e, d)) = _
  rw [h]

theorem bind_of_error (h : m d = (.error e, d')) : (m >>= f) d = (.error e, d') := by
  change (match m d with
    | (.ok a, d) => f a d
    | (.error e, d) => (.error e, d)) = _
  rw [h]

/-- A call that fails leaves the tree. -/
theorem call_error {f : SysCall α} {e : IoError} (h : call f d = (.error e, d')) :
    d'.tree = d.tree := by
  unfold call callCut at h
  split at h
  · cases h
    rfl
  · split at h
    · cases h
    · cases h
      rfl

/-- What a call that fails was refused for: a fault, or what it found. -/
theorem call_refused {f : SysCall α} {e : IoError} (h : call f d = (.error e, d'))
    (real : e ≠ .other) : f d.tree = .error e := by
  unfold call callCut at h
  split at h
  · cases h
    exact absurd rfl real
  · split at h
    · cases h
    · rename_i refused
      cases h
      exact refused

theorem mapError_ok {g : ε → ε'} (h : m.mapError g d = (.ok a, d')) : m d = (.ok a, d') := by
  obtain ⟨result, left⟩ := Prod.mk.inj h
  rcases ran : m d with ⟨r, d₁⟩
  rw [ran] at result left
  cases r with
  | ok a' =>
    cases result
    exact congrArg _ left
  | error e => cases result

theorem callCut_ok {f : SysCall α} {cut : Nat → Tree → Tree} (h : callCut f cut d = (.ok a, d')) :
    f d.tree = .ok (a, d'.tree) := by
  unfold callCut at h
  split at h
  · cases h
  · split at h
    · rename_i done
      cases h
      exact done
    · cases h

theorem callCut_calm {f : SysCall α} {cut : Nat → Tree → Tree} {t t' : Tree}
    (h : f t = .ok (a, t')) : callCut f cut ⟨t, []⟩ = (.ok a, ⟨t', []⟩) := by
  simp [callCut, h]

theorem callCut_refused {f : SysCall α} {cut : Nat → Tree → Tree} {t : Tree} {e : IoError}
    (h : f t = .error e) : callCut f cut ⟨t, []⟩ = (.error e, ⟨t, []⟩) := by
  simp [callCut, h]

theorem attempt_bind {f : Except ε α → Sys ε' β} :
    ((m.attempt : Sys ε' _) >>= f) d = f (m d).1 (m d).2 := rfl

theorem ofExcept_ok_bind {f : α → Sys ε β} : (ofExcept (.ok a) >>= f) = f a := rfl

theorem ofExcept_error_bind {f : α → Sys ε β} :
    (ofExcept (.error e) >>= f) = fun d => (.error e, d) := rfl

theorem look_bind {g : Tree → α} {f : α → Sys ε β} : (look g >>= f) d = f (g d.tree) d := rfl

/-- However it ends, the program takes the tree no further than `R`. -/
def Within (R : Tree → Tree → Prop) (m : Sys ε α) : Prop := ∀ d, R d.tree (m d).2.tree

section

variable {R : Tree → Tree → Prop}

theorem Within.mono {R' : Tree → Tree → Prop} (h : Within R m) (sub : ∀ t t', R t t' → R' t t') :
    Within R' m := fun d => sub _ _ (h d)

theorem Within.bind (trans : ∀ t₁ t₂ t₃, R t₁ t₂ → R t₂ t₃ → R t₁ t₃) (hm : Within R m)
    (hf : ∀ a, Within R (f a)) : Within R (m >>= f) := by
  intro d
  have first := hm d
  rcases ran : m d with ⟨r, d'⟩
  rw [ran] at first
  cases r with
  | ok a =>
    rw [bind_of_ok ran]
    exact trans _ _ _ first (hf a d')
  | error e => rwa [bind_of_error ran]

theorem Within.mapError {g : ε → ε'} (h : Within R m) : Within R (m.mapError g) := h

theorem Within.attempt (h : Within R m) : Within R (m.attempt : Sys ε' _) := h

theorem Within.pure (refl : ∀ t, R t t) : Within R (pure a : Sys ε α) := fun _ => refl _

theorem Within.fail (refl : ∀ t, R t t) : Within R (fail e : Sys ε α) := fun _ => refl _

theorem Within.callCut {f : SysCall α} {cut : Nat → Tree → Tree} (refl : ∀ t, R t t)
    (did : ∀ t a t', f t = .ok (a, t') → R t t') (failed : ∀ n t, R t (cut n t)) :
    Within R (Sys.callCut f cut) := by
  intro d
  unfold Sys.callCut
  split
  · exact failed ..
  · split
    · rename_i done
      exact did _ _ _ done
    · exact refl _

end

end Sys

/-- Nothing but new directories, where `D` allows them. -/
def Dirs (D : Path → Prop) (t t' : Tree) : Prop :=
  ∀ q, t'.find q = t.find q ∨ (D q ∧ t.find q = none ∧ t'.find q = some .dir)

section

variable {D D' : Path → Prop} {t t' t'' : Tree} {p q : Path} {bytes : Octets}

theorem Dirs.refl : Dirs D t t := fun _ => .inl rfl

theorem Dirs.mono (h : Dirs D t t') (sub : ∀ q, D q → D' q) : Dirs D' t t' := fun q =>
  (h q).imp_right fun ⟨inside, made⟩ => ⟨sub q inside, made⟩

theorem Dirs.trans (h : Dirs D t t') (h' : Dirs D t' t'') : Dirs D t t'' := by
  intro q
  rcases h' q with same | ⟨inside, free, made⟩
  · rw [same]
    exact h q
  · rcases h q with same | ⟨-, -, made'⟩
    · exact .inr ⟨inside, same ▸ free, made⟩
    · cases free.symm.trans made'

/-- What is there stays. -/
theorem Dirs.keeps (h : Dirs D t t') (held : t.find q ≠ none) : t'.find q = t.find q :=
  (h q).resolve_right fun ⟨_, free, _⟩ => held free

theorem Dirs.file (h : Dirs D t t') : t'.find q = some (.file bytes) ↔
    t.find q = some (.file bytes) := by
  rcases h q with same | ⟨-, free, made⟩
  · rw [same]
  · rw [free, made]
    simp

theorem Dirs.outside (h : Dirs D t t') (out : ¬ D q) : t'.find q = t.find q :=
  (h q).resolve_right fun ⟨inside, _⟩ => out inside

theorem needDir_dirs (h : needDir p t = .ok ((), t')) :
    Dirs (· = p) t t' ∧ t'.find p = some .dir := by
  unfold needDir at h
  split at h
  · rename_i dir
    cases h
    exact ⟨.refl, dir⟩
  · obtain ⟨free, -, now⟩ := createNode_ok h
    refine ⟨fun q => ?_, (now p).trans (if_pos rfl)⟩
    rw [now q]
    split
    · rename_i e
      exact .inr ⟨e, e ▸ free, rfl⟩
    · exact .inl rfl

theorem needDir_calm (parent : t.find p.dropLast = some .dir)
    (clear : ∀ bytes, t.find p ≠ some (.file bytes)) : ∃ t', needDir p t = .ok ((), t') := by
  unfold needDir
  split
  · exact ⟨t, rfl⟩
  · rename_i noDir
    refine createNode_free ?_ parent
    cases held : t.find p with
    | none => rfl
    | some node =>
      cases node with
      | dir => exact absurd held noDir
      | file bytes => exact absurd held (clear bytes)

theorem createDirsBelow_within (above : Path) (rest : List String) :
    Sys.Within (Dirs (· <+: above ++ rest)) (createDirsBelow above rest) := by
  induction rest generalizing above with
  | nil => exact fun d => .refl
  | cons name rest ih =>
    refine .bind (fun _ _ _ => .trans) ?_ fun _ => ?_
    · refine .callCut (fun _ => .refl) (fun t _ t' h => ?_) fun _ _ => .refl
      refine (needDir_dirs h).1.mono fun q e => ?_
      rw [e]
      exact ⟨rest, by simp⟩
    · simpa using ih (above ++ [name])

theorem createDirAll_within (p : Path) : Sys.Within (Dirs (· <+: p)) (createDirAll p) :=
  createDirsBelow_within [] p

theorem createDirsBelow_ok {above : Path} {rest : List String} {d d' : Disk}
    (parent : d.tree.find above = some .dir) (h : createDirsBelow above rest d = (.ok (), d')) :
    d'.tree.find (above ++ rest) = some .dir := by
  induction rest generalizing above d with
  | nil =>
    cases h
    simpa using parent
  | cons name rest ih =>
    obtain ⟨_, d₁, first, later⟩ := Sys.bind_ok h
    simpa using ih (needDir_dirs (Sys.callCut_ok first)).2 later

theorem createDirAll_ok {d d' : Disk} (h : createDirAll p d = (.ok (), d')) :
    d'.tree.find p = some .dir := createDirsBelow_ok d.tree.root h

theorem createDirsBelow_calm {above : Path} {rest : List String}
    (parent : t.find above = some .dir)
    (clear : ∀ q, q <+: above ++ rest → ∀ bytes, t.find q ≠ some (.file bytes)) :
    ∃ t', createDirsBelow above rest ⟨t, []⟩ = (.ok (), ⟨t', []⟩) := by
  induction rest generalizing above t with
  | nil => exact ⟨t, rfl⟩
  | cons name rest ih =>
    obtain ⟨t₁, made⟩ := needDir_calm (p := above ++ [name]) (by simpa using parent)
      (clear _ ⟨rest, by simp⟩)
    obtain ⟨dirs, here⟩ := needDir_dirs made
    obtain ⟨t₂, later⟩ := ih here fun q hq bytes held =>
      clear q (by simpa using hq) bytes (dirs.file.1 held)
    exact ⟨t₂, (Sys.bind_of_ok (Sys.callCut_calm made)).trans later⟩

theorem createDirAll_calm (clear : ∀ q, q <+: p → ∀ bytes, t.find q ≠ some (.file bytes)) :
    ∃ t', createDirAll p ⟨t, []⟩ = (.ok (), ⟨t', []⟩) :=
  createDirsBelow_calm t.root clear

end

/-- New directories where `D` allows them, and files where `F` does. -/
def Changes (D F : Path → Prop) (t t' : Tree) : Prop :=
  ∀ q, t'.find q = t.find q ∨ (D q ∧ t.find q = none ∧ t'.find q = some .dir) ∨
    (F q ∧ t.find q ≠ some .dir ∧ ∃ bytes, t'.find q = some (.file bytes))

section

variable {D D' F F' : Path → Prop} {t t' t'' : Tree} {p q : Path} {bytes : Octets}

theorem Changes.refl : Changes D F t t := fun _ => .inl rfl

theorem Changes.mono (h : Changes D F t t') (dirs : ∀ q, D q → D' q) (files : ∀ q, F q → F' q) :
    Changes D' F' t t' := fun q =>
  (h q).imp_right <| Or.imp (fun ⟨inside, made⟩ => ⟨dirs q inside, made⟩)
    fun ⟨inside, became⟩ => ⟨files q inside, became⟩

theorem Dirs.changes (h : Dirs D t t') : Changes D F t t' := fun q => (h q).imp_right .inl

theorem Changes.trans (apart : ∀ q, D q → ¬ F q) (h : Changes D F t t') (h' : Changes D F t' t'') :
    Changes D F t t'' := by
  intro q
  rcases h' q with same | ⟨inside, free, made⟩ | ⟨inside, noDir, became⟩
  · rw [same]
    exact h q
  · rcases h q with same | ⟨-, -, made'⟩ | ⟨-, -, _, became'⟩
    · exact .inr (.inl ⟨inside, same ▸ free, made⟩)
    · cases free.symm.trans made'
    · cases free.symm.trans became'
  · rcases h q with same | ⟨inside', -, -⟩ | ⟨-, noDir', -⟩
    · exact .inr (.inr ⟨inside, same ▸ noDir, became⟩)
    · exact absurd inside (apart q inside')
    · exact .inr (.inr ⟨inside, noDir', became⟩)

theorem Sys.Within.bind_changes {ε α β : Type} {m : Sys ε α} {f : α → Sys ε β} (apart : ∀ q, D q → ¬ F q)
    (hm : Within (Changes D F) m) (hf : ∀ a, Within (Changes D F) (f a)) :
    Within (Changes D F) (m >>= f) :=
  hm.bind (fun _ _ _ => Changes.trans apart) hf

theorem Changes.outside (h : Changes D F t t') (dirs : ¬ D q) (files : ¬ F q) :
    t'.find q = t.find q :=
  ((h q).resolve_right fun h => h.elim (dirs ·.1) (files ·.1))

/-- A file elsewhere stays as it is. -/
theorem Changes.spares (h : Changes D F t t') (files : ¬ F q)
    (held : t.find q = some (.file bytes)) : t'.find q = some (.file bytes) := by
  rcases h q with same | ⟨-, free, -⟩ | ⟨inside, -, -⟩
  · rw [same, held]
  · cases held.symm.trans free
  · exact absurd inside files

theorem openOrCreate_changes (h : openOrCreate p t = .ok ((), t')) :
    (∃ bytes, t'.find p = some (.file bytes) ∧ (t.find p = some (.file bytes) ∨
      t.find p = none ∧ bytes = [])) ∧ ∀ q, q ≠ p → t'.find q = t.find q := by
  unfold openOrCreate at h
  split at h
  · rename_i bytes held
    cases h
    exact ⟨⟨bytes, held, .inl held⟩, fun _ _ => rfl⟩
  · cases h
  · obtain ⟨free, -, now⟩ := createNode_ok h
    refine ⟨⟨[], (now p).trans (if_pos rfl), .inr ⟨free, rfl⟩⟩, fun q ne => ?_⟩
    rw [now, if_neg ne]

theorem openOrCreate_within (p : Path) :
    Sys.Within (Changes D (· = p)) (Sys.call (openOrCreate p)) := by
  refine .callCut (fun _ => .refl) (fun t _ t' h q => ?_) fun _ _ => .refl
  obtain ⟨⟨bytes, now, before⟩, others⟩ := openOrCreate_changes h
  by_cases e : q = p
  · subst e
    refine .inr (.inr ⟨rfl, ?_, bytes, now⟩)
    rcases before with held | ⟨free, -⟩
    · simp [held]
    · simp [free]
  · exact .inl (others q e)

theorem modify_changes {f : Octets → Octets} (h : modify p f t = .ok ((), t')) :
    Changes D (· = p) t t' := by
  obtain ⟨bytes, held, now⟩ := modify_ok h
  intro q
  by_cases e : q = p
  · subst e
    exact .inr (.inr ⟨rfl, by simp [held], f bytes, (now q).trans (if_pos rfl)⟩)
  · exact .inl ((now q).trans (if_neg e))

theorem modify_within (p : Path) (f : Octets → Octets) :
    Sys.Within (Changes D (· = p)) (Sys.call (modify p f)) :=
  .callCut (fun _ => .refl) (fun _ _ _ h => modify_changes h) fun _ _ => .refl

theorem pwriteAll_within (p : Path) (offset : Nat) (bytes : Octets) :
    Sys.Within (Changes D (· = p)) (pwriteAll p offset bytes) := by
  refine .callCut (fun _ => .refl) (fun _ _ _ h => modify_changes h) fun n t => ?_
  unfold after
  split
  · rename_i done
    exact modify_changes done
  · exact .refl

end

end Daemonseed.Lib.Files
