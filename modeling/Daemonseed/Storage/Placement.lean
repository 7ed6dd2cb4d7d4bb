import Daemonseed.Lib.Numbering
import Daemonseed.Lib.Results
import Daemonseed.Storage.ManagedFolders

/-! # Placement at a chosen destination

Where each selected file lands below the destination, as a function of the
selection roots: a file under its own name, a folder under its own with all
below it, a name taken twice with a number behind it. -/
namespace Daemonseed.Storage.Placement
open Daemonseed.Lib.Files (Path)
open Daemonseed.Lib.Lines Daemonseed.Lib.Numbering Daemonseed.Lib.Results
  Daemonseed.Storage.Fetched

/-- A node that was selected; the empty directory is the whole share. -/
inductive SelectionRoot
  | file (p : Text)
  | dir (p : Text)
  deriving DecidableEq

def SelectionRoot.path : SelectionRoot → Text
  | .file p | .dir p => p

structure PlacedFile where
  shareRel : Text
  destRel : Text
  deriving DecidableEq

def isStrictAncestor (d p : Text) : Bool :=
  if d = p then false
  else if d = [] then p ≠ []
  else (stripPrefix d p).any fun rest => rest.head? = some '/'

/-- Up to and with the last `/`. -/
def parentPrefix (dir : Text) : Text := dir.rdropWhile (· ≠ '/')

def basename (p : Text) : Text := p.rtakeWhile (· ≠ '/')

/-- A directory that a root of the path lies below. -/
def SelectionRoot.subsumes : SelectionRoot → Text → Bool
  | .dir d, p => isStrictAncestor d p
  | .file _, _ => false

def normalizeRoots (roots : List SelectionRoot) : List SelectionRoot :=
  (roots.filter fun r => !roots.any (·.subsumes r.path)).eraseDups

def destRelFor (fileRel : Text) : SelectionRoot → Text
  | .file _ => basename fileRel
  | .dir d => (stripPrefix (parentPrefix d) fileRel).getD fileRel

def topNameOf : SelectionRoot → Option Text
  | .file f => some (basename f)
  | .dir d => if d = [] then none else some (basename d)

def governs : SelectionRoot → Text → Bool
  | .file f, file => f = file
  | .dir d, file => d = [] || isStrictAncestor d file

def suffixed (base : Text) (n : Nat) : Text := base ++ '-' :: showNat n

/-- The name, or the first one with a number from two on, that is not taken. -/
def uniquify (base : Text) (taken : List Text) : Text × List Text :=
  if base ∉ taken then (base, base :: taken)
  else
    let cand := firstFree (suffixed base) taken taken.length 2
    (cand, cand :: taken)

def replaceTop (destRel newTop : Text) : Text :=
  match splitOnce '/' destRel with
  | some (_, rest) => newTop ++ '/' :: rest
  | none => newTop

/-- Each root with its name at the destination; the whole share has none. -/
def assign : List Text → List SelectionRoot → List (SelectionRoot × Option Text)
  | _, [] => []
  | taken, r :: rest =>
    match topNameOf r with
    | none => (r, none) :: assign taken rest
    | some base => (r, some (uniquify base taken).1) :: assign (uniquify base taken).2 rest

/-- The last of those whose key is greatest. -/
def maxByKey {α : Type} (key : α → Nat) (l : List α) : Option α :=
  l.foldl (fun best a =>
    match best with
    | none => some a
    | some b => if key b ≤ key a then some a else some b) none

/-- Where a file lands under a root. -/
def landing (file : Text) (root : SelectionRoot × Option Text) : Text :=
  match root.2 with
  | some top => replaceTop (destRelFor file root.1) top
  | none => destRelFor file root.1

def placeFile (assigned : List (SelectionRoot × Option Text)) (file : Text) :
    Except FetchedError PlacedFile :=
  match maxByKey (fun root => (String.ofList root.1.path).utf8ByteSize)
      (assigned.filter fun root => governs root.1 file) with
  | none => .error (.unsafePath s!"selected file {String.ofList file} is under no selected root")
  | some root => do
    let _ ← sanitizeRelPath (String.ofList (landing file root))
    return ⟨file, landing file root⟩

def placeAtDest (roots : List SelectionRoot) (selectedFiles : List Text) :
    Except FetchedError (List PlacedFile) :=
  selectedFiles.mapM (placeFile (assign [] (normalizeRoots roots)))

/-- Whether all are below one directory, and below this one if there is one yet. -/
def underOneTop : Option Text → List Text → Bool
  | top, [] => top.isSome
  | top, r :: rest =>
    match splitOnce '/' r with
    | none => false
    | some (first, _) =>
      match top with
      | none => underOneTop (some first) rest
      | some t => if t = first then underOneTop top rest else false

def allUnderOneTopFolder (destRels : List Text) : Bool := underOneTop none destRels

def noScatter (destRels : List Text) (wrapper : Text) : List Text :=
  if allUnderOneTopFolder destRels then destRels else destRels.map fun r => wrapper ++ '/' :: r

/-! ## Segments -/

/-- The parts of a path that name something. -/
def segments (t : Text) : List Text := (t.splitOn '/').filter (· ≠ [])

/-- A part that may stand in a path. -/
structure Normal (seg : Text) : Prop where
  free : isReserved seg = false
  here : seg ≠ ['.']
  above : seg ≠ ['.', '.']

/-- The path on the disk, below the destination. -/
def onDisk (t : Text) : Path := (segments t).map String.ofList

/-- What the guard lets pass. -/
def Accepted (t : Text) : Prop := ∃ p, sanitizeRelPath (String.ofList t) = .ok p

section

variable {t d rest : Text}

theorem segments_join (d rest : Text) : segments (d ++ '/' :: rest) = segments d ++ segments rest := by
  unfold segments
  rw [List.splitOn_eq_splitOnP, List.splitOnP_append_cons _ _ (by simp), List.filter_append]
  rfl

theorem segments_plain (whole : '/' ∉ t) : segments t = if t = [] then [] else [t] := by
  unfold segments
  rw [List.splitOn_eq_singleton whole]
  split
  · rename_i none_
    rw [none_]
    rfl
  · rename_i some_
    simp [some_]

theorem segments_name (whole : '/' ∉ t) (some_ : t ≠ []) : segments t = [t] := by
  rw [segments_plain whole, if_neg some_]

theorem onDisk_join (d rest : Text) : onDisk (d ++ '/' :: rest) = onDisk d ++ onDisk rest := by
  rw [onDisk, segments_join, List.map_append]
  rfl

theorem onDisk_injective {a b : Text} : onDisk a = onDisk b ↔ segments a = segments b :=
  (List.map_injective_iff.2 fun _ _ h => String.ofList_injective h).eq_iff

theorem splitOn_whole : ∀ seg ∈ t.splitOn '/', '/' ∉ seg := by
  induction t with
  | nil => simp
  | cons c t ih =>
    rw [List.splitOn_cons_eq_if_modifyHead]
    split
    · simpa using ih
    · rename_i other
      obtain ⟨first, more, parts⟩ := List.exists_cons_of_ne_nil (List.splitOn_ne_nil '/' t)
      rw [parts] at ih ⊢
      obtain ⟨here, later⟩ := List.forall_mem_cons.1 ih
      refine List.forall_mem_cons.2 ⟨?_, later⟩
      simpa [here] using fun e : '/' = c => other (beq_iff_eq.2 e.symm)

theorem segments_whole {seg : Text} (mem : seg ∈ segments t) : '/' ∉ seg ∧ seg ≠ [] := by
  obtain ⟨part, some_⟩ := List.mem_filter.1 mem
  exact ⟨splitOn_whole seg part, of_decide_eq_true some_⟩

theorem pushSegments_iff {segs : List Text} {safe p : Path} : pushSegments safe segs = some p ↔
    (∀ seg ∈ segs, seg ≠ [] → Normal seg) ∧ p = safe ++ (segs.filter (· ≠ [])).map String.ofList := by
  induction segs generalizing safe with
  | nil => simp [pushSegments, eq_comm]
  | cons seg segs ih =>
    unfold pushSegments
    by_cases none_ : seg = []
    · rw [if_pos none_, ih, List.forall_mem_cons]
      simp [none_]
    · rw [if_neg none_, List.forall_mem_cons, List.filter_cons_of_pos (by simpa using none_)]
      by_cases normal : Normal seg
      · rw [if_neg (by simp [normal.free]), if_neg (not_or.2 ⟨normal.here, normal.above⟩), ih]
        simp [normal]
      · refine iff_of_false (fun h => normal ?_) fun h => normal (h.1.1 none_)
        split at h
        · cases h
        · rename_i free
          split at h
          · cases h
          · rename_i plain
            rw [not_or] at plain
            exact ⟨by simpa using free, plain.1, plain.2⟩

/-- **What the guard makes of a path**: its parts, if each may stand in one. -/
theorem sanitize_iff {p : Path} : sanitizeRelPath (String.ofList t) = .ok p ↔
    t.head? ≠ some '/' ∧ segments t ≠ [] ∧ (∀ seg ∈ segments t, Normal seg) ∧ p = onDisk t := by
  have all : (∀ seg ∈ t.splitOn '/', seg ≠ [] → Normal seg) ↔ ∀ seg ∈ segments t, Normal seg := by
    simp only [segments, List.mem_filter, decide_eq_true_eq, and_imp]
  unfold sanitizeRelPath
  rw [String.toList_ofList]
  by_cases none_ : t = []
  · rw [if_pos none_]
    refine iff_of_false nofun fun h => h.2.1 ?_
    rw [none_]
    rfl
  · rw [if_neg none_]
    by_cases absolute : t.head? = some '/'
    · rw [if_pos absolute]
      exact iff_of_false nofun fun h => h.1 absolute
    · rw [if_neg absolute]
      cases pushed : pushSegments [] (t.splitOn '/') with
      | none =>
        refine iff_of_false nofun fun h => ?_
        have : pushSegments [] (t.splitOn '/') = some _ := pushSegments_iff.2 ⟨all.2 h.2.2.1, rfl⟩
        rw [pushed] at this
        cases this
      | some safe =>
        obtain ⟨normal, rfl⟩ := pushSegments_iff.1 pushed
        dsimp only
        split
        · rename_i empty
          refine iff_of_false nofun fun h => h.2.1 (List.map_eq_nil_iff.1 empty)
        · rename_i named
          refine ⟨fun h => ?_, fun h => ?_⟩
          · exact ⟨absolute, fun e => named (List.map_eq_nil_iff.2 e), all.1 normal,
              (Except.ok.inj h).symm⟩
          · rw [h.2.2.2]
            rfl

theorem accepted_iff : Accepted t ↔
    t.head? ≠ some '/' ∧ segments t ≠ [] ∧ ∀ seg ∈ segments t, Normal seg := by
  constructor
  · rintro ⟨p, h⟩
    obtain ⟨relative, named, normal, -⟩ := sanitize_iff.1 h
    exact ⟨relative, named, normal⟩
  · rintro ⟨relative, named, normal⟩
    exact ⟨_, sanitize_iff.2 ⟨relative, named, normal, rfl⟩⟩

end

/-! ## Names -/

section

variable {t d f p rest base : Text} {n : Nat}

theorem parentPrefix_basename (d : Text) : parentPrefix d ++ basename d = d :=
  List.rdropWhile_append_rtakeWhile

theorem basename_whole (d : Text) : '/' ∉ basename d := by
  intro slash
  simpa using List.mem_rtakeWhile_imp slash

/-- A path's last part, unless it ends in a separator. -/
theorem basename_segment (named : basename t ≠ []) : basename t ∈ segments t := by
  unfold basename at named ⊢
  rcases List.eq_nil_or_concat (parentPrefix t) with none_ | ⟨above, c, some_⟩
  · have whole := parentPrefix_basename t
    rw [none_, List.nil_append] at whole
    have free := basename_whole t
    rw [whole] at free
    rw [segments_name free fun e => named (by rw [e]; rfl)]
    exact List.mem_singleton.2 whole
  · have slash : c = '/' := by
      have last := List.rdropWhile_last_not (fun c : Char => c ≠ '/') t (by
        intro none_
        rw [parentPrefix, none_] at some_
        simp at some_)
      have e : parentPrefix t = t.rdropWhile (· ≠ '/') := rfl
      simp only [← e, some_] at last
      simpa using last
    have split : t = above ++ '/' :: basename t := by
      conv_lhs => rw [← parentPrefix_basename t, some_, slash]
      simp
    have parts := segments_join above (basename t)
    rw [← split, segments_name (basename_whole t) named] at parts
    rw [parts]
    exact List.mem_append_right _ (List.mem_singleton_self _)

theorem suffixed_injective (base : Text) : Function.Injective (suffixed base) := by
  intro i j same
  have digits : showNat i = showNat j := (List.cons.inj (List.append_cancel_left same)).2
  have read := parseDigits_showNat i
  rw [digits, parseDigits_showNat] at read
  exact (Option.some.inj read).symm

theorem suffixed_whole (whole : '/' ∉ base) : '/' ∉ suffixed base n := by
  intro slash
  rcases List.mem_append.1 slash with slash | slash
  · exact whole slash
  · rcases List.mem_cons.1 slash with slash | slash
    · cases slash
    · cases showNat_digits n _ slash

/-- A number makes any name one that may stand in a path. -/
theorem suffixed_normal (base : Text) (n : Nat) : Normal (suffixed base n) := by
  have dash : '-' ∈ suffixed base n := by simp [suffixed]
  have other : ∀ t : Text, '-' ∉ t → suffixed base n ≠ t := fun t none_ e => none_ (e ▸ dash)
  refine ⟨?_, other _ (by decide), other _ (by decide)⟩
  have kept : (suffixed base n).rdropWhile (fun c => c = '.' ∨ c = ' ') = suffixed base n := by
    rw [List.rdropWhile_eq_self_iff]
    intro some_
    have ends : (suffixed base n).getLast? = (showNat n).getLast? := by
      unfold suffixed
      rw [List.getLast?_append_of_ne_nil _ (List.cons_ne_nil _ _)]
      exact List.getLast?_cons_of_ne_nil Nat.toDigits_ne_nil
    rw [List.getLast?_eq_some_getLast some_] at ends
    have digit := showNat_digits n _ (List.mem_of_getLast? ends.symm)
    intro blank
    rcases of_decide_eq_true blank with e | e <;> rw [e] at digit <;> cases digit
  unfold isReserved
  rw [kept, decide_eq_false_iff_not]
  intro same
  have mapped : '-' ∈ (suffixed base n).map Char.toLower := List.mem_map.2 ⟨'-', dash, by decide⟩
  rw [same] at mapped
  revert mapped
  decide

theorem stripPrefix_iff : stripPrefix p t = some rest ↔ t = p ++ rest := by
  refine ⟨fun h => ?_, fun h => h ▸ stripPrefix_append p⟩
  induction p generalizing t with
  | nil => exact Option.some.inj h
  | cons x p ih =>
    cases t with
    | nil => cases h
    | cons y t =>
      unfold stripPrefix at h
      split at h
      · rename_i same
        rw [same, ih h]
        rfl
      · cases h

theorem isStrictAncestor_iff : isStrictAncestor d p = true ↔
    d = [] ∧ p ≠ [] ∨ d ≠ [] ∧ ∃ rest, p = d ++ '/' :: rest := by
  unfold isStrictAncestor
  by_cases same : d = p
  · rw [if_pos same]
    refine iff_of_false Bool.false_ne_true ?_
    rintro (⟨none_, some_⟩ | ⟨-, rest, below⟩)
    · exact some_ (same ▸ none_)
    · have len := congrArg List.length below
      rw [List.length_append, List.length_cons, same] at len
      omega
  · rw [if_neg same]
    by_cases none_ : d = []
    · rw [if_pos none_]
      simp [none_]
    · rw [if_neg none_]
      simp only [none_, false_and, false_or, not_false_eq_true, true_and, ne_eq,
        Option.any_eq_true, decide_eq_true_eq]
      constructor
      · rintro ⟨rest, found, head⟩
        obtain ⟨rest, rfl⟩ := List.head?_eq_some_iff.1 head
        exact ⟨rest, stripPrefix_iff.1 found⟩
      · rintro ⟨rest, below⟩
        exact ⟨'/' :: rest, stripPrefix_iff.2 below, rfl⟩

theorem governs_dir : governs (.dir d) f = true ↔ d = [] ∨ ∃ rest, f = d ++ '/' :: rest := by
  simp only [governs, Bool.or_eq_true, decide_eq_true_eq, isStrictAncestor_iff]
  constructor
  · rintro (none_ | ⟨none_, -⟩ | ⟨-, below⟩)
    · exact .inl none_
    · exact .inl none_
    · exact .inr below
  · rintro (none_ | below)
    · exact .inl none_
    · by_cases none_ : d = []
      · exact .inl none_
      · exact .inr (.inr ⟨none_, below⟩)

theorem governs_file {g : Text} : governs (.file g) f = true ↔ g = f := by simp [governs]

/-! ### Landings -/

theorem landing_share (f : Text) : landing f (.dir [], none) = f := rfl

theorem landing_file (f top : Text) : landing f (.file f, some top) = top := by
  simp [landing, replaceTop, destRelFor, splitOnce_none (basename_whole f)]

theorem landing_dir (d rest top : Text) :
    landing (d ++ '/' :: rest) (.dir d, some top) = top ++ '/' :: rest := by
  have strip : destRelFor (d ++ '/' :: rest) (.dir d) = basename d ++ '/' :: rest := by
    conv_lhs =>
      rw [destRelFor]
      arg 1
      arg 2
      rw [← parentPrefix_basename d, List.append_assoc]
    rw [stripPrefix_append]
    rfl
  simp [landing, replaceTop, strip, splitOnce_append (basename_whole d)]

end

/-! ## Normalized roots -/

theorem nodup_eraseDups {α : Type} [DecidableEq α] (l : List α) : l.eraseDups.Nodup := by
  induction len : l.length using Nat.strong_induction_on generalizing l with
  | _ n ih =>
    cases l with
    | nil => exact List.nodup_nil
    | cons a l =>
      rw [List.eraseDups_cons, List.nodup_cons, List.mem_eraseDups]
      refine ⟨by simp, ih _ ?_ _ rfl⟩
      have := List.length_filter_le (fun b => !b == a) l
      rw [List.length_cons] at len
      omega

section

variable {roots : List SelectionRoot} {r r' : SelectionRoot} {d f : Text}

theorem mem_normalizeRoots :
    r ∈ normalizeRoots roots ↔ r ∈ roots ∧ ∀ o ∈ roots, o.subsumes r.path = false := by
  simp [normalizeRoots, List.mem_eraseDups]

/-- No selected directory is above a root that is left. -/
theorem not_above (normal : r ∈ normalizeRoots roots) (selected : .dir d ∈ roots) :
    isStrictAncestor d r.path = false := (mem_normalizeRoots.1 normal).2 _ selected

theorem above_file (some_ : f ≠ []) (rules : governs (.dir d) f = true) :
    isStrictAncestor d f = true := by
  rw [isStrictAncestor_iff]
  by_cases none_ : d = []
  · exact .inl ⟨none_, some_⟩
  · exact .inr ⟨none_, (governs_dir.1 rules).resolve_left none_⟩

/-- Of two directories above a file one is the other or above it. -/
theorem above_dir {d' : Text} (rules : governs (.dir d) f = true) (rules' : governs (.dir d') f = true)
    (short : d.length ≤ d'.length) : d' = d ∨ isStrictAncestor d d' = true := by
  rw [isStrictAncestor_iff]
  by_cases none_ : d = []
  · by_cases none' : d' = []
    · exact .inl (none'.trans none_.symm)
    · exact .inr (.inl ⟨none_, none'⟩)
  · have some' : d' ≠ [] := by
      rintro rfl
      exact none_ (List.length_eq_zero_iff.1 (Nat.le_zero.1 short))
    obtain ⟨rest, text⟩ := (governs_dir.1 rules).resolve_left none_
    obtain ⟨rest', text'⟩ := (governs_dir.1 rules').resolve_left some'
    rcases List.append_eq_append_iff.1 (text.symm.trans text') with ⟨mid, e, e'⟩ | ⟨mid, e, -⟩
    · cases mid with
      | nil => exact .inl (by simpa using e)
      | cons c mid =>
        obtain rfl : '/' = c := (List.cons.inj e').1
        exact .inr (.inr ⟨none_, mid, e⟩)
    · have len := congrArg List.length e
      rw [List.length_append] at len
      obtain rfl : mid = [] := List.length_eq_zero_iff.1 (by omega)
      exact .inl (by simpa using e.symm)

/-- **A file has one root.** -/
theorem governor_unique (some_ : f ≠ []) (normal : r ∈ normalizeRoots roots)
    (normal' : r' ∈ normalizeRoots roots) (rules : governs r f = true) (rules' : governs r' f = true) :
    r = r' := by
  have selected := (mem_normalizeRoots.1 normal).1
  have selected' := (mem_normalizeRoots.1 normal').1
  have absent : ∀ {d : Text} {r : SelectionRoot}, .dir d ∈ roots → r ∈ normalizeRoots roots →
      isStrictAncestor d r.path ≠ true := fun held normal above => by
    rw [not_above normal held] at above
    cases above
  cases r with
  | file g =>
    cases r' with
    | file g' => rw [governs_file.1 rules, governs_file.1 rules']
    | dir d' =>
      obtain rfl := governs_file.1 rules
      exact absurd (above_file some_ rules') (absent selected' normal)
  | dir d =>
    cases r' with
    | file g' =>
      obtain rfl := governs_file.1 rules'
      exact absurd (above_file some_ rules) (absent selected normal')
    | dir d' =>
      rcases Nat.le_total d.length d'.length with short | short
      · rcases above_dir rules rules' short with same | above
        · rw [same]
        · exact absurd above (absent selected normal')
      · rcases above_dir rules' rules short with same | above
        · rw [same]
        · exact absurd above (absent selected' normal)

theorem isStrictAncestor_trans {a b c : Text} (h : isStrictAncestor a b = true)
    (h' : isStrictAncestor b c = true) : isStrictAncestor a c = true := by
  rw [isStrictAncestor_iff] at h h' ⊢
  rcases h with ⟨none_, some_⟩ | ⟨some_, rest, rfl⟩
  · rcases h' with ⟨none', -⟩ | ⟨-, rest, rfl⟩
    · exact absurd none' some_
    · exact .inl ⟨none_, by simp⟩
  · rcases h' with ⟨none', -⟩ | ⟨-, rest', rfl⟩
    · simp at none'
    · exact .inr ⟨some_, rest ++ '/' :: rest', by simp⟩

/-- What a root has below it, a root that is left has. -/
theorem governed_normal (selected : r ∈ roots) (rules : governs r f = true) :
    ∃ r' ∈ normalizeRoots roots, governs r' f = true := by
  induction len : r.path.length using Nat.strong_induction_on generalizing r with
  | _ n ih =>
    by_cases left : ∀ o ∈ roots, o.subsumes r.path = false
    · exact ⟨r, mem_normalizeRoots.2 ⟨selected, left⟩, rules⟩
    · simp only [not_forall, Bool.not_eq_false] at left
      obtain ⟨o, held, above⟩ := left
      cases o with
      | file g => cases above
      | dir d =>
        have above : isStrictAncestor d r.path = true := above
        have shorter : d.length < r.path.length := by
          rcases isStrictAncestor_iff.1 above with ⟨none_, some_⟩ | ⟨-, rest, text⟩
          · rw [none_]
            exact List.length_pos_iff.2 some_
          · have := congrArg List.length text
            rw [List.length_append, List.length_cons] at this
            omega
        have rules' : governs (.dir d) f = true := by
          have reaches : isStrictAncestor d f = true := by
            cases r with
            | file g => exact governs_file.1 rules ▸ above
            | dir d' =>
              by_cases none_ : d' = []
              · rw [none_] at above
                rcases isStrictAncestor_iff.1 above with ⟨-, some_⟩ | ⟨-, rest, text⟩
                · exact absurd rfl some_
                · simp [SelectionRoot.path] at text
              · have own : isStrictAncestor d' f = true := by
                  simpa [governs, none_] using rules
                exact isStrictAncestor_trans above own
          simp [governs, reaches]
        exact ih d.length (len ▸ shorter) held rules' rfl

end

end Daemonseed.Storage.Placement
