import Daemonseed.Storage.Placement

/-! # What is placed

Each root that is left has a name of its own at the destination, each file lands
by the root that it is under, and what is placed is kept apart. -/
namespace Daemonseed.Storage.Placed
open Daemonseed.Lib.Lines Daemonseed.Lib.Numbering Daemonseed.Lib.Results
  Daemonseed.Storage.Fetched Daemonseed.Storage.Placement

/-! ## Output names -/

/-- The roots that are left, each with its name at the destination. -/
def outputs (roots : List SelectionRoot) : List (SelectionRoot × Option Text) :=
  assign [] (normalizeRoots roots)

section

variable {roots : List SelectionRoot} {taken : List Text} {base : Text}
  {a b : SelectionRoot × Option Text}

theorem uniquify_taken (base : Text) (taken : List Text) :
    (uniquify base taken).2 = (uniquify base taken).1 :: taken := by
  unfold uniquify
  split <;> rfl

theorem uniquify_free (base : Text) (taken : List Text) : (uniquify base taken).1 ∉ taken := by
  unfold uniquify
  split
  · assumption
  · exact firstFree_free (suffixed_injective base) 2

theorem uniquify_name (base : Text) (taken : List Text) :
    (uniquify base taken).1 = base ∨ ∃ n, (uniquify base taken).1 = suffixed base n := by
  unfold uniquify
  split
  · exact .inl rfl
  · obtain ⟨n, -, same⟩ : ∃ n, 2 ≤ n ∧ firstFree (suffixed base) taken taken.length 2 = suffixed base n :=
      firstFree_mem taken.length 2
    exact .inr ⟨n, same⟩

/-- Nothing is named nothing but the first whose own name is that. -/
theorem uniquify_empty (free : [] ∉ taken) : (uniquify base taken).1 = [] ↔ base = [] := by
  rcases uniquify_name base taken with same | ⟨n, same⟩
  · rw [same]
  · refine ⟨fun e => ?_, fun e => ?_⟩
    · rw [same, suffixed] at e
      simp at e
    · rw [e, uniquify, if_pos free]

theorem assign_cons (taken : List Text) (r : SelectionRoot) (rest : List SelectionRoot) :
    (topNameOf r = none ∧ assign taken (r :: rest) = (r, none) :: assign taken rest) ∨
    ∃ base, topNameOf r = some base ∧ assign taken (r :: rest) =
      (r, some (uniquify base taken).1) :: assign ((uniquify base taken).1 :: taken) rest := by
  rw [assign]
  cases h : topNameOf r with
  | none => exact .inl ⟨rfl, rfl⟩
  | some base => exact .inr ⟨base, rfl, by simp only [uniquify_taken]⟩

theorem assign_roots (taken : List Text) (roots : List SelectionRoot) :
    (assign taken roots).map Prod.fst = roots := by
  induction roots generalizing taken with
  | nil => rfl
  | cons r rest ih =>
    rcases assign_cons taken r rest with ⟨-, e⟩ | ⟨base, -, e⟩ <;> rw [e, List.map_cons, ih]

/-- A root's name is its own, with a number or without. -/
theorem assign_name (mem : a ∈ assign taken roots) :
    topNameOf a.1 = none ∧ a.2 = none ∨
    ∃ base top, topNameOf a.1 = some base ∧ a.2 = some top ∧
      (top = base ∨ ∃ n, top = suffixed base n) := by
  induction roots generalizing taken with
  | nil => cases mem
  | cons r rest ih =>
    rcases assign_cons taken r rest with ⟨own, e⟩ | ⟨base, own, e⟩
    · rw [e] at mem
      rcases List.mem_cons.1 mem with rfl | mem
      · exact .inl ⟨own, rfl⟩
      · exact ih mem
    · rw [e] at mem
      rcases List.mem_cons.1 mem with rfl | mem
      · exact .inr ⟨base, _, own, rfl, uniquify_name base taken⟩
      · exact ih mem

theorem assign_free (mem : a ∈ assign taken roots) {top : Text} (named : a.2 = some top) :
    top ∉ taken := by
  induction roots generalizing taken with
  | nil => cases mem
  | cons r rest ih =>
    rcases assign_cons taken r rest with ⟨-, e⟩ | ⟨base, -, e⟩
    · rw [e] at mem
      rcases List.mem_cons.1 mem with rfl | mem
      · cases named
      · exact ih mem
    · rw [e] at mem
      rcases List.mem_cons.1 mem with rfl | mem
      · exact Option.some.inj named ▸ uniquify_free base taken
      · exact fun held => ih mem (List.mem_cons_of_mem _ held)

/-- No name is given twice. -/
theorem assign_distinct (taken : List Text) (roots : List SelectionRoot) :
    (assign taken roots).Pairwise fun a b => ∀ top, a.2 = some top → b.2 ≠ some top := by
  induction roots generalizing taken with
  | nil => exact List.Pairwise.nil
  | cons r rest ih =>
    rcases assign_cons taken r rest with ⟨-, e⟩ | ⟨base, -, e⟩ <;> rw [e, List.pairwise_cons]
    · exact ⟨fun _ _ _ named => (nomatch named), ih taken⟩
    · refine ⟨fun b mem top named later => ?_, ih _⟩
      exact assign_free mem later (Option.some.inj named ▸ List.mem_cons_self)

/-- The first root with an empty name of its own. -/
def firstUnnamed (roots : List SelectionRoot) : Option SelectionRoot :=
  roots.find? fun r => topNameOf r = some []

theorem firstUnnamed_some {r : SelectionRoot} (found : firstUnnamed roots = some r) :
    topNameOf r = some [] := by
  simpa using List.find?_some found

theorem assign_empty (free : [] ∉ taken) (distinct : roots.Nodup) (mem : a ∈ assign taken roots) :
    a.2 = some [] ↔ firstUnnamed roots = some a.1 := by
  induction roots generalizing taken with
  | nil => cases mem
  | cons r rest ih =>
    obtain ⟨new, distinct⟩ := List.nodup_cons.1 distinct
    have later : ∀ {taken : List Text}, a ∈ assign taken rest → a.1 ∈ rest := fun mem =>
      assign_roots _ rest ▸ List.mem_map_of_mem mem
    unfold firstUnnamed
    rcases assign_cons taken r rest with ⟨own, e⟩ | ⟨base, own, e⟩ <;> rw [e] at mem
    · rw [List.find?_cons_of_neg (by simp [own])]
      rcases List.mem_cons.1 mem with rfl | mem
      · refine iff_of_false nofun fun found => ?_
        have := firstUnnamed_some found
        rw [own] at this
        cases this
      · exact ih free distinct mem
    · by_cases none_ : base = []
      · subst none_
        have first : (uniquify [] taken).1 = [] := (uniquify_empty free).2 rfl
        rw [List.find?_cons_of_pos (by simp [own])]
        rcases List.mem_cons.1 mem with rfl | mem
        · exact iff_of_true (congrArg some first) rfl
        · refine iff_of_false (fun named => ?_) fun same => ?_
          · exact assign_free mem named (by rw [first]; exact List.mem_cons_self)
          · exact new (Option.some.inj same ▸ later mem)
      · have other : (uniquify base taken).1 ≠ [] := fun e => none_ ((uniquify_empty free).1 e)
        rw [List.find?_cons_of_neg (by simp [own, none_])]
        rcases List.mem_cons.1 mem with rfl | mem
        · refine iff_of_false (fun named => other (Option.some.inj named)) fun found => ?_
          have := firstUnnamed_some found
          rw [own] at this
          exact none_ (Option.some.inj this)
        · refine ih (fun held => ?_) distinct mem
          rcases List.mem_cons.1 held with e | held
          · exact other e.symm
          · exact free held

theorem outputs_root (mem : a ∈ outputs roots) : a.1 ∈ normalizeRoots roots :=
  assign_roots [] (normalizeRoots roots) ▸ List.mem_map_of_mem mem

theorem outputs_of_root {r : SelectionRoot} (left : r ∈ normalizeRoots roots) :
    ∃ a ∈ outputs roots, a.1 = r := by
  rw [← assign_roots [] (normalizeRoots roots)] at left
  exact List.mem_map.1 left

theorem outputs_unique (mem : a ∈ outputs roots) (mem' : b ∈ outputs roots) (same : a.1 = b.1) :
    a = b := by
  refine List.inj_on_of_nodup_map ?_ mem mem' same
  rw [outputs, assign_roots]
  exact nodup_eraseDups _

theorem outputs_distinct (mem : a ∈ outputs roots) (mem' : b ∈ outputs roots) {top : Text}
    (named : a.2 = some top) (named' : b.2 = some top) : a = b := by
  by_contra other
  have either : Std.Symm fun a b : SelectionRoot × Option Text =>
      ∀ top, a.2 = some top → b.2 ≠ some top := ⟨fun _ _ h top named named' => h top named' named⟩
  exact (assign_distinct [] (normalizeRoots roots)).forall mem mem' other top named named'

end

/-! ## One file -/

section

variable {roots : List SelectionRoot} {f : Text} {a b : SelectionRoot × Option Text}

/-- A fold that keeps what it has or takes the next ends with one of them. -/
theorem foldl_picks {α : Type} {f : Option α → α → Option α}
    (picks : ∀ b a, f (some b) a = some a ∨ f (some b) a = some b) (l : List α) (x : α) :
    ∃ y ∈ x :: l, l.foldl f (some x) = some y := by
  induction l generalizing x with
  | nil => exact ⟨x, List.mem_cons_self, rfl⟩
  | cons a l ih =>
    rw [List.foldl_cons]
    rcases picks x a with taken | kept
    · rw [taken]
      obtain ⟨y, mem, e⟩ := ih a
      exact ⟨y, List.mem_cons_of_mem _ mem, e⟩
    · rw [kept]
      obtain ⟨y, mem, e⟩ := ih x
      refine ⟨y, ?_, e⟩
      rcases List.mem_cons.1 mem with rfl | mem
      · exact List.mem_cons_self
      · exact List.mem_cons_of_mem _ (List.mem_cons_of_mem _ mem)

theorem maxByKey_some {α : Type} {key : α → Nat} {l : List α} (some_ : l ≠ []) :
    ∃ x ∈ l, maxByKey key l = some x := by
  cases l with
  | nil => exact absurd rfl some_
  | cons x l =>
    refine foldl_picks (fun b a => ?_) l x
    by_cases less : key b ≤ key a
    · exact .inl (if_pos less)
    · exact .inr (if_neg less)

theorem accepted_ne (accepted : Accepted f) : f ≠ [] := by
  rintro rfl
  exact (accepted_iff.1 accepted).2.1 rfl

/-- What lands on a path that the guard accepts, lands by one root. -/
theorem outputs_governor (mem : a ∈ outputs roots) (mem' : b ∈ outputs roots)
    (rules : governs a.1 f = true) (rules' : governs b.1 f = true) (accepted : Accepted (landing f a)) :
    a = b := by
  have left := outputs_root mem
  have left' := outputs_root mem'
  by_cases some_ : f = []
  · subst some_
    -- Only the empty file is under a root and lands somewhere, where its root has a number.
    obtain ⟨⟨g⟩ | ⟨d⟩, name⟩ := a
    · obtain rfl := governs_file.1 rules
      obtain ⟨⟨g'⟩ | ⟨d'⟩, name'⟩ := b
      · obtain rfl := governs_file.1 rules'
        exact outputs_unique mem mem' rfl
      · obtain rfl : d' = [] := by
          rcases governs_dir.1 rules' with none_ | ⟨rest, text⟩
          · exact none_
          · simp at text
        have only : ∀ r ∈ normalizeRoots roots, r.path = [] := by
          intro r held
          have apart := not_above held (mem_normalizeRoots.1 left').1
          by_contra other
          rw [isStrictAncestor_iff.2 (.inl ⟨rfl, other⟩)] at apart
          cases apart
        have first : firstUnnamed (normalizeRoots roots) = some (.file []) := by
          cases found : firstUnnamed (normalizeRoots roots) with
          | none => exact absurd (decide_eq_true rfl) (List.find?_eq_none.1 found _ left)
          | some r =>
            have held := List.mem_of_find?_eq_some found
            have named := firstUnnamed_some found
            have path := only r held
            cases r with
            | file g => rw [show g = [] from path]
            | dir d =>
              rw [show d = [] from path] at named
              cases named
        have named : name = some [] := (assign_empty List.not_mem_nil (nodup_eraseDups _) mem).2 first
        rw [named, landing_file] at accepted
        exact absurd rfl (accepted_ne accepted)
    · obtain rfl : d = [] := by
        rcases governs_dir.1 rules with none_ | ⟨rest, text⟩
        · exact none_
        · simp at text
      obtain ⟨-, none_⟩ | ⟨base, top, named, -⟩ := assign_name mem
      · obtain rfl : name = none := none_
        exact absurd rfl (accepted_ne accepted)
      · cases named
  · exact outputs_unique mem mem' (governor_unique some_ left left' rules rules')

/-- **A file is placed by the root that it is under.** -/
theorem placeFile_iff {placed : PlacedFile} : placeFile (outputs roots) f = .ok placed ↔
    ∃ a ∈ outputs roots, governs a.1 f = true ∧ Accepted (landing f a) ∧ placed = ⟨f, landing f a⟩ := by
  have run : ∀ a, maxByKey (fun root => (String.ofList root.1.path).utf8ByteSize)
      ((outputs roots).filter fun root => governs root.1 f) = some a →
      (placeFile (outputs roots) f = .ok placed ↔
        Accepted (landing f a) ∧ placed = ⟨f, landing f a⟩) := by
    intro a chosen
    unfold placeFile
    rw [chosen]
    dsimp only
    rw [bind_ok]
    constructor
    · rintro ⟨p, accepted, e⟩
      exact ⟨⟨p, accepted⟩, (Except.ok.inj e).symm⟩
    · rintro ⟨⟨p, accepted⟩, rfl⟩
      exact ⟨p, accepted, rfl⟩
  by_cases none_ : (outputs roots).filter (fun root => governs root.1 f) = []
  · refine iff_of_false (fun h => ?_) ?_
    · unfold placeFile at h
      rw [none_] at h
      cases h
    · rintro ⟨a, mem, rules, -⟩
      have : a ∈ (outputs roots).filter (fun root => governs root.1 f) :=
        List.mem_filter.2 ⟨mem, rules⟩
      rw [none_] at this
      cases this
  · obtain ⟨b, mem, chosen⟩ := maxByKey_some none_
    obtain ⟨mem, rules⟩ := List.mem_filter.1 mem
    rw [run b chosen]
    refine ⟨fun ⟨accepted, same⟩ => ⟨b, mem, rules, accepted, same⟩, ?_⟩
    rintro ⟨a, mem', rules', accepted, same⟩
    obtain rfl := outputs_governor mem' mem rules' rules accepted
    exact ⟨accepted, same⟩

end

/-! ## All of them -/

/-- A path below the destination, and none of the staging area. -/
structure Inside (t : Text) : Prop where
  accepted : sanitizeRelPath (String.ofList t) = .ok (onDisk t)
  named : onDisk t ≠ []
  normal : ∀ c ∈ onDisk t, c ≠ "" ∧ c ≠ "." ∧ c ≠ ".." ∧ '/' ∉ c.toList ∧ isReserved c.toList = false

/-- What is promised of what is returned. -/
structure Promised (roots : List SelectionRoot) (files : List Text) (out : List PlacedFile) : Prop where
  order : out.map (·.shareRel) = files
  inside : ∀ a ∈ out, Inside a.destRel
  wrapped : ∀ wrapper, Accepted wrapper → '/' ∉ wrapper →
    ∀ rel ∈ noScatter (out.map (·.destRel)) wrapper, Inside rel
  folders : ∀ d, d ≠ [] → .dir d ∈ roots → ∀ a ∈ out, ∀ b ∈ out, ∀ rest rest',
    a.shareRel = d ++ '/' :: rest → b.shareRel = d ++ '/' :: rest' →
      ∃ above, a.destRel = above ++ '/' :: rest ∧ b.destRel = above ++ '/' :: rest' ∧
        (onDisk a.destRel).head? = (onDisk b.destRel).head?
  apart : ∀ r ∈ normalizeRoots roots, ∀ r' ∈ normalizeRoots roots, r ≠ r' → ∀ a ∈ out, ∀ b ∈ out,
    governs r a.shareRel = true → governs r' b.shareRel = true →
      (onDisk a.destRel).head? ≠ (onDisk b.destRel).head?
  distinct : ∀ a ∈ out, ∀ b ∈ out, a.shareRel ≠ b.shareRel → onDisk a.destRel ≠ onDisk b.destRel

/-- Each file is under a root and lands on a path that the guard accepts. -/
def Lands (roots : List SelectionRoot) (files : List Text) : Prop :=
  ∀ f ∈ files, ∃ a ∈ outputs roots, governs a.1 f = true ∧ Accepted (landing f a)

/-- Two files under one root that differ in nothing but empty parts. -/
def Aliased (roots : List SelectionRoot) (files : List Text) : Prop :=
  ∃ r ∈ normalizeRoots roots, ∃ f ∈ files, ∃ g ∈ files, f ≠ g ∧
    governs r f = true ∧ governs r g = true ∧ onDisk f = onDisk g

/-- Every file is under a root and a path that the guard accepts. -/
def Acceptable (roots : List SelectionRoot) (files : List Text) : Prop :=
  ∀ f ∈ files, (∃ r ∈ roots, governs r f = true) ∧ Accepted f

/-- A file under the first root whose own name is empty. -/
def UnderUnnamed (roots : List SelectionRoot) (files : List Text) : Prop :=
  ∃ r, firstUnnamed (normalizeRoots roots) = some r ∧ ∃ f ∈ files, governs r f = true

section

variable {roots : List SelectionRoot} {files : List Text} {out : List PlacedFile} {f t : Text}
  {a b : SelectionRoot × Option Text}

theorem inside_of_accepted (accepted : Accepted t) : Inside t := by
  obtain ⟨relative, named, normal⟩ := accepted_iff.1 accepted
  refine ⟨sanitize_iff.2 ⟨relative, named, normal, rfl⟩, fun e => named (List.map_eq_nil_iff.1 e), ?_⟩
  intro c mem
  obtain ⟨seg, held, rfl⟩ := List.mem_map.1 mem
  obtain ⟨whole, some_⟩ := segments_whole held
  have plain := normal seg held
  have other : ∀ u : String, seg ≠ u.toList → String.ofList seg ≠ u := by
    rintro u ne rfl
    exact ne String.toList_ofList.symm
  rw [String.toList_ofList]
  exact ⟨other "" some_, other "." plain.here, other ".." plain.above, whole, plain.free⟩

/-- The forms a placement has. -/
inductive Landing (f : Text) : SelectionRoot × Option Text → Text → Prop
  | file {top : Text} (whole : '/' ∉ top) (some_ : top ≠ []) : Landing f (.file f, some top) top
  | dir {d rest top : Text} (named : d ≠ []) (below : f = d ++ '/' :: rest) (whole : '/' ∉ top)
    (some_ : top ≠ []) : Landing f (.dir d, some top) (top ++ '/' :: rest)
  | share : Landing f (.dir [], none) f

theorem name_whole (mem : a ∈ outputs roots) {top : Text} (named : a.2 = some top) : '/' ∉ top := by
  rcases assign_name mem with ⟨-, none_⟩ | ⟨base, top', own, named', same⟩
  · rw [named] at none_
    cases none_
  · obtain rfl : top = top' := Option.some.inj (named.symm.trans named')
    have whole : '/' ∉ base := by
      cases h : a.1 with
      | file g =>
        rw [h] at own
        exact Option.some.inj own ▸ basename_whole g
      | dir d =>
        rw [h, topNameOf] at own
        split at own
        · cases own
        · exact Option.some.inj own ▸ basename_whole d
    rcases same with rfl | ⟨n, rfl⟩
    · exact whole
    · exact suffixed_whole whole

theorem landing_form (mem : a ∈ outputs roots) (rules : governs a.1 f = true)
    (some_ : a.2 ≠ some []) : Landing f a (landing f a) := by
  obtain ⟨r, name⟩ := a
  cases r with
  | file g =>
    obtain rfl := governs_file.1 rules
    rcases assign_name mem with ⟨none_, -⟩ | ⟨base, top, -, named, -⟩
    · cases none_
    · obtain rfl : name = some top := named
      rw [landing_file]
      exact .file (name_whole mem rfl) fun e => some_ (congrArg some e)
  | dir d =>
    rcases assign_name mem with ⟨own, none_⟩ | ⟨base, top, own, named, -⟩
    · obtain rfl : name = none := none_
      obtain rfl : d = [] := by
        by_contra other
        simp [topNameOf, other] at own
      exact .share
    · obtain rfl : name = some top := named
      have other : d ≠ [] := by
        rintro rfl
        cases own
      obtain ⟨rest, rfl⟩ := (governs_dir.1 rules).resolve_left other
      rw [landing_dir]
      exact .dir other rfl (name_whole mem rfl) fun e => some_ (congrArg some e)

/-- A file under a root with no name lands nowhere. -/
theorem unnamed_refused (mem : a ∈ outputs roots) (rules : governs a.1 f = true)
    (named : a.2 = some []) : ¬ Accepted (landing f a) := by
  obtain ⟨r, name⟩ := a
  obtain rfl : name = some [] := named
  intro accepted
  cases r with
  | file g =>
    obtain rfl := governs_file.1 rules
    rw [landing_file] at accepted
    exact accepted_ne accepted rfl
  | dir d =>
    rcases governs_dir.1 rules with rfl | ⟨rest, rfl⟩
    · rcases assign_name mem with ⟨-, none_⟩ | ⟨base, top, own, -, -⟩
      · cases none_
      · cases own
    · rw [landing_dir] at accepted
      exact (accepted_iff.1 accepted).1 rfl

theorem landed (mem : a ∈ outputs roots) (rules : governs a.1 f = true)
    (accepted : Accepted (landing f a)) : Landing f a (landing f a) :=
  landing_form mem rules fun named => unnamed_refused mem rules named accepted

theorem Landing.head (h : Landing f a t) {top : Text} (named : a.2 = some top) :
    (onDisk t).head? = some (String.ofList top) := by
  cases h with
  | file whole some_ =>
    obtain rfl := Option.some.inj named
    rw [onDisk, segments_name whole some_]
    rfl
  | dir _ _ whole some_ =>
    obtain rfl := Option.some.inj named
    rw [onDisk_join, onDisk, segments_name whole some_]
    rfl
  | share => cases named

/-- Below one root the paths on the disk are told apart as those of the share. -/
theorem Landing.same {g u : Text} (h : Landing f a t) (h' : Landing g a u) :
    onDisk t = onDisk u ↔ onDisk f = onDisk g := by
  cases h with
  | file => cases h'; exact iff_of_true rfl rfl
  | dir _ below =>
    cases h' with
    | dir _ below' =>
      rw [below, below', onDisk_join, onDisk_join, onDisk_join, onDisk_join,
        List.append_cancel_left_eq, List.append_cancel_left_eq]
  | share => cases h'; rfl

theorem placed_from (h : placeAtDest roots files = .ok out) {placed : PlacedFile} (mem : placed ∈ out) :
    placed.shareRel ∈ files ∧ ∃ a ∈ outputs roots, governs a.1 placed.shareRel = true ∧
      Accepted (landing placed.shareRel a) ∧ placed.destRel = landing placed.shareRel a := by
  obtain ⟨f, held, ok⟩ := mapM_from h mem
  obtain ⟨a, from_, rules, accepted, rfl⟩ := placeFile_iff.1 ok
  exact ⟨held, a, from_, rules, accepted, rfl⟩

theorem placed_order (h : placeAtDest roots files = .ok out) : out.map (·.shareRel) = files := by
  refine mapM_map (fun f placed ok => ?_) h
  obtain ⟨a, -, -, -, rfl⟩ := placeFile_iff.1 ok
  rfl

theorem placed_total : (∃ out, placeAtDest roots files = .ok out) ↔ Lands roots files := by
  refine mapM_total.trans (forall₂_congr fun f _ => ?_)
  constructor
  · rintro ⟨placed, ok⟩
    obtain ⟨a, mem, rules, accepted, -⟩ := placeFile_iff.1 ok
    exact ⟨a, mem, rules, accepted⟩
  · rintro ⟨a, mem, rules, accepted⟩
    exact ⟨_, placeFile_iff.2 ⟨a, mem, rules, accepted, rfl⟩⟩

/-- Every file keeps apart from the others, save from one that is only written
otherwise. -/
theorem placed_distinct_iff (h : placeAtDest roots files = .ok out) :
    (∀ a ∈ out, ∀ b ∈ out, a.shareRel ≠ b.shareRel → onDisk a.destRel ≠ onDisk b.destRel) ↔
      ¬ Aliased roots files := by
  constructor
  · rintro distinct ⟨r, left, f, mem, g, mem', ne, rules, rules', same⟩
    rw [← placed_order h] at mem mem'
    obtain ⟨a, held, rfl⟩ := List.mem_map.1 mem
    obtain ⟨b, held', rfl⟩ := List.mem_map.1 mem'
    obtain ⟨-, x, from_, chosen, accepted, e⟩ := placed_from h held
    obtain ⟨-, y, from', chosen', accepted', e'⟩ := placed_from h held'
    obtain ⟨z, root, rfl⟩ := outputs_of_root left
    obtain rfl := outputs_governor from_ root chosen rules accepted
    obtain rfl := outputs_governor from' root chosen' rules' accepted'
    refine distinct a held b held' ne ?_
    rw [e, e']
    exact ((landed root rules accepted).same (landed root rules' accepted')).2 same
  · intro clear a held b held' ne same
    obtain ⟨mem, x, from_, rules, accepted, e⟩ := placed_from h held
    obtain ⟨mem', y, from', rules', accepted', e'⟩ := placed_from h held'
    have form := landed from_ rules accepted
    have form' := landed from' rules' accepted'
    rw [e, e'] at same
    have one : x = y := by
      cases named : x.2 with
      | none =>
        -- The whole share is above the other file too.
        have share : governs x.1 b.shareRel = true := by
          generalize landing a.shareRel x = t at form
          cases form with
          | share => rfl
          | _ => cases named
        exact (outputs_governor from' from_ rules' share accepted').symm
      | some top =>
        cases named' : y.2 with
        | none =>
          have share : governs y.1 a.shareRel = true := by
            generalize landing b.shareRel y = t at form'
            cases form' with
            | share => rfl
            | _ => cases named'
          exact outputs_governor from_ from' rules share accepted
        | some top' =>
          have heads := congrArg List.head? same
          rw [form.head named, form'.head named'] at heads
          obtain rfl : top = top' := String.ofList_injective (Option.some.inj heads)
          exact outputs_distinct from_ from' named named'
    subst one
    exact clear ⟨x.1, outputs_root from_, a.shareRel, mem, b.shareRel, mem', ne, rules, rules',
      (form.same form').1 same⟩

theorem placed_accepted (h : placeAtDest roots files = .ok out) {rel : Text}
    (mem : rel ∈ out.map (·.destRel)) : Accepted rel := by
  obtain ⟨placed, held, rfl⟩ := List.mem_map.1 mem
  obtain ⟨-, a, -, -, accepted, e⟩ := placed_from h held
  exact e ▸ accepted

theorem wrapped_accepted {wrapper rel : Text} (name : Accepted wrapper) (accepted : Accepted rel) :
    Accepted (wrapper ++ '/' :: rel) := by
  obtain ⟨relative, named, normal⟩ := accepted_iff.1 name
  obtain ⟨-, -, normal'⟩ := accepted_iff.1 accepted
  refine accepted_iff.2 ⟨?_, ?_, ?_⟩
  · rwa [List.head?_append_of_ne_nil _ (accepted_ne name)]
  · rw [segments_join]
    exact List.append_ne_nil_of_left_ne_nil named _
  · rw [segments_join]
    exact List.forall_mem_append.2 ⟨normal, normal'⟩

theorem segments_relative (some_ : t ≠ []) (relative : t.head? ≠ some '/') : segments t ≠ [] := by
  obtain ⟨c, rest, rfl⟩ := List.exists_cons_of_ne_nil some_
  obtain ⟨first, more, parts⟩ := List.exists_cons_of_ne_nil (List.splitOn_ne_nil '/' rest)
  have other : ¬ (c == '/') = true := fun e => relative (congrArg some (beq_iff_eq.1 e))
  rw [segments, List.splitOn_cons_eq_if_modifyHead, if_neg other, parts, List.modifyHead_cons,
    List.filter_cons_of_pos (by simp)]
  exact List.cons_ne_nil _ _

/-- The folder that a selected folder is left in. -/
theorem folder_left {d : Text} (some_ : d ≠ []) (selected : .dir d ∈ roots) :
    ∃ D tail, .dir D ∈ normalizeRoots roots ∧ d = D ++ tail ∧
      (D ≠ [] → tail = [] ∨ ∃ mid, tail = '/' :: mid) := by
  have rules : governs (.dir d) (d ++ '/' :: []) = true := governs_dir.2 (.inr ⟨[], rfl⟩)
  obtain ⟨r, left, rules'⟩ := governed_normal selected rules
  have apart := not_above left selected
  cases r with
  | file g =>
    obtain rfl := governs_file.1 rules'
    rw [SelectionRoot.path, isStrictAncestor_iff.2 (.inr ⟨some_, [], rfl⟩)] at apart
    cases apart
  | dir D =>
    rcases Nat.le_total D.length d.length with short | short
    · rcases above_dir rules' rules short with rfl | above
      · exact ⟨d, [], left, (List.append_nil d).symm, fun _ => .inl rfl⟩
      · rcases isStrictAncestor_iff.1 above with ⟨rfl, -⟩ | ⟨-, mid, text⟩
        · exact ⟨[], d, left, rfl, fun h => absurd rfl h⟩
        · exact ⟨D, '/' :: mid, left, text, fun _ => .inr ⟨mid, rfl⟩⟩
    · rcases above_dir rules rules' short with rfl | above
      · exact ⟨D, [], left, (List.append_nil D).symm, fun _ => .inl rfl⟩
      · rw [SelectionRoot.path, above] at apart
        cases apart

theorem landing_below {D tail : Text} (part : tail = [] ∨ ∃ mid, tail = '/' :: mid) (rest top : Text) :
    landing (D ++ tail ++ '/' :: rest) (.dir D, some top) = top ++ tail ++ '/' :: rest := by
  rcases part with rfl | ⟨mid, rfl⟩
  · rw [List.append_nil, List.append_nil, landing_dir]
  · rw [List.append_assoc, List.append_assoc, List.cons_append, landing_dir]

/-- Two files under one selected folder keep their places below it. -/
theorem placed_folder (h : placeAtDest roots files = .ok out) {d : Text} (some_ : d ≠ [])
    (selected : .dir d ∈ roots) {a b : PlacedFile} (held : a ∈ out) (held' : b ∈ out) {rest rest' : Text}
    (below : a.shareRel = d ++ '/' :: rest) (below' : b.shareRel = d ++ '/' :: rest') :
    ∃ above, a.destRel = above ++ '/' :: rest ∧ b.destRel = above ++ '/' :: rest' ∧
      (onDisk a.destRel).head? = (onDisk b.destRel).head? := by
  obtain ⟨D, tail, left, rfl, part⟩ := folder_left some_ selected
  obtain ⟨⟨-, name⟩, root, rfl⟩ := outputs_of_root left
  have above : ∀ rest, governs (.dir D) (D ++ tail ++ '/' :: rest) = true := by
    intro rest
    rw [governs_dir]
    by_cases none_ : D = []
    · exact .inl none_
    · rcases part none_ with rfl | ⟨mid, rfl⟩
      · exact .inr ⟨rest, by simp⟩
      · exact .inr ⟨mid ++ '/' :: rest, by simp⟩
  obtain ⟨-, x, from_, chosen, accepted, e⟩ := placed_from h held
  obtain ⟨-, y, from', chosen', accepted', e'⟩ := placed_from h held'
  rw [below] at chosen accepted e
  rw [below'] at chosen' accepted' e'
  obtain rfl := outputs_governor from_ root chosen (above rest) accepted
  obtain rfl := outputs_governor from' root chosen' (above rest') accepted'
  rcases assign_name root with ⟨own, none_⟩ | ⟨base, top, own, named, -⟩
  · obtain rfl : name = none := none_
    obtain rfl : D = [] := by
      by_contra other
      simp [topNameOf, other] at own
    rw [List.nil_append] at e e' accepted some_
    rw [landing_share] at e e' accepted
    have relative : tail.head? ≠ some '/' := by
      have := (accepted_iff.1 accepted).1
      rwa [List.head?_append_of_ne_nil _ some_] at this
    have lead : onDisk tail ≠ [] := fun none_ =>
      segments_relative some_ relative (List.map_eq_nil_iff.1 none_)
    refine ⟨tail, e, e', ?_⟩
    rw [e, e', onDisk_join, onDisk_join, List.head?_append_of_ne_nil _ lead,
      List.head?_append_of_ne_nil _ lead]
  · obtain rfl : name = some top := named
    have other : D ≠ [] := by
      rintro rfl
      cases own
    have form := landed root chosen accepted
    have form' := landed root chosen' accepted'
    rw [landing_below (part other)] at e e'
    rw [landing_below (part other)] at form form'
    exact ⟨top ++ tail, e, e', by rw [e, e', form.head rfl, form'.head rfl]⟩

/-- Under two roots that are left files land under two names. -/
theorem placed_apart (h : placeAtDest roots files = .ok out) {r r' : SelectionRoot}
    (left : r ∈ normalizeRoots roots) (left' : r' ∈ normalizeRoots roots) (ne : r ≠ r') {a b : PlacedFile}
    (held : a ∈ out) (held' : b ∈ out) (rules : governs r a.shareRel = true)
    (rules' : governs r' b.shareRel = true) : (onDisk a.destRel).head? ≠ (onDisk b.destRel).head? := by
  obtain ⟨x, root, rfl⟩ := outputs_of_root left
  obtain ⟨y, root', rfl⟩ := outputs_of_root left'
  obtain ⟨-, z, from_, chosen, accepted, e⟩ := placed_from h held
  obtain ⟨-, z', from', chosen', accepted', e'⟩ := placed_from h held'
  obtain rfl := outputs_governor from_ root chosen rules accepted
  obtain rfl := outputs_governor from' root' chosen' rules' accepted'
  have form := landed root rules accepted
  have form' := landed root' rules' accepted'
  have shares : ∀ {x : SelectionRoot × Option Text} {f g t : Text}, Landing f x t → x.2 = none →
      governs x.1 g = true := by
    intro x f g t form none_
    cases form with
    | share => rfl
    | _ => cases none_
  rw [e, e']
  cases named : z.2 with
  | none =>
    exact absurd (congrArg Prod.fst (outputs_governor root' root rules' (shares form named) accepted')) ne.symm
  | some top =>
    cases named' : z'.2 with
    | none =>
      exact absurd (congrArg Prod.fst (outputs_governor root root' rules (shares form' named') accepted)) ne
    | some top' =>
      rw [form.head named, form'.head named']
      intro same
      obtain rfl : top = top' := String.ofList_injective (Option.some.inj same)
      exact ne (congrArg Prod.fst (outputs_distinct root root' named named'))

/-- An acceptable file lands, unless its root has no name. -/
theorem landing_accepted (mem : a ∈ outputs roots) (rules : governs a.1 f = true) (accepted : Accepted f)
    (named : a.2 ≠ some []) : Accepted (landing f a) := by
  obtain ⟨relative, parts, normal⟩ := accepted_iff.1 accepted
  have top_ : ∀ top, a.2 = some top → Normal top := by
    intro top hname
    rcases assign_name mem with ⟨-, none_⟩ | ⟨base, top', own, name, same⟩
    · rw [hname] at none_
      cases none_
    · obtain rfl : top = top' := Option.some.inj (hname.symm.trans name)
      rcases same with rfl | ⟨n, rfl⟩
      · have some_ : top ≠ [] := fun e => named (e ▸ hname)
        refine normal top ?_
        cases h : a.1 with
        | file g =>
          rw [h] at own rules
          obtain rfl := governs_file.1 rules
          obtain rfl : basename g = top := Option.some.inj own
          exact basename_segment some_
        | dir d =>
          rw [h] at own rules
          have other : d ≠ [] := by
            rintro rfl
            cases own
          obtain ⟨rest, rfl⟩ := (governs_dir.1 rules).resolve_left other
          obtain rfl : basename d = top := by
            simpa [topNameOf, other] using own
          rw [segments_join]
          exact List.mem_append_left _ (basename_segment some_)
      · exact suffixed_normal base n
  have form := landing_form mem rules named
  generalize landing f a = t at form
  cases form with
  | file whole some_ =>
    refine accepted_iff.2 ⟨fun head => whole (List.mem_of_mem_head? head), ?_, ?_⟩
    · rw [segments_name whole some_]
      exact List.cons_ne_nil _ _
    · rw [segments_name whole some_]
      exact fun seg held => List.mem_singleton.1 held ▸ top_ _ rfl
  | @dir d rest top _ below whole some_ =>
    have seg := segments_name whole some_
    refine accepted_iff.2 ⟨fun head => ?_, ?_, ?_⟩
    · rw [List.head?_append_of_ne_nil _ some_] at head
      exact whole (List.mem_of_mem_head? head)
    · rw [segments_join, seg]
      exact List.cons_ne_nil _ _
    · rw [segments_join, seg]
      rw [below, segments_join] at normal
      exact List.forall_mem_append.2 ⟨fun seg held => List.mem_singleton.1 held ▸ top_ _ rfl,
        (List.forall_mem_append.1 normal).2⟩
  | share => exact accepted

theorem acceptable_lands (acceptable : Acceptable roots files) :
    Lands roots files ↔ ¬ UnderUnnamed roots files := by
  have first : ∀ a ∈ outputs roots, a.2 = some [] ↔ firstUnnamed (normalizeRoots roots) = some a.1 :=
    fun a mem => assign_empty List.not_mem_nil (nodup_eraseDups _) mem
  constructor
  · rintro lands ⟨r, found, f, mem, rules⟩
    obtain ⟨x, root, rfl⟩ := outputs_of_root (List.mem_of_find?_eq_some found)
    obtain ⟨a, from_, chosen, accepted⟩ := lands f mem
    obtain rfl := outputs_governor from_ root chosen rules accepted
    exact unnamed_refused root rules ((first a root).2 found) accepted
  · intro named f mem
    obtain ⟨⟨r, selected, rules⟩, accepted⟩ := acceptable f mem
    obtain ⟨r', left, rules⟩ := governed_normal selected rules
    obtain ⟨a, root, rfl⟩ := outputs_of_root left
    refine ⟨a, root, rules, landing_accepted root rules accepted fun none_ => ?_⟩
    exact named ⟨a.1, (first a root).1 none_, f, mem, rules⟩

theorem placed_iff (h : placeAtDest roots files = .ok out) :
    Promised roots files out ↔ ¬ Aliased roots files := by
  rw [← placed_distinct_iff h]
  refine ⟨fun placed => placed.distinct, fun distinct => ⟨placed_order h, ?_, ?_, ?_, ?_, distinct⟩⟩
  · exact fun a held => inside_of_accepted (placed_accepted h (List.mem_map_of_mem held))
  · intro wrapper name _ rel mem
    unfold noScatter at mem
    split at mem
    · exact inside_of_accepted (placed_accepted h mem)
    · obtain ⟨r, held, rfl⟩ := List.mem_map.1 mem
      exact inside_of_accepted (wrapped_accepted name (placed_accepted h held))
  · exact fun d some_ selected a held b held' rest rest' => placed_folder h some_ selected held held'
  · exact fun r left r' left' ne a held b held' => placed_apart h left left' ne held held'

/-- **Placement keeps its promises** for the selections, and only those, in which
no two files under one root are the same but for empty parts, and no acceptable
file is under the first root whose own name is empty. -/
theorem placement_iff (roots : List SelectionRoot) (files : List Text) :
    ((∀ out, placeAtDest roots files = .ok out → Promised roots files out) ∧
      (Acceptable roots files → ∃ out, placeAtDest roots files = .ok out)) ↔
    (Lands roots files → ¬ Aliased roots files) ∧
      (Acceptable roots files → ¬ UnderUnnamed roots files) := by
  refine and_congr ?_ (forall_congr' fun acceptable => ?_)
  · rw [← placed_total]
    refine ⟨fun all ⟨out, h⟩ => (placed_iff h).1 (all out h), fun clear out h => ?_⟩
    exact (placed_iff h).2 (clear ⟨out, h⟩)
  · exact placed_total.trans (acceptable_lands acceptable)

end

/-- Two files of one folder land on one path, and a file whose path ends in a
separator on none. -/
theorem empty_parts :
    (∃ out, placeAtDest [.dir "a".toList] ["a//b".toList, "a/b".toList] = .ok out ∧
      ¬ Promised [.dir "a".toList] ["a//b".toList, "a/b".toList] out) ∧
    Acceptable [.file "a/".toList] ["a/".toList] ∧
      placeAtDest [.file "a/".toList] ["a/".toList] = .error (.unsafePath "") := by
  refine ⟨⟨[⟨"a//b".toList, "a//b".toList⟩, ⟨"a/b".toList, "a/b".toList⟩], by decide, fun placed => ?_⟩,
    ?_, by decide⟩
  · exact placed.distinct ⟨"a//b".toList, "a//b".toList⟩ (by decide) ⟨"a/b".toList, "a/b".toList⟩
      (by decide) (by decide) (by decide)
  · intro f mem
    rw [List.mem_singleton.1 mem]
    exact ⟨⟨_, List.mem_singleton_self _, by decide⟩, ⟨["a"], by decide⟩⟩

end Daemonseed.Storage.Placed
