import Mathlib.Data.List.Perm.Basic
import Mathlib.Data.List.Nodup

/-! # Outlines

An ordered forest of branches and leaves, as a list of folders and files is shown.
A branch is found among its siblings by its key. An outline is grown from flat lists
of keys, and each of its levels can be put in order; what it holds is then the same.
Where siblings differ in their keys, the leaves below a branch are all the leaves
whose keys pass through it. -/
namespace Daemonseed.Lib.Outlines

variable {β l κ γ : Type}

inductive Item (β l : Type)
  | branch (b : β) (below : List (Item β l))
  | leaf (a : l)

abbrev Outline (β l : Type) := List (Item β l)

namespace Outline

/-- **Induction** along a level and into what is below its branches. -/
theorem induction {P : Outline β l → Prop} (nil : P [])
    (branch : ∀ b below rest, P below → P rest → P (.branch b below :: rest))
    (leaf : ∀ a rest, P rest → P (.leaf a :: rest)) : ∀ o, P o
  | [] => nil
  | .branch b below :: rest =>
    branch b below rest (induction nil branch leaf below) (induction nil branch leaf rest)
  | .leaf a :: rest => leaf a rest (induction nil branch leaf rest)

/-! ## What an outline holds -/

/-- An item without what is below it. -/
def label : Item β l → β ⊕ l
  | .branch b _ => .inl b
  | .leaf a => .inr a

mutual

def gatherItem (onBranch : β → List γ → List γ) (onLeaf : l → List γ) : Item β l → List γ
  | .branch b below => onBranch b (gather onBranch onLeaf below)
  | .leaf a => onLeaf a

/-- What branches and leaves hold, gathered in the order they are shown. -/
def gather (onBranch : β → List γ → List γ) (onLeaf : l → List γ) : Outline β l → List γ
  | [] => []
  | i :: rest => gatherItem onBranch onLeaf i ++ gather onBranch onLeaf rest

end

section Gather
variable {onBranch : β → List γ → List γ} {onLeaf : l → List γ} {o o' : Outline β l}

theorem gather_append :
    gather onBranch onLeaf (o ++ o') = gather onBranch onLeaf o ++ gather onBranch onLeaf o' := by
  induction o with
  | nil => rfl
  | cons i rest ih => simp only [List.cons_append, gather, ih, List.append_assoc]

theorem gather_perm (same : o.Perm o') :
    (gather onBranch onLeaf o).Perm (gather onBranch onLeaf o') := by
  induction same with
  | nil => exact .refl _
  | cons i _ ih => exact ih.append_left _
  | swap i j rest =>
    simp only [gather, ← List.append_assoc]
    exact List.perm_append_comm.append_right _
  | trans _ _ ih ih' => exact ih.trans ih'

end Gather

section Keys
variable (key : β → κ)

/-- The leaves, each with the keys of the branches it is below. -/
def leaves : Outline β l → List (List κ × l) :=
  gather (fun b held => held.map fun e => (key b :: e.1, e.2)) fun a => [([], a)]

/-- The branches and leaves themselves. -/
def labels : Outline β l → List (β ⊕ l) := gather (fun b held => .inl b :: held) fun a => [.inr a]

mutual

def itemsOf : Item β l → List (List κ × Item β l)
  | .branch b below => ([], .branch b below) :: (items below).map fun e => (key b :: e.1, e.2)
  | .leaf a => [([], .leaf a)]

/-- Every item with the keys of the branches it is below. -/
def items : Outline β l → List (List κ × Item β l)
  | [] => []
  | i :: rest => itemsOf i ++ items rest

end

/-- The keys of the branches of the first level. -/
def heads : Outline β l → List κ
  | [] => []
  | .branch b _ :: rest => key b :: heads rest
  | .leaf _ :: rest => heads rest

mutual

def ApartItem : Item β l → List κ → Prop
  | .branch b below, later => key b ∉ later ∧ Apart below
  | .leaf _, _ => True

/-- Branches of one level differ in their keys. -/
def Apart : Outline β l → Prop
  | [] => True
  | i :: rest => ApartItem i (heads key rest) ∧ Apart rest

end

variable {key} {o o' below rest : Outline β l} {b : β} {a : l}

@[simp] theorem leaves_nil : leaves key ([] : Outline β l) = [] := rfl

@[simp] theorem leaves_branch : leaves key (.branch b below :: rest) =
    ((leaves key below).map fun e => (key b :: e.1, e.2)) ++ leaves key rest := rfl

@[simp] theorem leaves_leaf : leaves key (.leaf a :: rest) = ([], a) :: leaves key rest := rfl

theorem leaves_append : leaves key (o ++ o') = leaves key o ++ leaves key o' := gather_append

@[simp] theorem labels_nil : labels ([] : Outline β l) = [] := rfl

@[simp] theorem labels_branch :
    labels (.branch b below :: rest) = .inl b :: (labels below ++ labels rest) := rfl

@[simp] theorem labels_leaf : labels (.leaf a :: rest) = .inr a :: labels rest := rfl

theorem labels_append : labels (o ++ o') = labels o ++ labels o' := gather_append

theorem labels_items (key : β → κ) : (items key o).map (fun e => label e.2) = labels o := by
  induction o using induction with
  | nil => rfl
  | leaf a rest ih => exact congrArg _ ih
  | branch b below rest ihBelow ihRest =>
    rw [labels_branch, ← ihBelow, ← ihRest]
    simp only [items, itemsOf, List.cons_append, List.map_cons, List.map_append, List.map_map,
      Function.comp_def, label]

theorem heads_append : heads key (o ++ o') = heads key o ++ heads key o' := by
  induction o with
  | nil => rfl
  | cons i rest ih =>
    cases i with
    | branch b below => simp only [List.cons_append, heads, ih]
    | leaf a => exact ih

theorem heads_perm (same : o.Perm o') : (heads key o).Perm (heads key o') := by
  induction same with
  | nil => exact .refl _
  | cons i _ ih =>
    cases i with
    | branch b below => exact ih.cons _
    | leaf a => exact ih
  | swap i j rest =>
    cases i with
    | branch b below =>
      cases j with
      | branch b' below' => exact .swap ..
      | leaf a => exact .refl _
    | leaf a =>
      cases j with
      | branch b' below' => exact .refl _
      | leaf a' => exact .refl _
  | trans _ _ ih ih' => exact ih.trans ih'

/-- Branches differ in their keys on a level and on each level below it. -/
theorem apart_iff : Apart key o ↔
    (heads key o).Nodup ∧ ∀ b below, .branch b below ∈ o → Apart key below := by
  induction o with
  | nil => exact ⟨fun _ => ⟨.nil, fun _ _ mem => absurd mem List.not_mem_nil⟩, fun _ => trivial⟩
  | cons i rest ih =>
    cases i with
    | branch b below =>
      simp only [Apart, ApartItem, heads, List.nodup_cons, ih, List.mem_cons, Item.branch.injEq]
      constructor
      · rintro ⟨⟨new, deeper⟩, distinct, each⟩
        refine ⟨⟨new, distinct⟩, fun b' below' mem => ?_⟩
        rcases mem with ⟨rfl, rfl⟩ | mem
        · exact deeper
        · exact each b' below' mem
      · rintro ⟨⟨new, distinct⟩, each⟩
        exact ⟨⟨new, each b below (.inl ⟨rfl, rfl⟩)⟩, distinct, fun b' below' mem =>
          each b' below' (.inr mem)⟩
    | leaf a =>
      simp only [Apart, ApartItem, heads, ih, List.mem_cons, reduceCtorEq, false_or, true_and]

theorem apart_perm (same : o.Perm o') (apart : Apart key o) : Apart key o' := by
  obtain ⟨distinct, each⟩ := apart_iff.1 apart
  exact apart_iff.2 ⟨(heads_perm same).nodup distinct, fun b below mem =>
    each b below (same.mem_iff.2 mem)⟩

/-! ## All the leaves below a branch -/

variable [DecidableEq κ] {above : List κ}

omit [DecidableEq κ] in
theorem head_mem {e : List κ × l} (mem : e ∈ leaves key o) {k : κ} {keys : List κ}
    (under : k :: keys <+: e.1) : k ∈ heads key o := by
  induction o with
  | nil => cases mem
  | cons i rest ih =>
    cases i with
    | branch b below =>
      rcases List.mem_append.1 mem with here | later
      · obtain ⟨e, -, rfl⟩ := List.mem_map.1 here
        obtain ⟨rfl, -⟩ := List.cons_prefix_cons.1 under
        exact List.mem_cons_self
      · exact List.mem_cons_of_mem _ (ih later)
    | leaf a =>
      rcases List.mem_cons.1 mem with rfl | later
      · cases List.prefix_nil.1 under
      · exact ih later

omit [DecidableEq κ] in
theorem head_items {b : β} (mem : (above, .branch b below) ∈ items key o) {k : κ} {keys : List κ}
    (at_ : above ++ [key b] = k :: keys) : k ∈ heads key o := by
  induction o with
  | nil => cases mem
  | cons i rest ih =>
    cases i with
    | branch b' below' =>
      rcases List.mem_append.1 mem with here | later
      · rcases List.mem_cons.1 here with same | deeper
        · obtain ⟨rfl, alike⟩ := Prod.mk.inj same
          obtain ⟨rfl, rfl⟩ := Item.branch.inj alike
          obtain ⟨rfl, -⟩ := List.cons.inj at_
          exact List.mem_cons_self
        · obtain ⟨e, -, same⟩ := List.mem_map.1 deeper
          obtain ⟨rfl, -⟩ := Prod.mk.inj same
          obtain ⟨rfl, -⟩ := List.cons.inj at_
          exact List.mem_cons_self
      · exact List.mem_cons_of_mem _ (ih later)
    | leaf a =>
      rcases List.mem_cons.1 mem with same | later
      · cases (Prod.mk.inj same).2
      · exact ih later

/-- The leaves whose keys pass through `keys`. -/
def through (keys : List κ) (o : List (List κ × l)) : List (List κ × l) :=
  o.filter fun e => keys.isPrefixOf e.1

theorem through_append (keys : List κ) (xs ys : List (List κ × l)) :
    through keys (xs ++ ys) = through keys xs ++ through keys ys := List.filter_append ..

theorem through_cons (k : κ) (keys : List κ) (xs : List (List κ × l)) :
    through (k :: keys) (xs.map fun e => (k :: e.1, e.2)) =
      (through keys xs).map fun e => (k :: e.1, e.2) := by
  induction xs with
  | nil => rfl
  | cons e xs ih =>
    unfold through at ih ⊢
    by_cases under : keys.isPrefixOf e.1
    · simp [under, ih]
    · simp [under, ih]

theorem through_none {keys : List κ} {xs : List (List κ × l)} (none_ : ∀ e ∈ xs, ¬ keys <+: e.1) :
    through keys xs = [] :=
  List.filter_eq_nil_iff.2 fun e mem under => none_ e mem (List.isPrefixOf_iff_prefix.1 under)

theorem through_nil (xs : List (List κ × l)) : through [] xs = xs :=
  List.filter_eq_self.2 fun _ _ => rfl

/-- **A branch is whole**: below it are all the leaves whose keys pass through it. -/
theorem through_branch (apart : Apart key o) (mem : (above, .branch b below) ∈ items key o) :
    through (above ++ [key b]) (leaves key o) =
      (leaves key below).map fun e => (above ++ key b :: e.1, e.2) := by
  induction o using induction generalizing above with
  | nil => cases mem
  | leaf a rest ih =>
    rcases List.mem_cons.1 mem with same | later
    · cases (Prod.mk.inj same).2
    · have first : through (above ++ [key b]) [(([] : List κ), a)] = [] :=
        through_none (by simp)
      have split := through_append (above ++ [key b]) [(([] : List κ), a)] (leaves key rest)
      rw [first, List.nil_append] at split
      exact split.trans (ih apart.2 later)
  | branch b' below' rest ihBelow ihRest =>
    obtain ⟨⟨new, deeper⟩, later⟩ := apart
    have away {keys : List κ} : through (key b' :: keys) (leaves key rest) = [] :=
      through_none fun e mem under => new (head_mem mem under)
    rw [leaves_branch, through_append]
    rcases List.mem_append.1 mem with here | mem
    · rcases List.mem_cons.1 here with same | inside
      · obtain ⟨rfl, alike⟩ := Prod.mk.inj same
        obtain ⟨rfl, rfl⟩ := Item.branch.inj alike
        rw [List.nil_append, through_cons, through_nil, away, List.append_nil]
        rfl
      · obtain ⟨⟨above', i⟩, held, same⟩ := List.mem_map.1 inside
        obtain ⟨rfl, rfl⟩ := Prod.mk.inj same
        rw [List.cons_append, through_cons, ihBelow deeper held, away, List.append_nil, List.map_map]
        rfl
    · obtain ⟨k, keys, at_⟩ := List.exists_cons_of_ne_nil
        (List.append_ne_nil_of_right_ne_nil above (List.cons_ne_nil (key b) []))
      have differ : k ≠ key b' := fun same => new (same ▸ head_items mem at_)
      have first : through (above ++ [key b])
          ((leaves key below').map fun e => (key b' :: e.1, e.2)) = [] := by
        refine through_none fun e mem under => ?_
        obtain ⟨e, -, rfl⟩ := List.mem_map.1 mem
        rw [at_] at under
        exact differ (List.cons_prefix_cons.1 under).1
      rw [first, List.nil_append, ihRest later mem]

/-! ## An outline grown from lists of keys -/

section Grow
variable (key) (branch : Nat → κ → β) (leaf : Nat → l)

/-- The first branch of the level with a key, what is below it changed. -/
def within (k : κ) (f : Outline β l → Outline β l × Nat) : Outline β l → Option (Outline β l × Nat)
  | [] => none
  | .branch b below :: rest =>
    if key b = k then some (.branch b (f below).1 :: rest, (f below).2)
    else (within k f rest).map fun r => (.branch b below :: r.1, r.2)
  | .leaf a :: rest => (within k f rest).map fun r => (.leaf a :: r.1, r.2)

/-- A leaf put below the branches with these keys, of which the missing ones are
opened; what is new is numbered from `n` on. -/
def grow : List κ → Outline β l → Nat → Outline β l × Nat
  | [], o, n => (o ++ [.leaf (leaf n)], n + 1)
  | k :: keys, o, n =>
    match within key k (fun below => grow keys below n) o with
    | some grown => grown
    | none =>
      let grown := grow keys [] (n + 1)
      (o ++ [.branch (branch n k) grown.1], grown.2)

variable {key branch leaf} {k : κ} {keys : List κ} {n : Nat}
  {f : Outline β l → Outline β l × Nat} {r : Outline β l × Nat}

theorem within_some (found : within key k f o = some r) : ∃ before b below after,
    o = before ++ .branch b below :: after ∧ key b = k ∧
      r = (before ++ .branch b (f below).1 :: after, (f below).2) := by
  induction o generalizing r with
  | nil => cases found
  | cons i rest ih =>
    cases i with
    | branch b below =>
      unfold within at found
      split at found
      · rename_i here
        exact ⟨[], b, below, rest, rfl, here, (Option.some.inj found).symm⟩
      · obtain ⟨r, inner, rfl⟩ := Option.map_eq_some_iff.1 found
        obtain ⟨before, b', below', after, rfl, here, rfl⟩ := ih inner
        exact ⟨.branch b below :: before, b', below', after, rfl, here, rfl⟩
    | leaf a =>
      obtain ⟨r, inner, rfl⟩ := Option.map_eq_some_iff.1 found
      obtain ⟨before, b', below', after, rfl, here, rfl⟩ := ih inner
      exact ⟨.leaf a :: before, b', below', after, rfl, here, rfl⟩

theorem within_none (missing : within key k f o = none) : k ∉ heads key o := by
  induction o with
  | nil => exact List.not_mem_nil
  | cons i rest ih =>
    cases i with
    | branch b below =>
      unfold within at missing
      split at missing
      · cases missing
      · rename_i other
        rw [heads, List.mem_cons, not_or]
        exact ⟨fun same => other same.symm, ih (Option.map_eq_none_iff.1 missing)⟩
    | leaf a => exact ih (Option.map_eq_none_iff.1 missing)

/-- What growing by one list of keys can do: a branch of the level is gone through, or
a new one is opened. -/
theorem grow_cons (key : β → κ) (branch : Nat → κ → β) (leaf : Nat → l) (k : κ) (keys : List κ)
    (o : Outline β l) (n : Nat) :
    (∃ before b below after, o = before ++ .branch b below :: after ∧ key b = k ∧
      grow key branch leaf (k :: keys) o n =
        (before ++ .branch b (grow key branch leaf keys below n).1 :: after,
          (grow key branch leaf keys below n).2)) ∨
    k ∉ heads key o ∧ grow key branch leaf (k :: keys) o n =
      (o ++ [.branch (branch n k) (grow key branch leaf keys [] (n + 1)).1],
        (grow key branch leaf keys [] (n + 1)).2) := by
  rw [grow]
  split
  · rename_i found
    exact .inl (within_some found)
  · rename_i missing
    exact .inr ⟨within_none missing, rfl⟩

/-- **One leaf more**, below the keys it was put under. -/
theorem leaves_grow (leaf : Nat → l) (keys : List κ) (o : Outline β l) (n : Nat)
    (opened : ∀ n k, key (branch n k) = k) : ∃ m,
    (leaves key (grow key branch leaf keys o n).1).Perm ((keys, leaf m) :: leaves key o) := by
  induction keys generalizing o n with
  | nil =>
    refine ⟨n, ?_⟩
    rw [grow, leaves_append]
    exact List.perm_append_comm
  | cons k keys ih =>
    rcases grow_cons key branch leaf k keys o n with
      ⟨before, b, below, after, rfl, rfl, grown⟩ | ⟨-, grown⟩
    · obtain ⟨m, more⟩ := ih (o := below) (n := n)
      refine ⟨m, ?_⟩
      rw [grown, leaves_append, leaves_append, leaves_branch, leaves_branch]
      have below_ := more.map fun e => (key b :: e.1, e.2)
      exact ((below_.append_right _).append_left _).trans List.perm_middle
    · obtain ⟨m, more⟩ := ih (o := []) (n := n + 1)
      refine ⟨m, ?_⟩
      rw [grown, leaves_append, leaves_branch, leaves_nil, List.append_nil, opened]
      have below_ := more.map fun e => (k :: e.1, e.2)
      exact (below_.append_left _).trans List.perm_append_comm

/-- **What is new is numbered on** and has the keys it was put under. -/
theorem labels_grow (tag : β ⊕ l → Nat) (leaf : Nat → l) (keys : List κ) (o : Outline β l) (n : Nat)
    (opened : ∀ n k, key (branch n k) = k)
    (branches : ∀ n k, tag (.inl (branch n k)) = n) (leaf_ : ∀ n, tag (.inr (leaf n)) = n) :
    ∃ new, (labels (grow key branch leaf keys o n).1).Perm (new ++ labels o) ∧
      new.map tag = List.range' n new.length ∧
      (grow key branch leaf keys o n).2 = n + new.length ∧ ∀ b, .inl b ∈ new → key b ∈ keys := by
  induction keys generalizing o n with
  | nil =>
    refine ⟨[.inr (leaf n)], ?_, ?_, rfl, fun b mem => ?_⟩
    · rw [grow, labels_append]
      exact List.perm_append_comm
    · rw [List.map_singleton, leaf_]
      rfl
    · cases List.mem_singleton.1 mem
  | cons k keys ih =>
    rcases grow_cons key branch leaf k keys o n with
      ⟨before, b, below, after, rfl, rfl, grown⟩ | ⟨-, grown⟩
    · obtain ⟨new, more, numbered, next, named⟩ := ih (o := below) (n := n)
      refine ⟨new, ?_, numbered, by rw [grown]; exact next, fun b mem =>
        List.mem_cons_of_mem _ (named b mem)⟩
      rw [grown, labels_append, labels_append, labels_branch, labels_branch]
      have inner := ((more.append_right (labels after)).cons (Sum.inl b)).append_left (labels before)
      rw [List.append_assoc] at inner
      have forward : (Sum.inl b :: (new ++ (labels below ++ labels after))).Perm
          (new ++ Sum.inl b :: (labels below ++ labels after)) := List.perm_middle.symm
      exact inner.trans ((forward.append_left (labels before)).trans
        (List.perm_append_comm_assoc ..))
    · obtain ⟨new, more, numbered, next, named⟩ := ih (o := []) (n := n + 1)
      rw [labels_nil, List.append_nil] at more
      refine ⟨.inl (branch n k) :: new, ?_, ?_, ?_, fun b mem => ?_⟩
      · rw [grown, labels_append, labels_branch, labels_nil, List.append_nil]
        exact ((more.cons _).append_left _).trans List.perm_append_comm
      · rw [List.map_cons, branches, numbered, List.length_cons, List.range'_succ]
      · rw [grown, List.length_cons, next]
        exact (Nat.add_right_comm n 1 new.length)
      · rcases List.mem_cons.1 mem with same | mem
        · rw [Sum.inl.inj same, opened]
          exact List.mem_cons_self
        · exact List.mem_cons_of_mem _ (named b mem)

/-- **Siblings stay apart.** -/
theorem apart_grow (opened : ∀ n k, key (branch n k) = k) (apart : Apart key o) :
    Apart key (grow key branch leaf keys o n).1 := by
  induction keys generalizing o n with
  | nil =>
    obtain ⟨distinct, each⟩ := apart_iff.1 apart
    refine apart_iff.2 ⟨?_, fun b below mem => ?_⟩
    · rw [grow, heads_append]
      exact (List.append_nil (heads key o)).symm ▸ distinct
    · rcases List.mem_append.1 mem with mem | mem
      · exact each b below mem
      · cases List.mem_singleton.1 mem
  | cons k keys ih =>
    obtain ⟨distinct, each⟩ := apart_iff.1 apart
    rcases grow_cons key branch leaf k keys o n with
      ⟨before, b, below, after, rfl, rfl, grown⟩ | ⟨fresh, grown⟩
    · rw [grown]
      refine apart_iff.2 ⟨?_, fun b' below' mem => ?_⟩
      · rw [heads_append] at distinct ⊢
        exact distinct
      · rcases List.mem_append.1 mem with mem | mem
        · exact each b' below' (List.mem_append_left _ mem)
        · rcases List.mem_cons.1 mem with same | mem
          · obtain ⟨rfl, rfl⟩ := Item.branch.inj same
            exact ih (each b' below (List.mem_append_right _ List.mem_cons_self))
          · exact each b' below' (List.mem_append_right _ (List.mem_cons_of_mem _ mem))
    · rw [grown]
      refine apart_iff.2 ⟨?_, fun b below mem => ?_⟩
      · rw [heads_append]
        refine List.nodup_append.2 ⟨distinct, List.nodup_singleton _, fun a here b there same => ?_⟩
        rw [List.mem_singleton.1 there, opened] at same
        exact fresh (same ▸ here)
      · rcases List.mem_append.1 mem with mem | mem
        · exact each b below mem
        · obtain ⟨rfl, rfl⟩ := Item.branch.inj (List.mem_singleton.1 mem)
          exact ih trivial

end Grow

end Keys

/-! ## The levels put in order -/

section Arrange
variable (le : β ⊕ l → β ⊕ l → Bool)

/-- One level in the order of its labels. -/
def arrangeLevel (o : Outline β l) : Outline β l := o.mergeSort fun i j => le (label i) (label j)

mutual

def arrangeItem : Item β l → Item β l
  | .branch b below => .branch b (arrangeLevel le (arrangeBelow below))
  | .leaf a => .leaf a

/-- Each level below this one in order. -/
def arrangeBelow : Outline β l → Outline β l
  | [] => []
  | i :: rest => arrangeItem i :: arrangeBelow rest

end

/-- This level and each one below it in order. -/
def arrange (o : Outline β l) : Outline β l := arrangeBelow le (arrangeLevel le o)

mutual

def OrderedItem : Item β l → Prop
  | .branch _ below => Ordered below
  | .leaf _ => True

/-- The items of each level stand in order. -/
def Ordered : Outline β l → Prop
  | [] => True
  | i :: rest => OrderedItem i ∧ (∀ j ∈ rest, le (label i) (label j)) ∧ Ordered rest

end

variable {le} {o o' : Outline β l}

theorem arrangeBelow_eq : arrangeBelow le o = o.map (arrangeItem le) := by
  induction o with
  | nil => rfl
  | cons i rest ih => rw [arrangeBelow, ih, List.map_cons]

theorem label_arrangeItem (i : Item β l) : label (arrangeItem le i) = label i := by
  cases i with
  | branch b below => rfl
  | leaf a => rfl

theorem arrangeLevel_perm : (arrangeLevel le o).Perm o := List.mergeSort_perm ..

/-- Below a branch the same is done as on the level itself, whose order does not
depend on what is below. -/
theorem arrange_eq : arrange le o = arrangeLevel le (arrangeBelow le o) := by
  rw [arrange, arrangeLevel, arrangeLevel, arrangeBelow_eq, arrangeBelow_eq]
  refine List.map_mergeSort fun i _ j _ => ?_
  rw [label_arrangeItem, label_arrangeItem]

theorem gather_arrange {onBranch : β → List γ → List γ} {onLeaf : l → List γ}
    (respects : ∀ b xs ys, xs.Perm ys → (onBranch b xs).Perm (onBranch b ys)) :
    (gather onBranch onLeaf (arrange le o)).Perm (gather onBranch onLeaf o) := by
  have below_ : (gather onBranch onLeaf (arrangeBelow le o)).Perm (gather onBranch onLeaf o) := by
    induction o using induction with
    | nil => exact .refl _
    | leaf a rest ih => exact ih.append_left _
    | branch b below rest ihBelow ihRest =>
      exact (respects b _ _ ((gather_perm arrangeLevel_perm).trans ihBelow)).append ihRest
  rw [arrange_eq]
  exact (gather_perm arrangeLevel_perm).trans below_

theorem labels_arrange : (labels (arrange le o)).Perm (labels o) :=
  gather_arrange fun _ _ _ same => same.cons _

section Keyed
variable {key : β → κ}

theorem leaves_arrange : (leaves key (arrange le o)).Perm (leaves key o) :=
  gather_arrange fun _ _ _ same => same.map _

theorem heads_arrangeBelow : heads key (arrangeBelow le o) = heads key o := by
  induction o with
  | nil => rfl
  | cons i rest ih =>
    cases i with
    | branch b below => exact congrArg (key b :: ·) ih
    | leaf a => exact ih

theorem apart_arrange (apart : Apart key o) : Apart key (arrange le o) := by
  have below_ : Apart key (arrangeBelow le o) := by
    induction o using induction with
    | nil => trivial
    | leaf a rest ih => exact ⟨trivial, ih apart.2⟩
    | branch b below rest ihBelow ihRest =>
      obtain ⟨⟨new, deeper⟩, later⟩ := apart
      refine ⟨⟨?_, apart_perm arrangeLevel_perm.symm (ihBelow deeper)⟩, ihRest later⟩
      rw [heads_arrangeBelow]
      exact new
  rw [arrange_eq]
  exact apart_perm arrangeLevel_perm.symm below_

end Keyed

theorem ordered_iff : Ordered le o ↔
    o.Pairwise (fun i j => le (label i) (label j)) ∧ ∀ i ∈ o, OrderedItem le i := by
  induction o with
  | nil => exact ⟨fun _ => ⟨.nil, fun _ mem => absurd mem List.not_mem_nil⟩, fun _ => trivial⟩
  | cons i rest ih =>
    rw [Ordered, ih, List.pairwise_cons, List.forall_mem_cons]
    constructor
    · rintro ⟨item, first, sorted, each⟩
      exact ⟨⟨first, sorted⟩, item, each⟩
    · rintro ⟨⟨first, sorted⟩, item, each⟩
      exact ⟨item, first, sorted, each⟩

/-- **Every level comes out in order.** -/
theorem ordered_arrange (trans : ∀ a b c, le a b → le b c → le a c)
    (total : ∀ a b, le a b || le b a) : Ordered le (arrange le o) := by
  have level (o : Outline β l) : (arrangeLevel le o).Pairwise fun i j => le (label i) (label j) :=
    @List.pairwise_mergeSort _ (fun i j => le (label i) (label j))
      (fun i j k => trans (label i) (label j) (label k)) (fun i j => total (label i) (label j)) o
  have below_ : ∀ i ∈ arrangeBelow le o, OrderedItem le i := by
    induction o using induction with
    | nil => exact fun _ mem => absurd mem List.not_mem_nil
    | leaf a rest ih => exact List.forall_mem_cons.2 ⟨trivial, ih⟩
    | branch b below rest ihBelow ihRest =>
      refine List.forall_mem_cons.2 ⟨ordered_iff.2 ⟨level _, fun i mem => ?_⟩, ihRest⟩
      exact ihBelow i (arrangeLevel_perm.mem_iff.1 mem)
  rw [arrange_eq]
  exact ordered_iff.2 ⟨level _, fun i mem => below_ i (arrangeLevel_perm.mem_iff.1 mem)⟩

end Arrange

/-! ## Branches relabelled -/

section Relabel
variable {β' : Type} (g : β → β')

mutual

def relabelItem : Item β l → Item β' l
  | .branch b below => .branch (g b) (relabel below)
  | .leaf a => .leaf a

def relabel : Outline β l → Outline β' l
  | [] => []
  | i :: rest => relabelItem i :: relabel rest

end

variable {g} {o o' : Outline β l}

theorem gather_relabel {onBranch : β' → List γ → List γ} {onLeaf : l → List γ} :
    gather onBranch onLeaf (relabel g o) = gather (fun b => onBranch (g b)) onLeaf o := by
  induction o using induction with
  | nil => rfl
  | leaf a rest ih => exact congrArg _ ih
  | branch b below rest ihBelow ihRest =>
    simp only [relabel, relabelItem, gather, gatherItem, ihBelow, ihRest]

variable {key : β' → κ}

theorem leaves_relabel (g : β → β') (key : β' → κ) {o : Outline β l} :
    leaves key (relabel g o) = leaves (fun b => key (g b)) o := gather_relabel

theorem labels_relabel : labels (relabel g o) = (labels o).map (Sum.map g id) := by
  induction o using induction with
  | nil => rfl
  | leaf a rest ih => exact congrArg _ ih
  | branch b below rest ihBelow ihRest =>
    simp only [relabel, relabelItem, labels_branch, ihBelow, ihRest, List.map_cons, List.map_append,
      Sum.map_inl]

theorem heads_relabel : heads key (relabel g o) = heads (fun b => key (g b)) o := by
  induction o with
  | nil => rfl
  | cons i rest ih =>
    cases i with
    | branch b below => exact congrArg (key (g b) :: ·) ih
    | leaf a => exact ih

theorem apart_relabel (g : β → β') (key : β' → κ) {o : Outline β l} :
    Apart key (relabel g o) ↔ Apart (fun b => key (g b)) o := by
  induction o using induction with
  | nil => exact .rfl
  | leaf a rest ih => exact and_congr .rfl ih
  | branch b below rest ihBelow ihRest =>
    simp only [relabel, relabelItem, Apart, ApartItem, heads_relabel, ihBelow, ihRest]

theorem items_relabel : items key (relabel g o) =
    (items (fun b => key (g b)) o).map fun e => (e.1, relabelItem g e.2) := by
  induction o using induction with
  | nil => rfl
  | leaf a rest ih => exact congrArg _ ih
  | branch b below rest ihBelow ihRest =>
    simp only [relabel, relabelItem, items, itemsOf, ihBelow, ihRest, List.map_append,
      List.map_cons, List.map_map, Function.comp_def]

theorem ordered_relabel {le : β' ⊕ l → β' ⊕ l → Bool} : Ordered le (relabel g o) ↔
    Ordered (fun x y => le (x.map g id) (y.map g id)) o := by
  have names (i : Item β l) : label (relabelItem g i) = (label i).map g id := by
    cases i with
    | branch b below => rfl
    | leaf a => rfl
  have mem (j : Item β' l) : ∀ o : Outline β l, j ∈ relabel g o ↔ ∃ i ∈ o, relabelItem g i = j := by
    intro o
    induction o with
    | nil => simp [relabel]
    | cons i rest ih => simp [relabel, ih, eq_comm]
  induction o using induction with
  | nil => exact .rfl
  | leaf a rest ih =>
    simp only [relabel, Ordered, ih, mem, forall_exists_index, and_imp, forall_apply_eq_imp_iff₂,
      names]
    simp only [OrderedItem, relabelItem]
  | branch b below rest ihBelow ihRest =>
    simp only [relabel, Ordered, ihRest, mem, forall_exists_index, and_imp,
      forall_apply_eq_imp_iff₂, names]
    simp only [OrderedItem, relabelItem, ihBelow]

/-! ## The first branch that meets a condition -/

variable (p : β → Bool) (f : β → β)

mutual

def amendItem : Item β l → Option (Item β l)
  | .branch b below => if p b then some (.branch (f b) below) else (amend below).map (.branch b)
  | .leaf _ => none

/-- The first branch that meets `p` changed, in the order they are shown. -/
def amend : Outline β l → Option (Outline β l)
  | [] => none
  | i :: rest => ((amendItem i).map (· :: rest)).or ((amend rest).map (i :: ·))

end

variable {p f}

/-- What the change leaves of a branch is left of the whole. -/
theorem relabel_amend (same : ∀ b, g (f b) = g b) (changed : amend p f o = some o') :
    relabel g o' = relabel g o := by
  induction o using induction generalizing o' with
  | nil => cases changed
  | leaf a rest ih =>
    obtain ⟨rest', deeper, rfl⟩ := Option.map_eq_some_iff.1 changed
    exact congrArg (.leaf a :: ·) (ih deeper)
  | branch b below rest ihBelow ihRest =>
    rw [amend, amendItem] at changed
    split at changed
    · obtain rfl := Option.some.inj changed
      simp only [relabel, relabelItem, same]
    · cases inside : amend p f below with
      | some below' =>
        rw [inside] at changed
        obtain rfl := Option.some.inj changed
        simp only [relabel, relabelItem, ihBelow inside]
      | none =>
        rw [inside] at changed
        obtain ⟨rest', later, rfl⟩ := Option.map_eq_some_iff.1 changed
        exact congrArg (relabelItem g (.branch b below) :: ·) (ihRest later)

end Relabel

end Outline

end Daemonseed.Lib.Outlines
