import Daemonseed.Dm.Routes
import Daemonseed.Gui.SingleInstance
import Daemonseed.Lib.Trims
import Daemonseed.Storage.Fetched

/-! # The folder of a download

The folder below the downloads root that a share's files go to: the one it has,
or a name made of the share's, with a suffix where another share has that. -/
namespace Daemonseed.Storage.ManagedFolders
open Daemonseed.Dm.Routes (isControl)
open Daemonseed.Gui.SingleInstance (whiteSpace trim)
open Daemonseed.Lib.Lines Daemonseed.Lib.Runs Daemonseed.Lib.Trims Daemonseed.Storage.Fetched

structure FetchedFile where
  relPath : String
  size : UInt64
  deriving DecidableEq

structure FetchedShare where
  shareId : String
  name : String
  folder : String
  files : List FetchedFile
  deriving DecidableEq

def isDot (c : Char) : Bool := c = '.'

/-- Separators and control characters become `_`. -/
def cleaned (name : String) : Text :=
  name.toList.map fun c => if c = '/' ∨ c = '\\' ∨ isControl c = true then '_' else c

def safeFolderName (name : String) : String :=
  let trimmed := trim (trimBoth isDot (trim (cleaned name)))
  if trimmed = [] then "share" else String.ofList trimmed

def resolveShareFolder (existing : List FetchedShare) (shareId name : String) : String :=
  match existing.find? (·.shareId = shareId) with
  | some s => s.folder
  | none =>
    let base := safeFolderName name
    if existing.any (·.folder = base) then base ++ "-" ++ String.ofList (shareId.toList.take 6)
    else base

/-! ## One component -/

/-- A name that is one normal component of a path. -/
structure OneComponent (f : String) : Prop where
  named : f ≠ ""
  chars : ∀ c ∈ f.toList, c ≠ '/' ∧ c ≠ '\\' ∧ isControl c = false
  dots : f ≠ "." ∧ f ≠ ".."
  staging : f ≠ stagingDir
  start : ∀ c, f.toList.head? = some c → c ≠ '.' ∧ whiteSpace c = false
  last : ∀ c, f.toList.getLast? = some c → c ≠ '.' ∧ whiteSpace c = false

/-- Past the white space, the dots and the white space it begins with, a name
goes on with a dot, and then with more than dots and white space. -/
def Reopens (t : Text) : Prop :=
  ∃ rest, pastEdge whiteSpace isDot t = '.' :: rest ∧
    (rest.dropWhile isDot).dropWhile whiteSpace ≠ []

section

variable {name : String}

theorem trimmed_eq (t : Text) : trim (trimBoth isDot (trim t)) = trims whiteSpace isDot t := rfl

theorem starts_dot {t : Text} : (trims whiteSpace isDot t).head? = some '.' ↔ Reopens t :=
  trims_head? (by decide) (by decide) t

theorem ends_dot {t : Text} : (trims whiteSpace isDot t).getLast? = some '.' ↔ Reopens t.reverse := by
  rw [← starts_dot, trims_reverse, List.head?_reverse]

/-- What is not trimmed away was cleaned. -/
theorem safe_chars {c : Char} (mem : c ∈ trims whiteSpace isDot (cleaned name)) :
    c ≠ '/' ∧ c ≠ '\\' ∧ isControl c = false := by
  have sub := ((trimBoth_sublist (p := whiteSpace) _).trans (trimBoth_sublist (p := isDot) _)).trans
    (trimBoth_sublist (p := whiteSpace) (cleaned name))
  obtain ⟨d, -, rfl⟩ := List.mem_map.1 (sub.subset mem)
  split
  · decide
  · rename_i plain
    simp only [not_or, Bool.not_eq_true] at plain
    exact plain

theorem safeFolderName_toList (name : String) :
    (safeFolderName name).toList =
      if trims whiteSpace isDot (cleaned name) = [] then "share".toList
      else trims whiteSpace isDot (cleaned name) := by
  unfold safeFolderName
  rw [trimmed_eq]
  dsimp only
  split
  · rfl
  · exact String.toList_ofList

/-- All of it but the dots at its ends is as it should be. -/
structure Tidy (f : String) : Prop where
  named : f ≠ ""
  chars : ∀ c ∈ f.toList, c ≠ '/' ∧ c ≠ '\\' ∧ isControl c = false
  start : ∀ c, f.toList.head? = some c → whiteSpace c = false
  last : ∀ c, f.toList.getLast? = some c → whiteSpace c = false

theorem safeFolderName_tidy (name : String) : Tidy (safeFolderName name) := by
  have text := safeFolderName_toList name
  split at text
  · have share : safeFolderName name = "share" := String.toList_injective text
    rw [share]
    refine ⟨by decide, fun c mem => ?_, fun c hc => ?_, fun c hc => ?_⟩
    · have mem : c ∈ ['s', 'h', 'a', 'r', 'e'] := mem
      simp only [List.mem_cons, List.not_mem_nil, or_false] at mem
      rcases mem with rfl | rfl | rfl | rfl | rfl <;> decide
    · obtain rfl : 's' = c := Option.some.inj hc
      decide
    · obtain rfl : 'e' = c := Option.some.inj hc
      decide
  · rename_i some_
    refine ⟨fun none_ => ?_, fun c mem => ?_, fun c head => ?_, fun c last => ?_⟩
    · rw [none_] at text
      exact some_ text.symm
    · rw [text] at mem
      exact safe_chars mem
    · rw [text] at head
      exact trimBoth_head? head
    · rw [text] at last
      exact trimBoth_getLast? last

theorem safeFolderName_starts (name : String) :
    (safeFolderName name).toList.head? = some '.' ↔ Reopens (cleaned name) := by
  rw [safeFolderName_toList, ← starts_dot]
  split
  · rename_i none_
    rw [none_]
    decide
  · rfl

theorem safeFolderName_ends (name : String) :
    (safeFolderName name).toList.getLast? = some '.' ↔ Reopens (cleaned name).reverse := by
  rw [safeFolderName_toList, ← ends_dot]
  split
  · rename_i none_
    rw [none_]
    decide
  · rfl

theorem oneComponent_iff {f : String} : OneComponent f ↔
    Tidy f ∧ f.toList.head? ≠ some '.' ∧ f.toList.getLast? ≠ some '.' := by
  constructor
  · intro h
    exact ⟨⟨h.named, h.chars, fun c hc => (h.start c hc).2, fun c hc => (h.last c hc).2⟩,
      fun hc => (h.start _ hc).1 rfl, fun hc => (h.last _ hc).1 rfl⟩
  · rintro ⟨⟨named, chars, start, last⟩, noStart, noLast⟩
    have other : ∀ g : String, g.toList.head? = some '.' → f ≠ g := by
      rintro g hg rfl
      exact noStart hg
    exact ⟨named, chars, ⟨other "." (by decide), other ".." (by decide)⟩, other stagingDir (by decide),
      fun c hc => ⟨fun e => noStart (e ▸ hc), start c hc⟩,
      fun c hc => ⟨fun e => noLast (e ▸ hc), last c hc⟩⟩

end

/-! ## The suffix -/

/-- A share id is written in hexadecimal digits. -/
def Hex (id : String) : Prop := ∀ c ∈ id.toList, (hexValue c).isSome = true

theorem hex_plain {c : Char} (hex : (hexValue c).isSome = true) :
    c ≠ '/' ∧ c ≠ '\\' ∧ c ≠ '.' ∧ isControl c = false ∧ whiteSpace c = false := by
  have range : 48 ≤ c.toNat ∧ c.toNat ≤ 57 ∨ 65 ≤ c.toNat ∧ c.toNat ≤ 70 ∨
      97 ≤ c.toNat ∧ c.toNat ≤ 102 := by
    have bounds : ∀ a b : Char, a ≤ c ∧ c ≤ b → a.toNat ≤ c.toNat ∧ c.toNat ≤ b.toNat :=
      fun a b h => ⟨UInt32.le_iff_toNat_le.1 h.1, UInt32.le_iff_toNat_le.1 h.2⟩
    unfold hexValue at hex
    split at hex
    · exact .inl (bounds '0' '9' ‹_›)
    · split at hex
      · exact .inr (.inr (bounds 'a' 'f' ‹_›))
      · split at hex
        · exact .inr (.inl (bounds 'A' 'F' ‹_›))
        · cases hex
  have other : ∀ d : Char, d.toNat ≠ c.toNat → c ≠ d := fun d ne e => ne (e ▸ rfl)
  refine ⟨other '/' ?_, other '\\' ?_, other '.' ?_, ?_, ?_⟩
  · change 47 ≠ c.toNat
    omega
  · change 92 ≠ c.toNat
    omega
  · change 46 ≠ c.toNat
    omega
  · simp only [isControl, decide_eq_false_iff_not]
    omega
  · unfold whiteSpace
    simp only [Bool.or_eq_false_iff, Bool.and_eq_false_iff, decide_eq_false_iff_not,
      beq_eq_false_iff_ne]
    omega

def suffixed (base shareId : String) : String :=
  base ++ "-" ++ String.ofList (shareId.toList.take 6)

theorem suffixed_toList (base shareId : String) :
    (suffixed base shareId).toList = base.toList ++ '-' :: shareId.toList.take 6 := by
  simp [suffixed]

/-- A suffix leaves the start as it was, and ends in no dot. -/
theorem suffixed_tidy {base shareId : String} (tidy : Tidy base) (hex : Hex shareId) :
    Tidy (suffixed base shareId) ∧
      (suffixed base shareId).toList.head? = base.toList.head? ∧
      (suffixed base shareId).toList.getLast? ≠ some '.' := by
  have digits : ∀ c ∈ '-' :: shareId.toList.take 6,
      c ≠ '/' ∧ c ≠ '\\' ∧ c ≠ '.' ∧ isControl c = false ∧ whiteSpace c = false := by
    intro c mem
    rcases List.mem_cons.1 mem with rfl | mem
    · decide
    · exact hex_plain (hex c (List.mem_of_mem_take mem))
  have some_ : base.toList ≠ [] := fun e => tidy.named (String.toList_injective e)
  have head : (suffixed base shareId).toList.head? = base.toList.head? := by
    rw [suffixed_toList, List.head?_append_of_ne_nil _ some_]
  have last : ∀ c, (suffixed base shareId).toList.getLast? = some c →
      c ∈ '-' :: shareId.toList.take 6 := by
    intro c hc
    rw [suffixed_toList, List.getLast?_append_of_ne_nil _ (by simp)] at hc
    exact List.mem_of_getLast? hc
  refine ⟨⟨fun e => ?_, fun c mem => ?_, fun c hc => ?_, fun c hc => ?_⟩, head, fun hc => ?_⟩
  · have := congrArg String.toList e
    rw [suffixed_toList] at this
    simp at this
  · rw [suffixed_toList] at mem
    rcases List.mem_append.1 mem with mem | mem
    · exact tidy.chars c mem
    · exact ⟨(digits c mem).1, (digits c mem).2.1, (digits c mem).2.2.2.1⟩
  · rw [head] at hc
    exact tidy.start c hc
  · exact (digits c (last c hc)).2.2.2.2
  · exact (digits _ (last _ hc)).2.2.1 rfl

/-! ## The folder resolved -/

def Recorded (existing : List FetchedShare) (shareId : String) : Prop :=
  ∃ s ∈ existing, s.shareId = shareId

def Taken (existing : List FetchedShare) (folder : String) : Prop :=
  ∃ s ∈ existing, s.folder = folder

section

variable {existing : List FetchedShare} {shareId name : String}

variable (name) in
theorem resolve_recorded (recorded : Recorded existing shareId) :
    ∃ s ∈ existing, s.shareId = shareId ∧ resolveShareFolder existing shareId name = s.folder := by
  unfold resolveShareFolder
  cases found : existing.find? (·.shareId = shareId) with
  | some s =>
    exact ⟨s, List.mem_of_find?_eq_some found, by simpa using List.find?_some found, rfl⟩
  | none =>
    obtain ⟨s, mem, same⟩ := recorded
    exact absurd (decide_eq_true same) (List.find?_eq_none.1 found s mem)

theorem find_none (new : ¬ Recorded existing shareId) :
    existing.find? (·.shareId = shareId) = none :=
  List.find?_eq_none.2 fun s mem same => new ⟨s, mem, of_decide_eq_true same⟩

theorem resolve_free (new : ¬ Recorded existing shareId)
    (free : ¬ Taken existing (safeFolderName name)) :
    resolveShareFolder existing shareId name = safeFolderName name := by
  unfold resolveShareFolder
  rw [find_none new]
  refine if_neg fun taken => free ?_
  obtain ⟨s, mem, same⟩ := List.any_eq_true.1 taken
  exact ⟨s, mem, of_decide_eq_true same⟩

theorem resolve_taken (new : ¬ Recorded existing shareId)
    (taken : Taken existing (safeFolderName name)) :
    resolveShareFolder existing shareId name = suffixed (safeFolderName name) shareId := by
  obtain ⟨s, mem, same⟩ := taken
  have any : existing.any (·.folder = safeFolderName name) = true :=
    List.any_eq_true.2 ⟨s, mem, decide_eq_true same⟩
  unfold resolveShareFolder suffixed
  rw [find_none new]
  dsimp only
  rw [if_pos any]

/-- Recorded, or of a name whose ends are not dots again; the last dot is no
matter where a suffix comes behind it. -/
def Plain (existing : List FetchedShare) (shareId name : String) : Prop :=
  Recorded existing shareId ∨ ¬ Reopens (cleaned name) ∧
    (¬ Reopens (cleaned name).reverse ∨ Taken existing (safeFolderName name))

theorem resolve_oneComponent_iff (normal : ∀ s ∈ existing, OneComponent s.folder)
    (hex : Hex shareId) :
    OneComponent (resolveShareFolder existing shareId name) ↔ Plain existing shareId name := by
  have tidy := safeFolderName_tidy name
  by_cases recorded : Recorded existing shareId
  · obtain ⟨s, mem, -, folder⟩ := resolve_recorded name recorded
    rw [folder]
    exact iff_of_true (normal s mem) (.inl recorded)
  · by_cases taken : Taken existing (safeFolderName name)
    · obtain ⟨tidy', head, last⟩ := suffixed_tidy tidy hex
      rw [resolve_taken recorded taken, oneComponent_iff, head, ne_eq, safeFolderName_starts]
      simp [Plain, recorded, taken, tidy', last]
    · rw [resolve_free recorded taken, oneComponent_iff, ne_eq, ne_eq, safeFolderName_starts,
        safeFolderName_ends]
      simp [Plain, recorded, taken, tidy]

end

end Daemonseed.Storage.ManagedFolders
