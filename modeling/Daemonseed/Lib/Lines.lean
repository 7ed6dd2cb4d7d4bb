import Mathlib
import Daemonseed.Lib.Bytes

/-! # Lines and fields of text

What is written one field after another and one line after another, read back:
the lines of a text, what stands before and after a separator, numbers in
decimal and bytes in hexadecimal. -/
namespace Daemonseed.Lib.Lines
open Daemonseed.Lib.Bytes

abbrev Text := List Char

/-! ## Lines -/

/-- A line as it was before the line feed, without the carriage return. The line
is held backwards. -/
def closeLine : Text → Text
  | '\r' :: held => held.reverse
  | held => held.reverse

/-- The lines of a text after one that has been begun. -/
def linesFrom (held : Text) : Text → List Text
  | [] => if held = [] then [] else [held.reverse]
  | '\n' :: rest => closeLine held :: linesFrom [] rest
  | c :: rest => linesFrom (c :: held) rest

def lines (t : Text) : List Text := linesFrom [] t

/-- A line that a line feed ends and nothing else. -/
structure Whole (l : Text) : Prop where
  unbroken : '\n' ∉ l
  ended : l.getLast? ≠ some '\r'

variable {l t rest : Text} {c : Char}

theorem linesFrom_append (unbroken : '\n' ∉ l) (held : Text) :
    linesFrom held (l ++ t) = linesFrom (l.reverse ++ held) t := by
  induction l generalizing held with
  | nil => rfl
  | cons x l ih =>
    have ne : x ≠ '\n' := fun e => unbroken (e ▸ List.mem_cons_self)
    have unbroken : '\n' ∉ l := fun mem => unbroken (List.mem_cons_of_mem _ mem)
    rw [List.cons_append, linesFrom, ih unbroken, List.reverse_cons, List.append_assoc]
    · rfl
    · exact ne

theorem closeLine_reverse (ended : l.getLast? ≠ some '\r') : closeLine l.reverse = l := by
  cases h : l.reverse with
  | nil => rw [List.reverse_eq_nil_iff.1 h]; rfl
  | cons x held =>
    have last : l.getLast? = some x := by rw [← List.head?_reverse, h]; rfl
    have ne : x ≠ '\r' := fun e => ended (e ▸ last)
    rw [closeLine, ← h, List.reverse_reverse]
    intro held e
    exact ne (List.cons.inj e).1

theorem lines_feed (whole : Whole l) : lines (l ++ '\n' :: rest) = l :: lines rest := by
  rw [lines, linesFrom_append whole.unbroken, List.append_nil, linesFrom,
    closeLine_reverse whole.ended]
  rfl

theorem lines_last (unbroken : '\n' ∉ l) (some_ : l ≠ []) : lines l = [l] := by
  have h := linesFrom_append (t := []) unbroken []
  rw [List.append_nil, List.append_nil] at h
  rw [lines, h, linesFrom, if_neg (by simpa using some_), List.reverse_reverse]

/-- Lines that are not empty, each but the first after a line feed, are read back. -/
theorem lines_join {ls : List Text} (whole : Whole l) (some_ : l ≠ [])
    (all : ∀ l ∈ ls, Whole l ∧ l ≠ []) :
    lines (l ++ ls.flatMap fun l => '\n' :: l) = l :: ls := by
  induction ls generalizing l with
  | nil =>
    rw [List.flatMap_nil, List.append_nil]
    exact lines_last whole.unbroken some_
  | cons next ls ih =>
    obtain ⟨first, others⟩ := List.forall_mem_cons.1 all
    rw [List.flatMap_cons, List.cons_append, lines_feed whole, ih first.1 first.2 others]

theorem closeLine_unbroken {held : Text} (h : '\n' ∉ held) : '\n' ∉ closeLine held := by
  unfold closeLine
  split
  · simpa using fun e => h (List.mem_cons_of_mem _ e)
  · simpa using h

theorem linesFrom_unbroken {held : Text} (h : '\n' ∉ held) : ∀ l ∈ linesFrom held t, '\n' ∉ l := by
  induction t generalizing held with
  | nil =>
    intro l mem
    unfold linesFrom at mem
    split at mem
    · cases mem
    · rw [List.mem_singleton.1 mem]
      simpa using h
  | cons x t ih =>
    intro l mem
    by_cases feed : x = '\n'
    · subst feed
      rcases List.mem_cons.1 mem with rfl | mem
      · exact closeLine_unbroken h
      · exact ih (by simp) l mem
    · rw [linesFrom] at mem
      · refine ih (fun e => ?_) l mem
        rcases List.mem_cons.1 e with e | e
        · exact feed e.symm
        · exact h e
      · exact feed

/-- No line has a line feed in it. -/
theorem lines_unbroken (mem : l ∈ lines t) : '\n' ∉ l :=
  linesFrom_unbroken (by simp) l mem

/-! ## Fields -/

/-- What stands before the first `c` and after it. -/
def splitOnce (c : Char) : Text → Option (Text × Text)
  | [] => none
  | x :: rest =>
    if x = c then some ([], rest) else (splitOnce c rest).map fun (before, after) => (x :: before, after)

/-- The text after a prefix. -/
def stripPrefix : Text → Text → Option Text
  | [], t => some t
  | _ :: _, [] => none
  | x :: p, y :: t => if x = y then stripPrefix p t else none

theorem splitOnce_append (absent : c ∉ l) : splitOnce c (l ++ c :: rest) = some (l, rest) := by
  induction l with
  | nil => simp [splitOnce]
  | cons x l ih =>
    have ne : x ≠ c := fun e => absent (e ▸ List.mem_cons_self)
    have absent : c ∉ l := fun mem => absent (List.mem_cons_of_mem _ mem)
    simp [splitOnce, ne, ih absent]

theorem splitOnce_none (absent : c ∉ l) : splitOnce c l = none := by
  induction l with
  | nil => rfl
  | cons x l ih =>
    have ne : x ≠ c := fun e => absent (e ▸ List.mem_cons_self)
    have absent : c ∉ l := fun mem => absent (List.mem_cons_of_mem _ mem)
    simp [splitOnce, ne, ih absent]

theorem splitOnce_some {before after : Text} (h : splitOnce c t = some (before, after)) :
    t = before ++ c :: after ∧ c ∉ before := by
  induction t generalizing before with
  | nil => cases h
  | cons x t ih =>
    unfold splitOnce at h
    split at h
    · rename_i e
      cases h
      exact ⟨by rw [e]; rfl, by simp⟩
    · rename_i ne
      obtain ⟨⟨b, a⟩, found, e⟩ := Option.map_eq_some_iff.1 h
      cases e
      obtain ⟨rfl, absent⟩ := ih found
      refine ⟨rfl, fun mem => ?_⟩
      rcases List.mem_cons.1 mem with e | mem
      · exact ne e.symm
      · exact absent mem

@[simp] theorem stripPrefix_append (p : Text) : stripPrefix p (p ++ t) = some t := by
  induction p with
  | nil => rfl
  | cons x p ih => simp [stripPrefix, ih]

/-! ## Numbers -/

/-- Digits and nothing else. -/
def parseDigits (t : Text) : Option Nat :=
  if t ≠ [] ∧ t.all Char.isDigit then some (Nat.ofDigitChars 10 t 0) else none

/-- A sign may stand before the digits. -/
def parseU64 (t : Text) : Option UInt64 :=
  let digits := match t with
    | '+' :: digits => digits
    | digits => digits
  (parseDigits digits).bind fun n => if n < 2 ^ 64 then some (UInt64.ofNat n) else none

def parseI64 (t : Text) : Option Int64 :=
  match t with
  | '-' :: digits =>
    (parseDigits digits).bind fun n => if n ≤ 2 ^ 63 then some (Int64.ofInt (-n)) else none
  | '+' :: digits =>
    (parseDigits digits).bind fun n => if n < 2 ^ 63 then some (Int64.ofInt n) else none
  | digits =>
    (parseDigits digits).bind fun n => if n < 2 ^ 63 then some (Int64.ofInt n) else none

def showNat (n : Nat) : Text := Nat.toDigits 10 n

def showInt (i : Int) : Text :=
  match i with
  | .ofNat n => showNat n
  | .negSucc n => '-' :: showNat (n + 1)

theorem showNat_digits (n : Nat) : ∀ c ∈ showNat n, c.isDigit = true := fun _ mem =>
  Nat.isDigit_of_mem_toDigits (by decide) (by decide) mem

theorem parseDigits_showNat (n : Nat) : parseDigits (showNat n) = some n := by
  rw [parseDigits, if_pos ⟨Nat.toDigits_ne_nil, List.all_eq_true.2 (showNat_digits n)⟩, showNat,
    Nat.ofDigitChars_toDigits (by decide) (by decide)]

/-- The first character of a number is a digit. -/
theorem showNat_head (n : Nat) : ∃ c rest, showNat n = c :: rest ∧ c.isDigit = true := by
  obtain ⟨c, rest, e⟩ := List.exists_cons_of_ne_nil (Nat.toDigits_ne_nil (n := n) (b := 10))
  exact ⟨c, rest, e, showNat_digits n c (by rw [showNat, e]; exact List.mem_cons_self)⟩

theorem parseU64_showNat (n : UInt64) : parseU64 (showNat n.toNat) = some n := by
  obtain ⟨c, rest, e, digit⟩ := showNat_head n.toNat
  have plain : parseU64 (showNat n.toNat) =
      (parseDigits (showNat n.toNat)).bind fun n =>
        if n < 2 ^ 64 then some (UInt64.ofNat n) else none := by
    rw [e]
    unfold parseU64
    split
    · rename_i h
      cases h
      cases digit
    · rfl
  rw [plain, parseDigits_showNat, Option.bind_some, if_pos n.toNat_lt, UInt64.ofNat_toNat]

theorem parseI64_showInt (i : Int64) : parseI64 (showInt i.toInt) = some i := by
  have low := i.le_toInt
  have high := i.toInt_lt
  cases value : i.toInt with
  | ofNat n =>
    obtain ⟨c, rest, e, digit⟩ := showNat_head n
    have plain : parseI64 (showNat n) =
        (parseDigits (showNat n)).bind fun n =>
          if n < 2 ^ 63 then some (Int64.ofInt n) else none := by
      rw [e]
      unfold parseI64
      split
      · rename_i h
        cases h
        cases digit
      · rename_i h
        cases h
        cases digit
      · rfl
    have small : n < 2 ^ 63 := by
      rw [value] at high
      simpa using high
    rw [showInt, plain, parseDigits_showNat, Option.bind_some, if_pos small]
    have back : Int64.ofInt (n : Int) = i := by
      rw [show (n : Int) = i.toInt from value.symm, Int64.ofInt_toInt]
    rw [back]
  | negSucc n =>
    have small : n + 1 ≤ 2 ^ 63 := by
      rw [value] at low
      omega
    show (parseDigits (showNat (n + 1))).bind _ = _
    rw [parseDigits_showNat, Option.bind_some, if_pos small]
    have back : Int64.ofInt (-((n + 1 : Nat) : Int)) = i := by
      rw [show -((n + 1 : Nat) : Int) = i.toInt from value.symm, Int64.ofInt_toInt]
    rw [back]

/-! ## Bytes -/

/-- Two lower-case digits a byte. -/
def showHex (bytes : Octets) : Text :=
  bytes.flatMap fun b => [Nat.digitChar (b.toNat / 16), Nat.digitChar (b.toNat % 16)]

/-- A hexadecimal digit, of either case. -/
def hexValue (c : Char) : Option Nat :=
  if '0' ≤ c ∧ c ≤ '9' then some (c.toNat - '0'.toNat)
  else if 'a' ≤ c ∧ c ≤ 'f' then some (c.toNat - 'a'.toNat + 10)
  else if 'A' ≤ c ∧ c ≤ 'F' then some (c.toNat - 'A'.toNat + 10)
  else none

def parseHex : Text → Option Octets
  | [] => some []
  | [_] => none
  | high :: low :: rest => do
    let h ← hexValue high
    let l ← hexValue low
    let bytes ← parseHex rest
    return UInt8.ofNat (16 * h + l) :: bytes

def utf8 (s : String) : Octets := s.toUTF8.data.toList

def ofUtf8 (bytes : Octets) : Option String := String.fromUTF8? ⟨bytes.toArray⟩

theorem hexValue_digitChar {n : Nat} (small : n < 16) : hexValue (Nat.digitChar n) = some n := by
  have all : ∀ n < 16, hexValue (Nat.digitChar n) = some n := by decide
  exact all n small

theorem parseHex_showHex (bytes : Octets) : parseHex (showHex bytes) = some bytes := by
  induction bytes with
  | nil => rfl
  | cons b bytes ih =>
    have high : b.toNat / 16 < 16 := by
      have := b.toNat_lt
      omega
    have low : b.toNat % 16 < 16 := Nat.mod_lt _ (by decide)
    show parseHex (Nat.digitChar (b.toNat / 16) :: Nat.digitChar (b.toNat % 16) :: showHex bytes) = _
    rw [parseHex, hexValue_digitChar high, hexValue_digitChar low, ih]
    show some (UInt8.ofNat (16 * (b.toNat / 16) + b.toNat % 16) :: bytes) = _
    rw [Nat.div_add_mod, UInt8.ofNat_toNat]

theorem ofUtf8_utf8 (s : String) : ofUtf8 (utf8 s) = some s := by
  simp only [ofUtf8, utf8, Array.toArray_toList]
  exact dif_pos s.isValidUTF8

theorem byteArray_loop (bs : ByteArray) (i : Nat) (r : Octets) :
    ByteArray.toList.loop bs i r = r.reverse ++ bs.data.toList.drop i := by
  induction i, r using ByteArray.toList.loop.induct bs with
  | case1 i r inside ih =>
    have size : i < bs.data.toList.length := by simpa using inside
    have got : bs.get! i = bs.data.toList[i] := by
      rw [ByteArray.get!, Array.getElem_toList]
      exact getElem!_pos bs.data i inside
    rw [ByteArray.toList.loop, if_pos inside, ih, List.drop_eq_getElem_cons size, got,
      List.reverse_cons, List.append_assoc]
    rfl
  | case2 i r past =>
    have size : bs.data.toList.length ≤ i := by simpa using past
    rw [ByteArray.toList.loop, if_neg past, List.drop_of_length_le size, List.append_nil]

theorem toUTF8_toList (s : String) : s.toUTF8.toList = utf8 s := byteArray_loop _ 0 []

theorem utf8_length (s : String) : (utf8 s).length = s.utf8ByteSize := by
  rw [utf8, Array.length_toList]
  rfl

theorem utf8_ofUtf8 {bytes : Octets} {s : String} (h : ofUtf8 bytes = some s) : utf8 s = bytes := by
  unfold ofUtf8 String.fromUTF8? at h
  split at h
  · cases h
    rfl
  · cases h

theorem utf8_injective {s t : String} (h : utf8 s = utf8 t) : s = t :=
  Option.some.inj (ofUtf8_utf8 s ▸ ofUtf8_utf8 t ▸ congrArg ofUtf8 h)

/-- Hexadecimal has no separator in it. -/
theorem showHex_digits {bytes : Octets} (mem : c ∈ showHex bytes) : ∃ n < 16, c = Nat.digitChar n := by
  obtain ⟨b, -, mem⟩ := List.mem_flatMap.1 mem
  have small := b.toNat_lt
  rcases List.mem_cons.1 mem with rfl | mem
  · exact ⟨_, by omega, rfl⟩
  · exact ⟨_, Nat.mod_lt _ (by decide), List.mem_singleton.1 mem⟩

end Daemonseed.Lib.Lines
