import Daemonseed.Lib.Lines

/-! # Lossy text

Bytes as text whatever they are: what is not UTF-8 is shown by the replacement
character, one for each longest beginning of a character that is broken off and one
for every other byte. -/
namespace Daemonseed.Lib.Lossy
open Daemonseed.Lib.Bytes Daemonseed.Lib.Lines

def continues (b : UInt8) : Bool := 0x80 ≤ b && b ≤ 0xBF

/-- `next` can follow `lead` in a character of three or four bytes. -/
def leads (lead next : UInt8) : Bool :=
  lead == 0xE0 && 0xA0 ≤ next && next ≤ 0xBF
    || 0xE1 ≤ lead && lead ≤ 0xEC && continues next
    || lead == 0xED && 0x80 ≤ next && next ≤ 0x9F
    || 0xEE ≤ lead && lead ≤ 0xEF && continues next
    || lead == 0xF0 && 0x90 ≤ next && next ≤ 0xBF
    || 0xF1 ≤ lead && lead ≤ 0xF3 && continues next
    || lead == 0xF4 && 0x80 ≤ next && next ≤ 0x8F

/-- The bytes that one replacement character stands for, where no character begins. -/
def brokenLen : Octets → Nat
  | lead :: next :: rest =>
    if leads lead next then if 0xF0 ≤ lead && rest.head?.any continues then 3 else 2 else 1
  | _ => 1

def firstChar (bytes : Octets) : Option Char := bytes.toByteArray.utf8DecodeChar? 0

def lossyChars : Nat → Octets → List Char
  | 0, _ => []
  | _ + 1, [] => []
  | fuel + 1, bytes =>
    match firstChar bytes with
    | some c => c :: lossyChars fuel (bytes.drop c.utf8Size)
    | none => '\uFFFD' :: lossyChars fuel (bytes.drop (brokenLen bytes))

/-- Every character takes a byte at least. -/
def fromUtf8Lossy (bytes : Octets) : String := .ofList (lossyChars bytes.length bytes)

example : fromUtf8Lossy [0x61, 0xFF, 0xE2, 0x82, 0x62] = "a\uFFFD\uFFFDb" := by decide

theorem firstChar_encode (c : Char) (rest : Octets) :
    firstChar (String.utf8EncodeChar c ++ rest) = some c := by
  have e : (String.utf8EncodeChar c ++ rest).toByteArray =
      (String.utf8EncodeChar c).toByteArray ++ rest.toByteArray := by
    simp
  rw [firstChar, e]
  exact ByteArray.utf8DecodeChar?_utf8EncodeChar_append

theorem utf8_ofList (cs : List Char) : utf8 (.ofList cs) = cs.flatMap String.utf8EncodeChar := by
  show (String.ofList cs).toByteArray.data.toList = _
  rw [String.toByteArray_ofList, List.utf8Encode, List.data_toByteArray, List.toList_toArray]

theorem lossyChars_succ {fuel : Nat} {bytes : Octets} (some_ : bytes ≠ []) :
    lossyChars (fuel + 1) bytes = (firstChar bytes).elim
      ('\uFFFD' :: lossyChars fuel (bytes.drop (brokenLen bytes)))
      fun c => c :: lossyChars fuel (bytes.drop c.utf8Size) := by
  cases bytes with
  | nil => exact absurd rfl some_
  | cons b bytes =>
    rw [lossyChars.eq_3 _ _ (by simp)]
    cases firstChar (b :: bytes) <;> rfl

theorem lossyChars_utf8 {fuel : Nat} {cs : List Char}
    (enough : (cs.flatMap String.utf8EncodeChar).length ≤ fuel) :
    lossyChars fuel (cs.flatMap String.utf8EncodeChar) = cs := by
  induction cs generalizing fuel with
  | nil => cases fuel <;> rfl
  | cons c cs ih =>
    rw [List.flatMap_cons, List.length_append, String.length_utf8EncodeChar] at enough
    have some_ := c.utf8Size_pos
    cases fuel with
    | zero => omega
    | succ fuel =>
      rw [List.flatMap_cons, lossyChars_succ (by simp [String.utf8EncodeChar_ne_nil]),
        firstChar_encode]
      show c :: lossyChars fuel _ = _
      rw [List.drop_left' (String.length_utf8EncodeChar c), ih (by omega)]

/-- Text is shown as it is. -/
theorem fromUtf8Lossy_utf8 (s : String) : fromUtf8Lossy (utf8 s) = s := by
  have bytes := utf8_ofList s.toList
  rw [String.ofList_toList] at bytes
  rw [fromUtf8Lossy, bytes, lossyChars_utf8 (Nat.le_refl _), String.ofList_toList]

end Daemonseed.Lib.Lossy
