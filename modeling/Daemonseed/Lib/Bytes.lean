import Mathlib.Data.Nat.ModEq
import Mathlib.Data.List.Basic

/-! # Fixed-width fields of bytes

Big-endian integers, and what is taken off the front of an encoding. -/
namespace Daemonseed.Lib.Bytes

abbrev Octets := List UInt8

instance neZero_u64 : NeZero (2 ^ 64) := ⟨by decide⟩

/-- The low `8 * width` bits, most significant byte first. -/
def toBe : (width : Nat) → Nat → Octets
  | 0, _ => []
  | width + 1, v => toBe width (v / 256) ++ [UInt8.ofNat v]

def fromBe (bytes : Octets) : Nat := bytes.foldl (fun v b => v * 256 + b.toNat) 0

/-- The first `n` bytes and the rest, where there are that many. -/
def takeFront (n : Nat) (bytes : Octets) : Option (Octets × Octets) :=
  if bytes.length < n then none else some (bytes.splitAt n)

/-- `bytes`, then zeros up to `width`. -/
def padded (bytes : Octets) (width : Nat) : Octets :=
  bytes ++ List.replicate (width - bytes.length) 0

@[simp] theorem toBe_length (width v : Nat) : (toBe width v).length = width := by
  induction width generalizing v with
  | zero => rfl
  | succ width ih => simp [toBe, ih]

theorem fromBe_concat (bytes : Octets) (b : UInt8) :
    fromBe (bytes ++ [b]) = fromBe bytes * 256 + b.toNat := by
  simp [fromBe]

theorem fromBe_toBe (width v : Nat) : fromBe (toBe width v) = v % 256 ^ width := by
  induction width generalizing v with
  | zero => simp [toBe, fromBe, Nat.mod_one]
  | succ width ih =>
    rw [toBe, fromBe_concat, ih, pow_succ', Nat.mod_mul, UInt8.toNat_ofNat']
    omega

theorem takeFront_append (front rest : Octets) :
    takeFront front.length (front ++ rest) = some (front, rest) := by
  simp [takeFront]

theorem padded_length {bytes : Octets} {width : Nat} (h : bytes.length ≤ width) :
    (padded bytes width).length = width := by
  simp only [padded, List.length_append, List.length_replicate]
  omega

theorem take_padded {bytes : Octets} {width : Nat} :
    (padded bytes width).take bytes.length = bytes := by
  simp [padded]

/-! ## Pieces -/

/-- The `i`-th of the pieces of `width` bytes. -/
def piece (width : Nat) (bytes : Octets) (i : Nat) : Octets :=
  (bytes.drop (i * width)).take width

theorem piece_length {width i : Nat} {bytes : Octets} : (piece width bytes i).length ≤ width := by
  simp [piece]

theorem flatMap_piece (width : Nat) (bytes : Octets) (count : Nat) :
    (List.range count).flatMap (piece width bytes) = bytes.take (count * width) := by
  induction count with
  | zero => simp
  | succ count ih =>
    rw [List.range_succ, List.flatMap_append, ih, Nat.succ_mul, List.take_add]
    simp [piece]

/-- Where the pieces cover the bytes, they are them, in order. -/
theorem pieces_join {width count : Nat} {bytes : Octets} (covers : bytes.length ≤ count * width) :
    (List.range count).flatMap (piece width bytes) = bytes := by
  rw [flatMap_piece, List.take_of_length_le covers]

end Daemonseed.Lib.Bytes
