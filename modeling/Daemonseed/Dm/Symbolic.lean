import Daemonseed.Dm.Channel

/-! # The symbolic primitives

Byte strings as terms: what a hash, an encapsulation or an envelope makes is
a free constructor over what it was made from. A decapsulation yields the
secret only for the ciphertext's own key, and something else for any other
(implicit rejection). Every law the key schedule is proved under holds. -/
namespace Daemonseed.Dm.Symbolic
open Daemonseed.Dm.Primitives

/-- A byte string, by how it was made. -/
inductive Term
  | label (l : Label)
  /-- What a fill function answered. -/
  | rand (i : Nat)
  /-- Bytes with no secret in them: a body, a nonce. -/
  | data (i : Nat)
  | hkdf (salt ikm info : Term)
  | ek (d z : Term)
  | dk (d z : Term)
  | ss (pk m : Term)
  | ct (pk m : Term)
  | reject (dk ct : Term)
  | aead (key nonce aad body : Term)
  | nil
  | be32 (v : Nat) (rest : Term)
  | be64 (v : Nat) (rest : Term)
  | raw (bytes rest : Term)
  | lp (bytes rest : Term)
  | lpEmpty (rest : Term)
  deriving DecidableEq, Repr

/-- One field in front of the rest of an encoding. -/
def piece : Piece Term → Term → Term
  | .be32 v, rest => .be32 v rest
  | .be64 v, rest => .be64 v rest
  | .raw b, rest => .raw b rest
  | .lp (some b), rest => .lp b rest
  | .lp none, rest => .lpEmpty rest

/-- The bytes of a list of fields. -/
def pieces : List (Piece Term) → Term
  | [] => .nil
  | x :: rest => piece x (pieces rest)

theorem piece_inj {x y : Piece Term} {t u : Term} (h : piece x t = piece y u) : x = y ∧ t = u := by
  rcases x with v | v | b | _ | b <;> rcases y with v' | v' | b' | _ | b' <;>
    simp_all [piece]

theorem piece_ne_nil (x : Piece Term) (t : Term) : piece x t ≠ .nil := by
  rcases x with v | v | b | _ | b <;> simp [piece]

theorem pieces_inj : ∀ {xs ys : List (Piece Term)}, pieces xs = pieces ys → xs = ys
  | [], [], _ => rfl
  | [], y :: ys, h => absurd h.symm (piece_ne_nil y (pieces ys))
  | x :: xs, [], h => absurd h (piece_ne_nil x (pieces xs))
  | x :: xs, y :: ys, h => by
    obtain ⟨hx, hr⟩ := piece_inj h
    rw [hx, pieces_inj hr]

def decapsulate : Term → Term → Term
  | .dk d z, .ct pk m => if pk = .ek d z then .ss pk m else .reject (.dk d z) (.ct pk m)
  | dk, ct => .reject dk ct

def openEnvelope (key : Term) (aad : List (Piece Term)) : Term → Option Term
  | .aead k _ a body => if k = key ∧ a = pieces aad then some body else none
  | _ => none

/-- The primitives as free constructors. -/
def symbolic : Crypto Term where
  label := .label
  hkdf salt ikm info := .hkdf salt (pieces ikm) info
  keygen d z := (.ek d z, .dk d z)
  encapsulate pk m := (.ss pk m, .ct pk m)
  decapsulate := decapsulate
  sealEnvelope key nonce aad body := .aead key nonce (pieces aad) body
  openEnvelope := openEnvelope

theorem symbolic_hkdf : HkdfInjective symbolic where
  hkdf_inj h := by
    simp only [symbolic, Term.hkdf.injEq] at h
    exact ⟨h.1, pieces_inj h.2.1, h.2.2⟩
  label_inj h := Term.label.inj h

theorem symbolic_kem : KemCorrect symbolic where
  decapsulate_encapsulate d z m := by simp [symbolic, decapsulate]

theorem symbolic_aead : AeadCorrect symbolic where
  open_seal key nonce aad body := by simp [symbolic, openEnvelope]

/-- The rest of the primitives beside them: a signature is an envelope nobody
else's key makes. -/
def symbolicPlatform : Platform Term where
  length _ := 0
  zeros := .nil
  u8 := .be32
  u64 := .be64
  takeU8
    | .be32 v rest => some (v, rest)
    | _ => none
  takeU64
    | .be64 v rest => some (v, rest)
    | _ => none
  sha384 fields := .hkdf .nil (pieces fields) .nil
  lastByte _ := 0
  sign signer message := .aead signer .nil (pieces message) .nil
  publicKey signer := .ek signer signer
  verify pk message signature :=
    match signature with
    | .aead signer _ signed _ => pk = .ek signer signer ∧ signed = pieces message
    | _ => false

theorem symbolicPlatform_framed : Framed symbolicPlatform where
  takeU8_u8 _ _ := rfl
  takeU64_u64 _ _ := rfl

end Daemonseed.Dm.Symbolic
