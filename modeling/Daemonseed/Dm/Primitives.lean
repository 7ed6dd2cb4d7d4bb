/-! # The primitives the key schedule is built from

HKDF-SHA384, ML-KEM-1024 and the AEAD envelope are linked from outside the
repository, so they are parameters here, over an arbitrary type `B` of byte
strings. What is hashed or bound as associated data is kept as the list of
the fields that are written, in the order they are written, so a length
prefix and an empty field stay visible. The module is taken operational:
no call of it is refused. -/
namespace Daemonseed.Dm.Primitives

/-- The domain constants of `dm::domain` that are hashed or signed over here. -/
inductive Label
  | dmDropSlot
  | dmAdvertSig
  | dmChannelOpeningSig
  | dmChannelControlSalt
  | dmChannelControl
  | dmChannelMsgAad
  | dmChannelRootSalt
  | dmChannelRoot
  | dmChannelChainSalt
  | dmChannelChain
  | dmChannelStepSalt
  | dmChannelMk
  | dmChannelCk
  deriving DecidableEq, Repr

/-- One field of an encoding: a big-endian integer, bytes written as they
are, or bytes behind their length (`push_lp`), empty when absent. -/
inductive Piece (B : Type)
  | be32 (v : Nat)
  | be64 (v : Nat)
  | raw (bytes : B)
  | lp (bytes : Option B)
  deriving DecidableEq, Repr

/-- The primitives, over byte strings `B`. -/
structure Crypto (B : Type) where
  /-- The bytes of a domain constant. -/
  label : Label → B
  /-- `HkdfSha384::extract(salt, ikm)` then `expand(info)`. -/
  hkdf : (salt : B) → (ikm : List (Piece B)) → (info : B) → B
  /-- `ml_kem::keygen(d, z)`: the public and the secret half. -/
  keygen : (d z : B) → B × B
  /-- `ml_kem::encapsulate(pk, m)`: the secret and the ciphertext. -/
  encapsulate : (pk m : B) → B × B
  /-- `ml_kem::decapsulate(dk, ct)`, which rejects implicitly. -/
  decapsulate : (dk ct : B) → B
  /-- `seal_envelope` under a nonce. -/
  sealEnvelope : (key nonce : B) → (aad : List (Piece B)) → (body : B) → B
  /-- `open_envelope`. -/
  openEnvelope : (key : B) → (aad : List (Piece B)) → (sealed : B) → Option B

/-- What else is linked from outside or built into the language: the length,
the fixed-width fields and the digest of byte strings, and ML-DSA. -/
structure Platform (B : Type) where
  length : B → Nat
  /-- 32 zero bytes. -/
  zeros : B
  /-- A byte, and a big-endian `u64`, in front of the rest. -/
  u8 : Nat → B → B
  u64 : Nat → B → B
  takeU8 : B → Option (Nat × B)
  takeU64 : B → Option (Nat × B)
  sha384 : List (Piece B) → B
  lastByte : B → Nat
  sign : (signer : B) → List (Piece B) → B
  publicKey : (signer : B) → B
  verify : (pk : B) → List (Piece B) → (signature : B) → Bool

variable {B : Type}

/-- What is written in front of the rest is read back. -/
structure Framed (P : Platform B) : Prop where
  takeU8_u8 : ∀ v b, P.takeU8 (P.u8 v b) = some (v, b)
  takeU64_u64 : ∀ v b, P.takeU64 (P.u64 v b) = some (v, b)

/-- HKDF has no collisions, and the domain constants are distinct. -/
structure HkdfInjective (C : Crypto B) : Prop where
  hkdf_inj : ∀ {s i l s' i' l'}, C.hkdf s i l = C.hkdf s' i' l' → s = s' ∧ i = i' ∧ l = l'
  label_inj : ∀ {x y}, C.label x = C.label y → x = y

/-- A ciphertext decapsulates to the secret it was encapsulated with. -/
structure KemCorrect (C : Crypto B) : Prop where
  decapsulate_encapsulate : ∀ d z m,
    C.decapsulate (C.keygen d z).2 (C.encapsulate (C.keygen d z).1 m).2 =
      (C.encapsulate (C.keygen d z).1 m).1

/-- An envelope opens under its own key and associated data. -/
structure AeadCorrect (C : Crypto B) : Prop where
  open_seal : ∀ key nonce aad body,
    C.openEnvelope key aad (C.sealEnvelope key nonce aad body) = some body

end Daemonseed.Dm.Primitives
