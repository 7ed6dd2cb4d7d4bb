import Daemonseed.Lib.Results
import Daemonseed.Storage.Profile

/-! # The sealed profile

The payload encrypted under a key that the passphrase gives, in the layout that
is written and in the one that is only read. Key derivation, the cipher and the
system's randomness are given. -/
namespace Daemonseed.Storage.Blob
open Daemonseed.Lib.Bytes Daemonseed.Lib.Lines Daemonseed.Lib.Results
open Daemonseed.Storage.Suites Daemonseed.Storage.Profile

/-! ## Keys -/

structure ArgonParams where
  memoryKib : Nat
  iterations : Nat
  parallelism : Nat
  deriving DecidableEq

/-- An identifier of 16 bytes and its hyphenated text. -/
structure Uuid where
  bytes : Octets
  text : String
  deriving DecidableEq

inductive CipherError
  | tagMismatch
  | other (e : String)
  deriving DecidableEq

def suiteIdLen : Nat := 2

def nonceLen : Nat := 12

def tagLen : Nat := 16

def argon2OutputLen : Nat := 48

def aeadKeyLen : Nat := 32

def indexKeyLen : Nat := 32

structure Crypto (K : Type) where
  argon2id : (params : ArgonParams) → (length : Nat) → (passphrase salt : Octets) →
    Except String Octets
  fromPrk : Octets → Except String K
  expand : (hkdf : K) → (info : Octets) → (length : Nat) → Except String Octets
  newKey : Octets → Except String K
  gcmEncrypt : (aes : K) → (nonce aad plaintext : Octets) → Except String (Octets × Octets)
  gcmDecrypt : (aes : K) → (nonce aad ciphertext tag : Octets) → Except CipherError Octets

variable {K M : Type} (crypto : Crypto K) {bip39 : Bip39 M}

def atRest (profileId : String) : String := "daemonseed/at-rest/" ++ profileId

def shareIndex (profileId : String) : String := "daemonseed/share-index/" ++ profileId

def deriveSessionKeys (passphrase : String) (profileId : Uuid) (params : ArgonParams) :
    Except BlobError (Octets × Octets) := do
  let intermediate ←
    (crypto.argon2id params argon2OutputLen (utf8 passphrase) profileId.bytes).mapError .argon2
  let hkdf ← (crypto.fromPrk intermediate).mapError .hkdf
  let atRestKey ←
    (crypto.expand hkdf (utf8 (atRest profileId.text)) aeadKeyLen).mapError .hkdf
  let indexKey ←
    (crypto.expand hkdf (utf8 (shareIndex profileId.text)) indexKeyLen).mapError .hkdf
  return (atRestKey, indexKey)

def deriveAeadKey (passphrase : String) (profileId : Uuid) (params : ArgonParams) :
    Except BlobError Octets := do
  let (atRestKey, _) ← deriveSessionKeys crypto passphrase profileId params
  return atRestKey

/-! ## Writing -/

def magic : Octets := utf8 "daemonseed/blob/v2\x00"

def magicV1 : Octets := utf8 "daemonseed/blob/v1\x00"

def suiteBytes (id : SuiteId) : Octets := toBe suiteIdLen id.raw.toNat

/-- What the system gives for a nonce is one of its length, or it fails. -/
abbrev Nonce := { nonce : Octets // nonce.length = nonceLen }

def sealWithKey (nonce : Except String Nonce) (seeds : Seeds bip39) (key : Octets)
    (suiteId : SuiteId) : Except BlobError Octets := do
  let _ ← (Registry.resolveForWrite suiteId).mapError .writeRefused
  let nonce ← nonce.mapError .entropySource
  let aes ← (crypto.newKey key).mapError .aesKeyInit
  let (ciphertext, tag) ←
    (crypto.gcmEncrypt aes nonce.val (suiteBytes suiteId) (utf8 seeds.toPlaintext)).mapError .aesMode
  return magic ++ suiteBytes suiteId ++ nonce.val ++ ciphertext ++ tag

def sealUnder (nonce : Except String Nonce) (seeds : Seeds bip39) (passphrase : String)
    (profileId : Uuid) (params : ArgonParams) (suiteId : SuiteId) : Except BlobError Octets := do
  let key ← deriveAeadKey crypto passphrase profileId params
  sealWithKey crypto nonce seeds key suiteId

/-- None where the registry has no suite to write under, which panics. -/
def sealSeeds (nonce : Except String Nonce) (seeds : Seeds bip39) (passphrase : String)
    (profileId : Uuid) (params : ArgonParams) : Option (Except BlobError Octets) :=
  Registry.defaultWriteSuite.map fun suiteId =>
    sealUnder crypto nonce seeds passphrase profileId params suiteId

/-! ## Reading -/

structure Opened (bip39 : Bip39 M) where
  seeds : Seeds bip39
  suiteId : SuiteId
  legacyV1 : Bool
  key : Octets
  indexKey : Octets

/-- What is encrypted and its tag, off the end. -/
def splitTag (bytes : Octets) : Octets × Octets := bytes.splitAt (bytes.length - tagLen)

def orUtf8 (text : Option String) : Except BlobError String :=
  match text with
  | some text => .ok text
  | none => .error .utf8

/-- The payload in a ciphertext, with the keys it was found under. -/
def decrypted (bip39 : Bip39 M) (passphrase : String) (profileId : Uuid) (params : ArgonParams)
    (aad afterSuite : Octets) : Except BlobError (Seeds bip39 × Octets × Octets) := do
  let (nonce, afterNonce) := afterSuite.splitAt nonceLen
  let (ciphertext, tag) := splitTag afterNonce
  let (key, indexKey) ← deriveSessionKeys crypto passphrase profileId params
  let aes ← (crypto.newKey key).mapError .aesKeyInit
  let plaintext ← (crypto.gcmDecrypt aes nonce aad ciphertext tag).mapError fun e =>
    match e with
    | .tagMismatch => .authenticationFailed
    | .other e => .aesMode e
  let plaintext ← orUtf8 (ofUtf8 plaintext)
  let seeds ← Seeds.fromPlaintext bip39 plaintext
  return (seeds, key, indexKey)

def openV2 (bip39 : Bip39 M) (rest : Octets) (passphrase : String) (profileId : Uuid)
    (params : ArgonParams) : Except BlobError (Opened bip39) :=
  if rest.length < suiteIdLen + nonceLen + tagLen then
    .error (.malformed "v2 blob shorter than minimum header+tag")
  else do
    let (suiteBytes, afterSuite) := rest.splitAt suiteIdLen
    let suiteId ← (SuiteId.tryNew (.ofNat (fromBe suiteBytes))).mapError .suiteIdSentinel
    if (Registry.lookup suiteId).isNone then .error (.unknownSuite suiteId)
    else
      let (seeds, key, indexKey) ←
        decrypted crypto bip39 passphrase profileId params suiteBytes afterSuite
      return { seeds, suiteId, legacyV1 := false, key, indexKey }

def v1ImplicitSuite : SuiteId := ⟨0x0001, plain_one⟩

def openV1 (bip39 : Bip39 M) (rest : Octets) (passphrase : String) (profileId : Uuid)
    (params : ArgonParams) : Except BlobError (Opened bip39) :=
  if rest.length < nonceLen + tagLen then
    .error (.malformed "v1 blob shorter than minimum header+tag")
  else do
    let (seeds, key, indexKey) ← decrypted crypto bip39 passphrase profileId params [] rest
    return { seeds, suiteId := v1ImplicitSuite, legacyV1 := true, key, indexKey }

def openBlob (bip39 : Bip39 M) (blob : Octets) (passphrase : String) (profileId : Uuid)
    (params : ArgonParams) : Except BlobError (Opened bip39) :=
  if blob.length < magic.length then .error (.malformed "blob shorter than magic prefix")
  else
    let (front, rest) := blob.splitAt magic.length
    if front = magic then openV2 crypto bip39 rest passphrase profileId params
    else if front = magicV1 then openV1 crypto bip39 rest passphrase profileId params
    else .error (.malformed "magic prefix mismatch")

/-- The payload of a blob, written again as blobs are written now. -/
def touchReseal (bip39 : Bip39 M) (nonce : Except String Nonce) (blob : Octets)
    (passphrase : String) (profileId : Uuid) (params : ArgonParams) :
    Option (Except BlobError Octets) :=
  match openBlob crypto bip39 blob passphrase profileId params with
  | .error e => some (.error e)
  | .ok opened => sealSeeds crypto nonce opened.seeds passphrase profileId params

/-! ## What opens -/

/-- The cipher gives back what it encrypted, and its tags have one length. -/
structure Crypto.Genuine (crypto : Crypto K) : Prop where
  decrypts : ∀ {aes nonce aad plaintext ciphertext tag},
    crypto.gcmEncrypt aes nonce aad plaintext = .ok (ciphertext, tag) →
    crypto.gcmDecrypt aes nonce aad ciphertext tag = .ok plaintext
  tag_length : ∀ {aes nonce aad plaintext ciphertext tag},
    crypto.gcmEncrypt aes nonce aad plaintext = .ok (ciphertext, tag) → tag.length = tagLen

inductive Layout
  | v1 | v2
  deriving DecidableEq

namespace Layout

def header : Layout → Octets
  | v1 => magicV1
  | v2 => magic ++ suiteBytes cnsa20.id

def aad : Layout → Octets
  | v1 => []
  | v2 => suiteBytes cnsa20.id

/-- A payload as a build of that layout writes it. -/
def laidOut (layout : Layout) (nonce : Nonce) (payload passphrase : String) (profileId : Uuid)
    (params : ArgonParams) : Except BlobError Octets := do
  let key ← deriveAeadKey crypto passphrase profileId params
  let aes ← (crypto.newKey key).mapError .aesKeyInit
  let (ciphertext, tag) ←
    (crypto.gcmEncrypt aes nonce.val layout.aad (utf8 payload)).mapError .aesMode
  return layout.header ++ nonce.val ++ ciphertext ++ tag

/-- What a blob of that layout opens as. -/
def opened (layout : Layout) (key indexKey : Octets) (seeds : Seeds bip39) : Opened bip39 where
  seeds := seeds
  suiteId := cnsa20.id
  legacyV1 := layout = v1
  key := key
  indexKey := indexKey

end Layout

variable {crypto} {passphrase payload : String} {profileId : Uuid} {params : ArgonParams}
  {blob : Octets}

/-- The blob a profile is sealed as is the current layout of its payload. -/
theorem sealSeeds_laidOut {nonce : Except String Nonce} {seeds : Seeds bip39}
    (h : sealSeeds crypto nonce seeds passphrase profileId params = some (.ok blob)) :
    ∃ nonce, Layout.v2.laidOut crypto nonce seeds.toPlaintext passphrase profileId params
      = .ok blob := by
  rw [sealSeeds, defaultWriteSuite_eq, Option.map_some, Option.some.injEq] at h
  obtain ⟨key, derived, h⟩ := bind_ok.1 h
  obtain ⟨-, -, h⟩ := bind_ok.1 h
  obtain ⟨nonce, -, h⟩ := bind_ok.1 h
  refine ⟨nonce, bind_ok.2 ⟨key, derived, ?_⟩⟩
  rw [← h]
  simp only [Layout.header, Layout.aad, List.append_assoc]

theorem splitAt_append {front rest : Octets} {n : Nat} (h : front.length = n) :
    (front ++ rest).splitAt n = (front, rest) := by
  rw [List.splitAt_eq, List.take_left' h, List.drop_left' h]

theorem magicV1_length : magicV1.length = magic.length := by decide

theorem magicV1_ne : magicV1 ≠ magic := by decide

theorem decrypted_eq (bip39 : Bip39 M) (genuine : crypto.Genuine) {nonce : Nonce}
    {aad ciphertext tag key indexKey : Octets} {aes : K}
    (derived : deriveSessionKeys crypto passphrase profileId params = .ok (key, indexKey))
    (made : crypto.newKey key = .ok aes)
    (encrypted : crypto.gcmEncrypt aes nonce.val aad (utf8 payload) = .ok (ciphertext, tag)) :
    decrypted crypto bip39 passphrase profileId params aad (nonce.val ++ (ciphertext ++ tag)) =
      (Seeds.fromPlaintext bip39 payload).map fun seeds => (seeds, key, indexKey) := by
  have cut : splitTag (ciphertext ++ tag) = (ciphertext, tag) := by
    refine splitAt_append ?_
    rw [List.length_append, genuine.tag_length encrypted, Nat.add_sub_cancel]
  unfold decrypted
  rw [splitAt_append nonce.property]
  simp only [cut, derived, ok_bind, mapError_ok.2 made, mapError_ok.2 (genuine.decrypts encrypted)]
  rw [ofUtf8_utf8]
  show Seeds.fromPlaintext bip39 payload >>= _ = _
  cases Seeds.fromPlaintext bip39 payload <;> rfl

section Layouts
variable {rest key indexKey : Octets} {seeds : Except BlobError (Seeds bip39)}

theorem openBlob_v1 : openBlob crypto bip39 (magicV1 ++ rest) passphrase profileId params =
    openV1 crypto bip39 rest passphrase profileId params := by
  rw [openBlob, splitAt_append magicV1_length]
  rw [if_neg (by rw [List.length_append, magicV1_length]; exact Nat.not_lt.2 (Nat.le_add_right _ _))]
  simp only [if_neg magicV1_ne, if_true]

theorem openBlob_v2 : openBlob crypto bip39 (magic ++ rest) passphrase profileId params =
    openV2 crypto bip39 rest passphrase profileId params := by
  rw [openBlob, splitAt_append rfl]
  rw [if_neg (by rw [List.length_append]; exact Nat.not_lt.2 (Nat.le_add_right _ _))]
  simp only [if_true]

theorem openV1_read (long : nonceLen + tagLen ≤ rest.length)
    (read : decrypted crypto bip39 passphrase profileId params Layout.v1.aad rest =
      seeds.map fun seeds => (seeds, key, indexKey)) :
    openV1 crypto bip39 rest passphrase profileId params =
      seeds.map (Layout.v1.opened key indexKey) := by
  rw [openV1, if_neg (Nat.not_lt.2 long)]
  show decrypted crypto bip39 passphrase profileId params Layout.v1.aad rest >>= _ = _
  rw [read]
  cases seeds <;> rfl

theorem openV2_read (long : nonceLen + tagLen ≤ rest.length)
    (read : decrypted crypto bip39 passphrase profileId params Layout.v2.aad rest =
      seeds.map fun seeds => (seeds, key, indexKey)) :
    openV2 crypto bip39 (suiteBytes cnsa20.id ++ rest) passphrase profileId params =
      seeds.map (Layout.v2.opened key indexKey) := by
  have width : (suiteBytes cnsa20.id).length = suiteIdLen := toBe_length ..
  have known : SuiteId.tryNew (.ofNat (fromBe (suiteBytes cnsa20.id))) = .ok cnsa20.id := by
    decide
  have short : ¬ (suiteBytes cnsa20.id ++ rest).length < suiteIdLen + nonceLen + tagLen := by
    rw [List.length_append, width]
    omega
  rw [openV2, if_neg short, splitAt_append width]
  simp only [known]
  show decrypted crypto bip39 passphrase profileId params Layout.v2.aad rest >>= _ = _
  rw [read]
  cases seeds <;> rfl

end Layouts

/-- A blob of either layout opens as its payload reads. -/
theorem openBlob_laidOut (bip39 : Bip39 M) (genuine : crypto.Genuine) {layout : Layout} {nonce : Nonce}
    (h : layout.laidOut crypto nonce payload passphrase profileId params = .ok blob) :
    ∃ key indexKey, deriveSessionKeys crypto passphrase profileId params = .ok (key, indexKey) ∧
      openBlob crypto bip39 blob passphrase profileId params =
        (Seeds.fromPlaintext bip39 payload).map (layout.opened key indexKey) := by
  obtain ⟨key, derived, h⟩ := bind_ok.1 h
  obtain ⟨⟨key', indexKey⟩, derived, e⟩ := bind_ok.1 derived
  cases e
  obtain ⟨aes, made, h⟩ := bind_ok.1 h
  obtain ⟨⟨ciphertext, tag⟩, encrypted, h⟩ := bind_ok.1 h
  rw [mapError_ok] at made encrypted
  cases h
  refine ⟨key, indexKey, derived, ?_⟩
  have read := decrypted_eq bip39 genuine derived made encrypted
  have long : nonceLen + tagLen ≤ (nonce.val ++ (ciphertext ++ tag)).length := by
    simp only [List.length_append, nonce.property, genuine.tag_length encrypted]
    omega
  cases layout with
  | v1 =>
    rw [Layout.header, List.append_assoc, List.append_assoc, openBlob_v1]
    exact openV1_read long read
  | v2 =>
    rw [Layout.header, List.append_assoc, List.append_assoc, List.append_assoc, openBlob_v2]
    exact openV2_read long read

end Daemonseed.Storage.Blob
