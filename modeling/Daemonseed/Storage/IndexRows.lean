import Daemonseed.Lib.Lines
import Daemonseed.Lib.Maps
import Daemonseed.Lib.Readers
import Daemonseed.Lib.Results

/-! # The share index

One encrypted row for each indexed file, under a key that hides its path. The
path is kept once more inside the sealed value. What the rows of an index are
opened as, after any updates and in any table that can be put together from the
rows it has ever held. -/
namespace Daemonseed.Storage.IndexRows
open Daemonseed.Lib.Bytes Daemonseed.Lib.Lines Daemonseed.Lib.Maps Daemonseed.Lib.Readers

def nonceLen : Nat := 12

def tagLen : Nat := 16

/-- What the length of a value is padded to a multiple of. -/
def bucketStep : Nat := 256

/-- One file of a shared folder. The addresses of its chunks are absent until it
has been hashed. -/
structure ShareEntry where
  relPath : String
  size : UInt64
  mtimeUnixMs : UInt64
  chunkAddrs : Option Octets
  deriving DecidableEq

inductive IndexError
  | crypto
  | corrupt
  | entropy
  deriving DecidableEq, Repr

/-! ## Values -/

namespace ShareEntry

/-- The fields before the addresses, up to the byte that says whether there are any. -/
def head (e : ShareEntry) : Octets :=
  le 2 (BitVec.ofNat 16 (utf8 e.relPath).length) ++ (utf8 e.relPath ++
    (le 8 e.size.toBitVec ++ (le 8 e.mtimeUnixMs.toBitVec ++
      le 1 (if e.chunkAddrs.isSome then 1 else 0))))

def tail (e : ShareEntry) : Octets :=
  e.chunkAddrs.elim [] fun addrs => le 4 (BitVec.ofNat 32 addrs.length) ++ addrs

/-- Lengths that their fields have room for. -/
structure InRange (e : ShareEntry) : Prop where
  path : (utf8 e.relPath).length < 2 ^ 16
  addrs : ∀ addrs ∈ e.chunkAddrs, addrs.length < 2 ^ 32

end ShareEntry

def encodeEntry (e : ShareEntry) : Octets := e.head ++ e.tail

/-- The content after its length, of which four bytes are kept, padded with zeros. -/
def frameAndPad (e : ShareEntry) : Octets :=
  let content := encodeEntry e
  let paddedLen := (4 + content.length + bucketStep - 1) / bucketStep * bucketStep
  padded (le 4 (BitVec.ofNat 32 content.length) ++ content) paddedLen

namespace Cursor

def content : Reader Unit Octets := do
  let contentLen ← wordLe () 4
  take () contentLen.toNat

def relPath : Reader Unit String := do
  let pathLen ← wordLe () 2
  let pathBytes ← take () pathLen.toNat
  given ((ofUtf8 pathBytes).elim (.error ()) .ok)

/-- The addresses are all that is left, and as many as their length says. -/
def addrs : Reader Unit Octets := do
  let addrsLen ← wordLe () 4
  let addrBytes ← remaining
  refuse (addrBytes.length ≠ addrsLen.toNat) ()
  return addrBytes

def chunkAddrs (presence : BitVec 8) : Reader Unit (Option Octets) := do
  if presence = 0 then
    finish ()
    return none
  else if presence = 1 then return some (← addrs)
  else throw ()

def entry : Reader Unit ShareEntry := do
  let relPath ← relPath
  let size ← wordLe () 8
  let mtimeUnixMs ← wordLe () 8
  let presence ← wordLe () 1
  let chunkAddrs ← chunkAddrs presence
  return ⟨relPath, .ofBitVec size, .ofBitVec mtimeUnixMs, chunkAddrs⟩

end Cursor

def unframe (padded : Octets) : Option ShareEntry :=
  (Cursor.content.run' padded).toOption.bind fun content =>
    (Cursor.entry.run' content).toOption

/-! ## Reading a value back -/

variable {e e' : ShareEntry} {bytes rest : Octets}

theorem reads_relPath {s : String} (short : (utf8 s).length < 2 ^ 16) :
    Reads Cursor.relPath (le 2 (BitVec.ofNat 16 (utf8 s).length) ++ utf8 s) s := by
  intro rest
  rw [Cursor.relPath, List.append_assoc, (reads_wordLe (n := 2) _).run_bind,
    show (BitVec.ofNat 16 (utf8 s).length).toNat = (utf8 s).length from Nat.mod_eq_of_lt short,
    (reads_take _).run_bind, ofUtf8_utf8]
  rfl

theorem addrs_read {addrs : Octets} (short : addrs.length < 2 ^ 32) :
    Cursor.addrs.run (le 4 (BitVec.ofNat 32 addrs.length) ++ addrs) = .ok (addrs, []) := by
  refine (reads_wordLe (n := 4) _).then (bind_ok.2 ⟨addrs, [], remaining_ok.2 ⟨rfl, rfl⟩, ?_⟩)
  refine refuse_then ?_ rfl
  exact not_not.2 (Nat.mod_eq_of_lt short).symm

theorem chunkAddrs_read (range : e.InRange) :
    (Cursor.chunkAddrs (if e.chunkAddrs.isSome then 1 else 0)).run e.tail = .ok (e.chunkAddrs, []) := by
  unfold ShareEntry.tail
  cases found : e.chunkAddrs with
  | none => rfl
  | some addrs =>
    refine bind_ok.2 ⟨addrs, [], addrs_read (range.addrs addrs found), rfl⟩

/-- An entry in range is read back. -/
theorem entry_read (range : e.InRange) : Cursor.entry.run (encodeEntry e) = .ok (e, []) := by
  unfold Cursor.entry encodeEntry ShareEntry.head
  rw [← List.append_assoc (le 2 _), List.append_assoc]
  refine (reads_relPath range.path).then ?_
  rw [List.append_assoc]
  refine (reads_wordLe (n := 8) _).then ?_
  rw [List.append_assoc]
  refine (reads_wordLe (n := 8) _).then ?_
  refine (reads_wordLe (n := 1) _).then ?_
  exact bind_ok.2 ⟨_, _, chunkAddrs_read range, rfl⟩

theorem relPath_ok {s : String} (h : Cursor.relPath.run bytes = .ok (s, rest)) :
    (utf8 s).length < 2 ^ 16 ∧
      bytes = le 2 (BitVec.ofNat 16 (utf8 s).length) ++ utf8 s ++ rest := by
  obtain ⟨pathLen, left, len, behind⟩ := bind_ok.1 h
  obtain ⟨pathBytes, left', taken, decoding⟩ := bind_ok.1 behind
  obtain rfl := wordLe_ok.1 len
  obtain ⟨width, rfl⟩ := take_ok.1 taken
  obtain ⟨text, rfl⟩ := given_ok.1 decoding
  have same : utf8 s = pathBytes := by
    cases decoded : ofUtf8 pathBytes with
    | none => simp [decoded] at text
    | some s' =>
      obtain rfl : s' = s := by simpa [decoded] using text
      exact utf8_ofUtf8 decoded
  rw [same, width]
  refine ⟨pathLen.isLt, ?_⟩
  rw [BitVec.ofNat_toNat, BitVec.setWidth_eq, List.append_assoc]

theorem addrs_ok {addrs : Octets} :
    Cursor.addrs.run bytes = .ok (addrs, rest) ↔ addrs.length < 2 ^ 32 ∧
      bytes = le 4 (BitVec.ofNat 32 addrs.length) ++ addrs ∧ rest = [] := by
  constructor
  · intro h
    obtain ⟨addrsLen, left, len, h⟩ := bind_ok.1 h
    obtain ⟨addrBytes, left', all, h⟩ := bind_ok.1 h
    obtain ⟨_, left'', checked, h⟩ := bind_ok.1 h
    obtain rfl := wordLe_ok.1 len
    obtain ⟨rfl, rfl⟩ := remaining_ok.1 all
    obtain ⟨width, rfl⟩ := refuse_ok.1 checked
    obtain ⟨rfl, rfl⟩ := pure_ok.1 h
    rw [not_not.1 width]
    refine ⟨addrsLen.isLt, ?_, rfl⟩
    rw [BitVec.ofNat_toNat, BitVec.setWidth_eq]
  · rintro ⟨short, rfl, rfl⟩
    exact addrs_read short

/-- What the presence byte is followed by. -/
theorem chunkAddrs_ok {presence : BitVec 8} {addrs : Option Octets}
    (h : (Cursor.chunkAddrs presence).run bytes = .ok (addrs, rest)) :
    presence = (if addrs.isSome then 1 else 0) ∧ (∀ a ∈ addrs, a.length < 2 ^ 32) ∧
      bytes = addrs.elim [] (fun a => le 4 (BitVec.ofNat 32 a.length) ++ a) ∧ rest = [] := by
  unfold Cursor.chunkAddrs at h
  split at h
  next absent =>
    obtain ⟨_, left, ended, h⟩ := bind_ok.1 h
    obtain ⟨rfl, rfl⟩ := finish_ok.1 ended
    obtain ⟨rfl, rfl⟩ := pure_ok.1 h
    exact ⟨absent, fun a held => (by cases held), rfl, rfl⟩
  · split at h
    next present =>
      obtain ⟨held, left, read, h⟩ := bind_ok.1 h
      obtain ⟨short, rfl, rfl⟩ := addrs_ok.1 read
      obtain ⟨rfl, rfl⟩ := pure_ok.1 h
      refine ⟨present, fun a mem => ?_, rfl, rfl⟩
      obtain rfl := Option.some.inj mem
      exact short
    · cases h

/-- Behind the fields of an entry, only its addresses are still to be read. -/
theorem entry_head (path : (utf8 e.relPath).length < 2 ^ 16) {more : Octets} :
    Cursor.entry.run (e.head ++ more) = .ok (e', rest) ↔ ∃ addrs,
      (Cursor.chunkAddrs (if e.chunkAddrs.isSome then 1 else 0)).run more = .ok (addrs, rest) ∧
        e' = { e with chunkAddrs := addrs } := by
  have steps : Cursor.entry.run (e.head ++ more) =
      ((Cursor.chunkAddrs (if e.chunkAddrs.isSome then 1 else 0)).run more >>= fun x =>
        pure (⟨e.relPath, e.size, e.mtimeUnixMs, x.1⟩, x.2)) := by
    unfold Cursor.entry ShareEntry.head
    rw [← List.append_assoc (le 2 _), List.append_assoc]
    refine (reads_relPath path).then ?_
    rw [List.append_assoc]
    refine (reads_wordLe (n := 8) _).then ?_
    rw [List.append_assoc]
    refine (reads_wordLe (n := 8) _).then ?_
    exact (reads_wordLe (n := 1) _).then rfl
  rw [steps, Lib.Results.bind_ok]
  constructor
  · rintro ⟨⟨addrs, left⟩, read, h⟩
    obtain ⟨rfl, rfl⟩ := Prod.mk.inj (Except.ok.inj h)
    exact ⟨addrs, read, rfl⟩
  · rintro ⟨addrs, read, rfl⟩
    exact ⟨_, read, rfl⟩

/-- What is accepted is the encoding of the entry it is read as. -/
theorem entry_ok (h : Cursor.entry.run bytes = .ok (e, rest)) :
    e.InRange ∧ bytes = encodeEntry e ∧ rest = [] := by
  obtain ⟨relPath, left, path, h⟩ := bind_ok.1 h
  obtain ⟨size, left', sized, h⟩ := bind_ok.1 h
  obtain ⟨mtime, left'', timed, h⟩ := bind_ok.1 h
  obtain ⟨presence, left''', present, h⟩ := bind_ok.1 h
  obtain ⟨addrs, left'''', read, h⟩ := bind_ok.1 h
  obtain ⟨rfl, rfl⟩ := pure_ok.1 h
  obtain ⟨short, rfl⟩ := relPath_ok path
  obtain rfl := wordLe_ok.1 sized
  obtain rfl := wordLe_ok.1 timed
  obtain rfl := wordLe_ok.1 present
  obtain ⟨rfl, inRange, rfl, rfl⟩ := chunkAddrs_ok read
  refine ⟨⟨short, inRange⟩, ?_, rfl⟩
  unfold encodeEntry ShareEntry.head ShareEntry.tail
  simp only [List.append_assoc]

/-- No encoding is the front of another. -/
theorem encodeEntry_front (range : e.InRange) (range' : e'.InRange)
    (front : encodeEntry e = encodeEntry e' ++ rest) : e = e' ∧ rest = [] := by
  have read := entry_read range
  rw [front, encodeEntry, List.append_assoc, entry_head range'.path] at read
  obtain ⟨addrs, read, same⟩ := read
  obtain ⟨presence, short, tail, -⟩ := chunkAddrs_ok read
  unfold ShareEntry.tail at tail
  cases held : e'.chunkAddrs with
  | none =>
    cases addrs with
    | none =>
      refine ⟨?_, by simpa [held] using tail⟩
      rw [same, ← held]
    | some a => simp [held] at presence
  | some a' =>
    cases addrs with
    | none => simp [held] at presence
    | some a =>
      have spelled : le 4 (BitVec.ofNat 32 a'.length) ++ (a' ++ rest) =
          le 4 (BitVec.ofNat 32 a.length) ++ a := by
        simpa [held] using tail
      obtain ⟨len, bytes⟩ := List.append_inj spelled (le_length.trans le_length.symm)
      have lengths := congrArg List.length bytes
      have same' := congrArg BitVec.toNat (le_injective len)
      rw [BitVec.toNat_ofNat, BitVec.toNat_ofNat, Nat.mod_eq_of_lt (range'.addrs a' held),
        Nat.mod_eq_of_lt (short a rfl)] at same'
      rw [List.length_append] at lengths
      obtain rfl : rest = [] := List.length_eq_zero_iff.1 (by omega)
      rw [List.append_nil] at bytes
      refine ⟨?_, rfl⟩
      rw [same, ← bytes, ← held]

theorem encodeEntry_length (range : e.InRange) : (encodeEntry e).length < 2 ^ 33 := by
  have path := range.path
  unfold encodeEntry ShareEntry.head ShareEntry.tail
  simp only [List.length_append, le_length]
  cases held : e.chunkAddrs with
  | none =>
    simp only [Option.elim_none, List.length_nil]
    omega
  | some addrs =>
    have short := range.addrs addrs held
    simp only [Option.elim_some, List.length_append, le_length]
    omega

/-! ## Framing -/

/-- The length of the content is the one its four bytes tell. -/
def Fits (e : ShareEntry) : Prop := (encodeEntry e).length < 2 ^ 32

instance : Decidable (Fits e) := inferInstanceAs (Decidable (_ < _))

theorem frameAndPad_eq (e : ShareEntry) : ∃ zeros, frameAndPad e =
    le 4 (BitVec.ofNat 32 (encodeEntry e).length) ++ (encodeEntry e ++ zeros) :=
  ⟨_, List.append_assoc _ _ _⟩

/-- As much of the content is read as the length kept of it says. -/
theorem content_read (e : ShareEntry) : Cursor.content.run' (frameAndPad e) =
    .ok ((encodeEntry e).take ((encodeEntry e).length % 2 ^ 32)) := by
  have kept : (BitVec.ofNat 32 (encodeEntry e).length).toNat = (encodeEntry e).length % 2 ^ 32 := rfl
  have least : (encodeEntry e).length % 2 ^ 32 ≤ (encodeEntry e).length := Nat.mod_le _ _
  obtain ⟨zeros, spelled⟩ := frameAndPad_eq e
  rw [spelled]
  refine run'_ok.2 ⟨(encodeEntry e).drop ((encodeEntry e).length % 2 ^ 32) ++ zeros, ?_⟩
  refine (reads_wordLe (n := 4) _).then (take_ok.2 ⟨?_, ?_⟩)
  · rw [List.length_take, kept]
    omega
  · rw [← List.append_assoc, List.take_append_drop]

/-- A row reads back as its entry, unless the length of its content was cut. -/
theorem unframe_frameAndPad (range : e.InRange) :
    unframe (frameAndPad e) = if Fits e then some e else none := by
  unfold unframe
  rw [content_read, Except.toOption, Option.bind_some]
  split
  next fits =>
    rw [Nat.mod_eq_of_lt fits, List.take_length, run'_ok.2 ⟨[], entry_read range⟩]
    rfl
  next cut =>
    cases read : Cursor.entry.run' ((encodeEntry e).take ((encodeEntry e).length % 2 ^ 32)) with
    | error _ => rfl
    | ok e' =>
      obtain ⟨rest, read⟩ := run'_ok.1 read
      obtain ⟨range', spelled, rfl⟩ := entry_ok read
      have long : 2 ^ 32 ≤ (encodeEntry e).length := Nat.not_lt.1 cut
      have whole := (List.take_append_drop ((encodeEntry e).length % 2 ^ 32) (encodeEntry e)).symm
      rw [spelled] at whole
      obtain ⟨_, none_left⟩ := encodeEntry_front range range' whole
      have := congrArg List.length none_left
      rw [List.length_drop, List.length_nil] at this
      have below : (encodeEntry e).length % 2 ^ 32 < 2 ^ 32 := Nat.mod_lt _ (by decide)
      omega

/-! ## Sealing -/

/-- The code outside the repository that an index calls. -/
structure Crypto (K : Type) where
  /-- SHA-384, of which 32 bytes are kept. -/
  digest : Octets → K
  gcmEncrypt : (key nonce aad plaintext : Octets) → Option (Octets × Octets)
  gcmDecrypt : (key nonce aad ciphertext tag : Octets) → Option Octets

/-- What is relied on of it: no two inputs have one digest, and a ciphertext is as
long as its plaintext, has a tag and opens under the associated data it was made
with. -/
structure Crypto.Sound {K : Type} (C : Crypto K) : Prop where
  digest : Function.Injective C.digest
  sizes : ∀ {key nonce aad plaintext ciphertext tag},
    C.gcmEncrypt key nonce aad plaintext = some (ciphertext, tag) →
      ciphertext.length = plaintext.length ∧ tag.length = tagLen
  opens : ∀ {key nonce aad plaintext ciphertext tag},
    C.gcmEncrypt key nonce aad plaintext = some (ciphertext, tag) →
      C.gcmDecrypt key nonce aad ciphertext tag = some plaintext

section

variable {K : Type} (C : Crypto K)

def opaqueKey (indexKey : Octets) (relPath : String) : K := C.digest (indexKey ++ utf8 relPath)

/-- Nothing but the content is sealed: the associated data is empty. -/
def sealEntry (indexKey : Octets) (entry : ShareEntry) (nonce : Option (Field nonceLen)) :
    Except IndexError Octets :=
  match nonce with
  | none => .error .entropy
  | some nonce =>
    match C.gcmEncrypt indexKey nonce.1 [] (frameAndPad entry) with
    | none => .error .crypto
    | some (ciphertext, tag) => .ok (nonce.1 ++ ciphertext ++ tag)

/-- What the cipher makes of a stored value. -/
def decrypted (indexKey stored : Octets) : Option Octets :=
  let rest := stored.drop nonceLen
  let ctLen := rest.length - tagLen
  C.gcmDecrypt indexKey (stored.take nonceLen) [] (rest.take ctLen) (rest.drop ctLen)

def openValue (indexKey stored : Octets) : Except IndexError ShareEntry :=
  if stored.length < nonceLen + tagLen then .error .corrupt
  else
    match decrypted C indexKey stored with
    | none => .error .crypto
    | some plaintext =>
      match unframe plaintext with
      | none => .error .corrupt
      | some entry => .ok entry

/-! ## What opens -/

variable {C} {indexKey stored : Octets} {nonce : Option (Field nonceLen)} {e : ShareEntry}

theorem sealEntry_ok : sealEntry C indexKey e nonce = .ok stored ↔
    ∃ n ciphertext tag, nonce = some n ∧
      C.gcmEncrypt indexKey n.1 [] (frameAndPad e) = some (ciphertext, tag) ∧
        stored = n.1 ++ ciphertext ++ tag := by
  unfold sealEntry
  cases nonce with
  | none => simp
  | some n =>
    cases made : C.gcmEncrypt indexKey n.1 [] (frameAndPad e) with
    | none => simp [made]
    | some sealed_ =>
      obtain ⟨ciphertext, tag⟩ := sealed_
      simp [made, eq_comm]

/-- A row that was written decrypts to what was sealed. -/
theorem decrypted_sealed (sound : C.Sound) (sealed_ : sealEntry C indexKey e nonce = .ok stored) :
    nonceLen + tagLen ≤ stored.length ∧ decrypted C indexKey stored = some (frameAndPad e) := by
  obtain ⟨n, ciphertext, tag, rfl, made, rfl⟩ := sealEntry_ok.1 sealed_
  obtain ⟨-, width⟩ := sound.sizes made
  refine ⟨by simp only [List.length_append, n.2, width]; omega, ?_⟩
  unfold decrypted
  dsimp only
  rw [List.append_assoc, List.take_left' n.2, List.drop_left' n.2, List.length_append, width,
    Nat.add_sub_cancel, List.take_left, List.drop_left]
  exact sound.opens made

/-- A row that was written opens as its entry where the length of that fits, and
not at all where it does not. -/
theorem openValue_sealed (sound : C.Sound) (range : e.InRange)
    (sealed_ : sealEntry C indexKey e nonce = .ok stored) :
    openValue C indexKey stored = if Fits e then .ok e else .error .corrupt := by
  obtain ⟨long, opened⟩ := decrypted_sealed sound sealed_
  unfold openValue
  rw [if_neg (Nat.not_lt.2 long), opened]
  by_cases fits : Fits e <;> simp [unframe_frameAndPad range, fits]

theorem openValue_ok (opened : openValue C indexKey stored = .ok e) :
    decrypted C indexKey stored ≠ none := by
  intro none_
  unfold openValue at opened
  rw [none_] at opened
  split at opened <;> cases opened

end

/-! ## The index -/

structure ShareIndex (K : Type) where
  db : Map K Octets
  indexKey : Octets

section

variable {K : Type} [DecidableEq K] (C : Crypto K)

namespace ShareIndex

/-- An index with no row in it. -/
def empty (indexKey : Octets) : ShareIndex K := ⟨∅, indexKey⟩

def put (self : ShareIndex K) (entry : ShareEntry) (nonce : Option (Field nonceLen)) :
    Except IndexError (ShareIndex K) := do
  let value ← sealEntry C self.indexKey entry nonce
  return { self with db := self.db.insert (opaqueKey C self.indexKey entry.relPath) value }

def get (self : ShareIndex K) (relPath : String) : Except IndexError (Option ShareEntry) :=
  match self.db.lookup (opaqueKey C self.indexKey relPath) with
  | none => .ok none
  | some stored => (openValue C self.indexKey stored).map some

def remove (self : ShareIndex K) (relPath : String) : ShareIndex K :=
  { self with db := self.db.erase (opaqueKey C self.indexKey relPath) }

def clear (self : ShareIndex K) : ShareIndex K := { self with db := ∅ }

def entries (self : ShareIndex K) : Except IndexError (List ShareEntry) :=
  self.db.values.mapM (openValue C self.indexKey)

end ShareIndex

/-! ## Updates -/

inductive Op
  | put (entry : ShareEntry) (nonce : Option (Field nonceLen))
  | remove (relPath : String)
  | clear

/-- An update that fails leaves the index as it was. -/
def ShareIndex.step (self : ShareIndex K) : Op → ShareIndex K
  | .put entry nonce => (self.put C entry nonce).toOption.getD self
  | .remove relPath => self.remove C relPath
  | .clear => self.clear

def ShareIndex.run (self : ShareIndex K) (ops : List Op) : ShareIndex K := ops.foldl (step C) self

/-- Every entry an update puts is in range. -/
def InRange (ops : List Op) : Prop := ∀ e nonce, Op.put e nonce ∈ ops → e.InRange

/-- For each path, the last entry put since the path was removed or the index
cleared. -/
def keep (indexKey : Octets) (kept : String → Option ShareEntry) : Op → String → Option ShareEntry
  | .put entry nonce =>
    if (sealEntry C indexKey entry nonce).toBool then Function.update kept entry.relPath (some entry)
    else kept
  | .remove relPath => Function.update kept relPath none
  | .clear => fun _ => none

def kept (indexKey : Octets) (ops : List Op) : String → Option ShareEntry :=
  ops.foldl (keep C indexKey) fun _ => none

/-- The row an update writes, with the entry it is written for. -/
def Op.row (indexKey : Octets) : Op → Option (ShareEntry × Octets)
  | .put entry nonce => (sealEntry C indexKey entry nonce).toOption.map (entry, ·)
  | .remove _ => none
  | .clear => none

/-- Every row that was ever written. -/
def written (indexKey : Octets) (ops : List Op) : List (ShareEntry × Octets) :=
  ops.filterMap (Op.row C indexKey)

/-- A table whose values are rows that were ever written or do not open. -/
def Assembled (indexKey : Octets) (ops : List Op) (db : Map K Octets) : Prop :=
  ∀ k stored, db.lookup k = some stored →
    stored ∈ (written C indexKey ops).map Prod.snd ∨ decrypted C indexKey stored = none


/-! ## What an index holds -/

variable {C} {indexKey stored : Octets} {nonce : Option (Field nonceLen)} {e : ShareEntry}
  {p q : String} {db : Map K Octets} {m : String → Option ShareEntry} {ops : List Op}

omit [DecidableEq K] in
theorem opaqueKey_injective (sound : C.Sound) (h : opaqueKey C indexKey p = opaqueKey C indexKey q) :
    p = q :=
  utf8_injective (List.append_cancel_left (sound.digest h))

variable (C) in
/-- The rows are those of the entries kept, each under the key of its path. -/
structure Holds (indexKey : Octets) (db : Map K Octets) (m : String → Option ShareEntry) : Prop where
  absent : ∀ p, m p = none → db.lookup (opaqueKey C indexKey p) = none
  present : ∀ p e, m p = some e → e.relPath = p ∧ e.InRange ∧ ∃ nonce stored,
    sealEntry C indexKey e nonce = .ok stored ∧ db.lookup (opaqueKey C indexKey p) = some stored
  keys : ∀ k stored, db.lookup k = some stored → ∃ p e, m p = some e ∧ k = opaqueKey C indexKey p

theorem holds_empty : Holds C indexKey ∅ fun _ => none where
  absent := fun _ _ => AList.lookup_empty _
  present := fun _ _ h => by cases h
  keys := fun k stored h => by
    rw [AList.lookup_empty] at h
    cases h

theorem Holds.insert (h : Holds C indexKey db m) (sound : C.Sound) (range : e.InRange)
    (sealed_ : sealEntry C indexKey e nonce = .ok stored) :
    Holds C indexKey (db.insert (opaqueKey C indexKey e.relPath) stored)
      (Function.update m e.relPath (some e)) where
  absent p none_ := by
    by_cases same : p = e.relPath
    · rw [same, Function.update_self] at none_
      cases none_
    · rw [Function.update_of_ne same] at none_
      rw [AList.lookup_insert_ne fun eq => same (opaqueKey_injective sound eq)]
      exact h.absent p none_
  present p e' some_ := by
    by_cases same : p = e.relPath
    · rw [same, Function.update_self] at some_
      obtain rfl := Option.some.inj some_
      exact ⟨same.symm, range, nonce, stored, sealed_, by rw [same, AList.lookup_insert]⟩
    · rw [Function.update_of_ne same] at some_
      rw [AList.lookup_insert_ne fun eq => same (opaqueKey_injective sound eq)]
      exact h.present p e' some_
  keys k stored' held := by
    by_cases same : k = opaqueKey C indexKey e.relPath
    · exact ⟨e.relPath, e, Function.update_self .., same⟩
    · rw [AList.lookup_insert_ne same] at held
      obtain ⟨p, e', some_, rfl⟩ := h.keys k stored' held
      refine ⟨p, e', ?_, rfl⟩
      rw [Function.update_of_ne (ne_of_apply_ne _ same)]
      exact some_

theorem Holds.erase (h : Holds C indexKey db m) (sound : C.Sound) (p : String) :
    Holds C indexKey (db.erase (opaqueKey C indexKey p)) (Function.update m p none) where
  absent q none_ := by
    by_cases same : q = p
    · rw [same, AList.lookup_erase]
    · rw [Function.update_of_ne same] at none_
      rw [AList.lookup_erase_ne fun eq => same (opaqueKey_injective sound eq)]
      exact h.absent q none_
  present q e some_ := by
    by_cases same : q = p
    · rw [same, Function.update_self] at some_
      cases some_
    · rw [Function.update_of_ne same] at some_
      rw [AList.lookup_erase_ne fun eq => same (opaqueKey_injective sound eq)]
      exact h.present q e some_
  keys k stored held := by
    by_cases same : k = opaqueKey C indexKey p
    · rw [same, AList.lookup_erase] at held
      cases held
    · rw [AList.lookup_erase_ne same] at held
      obtain ⟨q, e, some_, rfl⟩ := h.keys k stored held
      refine ⟨q, e, ?_, rfl⟩
      rw [Function.update_of_ne (ne_of_apply_ne _ same)]
      exact some_

/-- An update keeps to what it does to the entries. -/
theorem Holds.step {s : ShareIndex K} (sound : C.Sound) (same : s.indexKey = indexKey)
    (h : Holds C indexKey s.db m) (op : Op) (range : ∀ e nonce, op = .put e nonce → e.InRange) :
    (s.step C op).indexKey = indexKey ∧
      Holds C indexKey (s.step C op).db (keep C indexKey m op) := by
  subst same
  cases op with
  | put e nonce =>
    simp only [ShareIndex.step, ShareIndex.put, keep]
    cases sealed_ : sealEntry C s.indexKey e nonce with
    | error _ => exact ⟨rfl, h⟩
    | ok stored => exact ⟨rfl, h.insert sound (range e nonce rfl) sealed_⟩
  | remove p => exact ⟨rfl, h.erase sound p⟩
  | clear => exact ⟨rfl, holds_empty⟩

/-- After any updates an index holds the entries they keep. -/
theorem run_holds (sound : C.Sound) (indexKey : Octets) (range : InRange ops) :
    ((ShareIndex.empty indexKey).run C ops).indexKey = indexKey ∧
      Holds C indexKey ((ShareIndex.empty indexKey).run C ops).db (kept C indexKey ops) := by
  induction ops using List.reverseRecOn with
  | nil => exact ⟨rfl, holds_empty⟩
  | append_singleton before op ih =>
    obtain ⟨same, holds⟩ := ih fun e nonce mem => range e nonce (List.mem_append_left _ mem)
    unfold ShareIndex.run at same holds ⊢
    unfold kept at holds ⊢
    rw [List.foldl_append, List.foldl_append]
    exact holds.step sound same op fun e nonce put => range e nonce (by simp [put])

/-! ## What is read back -/

/-- The entry of a path is read back exactly where it fits. -/
theorem Holds.get (h : Holds C indexKey db m) (sound : C.Sound) (p : String) :
    (ShareIndex.mk db indexKey).get C p = .ok (m p) ↔ ∀ e ∈ m p, Fits e := by
  unfold ShareIndex.get
  dsimp only
  cases found : m p with
  | none =>
    rw [h.absent p found]
    exact iff_of_true rfl fun _ mem => by cases mem
  | some e =>
    obtain ⟨-, range, nonce, stored, sealed_, held⟩ := h.present p e found
    rw [held]
    dsimp only
    rw [openValue_sealed sound range sealed_]
    by_cases fits : Fits e <;> simp [fits, Except.map]

/-- The entries are read back, each once, exactly where all of them fit. -/
theorem Holds.entries (h : Holds C indexKey db m) (sound : C.Sound) :
    (∃ l, (ShareIndex.mk db indexKey).entries C = .ok l ∧ (l.map ShareEntry.relPath).Nodup ∧
      ∀ e, e ∈ l ↔ m e.relPath = some e) ↔ ∀ p, ∀ e ∈ m p, Fits e := by
  have row : ∀ r ∈ db.entries, ∃ e, m e.relPath = some e ∧ r.1 = opaqueKey C indexKey e.relPath ∧
      openValue C indexKey r.2 = if Fits e then .ok e else .error .corrupt := by
    intro r mem
    have held : db.lookup r.1 = some r.2 := AList.mem_lookup_iff.2 mem
    obtain ⟨p, e, kept, key⟩ := h.keys r.1 r.2 held
    obtain ⟨rfl, range, nonce, stored, sealed_, held'⟩ := h.present p e kept
    obtain rfl : stored = r.2 := Option.some.inj (held'.symm.trans (key ▸ held))
    exact ⟨e, kept, key, openValue_sealed sound range sealed_⟩
  have rowOf : ∀ p e, m p = some e → ∃ r ∈ db.entries, r.1 = opaqueKey C indexKey p := by
    intro p e kept
    obtain ⟨-, -, nonce, stored, -, held⟩ := h.present p e kept
    exact ⟨⟨_, stored⟩, AList.mem_lookup_iff.1 held, rfl⟩
  constructor
  · rintro ⟨l, read, -, all⟩ p e kept
    obtain ⟨r, mem, key⟩ := rowOf p e kept
    obtain ⟨e', kept', key', opened⟩ := row r mem
    obtain rfl : p = e'.relPath := opaqueKey_injective sound (key.symm.trans key')
    obtain rfl : e' = e := Option.some.inj (kept'.symm.trans kept)
    by_contra long
    rw [if_neg long] at opened
    obtain ⟨b, ok⟩ := Lib.Results.mapM_total.1 ⟨l, read⟩ r.2 (List.mem_map_of_mem mem)
    cases opened.symm.trans ok
  · intro fits
    have each : ∀ r ∈ db.entries, ∃ e, m e.relPath = some e ∧
        r.1 = opaqueKey C indexKey e.relPath ∧ openValue C indexKey r.2 = .ok e := by
      intro r mem
      obtain ⟨e, kept, key, opened⟩ := row r mem
      exact ⟨e, kept, key, by rw [opened, if_pos (fits _ e kept)]⟩
    obtain ⟨l, read⟩ := Lib.Results.mapM_total.2 fun stored mem => by
      obtain ⟨r, held, rfl⟩ := List.mem_map.1 mem
      obtain ⟨e, -, -, opened⟩ := each r held
      exact ⟨e, opened⟩
    have pairs := (List.forall₂_and_left _ _).2
      ⟨each, List.forall₂_map_left_iff.1 (Lib.Results.mapM_ok.1 read)⟩
    have same : ∀ (r : Sigma fun _ : K => Octets) (e : ShareEntry),
        (∃ e, m e.relPath = some e ∧ r.1 = opaqueKey C indexKey e.relPath ∧
          openValue C indexKey r.2 = .ok e) ∧ openValue C indexKey r.2 = .ok e →
        r.1 = opaqueKey C indexKey e.relPath ∧ m e.relPath = some e := by
      rintro r e ⟨⟨e', kept, key, opened⟩, read⟩
      obtain rfl : e' = e := Except.ok.inj (opened.symm.trans read)
      exact ⟨key, kept⟩
    have keys : db.entries.map Sigma.fst = l.map fun e => opaqueKey C indexKey e.relPath := by
      rw [← List.forall₂_eq_eq_eq]
      exact List.forall₂_map_left_iff.2 (List.forall₂_map_right_iff.2
        (pairs.imp fun r e both => (same r e both).1))
    refine ⟨l, read, ?_, fun e => ⟨fun mem => ?_, fun kept => ?_⟩⟩
    · have distinct : ((l.map ShareEntry.relPath).map (opaqueKey C indexKey)).Nodup := by
        rw [List.map_map]
        exact keys ▸ db.nodupKeys
      exact distinct.of_map
    · obtain ⟨stored, mem', opened⟩ := Lib.Results.mapM_from read mem
      obtain ⟨r, held, rfl⟩ := List.mem_map.1 mem'
      exact (same r e ⟨each r held, opened⟩).2
    · obtain ⟨r, held, key⟩ := rowOf e.relPath e kept
      have mem : opaqueKey C indexKey e.relPath ∈ db.entries.map Sigma.fst :=
        key ▸ List.mem_map_of_mem held
      rw [keys] at mem
      obtain ⟨e', mem', key'⟩ := List.mem_map.1 mem
      obtain ⟨stored, mem'', opened⟩ := Lib.Results.mapM_from read mem'
      obtain ⟨r', held', rfl⟩ := List.mem_map.1 mem''
      have kept' := (same r' e' ⟨each r' held', opened⟩).2
      rw [opaqueKey_injective sound key', kept] at kept'
      exact Option.some.inj kept' ▸ mem'

/-! ## Rows put together by another hand -/

omit [DecidableEq K] in
theorem mem_written : (e, stored) ∈ written C indexKey ops ↔
    ∃ nonce, Op.put e nonce ∈ ops ∧ sealEntry C indexKey e nonce = .ok stored := by
  unfold written
  rw [List.mem_filterMap]
  constructor
  · rintro ⟨op, mem, row⟩
    cases op with
    | put e' nonce =>
      unfold Op.row at row
      cases sealed_ : sealEntry C indexKey e' nonce with
      | error _ => simp [sealed_, Except.toOption] at row
      | ok stored' =>
        obtain ⟨rfl, rfl⟩ : e' = e ∧ stored' = stored := by
          simpa [sealed_, Except.toOption] using row
        exact ⟨nonce, mem, sealed_⟩
    | remove _ => cases row
    | clear => cases row
  · rintro ⟨nonce, mem, sealed_⟩
    exact ⟨_, mem, by simp [Op.row, sealed_, Except.toOption]⟩

variable (C) in
/-- What the path is answered with is an error, nothing, or an entry that was once put for it. -/
def Honest (indexKey : Octets) (ops : List Op) (db : Map K Octets) (p : String) : Prop :=
  ∀ e, (ShareIndex.mk db indexKey).get C p = .ok (some e) →
    e.relPath = p ∧ ∃ stored, (e, stored) ∈ written C indexKey ops

variable (C) in
/-- The row under the key of the path is one that was written for an entry of another path. -/
def Swapped (indexKey : Octets) (ops : List Op) (db : Map K Octets) (p : String) : Prop :=
  ∃ e stored, (e, stored) ∈ written C indexKey ops ∧
    db.lookup (opaqueKey C indexKey p) = some stored ∧ e.relPath ≠ p ∧ Fits e

theorem honest_iff (sound : C.Sound) (range : InRange ops) (assembled : Assembled C indexKey ops db)
    (p : String) : Honest C indexKey ops db p ↔ ¬Swapped C indexKey ops db p := by
  constructor
  · rintro honest ⟨e, stored, wrote, held, other, fits⟩
    obtain ⟨nonce, put, sealed_⟩ := mem_written.1 wrote
    refine other (honest e ?_).1
    simp only [ShareIndex.get, held, openValue_sealed sound (range e nonce put) sealed_, fits,
      if_true, Except.map]
  · intro inPlace e read
    unfold ShareIndex.get at read
    dsimp only at read
    cases held : db.lookup (opaqueKey C indexKey p) with
    | none =>
      rw [held] at read
      cases read
    | some stored =>
      rw [held] at read
      dsimp only at read
      cases opened : openValue C indexKey stored with
      | error _ =>
        rw [opened] at read
        cases read
      | ok e' =>
        rw [opened] at read
        obtain rfl : e' = e := Option.some.inj (Except.ok.inj read)
        rcases assembled _ _ held with mem | none_
        · obtain ⟨⟨e'', _⟩, wrote, rfl⟩ := List.mem_map.1 mem
          obtain ⟨nonce, put, sealed_⟩ := mem_written.1 wrote
          rw [openValue_sealed sound (range e'' nonce put) sealed_] at opened
          split at opened
          next fits =>
            obtain rfl := Except.ok.inj opened
            exact ⟨by_contra fun other => inPlace ⟨_, _, wrote, held, other, fits⟩, _, wrote⟩
          · cases opened
        · exact absurd none_ (openValue_ok opened)

/-- After any updates, the entry of a path is read back, and the entries each
once, exactly where the lengths of those kept fit; and in any table put together
from the rows, a path is answered honestly exactly where its row is not that of
another path. -/
theorem index_rows (sound : C.Sound) (indexKey : Octets) (range : InRange ops) :
    (∀ p, ((ShareIndex.empty indexKey).run C ops).get C p = .ok (kept C indexKey ops p) ↔
      ∀ e ∈ kept C indexKey ops p, Fits e) ∧
    ((∃ l, ((ShareIndex.empty indexKey).run C ops).entries C = .ok l ∧
      (l.map ShareEntry.relPath).Nodup ∧
        ∀ e, e ∈ l ↔ kept C indexKey ops e.relPath = some e) ↔
      ∀ p, ∀ e ∈ kept C indexKey ops p, Fits e) ∧
    ∀ db, Assembled C indexKey ops db →
      ∀ p, Honest C indexKey ops db p ↔ ¬Swapped C indexKey ops db p := by
  obtain ⟨same, holds⟩ := run_holds sound indexKey range
  generalize (ShareIndex.empty indexKey).run C ops = index at same holds ⊢
  obtain ⟨db, key⟩ := index
  obtain rfl : key = indexKey := same
  exact ⟨holds.get sound, holds.entries sound, fun _ assembled => honest_iff sound range assembled⟩

end

/-- A cipher that hides nothing and tags with zeros, and a digest that is its input. -/
def plainCrypto : Crypto Octets where
  digest := id
  gcmEncrypt _ _ _ plaintext := some (plaintext, List.replicate tagLen 0)
  gcmDecrypt _ _ _ ciphertext tag := if tag = List.replicate tagLen 0 then some ciphertext else none

theorem plainCrypto_sound : plainCrypto.Sound where
  digest := Function.injective_id
  sizes := by
    intro key nonce aad plaintext ciphertext tag made
    obtain ⟨rfl, rfl⟩ := Prod.mk.inj (Option.some.inj made)
    exact ⟨rfl, rfl⟩
  opens := by
    intro key nonce aad plaintext ciphertext tag made
    obtain ⟨rfl, rfl⟩ := Prod.mk.inj (Option.some.inj made)
    show (if List.replicate tagLen 0 = List.replicate tagLen 0 then _ else none) = _
    exact if_pos rfl

def zeroNonce : Field nonceLen := ⟨List.replicate nonceLen 0, rfl⟩

/-- A file that has not been hashed. -/
def unhashed (relPath : String) : ShareEntry := ⟨relPath, 1, 0, none⟩

theorem unhashed_fits {p : String} (short : p.utf8ByteSize < 2 ^ 16) : Fits (unhashed p) := by
  unfold Fits encodeEntry ShareEntry.head ShareEntry.tail
  simp only [List.length_append, le_length, unhashed, utf8_length, Option.elim_none,
    List.length_nil]
  omega

def twoPuts : List Op :=
  [.put (unhashed "a") (some zeroNonce), .put (unhashed "b") (some zeroNonce)]

theorem twoPuts_inRange : InRange twoPuts := by
  intro e nonce mem
  obtain ⟨p, short, rfl⟩ : ∃ p, p.utf8ByteSize < 2 ^ 16 ∧ e = unhashed p := by
    simp only [twoPuts, List.mem_cons, List.not_mem_nil, Op.put.injEq, or_false] at mem
    rcases mem with ⟨rfl, -⟩ | ⟨rfl, -⟩
    · exact ⟨"a", by decide, rfl⟩
    · exact ⟨"b", by decide, rfl⟩
  exact ⟨by rwa [← utf8_length] at short, fun addrs held => by cases held⟩

theorem index_rows_two : ((ShareIndex.empty []).run plainCrypto twoPuts).get plainCrypto "a" =
    .ok (kept plainCrypto [] twoPuts "a") := by
  refine ((index_rows plainCrypto_sound [] twoPuts_inRange).1 "a").2 fun e held => ?_
  obtain rfl : unhashed "a" = e := by
    simpa [kept, twoPuts, keep, sealEntry, plainCrypto, zeroNonce, unhashed, Except.toBool] using held
  exact unhashed_fits (by decide)

/-- The row of one path under the key of another is read as that other's entry. -/
theorem swapped_row_read : ∃ db, Assembled plainCrypto [] twoPuts db ∧
    (ShareIndex.mk db []).get plainCrypto "a" = .ok (some (unhashed "b")) ∧
      ¬Honest plainCrypto [] twoPuts db "a" := by
  obtain ⟨stored, sealed_⟩ : ∃ stored,
      sealEntry plainCrypto [] (unhashed "b") (some zeroNonce) = .ok stored := ⟨_, rfl⟩
  have put : Op.put (unhashed "b") (some zeroNonce) ∈ twoPuts := by simp [twoPuts]
  have opened : openValue plainCrypto [] stored = .ok (unhashed "b") := by
    rw [openValue_sealed plainCrypto_sound (twoPuts_inRange _ _ put) sealed_]
    exact if_pos (unhashed_fits (by decide))
  have read : (ShareIndex.mk (AList.insert (opaqueKey plainCrypto [] "a") stored ∅) []).get
      plainCrypto "a" = .ok (some (unhashed "b")) := by
    simp only [ShareIndex.get, AList.lookup_insert, opened, Except.map]
  refine ⟨_, fun k stored' mem => .inl ?_, read, fun honest => ?_⟩
  · have wrote : (unhashed "b", stored) ∈ written plainCrypto [] twoPuts :=
      mem_written.2 ⟨_, put, sealed_⟩
    by_cases same : k = opaqueKey plainCrypto [] "a"
    · rw [same, AList.lookup_insert] at mem
      exact Option.some.inj mem ▸ List.mem_map_of_mem wrote
    · rw [AList.lookup_insert_ne same, AList.lookup_empty] at mem
      cases mem
  · exact absurd (honest _ read).1 (by decide)

end Daemonseed.Storage.IndexRows
