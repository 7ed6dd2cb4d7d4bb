import Daemonseed.Lib.Bytes

/-! # The frames a share is fetched in

A request or an answer as bytes, and the seal over them. The AEAD is a
parameter: the room's key and the content frames' additional data are fixed. -/
namespace Daemonseed.Net.ShareFrames
open Daemonseed.Lib.Bytes

def chunkAddrLen : Nat := 48

def chunkSize : Nat := 1024 * 1024

/-- The largest manifest frame a publisher puts on the wire. -/
def manifestFrameBudget : Nat := 3500000

/-- The content address of a chunk. -/
abbrev ChunkAddr := { bytes : Octets // bytes.length = chunkAddrLen }

/-- One file of a share. -/
structure ManifestEntry where
  relPath : String
  size : Fin (2 ^ 64)
  chunks : List ChunkAddr
  deriving DecidableEq

inductive ShareFrame
  | manifestRequest
  | manifestResponse (entries : List ManifestEntry)
  | chunkRequest (chunkAddr : ChunkAddr)
  | chunkResponse (chunkAddr : ChunkAddr) (data : Octets)
  deriving DecidableEq

inductive DecodeError
  | unknownKind (kind : UInt8)
  | truncated
  | badUtf8
  deriving DecidableEq

def DecodeError.text : DecodeError → String
  | .unknownKind kind => "unknown ShareFrame kind: 0x" ++ String.ofList (Nat.toDigits 16 kind.toNat)
  | .truncated => "ShareFrame truncated"
  | .badUtf8 => "ShareFrame manifest entry rel_path not UTF-8"

def kindManifestRequest : UInt8 := 0x00

def kindManifestResponse : UInt8 := 0x01

def kindChunkRequest : UInt8 := 0x02

def kindChunkResponse : UInt8 := 0x03

/-! ## Encoding -/

/-- A path's UTF-8. -/
def pathBytes (path : String) : Octets := path.toByteArray.data.toList

def ManifestEntry.encode (e : ManifestEntry) : Octets :=
  toBe 2 (pathBytes e.relPath).length ++ (pathBytes e.relPath ++ (toBe 8 e.size.val ++
    (toBe 4 e.chunks.length ++ e.chunks.flatMap (·.val))))

def ShareFrame.encode : ShareFrame → Octets
  | .manifestRequest => [kindManifestRequest]
  | .manifestResponse entries =>
    kindManifestResponse :: (toBe 4 entries.length ++ entries.flatMap ManifestEntry.encode)
  | .chunkRequest addr => kindChunkRequest :: addr.val
  | .chunkResponse addr data => kindChunkResponse :: (addr.val ++ data)

/-- What the frame of a manifest weighs, without building it. -/
def manifestFrameLen (entries : List ManifestEntry) : Nat :=
  1 + 4 + (entries.map fun e =>
    2 + (pathBytes e.relPath).length + 8 + 4 + e.chunks.length * chunkAddrLen).sum

/-! ## Decoding -/

def readSlice (n : Nat) (buf : Octets) : Except DecodeError (Octets × Octets) :=
  match takeFront n buf with
  | some split => .ok split
  | none => .error .truncated

def readBe (width : Nat) (buf : Octets) : Except DecodeError (Nat × Octets) := do
  let (field, rest) ← readSlice width buf
  return (fromBe field, rest)

def readAddr (buf : Octets) : Except DecodeError (ChunkAddr × Octets) := do
  let (bytes, rest) ← readSlice chunkAddrLen buf
  if h : bytes.length = chunkAddrLen then .ok (⟨bytes, h⟩, rest) else .error .truncated

def readChunks : Nat → Octets → Except DecodeError (List ChunkAddr × Octets)
  | 0, buf => .ok ([], buf)
  | count + 1, buf => do
    let (addr, rest) ← readAddr buf
    let (addrs, rest) ← readChunks count rest
    return (addr :: addrs, rest)

def readPath (bytes : Octets) : Except DecodeError String :=
  match String.fromUTF8? ⟨bytes.toArray⟩ with
  | some path => .ok path
  | none => .error .badUtf8

def readEntry (buf : Octets) : Except DecodeError (ManifestEntry × Octets) := do
  let (pathLen, rest) ← readBe 2 buf
  let (bytes, rest) ← readSlice pathLen rest
  let path ← readPath bytes
  let (size, rest) ← readBe 8 rest
  let (count, rest) ← readBe 4 rest
  let (chunks, rest) ← readChunks count rest
  return (⟨path, Fin.ofNat _ size, chunks⟩, rest)

def readEntries : Nat → Octets → Except DecodeError (List ManifestEntry × Octets)
  | 0, buf => .ok ([], buf)
  | count + 1, buf => do
    let (entry, rest) ← readEntry buf
    let (entries, rest) ← readEntries count rest
    return (entry :: entries, rest)

def ShareFrame.decode : Octets → Except DecodeError ShareFrame
  | [] => .error .truncated
  | kind :: rest =>
    if kind = kindManifestRequest then .ok .manifestRequest
    else if kind = kindManifestResponse then do
      let (count, rest) ← readBe 4 rest
      let (entries, _) ← readEntries count rest
      return .manifestResponse entries
    else if kind = kindChunkRequest then do
      let (addr, _) ← readAddr rest
      return .chunkRequest addr
    else if kind = kindChunkResponse then do
      let (addr, data) ← readAddr rest
      return .chunkResponse addr data
    else .error (.unknownKind kind)

/-! ## Round trip -/

theorem readSlice_append (front rest : Octets) :
    readSlice front.length (front ++ rest) = .ok (front, rest) := by
  rw [readSlice, takeFront_append]

theorem readBe_toBe (width : Nat) {v : Nat} (h : v < 256 ^ width) (rest : Octets) :
    readBe width (toBe width v ++ rest) = .ok (v, rest) := by
  have slice := readSlice_append (toBe width v) rest
  rw [toBe_length] at slice
  rw [readBe, slice]
  change Except.ok (fromBe (toBe width v), rest) = _
  rw [fromBe_toBe, Nat.mod_eq_of_lt h]

theorem readAddr_append (addr : ChunkAddr) (rest : Octets) :
    readAddr (addr.val ++ rest) = .ok (addr, rest) := by
  have slice := readSlice_append addr.val rest
  rw [addr.property] at slice
  rw [readAddr, slice]
  exact dif_pos addr.property

theorem readChunks_append (addrs : List ChunkAddr) (rest : Octets) :
    readChunks addrs.length (addrs.flatMap (·.val) ++ rest) = .ok (addrs, rest) := by
  induction addrs with
  | nil => rfl
  | cons addr addrs ih =>
    rw [List.flatMap_cons, List.append_assoc, List.length_cons, readChunks, readAddr_append]
    change (readChunks addrs.length _ >>= _) = _
    rw [ih]
    rfl

theorem readPath_pathBytes (path : String) : readPath (pathBytes path) = .ok path := by
  have valid : String.fromUTF8? ⟨(pathBytes path).toArray⟩ = some path := by
    simp only [pathBytes, Array.toArray_toList]
    exact dif_pos path.isValidUTF8
  rw [readPath, valid]

/-- A path's length is written in two bytes, and a count of chunks in four. -/
structure ManifestEntry.Fits (e : ManifestEntry) : Prop where
  path : (pathBytes e.relPath).length < 2 ^ 16
  chunks : e.chunks.length < 2 ^ 32

theorem readEntry_append {e : ManifestEntry} (fits : e.Fits) (rest : Octets) :
    readEntry (e.encode ++ rest) = .ok (e, rest) := by
  have size : Fin.ofNat (2 ^ 64) e.size.val = e.size := Fin.ext (Nat.mod_eq_of_lt e.size.isLt)
  have eight : e.size.val < 256 ^ 8 := e.size.isLt
  simp only [ManifestEntry.encode, List.append_assoc, readEntry, bind, Except.bind, pure,
    Except.pure, readBe_toBe 2 (by simpa using fits.path), readSlice_append,
    readPath_pathBytes, readBe_toBe 8 eight,
    readBe_toBe 4 (by simpa using fits.chunks), readChunks_append, size]

theorem readEntries_append {entries : List ManifestEntry} (fits : ∀ e ∈ entries, e.Fits)
    (rest : Octets) :
    readEntries entries.length (entries.flatMap ManifestEntry.encode ++ rest) =
      .ok (entries, rest) := by
  induction entries with
  | nil => rfl
  | cons e entries ih =>
    rw [List.flatMap_cons, List.append_assoc, List.length_cons, readEntries,
      readEntry_append (fits e List.mem_cons_self)]
    change (readEntries entries.length _ >>= _) = _
    rw [ih fun e he => fits e (List.mem_cons_of_mem _ he)]
    rfl

/-- A frame whose counts and lengths are in range for their fields. -/
def ShareFrame.Fits : ShareFrame → Prop
  | .manifestResponse entries => entries.length < 2 ^ 32 ∧ ∀ e ∈ entries, e.Fits
  | _ => True

theorem ShareFrame.decode_encode {frame : ShareFrame} (fits : frame.Fits) :
    decode frame.encode = .ok frame := by
  cases frame with
  | manifestRequest => rfl
  | manifestResponse entries =>
    obtain ⟨count, fits⟩ := fits
    change (readBe 4 (toBe 4 entries.length ++ _) >>= _) = _
    rw [readBe_toBe 4 (by simpa using count)]
    change (readEntries entries.length _ >>= _) = _
    rw [← List.append_nil (entries.flatMap ManifestEntry.encode), readEntries_append fits]
    rfl
  | chunkRequest addr =>
    change (readAddr addr.val >>= _) = _
    rw [← List.append_nil addr.val, readAddr_append]
    rfl
  | chunkResponse addr data =>
    change (readAddr (addr.val ++ data) >>= _) = _
    rw [readAddr_append]
    rfl

theorem ManifestEntry.encode_length (e : ManifestEntry) :
    e.encode.length = 2 + (pathBytes e.relPath).length + 8 + 4 + e.chunks.length * chunkAddrLen := by
  have chunks : (e.chunks.flatMap (·.val)).length = e.chunks.length * chunkAddrLen := by
    induction e.chunks with
    | nil => simp
    | cons addr addrs ih =>
      rw [List.flatMap_cons, List.length_append, ih, addr.property, List.length_cons,
        Nat.succ_mul, Nat.add_comm]
  simp only [encode, List.length_append, toBe_length, chunks]
  omega

/-- The publisher's arithmetic weighs the frame that is sent. -/
theorem manifestFrameLen_eq (entries : List ManifestEntry) :
    (ShareFrame.manifestResponse entries).encode.length = manifestFrameLen entries := by
  have body : (entries.flatMap ManifestEntry.encode).length = (entries.map fun e =>
      2 + (pathBytes e.relPath).length + 8 + 4 + e.chunks.length * chunkAddrLen).sum := by
    rw [List.length_flatMap]
    simp only [ManifestEntry.encode_length]
  simp only [ShareFrame.encode, List.length_cons, List.length_append, toBe_length, body,
    manifestFrameLen]
  omega

/-! ## The seal -/

def nonceLen : Nat := 12

def tagLen : Nat := 16

abbrev Nonce := { bytes : Octets // bytes.length = nonceLen }

/-- AES-256-GCM under one key, with one additional datum. -/
structure Gcm where
  encrypt : Octets → Octets → Octets × Octets
  decrypt : Octets → Octets → Octets → Option Octets

/-- What is sealed opens, and the seal adds a tag alone. -/
structure Gcm.Genuine (gcm : Gcm) : Prop where
  ciphertext : ∀ nonce plain, (gcm.encrypt nonce plain).1.length = plain.length
  tag : ∀ nonce plain, (gcm.encrypt nonce plain).2.length = tagLen
  opens : ∀ nonce plain,
    gcm.decrypt nonce (gcm.encrypt nonce plain).1 (gcm.encrypt nonce plain).2 = some plain

inductive ShareSealError
  | authentication
  | truncated
  | decode (e : DecodeError)
  deriving DecidableEq

def ShareSealError.text : ShareSealError → String
  | .authentication => "share-frame authentication failed"
  | .truncated => "share-frame envelope is truncated"
  | .decode e => "share-frame decode failed: " ++ e.text

def sealPublicShareFrame (gcm : Gcm) (nonce : Nonce) (frame : ShareFrame) : Octets :=
  nonce.val ++ ((gcm.encrypt nonce.val frame.encode).1 ++ (gcm.encrypt nonce.val frame.encode).2)

def openShareFrame (gcm : Gcm) (blob : Octets) : Except ShareSealError ShareFrame :=
  if blob.length < nonceLen + tagLen then .error .truncated
  else
    let afterNonce := blob.drop nonceLen
    let ciphertextLen := afterNonce.length - tagLen
    match gcm.decrypt (blob.take nonceLen) (afterNonce.take ciphertextLen)
        (afterNonce.drop ciphertextLen) with
    | none => .error .authentication
    | some plain => (ShareFrame.decode plain).mapError .decode

variable {gcm : Gcm} {nonce : Nonce} {frame : ShareFrame}

theorem sealed_length (genuine : gcm.Genuine) :
    (sealPublicShareFrame gcm nonce frame).length = frame.encode.length + (nonceLen + tagLen) := by
  simp only [sealPublicShareFrame, List.length_append, nonce.property, genuine.ciphertext,
    genuine.tag]
  omega

/-- What opens of a blob cut where the seal joined it. -/
theorem open_joined {ct tag : Octets} (htag : tag.length = tagLen) :
    openShareFrame gcm (nonce.val ++ (ct ++ tag)) =
      match gcm.decrypt nonce.val ct tag with
      | none => .error .authentication
      | some plain => (ShareFrame.decode plain).mapError .decode := by
  have front : (nonce.val ++ (ct ++ tag)).take nonceLen = nonce.val :=
    List.take_left' nonce.property
  have back : (nonce.val ++ (ct ++ tag)).drop nonceLen = ct ++ tag :=
    List.drop_left' nonce.property
  have cut : (ct ++ tag).length - tagLen = ct.length := by
    rw [List.length_append, htag, Nat.add_sub_cancel]
  unfold openShareFrame
  rw [if_neg (by simp only [List.length_append, nonce.property, htag]; omega)]
  simp only [front, back, cut, List.take_left, List.drop_left]

theorem open_sealed (genuine : gcm.Genuine) (fits : frame.Fits) :
    openShareFrame gcm (sealPublicShareFrame gcm nonce frame) = .ok frame := by
  rw [sealPublicShareFrame, open_joined (genuine.tag _ _), genuine.opens]
  change (ShareFrame.decode frame.encode).mapError _ = _
  rw [ShareFrame.decode_encode fits]
  rfl

end Daemonseed.Net.ShareFrames
