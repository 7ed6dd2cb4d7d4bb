import Daemonseed.Lib.Lru
import Daemonseed.Net.ShareFrames

/-! # A share served and fetched in fragments

The sharer seals each answer once, keeps the blobs of the targets asked for
last, and cuts fragments from them; the fetcher joins the fragments of one
target, opens the blob and verifies what it holds. The hash of a chunk is a
parameter, which may refuse. -/
namespace Daemonseed.Net.ShareServe
open Daemonseed.Lib.Bytes Daemonseed.Lib.Lru Daemonseed.Net.ShareFrames

def fragmentSize : Nat := 30 * 1024

/-- The largest legitimate reassembled response. -/
def maxReassembledLen : Nat := manifestFrameBudget + 64 * 1024

/-- `usize::div_ceil`. -/
def divCeil (n d : Nat) : Nat := (n + d - 1) / d

def maxFragments : Nat := divCeil maxReassembledLen fragmentSize

/-- How often a fragment's call is made again. -/
def fragmentRetries : Nat := 3

def sealCacheCapacity : Nat := 16

/-! ## Errors -/

inductive VeilidNetError
  | startup (message : String)
  | namespaceInUse
  | attach (message : String)
  | notReady
  | routing (message : String)
  | send (message : String)
  | timedOut (message : String)
  | refusedLocally (message : String)
  | notServed
  | integrity (message : String)
  | identity (message : String)
  | actor (message : String)
  | unimplemented (surface : String)
  deriving DecidableEq

inductive FetchErrorClass
  | transient
  | integrity
  | notServed
  | localFault
  deriving DecidableEq

def VeilidNetError.fetchClass : VeilidNetError → FetchErrorClass
  | .integrity _ => .integrity
  | .notServed => .notServed
  | _ => .transient

def VeilidNetError.text : VeilidNetError → String
  | .startup message => "veilid startup failed: " ++ message
  | .namespaceInUse => "a Veilid node is still running in this namespace"
  | .attach message => "attachment error: " ++ message
  | .notReady => "node did not become public-internet-ready in time"
  | .routing message => "routing error: " ++ message
  | .send message => "send failed: " ++ message
  | .timedOut message => "timed out: " ++ message
  | .refusedLocally message => "refused locally: " ++ message
  | .notServed => "the peer no longer serves this share (withdrawn or never offered)"
  | .integrity message => "share content failed verification: " ++ message
  | .identity message => "invalid node identity: " ++ message
  | .actor message => "actor channel error: " ++ message
  | .unimplemented surface => "not yet implemented: " ++ surface

/-! ## Targets -/

/-- What a fetcher is pulling. -/
inductive FetchTarget
  | manifest
  | chunk (addr : ChunkAddr)
  deriving DecidableEq

/-- Two hexadecimal digits a byte. -/
def hex (bytes : Octets) : List Char :=
  bytes.flatMap fun b => [Nat.digitChar (b.toNat / 16), Nat.digitChar (b.toNat % 16)]

def FetchTarget.cacheKey : FetchTarget → String
  | .manifest => "manifest"
  | .chunk addr => String.ofList (hex addr.val)

def FetchTarget.shareFrame : FetchTarget → ShareFrame
  | .manifest => .manifestRequest
  | .chunk addr => .chunkRequest addr

/-! ## Replies -/

def respOk : UInt8 := 0x00

def respNotFound : UInt8 := 0x01

def encodeResponseOk (total : Nat) (fragment : Octets) : Octets :=
  respOk :: (toBe 4 total ++ fragment)

def encodeResponseNotFound : Octets := [respNotFound]

def malformedResponse : VeilidNetError := .integrity "malformed share fetch response"

/-- The number of fragments and this one's bytes, or that there is no such
target. -/
def decodeResponse : Octets → Except VeilidNetError (Option (Nat × Octets))
  | [] => .error malformedResponse
  | status :: rest =>
    if status = respNotFound then .ok none
    else if status = respOk then
      match takeFront 4 rest with
      | some (total, fragment) => .ok (some (fromBe total, fragment))
      | none => .error malformedResponse
    else .error malformedResponse

/-! ## The serving side -/

/-- Where a share's content comes from. -/
structure ChunkSource where
  manifest : List ManifestEntry
  chunk : ChunkAddr → Option Octets

def ChunkSource.answer (self : ChunkSource) : ShareFrame → Option ShareFrame
  | .manifestRequest => some (.manifestResponse self.manifest)
  | .chunkRequest addr => (self.chunk addr).map (.chunkResponse addr)
  | .manifestResponse _ | .chunkResponse _ _ => none

structure ServedShare where
  content : ChunkSource
  sealedBlobs : Recent String Octets

def ServedShare.new (content : ChunkSource) : ServedShare := ⟨content, .empty⟩

def fragmentCount (blob : Octets) : Nat := max (divCeil blob.length fragmentSize) 1

/-- The reply for one fragment of a sealed blob. -/
def fragmentReply (blob : Octets) (fragment : Nat) : Octets :=
  if blob.length ≤ fragment * fragmentSize then encodeResponseNotFound
  else encodeResponseOk (fragmentCount blob) (piece fragmentSize blob fragment)

/-- Seal the answer once, then cut the fragment out of the kept blob. `nonce` is
what a seal would draw. -/
def ServedShare.answerFragment (self : ServedShare) (gcm : Gcm) (nonce : Nonce)
    (target : FetchTarget) (fragment : Nat) : Octets × ServedShare :=
  let key := target.cacheKey
  let kept : Option (Recent String Octets) :=
    if (self.sealedBlobs.lookup key).isSome then some (self.sealedBlobs.touch key)
    else (self.content.answer target.shareFrame).map fun resp =>
      self.sealedBlobs.insert sealCacheCapacity key (sealPublicShareFrame gcm nonce resp)
  match kept with
  | none => (encodeResponseNotFound, self)
  | some kept => (fragmentReply ((kept.lookup key).getD []) fragment,
      { self with sealedBlobs := kept })

/-! ## The fetching side -/

def checkFragmentSize (fragment : Octets) : Except VeilidNetError Unit :=
  if fragmentSize < fragment.length then
    .error (.integrity s!"fragment is {fragment.length} bytes, over the {fragmentSize}-byte cap (malicious?)")
  else .ok ()

/-- What the first fragment's reply gives: how many there are, and its bytes. -/
def firstFragment (reply : Octets) : Except VeilidNetError (Nat × Octets) := do
  match ← decodeResponse reply with
  | none => .error .notServed
  | some (total, fragment) =>
    if maxFragments < total then
      .error (.integrity s!"sharer claims {total} fragments, over the {maxFragments} cap (malicious?)")
    else do
      checkFragmentSize fragment
      return (total, fragment)

/-- What a later fragment's reply gives. -/
def laterFragment (reply : Octets) : Except VeilidNetError Octets := do
  match ← decodeResponse reply with
  | none => .error (.send "fragment vanished mid-fetch")
  | some (_, fragment) => do
    checkFragmentSize fragment
    return fragment

def reassemble (first : Octets) (later : List Octets) : Except VeilidNetError Octets :=
  let buf := first ++ later.flatten
  if maxReassembledLen < buf.length then
    .error (.integrity "reassembled share response exceeds the size cap (malicious?)")
  else .ok buf

def openBlob (gcm : Gcm) (blob : Octets) : Except VeilidNetError ShareFrame :=
  (openShareFrame gcm blob).mapError fun e => .integrity e.text

def openManifestFrame (gcm : Gcm) (blob : Octets) : Except VeilidNetError (List ManifestEntry) := do
  match ← openBlob gcm blob with
  | .manifestResponse entries => .ok entries
  | _ => .error (.integrity "expected a ManifestResponse")

def openAndVerifyChunk (chunkAddr : Octets → Except String ChunkAddr) (gcm : Gcm)
    (want : ChunkAddr) (blob : Octets) : Except VeilidNetError Octets := do
  match ← openBlob gcm blob with
  | .chunkResponse got data =>
    if got ≠ want then .error (.integrity "chunk address mismatch in response")
    else do
      let derived ← (chunkAddr data).mapError .integrity
      if derived ≠ want then
        .error (.integrity "chunk failed SHA-384 content-address verification (ISC-S28)")
      else .ok data
  | _ => .error (.integrity "expected a ChunkResponse")

/-- What a fetch is for. -/
inductive Fetched
  | manifest (entries : List ManifestEntry)
  | chunk (data : Octets)
  deriving DecidableEq

/-- The end of `fetch_manifest_budgeted` and of `fetch_chunk_budgeted`. -/
def openFetched (chunkAddr : Octets → Except String ChunkAddr) (gcm : Gcm) (target : FetchTarget)
    (blob : Octets) : Except VeilidNetError Fetched :=
  match target with
  | .manifest => (openManifestFrame gcm blob).map .manifest
  | .chunk want => (openAndVerifyChunk chunkAddr gcm want blob).map .chunk

/-! ## Keys -/

theorem digitChar_inj {m n : Nat} (hm : m < 16) (hn : n < 16)
    (h : Nat.digitChar m = Nat.digitChar n) : m = n := by
  have all : ∀ i j : Fin 16, Nat.digitChar i = Nat.digitChar j → i = j := by decide
  exact Fin.val_eq_of_eq (all ⟨m, hm⟩ ⟨n, hn⟩ h)

theorem hex_inj {xs ys : Octets} (h : hex xs = hex ys) : xs = ys := by
  induction xs generalizing ys with
  | nil =>
    cases ys with
    | nil => rfl
    | cons y ys => simp [hex] at h
  | cons x xs ih =>
    cases ys with
    | nil => simp [hex] at h
    | cons y ys =>
      have hx := x.toNat_lt
      have hy := y.toNat_lt
      simp only [hex, List.flatMap_cons, List.cons_append, List.nil_append, List.cons.injEq] at h
      have high := digitChar_inj (by omega) (by omega) h.1
      have low := digitChar_inj (by omega) (by omega) h.2.1
      have same : x = y := UInt8.toNat_inj.1 (by omega)
      rw [same, ih h.2.2]

theorem hex_length (bytes : Octets) : (hex bytes).length = 2 * bytes.length := by
  induction bytes with
  | nil => rfl
  | cons b bytes ih =>
    rw [hex, List.flatMap_cons, List.length_append, ← hex, ih]
    simp only [List.length_cons, List.length_nil]
    omega

/-- Two targets never share a cache entry. -/
theorem cacheKey_inj {s t : FetchTarget} (h : s.cacheKey = t.cacheKey) : s = t := by
  have apart : ∀ addr : ChunkAddr, "manifest" ≠ String.ofList (hex addr.val) := fun addr e => by
    have := congrArg (·.toList.length) e
    simp only [String.toList_ofList, hex_length, addr.property] at this
    exact absurd this (by decide)
  cases s with
  | manifest =>
    cases t with
    | manifest => rfl
    | chunk addr => exact absurd h (apart addr)
  | chunk addr =>
    cases t with
    | manifest => exact absurd h.symm (apart addr)
    | chunk addr' =>
      rw [FetchTarget.chunk.injEq]
      exact Subtype.ext (hex_inj (String.ofList_injective h))

/-! ## One answer -/

section

variable {gcm : Gcm} {nonce : Nonce} {served : ServedShare} {target : FetchTarget} {fragment : Nat}
  {resp : ShareFrame}

/-- An answer is a use of the target's blob. -/
theorem answerFragment_some (answers : served.content.answer target.shareFrame = some resp) :
    served.answerFragment gcm nonce target fragment =
      (fragmentReply ((served.sealedBlobs.lookup target.cacheKey).getD
        (sealPublicShareFrame gcm nonce resp)) fragment,
      { served with
        sealedBlobs := served.sealedBlobs.use sealCacheCapacity target.cacheKey
          (sealPublicShareFrame gcm nonce resp) }) := by
  simp only [ServedShare.answerFragment, Recent.use, answers, Option.map_some]
  cases held : served.sealedBlobs.lookup target.cacheKey with
  | some blob => simp [Recent.lookup_touch, held]
  | none => simp

/-- What has no answer and no kept blob changes nothing. -/
theorem answerFragment_none (answers : served.content.answer target.shareFrame = none)
    (fresh : served.sealedBlobs.lookup target.cacheKey = none) :
    served.answerFragment gcm nonce target fragment = (encodeResponseNotFound, served) := by
  simp [ServedShare.answerFragment, answers, fresh]

end

/-! ## Fragments of one blob -/

theorem decodeResponse_ok {total : Nat} (h : total < 2 ^ 32) (fragment : Octets) :
    decodeResponse (encodeResponseOk total fragment) = .ok (some (total, fragment)) := by
  have split := takeFront_append (toBe 4 total) fragment
  rw [toBe_length] at split
  have value : fromBe (toBe 4 total) = total := by
    rw [fromBe_toBe, Nat.mod_eq_of_lt (by simpa using h)]
  change (match takeFront 4 (toBe 4 total ++ fragment) with
    | some (total, fragment) => Except.ok (some (fromBe total, fragment))
    | none => .error malformedResponse) = _
  rw [split]
  exact congrArg (fun n => Except.ok (some (n, fragment))) value

theorem divCeil_mul_ge (n : Nat) {d : Nat} (pos : 0 < d) : n ≤ divCeil n d * d := by
  have := Nat.lt_div_mul_add (a := n + d - 1) pos
  unfold divCeil
  omega

theorem lt_of_lt_divCeil {n d i : Nat} (h : i < divCeil n d) : i * d < n := by
  by_contra short
  have := Nat.div_mul_le_self (n + d - 1) d
  have := Nat.mul_le_mul_right d (Nat.succ_le_of_lt h)
  unfold divCeil at *
  rw [Nat.succ_mul] at this
  have pos : 0 < d := by
    by_contra zero
    simp [Nat.eq_zero_of_not_pos zero] at h
  omega

theorem divCeil_mono {m n d : Nat} (h : m ≤ n) : divCeil m d ≤ divCeil n d :=
  Nat.div_le_div_right (by omega)

theorem reassemble_short {first : Octets} {later : List Octets}
    (short : (first ++ later.flatten).length ≤ maxReassembledLen) :
    reassemble first later = .ok (first ++ later.flatten) :=
  if_neg (Nat.not_lt.2 short)

/-- What does not open is the sharer's fault. -/
theorem openFetched_unsealed {chunkAddr : Octets → Except String ChunkAddr} {gcm : Gcm}
    {target : FetchTarget} {blob : Octets} {e : ShareSealError}
    (unsealed : openShareFrame gcm blob = .error e) :
    openFetched chunkAddr gcm target blob = .error (.integrity e.text) := by
  have failed : openBlob gcm blob = .error (.integrity e.text) := by
    rw [openBlob, unsealed]
    rfl
  cases target with
  | manifest => rw [openFetched, openManifestFrame, failed]; rfl
  | chunk => rw [openFetched, openAndVerifyChunk, failed]; rfl

/-- A blob small enough to be reassembled. -/
structure Whole (blob : Octets) : Prop where
  pos : 0 < blob.length
  short : blob.length ≤ maxReassembledLen

variable {blob : Octets} {i : Nat}

theorem Whole.count (h : Whole blob) : fragmentCount blob = divCeil blob.length fragmentSize := by
  have : 1 * 1 ≤ divCeil blob.length fragmentSize := by
    rw [divCeil]
    exact (Nat.le_div_iff_mul_le (by decide)).2 (by have := h.pos; omega)
  exact Nat.max_eq_left this

theorem Whole.count_le (h : Whole blob) : fragmentCount blob ≤ maxFragments := by
  rw [h.count]
  exact divCeil_mono h.short

/-- Each fragment of a blob decodes to its piece. -/
theorem Whole.decodes (h : Whole blob) (inside : i < fragmentCount blob) :
    decodeResponse (fragmentReply blob i) =
      .ok (some (fragmentCount blob, piece fragmentSize blob i)) := by
  have within : i * fragmentSize < blob.length := lt_of_lt_divCeil (h.count ▸ inside)
  have few : fragmentCount blob < 2 ^ 32 :=
    Nat.lt_of_le_of_lt h.count_le (by decide)
  rw [fragmentReply, if_neg (Nat.not_le.2 within), decodeResponse_ok few]

theorem checkFragmentSize_piece : checkFragmentSize (piece fragmentSize blob i) = .ok () :=
  if_neg (Nat.not_lt.2 piece_length)

theorem Whole.first (h : Whole blob) :
    firstFragment (fragmentReply blob 0) = .ok (fragmentCount blob, piece fragmentSize blob 0) := by
  have inside : 0 < fragmentCount blob := by
    rw [fragmentCount]
    omega
  rw [firstFragment, h.decodes inside]
  change (if maxFragments < fragmentCount blob then _ else _) = _
  rw [if_neg (Nat.not_lt.2 h.count_le), checkFragmentSize_piece]
  rfl

theorem Whole.later (h : Whole blob) (inside : i < fragmentCount blob) :
    laterFragment (fragmentReply blob i) = .ok (piece fragmentSize blob i) := by
  rw [laterFragment, h.decodes inside]
  change (checkFragmentSize _ >>= _) = _
  rw [checkFragmentSize_piece]
  rfl

/-- The pieces of one blob in order are that blob. -/
theorem Whole.joined (h : Whole blob) :
    reassemble (piece fragmentSize blob 0)
      ((List.range' 1 (fragmentCount blob - 1)).map (piece fragmentSize blob)) = .ok blob := by
  have pos : 0 < fragmentCount blob := by
    rw [fragmentCount]
    omega
  have covers : blob.length ≤ fragmentCount blob * fragmentSize :=
    h.count ▸ divCeil_mul_ge _ (by decide)
  have all : piece fragmentSize blob 0 ++
      ((List.range' 1 (fragmentCount blob - 1)).map (piece fragmentSize blob)).flatten = blob := by
    have joined := pieces_join covers
    rw [show fragmentCount blob = fragmentCount blob - 1 + 1 by omega, List.range_eq_range',
      List.range'_succ, List.flatMap_cons] at joined
    rwa [← List.flatMap_def]
  rw [reassemble_short ((congrArg List.length all).trans_le h.short), all]

end Daemonseed.Net.ShareServe
