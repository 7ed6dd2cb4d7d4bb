import Daemonseed.Lib.Runs
import Daemonseed.Net.RouteBudget
import Daemonseed.Net.ShareServe

/-! # What fetching from an honest sharer gives

One share, served to any number of fetches at once, their calls in flight and
answered in any order, lost and made again. A fetch joins the fragments of one
seal as long as that seal is kept until its last fragment is answered. -/
namespace Daemonseed.Net.HonestSharer
open Daemonseed.Lib.Bytes Daemonseed.Lib.Lru Daemonseed.Lib.Runs Daemonseed.Net.RouteBudget
  Daemonseed.Net.ShareFrames Daemonseed.Net.ShareServe

/-! ## Fetches -/

/-- Where the calls for one fragment stand: to be made, with the sharer, with a
reply on its way, or over. -/
inductive Call
  | waiting (attempt : Nat)
  | asked (attempt : Nat)
  | replying (attempt : Nat) (reply : Octets)
  | ended (result : Except VeilidNetError Octets)

/-- Where a fetch stands: it asks for the first fragment, then for the others
together, then it is over. -/
inductive Fetch
  | first (target : FetchTarget) (call : Call)
  | later (target : FetchTarget) (total : Nat) (first : Octets) (calls : Nat → Call)
  | ended (target : FetchTarget) (result : Except VeilidNetError Fetched)

namespace Fetch

def target : Fetch → FetchTarget
  | .first target _ | .later target _ _ _ | .ended target _ => target

/-- The calls of a fragment that a fetch is still to make or makes now. -/
def call : Fetch → Nat → Option Call
  | .first _ call, 0 => some call
  | .later _ total _ calls, i => if 1 ≤ i ∧ i < total then some (calls i) else none
  | _, _ => none

def setCall : Fetch → Nat → Call → Fetch
  | .first target _, _, call => .first target call
  | .later target total head calls, i, call =>
    .later target total head (Function.update calls i call)
  | fetch, _, _ => fetch

/-- The stream polls a fragment once all but the few before it are over. -/
def Polls : Fetch → Nat → Prop
  | .later _ _ _ calls, i => ∀ k, 1 ≤ k → k + wCeil ≤ i → ∃ result, calls k = .ended result
  | _, _ => True

end Fetch

/-- The later fragments in order, up to the first that failed. -/
def collect (calls : Nat → Call) : List Nat → Option (Except VeilidNetError (List Octets))
  | [] => some (.ok [])
  | i :: rest =>
    match calls i with
    | .ended result =>
      match result >>= laterFragment with
      | .error e => some (.error e)
      | .ok fragment => (collect calls rest).map (·.map (fragment :: ·))
    | _ => none

/-! ## One share and its fetches -/

structure World (ι : Type) where
  served : ServedShare
  fetches : ι → Option Fetch

variable {ι : Type} [DecidableEq ι]

def World.start (share : ChunkSource) : World ι := ⟨.new share, fun _ => none⟩

def World.put (w : World ι) (j : ι) (fetch : Fetch) : World ι :=
  { w with fetches := Function.update w.fetches j (some fetch) }

theorem World.put_self {w : World ι} {j : ι} {fetch : Fetch} :
    (w.put j fetch).fetches j = some fetch := Function.update_self ..

inductive Act (ι : Type)
  | begins (j : ι) (target : FetchTarget)
  | calls (j : ι) (i : Nat)
  | answered (j : ι) (i : Nat) (nonce : Nonce)
  | delivered (j : ι) (i : Nat)
  | lost (j : ι) (i : Nat) (e : VeilidNetError)
  | learns (j : ι)
  | finishes (j : ι)
  | stray (target : FetchTarget) (i : Nat) (nonce : Nonce)

variable (chunkAddr : Octets → Except String ChunkAddr) (gcm : Gcm)

/-- What a fetch is after its first reply. -/
def learned (target : FetchTarget) (result : Except VeilidNetError Octets) : Fetch :=
  match result >>= firstFragment with
  | .ok (total, first) => .later target total first fun _ => .waiting 0
  | .error e => .ended target (.error e)

/-- What a fetch is after its last. -/
def finished (target : FetchTarget) (first : Octets) (result : Except VeilidNetError (List Octets)) :
    Fetch :=
  .ended target (result >>= reassemble first >>= openFetched chunkAddr gcm target)

/-- One move: a call reaches the sharer or does not, its reply arrives or does
not, and a call that fails is made again while there are attempts left. A stray
request is one no fetch waits for any more, or somebody else's. -/
inductive Steps (w : World ι) : Act ι → World ι → Prop
  | begins {j target} (fresh : w.fetches j = none) :
    Steps w (.begins j target) (w.put j (.first target (.waiting 0)))
  | calls {j fetch i attempt} (at_ : w.fetches j = some fetch)
    (call : fetch.call i = some (.waiting attempt)) (polls : fetch.Polls i) :
    Steps w (.calls j i) (w.put j (fetch.setCall i (.asked attempt)))
  | answered {j fetch i attempt nonce} (at_ : w.fetches j = some fetch)
    (call : fetch.call i = some (.asked attempt)) :
    Steps w (.answered j i nonce)
      (World.put { w with served := (w.served.answerFragment gcm nonce fetch.target i).2 } j
        (fetch.setCall i (.replying attempt
          (w.served.answerFragment gcm nonce fetch.target i).1)))
  | delivered {j fetch i attempt reply} (at_ : w.fetches j = some fetch)
    (call : fetch.call i = some (.replying attempt reply)) :
    Steps w (.delivered j i) (w.put j (fetch.setCall i (.ended (.ok reply))))
  | lost {j fetch i attempt e} (at_ : w.fetches j = some fetch)
    (call : fetch.call i = some (.asked attempt) ∨
      ∃ reply, fetch.call i = some (.replying attempt reply))
    (transport : e.fetchClass = .transient) :
    Steps w (.lost j i e) (w.put j (fetch.setCall i
      (if attempt < fragmentRetries then .waiting (attempt + 1) else .ended (.error e))))
  | learns {j target result} (at_ : w.fetches j = some (.first target (.ended result))) :
    Steps w (.learns j) (w.put j (learned target result))
  | finishes {j target total first calls result}
    (at_ : w.fetches j = some (.later target total first calls))
    (all : collect calls (List.range' 1 (total - 1)) = some result) :
    Steps w (.finishes j) (w.put j (finished chunkAddr gcm target first result))
  | stray {target i nonce} :
    Steps w (.stray target i nonce)
      { w with served := (w.served.answerFragment gcm nonce target i).2 }

/-! ## Honest shares -/

/-- The chunks a manifest lists are served, and are what their addresses say. -/
def Honest (share : ChunkSource) : Prop :=
  ∀ e ∈ share.manifest, ∀ addr ∈ e.chunks, ∃ data, share.chunk addr = some data ∧
    chunkAddr data = .ok addr ∧ data.length ≤ chunkSize

/-- Every path's length fits the field it is sent in. -/
def PathsFit (share : ChunkSource) : Prop :=
  ∀ e ∈ share.manifest, (pathBytes e.relPath).length < 2 ^ 16

/-- The targets a share offers: its manifest within the budget, and the chunks
that lists. -/
def Offers (share : ChunkSource) : FetchTarget → Prop
  | .manifest => manifestFrameLen share.manifest ≤ manifestFrameBudget
  | .chunk addr => ∃ e ∈ share.manifest, addr ∈ e.chunks

/-- What a fetch of a target is to yield. -/
def Holds (share : ChunkSource) : FetchTarget → Fetched → Prop
  | .manifest, .manifest entries => entries = share.manifest
  | .chunk addr, .chunk data => share.chunk addr = some data
  | _, _ => False

/-- A fetch yields the target's content, or fails as a route does. -/
def Outcome (share : ChunkSource) (target : FetchTarget) (result : Except VeilidNetError Fetched) :
    Prop :=
  (∃ got, result = .ok got ∧ Holds share target got) ∨
    ∃ e, result = .error e ∧ e.fetchClass = .transient

/-! ## Seals in use -/

def Call.Over : Call → Prop
  | .ended _ => True
  | _ => False

/-- A fetch that is given a fragment of its target's seal and has not received
them all. -/
def Fetch.Uses : Fetch → Prop
  | .first _ call => ∃ reply total first,
      ((∃ attempt, call = .replying attempt reply) ∨ call = .ended (.ok reply)) ∧
        firstFragment reply = .ok (total, first) ∧ 1 < total
  | .later _ total _ calls => ∃ i, 1 ≤ i ∧ i < total ∧ ¬ (calls i).Over
  | .ended _ _ => False

omit [DecidableEq ι] in
/-- An answer for this target drops no seal in use. -/
def SparesUsed (w : World ι) (target : FetchTarget) : Prop :=
  (w.served.content.answer target.shareFrame).isSome →
    ∀ j fetch, w.fetches j = some fetch → fetch.Uses →
      w.served.sealedBlobs.drops sealCacheCapacity target.cacheKey ≠ some fetch.target.cacheKey

omit [DecidableEq ι] in
/-- What the sharer answers in this move drops no seal in use. -/
def Spares (w : World ι) : Act ι → Prop
  | .answered j _ _ => ∀ fetch, w.fetches j = some fetch → SparesUsed w fetch.target
  | .stray target _ _ => SparesUsed w target
  | _ => True

omit [DecidableEq ι] in
/-- While there is room for another, no answer drops a seal. -/
theorem spares_room {w : World ι} (room : w.served.sealedBlobs.cache.length < sealCacheCapacity)
    (act : Act ι) : Spares w act := by
  have spared : ∀ target, SparesUsed w target := by
    intro target _ j fetch _ _
    simp [Recent.drops, room]
  cases act with
  | answered => exact fun fetch _ => spared fetch.target
  | stray target => exact spared target
  | _ => trivial

/-! ## What a fetch has -/

variable {chunkAddr : Octets → Except String ChunkAddr} {gcm : Gcm} {share : ChunkSource}

/-- A seal of the share's answer for this target. -/
def IsBlob (gcm : Gcm) (share : ChunkSource) (target : FetchTarget) (blob : Octets) : Prop :=
  ∃ resp nonce, share.answer target.shareFrame = some resp ∧
    blob = sealPublicShareFrame gcm nonce resp

/-- What a fragment's calls have brought is a fragment of this seal. -/
def Call.Of (blob : Octets) (i : Nat) : Call → Prop
  | .replying _ reply | .ended (.ok reply) => reply = fragmentReply blob i
  | .ended (.error e) => e.fetchClass = .transient
  | _ => True

/-- A fetch has fragments of one seal, and that seal is kept while it needs
more. -/
def Fetch.Good (gcm : Gcm) (share : ChunkSource) (kept : Recent String Octets) : Fetch → Prop
  | .first target call =>
    match call with
    | .waiting _ | .asked _ => True
    | .ended (.error e) => e.fetchClass = .transient
    | .replying _ reply | .ended (.ok reply) => ∃ blob, IsBlob gcm share target blob ∧
        reply = fragmentReply blob 0 ∧
          (1 < fragmentCount blob → kept.lookup target.cacheKey = some blob)
  | .later target total head calls => ∃ blob, IsBlob gcm share target blob ∧
      total = fragmentCount blob ∧ head = piece fragmentSize blob 0 ∧
      (∀ i, 1 ≤ i → i < total → (calls i).Of blob i) ∧
      ((Fetch.later target total head calls).Uses → kept.lookup target.cacheKey = some blob)
  | .ended target result => Outcome share target result

/-- The share as it was, its kept blobs seals of its answers, and every fetch of
what it offers in order. -/
structure Good (gcm : Gcm) (share : ChunkSource) (w : World ι) : Prop where
  content : w.served.content = share
  sound : w.served.sealedBlobs.Sound sealCacheCapacity
  blobs : ∀ key blob, w.served.sealedBlobs.lookup key = some blob →
    ∃ target, key = target.cacheKey ∧ IsBlob gcm share target blob
  fetches : ∀ j fetch, w.fetches j = some fetch → Offers share fetch.target →
    fetch.Good gcm share w.served.sealedBlobs

/-! ## Blobs -/

omit [DecidableEq ι] in
theorem good_start : Good gcm share (World.start share : World ι) where
  content := rfl
  sound := .empty
  blobs key blob h := by cases h
  fetches j fetch h := by cases h

theorem weighs (entries : List ManifestEntry) : entries.length ≤ manifestFrameLen entries ∧
    ∀ e ∈ entries, e.chunks.length ≤ manifestFrameLen entries := by
  induction entries with
  | nil => simp
  | cons e entries ih =>
    have more : manifestFrameLen (e :: entries) = manifestFrameLen entries +
        (2 + (pathBytes e.relPath).length + 8 + 4 + e.chunks.length * chunkAddrLen) := by
      simp only [manifestFrameLen, List.map_cons, List.sum_cons]
      omega
    simp only [chunkAddrLen] at more
    refine ⟨?_, fun e' he => ?_⟩
    · rw [List.length_cons]
      omega
    · rcases List.mem_cons.1 he with rfl | he
      · omega
      · have := ih.2 e' he
        omega

/-- A manifest within the budget has counts its fields can carry. -/
theorem manifest_fits (paths : PathsFit share)
    (budget : manifestFrameLen share.manifest ≤ manifestFrameBudget) :
    (ShareFrame.manifestResponse share.manifest).Fits := by
  obtain ⟨count, chunks⟩ := weighs share.manifest
  have small : manifestFrameBudget < 2 ^ 32 := by decide
  exact ⟨by omega, fun e he => ⟨paths e he, by have := chunks e he; omega⟩⟩

/-- What a share answers for a target it offers fits its frame, weighs little
enough and is what the fetch checks for. -/
theorem offered (gcm : Gcm) (honest : Honest chunkAddr share) (paths : PathsFit share) {target : FetchTarget}
    (offers : Offers share target) :
    ∃ resp, share.answer target.shareFrame = some resp ∧ resp.Fits ∧
      resp.encode.length ≤ manifestFrameBudget ∧ 0 < resp.encode.length ∧
      (gcm.Genuine → ∀ nonce, Outcome share target
        (openFetched chunkAddr gcm target (sealPublicShareFrame gcm nonce resp))) := by
  cases target with
  | manifest =>
    have fits := manifest_fits paths offers
    refine ⟨_, rfl, fits, (manifestFrameLen_eq _).trans_le offers, by simp [ShareFrame.encode],
      fun genuine nonce => .inl ⟨.manifest share.manifest, ?_, rfl⟩⟩
    rw [openFetched, openManifestFrame, openBlob, open_sealed genuine fits]
    rfl
  | chunk addr =>
    obtain ⟨e, he, haddr⟩ := offers
    obtain ⟨data, hdata, hash, short⟩ := honest e he addr haddr
    refine ⟨.chunkResponse addr data, by simp [ChunkSource.answer, FetchTarget.shareFrame, hdata],
      trivial, ?_, by simp [ShareFrame.encode], fun genuine nonce =>
        .inl ⟨.chunk data, ?_, hdata⟩⟩
    · simp only [ShareFrame.encode, List.length_cons, List.length_append, addr.property]
      simp only [chunkAddrLen, manifestFrameBudget, chunkSize] at *
      omega
    · have openable : (ShareFrame.chunkResponse addr data).Fits := trivial
      simp only [openFetched, openAndVerifyChunk, openBlob, open_sealed genuine openable, bind,
        Except.bind, Except.mapError, hash, ne_eq, not_true, if_false, Except.map]

theorem IsBlob.whole (genuine : gcm.Genuine) (honest : Honest chunkAddr share)
    (paths : PathsFit share) {target : FetchTarget} {blob : Octets}
    (offers : Offers share target) (is : IsBlob gcm share target blob) :
    Whole blob ∧ Outcome share target (openFetched chunkAddr gcm target blob) := by
  obtain ⟨resp, answers, -, short, pos, opens⟩ := offered gcm honest paths offers
  obtain ⟨resp', nonce, answers', rfl⟩ := is
  obtain rfl : resp = resp' := Option.some.inj (answers.symm.trans answers')
  have len : (sealPublicShareFrame gcm nonce resp).length = _ := sealed_length genuine
  have room : manifestFrameBudget + (nonceLen + tagLen) ≤ maxReassembledLen := by decide
  refine ⟨⟨?_, ?_⟩, opens genuine nonce⟩
  · rw [len]
    omega
  · rw [len]
    omega

/-! ## One move -/

section

variable (genuine : gcm.Genuine) (honest : Honest chunkAddr share) (paths : PathsFit share)

include genuine honest paths

/-- A fetch stays in order where the seal it uses stays. -/
theorem Fetch.Good.stays {fetch : Fetch} {kept kept' : Recent String Octets}
    (offers : Offers share fetch.target) (good : fetch.Good gcm share kept)
    (stays : fetch.Uses → ∀ blob, kept.lookup fetch.target.cacheKey = some blob →
      kept'.lookup fetch.target.cacheKey = some blob) : fetch.Good gcm share kept' := by
  have given : ∀ {target reply}, Offers share target → (∃ blob, IsBlob gcm share target blob ∧
      reply = fragmentReply blob 0 ∧
        (1 < fragmentCount blob → kept.lookup target.cacheKey = some blob)) →
      ((∃ total first, firstFragment reply = .ok (total, first) ∧ 1 < total) →
        ∀ blob, kept.lookup target.cacheKey = some blob →
          kept'.lookup target.cacheKey = some blob) →
      ∃ blob, IsBlob gcm share target blob ∧ reply = fragmentReply blob 0 ∧
        (1 < fragmentCount blob → kept'.lookup target.cacheKey = some blob) := by
    rintro target reply offers ⟨blob, is, rfl, held⟩ stays
    have whole := (is.whole genuine honest paths offers).1
    exact ⟨blob, is, rfl, fun many => stays ⟨_, _, whole.first, many⟩ blob (held many)⟩
  cases fetch with
  | first target call =>
    cases call with
    | waiting => trivial
    | asked => trivial
    | replying attempt reply =>
      exact given offers good fun ⟨total, head, learns, many⟩ =>
        stays ⟨reply, total, head, .inl ⟨attempt, rfl⟩, learns, many⟩
    | ended result =>
      cases result with
      | error e => exact good
      | ok reply =>
        exact given offers good fun ⟨total, head, learns, many⟩ =>
          stays ⟨reply, total, head, .inr rfl, learns, many⟩
  | later target total head calls =>
    obtain ⟨blob, is, count, first, of, held⟩ := good
    exact ⟨blob, is, count, first, of, fun uses => stays uses blob (held uses)⟩
  | ended target result => exact good

omit genuine honest paths in
theorem Good.put {w : World ι} (good : Good gcm share w) {j : ι} {fetch : Fetch}
    (h : Offers share fetch.target → fetch.Good gcm share w.served.sealedBlobs) :
    Good gcm share (w.put j fetch) where
  content := good.content
  sound := good.sound
  blobs := good.blobs
  fetches k fetch' hk offers := by
    by_cases same : k = j
    · subst same
      obtain rfl : fetch = fetch' := by simpa [World.put] using hk
      exact h offers
    · exact good.fetches k fetch' (by simpa [World.put, same] using hk) offers

omit [DecidableEq ι] in
/-- An answer: every seal in use stays, and what is answered is cut from the
seal that is kept from then on. -/
theorem Good.answered {w : World ι} (good : Good gcm share w) {target : FetchTarget} (i : Nat)
    (nonce : Nonce) (spares : SparesUsed w target) :
    Good gcm share { w with served := (w.served.answerFragment gcm nonce target i).2 } ∧
      ((share.answer target.shareFrame).isSome → ∃ blob, IsBlob gcm share target blob ∧
        (w.served.answerFragment gcm nonce target i).1 = fragmentReply blob i ∧
        (w.served.answerFragment gcm nonce target i).2.sealedBlobs.lookup target.cacheKey =
          some blob ∧
        ∀ had, w.served.sealedBlobs.lookup target.cacheKey = some had → had = blob) := by
  cases answers : share.answer target.shareFrame with
  | none =>
    have fresh : w.served.sealedBlobs.lookup target.cacheKey = none := by
      by_contra held
      obtain ⟨blob, held⟩ := Option.ne_none_iff_exists'.1 held
      obtain ⟨target', key, resp, _, answers', -⟩ := good.blobs _ _ held
      rw [← cacheKey_inj key, answers] at answers'
      cases answers'
    rw [answerFragment_none (good.content ▸ answers) fresh]
    exact ⟨good, by simp⟩
  | some resp =>
    have answers' : w.served.content.answer target.shareFrame = some resp := good.content ▸ answers
    rw [answerFragment_some answers']
    have self : (w.served.sealedBlobs.use sealCacheCapacity target.cacheKey
        (sealPublicShareFrame gcm nonce resp)).lookup target.cacheKey =
          some ((w.served.sealedBlobs.lookup target.cacheKey).getD
            (sealPublicShareFrame gcm nonce resp)) := Recent.lookup_use_self
    have is : IsBlob gcm share target ((w.served.sealedBlobs.lookup target.cacheKey).getD
        (sealPublicShareFrame gcm nonce resp)) := by
      cases held : w.served.sealedBlobs.lookup target.cacheKey with
      | none => exact ⟨resp, nonce, answers, rfl⟩
      | some blob =>
        obtain ⟨target', key, is⟩ := good.blobs _ _ held
        rw [cacheKey_inj key]
        exact is
    have others : ∀ {other : FetchTarget}, other ≠ target →
        w.served.sealedBlobs.drops sealCacheCapacity target.cacheKey ≠ some other.cacheKey →
        (w.served.sealedBlobs.use sealCacheCapacity target.cacheKey
          (sealPublicShareFrame gcm nonce resp)).lookup other.cacheKey =
            w.served.sealedBlobs.lookup other.cacheKey := fun ne =>
      good.sound.lookup_use (by decide) fun key => ne (cacheKey_inj key)
    refine ⟨⟨good.content, good.sound.use (by decide), fun key blob hkey => ?_,
      fun j fetch hj offers => ?_⟩, fun _ => ⟨_, is, rfl, self, fun had held => by rw [held]; rfl⟩⟩
    · by_cases same : key = target.cacheKey
      · subst same
        rw [self] at hkey
        exact ⟨target, rfl, Option.some.inj hkey ▸ is⟩
      · by_cases dropped : w.served.sealedBlobs.drops sealCacheCapacity target.cacheKey = some key
        · rw [good.sound.lookup_dropped (by decide) dropped] at hkey
          cases hkey
        · rw [good.sound.lookup_use (by decide) same dropped] at hkey
          exact good.blobs key blob hkey
    · refine (good.fetches j fetch hj offers).stays genuine honest paths offers
        fun uses blob held => ?_
      by_cases same : fetch.target = target
      · rw [same] at held ⊢
        rw [self, held]
        rfl
      · rw [others same (spares (by rw [answers']; rfl) j fetch hj uses)]
        exact held

/-- What the later fragments come to: the pieces of the seal, or a call that
failed. -/
theorem collect_of {target : FetchTarget} {blob : Octets} (offers : Offers share target)
    (is : IsBlob gcm share target blob) {calls : Nat → Call} {l : List Nat}
    {result : Except VeilidNetError (List Octets)}
    (of : ∀ i ∈ l, i < fragmentCount blob ∧ (calls i).Of blob i)
    (all : collect calls l = some result) :
    result = .ok (l.map (piece fragmentSize blob)) ∨
      ∃ e, result = .error e ∧ e.fetchClass = .transient := by
  induction l generalizing result with
  | nil =>
    obtain rfl : .ok [] = result := Option.some.inj all
    exact .inl rfl
  | cons i rest ih =>
    obtain ⟨inside, ofi⟩ := of i List.mem_cons_self
    unfold collect at all
    cases hc : calls i with
    | ended reply =>
      rw [hc] at all ofi
      cases reply with
      | error e =>
        obtain rfl : .error e = result := Option.some.inj all
        exact .inr ⟨e, rfl, ofi⟩
      | ok reply =>
        obtain rfl : reply = fragmentReply blob i := ofi
        have later := (is.whole genuine honest paths offers).1.later inside
        simp only [bind, Except.bind, later, Option.map_eq_some_iff] at all
        obtain ⟨result', hrest, rfl⟩ := all
        rcases ih (fun k hk => of k (List.mem_cons_of_mem _ hk)) hrest with rfl | ⟨e, rfl, he⟩
        · exact .inl rfl
        · exact .inr ⟨e, rfl, he⟩
    | waiting => rw [hc] at all; cases all
    | asked => rw [hc] at all; cases all
    | replying => rw [hc] at all; cases all

/-- A fetch after its first reply. -/
theorem learned_good {target : FetchTarget} {result : Except VeilidNetError Octets}
    {kept : Recent String Octets} (offers : Offers share target)
    (good : (Fetch.first target (.ended result)).Good gcm share kept) :
    (learned target result).Good gcm share kept := by
  cases result with
  | error e => exact .inr ⟨e, rfl, good⟩
  | ok reply =>
    obtain ⟨blob, is, rfl, held⟩ := good
    have whole := (is.whole genuine honest paths offers).1
    unfold learned
    simp only [bind, Except.bind, whole.first]
    exact ⟨blob, is, rfl, rfl, fun _ _ _ => trivial,
      fun ⟨i, lo, hi, _⟩ => held (Nat.lt_of_le_of_lt lo hi)⟩

/-- A fetch after its last. -/
theorem finished_good {target : FetchTarget} {total : Nat} {head : Octets} {calls : Nat → Call}
    {result : Except VeilidNetError (List Octets)} {kept : Recent String Octets}
    (offers : Offers share target)
    (good : (Fetch.later target total head calls).Good gcm share kept)
    (all : collect calls (List.range' 1 (total - 1)) = some result) :
    (finished chunkAddr gcm target head result).Good gcm share kept := by
  obtain ⟨blob, is, rfl, rfl, of, -⟩ := good
  have inRange : ∀ i ∈ List.range' 1 (fragmentCount blob - 1),
      i < fragmentCount blob ∧ (calls i).Of blob i := fun i hi => by
    obtain ⟨lo, hi⟩ := List.mem_range'_1.1 hi
    exact ⟨by omega, of i lo (by omega)⟩
  change Outcome share target _
  rcases collect_of genuine honest paths offers is inRange all with rfl | ⟨e, rfl, he⟩
  · obtain ⟨whole, outcome⟩ := is.whole genuine honest paths offers
    simp only [bind, Except.bind, whole.joined]
    exact outcome
  · exact .inr ⟨e, rfl, he⟩

end

/-- A fetch whose call moves on. -/
theorem Fetch.Good.setCall {fetch : Fetch} {i : Nat} {call call' : Call}
    {kept : Recent String Octets} (good : fetch.Good gcm share kept)
    (at_ : fetch.call i = some call) (going : ¬ call.Over)
    (first : i = 0 → (Fetch.first fetch.target call).Good gcm share kept →
      (Fetch.first fetch.target call').Good gcm share kept)
    (later : ∀ blob, kept.lookup fetch.target.cacheKey = some blob → call.Of blob i →
      call'.Of blob i) :
    (fetch.setCall i call').Good gcm share kept := by
  cases fetch with
  | first target c =>
    cases i with
    | zero =>
      obtain rfl : c = call := Option.some.inj at_
      exact first rfl good
    | succ i => cases at_
  | later target total head calls =>
    simp only [Fetch.call] at at_
    split at at_
    · rename_i inside
      obtain rfl : calls i = call := Option.some.inj at_
      obtain ⟨blob, is, count, hhead, of, held⟩ := good
      have held := held ⟨i, inside.1, inside.2, going⟩
      refine ⟨blob, is, count, hhead, fun k lo hi => ?_, fun _ => held⟩
      by_cases same : k = i
      · subst same
        rw [Function.update_self]
        exact later blob held (of k lo hi)
      · rw [Function.update_of_ne same]
        exact of k lo hi
    · cases at_
  | ended => cases at_

@[simp] theorem Fetch.setCall_target {fetch : Fetch} {i : Nat} {call : Call} :
    (fetch.setCall i call).target = fetch.target := by
  cases fetch <;> rfl

theorem Fetch.call_setCall {fetch : Fetch} {i : Nat} {call call' : Call}
    (at_ : fetch.call i = some call) : (fetch.setCall i call').call i = some call' := by
  cases fetch with
  | first =>
    cases i with
    | zero => rfl
    | succ i => cases at_
  | later target total head calls =>
    simp only [Fetch.call] at at_
    split at at_
    · rename_i inside
      simp [Fetch.setCall, Fetch.call, inside]
    · cases at_
  | ended => cases at_

theorem Fetch.setCall_setCall {fetch : Fetch} {i : Nat} {call call' : Call} :
    (fetch.setCall i call).setCall i call' = fetch.setCall i call' := by
  cases fetch with
  | first => rfl
  | later => simp only [Fetch.setCall, Function.update_idem]
  | ended => rfl

/-- One move keeps every fetch in order. -/
theorem Good.step (genuine : gcm.Genuine) (honest : Honest chunkAddr share)
    (paths : PathsFit share) {w w' : World ι} {act : Act ι} (good : Good gcm share w)
    (step : Steps chunkAddr gcm w act w') (spares : Spares w act) : Good gcm share w' := by
  cases step with
  | begins fresh => exact good.put fun _ => trivial
  | calls at_ call polls =>
    refine good.put fun offers => ?_
    rw [Fetch.setCall_target] at offers
    exact (good.fetches _ _ at_ offers).setCall call not_false (fun _ _ => trivial)
      fun _ _ _ => trivial
  | @answered j fetch i attempt nonce at_ call =>
    obtain ⟨good', cut⟩ := good.answered genuine honest paths i nonce (spares fetch at_)
    refine good'.put fun offers => ?_
    rw [Fetch.setCall_target] at offers
    obtain ⟨resp, answers, -⟩ := offered gcm honest paths offers
    obtain ⟨blob, is, reply, held, -⟩ := cut (by rw [answers]; rfl)
    refine (good'.fetches j fetch at_ offers).setCall call not_false (fun zero _ => ?_)
      fun blob' held' _ => ?_
    · subst zero
      exact ⟨blob, is, reply, fun _ => held⟩
    · obtain rfl : blob = blob' := Option.some.inj (held.symm.trans held')
      exact reply
  | delivered at_ call =>
    refine good.put fun offers => ?_
    rw [Fetch.setCall_target] at offers
    exact (good.fetches _ _ at_ offers).setCall call not_false (fun _ => id) fun _ _ => id
  | @lost j fetch i attempt e at_ call transport =>
    refine good.put fun offers => ?_
    rw [Fetch.setCall_target] at offers
    have retried : ∀ {c}, fetch.call i = some c → ¬ c.Over → (fetch.setCall i
        (if attempt < fragmentRetries then .waiting (attempt + 1) else .ended (.error e))).Good
          gcm share w.served.sealedBlobs := by
      intro c hc going
      split
      · exact (good.fetches j fetch at_ offers).setCall hc going (fun _ _ => trivial)
          fun _ _ _ => trivial
      · exact (good.fetches j fetch at_ offers).setCall hc going (fun _ _ => transport)
          fun _ _ _ => transport
    rcases call with hc | ⟨reply, hc⟩
    · exact retried hc not_false
    · exact retried hc not_false
  | @learns j target result at_ =>
    refine good.put fun offers => ?_
    have offers' : Offers share target := by
      unfold learned at offers
      split at offers <;> exact offers
    exact learned_good genuine honest paths offers' (good.fetches _ _ at_ offers')
  | finishes at_ all =>
    exact good.put fun offers =>
      finished_good genuine honest paths offers (good.fetches _ _ at_ offers) all
  | stray => exact (good.answered genuine honest paths _ _ spares).1

/-- **An honest sharer is never reported as hostile**: whatever fetches are in
progress, in any order of their calls and the sharer's answers and with replies
lost, a fetch of what the share offers yields it or fails as a route does, as
long as no answer drops a seal in use. -/
theorem honest_never_hostile (genuine : gcm.Genuine) (honest : Honest chunkAddr share)
    (paths : PathsFit share) {acts : List (Act ι)} {w : World ι}
    (run : Trail (fun w act w' => Steps chunkAddr gcm w act w' ∧ Spares w act)
      (.start share) acts w) :
    ∀ j target result, w.fetches j = some (.ended target result) → Offers share target →
      Outcome share target result := by
  have good := run.invariant (I := Good gcm share)
    (fun _ _ _ good step => good.step genuine honest paths step.1 step.2) good_start
  exact fun j target result ended offers => good.fetches j _ ended offers

/-! ## Fetches that begin -/

section

variable (chunkAddr gcm)

/-- A call that is made, answered and brought back. -/
theorem brings {w : World ι} {j : ι} {fetch : Fetch} {i : Nat} (at_ : w.fetches j = some fetch)
    (call : fetch.call i = some (.waiting 0)) (polls : fetch.Polls i) (nonce : Nonce) :
    Trail (Steps chunkAddr gcm) w [.calls j i, .answered j i nonce, .delivered j i]
      (World.put { w with served := (w.served.answerFragment gcm nonce fetch.target i).2 } j
        (fetch.setCall i (.ended (.ok (w.served.answerFragment gcm nonce fetch.target i).1)))) := by
  have asked : Steps chunkAddr gcm w (.calls j i) _ := .calls at_ call polls
  have answered : Steps chunkAddr gcm (w.put j (fetch.setCall i (.asked 0)))
      (.answered j i nonce) _ := .answered World.put_self (Fetch.call_setCall call)
  have run := Trail.cons asked <| .cons answered <| .cons
    (.delivered World.put_self (Fetch.call_setCall (Fetch.call_setCall call))) (.nil _)
  simpa only [World.put, Function.update_idem, Fetch.setCall_setCall, Fetch.setCall_target] using run

/-- A fetch begins and has its first reply. -/
theorem asks {w : World ι} {j : ι} (fresh : w.fetches j = none) (target : FetchTarget)
    (nonce : Nonce) :
    Trail (Steps chunkAddr gcm) w [.begins j target, .calls j 0, .answered j 0 nonce, .delivered j 0]
      (World.put { w with served := (w.served.answerFragment gcm nonce target 0).2 } j
        (.first target (.ended (.ok (w.served.answerFragment gcm nonce target 0).1)))) := by
  have run := Trail.cons (.begins fresh)
    (brings chunkAddr gcm World.put_self (rfl : Fetch.call (.first target (.waiting 0)) 0 = _)
      trivial nonce)
  simpa only [World.put, Function.update_idem, Fetch.setCall, Fetch.target] using run

/-- As many fetches begin, each on its own target. -/
theorem asks_all {w : World ι} (content : w.served.content = share) {resp : FetchTarget → ShareFrame}
    (nonce : Nonce) (asked : List (ι × FetchTarget))
    (answers : ∀ p ∈ asked, share.answer p.2.shareFrame = some (resp p.2))
    (nodup : (asked.map Prod.fst).Nodup) (fresh : ∀ p ∈ asked, w.fetches p.1 = none) :
    ∃ acts w', Trail (Steps chunkAddr gcm) w acts w' ∧ w'.served.content = share ∧
      w'.served.sealedBlobs = w.served.sealedBlobs.uses sealCacheCapacity
        (asked.map fun p => (p.2.cacheKey, sealPublicShareFrame gcm nonce (resp p.2))) ∧
      ∀ j, j ∉ asked.map Prod.fst → w'.fetches j = w.fetches j := by
  induction asked generalizing w with
  | nil => exact ⟨[], w, .nil w, content, rfl, fun _ _ => rfl⟩
  | cons p asked ih =>
    obtain ⟨j, target⟩ := p
    have answers' : w.served.content.answer target.shareFrame = some (resp target) :=
      content ▸ answers _ List.mem_cons_self
    have first := asks chunkAddr gcm (fresh (j, target) List.mem_cons_self) target nonce
    rw [answerFragment_some answers'] at first
    obtain ⟨apart, nodup⟩ := List.nodup_cons.1 nodup
    let w₁ : World ι := World.put { w with served := { w.served with
      sealedBlobs := w.served.sealedBlobs.use sealCacheCapacity target.cacheKey
        (sealPublicShareFrame gcm nonce (resp target)) } } j
      (.first target (.ended (.ok (fragmentReply ((w.served.sealedBlobs.lookup target.cacheKey).getD
        (sealPublicShareFrame gcm nonce (resp target))) 0))))
    obtain ⟨acts, w', run, content', kept, same⟩ := ih (w := w₁) content
      (fun q hq => answers q (List.mem_cons_of_mem _ hq)) nodup fun q hq => by
        have other : q.1 ≠ j := fun e => apart (e ▸ List.mem_map.2 ⟨q, hq, rfl⟩)
        exact (Function.update_of_ne other ..).trans (fresh q (List.mem_cons_of_mem _ hq))
    refine ⟨_, w', first.append run, content', kept, fun k hk => ?_⟩
    obtain ⟨other, later⟩ := not_or.1 (mt List.mem_cons.2 hk)
    exact (same k later).trans (Function.update_of_ne other ..)

end

/-- What a first fragment tells a fetch. -/
theorem learned_whole {blob : Octets} (whole : Whole blob) (target : FetchTarget) :
    learned target (.ok (fragmentReply blob 0)) =
      .later target (fragmentCount blob) (piece fragmentSize blob 0) fun _ => .waiting 0 := by
  simp only [learned, bind, Except.bind, whole.first]

/-- The second of two fragments, collected. -/
theorem collect_second {blob : Octets} (whole : Whole blob) (two : fragmentCount blob = 2) :
    collect (Function.update (fun _ => Call.waiting 0) 1 (.ended (.ok (fragmentReply blob 1))))
      (List.range' 1 (2 - 1)) = some (.ok [piece fragmentSize blob 1]) := by
  have later := whole.later (i := 1) (by omega)
  simp only [Nat.reduceSub, List.range'_one, collect, Function.update_self, bind, Except.bind,
    later, Option.map_some, Except.map]

theorem finished_eq {target : FetchTarget} {first buf : Octets} {later : List Octets}
    {result : Except VeilidNetError Fetched} (joined : reassemble first later = .ok buf)
    (opened : openFetched chunkAddr gcm target buf = result) :
    finished chunkAddr gcm target first (.ok later) = .ended target result := by
  simp only [finished, bind, Except.bind, joined, opened]

/-! ## More targets than blobs are kept -/

/-- A toy AEAD whose tag tells the nonce. -/
def toyTag (nonce : Octets) : Octets := (nonce ++ List.replicate tagLen 0).take tagLen

def toyGcm : Gcm where
  encrypt nonce plain := (plain, toyTag nonce)
  decrypt nonce ciphertext tag := if tag = toyTag nonce then some ciphertext else none

/-- A toy hash: a chunk's first bytes. -/
def toyAddr (data : Octets) : Except String ChunkAddr :=
  .ok ⟨(data ++ List.replicate chunkAddrLen 0).take chunkAddrLen, by simp⟩

/-- A chunk of two fragments. -/
def largeChunk : Octets := List.replicate 40000 0

def largeAddr : ChunkAddr := ⟨List.replicate chunkAddrLen 0, by simp⟩

def smallAddr (k : Nat) : ChunkAddr :=
  ⟨UInt8.ofNat k :: List.replicate (chunkAddrLen - 1) 0, by simp [chunkAddrLen]⟩

def toyChunk (addr : ChunkAddr) : Option Octets :=
  match addr.val with
  | [] => none
  | b :: _ => some (if b = 0 then largeChunk else [b])

/-- A file of one chunk, and sixteen others. -/
def toyShare : ChunkSource where
  manifest := ⟨"large", 40000, [largeAddr]⟩ :: (List.range sealCacheCapacity).map fun k =>
    ⟨String.ofList (hex [UInt8.ofNat (k + 1)]), 1, [smallAddr (k + 1)]⟩
  chunk := toyChunk

theorem toyGcm_genuine : toyGcm.Genuine where
  ciphertext _ _ := rfl
  tag nonce _ := by simp [toyGcm, toyTag]
  opens nonce plain := if_pos rfl

theorem largeChunk_length : largeChunk.length = 40000 := List.length_replicate

theorem toyAddr_large : toyAddr largeChunk = .ok largeAddr := by
  have take : (largeChunk ++ List.replicate chunkAddrLen 0).take chunkAddrLen =
      List.replicate chunkAddrLen 0 := by
    rw [List.take_append_of_le_length (largeChunk_length ▸ by decide), largeChunk,
      List.take_replicate]
    rfl
  exact congrArg Except.ok (Subtype.ext take)

theorem toyShare_honest : Honest toyAddr toyShare := by
  intro e he addr haddr
  rcases List.mem_cons.1 he with rfl | he
  · obtain rfl := List.mem_singleton.1 haddr
    exact ⟨largeChunk, rfl, toyAddr_large, largeChunk_length ▸ by decide⟩
  · obtain ⟨k, hk, rfl⟩ := List.mem_map.1 he
    obtain rfl := List.mem_singleton.1 haddr
    have small : ∀ k < sealCacheCapacity, toyChunk (smallAddr (k + 1)) =
        some [UInt8.ofNat (k + 1)] ∧ toyAddr [UInt8.ofNat (k + 1)] = .ok (smallAddr (k + 1)) := by
      decide +kernel
    obtain ⟨data, hash⟩ := small k (List.mem_range.1 hk)
    exact ⟨_, data, hash, by simp [chunkSize]⟩

theorem toyShare_paths : PathsFit toyShare := by
  unfold PathsFit
  decide +kernel

def toyNonce (b : UInt8) : Nonce := ⟨b :: List.replicate (nonceLen - 1) 0, by simp [nonceLen]⟩

/-- A fetch of a small chunk to its end. -/
theorem honest_never_hostile_fetched : ∃ (acts : List (Act Nat)) (w : World Nat),
    Trail (fun w act w' => Steps toyAddr toyGcm w act w' ∧ Spares w act) (.start toyShare) acts w ∧
      w.fetches 0 = some (.ended (.chunk (smallAddr 1)) (.ok (.chunk [1]))) ∧
      Outcome toyShare (.chunk (smallAddr 1)) (.ok (.chunk [1])) := by
  let blob := sealPublicShareFrame toyGcm (toyNonce 1) (.chunkResponse (smallAddr 1) [1])
  have answers : toyShare.answer (FetchTarget.chunk (smallAddr 1)).shareFrame =
    some (.chunkResponse (smallAddr 1) [1]) := rfl
  have reply : ((ServedShare.new toyShare).answerFragment toyGcm (toyNonce 1)
      (.chunk (smallAddr 1)) 0).1 = fragmentReply blob 0 :=
    congrArg Prod.fst (answerFragment_some answers)
  have whole : Whole blob := ⟨by decide +kernel, by decide +kernel⟩
  have count : fragmentCount blob = 1 := by decide +kernel
  have opened : finished toyAddr toyGcm (.chunk (smallAddr 1)) (piece fragmentSize blob 0) (.ok []) =
      .ended (.chunk (smallAddr 1)) (.ok (.chunk [1])) :=
    congrArg (Fetch.ended _) (by decide +kernel)
  have start : ∀ act, Spares (World.start toyShare : World Nat) act := spares_room (by decide)
  have run : Trail (fun w act w' => Steps toyAddr toyGcm w act w' ∧ Spares w act)
      (.start toyShare : World Nat) [.begins 0 (.chunk (smallAddr 1)), .calls 0 0,
        .answered 0 0 (toyNonce 1), .delivered 0 0] _ :=
    .cons ⟨.begins rfl, start _⟩ <|
    .cons ⟨.calls World.put_self rfl trivial, trivial⟩ <|
    .cons ⟨.answered World.put_self rfl, spares_room (by decide) _⟩ <|
    .cons ⟨.delivered World.put_self rfl, trivial⟩ (.nil _)
  simp only [World.put, Function.update_idem, Fetch.setCall, Fetch.target, World.start, reply] at run
  have later := run.snoc ⟨.learns (j := 0) rfl, trivial⟩
  rw [learned_whole whole, count] at later
  have none_left : collect (fun _ => .waiting 0) (List.range' 1 (1 - 1)) = some (.ok []) := rfl
  have complete := later.snoc ⟨.finishes World.put_self none_left, trivial⟩
  rw [opened] at complete
  have offers : Offers toyShare (.chunk (smallAddr 1)) :=
    ⟨_, List.mem_cons_of_mem _ (List.mem_map.2 ⟨0, by decide, rfl⟩), List.mem_singleton_self _⟩
  exact ⟨_, _, complete, World.put_self, honest_never_hostile toyGcm_genuine toyShare_honest
    toyShare_paths complete 0 _ _ World.put_self offers⟩

/-- The large chunk under one nonce. -/
def largeBlob (b : UInt8) : Octets :=
  sealPublicShareFrame toyGcm (toyNonce b) (.chunkResponse largeAddr largeChunk)

theorem largeBlob_length (b : UInt8) : (largeBlob b).length = 40077 := by
  rw [largeBlob, sealed_length toyGcm_genuine, ShareFrame.encode, List.length_cons,
    List.length_append, largeAddr.property, largeChunk_length]
  rfl

/-- The nonce, the frame and the tag. -/
theorem largeBlob_eq (b : UInt8) : largeBlob b =
    (toyNonce b).val ++ ((ShareFrame.chunkResponse largeAddr largeChunk).encode ++
      toyTag (toyNonce b).val) := rfl

theorem largeBlob_count (b : UInt8) : fragmentCount (largeBlob b) = 2 := by
  rw [fragmentCount, largeBlob_length]
  rfl

theorem largeBlob_whole (b : UInt8) : Whole (largeBlob b) where
  pos := by rw [largeBlob_length]; decide
  short := by rw [largeBlob_length]; decide

/-- The front of one seal before the back of another of the same plaintext. -/
theorem spliced {n : Nat} {nonce₁ nonce₂ : Nonce} {ct tag₁ tag₂ : Octets}
    (lo : nonceLen ≤ n) (hi : n - nonceLen ≤ ct.length) :
    (nonce₁.val ++ (ct ++ tag₁)).take n ++ (nonce₂.val ++ (ct ++ tag₂)).drop n =
      nonce₁.val ++ (ct ++ tag₂) := by
  have front : (nonce₁.val ++ (ct ++ tag₁)).take n = nonce₁.val ++ ct.take (n - nonceLen) := by
    rw [List.take_append, nonce₁.property, List.take_of_length_le (nonce₁.property.trans_le lo),
      List.take_append_of_le_length hi]
  have back : (nonce₂.val ++ (ct ++ tag₂)).drop n = ct.drop (n - nonceLen) ++ tag₂ := by
    rw [List.drop_append, nonce₂.property, List.drop_of_length_le (nonce₂.property.trans_le lo),
      List.nil_append, List.drop_append_of_le_length hi]
  rw [front, back, List.append_assoc, ← List.append_assoc (ct.take _), List.take_append_drop]

/-- The halves of two seals are not one seal. -/
theorem largeBlobs_mixed : finished toyAddr toyGcm (.chunk largeAddr)
    (piece fragmentSize (largeBlob 1) 0) (.ok [piece fragmentSize (largeBlob 2) 1]) =
      .ended (.chunk largeAddr) (.error (.integrity "share-frame authentication failed")) := by
  have plain : (ShareFrame.chunkResponse largeAddr largeChunk).encode.length = 40049 := by
    rw [ShareFrame.encode, List.length_cons, List.length_append, largeAddr.property,
      largeChunk_length]
    rfl
  have back : piece fragmentSize (largeBlob 2) 1 = (largeBlob 2).drop fragmentSize := by
    rw [piece, Nat.one_mul, List.take_of_length_le]
    rw [List.length_drop, largeBlob_length]
    decide
  have tag : (toyTag (toyNonce 2).val).length = tagLen := toyGcm_genuine.tag (toyNonce 2).val []
  have joined : piece fragmentSize (largeBlob 1) 0 ++ piece fragmentSize (largeBlob 2) 1 =
      (toyNonce 1).val ++ ((ShareFrame.chunkResponse largeAddr largeChunk).encode ++
        toyTag (toyNonce 2).val) := by
    rw [back, piece, Nat.zero_mul, List.drop_zero, largeBlob_eq, largeBlob_eq]
    exact spliced (by decide) (by rw [plain]; decide)
  have other : toyTag (toyNonce 2).val ≠ toyTag (toyNonce 1).val := by decide
  have refused : ∀ plain, toyGcm.decrypt (toyNonce 1).val plain (toyTag (toyNonce 2).val) = none := by
    intro plain
    simp only [toyGcm, if_neg other]
  have short : (piece fragmentSize (largeBlob 1) 0 ++
      [piece fragmentSize (largeBlob 2) 1].flatten).length ≤ maxReassembledLen := by
    rw [List.flatten_singleton, joined, List.length_append, List.length_append, plain, tag,
      (toyNonce 1).property]
    decide
  have opened : openShareFrame toyGcm (piece fragmentSize (largeBlob 1) 0 ++
      [piece fragmentSize (largeBlob 2) 1].flatten) = .error .authentication := by
    rw [List.flatten_singleton, joined, open_joined tag, refused]
  exact finished_eq (reassemble_short short) (openFetched_unsealed opened)

/-- What answers a request for the large chunk where its seal is not kept. -/
theorem large_answer {served : ServedShare} (content : served.content = toyShare)
    (fresh : served.sealedBlobs.lookup (FetchTarget.chunk largeAddr).cacheKey = none) (b : UInt8)
    (i : Nat) : served.answerFragment toyGcm (toyNonce b) (.chunk largeAddr) i =
      (fragmentReply (largeBlob b) i,
        { served with
          sealedBlobs := served.sealedBlobs.use sealCacheCapacity
            (FetchTarget.chunk largeAddr).cacheKey (largeBlob b) }) := by
  have answers : toyShare.answer (FetchTarget.chunk largeAddr).shareFrame =
    some (.chunkResponse largeAddr largeChunk) := rfl
  rw [answerFragment_some (content ▸ answers), fresh, Option.getD_none, largeBlob]

/-- One fetch has the first half of its chunk. -/
theorem first_half : ∃ (acts : List (Act Nat)) (w : World Nat),
    Trail (Steps toyAddr toyGcm) (.start toyShare) acts w ∧ w.served.content = toyShare ∧
      w.served.sealedBlobs.Sound sealCacheCapacity ∧
      w.fetches 0 = some (.later (.chunk largeAddr) 2 (piece fragmentSize (largeBlob 1) 0)
        fun _ => .waiting 0) ∧
      ∀ j, j ≠ 0 → w.fetches j = none := by
  have asked := asks toyAddr toyGcm (w := .start toyShare) (j := (0 : Nat)) rfl
    (.chunk largeAddr) (toyNonce 1)
  have content : (World.start toyShare : World Nat).served.content = toyShare := rfl
  have empty : (World.start toyShare : World Nat).served.sealedBlobs.lookup
    (FetchTarget.chunk largeAddr).cacheKey = none := rfl
  rw [large_answer content empty] at asked
  have run := asked.append (.cons (.learns World.put_self) (.nil _))
  simp only [learned_whole (largeBlob_whole 1), largeBlob_count] at run
  refine ⟨_, _, run, rfl, Recent.Sound.empty.use (by decide), World.put_self, ?_⟩
  intro j other
  simp only [World.put, Function.update_of_ne other]
  rfl

/-- Sixteen others begin, and the seal is dropped. -/
theorem others_asked {w : World Nat} (content : w.served.content = toyShare)
    (sound : w.served.sealedBlobs.Sound sealCacheCapacity)
    (fresh : ∀ j, j ≠ 0 → w.fetches j = none) :
    ∃ acts w', Trail (Steps toyAddr toyGcm) w acts w' ∧ w'.served.content = toyShare ∧
      w'.served.sealedBlobs.lookup (FetchTarget.chunk largeAddr).cacheKey = none ∧
      w'.fetches 0 = w.fetches 0 := by
  let others : List (Nat × FetchTarget) :=
    (List.range sealCacheCapacity).map fun k => (k + 1, .chunk (smallAddr (k + 1)))
  let resp : FetchTarget → ShareFrame
    | .manifest => .manifestRequest
    | .chunk addr => .chunkResponse addr (addr.val.take 1)
  have served : ∀ p ∈ others, toyShare.answer p.2.shareFrame = some (resp p.2) := by
    decide +kernel
  obtain ⟨acts, w', run, content', kept, same⟩ := asks_all toyAddr toyGcm content (toyNonce 3)
    others served (by decide +kernel) fun p hp => fresh p.1 (by
      obtain ⟨k, -, rfl⟩ := List.mem_map.1 hp
      exact Nat.succ_ne_zero k)
  refine ⟨acts, w', run, content', ?_, same 0 (by decide)⟩
  rw [kept]
  have keys : (others.map fun p => (p.2.cacheKey, sealPublicShareFrame toyGcm (toyNonce 3)
      (resp p.2))).map Prod.fst = (others.map Prod.snd).map FetchTarget.cacheKey := by
    rw [List.map_map, List.map_map]
    rfl
  refine sound.forgotten (by decide) ?_ (by simp [others]) ?_
  · rw [keys]
    exact List.Nodup.map (fun _ _ => cacheKey_inj) (by decide +kernel)
  · rw [keys, List.mem_map_of_injective fun _ _ => cacheKey_inj]
    decide +kernel

/-- One fetch has the first half of its chunk; sixteen others begin, and the
seal of the first is made again for its second half. -/
theorem seal_dropped_midway : toyGcm.Genuine ∧ Honest toyAddr toyShare ∧ PathsFit toyShare ∧
    Offers toyShare (.chunk largeAddr) ∧ ∃ (acts : List (Act Nat)) (w : World Nat) (e : VeilidNetError),
      Trail (Steps toyAddr toyGcm) (.start toyShare) acts w ∧
        w.fetches 0 = some (.ended (.chunk largeAddr) (.error e)) ∧ e.fetchClass = .integrity := by
  refine ⟨toyGcm_genuine, toyShare_honest, toyShare_paths,
    ⟨_, List.mem_cons_self, List.mem_singleton_self _⟩, ?_⟩
  obtain ⟨_, w₁, run₁, content₁, sound, half, fresh⟩ := first_half
  obtain ⟨_, w₂, run₂, content₂, dropped, same⟩ := others_asked content₁ sound fresh
  have polls : Fetch.Polls (.later (.chunk largeAddr) 2 (piece fragmentSize (largeBlob 1) 0)
      fun _ => .waiting 0) 1 := by
    intro k lo hi
    have : 1 ≤ wCeil := by decide
    omega
  have run₃ := brings toyAddr toyGcm (same.trans half) rfl polls (toyNonce 2)
  simp only [Fetch.target, large_answer content₂ dropped, Fetch.setCall] at run₃
  have all := collect_second (largeBlob_whole 2) (largeBlob_count 2)
  have run := ((run₁.append run₂).append run₃).append
    (.cons (.finishes World.put_self all) (.nil _))
  rw [largeBlobs_mixed] at run
  exact ⟨_, _, _, run, World.put_self, rfl⟩

end Daemonseed.Net.HonestSharer
