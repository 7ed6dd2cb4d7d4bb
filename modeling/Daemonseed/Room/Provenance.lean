import Daemonseed.Room.Inbound

/-! # For which room a beacon or an announcement was signed

Whoever holds the key of a room can put into it any frame that was sealed for
another one. A chat message is verified over the room it is read in. A beacon
and an announcement are verified over the room they name, and nothing compares
that with the room they are read in: they were signed for the room exactly
where they name it. -/
namespace Daemonseed.Room.Provenance
open Daemonseed.Lib.Bytes Daemonseed.Lib.Lines Daemonseed.Lib.Results Daemonseed.Lib.Framed
  Daemonseed.Room.Catalog Daemonseed.Room.Inbound Daemonseed.Room.Presence Daemonseed.Room.Sealed
  Daemonseed.Room.Signing Daemonseed.Room.Wire

/-- The message a beacon's signature would be made for in a room. -/
def signableHeartbeat (room : String) (hb : MemberHeartbeat) : Signable :=
  .heartbeat room hb.senderPubkey hb.sentUnixMs hb.liveShareIds hb.isLeave

def signableAnnouncement (room : String) (ann : ShareAnnouncement) : Signable :=
  .announcement room ann.senderPubkey ann.shareId ann.rootCommitment ann.name ann.rating
    ann.withdraw ann.sentUnixMs

def signableMessage (room : String) (msg : RoomMessage) : Signable :=
  .roomMessage room msg.senderPubkey msg.sentUnixMs msg.body

/-- What is decoded is no longer than a vector can be. -/
structure InMemory (P : Primitives) : Prop where
  heartbeat : ∀ encoded hb, P.decodeHeartbeat encoded = some hb → (signableHeartbeat hb.room hb).Fits
  announcement : ∀ encoded ann, P.decodeAnnouncement encoded = some ann →
    (signableAnnouncement ann.room ann).Fits
  message : ∀ encoded msg room, P.decodeRoomMessage encoded = some msg →
    Short (utf8 room) → (signableMessage room msg).Fits

/-- A signature that verifies under the key of an honest identity was made by it, for the
message that it verifies for. `made` says for which message an honest identity made a
signature. -/
structure Unforgeable (P : Primitives) (honest : Octets → Prop)
    (made : Octets → Octets → Option Signable) : Prop where
  signed : ∀ pubkey message signature, honest pubkey →
    P.verifySignature pubkey message signature = true →
      ∃ k, made pubkey signature = some k ∧ k.input = message
  fits : ∀ pubkey signature k, made pubkey signature = some k → k.Fits

section

variable {P : Primitives} {honest : Octets → Prop} {made : Octets → Octets → Option Signable}
variable {key bytes : Octets} {room : String}

/-- What verifies as a message of a kind was signed as that message. -/
theorem Unforgeable.made_eq (unforgeable : Unforgeable P honest made)
    {pubkey signature : Octets} {k : Signable} (sender : honest pubkey) (fits : k.Fits)
    (verified : P.verifySignature pubkey k.input signature = true) :
    made pubkey signature = some k := by
  obtain ⟨k', held, same⟩ := unforgeable.signed _ _ _ sender verified
  rw [held, Signable.input_injective (unforgeable.fits _ _ _ held) fits same]

/-! ## What an opened frame was signed for -/

theorem carriedHeartbeat_fits (memory : InMemory P) {hb : MemberHeartbeat}
    (h : carriedHeartbeat P key bytes = .ok hb) : (signableHeartbeat hb.room hb).Fits := by
  unfold carriedHeartbeat at h
  obtain ⟨plaintext, -, h⟩ := bind_ok.1 h
  obtain ⟨encoded, -, h⟩ := bind_ok.1 h
  cases found : P.decodeHeartbeat encoded with
  | none =>
    rw [found] at h
    cases h
  | some message =>
    rw [found] at h
    cases h
    exact memory.heartbeat _ _ found

theorem carriedAnnouncement_fits (memory : InMemory P) {ann : ShareAnnouncement}
    (h : carriedAnnouncement P key bytes = .ok ann) : (signableAnnouncement ann.room ann).Fits := by
  unfold carriedAnnouncement at h
  obtain ⟨plaintext, -, h⟩ := bind_ok.1 h
  cases found : P.decodeAnnouncement plaintext with
  | none =>
    rw [found] at h
    cases h
  | some message =>
    rw [found] at h
    cases h
    exact memory.announcement _ _ found

variable (memory : InMemory P) (unforgeable : Unforgeable P honest made)
include memory unforgeable

/-- An opened beacon of an honest sender was signed for the room it names and no other. -/
theorem heartbeat_signed_iff {hb : MemberHeartbeat} (opened : openHeartbeat P key bytes = .ok hb)
    (sender : honest hb.senderPubkey) :
    made hb.senderPubkey hb.signature = some (signableHeartbeat room hb) ↔ hb.room = room := by
  obtain ⟨carried, -, -, verified⟩ := openHeartbeat_ok.1 opened
  have held : made hb.senderPubkey hb.signature = some (signableHeartbeat hb.room hb) :=
    unforgeable.made_eq sender (carriedHeartbeat_fits memory carried) verified
  rw [held]
  constructor
  · intro same
    cases same
    rfl
  · rintro rfl
    rfl

theorem announcement_signed_iff {ann : ShareAnnouncement}
    (opened : openAnnouncement P key bytes = .ok ann) (sender : honest ann.senderPubkey) :
    made ann.senderPubkey ann.signature = some (signableAnnouncement room ann) ↔
      ann.room = room := by
  obtain ⟨carried, -, -, verified⟩ := openAnnouncement_ok.1 opened
  have held : made ann.senderPubkey ann.signature = some (signableAnnouncement ann.room ann) :=
    unforgeable.made_eq sender (carriedAnnouncement_fits memory carried) verified
  rw [held]
  constructor
  · intro same
    cases same
    rfl
  · rintro rfl
    rfl

/-- A chat message is signed for the room it is read in. -/
theorem message_signed {msg : RoomMessage} (opened : openRoomMessage P key room bytes = .ok msg)
    (short : Short (utf8 room)) (sender : honest msg.senderPubkey) :
    made msg.senderPubkey msg.signature = some (signableMessage room msg) := by
  have verified := openRoomMessage_ok opened
  unfold openRoomMessage openSignedRoomMessage at opened
  obtain ⟨plaintext, -, opened⟩ := bind_ok.1 opened
  obtain ⟨message, found, opened⟩ := bind_ok.1 opened
  obtain ⟨u, -, opened⟩ := bind_ok.1 opened
  cases opened
  refine unforgeable.made_eq sender ?_ verified
  cases encoded : P.decodeRoomMessage plaintext with
  | none =>
    rw [encoded] at found
    cases found
  | some other =>
    rw [encoded] at found
    cases found
    exact memory.message _ _ _ encoded short

end

/-! ## What the session folds -/

/-- Whose key the folded message verified under. -/
def sender : Fold → Octets
  | .memberWrite msg => msg.senderPubkey
  | .heartbeat hb => hb.senderPubkey
  | .announcement ann => ann.senderPubkey

/-- The folded message was signed by its sender for the room. -/
def SignedFor (made : Octets → Octets → Option Signable) (room : String) : Fold → Prop
  | .memberWrite msg => made msg.senderPubkey msg.signature = some (signableMessage room msg)
  | .heartbeat hb => made hb.senderPubkey hb.signature = some (signableHeartbeat room hb)
  | .announcement ann => made ann.senderPubkey ann.signature = some (signableAnnouncement room ann)

/-- The beacon or the announcement names the room. -/
def Names (room : String) : Fold → Prop
  | .memberWrite _ => True
  | .heartbeat hb => hb.room = room
  | .announcement ann => ann.room = room

/-- The frame opens under the key of the room as the message that is folded. -/
def OpensAs (P : Primitives) (roomKey bytes : Octets) : Fold → Prop
  | .memberWrite msg => openRoomMessage P roomKey defaultRoom bytes = .ok msg
  | .heartbeat hb => openHeartbeat P roomKey bytes = .ok hb
  | .announcement ann => ∃ env, DiscoveryEnvelope.decode bytes = some env ∧
      openAnnouncement P roomKey env.sealedAnnouncement = .ok ann

/-- What a fold does to the members of the lobby. -/
def onPresence (now : Instant) (presence : PresenceTracker) : Fold → PresenceTracker
  | .memberWrite msg =>
    (presence.applyMemberWrite defaultRoom msg.senderPubkey msg.senderHandle msg.sentUnixMs now).2
  | .heartbeat hb => (presence.apply hb now).2
  | .announcement _ => presence

def onCatalog (P : Primitives) (now : Instant) (catalog : ShareCatalog) : Fold → ShareCatalog
  | .announcement ann => (catalog.applyVerified P.sha384 ann now).2
  | _ => catalog

section

variable {R : Type} {P : Primitives} {circles : List VeilidCircle} {shares : ShareState R}
variable {now : Instant} {nowUnixMs : Int} {bytes : Octets}

theorem applyDiscovery_opens {lobby : LobbyRendezvous} (joined : shares.lobby = some lobby)
    {f : Fold} (mem : f ∈ (shares.applyDiscovery P now bytes).2.2) :
    OpensAs P lobby.roomKey bytes f := by
  simp only [ShareState.applyDiscovery, joined] at mem
  split at mem
  · cases mem
  · rename_i env decoded
    split at mem
    · cases mem
    · rename_i ann opened
      -- every branch that folds something folds the announcement
      have only : f = .announcement ann := by
        split at mem
        · cases mem
        · split at mem
          · cases mem
          · split at mem
            · exact List.mem_singleton.1 mem
            · split at mem
              · cases mem
              · exact List.mem_singleton.1 mem
      subst only
      exact ⟨env, decoded, opened⟩

theorem handleInbound_opens {f : Fold}
    (mem : f ∈ (shares.handleInbound P circles now nowUnixMs bytes).2) :
    ∃ lobby, shares.lobby = some lobby ∧ OpensAs P lobby.roomKey bytes f := by
  unfold ShareState.handleInbound at mem
  split at mem
  · cases mem
  · split at mem
    · cases mem
    · rename_i lobby joined
      refine ⟨lobby, joined, ?_⟩
      split at mem
      · rename_i msg opened
        unfold ShareState.foldLobbyMessage at mem
        split at mem
        · cases mem
        · split at mem
          · rw [List.mem_singleton.1 mem]
            exact opened
          · cases mem
      · split at mem
        · rename_i hb opened
          unfold ShareState.foldHeartbeat at mem
          split at mem
          · rw [List.mem_singleton.1 mem]
            exact opened
          · cases mem
        · exact applyDiscovery_opens joined mem

/-- A frame that opens as a beacon and as nothing tried before it. -/
theorem handleInbound_heartbeat {lobby : LobbyRendezvous} {e : OpenError} {hb : MemberHeartbeat}
    (circle : ShareState.openedByCircle P circles bytes = false)
    (joined : shares.lobby = some lobby)
    (chat : openRoomMessage P lobby.roomKey defaultRoom bytes = .error e)
    (opened : openHeartbeat P lobby.roomKey bytes = .ok hb) :
    shares.handleInbound P circles now nowUnixMs bytes = shares.foldHeartbeat now nowUnixMs hb := by
  simp only [ShareState.handleInbound, circle, joined, chat, opened]
  rfl

theorem foldWithdraw_catalog (ann : ShareAnnouncement) :
    (shares.foldWithdraw P ann now).catalog = (shares.catalog.applyVerified P.sha384 ann now).2 ∧
      (shares.foldWithdraw P ann now).lobby = shares.lobby := by
  simp only [ShareState.foldWithdraw]
  split <;> exact ⟨rfl, rfl⟩

theorem foldAdvert_catalog (ann : ShareAnnouncement) (blob : Octets) :
    (shares.foldAdvert P ann blob now).catalog
        = (shares.catalog.applyVerified P.sha384 ann now).2 ∧
      (shares.foldAdvert P ann blob now).lobby = shares.lobby := by
  simp only [ShareState.foldAdvert]
  split
  · split <;> exact ⟨rfl, rfl⟩
  · exact ⟨rfl, rfl⟩

variable (shares now bytes) in
theorem applyDiscovery_folds :
    (shares.applyDiscovery P now bytes).2.1.catalog =
        (shares.applyDiscovery P now bytes).2.2.foldl (onCatalog P now) shares.catalog ∧
      (shares.applyDiscovery P now bytes).2.1.lobby = shares.lobby ∧
      ∀ presence, (shares.applyDiscovery P now bytes).2.2.foldl (onPresence now) presence = presence := by
  unfold ShareState.applyDiscovery
  split
  · exact ⟨rfl, rfl, fun _ => rfl⟩
  · split
    · exact ⟨rfl, rfl, fun _ => rfl⟩
    · split
      · exact ⟨rfl, rfl, fun _ => rfl⟩
      · rename_i ann _
        split
        · exact ⟨rfl, rfl, fun _ => rfl⟩
        · split
          · exact ⟨rfl, rfl, fun _ => rfl⟩
          · split
            · exact ⟨(foldWithdraw_catalog ann).1, (foldWithdraw_catalog ann).2, fun _ => rfl⟩
            · split
              · exact ⟨rfl, rfl, fun _ => rfl⟩
              · exact ⟨(foldAdvert_catalog ann _).1, (foldAdvert_catalog ann _).2, fun _ => rfl⟩

/-- The members and the shares change by what is folded and by nothing else. -/
theorem handleInbound_folds :
    (shares.handleInbound P circles now nowUnixMs bytes).1.catalog =
        (shares.handleInbound P circles now nowUnixMs bytes).2.foldl (onCatalog P now)
          shares.catalog ∧
      (shares.handleInbound P circles now nowUnixMs bytes).1.lobby =
        shares.lobby.map fun lobby =>
          { lobby with
            presence := (shares.handleInbound P circles now nowUnixMs bytes).2.foldl
              (onPresence now) lobby.presence } := by
  unfold ShareState.handleInbound
  split
  · simp
  · split
    · rename_i none
      simp [none]
    · rename_i lobby joined
      split
      · unfold ShareState.foldLobbyMessage
        split
        · simp
        · split
          · exact ⟨rfl, rfl⟩
          · simp
      · split
        · unfold ShareState.foldHeartbeat
          split
          · exact ⟨rfl, rfl⟩
          · simp
        · obtain ⟨catalog, kept, presence⟩ := applyDiscovery_folds (P := P) shares now bytes
          refine ⟨catalog, ?_⟩
          simp only [kept, presence]
          simp

end

/-! ## The rooms compared -/

/-- **A beacon or an announcement was signed for a room exactly where it names it.** Whatever
frame opens under the key of a room, and whatever the session folds of it: from an honest
sender it was signed for that room if and only if the room field sealed in the frame says
so. And a signature made for one message verifies for no other message. -/
theorem signed_for_room_iff_named {R : Type} {P : Primitives} {honest : Octets → Prop}
    {made : Octets → Octets → Option Signable} (memory : InMemory P)
    (unforgeable : Unforgeable P honest made) :
    (∀ key bytes hb room, openHeartbeat P key bytes = .ok hb → honest hb.senderPubkey →
      (made hb.senderPubkey hb.signature = some (signableHeartbeat room hb) ↔ hb.room = room)) ∧
    (∀ key bytes ann room, openAnnouncement P key bytes = .ok ann → honest ann.senderPubkey →
      (made ann.senderPubkey ann.signature = some (signableAnnouncement room ann) ↔
        ann.room = room)) ∧
    (∀ circles (shares : ShareState R) now nowUnixMs bytes f,
      f ∈ (shares.handleInbound P circles now nowUnixMs bytes).2 → honest (sender f) →
        (SignedFor made defaultRoom f ↔ Names defaultRoom f)) ∧
    (∀ pubkey signature k k', honest pubkey → made pubkey signature = some k → k'.Fits →
      P.verifySignature pubkey k'.input signature = true → k' = k) ∧
    ∀ k k' : Signable, k.Fits → k'.Fits → k.input = k'.input → k = k' := by
  refine ⟨fun key bytes hb room opened sent => heartbeat_signed_iff memory unforgeable opened sent,
    fun key bytes ann room opened sent => announcement_signed_iff memory unforgeable opened sent,
    ?_, ?_, fun k k' => Signable.input_injective⟩
  · intro circles shares now nowUnixMs bytes f mem sent
    obtain ⟨lobby, -, opens⟩ := handleInbound_opens mem
    cases f with
    | memberWrite msg =>
      have short : Short (utf8 defaultRoom) := by decide
      exact iff_of_true (message_signed memory unforgeable opens short sent) trivial
    | heartbeat hb => exact heartbeat_signed_iff memory unforgeable opens sent
    | announcement ann =>
      obtain ⟨env, -, opened⟩ := opens
      exact announcement_signed_iff memory unforgeable opened sent
  · intro pubkey signature k k' sent held fits verified
    have again := unforgeable.made_eq sent fits verified
    rw [held, Option.some.injEq] at again
    exact again.symm

/-! ## A beacon of the attic, sealed again for the lobby -/

@[irreducible] def atticKey : Octets := List.replicate pkLen 7

@[irreducible] def atticSignature : Octets := List.replicate sigLen 9

theorem atticKey_length : atticKey.length = pkLen := by
  unfold atticKey
  exact List.length_replicate

theorem atticSignature_length : atticSignature.length = sigLen := by
  unfold atticSignature
  exact List.length_replicate

def atticBeacon : MemberHeartbeat where
  room := "attic"
  senderPubkey := atticKey
  senderHandle := ""
  sentUnixMs := 1700000000000
  signature := atticSignature
  liveShareIds := []
  isLeave := false

/-- The beacon in the wire schema. -/
def atticEncoded : Octets :=
  [0x0A, 5] ++ utf8 "attic" ++ [0x12, 0xA0, 0x14] ++ atticKey ++
    [0x20, 0x80, 0xD0, 0x95, 0xFF, 0xBC, 0x31] ++ [0x2A, 0x93, 0x24] ++ atticSignature

def atticPlaintext : Octets :=
  padded ((toBe 4 atticEncoded.length).reverse ++ atticEncoded) heartbeatPaddedPlaintextLen

/-- The frame a member of the attic who holds the key of the lobby puts there. -/
def atticFrame : Octets := List.replicate nonceLen 0 ++ atticPlaintext ++ List.replicate tagLen 0

def atticPrimitives : Primitives where
  gcmDecrypt _ _ aad ciphertext _ :=
    if aad = heartbeatAad then .ok ciphertext else .error .tagMismatch
  verifySignature pubkey message signature :=
    pubkey = atticBeacon.senderPubkey ∧ message = (signableHeartbeat "attic" atticBeacon).input ∧
      signature = atticBeacon.signature
  sha384 _ := []
  decodeRoomMessage _ := none
  decodeHeartbeat encoded := if encoded = atticEncoded then some atticBeacon else none
  decodeAnnouncement _ := none

/-- The sender signed its one beacon for the attic. -/
def atticMade (pubkey signature : Octets) : Option Signable :=
  if pubkey = atticBeacon.senderPubkey ∧ signature = atticBeacon.signature then
    some (signableHeartbeat "attic" atticBeacon)
  else none

def atticShares : ShareState Nat :=
  { ShareState.new presenceTtl with lobby := some ⟨List.replicate 32 1, .new presenceTtl⟩ }

theorem atticBeacon_fits : (signableHeartbeat "attic" atticBeacon).Fits := by
  intro f mem
  simp only [signableHeartbeat, Signable.fields, atticBeacon, List.map_nil, List.append_nil,
    List.cons_append, List.nil_append, List.mem_cons, List.not_mem_nil, or_false] at mem
  rcases mem with rfl | rfl | rfl | rfl | rfl
  · decide
  · simp [Short, atticKey_length, pkLen]
  · simp [Short, Signing.be64]
  · simp [Short]
  · decide

theorem attic_memory : InMemory atticPrimitives where
  heartbeat encoded hb h := by
    simp only [atticPrimitives, Option.ite_none_right_eq_some, Option.some.injEq] at h
    rw [← h.2]
    exact atticBeacon_fits
  announcement encoded ann h := by cases h
  message encoded msg room h := by cases h

theorem attic_unforgeable :
    Unforgeable atticPrimitives (· = atticBeacon.senderPubkey) atticMade where
  signed pubkey message signature sent verified := by
    simp only [atticPrimitives, decide_eq_true_eq] at verified
    exact ⟨_, if_pos ⟨verified.1, verified.2.2⟩, verified.2.1.symm⟩
  fits pubkey signature k h := by
    simp only [atticMade, Option.ite_none_right_eq_some, Option.some.injEq] at h
    rw [← h.2]
    exact atticBeacon_fits

theorem atticFrame_decrypted (key aad : Octets) :
    openEnvelope atticPrimitives key aad atticFrame =
      if aad = heartbeatAad then .ok atticPlaintext else .error (.decrypt .tagMismatch) := by
  unfold atticFrame
  rw [openEnvelope_append (by simp) (by simp)]
  show (if _ then _ else _ : Except GcmError Octets).mapError _ = _
  split <;> rfl

theorem atticEncoded_length : atticEncoded.length = 7239 := by
  simp only [atticEncoded, List.length_append, atticKey_length, atticSignature_length, pkLen, sigLen]
  decide

theorem atticFrame_opens (key : Octets) :
    openHeartbeat atticPrimitives key atticFrame = .ok atticBeacon := by
  have fits : ¬ heartbeatLenPrefix + atticEncoded.length > heartbeatPaddedPlaintextLen := by
    rw [atticEncoded_length]
    decide
  have unpadded : unpadPlaintext atticPlaintext = .ok atticEncoded :=
    unpadPlaintext_pad (if_neg fits)
  refine openHeartbeat_ok.2 ⟨?_, atticKey_length, atticSignature_length, ?_⟩
  · unfold carriedHeartbeat
    have read : atticPrimitives.decodeHeartbeat atticEncoded = some atticBeacon := if_pos rfl
    rw [atticFrame_decrypted, if_pos rfl]
    refine bind_ok.2 ⟨atticPlaintext, rfl, bind_ok.2 ⟨atticEncoded, unpadded, ?_⟩⟩
    rw [read]
    rfl
  · exact decide_eq_true ⟨rfl, rfl, rfl⟩

theorem atticBeacon_fresh : beaconIsFresh atticBeacon.sentUnixMs 1700000000000 = true := by
  decide

theorem roomMessageAad_ne : roomMessageAad ≠ heartbeatAad := by decide

theorem atticFrame_chat (key : Octets) :
    openRoomMessage atticPrimitives key defaultRoom atticFrame = .error .authentication := by
  refine openRoomMessage_refused (e := .decrypt .tagMismatch) ?_
  rw [atticFrame_decrypted, if_neg roomMessageAad_ne]

theorem atticFrame_folded :
    (atticShares.handleInbound atticPrimitives [] 0 1700000000000 atticFrame).2 =
      [.heartbeat atticBeacon] := by
  rw [handleInbound_heartbeat rfl rfl (atticFrame_chat _) (atticFrame_opens _)]
  unfold ShareState.foldHeartbeat
  rw [atticBeacon_fresh]
  rfl

/-- The client takes the beacon into the lobby, and it was never signed for the lobby. -/
theorem attic_replayed :
    Unforgeable atticPrimitives (· = atticBeacon.senderPubkey) atticMade ∧
      .heartbeat atticBeacon ∈
        (atticShares.handleInbound atticPrimitives [] 0 1700000000000 atticFrame).2 ∧
      ¬ SignedFor atticMade defaultRoom (.heartbeat atticBeacon) := by
  refine ⟨attic_unforgeable, by rw [atticFrame_folded]; exact List.mem_singleton_self _, ?_⟩
  intro signed
  have named : (some (signableHeartbeat "attic" atticBeacon) : Option Signable) =
      some (signableHeartbeat defaultRoom atticBeacon) :=
    (if_pos ⟨rfl, rfl⟩).symm.trans signed
  simp [signableHeartbeat, defaultRoom] at named

theorem signed_for_room_iff_named_attic :
    (SignedFor atticMade "attic" (.heartbeat atticBeacon) ↔ atticBeacon.room = "attic") ∧
      atticBeacon.room = "attic" :=
  ⟨(signed_for_room_iff_named (R := Nat) attic_memory attic_unforgeable).1 (List.replicate 32 1)
    atticFrame atticBeacon "attic" (atticFrame_opens _) rfl, rfl⟩

end Daemonseed.Room.Provenance
