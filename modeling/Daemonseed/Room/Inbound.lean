import Daemonseed.Room.Catalog
import Daemonseed.Room.RouteGuard
import Daemonseed.Room.Sealed

/-! # What the session folds of the frames it is handed

A frame is tried as a message of each circle, as a message of the lobby, as a
beacon of a member of the lobby and last as a share discovered there. `R` are
the ids under which the transport holds imported routes. -/
namespace Daemonseed.Room.Inbound
open Daemonseed.Lib.Bytes Daemonseed.Lib.Lines Daemonseed.Lib.Maps Daemonseed.Room.Catalog
  Daemonseed.Room.Presence Daemonseed.Room.RouteGuard Daemonseed.Room.Sealed Daemonseed.Room.Wire

/-! ## The envelope of a discovered share -/

/-- A sealed announcement and the signed route the share is served over. -/
structure DiscoveryEnvelope where
  sealedAnnouncement : Octets
  routeBlob : Octets
  routeSig : Octets
  deriving DecidableEq

/-- One field after its length. -/
def takeField (rest : Octets) : Option (Octets × Octets) := do
  let (lenBytes, afterLen) ← takeFront 4 rest
  takeFront (fromBe lenBytes) afterLen

namespace DiscoveryEnvelope

def encode (self : DiscoveryEnvelope) : Octets :=
  [self.sealedAnnouncement, self.routeBlob, self.routeSig].flatMap
    fun field => toBe 4 field.length ++ field

/-- Three fields and nothing after them. -/
def decode (bytes : Octets) : Option DiscoveryEnvelope := do
  let (sealedAnnouncement, rest) ← takeField bytes
  let (routeBlob, rest) ← takeField rest
  let (routeSig, rest) ← takeField rest
  if rest.isEmpty then some { sealedAnnouncement, routeBlob, routeSig } else none

theorem takeField_append {field : Octets} (rest : Octets) (short : field.length < 256 ^ 4) :
    takeField (toBe 4 field.length ++ field ++ rest) = some (field, rest) := by
  have front : takeFront 4 (toBe 4 field.length ++ (field ++ rest)) =
      some (toBe 4 field.length, field ++ rest) := by
    have h := takeFront_append (toBe 4 field.length) (field ++ rest)
    rwa [toBe_length] at h
  unfold takeField
  rw [List.append_assoc, front]
  show takeFront (fromBe (toBe 4 field.length)) (field ++ rest) = _
  rw [fromBe_toBe, Nat.mod_eq_of_lt short]
  exact takeFront_append field rest

/-- What is encoded is read back, where its fields fit. -/
theorem decode_encode {env : DiscoveryEnvelope}
    (announcement : env.sealedAnnouncement.length < 256 ^ 4)
    (blob : env.routeBlob.length < 256 ^ 4) (sig : env.routeSig.length < 256 ^ 4) :
    decode env.encode = some env := by
  have first := takeField_append (toBe 4 env.routeBlob.length ++ env.routeBlob ++
    (toBe 4 env.routeSig.length ++ env.routeSig ++ [])) announcement
  have second := takeField_append (toBe 4 env.routeSig.length ++ env.routeSig ++ []) blob
  have third := takeField_append [] sig
  unfold decode encode
  simp only [List.flatMap_cons, List.flatMap_nil, first, second, third, Option.bind_eq_bind,
    Option.bind_some, List.isEmpty_nil, if_true]

end DiscoveryEnvelope

/-! ## The state -/

def defaultRoom : String := "lobby"

structure DiscoveredRoute where
  routeBlob : Octets
  senderPubkey : Octets
  generation : Nat
  unresolved : Bool
  deriving DecidableEq

def browseRetryWindow : Duration := fromSecs 600

structure ParkedBrowseRetry where
  name : String
  parkedGeneration : Nat
  deadline : Instant
  deriving DecidableEq

def ParkedBrowseRetry.park (name : String) (generation : Nat) (now : Instant) :
    ParkedBrowseRetry :=
  ⟨name, generation, now + browseRetryWindow⟩

structure LobbyRendezvous where
  roomKey : Octets
  presence : PresenceTracker

/-- The part of the session's state that the frames of the lobby are folded into. -/
structure ShareState (R : Type) where
  signing : Option Octets
  lobby : Option LobbyRendezvous
  catalog : ShareCatalog
  discovered : Map String DiscoveredRoute
  nextGeneration : Nat
  parkedRetries : Map String ParkedBrowseRetry
  routeGuard : ImportedRouteGuard String R
  pendingRouteReleases : List R

structure VeilidCircle where
  circleId : UInt64
  cotKey : Octets

/-- What a frame was folded as, once its signature was verified. -/
inductive Fold
  | memberWrite (msg : RoomMessage)
  | heartbeat (hb : MemberHeartbeat)
  | announcement (ann : ShareAnnouncement)
  deriving DecidableEq

variable {R : Type}

namespace ShareState

def new (ttl : Duration) : ShareState R where
  signing := none
  lobby := none
  catalog := .new ttl
  discovered := ∅
  nextGeneration := 0
  parkedRetries := ∅
  routeGuard := .new
  pendingRouteReleases := []

def isOwn (self : ShareState R) (pubkey : Octets) : Bool := self.signing == some pubkey

def foldPresence (self : ShareState R) (fold : PresenceTracker → PresenceTracker) : ShareState R :=
  { self with lobby := self.lobby.map fun lobby => { lobby with presence := fold lobby.presence } }

/-! ## Shares discovered -/

/-- A withdrawal whose share id is bound to its signer. -/
def foldWithdraw (P : Primitives) (self : ShareState R) (ann : ShareAnnouncement) (now : Instant) :
    ShareState R :=
  let (change, catalog) := self.catalog.applyVerified P.sha384 ann now
  if change = CatalogChange.removed then
    let (route, routeGuard) := self.routeGuard.noteShareWithdrawn ann.shareId
    { self with
      catalog
      discovered := self.discovered.erase ann.shareId
      parkedRetries := self.parkedRetries.erase ann.shareId
      routeGuard
      pendingRouteReleases := self.pendingRouteReleases ++ route.toList }
  else { self with catalog }

/-- The route a fetch of the share would import was replaced by another one. -/
def supersede (self : ShareState R) (shareId : String) : ShareState R :=
  let (route, routeGuard) := self.routeGuard.noteAdvertReplaced shareId
  { self with
    parkedRetries := self.parkedRetries.erase shareId
    routeGuard
    pendingRouteReleases := self.pendingRouteReleases ++ route.toList }

/-- An announcement whose share id and whose route are bound to its signer. -/
def foldAdvert (P : Primitives) (self : ShareState R) (ann : ShareAnnouncement)
    (routeBlob : Octets) (now : Instant) : ShareState R :=
  let (change, catalog) := self.catalog.applyVerified P.sha384 ann now
  let prior := self.discovered.lookup ann.shareId
  -- the catalog knows nothing of routes: another blob is taken whatever the catalog says
  let routeReplaced := prior.any fun d => d.routeBlob ≠ routeBlob
  if change ≠ CatalogChange.unchanged ∨ routeReplaced = true then
    let generation := self.nextGeneration + 1
    let wasUnresolved := prior.any (·.unresolved)
    let route : DiscoveredRoute :=
      { routeBlob, senderPubkey := ann.senderPubkey, generation
        unresolved := if routeReplaced then false else wasUnresolved }
    let held : ShareState R :=
      { self with
        catalog
        nextGeneration := generation
        discovered := self.discovered.insert ann.shareId route }
    if routeReplaced then held.supersede ann.shareId else held
  else { self with catalog }

/-- Whether the frame was a share's, and what it was folded as. -/
def applyDiscovery (P : Primitives) (self : ShareState R) (now : Instant) (bytes : Octets) :
    Bool × ShareState R × List Fold :=
  match self.lobby with
  | none => (false, self, [])
  | some lobby =>
    match DiscoveryEnvelope.decode bytes with
    | none => (false, self, [])
    | some env =>
      match openAnnouncement P lobby.roomKey env.sealedAnnouncement with
      | .error _ => (false, self, [])
      | .ok ann =>
        if self.isOwn ann.senderPubkey then (true, self, [])
        else if !shareBindingIsValid P.sha384 ann then (true, self, [])
        else if ann.withdraw then (true, self.foldWithdraw P ann now, [.announcement ann])
        else if !verifyRouteAdvert P ann.senderPubkey ann.shareId env.routeBlob env.routeSig then
          (true, self, [])
        else (true, self.foldAdvert P ann env.routeBlob now, [.announcement ann])

/-! ## Any frame -/

/-- The first circle that a frame opens under. -/
def openedByCircle (P : Primitives) (circles : List VeilidCircle) (bytes : Octets) : Bool :=
  circles.any fun circle => (openMessage P circle.cotKey bytes).isOk

/-- A message of the lobby also says that its sender is there. -/
def foldLobbyMessage (self : ShareState R) (now : Instant) (nowUnixMs : Int) (msg : RoomMessage) :
    ShareState R × List Fold :=
  if self.isOwn msg.senderPubkey then (self, [])
  else if beaconIsFresh msg.sentUnixMs nowUnixMs then
    (self.foldPresence fun presence =>
      (presence.applyMemberWrite defaultRoom msg.senderPubkey msg.senderHandle msg.sentUnixMs
        now).2, [.memberWrite msg])
  else (self, [])

def foldHeartbeat (self : ShareState R) (now : Instant) (nowUnixMs : Int) (hb : MemberHeartbeat) :
    ShareState R × List Fold :=
  if !self.isOwn hb.senderPubkey && beaconIsFresh hb.sentUnixMs nowUnixMs then
    (self.foldPresence fun presence => (presence.apply hb now).2, [.heartbeat hb])
  else (self, [])

def handleInbound (P : Primitives) (circles : List VeilidCircle) (self : ShareState R)
    (now : Instant) (nowUnixMs : Int) (bytes : Octets) : ShareState R × List Fold :=
  if openedByCircle P circles bytes then (self, [])
  else
    match self.lobby with
    | none => (self, [])
    | some lobby =>
      match openRoomMessage P lobby.roomKey defaultRoom bytes with
      | .ok msg => self.foldLobbyMessage now nowUnixMs msg
      | .error _ =>
        match openHeartbeat P lobby.roomKey bytes with
        | .ok hb => self.foldHeartbeat now nowUnixMs hb
        | .error _ => (self.applyDiscovery P now bytes).2

end ShareState

end Daemonseed.Room.Inbound
