import Daemonseed.Lib.Maps
import Daemonseed.Lib.Results
import Daemonseed.Lib.Runs
import Daemonseed.Net.ShareServe
import Daemonseed.Room.Inbound

/-! # Publishing a share

A publish indexes the folder, seals its announcement, registers the content to
be served and announces it under a fresh route. What this client shares is kept
in four places: the list the interface folds from the publish events, the own
shares of the session, the registry of the node that answers chunk requests,
and the adverts the node remembers and publishes again. Each step of a publish
may fail, and a call to the node may be lost before or after it is handled. The
derivations of a share's id are parameters. -/
namespace Daemonseed.Net.Publishing
open Daemonseed.Lib.Bytes Daemonseed.Lib.Maps Daemonseed.Lib.Results Daemonseed.Lib.Runs
  Daemonseed.Net.ShareServe Daemonseed.Room.Catalog Daemonseed.Room.Inbound

/-- What is derived from an identity and a folder. -/
structure Derivations where
  shareRootNonce : Octets → String → Octets
  rootCommitment : String → Octets → Octets
  sha384 : Octets → Octets

/-! ## The node -/

abbrev RouteAdvertSigner := String → Octets → Except VeilidNetError Octets

structure AdvertState where
  ownerSeed : Octets
  sealedAnnouncement : Octets
  signer : RouteAdvertSigner

/-- What the node's actor keeps of the shares; `released` are the routes it
gave back. -/
structure Node (R : Type) where
  shares : Map String (ServedShare × Octets)
  shareAdverts : Map String AdvertState
  advertRoutes : Map String R
  released : List R

/-- What one announcement meets on the network. -/
structure Announcing (R : Type) where
  newPrivateRoute : Except VeilidNetError (R × Octets)
  write : Octets → Except VeilidNetError Unit

/-- How a call to the node's actor goes: it may be gone, or drop the reply to
what it handled. -/
inductive Delivery
  | answered
  | gone
  | dropped
  deriving DecidableEq

variable {R : Type}

def Delivery.send (delivery : Delivery) (node : Node R)
    (handled : Node R × Except VeilidNetError Unit) : Node R × Except VeilidNetError Unit :=
  match delivery with
  | .answered => handled
  | .gone => (node, .error (.actor "actor task is gone"))
  | .dropped => (handled.1, .error (.actor "actor dropped the reply"))

namespace Node

def new : Node R := ⟨∅, ∅, ∅, []⟩

def releaseAnyAdvertRoute (self : Node R) (shareId : String) : Node R :=
  { self with
    advertRoutes := self.advertRoutes.erase shareId
    released := (self.advertRoutes.lookup shareId).toList ++ self.released }

def serveShare (self : Node R) (shareId : String) (content : ChunkSource) (roomKey : Octets) :
    Node R × Except VeilidNetError Unit :=
  ({ self with shares := self.shares.insert shareId (.new content, roomKey) }, .ok ())

def stopServe (self : Node R) (shareId : String) : Node R × Except VeilidNetError Unit :=
  ({ self with
      shares := self.shares.erase shareId
      shareAdverts := self.shareAdverts.erase shareId }.releaseAnyAdvertRoute shareId, .ok ())

variable [DecidableEq R]

/-- Only the route a call allocated is taken back by it. -/
def releaseOwnAdvertRoute (self : Node R) (shareId : String) (route : R) : Node R :=
  if self.advertRoutes.lookup shareId = some route then self.releaseAnyAdvertRoute shareId else self

/-- The route installed for a share; the one before it is given back. -/
def routed (self : Node R) (shareId : String) (route : R) : Node R :=
  { self with
    advertRoutes := self.advertRoutes.insert shareId route
    released := (self.advertRoutes.lookup shareId).toList ++ self.released }

def publishOneAdvert (self : Node R) (shareId : String) (advert : AdvertState) (persist : Bool)
    (env : Announcing R) : Node R × Except VeilidNetError Unit :=
  match env.newPrivateRoute with
  | .error e => (self, .error e)
  | .ok (route, blob) =>
    let node := self.routed shareId route
    match advert.signer shareId blob with
    | .error e => (node.releaseOwnAdvertRoute shareId route, .error e)
    | .ok sig =>
      match env.write (DiscoveryEnvelope.mk advert.sealedAnnouncement blob sig).encode with
      | .error e => (node.releaseOwnAdvertRoute shareId route, .error e)
      | .ok () => (if persist then node else node.releaseOwnAdvertRoute shareId route, .ok ())

/-- A live share is remembered before its advert is written. -/
def publishShare (self : Node R) (shareId : String) (advert : AdvertState) (persist : Bool)
    (env : Announcing R) : Node R × Except VeilidNetError Unit :=
  (if persist then { self with shareAdverts := self.shareAdverts.insert shareId advert }
    else self).publishOneAdvert shareId advert persist env

end Node

/-! ## The session -/

structure OwnShare where
  shareId : String
  rootCommitment : Octets
  name : String
  rating : String
  sharerHandle : String

structure ShareListing where
  shareId : String
  name : String
  rating : String
  sharerHandle : String
  sharerFingerprint : String
  mine : Bool
  unresolved : Bool

structure Signing where
  publicKey : Octets
  signRouteAdvert : RouteAdvertSigner

structure LobbyRoom where
  roomKey : Octets
  shareOwnerSeed : Octets

/-- What a command about shares reads and writes; `catalog` are the rows of
the discovered shares. -/
structure Session (R : Type) where
  net : Option (Node R)
  signing : Option Signing
  shareRootIkm : Option Octets
  lobby : Option LobbyRoom
  own : List OwnShare
  catalog : List ShareListing

inductive NetEvent
  | publishStarted (shareId name : String) (fileCount : Nat) (root : String)
      (restored republishing : Bool)
  | publishStopped (shareId : String)
  | publishError (message : String)
  | sharesSnapshot (shares : List ShareListing)

def OwnShare.listing (self : OwnShare) : ShareListing where
  shareId := self.shareId
  name := self.name
  rating := self.rating
  sharerHandle := self.sharerHandle
  sharerFingerprint := ""
  mine := true
  unresolved := false

/-- Own shares first, each id once. -/
def Session.listings (self : Session R) : List ShareListing :=
  (self.own.map OwnShare.listing ++ self.catalog).foldl
    (fun out row => if out.any (·.shareId == row.shareId) then out else out ++ [row]) []

def upsertOwnShare (own : List OwnShare) (entry : OwnShare) : List OwnShare :=
  own.filter (·.shareId != entry.shareId) ++ [entry]

def defaultRoom : String := "lobby"

structure AnnouncementFields where
  room : String
  senderHandle : String
  shareId : String
  rootCommitment : Octets
  name : String
  rating : String
  withdraw : Bool
  sentUnixMs : Int

/-- Sealing an announcement under a room key, with the randomness it draws. -/
abbrev Seals := Octets → Signing → AnnouncementFields → Except String Octets

inductive IndexFailure
  | hashing (e : String)
  | task

def IndexFailure.text (root : String) : IndexFailure → String
  | .hashing e => "could not index " ++ root ++ ": " ++ e
  | .task => "share-index task failed"

/-- What one publish meets; `index` is what hashing the folder gives. -/
structure Attempt (R : Type) where
  unsafeRoot : Bool
  index : Except IndexFailure ChunkSource
  sealPublicAnnouncement : Seals
  now : Int
  serve : Delivery
  announce : Delivery
  announcing : Announcing R

/-- What one unpublish meets. -/
structure Withdrawal (R : Type) where
  sealPublicAnnouncement : Seals
  now : Int
  announce : Delivery
  announcing : Announcing R
  stop : Delivery

/-- A publish whose announcement is sealed. -/
structure Prepared (R : Type) where
  node : Node R
  signing : Signing
  lobby : LobbyRoom
  content : ChunkSource
  entry : OwnShare
  announcement : Octets

def checkRoot (unsafeRoot : Bool) (root : String) : Except String Unit :=
  if unsafeRoot then
    .error ("refusing to publish " ++ root ++
      " — pick a specific folder, not your home or a system directory")
  else .ok ()

/-- The refusals made before a publish changes anything. -/
def prepare (D : Derivations) (s : Session R) (a : Attempt R) (root name sharerHandle : String) :
    Except String (Prepared R) := do
  checkRoot a.unsafeRoot root
  let node ← okOr s.net "not connected to Veilid yet"
  let signing ← okOr s.signing "no identity to sign the announcement"
  let ikm ← okOr s.shareRootIkm "no identity to derive the share id"
  let lobby ← okOr s.lobby "lobby not subscribed yet"
  let content ← a.index.mapError (IndexFailure.text root)
  let rootCommitment := D.rootCommitment root (D.shareRootNonce ikm root)
  let entry : OwnShare := {
    shareId := deriveShareIdV2 D.sha384 signing.publicKey rootCommitment
    rootCommitment
    name
    rating := ""
    sharerHandle }
  let announcement ← (a.sealPublicAnnouncement lobby.roomKey signing {
    room := defaultRoom
    senderHandle := sharerHandle
    shareId := entry.shareId
    rootCommitment
    name
    rating := entry.rating
    withdraw := false
    sentUnixMs := a.now }).mapError ("could not seal share announcement: " ++ ·)
  return ⟨node, signing, lobby, content, entry, announcement⟩

namespace Prepared

def advert (self : Prepared R) : AdvertState :=
  ⟨self.lobby.shareOwnerSeed, self.announcement, self.signing.signRouteAdvert⟩

def started (self : Prepared R) (root : String) (restored republishing : Bool) : NetEvent :=
  .publishStarted self.entry.shareId self.entry.name self.content.manifest.length root restored
    republishing

/-- The node after the content was to be registered. -/
def served (self : Prepared R) (a : Attempt R) : Node R × Except VeilidNetError Unit :=
  a.serve.send self.node (self.node.serveShare self.entry.shareId self.content self.lobby.roomKey)

/-- The node after the share was to be announced. -/
def announced [DecidableEq R] (self : Prepared R) (node : Node R) (a : Attempt R) :
    Node R × Except VeilidNetError Unit :=
  a.announce.send node (node.publishShare self.entry.shareId self.advert true a.announcing)

end Prepared

variable [DecidableEq R]

def publishShare (D : Derivations) (s : Session R) (a : Attempt R) (root name sharerHandle : String)
    (restored : Bool) : Session R × List NetEvent :=
  match prepare D s a root name sharerHandle with
  | .error message => (s, [.publishError message])
  | .ok p =>
    match p.served a with
    | (node, .error e) => ({ s with net := some node },
        [p.started root restored true, .publishStopped p.entry.shareId,
          .publishError ("could not register share to serve: " ++ e.text)])
    | (node, .ok ()) =>
      match p.announced node a with
      | (node, .error e) => ({ s with net := some node },
          [p.started root restored true, .publishStopped p.entry.shareId,
            .publishError ("could not announce share: " ++ e.text)])
      | (node, .ok ()) =>
        let s := { s with net := some node, own := upsertOwnShare s.own p.entry }
        (s, [p.started root restored true, .sharesSnapshot s.listings,
          p.started root restored false])

/-- The withdrawal of a share from the catalogs of the listeners. -/
def postShareWithdraw (s : Session R) (node : Node R) (w : Withdrawal R) (shareId : String)
    (own : Option OwnShare) : Node R :=
  match s.signing, s.lobby with
  | some signing, some lobby =>
    let own := own.getD ⟨shareId, [], "", "", ""⟩
    match w.sealPublicAnnouncement lobby.roomKey signing {
      room := defaultRoom
      senderHandle := own.sharerHandle
      shareId := own.shareId
      rootCommitment := own.rootCommitment
      name := own.name
      rating := own.rating
      withdraw := true
      sentUnixMs := w.now } with
    | .ok announcement =>
      (w.announce.send node (node.publishShare shareId
        ⟨lobby.shareOwnerSeed, announcement, signing.signRouteAdvert⟩ false w.announcing)).1
    | .error _ => node
  | _, _ => node

def unpublishShare (s : Session R) (w : Withdrawal R) (shareId : String) :
    Session R × List NetEvent :=
  let own := s.own.find? (·.shareId == shareId)
  let s := { s with own := s.own.filter (·.shareId != shareId) }
  let net := s.net.map fun node =>
    let node := postShareWithdraw s node w shareId own
    (w.stop.send node (node.stopServe shareId)).1
  ({ s with net }, [.sharesSnapshot s.listings, .publishStopped shareId])

/-! ## The interface -/

structure MyShare where
  id : String
  name : String
  files : Nat
  root : String
  republishing : Bool

def addMyShare (mine : List MyShare) (share : MyShare) : List MyShare :=
  mine.filter (·.id != share.id) ++ [share]

def removeMyShare (mine : List MyShare) (id : String) : List MyShare := mine.filter (·.id != id)

/-- How the interface takes an event. -/
def shown (mine : List MyShare) : NetEvent → List MyShare
  | .publishStarted shareId name fileCount root _ republishing =>
    addMyShare mine ⟨shareId, name, fileCount, root, republishing⟩
  | .publishStopped shareId => removeMyShare mine shareId
  | .publishError _ | .sharesSnapshot _ => mine

structure Client (R : Type) where
  session : Session R
  myShares : List MyShare

/-- A command about shares, or what a session meets between two of them: a
node connects, or the identity, the lobby or the catalog changes. -/
inductive Command (R : Type)
  | publishShare (attempt : Attempt R) (root name sharerHandle : String) (restored : Bool)
  | unpublishShare (withdrawal : Withdrawal R) (shareId : String)
  | connected
  | credentials (signing : Option Signing) (shareRootIkm : Option Octets) (lobby : Option LobbyRoom)
      (catalog : List ShareListing)

namespace Client

def new : Client R := ⟨⟨none, none, none, none, [], []⟩, []⟩

def handled (D : Derivations) (self : Client R) : Command R → Session R × List NetEvent
  | .publishShare a root name sharerHandle restored =>
    Publishing.publishShare D self.session a root name sharerHandle restored
  | .unpublishShare w shareId => Publishing.unpublishShare self.session w shareId
  | .connected => ({ self.session with net := some (self.session.net.getD .new) }, [])
  | .credentials signing shareRootIkm lobby catalog =>
    ({ self.session with signing, shareRootIkm, lobby, catalog }, [])

def step (D : Derivations) (self : Client R) (command : Command R) : Client R where
  session := (self.handled D command).1
  myShares := (self.handled D command).2.foldl shown self.myShares

end Client

/-! ## The four places -/

namespace Client

def Lists (self : Client R) (id : String) : Prop := id ∈ self.myShares.map MyShare.id

def Owns (self : Client R) (id : String) : Prop := id ∈ self.session.own.map OwnShare.shareId

def Serves (self : Client R) (id : String) : Prop :=
  ∃ node, self.session.net = some node ∧ id ∈ node.shares

def Remembers (self : Client R) (id : String) : Prop :=
  ∃ node, self.session.net = some node ∧ id ∈ node.shareAdverts

structure Everywhere (client : Client R) (id : String) : Prop where
  lists : client.Lists id
  owns : client.Owns id
  serves : client.Serves id
  remembers : client.Remembers id

structure Nowhere (client : Client R) (id : String) : Prop where
  lists : ¬client.Lists id
  owns : ¬client.Owns id
  serves : ¬client.Serves id
  remembers : ¬client.Remembers id

/-- The four places agree on every share. -/
def Agreed (self : Client R) : Prop := ∀ id, self.Everywhere id ∨ self.Nowhere id

/-- A command leaves nothing half published: the places agree after it, and a
publish that ended in an error changed nothing that was published. -/
def Whole (D : Derivations) (self : Client R) (command : Command R) : Prop :=
  (self.step D command).Agreed ∧
    ((∃ message, .publishError message ∈ (self.handled D command).2) → ∀ id,
      (self.Everywhere id → (self.step D command).Everywhere id) ∧
        (self.Nowhere id → (self.step D command).Nowhere id))

/-- The announcement finds a route, its advert is signed and its record
written. -/
def Lands (a : Attempt R) (p : Prepared R) : Prop :=
  a.announce = .answered ∧ ∃ route blob sig, a.announcing.newPrivateRoute = .ok (route, blob) ∧
    p.signing.signRouteAdvert p.entry.shareId blob = .ok sig ∧
    a.announcing.write (DiscoveryEnvelope.mk p.announcement blob sig).encode = .ok ()

/-- A publish fails before its announcement is sealed or not at all, but for
one of a share that was not published whose request to serve it never reached
the node; and the request to stop serving a share reaches the node. -/
def Undisturbed (D : Derivations) (self : Client R) : Command R → Prop
  | .publishShare a root name sharerHandle _ =>
    ∀ p, prepare D self.session a root name sharerHandle = .ok p →
      a.serve = .answered ∧ Lands a p ∨ a.serve = .gone ∧ ¬self.Owns p.entry.shareId
  | .unpublishShare w shareId => w.stop = .gone → ¬self.Serves shareId
  | .connected | .credentials _ _ _ _ => True

end Client

/-! ## What the node does to its places -/

section

variable {node : Node R} {shareId id : String} {advert : AdvertState} {persist : Bool}
  {env : Announcing R} {content : ChunkSource} {roomKey : Octets}

theorem releaseOwn_keeps (route : R) :
    (node.releaseOwnAdvertRoute shareId route).shares = node.shares ∧
      (node.releaseOwnAdvertRoute shareId route).shareAdverts = node.shareAdverts := by
  unfold Node.releaseOwnAdvertRoute
  split <;> exact ⟨rfl, rfl⟩

theorem publishOneAdvert_keeps :
    (node.publishOneAdvert shareId advert persist env).1.shares = node.shares ∧
      (node.publishOneAdvert shareId advert persist env).1.shareAdverts = node.shareAdverts := by
  unfold Node.publishOneAdvert
  split
  · exact ⟨rfl, rfl⟩
  · next route blob _ =>
    have routed : _ ∧ _ := @releaseOwn_keeps R _ (node.routed shareId route) shareId route
    dsimp only
    split
    · exact routed
    · split
      · exact routed
      · split
        · exact ⟨rfl, rfl⟩
        · exact routed

theorem publishOneAdvert_ok :
    (node.publishOneAdvert shareId advert persist env).2 = .ok () ↔
      ∃ route blob sig, env.newPrivateRoute = .ok (route, blob) ∧
        advert.signer shareId blob = .ok sig ∧
        env.write (DiscoveryEnvelope.mk advert.sealedAnnouncement blob sig).encode = .ok () := by
  unfold Node.publishOneAdvert
  split
  · next failed => simp [failed]
  · next route blob found =>
    simp only [found, Except.ok.injEq, Prod.mk.injEq]
    split
    · next refused => simp [refused]
    · next sig signed => split <;> simp_all

omit [DecidableEq R] in
theorem send_ok {delivery : Delivery} {handled : Node R × Except VeilidNetError Unit} :
    (delivery.send node handled).2 = .ok () ↔ delivery = .answered ∧ handled.2 = .ok () := by
  cases delivery <;> simp [Delivery.send]

omit [DecidableEq R] in
theorem send_lost {delivery : Delivery} {handled : Node R × Except VeilidNetError Unit}
    (lost : delivery ≠ .answered) : ∃ e, (delivery.send node handled).2 = .error e := by
  cases delivery with
  | answered => exact absurd rfl lost
  | gone => exact ⟨_, rfl⟩
  | dropped => exact ⟨_, rfl⟩

omit [DecidableEq R] in
theorem send_handled {delivery : Delivery} {handled : Node R × Except VeilidNetError Unit}
    (reached : delivery ≠ .gone) : (delivery.send node handled).1 = handled.1 := by
  cases delivery with
  | answered | dropped => rfl
  | gone => exact absurd rfl reached

omit [DecidableEq R] in
/-- A call leaves the node as it was or as it was handled. -/
theorem send_keeps {I : Node R → Prop} {delivery : Delivery}
    {handled : Node R × Except VeilidNetError Unit} (before : I node) (after : I handled.1) :
    I (delivery.send node handled).1 := by
  cases delivery with
  | answered | dropped => exact after
  | gone => exact before

theorem publishShare_serves :
    id ∈ (node.publishShare shareId advert persist env).1.shares ↔ id ∈ node.shares := by
  unfold Node.publishShare
  rw [publishOneAdvert_keeps.1]
  split <;> exact Iff.rfl

theorem publishShare_remembers :
    id ∈ (node.publishShare shareId advert true env).1.shareAdverts ↔
      id = shareId ∨ id ∈ node.shareAdverts := by
  unfold Node.publishShare
  rw [publishOneAdvert_keeps.2, if_pos rfl, AList.mem_insert]

theorem withdraw_remembers :
    id ∈ (node.publishShare shareId advert false env).1.shareAdverts ↔ id ∈ node.shareAdverts := by
  unfold Node.publishShare
  rw [publishOneAdvert_keeps.2, if_neg Bool.false_ne_true]

end

/-! ## What the events do to the list -/

section

variable {mine : List MyShare} {share : MyShare} {id shareId : String}

theorem mem_removeMyShare :
    id ∈ (removeMyShare mine shareId).map MyShare.id ↔ id ≠ shareId ∧ id ∈ mine.map MyShare.id := by
  simp only [removeMyShare, List.mem_map, List.mem_filter, bne_iff_ne]
  constructor
  · rintro ⟨s, ⟨held, apart⟩, rfl⟩
    exact ⟨apart, s, held, rfl⟩
  · rintro ⟨apart, s, held, rfl⟩
    exact ⟨s, ⟨held, apart⟩, rfl⟩

theorem mem_addMyShare :
    id ∈ (addMyShare mine share).map MyShare.id ↔ id = share.id ∨ id ∈ mine.map MyShare.id := by
  rw [addMyShare, List.map_append, List.mem_append,
    show mine.filter (·.id != share.id) = removeMyShare mine share.id from rfl, mem_removeMyShare,
    List.map_singleton, List.mem_singleton]
  by_cases same : id = share.id <;> simp [same]

end

theorem mem_withdrawn {own : List OwnShare} {id shareId : String} :
    id ∈ (own.filter (·.shareId != shareId)).map OwnShare.shareId ↔
      id ≠ shareId ∧ id ∈ own.map OwnShare.shareId := by
  simp only [List.mem_map, List.mem_filter, bne_iff_ne]
  constructor
  · rintro ⟨o, ⟨held, apart⟩, rfl⟩
    exact ⟨apart, o, held, rfl⟩
  · rintro ⟨apart, o, held, rfl⟩
    exact ⟨o, ⟨held, apart⟩, rfl⟩

theorem mem_upsertOwnShare {own : List OwnShare} {entry : OwnShare} {id : String} :
    id ∈ (upsertOwnShare own entry).map OwnShare.shareId ↔
      id = entry.shareId ∨ id ∈ own.map OwnShare.shareId := by
  rw [upsertOwnShare, List.map_append, List.mem_append, mem_withdrawn, List.map_singleton,
    List.mem_singleton]
  by_cases same : id = entry.shareId <;> simp [same]

/-! ## How a publish ends -/

section

variable {D : Derivations} {s : Session R} {a : Attempt R} {root name sharerHandle : String}
  {restored : Bool} {p : Prepared R}

omit [DecidableEq R] in
theorem prepare_net (ok : prepare D s a root name sharerHandle = .ok p) : s.net = some p.node := by
  unfold prepare at ok
  obtain ⟨_, _, ok⟩ := bind_ok.1 ok
  obtain ⟨node, net, ok⟩ := bind_ok.1 ok
  obtain ⟨_, _, ok⟩ := bind_ok.1 ok
  obtain ⟨_, _, ok⟩ := bind_ok.1 ok
  obtain ⟨_, _, ok⟩ := bind_ok.1 ok
  obtain ⟨_, _, ok⟩ := bind_ok.1 ok
  obtain ⟨_, _, ok⟩ := bind_ok.1 ok
  cases ok
  exact okOr_ok.1 net

/-- The state and the events a failed publish leaves. -/
def failed (s : Session R) (p : Prepared R) (node : Node R) (root : String) (restored : Bool)
    (message : String) : Session R × List NetEvent :=
  ({ s with net := some node },
    [p.started root restored true, .publishStopped p.entry.shareId, .publishError message])

/-- The state and the events a publish that ended well leaves. -/
def landed (s : Session R) (p : Prepared R) (node : Node R) (root : String) (restored : Bool) :
    Session R × List NetEvent :=
  let s := { s with net := some node, own := upsertOwnShare s.own p.entry }
  (s, [p.started root restored true, .sharesSnapshot s.listings, p.started root restored false])

omit [DecidableEq R] in
theorem served_ok : (p.served a).2 = .ok () ↔ a.serve = .answered := by
  rw [Prepared.served, send_ok]
  exact and_iff_left rfl

theorem announced_ok {node : Node R} : (p.announced node a).2 = .ok () ↔ Client.Lands a p := by
  rw [Prepared.announced, send_ok, Client.Lands, Node.publishShare, publishOneAdvert_ok]
  rfl

theorem publishShare_prepared (ok : prepare D s a root name sharerHandle = .ok p) :
    (a.serve ≠ .answered ∧ ∃ message, publishShare D s a root name sharerHandle restored =
      failed s p (p.served a).1 root restored message) ∨
    (a.serve = .answered ∧ ¬Client.Lands a p ∧ ∃ message,
      publishShare D s a root name sharerHandle restored =
        failed s p (p.announced (p.served a).1 a).1 root restored message) ∨
    (a.serve = .answered ∧ Client.Lands a p ∧ publishShare D s a root name sharerHandle restored =
      landed s p (p.announced (p.served a).1 a).1 root restored) := by
  unfold publishShare
  rw [ok]
  dsimp only
  cases served : p.served a with
  | mk node answer =>
    cases answer with
    | error e =>
      refine .inl ⟨fun answered => ?_, _, rfl⟩
      rw [← served_ok (p := p), served] at answered
      cases answered
    | ok reply =>
      have answered : a.serve = .answered := (served_ok (p := p)).1 (by rw [served])
      refine .inr ?_
      dsimp only
      cases announced : p.announced node a with
      | mk node' answer =>
        cases answer with
        | error e =>
          refine .inl ⟨answered, fun lands => ?_, _, rfl⟩
          have sent := (announced_ok.2 lands : (p.announced node a).2 = .ok ())
          rw [announced] at sent
          cases sent
        | ok reply => exact .inr ⟨answered, announced_ok.1 (by rw [announced]), rfl⟩

end

/-! ## The places after a command -/

namespace Client

section

variable {c : Client R} {node : Node R} {id : String} {D : Derivations}

omit [DecidableEq R] in
theorem serves_some (net : c.session.net = some node) : c.Serves id ↔ id ∈ node.shares := by
  simp [Serves, net]

omit [DecidableEq R] in
theorem remembers_some (net : c.session.net = some node) :
    c.Remembers id ↔ id ∈ node.shareAdverts := by
  simp [Remembers, net]

omit [DecidableEq R] in
theorem Agreed.iffs (agreed : c.Agreed) (id : String) :
    (c.Lists id ↔ c.Owns id) ∧ (c.Serves id ↔ c.Owns id) ∧ (c.Remembers id ↔ c.Owns id) := by
  rcases agreed id with h | h
  · simp [h.lists, h.owns, h.serves, h.remembers]
  · simp [h.lists, h.owns, h.serves, h.remembers]

omit [DecidableEq R] in
theorem agreed_of (iffs : ∀ id, (c.Lists id ↔ c.Owns id) ∧ (c.Serves id ↔ c.Owns id) ∧
    (c.Remembers id ↔ c.Owns id)) : c.Agreed := by
  intro id
  obtain ⟨lists, serves, remembers⟩ := iffs id
  by_cases owns : c.Owns id
  · exact .inl ⟨lists.2 owns, owns, serves.2 owns, remembers.2 owns⟩
  · exact .inr ⟨owns ∘ lists.1, owns, owns ∘ serves.1, owns ∘ remembers.1⟩

omit [DecidableEq R] in
/-- A failed publish leaves nothing half published just where its share is in none
of the places the failure did not undo. -/
theorem failed_whole (agreed : c.Agreed) {p : Prepared R} {root m : String} {restored : Bool}
    (other : ∀ id ≠ p.entry.shareId, (id ∈ node.shares ↔ c.Serves id) ∧
      (id ∈ node.shareAdverts ↔ c.Remembers id)) {after : Client R}
    (session : after.session = (failed c.session p node root restored m).1)
    (shares : after.myShares =
      (failed c.session p node root restored m).2.foldl shown c.myShares) :
    (after.Agreed ∧ ∀ id, (c.Everywhere id → after.Everywhere id) ∧
      (c.Nowhere id → after.Nowhere id)) ↔
    ¬c.Owns p.entry.shareId ∧ p.entry.shareId ∉ node.shares ∧
      p.entry.shareId ∉ node.shareAdverts := by
  have net : after.session.net = some node := by rw [session]; rfl
  have lists : ∀ id, after.Lists id ↔ id ≠ p.entry.shareId ∧ c.Lists id := by
    intro id
    rw [Lists, shares, failed]
    simp only [List.foldl_cons, List.foldl_nil, shown, mem_removeMyShare, Prepared.started,
      mem_addMyShare]
    exact and_congr_right fun apart => or_iff_right apart
  have owns : ∀ id, after.Owns id ↔ c.Owns id := by
    intro id
    rw [Owns, session]
    exact Iff.rfl
  have places : ∀ id, id ≠ p.entry.shareId → (after.Lists id ↔ c.Lists id) ∧
      (after.Serves id ↔ c.Serves id) ∧ (after.Remembers id ↔ c.Remembers id) := by
    intro id apart
    rw [lists, serves_some net, remembers_some net]
    exact ⟨and_iff_right apart, other id apart⟩
  have gone : ¬after.Lists p.entry.shareId := fun listed => ((lists _).1 listed).1 rfl
  constructor
  · rintro ⟨agreed', -⟩
    have nowhere : after.Nowhere p.entry.shareId :=
      (agreed' _).resolve_left fun h => gone h.lists
    exact ⟨fun owned => nowhere.owns ((owns _).2 owned), fun held => nowhere.serves
      ((serves_some net).2 held), fun held => nowhere.remembers ((remembers_some net).2 held)⟩
  · rintro ⟨unowned, unserved, forgotten⟩
    have nowhere : after.Nowhere p.entry.shareId :=
      ⟨gone, fun h => unowned ((owns _).1 h), fun h => unserved ((serves_some net).1 h),
        fun h => forgotten ((remembers_some net).1 h)⟩
    refine ⟨fun id => ?_, fun id => ?_⟩
    · by_cases same : id = p.entry.shareId
      · exact .inr (same ▸ nowhere)
      · obtain ⟨l, s, r⟩ := places id same
        refine (agreed id).imp (fun h => ?_) (fun h => ?_)
        · exact ⟨l.2 h.lists, (owns id).2 h.owns, s.2 h.serves, r.2 h.remembers⟩
        · exact ⟨h.lists ∘ l.1, h.owns ∘ (owns id).1, h.serves ∘ s.1, h.remembers ∘ r.1⟩
    · by_cases same : id = p.entry.shareId
      · subst same
        exact ⟨fun h => absurd h.owns unowned, fun _ => nowhere⟩
      · obtain ⟨l, s, r⟩ := places id same
        exact ⟨fun h => ⟨l.2 h.lists, (owns id).2 h.owns, s.2 h.serves, r.2 h.remembers⟩,
          fun h => ⟨h.lists ∘ l.1, h.owns ∘ (owns id).1, h.serves ∘ s.1, h.remembers ∘ r.1⟩⟩

omit [DecidableEq R] in
/-- A publish that ended well leaves its share everywhere. -/
theorem landed_agreed (agreed : c.Agreed) {p : Prepared R} {root : String} {restored : Bool}
    (places : ∀ id, (id ∈ node.shares ↔ id = p.entry.shareId ∨ c.Serves id) ∧
      (id ∈ node.shareAdverts ↔ id = p.entry.shareId ∨ c.Remembers id)) {after : Client R}
    (session : after.session = (landed c.session p node root restored).1)
    (shares : after.myShares = (landed c.session p node root restored).2.foldl shown c.myShares) :
    after.Agreed := by
  have net : after.session.net = some node := by rw [session]; rfl
  refine agreed_of fun id => ?_
  obtain ⟨l, s, r⟩ := agreed.iffs id
  have owns : after.Owns id ↔ id = p.entry.shareId ∨ c.Owns id := by
    rw [Owns, session, landed]
    exact mem_upsertOwnShare
  have lists : after.Lists id ↔ id = p.entry.shareId ∨ c.Lists id := by
    rw [Lists, shares, landed]
    simp only [List.foldl_cons, List.foldl_nil, shown, Prepared.started, mem_addMyShare]
    exact or_self_left
  rw [lists, owns, serves_some net, remembers_some net, (places id).1, (places id).2, l, s, r]
  exact ⟨Iff.rfl, Iff.rfl, Iff.rfl⟩

omit [DecidableEq R] in
/-- The node after it took the content to serve. -/
theorem served_places {p : Prepared R} (net : c.session.net = some p.node) {a : Attempt R}
    (reached : a.serve ≠ .gone) (id : String) :
    (id ∈ (p.served a).1.shares ↔ id = p.entry.shareId ∨ c.Serves id) ∧
      (id ∈ (p.served a).1.shareAdverts ↔ c.Remembers id) := by
  rw [Prepared.served, send_handled reached, serves_some net, remembers_some net]
  exact ⟨AList.mem_insert _, Iff.rfl⟩

omit [DecidableEq R] in
/-- A publish whose request to serve was lost. -/
theorem lost_whole (agreed : c.Agreed) {p : Prepared R} (net : c.session.net = some p.node)
    {a : Attempt R} (lost : a.serve ≠ .answered) {root m : String} {restored : Bool}
    {after : Client R} (session : after.session =
      (failed c.session p (p.served a).1 root restored m).1)
    (shares : after.myShares =
      (failed c.session p (p.served a).1 root restored m).2.foldl shown c.myShares) :
    (after.Agreed ∧ ∀ id, (c.Everywhere id → after.Everywhere id) ∧
      (c.Nowhere id → after.Nowhere id)) ↔ a.serve = .gone ∧ ¬c.Owns p.entry.shareId := by
  cases serve : a.serve with
  | answered => exact absurd serve lost
  | gone =>
    have node : (p.served a).1 = p.node := by rw [Prepared.served, serve]; rfl
    rw [failed_whole agreed (fun id _ => ?_) session shares, node, ← serves_some net,
      ← remembers_some net]
    · obtain ⟨-, serves, remembers⟩ := agreed.iffs p.entry.shareId
      simp [serves, remembers]
    · rw [node, serves_some net, remembers_some net]
      exact ⟨Iff.rfl, Iff.rfl⟩
  | dropped =>
    have places := served_places net (by simp [serve] : a.serve ≠ .gone)
    rw [failed_whole agreed (fun id apart => ?_) session shares]
    · simp [(places p.entry.shareId).1]
    · rw [(places id).1, (places id).2]
      exact ⟨or_iff_right apart, Iff.rfl⟩

/-- A publish that served its share and could not announce it leaves it half
published. -/
theorem unannounced_not_whole (agreed : c.Agreed) {p : Prepared R}
    (net : c.session.net = some p.node) {a : Attempt R} (answered : a.serve = .answered)
    {root m : String} {restored : Bool} {after : Client R} (session : after.session =
      (failed c.session p (p.announced (p.served a).1 a).1 root restored m).1)
    (shares : after.myShares = (failed c.session p (p.announced (p.served a).1 a).1 root restored
      m).2.foldl shown c.myShares) :
    ¬(after.Agreed ∧ ∀ id, (c.Everywhere id → after.Everywhere id) ∧
      (c.Nowhere id → after.Nowhere id)) := by
  have places := served_places net (by simp [answered] : a.serve ≠ .gone)
  have serves : ∀ id, id ∈ (p.announced (p.served a).1 a).1.shares ↔
      id ∈ (p.served a).1.shares := by
    intro id
    unfold Prepared.announced
    cases a.announce with
    | gone => exact Iff.rfl
    | answered | dropped => exact publishShare_serves
  have remembers : ∀ id, id ≠ p.entry.shareId →
      (id ∈ (p.announced (p.served a).1 a).1.shareAdverts ↔
        id ∈ (p.served a).1.shareAdverts) := by
    intro id apart
    unfold Prepared.announced
    cases a.announce with
    | gone => exact Iff.rfl
    | answered | dropped => exact publishShare_remembers.trans (or_iff_right apart)
  rw [failed_whole agreed (fun id apart => ?_) session shares]
  · simp [serves, (places p.entry.shareId).1]
  · rw [serves, remembers id apart, (places id).1, (places id).2]
    exact ⟨or_iff_right apart, Iff.rfl⟩

/-- The node a share was withdrawn from. -/
theorem withdrawn_keeps {s : Session R} {w : Withdrawal R} {shareId : String}
    {own : Option OwnShare} :
    (id ∈ (postShareWithdraw s node w shareId own).shares ↔ id ∈ node.shares) ∧
      (id ∈ (postShareWithdraw s node w shareId own).shareAdverts ↔ id ∈ node.shareAdverts) := by
  unfold postShareWithdraw
  split
  · dsimp only
    split
    · cases w.announce with
      | gone => exact ⟨Iff.rfl, Iff.rfl⟩
      | answered | dropped => exact ⟨publishShare_serves, withdraw_remembers⟩
    · exact ⟨Iff.rfl, Iff.rfl⟩
  · exact ⟨Iff.rfl, Iff.rfl⟩

omit [DecidableEq R] in
theorem stopped_places {stop : Delivery} {shareId : String} :
    (id ∈ (stop.send node (node.stopServe shareId)).1.shares ↔
      (stop = .gone ∨ id ≠ shareId) ∧ id ∈ node.shares) ∧
    (id ∈ (stop.send node (node.stopServe shareId)).1.shareAdverts ↔
      (stop = .gone ∨ id ≠ shareId) ∧ id ∈ node.shareAdverts) := by
  cases stop with
  | gone => simp [Delivery.send]
  | answered | dropped =>
    simp [Delivery.send, Node.stopServe, Node.releaseAnyAdvertRoute, AList.mem_erase]

theorem publish_whole (agreed : c.Agreed) (a : Attempt R) (root name sharerHandle : String)
    (restored : Bool) :
    c.Whole D (.publishShare a root name sharerHandle restored) ↔
      c.Undisturbed D (.publishShare a root name sharerHandle restored) := by
  unfold Whole Undisturbed step handled
  dsimp only
  cases ready : prepare D c.session a root name sharerHandle with
  | error message =>
    have same : publishShare D c.session a root name sharerHandle restored =
        (c.session, [.publishError message]) := by
      unfold publishShare
      rw [ready]
    rw [same]
    exact iff_of_true ⟨agreed, fun _ _ => ⟨id, id⟩⟩ nofun
  | ok p =>
    have net := prepare_net ready
    simp only [Except.ok.injEq, forall_eq']
    rcases publishShare_prepared ready with ⟨lost, message, ends⟩ |
      ⟨answered, fails, message, ends⟩ | ⟨answered, lands, ends⟩
    · rw [ends, forall_prop_of_true ⟨message, by simp [failed]⟩,
        lost_whole (m := message) agreed net lost rfl rfl]
      simp [lost]
    · rw [ends, forall_prop_of_true ⟨message, by simp [failed]⟩]
      refine iff_of_false (unannounced_not_whole (m := message) agreed net answered rfl rfl) ?_
      simp [answered, fails]
    · rw [ends]
      have quiet : ¬∃ m, .publishError m ∈
          (landed c.session p (p.announced (p.served a).1 a).1 root restored).2 := by
        simp [landed, Prepared.started]
      have places := served_places net (by simp [answered] : a.serve ≠ .gone)
      have node : (p.announced (p.served a).1 a).1 =
          ((p.served a).1.publishShare p.entry.shareId p.advert true a.announcing).1 :=
        send_handled (by simp [lands.1])
      refine iff_of_true ⟨landed_agreed agreed (fun id => ?_) rfl rfl,
        fun error => absurd error quiet⟩ (.inl ⟨answered, lands⟩)
      rw [node, publishShare_serves, publishShare_remembers, (places id).1, (places id).2]
      exact ⟨Iff.rfl, Iff.rfl⟩

theorem unpublish_whole (agreed : c.Agreed) (w : Withdrawal R) (shareId : String) :
    c.Whole D (.unpublishShare w shareId) ↔ c.Undisturbed D (.unpublishShare w shareId) := by
  have quiet : ¬∃ message, .publishError message ∈ (c.handled D (.unpublishShare w shareId)).2 := by
    simp [handled, unpublishShare]
  rw [Whole, and_iff_left fun error => absurd error quiet]
  have lists : ∀ id, (c.step D (.unpublishShare w shareId)).Lists id ↔ id ≠ shareId ∧ c.Lists id :=
    fun id => mem_removeMyShare
  have owns : ∀ id, (c.step D (.unpublishShare w shareId)).Owns id ↔ id ≠ shareId ∧ c.Owns id :=
    fun id => mem_withdrawn
  have kept : ∀ id, ((c.step D (.unpublishShare w shareId)).Serves id ↔
      (w.stop = .gone ∨ id ≠ shareId) ∧ c.Serves id) ∧
      ((c.step D (.unpublishShare w shareId)).Remembers id ↔
        (w.stop = .gone ∨ id ≠ shareId) ∧ c.Remembers id) := by
    intro id
    cases net : c.session.net with
    | none => simp [Serves, Remembers, step, handled, unpublishShare, net]
    | some node =>
      obtain ⟨node', after, same⟩ : ∃ node', (c.step D (.unpublishShare w shareId)).session.net =
          some (w.stop.send node' (node'.stopServe shareId)).1 ∧
          (id ∈ node'.shares ↔ id ∈ node.shares) ∧
            (id ∈ node'.shareAdverts ↔ id ∈ node.shareAdverts) :=
        ⟨_, by simp only [step, handled, unpublishShare, net, Option.map_some]; rfl, withdrawn_keeps⟩
      rw [serves_some net, remembers_some net, serves_some after, remembers_some after,
        stopped_places.1, stopped_places.2, same.1, same.2]
      exact ⟨Iff.rfl, Iff.rfl⟩
  constructor
  · intro agreed' stop held
    have serves := (kept shareId).1.2 ⟨.inl stop, held⟩
    have listed := ((agreed' shareId).resolve_right fun h => h.serves serves).lists
    exact ((lists shareId).1 listed).1 rfl
  · intro reached
    refine agreed_of fun id => ?_
    obtain ⟨l, s, r⟩ := agreed.iffs id
    rw [lists, owns, (kept id).1, (kept id).2, l, s, r]
    by_cases same : id = shareId
    · subst same
      have unserved : w.stop = .gone → ¬c.Owns id := fun stop owned => reached stop (s.2 owned)
      simp only [ne_eq, not_true_eq_false, false_and, or_false, iff_false, not_and, true_and]
      exact ⟨unserved, unserved⟩
    · simp [same]

/-- What goes on between two commands about shares moves none of them. -/
theorem between_whole (agreed : c.Agreed) {command : Command R}
    (quiet : (c.handled D command).2 = [])
    (own : (c.step D command).session.own = c.session.own)
    (node : ∀ id, ((c.step D command).Serves id ↔ c.Serves id) ∧
      ((c.step D command).Remembers id ↔ c.Remembers id)) : c.Whole D command := by
  refine ⟨agreed_of fun id => ?_, fun error => ?_⟩
  · have lists : (c.step D command).Lists id ↔ c.Lists id := by
      rw [Lists, step, quiet]
      exact Iff.rfl
    have owns : (c.step D command).Owns id ↔ c.Owns id := by
      rw [Owns, own]
      exact Iff.rfl
    rw [lists, owns, (node id).1, (node id).2]
    exact agreed.iffs id
  · rw [quiet] at error
    simp at error

/-- A command leaves nothing half published just where no step it takes is
disturbed. -/
theorem step_whole (agreed : c.Agreed) (command : Command R) :
    c.Whole D command ↔ c.Undisturbed D command := by
  cases command with
  | publishShare a root name sharerHandle restored => exact publish_whole agreed a root name _ _
  | unpublishShare w shareId => exact unpublish_whole agreed w shareId
  | credentials signing ikm lobby catalog =>
    exact iff_of_true (between_whole agreed rfl rfl fun _ => ⟨Iff.rfl, Iff.rfl⟩) trivial
  | connected =>
    refine iff_of_true (between_whole agreed rfl rfl fun id => ?_) trivial
    cases net : c.session.net with
    | some node => simp [Serves, Remembers, step, handled, net]
    | none => simp [Serves, Remembers, step, handled, net, Node.new]

end

omit [DecidableEq R] in
theorem new_agreed : (new : Client R).Agreed :=
  fun id => .inr ⟨by simp [Lists, new], by simp [Owns, new], by simp [Serves, new],
    by simp [Remembers, new]⟩

end Client

/-- **What a publish leaves.** Every command of a run leaves nothing half
published just where none of its steps is disturbed: once an announcement is
sealed the publish fails at no step, but for a share that was not published and
whose request to serve it never reached the node, and the request to stop
serving a share reaches the node. -/
theorem publishes_whole (D : Derivations) (commands : List (Command R)) :
    Trail.Along (Client.step D) (Client.Whole D) .new commands ↔
      Trail.Along (Client.step D) (Client.Undisturbed D) .new commands :=
  Trail.along_congr_of (I := Client.Agreed) (fun _ _ _ whole => whole.1)
    (fun _ command agreed => Client.step_whole agreed command) Client.new_agreed commands

/-! ## A publish with no route -/

def sampleDerivations : Derivations := ⟨fun _ _ => [], fun _ _ => [], fun _ => [0xa1]⟩

def sampleSigning : Signing := ⟨[], fun _ _ => .ok []⟩

/-- Everything goes well but the allocation of a route. -/
def noRoute : Attempt Nat where
  unsafeRoot := false
  index := .ok ⟨[], fun _ => none⟩
  sealPublicAnnouncement := fun _ _ _ => .ok []
  now := 0
  serve := .answered
  announce := .answered
  announcing := ⟨.error (.routing "no route"), fun _ => .ok ()⟩

def connectedClient : Client Nat :=
  [Command.connected, .credentials (some sampleSigning) (some []) (some ⟨[], []⟩) []].foldl
    (Client.step sampleDerivations) .new

def noRoutePublish : Command Nat := .publishShare noRoute "/music" "music" "guest" false

/-- The first publish of a share fails for want of a route: the user is told so
and the list drops it, and the node goes on serving it and announces it again. -/
theorem unrouted_share_served :
    connectedClient.Nowhere "a1" ∧
    (∃ message, .publishError message ∈
      (connectedClient.handled sampleDerivations noRoutePublish).2) ∧
    (connectedClient.step sampleDerivations noRoutePublish).Serves "a1" ∧
    (connectedClient.step sampleDerivations noRoutePublish).Remembers "a1" ∧
    ¬(connectedClient.step sampleDerivations noRoutePublish).Lists "a1" ∧
    ¬(connectedClient.step sampleDerivations noRoutePublish).Owns "a1" := by
  refine ⟨⟨?_, ?_, ?_, ?_⟩, ⟨_, .tail _ (.tail _ (.head _))⟩, ⟨_, rfl, ?_⟩, ⟨_, rfl, ?_⟩, ?_, ?_⟩
  · unfold Client.Lists
    decide
  · unfold Client.Owns
    decide
  · rintro ⟨node, ⟨⟩, held⟩
    exact AList.notMem_empty _ held
  · rintro ⟨node, ⟨⟩, held⟩
    exact AList.notMem_empty _ held
  · decide
  · decide
  · unfold Client.Lists
    decide
  · unfold Client.Owns
    decide

end Daemonseed.Net.Publishing
