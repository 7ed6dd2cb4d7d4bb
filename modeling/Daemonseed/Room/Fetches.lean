import Daemonseed.Room.Inbound

/-! # Fetches over the routes of discovered shares

A browse fetch and a download each run in a task of their own: the task imports
the share's route, works over it and reports how it ended, and the session folds
the report. The transport hands out one id for equal routes. -/
namespace Daemonseed.Room.Fetches
open Daemonseed.Lib.Bytes Daemonseed.Lib.Maps Daemonseed.Room.Catalog Daemonseed.Room.Inbound
  Daemonseed.Room.Presence Daemonseed.Room.RouteGuard Daemonseed.Room.Sealed

variable {R : Type}

/-- How a browse fetch ended, with the generation of the route it was started over. -/
inductive FetchOutcome (R : Type)
  | manifest (shareId name : String) (generation : Nat) (route : R)
  | importFailed (shareId name : String) (generation : Nat)
  | manifestFailed (shareId name : String) (generation : Nat) (route : R)
  deriving DecidableEq

namespace FetchOutcome

def shareId : FetchOutcome R → String
  | manifest id .. | importFailed id .. | manifestFailed id .. => id

def name : FetchOutcome R → String
  | manifest _ name .. | importFailed _ name .. | manifestFailed _ name .. => name

def generation : FetchOutcome R → Nat
  | manifest _ _ generation _ | importFailed _ _ generation
  | manifestFailed _ _ generation _ => generation

/-- The route that the fetch imported. -/
def route : FetchOutcome R → Option R
  | manifest _ _ _ route | manifestFailed _ _ _ route => some route
  | importFailed .. => none

end FetchOutcome

/-- How a download ended. -/
inductive ConfirmOutcome
  | complete (shareId : String)
  | routeFailed (shareId name : String)
  | integrityFailed (shareId : String)
  | localFailed
  deriving DecidableEq

end Daemonseed.Room.Fetches

namespace Daemonseed.Room.Inbound.ShareState
open Daemonseed.Lib.Maps Daemonseed.Room.Catalog Daemonseed.Room.Presence Daemonseed.Room.RouteGuard
  Daemonseed.Room.Fetches

variable {R : Type}

def markShareUnresolved (self : ShareState R) (shareId name : String) (now : Instant) :
    ShareState R :=
  match self.discovered.lookup shareId with
  | none => self
  | some disc =>
    { self with
      discovered := self.discovered.insert shareId { disc with unresolved := true }
      parkedRetries :=
        self.parkedRetries.insert shareId (.park name disc.generation now) }

def clearShareUnresolved (self : ShareState R) (shareId : String) : ShareState R :=
  { self with
    parkedRetries := self.parkedRetries.erase shareId
    discovered :=
      match self.discovered.lookup shareId with
      | some disc =>
        if disc.unresolved then self.discovered.insert shareId { disc with unresolved := false }
        else self.discovered
      | none => self.discovered }

/-- A fetch of the share ended, and imported a route or did not. -/
def closeFetch (self : ShareState R) (shareId : String) (imported : Option R) : ShareState R :=
  let (released, routeGuard) := self.routeGuard.noteFetchFinished shareId imported
  { self with
    routeGuard, pendingRouteReleases := self.pendingRouteReleases ++ released }

/-- The outcome is of the route that is discovered still. -/
def current (self : ShareState R) (outcome : FetchOutcome R) : Bool :=
  (self.discovered.lookup outcome.shareId).map (·.generation) == some outcome.generation

def foldFetchOutcome (self : ShareState R) (outcome : FetchOutcome R) (now : Instant) :
    ShareState R :=
  if self.current outcome then
    match outcome with
    | .manifest shareId _ _ route =>
      (self.closeFetch shareId (some route)).clearShareUnresolved shareId
    | .manifestFailed shareId name _ route =>
      (self.closeFetch shareId (some route)).markShareUnresolved shareId name now
    | .importFailed shareId name _ =>
      (self.closeFetch shareId none).markShareUnresolved shareId name now
  else
    let closed := self.closeFetch outcome.shareId none
    if (closed.discovered.lookup outcome.shareId).any (·.unresolved) then
      { closed with
        parkedRetries := closed.parkedRetries.insert outcome.shareId
          (.park outcome.name outcome.generation now) }
    else closed

def foldConfirmOutcome (self : ShareState R) (outcome : ConfirmOutcome) (now : Instant) :
    ShareState R :=
  match outcome with
  | .complete shareId => self.clearShareUnresolved shareId
  | .routeFailed shareId name => self.markShareUnresolved shareId name now
  | .integrityFailed _ | .localFailed => self

/-- Only a parked retry with no newer route, still inside its window, stays parked. -/
def processParkedBrowseRetries (self : ShareState R) (now : Instant) : ShareState R :=
  { self with
    parkedRetries := self.parkedRetries.retain fun shareId parked =>
      match self.discovered.lookup shareId with
      | none => false
      | some disc => !(disc.generation > parked.parkedGeneration) && !(now ≥ parked.deadline) }

def pruneCatalog (self : ShareState R) (now : Instant) : ShareState R :=
  { self with catalog := (self.catalog.prune now).2 }

end Daemonseed.Room.Inbound.ShareState

namespace Daemonseed.Room.Fetches
open Daemonseed.Lib.Bytes Daemonseed.Lib.Maps Daemonseed.Room.Catalog Daemonseed.Room.Inbound
  Daemonseed.Room.Presence Daemonseed.Room.RouteGuard Daemonseed.Room.Sealed

variable {R : Type}

/-! ## The session and its tasks -/

/-- A task that works over the route of a share, and the id it imported the route under. -/
structure Transfer (R : Type) where
  shareId : String
  name : String
  generation : Nat
  routeBlob : Octets
  imported : Option R
  deriving DecidableEq

structure Session (R : Type) where
  shares : ShareState R
  connected : Bool
  browsing : List (Transfer R)
  /-- Of fetches that ended, not folded yet. -/
  outcomes : List (FetchOutcome R)
  downloading : List (Transfer R)
  confirmed : List ConfirmOutcome

inductive Act
  | connects (signing : Option Octets)
  | joins (roomKey : Octets)
  | disconnects
  | inbound (circles : List VeilidCircle) (now : Instant) (nowUnixMs : Int) (bytes : Octets)
  | fetchShare (shareId name : String)
  | confirmFetch (shareId name : String)
  | browseImports (i : Nat)
  | browseEnds (i : Nat) (fetched : Bool)
  | browsePanics (i : Nat)
  | foldsFetch (i : Nat) (now : Instant)
  | downloadImports (i : Nat)
  | downloadEnds (i : Nat) (outcome : ConfirmOutcome)
  | foldsConfirm (i : Nat) (now : Instant)
  | prunes (now : Instant)
  | ticks (now : Instant)

namespace Session

def new (ttl : Duration) : Session R where
  shares := .new ttl
  connected := false
  browsing := []
  outcomes := []
  downloading := []
  confirmed := []

/-- The task started over the share's route, where there is one to start over. -/
def transferOf (self : Session R) (shareId name : String) : Option (Transfer R) :=
  if !self.connected then none
  else if self.shares.lobby.isNone then none
  else (self.shares.discovered.lookup shareId).map fun disc =>
    ⟨shareId, name, disc.generation, disc.routeBlob, none⟩

def spawnFetchShare (self : Session R) (shareId name : String) : Session R :=
  match self.transferOf shareId name with
  | none => self
  | some transfer =>
    { self with
      shares :=
        { self.shares with routeGuard := self.shares.routeGuard.noteFetchStarted shareId }
      browsing := self.browsing ++ [transfer] }

/-- A download is not noted at the guard. -/
def spawnConfirmFetch (self : Session R) (shareId name : String) : Session R :=
  match self.transferOf shareId name with
  | none => self
  | some transfer => { self with downloading := self.downloading ++ [transfer] }

/-- How a fetch task ends once its import is through or has failed. -/
def runFetch (transfer : Transfer R) (fetched : Bool) : FetchOutcome R :=
  match transfer.imported with
  | none => .importFailed transfer.shareId transfer.name transfer.generation
  | some route =>
    if fetched then .manifest transfer.shareId transfer.name transfer.generation route
    else .manifestFailed transfer.shareId transfer.name transfer.generation route

/-- A task that panics reports a failed import, whatever it imported. -/
def onPanic (transfer : Transfer R) : FetchOutcome R :=
  .importFailed transfer.shareId transfer.name transfer.generation

variable (P : Primitives) (routeOf : Octets → R)

def importAt (transfers : List (Transfer R)) (i : Nat) : List (Transfer R) :=
  transfers.modify i fun transfer => { transfer with imported := some (routeOf transfer.routeBlob) }

def browseEnd (self : Session R) (i : Nat) (report : Transfer R → FetchOutcome R) : Session R :=
  match self.browsing[i]? with
  | none => self
  | some transfer =>
    { self with
      browsing := self.browsing.eraseIdx i, outcomes := self.outcomes ++ [report transfer] }

def act (self : Session R) : Act → Session R
  | .connects signing => { self with connected := true, shares := { self.shares with signing } }
  | .joins roomKey =>
    { self with
      shares := { self.shares with lobby := some ⟨roomKey, .forRoom defaultRoom presenceTtl⟩ } }
  | .disconnects => { self with connected := false }
  | .inbound circles now nowUnixMs bytes =>
    { self with shares := (self.shares.handleInbound P circles now nowUnixMs bytes).1 }
  | .fetchShare shareId name => self.spawnFetchShare shareId name
  | .confirmFetch shareId name => self.spawnConfirmFetch shareId name
  | .browseImports i => { self with browsing := importAt routeOf self.browsing i }
  | .browseEnds i fetched => self.browseEnd i (runFetch · fetched)
  | .browsePanics i => self.browseEnd i onPanic
  | .foldsFetch i now =>
    match self.outcomes[i]? with
    | none => self
    | some outcome =>
      { self with
        shares := self.shares.foldFetchOutcome outcome now, outcomes := self.outcomes.eraseIdx i }
  | .downloadImports i => { self with downloading := importAt routeOf self.downloading i }
  | .downloadEnds i outcome =>
    { self with
      downloading := self.downloading.eraseIdx i, confirmed := self.confirmed ++ [outcome] }
  | .foldsConfirm i now =>
    match self.confirmed[i]? with
    | none => self
    | some outcome =>
      { self with
        shares := self.shares.foldConfirmOutcome outcome now
        confirmed := self.confirmed.eraseIdx i }
  | .prunes now => { self with shares := self.shares.pruneCatalog now }
  | .ticks now => { self with shares := self.shares.processParkedBrowseRetries now }

/-- The routes cleared go out to the transport at the end of each turn of the loop, and are
dropped where there is none. -/
def drainRouteReleases (self : Session R) : Session R × List R :=
  ({ self with shares := { self.shares with pendingRouteReleases := [] } },
    if self.connected then self.shares.pendingRouteReleases else [])

/-- One turn, and the releases issued in it. -/
def step (self : Session R) (a : Act) : Session R × List R :=
  (self.act P routeOf a).drainRouteReleases

end Session

end Daemonseed.Room.Fetches
