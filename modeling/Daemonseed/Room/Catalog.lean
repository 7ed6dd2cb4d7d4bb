import Daemonseed.Lib.Framed
import Daemonseed.Lib.Lines
import Daemonseed.Room.Presence

/-! # The shares discovered in a room

A receiver's catalog, folded from announcements and withdrawals whose signatures
it has verified. The hash is a parameter. -/
namespace Daemonseed.Room.Catalog
open Daemonseed.Lib.Bytes Daemonseed.Lib.Framed Daemonseed.Lib.Lines Daemonseed.Lib.Maps
  Daemonseed.Room.Presence Daemonseed.Room.Wire

/-! ## The binding of a share id to its owner's key -/

def rootCommitmentLen : Nat := 48

def shareIdV2Domain : Octets := utf8 "daemonseed/share-id/v2"

section

variable (sha384 : Octets → Octets)

def deriveShareIdV2 (senderPubkey rootCommitment : Octets) : String :=
  String.ofList
    (showHex ((sha384 (lp shareIdV2Domain ++ lp senderPubkey ++ lp rootCommitment)).take 16))

def shareBindingIsValid (ann : ShareAnnouncement) : Bool :=
  ann.rootCommitment.length == rootCommitmentLen &&
    ann.shareId == deriveShareIdV2 sha384 ann.senderPubkey ann.rootCommitment

end

/-! ## The catalog -/

/-- A row of the share browser. -/
structure DiscoveredShare where
  shareId : String
  name : String
  rating : String
  senderHandle : String
  senderPubkey : Octets
  announcedUnixMs : Int64
  receivedAt : Instant
  deriving DecidableEq

inductive CatalogChange
  | added
  | updated
  | removed
  | unchanged
  deriving DecidableEq, Repr

/-- The shares listed, each under its own id. -/
structure ShareCatalog where
  entries : Map String DiscoveredShare
  ttl : Duration
  named : ∀ id share, entries.lookup id = some share → share.shareId = id

def ShareAnnouncement.row (ann : ShareAnnouncement) (now : Instant) : DiscoveredShare where
  shareId := ann.shareId
  name := ann.name
  rating := ann.rating
  senderHandle := ann.senderHandle
  senderPubkey := ann.senderPubkey
  announcedUnixMs := ann.sentUnixMs
  receivedAt := now

namespace ShareCatalog

def new (ttl : Duration) : ShareCatalog := ⟨∅, ttl, fun id share h => by cases h⟩

/-- The share's row set. -/
def list (self : ShareCatalog) (share : DiscoveredShare) : ShareCatalog :=
  { self with
    entries := self.entries.insert share.shareId share
    named := fun id other held => by
      by_cases e : id = share.shareId
      · subst e
        rw [AList.lookup_insert] at held
        cases held
        rfl
      · rw [AList.lookup_insert_ne e] at held
        exact self.named id other held }

/-- The rows that pass the test. -/
def keep (self : ShareCatalog) (test : String → DiscoveredShare → Bool) : ShareCatalog :=
  { self with
    entries := self.entries.retain test
    named := fun id share held => self.named id share (Map.lookup_retain_some.1 held).1 }

def erase (self : ShareCatalog) (id : String) : ShareCatalog :=
  { self with
    entries := self.entries.erase id
    named := fun other share held => by
      by_cases e : other = id
      · rw [e, AList.lookup_erase] at held
        cases held
      · rw [AList.lookup_erase_ne e] at held
        exact self.named other share held }

/-- Fold an announcement or a withdrawal, whatever its binding. -/
def apply (self : ShareCatalog) (ann : ShareAnnouncement) (now : Instant) :
    CatalogChange × ShareCatalog :=
  match ann.withdraw, self.entries.lookup ann.shareId with
  | true, some cur =>
    if ann.senderPubkey ≠ cur.senderPubkey then (.unchanged, self)
    else if ann.sentUnixMs.toInt < cur.announcedUnixMs.toInt then (.unchanged, self)
    else (.removed, self.erase ann.shareId)
  | true, none => (.unchanged, self)
  | false, some cur =>
    if ann.senderPubkey ≠ cur.senderPubkey then (.unchanged, self)
    else if ann.sentUnixMs.toInt < cur.announcedUnixMs.toInt then (.unchanged, self)
    else if ann.sentUnixMs = cur.announcedUnixMs ∧ ann.name = cur.name ∧ ann.rating = cur.rating ∧
        ann.senderHandle = cur.senderHandle then
      -- read again: alive, but nothing new
      (.unchanged, self.list { cur with receivedAt := now })
    else
      (.updated, self.list
        { cur with
          name := ann.name, rating := ann.rating, senderHandle := ann.senderHandle
          senderPubkey := ann.senderPubkey, announcedUnixMs := ann.sentUnixMs
          receivedAt := now })
  | false, none => (.added, self.list (ShareAnnouncement.row ann now))

/-- Fold an announcement whose id is bound to its key. -/
def applyVerified (sha384 : Octets → Octets) (self : ShareCatalog) (ann : ShareAnnouncement)
    (now : Instant) : CatalogChange × ShareCatalog :=
  if shareBindingIsValid sha384 ann then self.apply ann now else (.unchanged, self)

def size (self : ShareCatalog) : Nat := self.entries.entries.length

/-- The shares not heard of for the time to live go. -/
def prune (self : ShareCatalog) (now : Instant) : Nat × ShareCatalog :=
  let left := self.keep fun _ share => now - share.receivedAt < self.ttl
  (self.size - left.size, left)

def remove (self : ShareCatalog) (shareId : String) : Bool × ShareCatalog :=
  ((self.entries.lookup shareId).isSome, self.erase shareId)

/-- One of the sharer's listed shares heard of. -/
def refresh (sharerPubkey : Octets) (now : Instant) (self : ShareCatalog) (id : String) :
    ShareCatalog :=
  match self.entries.lookup id with
  | some share =>
    if share.senderPubkey = sharerPubkey then self.list { share with receivedAt := now } else self
  | none => self

/-- The sharer's shares against the digest of its heartbeat: those in it are
heard of, the others go. -/
def reconcileSharer (self : ShareCatalog) (sharerPubkey : Octets) (liveIds : List String)
    (now : Instant) : Bool × ShareCatalog :=
  let left := self.keep fun id share => share.senderPubkey != sharerPubkey || liveIds.contains id
  (left.size != self.size, liveIds.foldl (refresh sharerPubkey now) left)

def pruneSharer (self : ShareCatalog) (sharerPubkey : Octets) : Nat × ShareCatalog :=
  let left := self.keep fun _ share => share.senderPubkey != sharerPubkey
  (self.size - left.size, left)

end ShareCatalog

end Daemonseed.Room.Catalog
