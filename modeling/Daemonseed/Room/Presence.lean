import Mathlib
import Daemonseed.Lib.Maps
import Daemonseed.Room.Wire

/-! # Who is in a room

The receiver's view of the members of one room, folded from their beacons,
their leave tombstones and their chat messages. Instants are nanoseconds of the
local clock; what a member says of its own clock is milliseconds. -/
namespace Daemonseed.Room.Presence
open Daemonseed.Lib.Bytes Daemonseed.Lib.Maps Daemonseed.Room.Wire

abbrev Instant := Nat

abbrev Duration := Nat

def fromSecs (secs : Nat) : Duration := secs * 1000000000

def asMillis (d : Duration) : Nat := d / 1000000

def presenceTtl : Duration := fromSecs 600

def replayFreshnessPast : Duration := fromSecs 300

def replayFreshnessFuture : Duration := fromSecs 60

/-- Not older and not further ahead than the two windows allow. -/
def beaconIsFresh (sentUnixMs : Int64) (nowUnixMs : Int) : Bool :=
  let past : Int := asMillis replayFreshnessPast
  let future : Int := asMillis replayFreshnessFuture
  sentUnixMs.toInt ≥ nowUnixMs - past && sentUnixMs.toInt ≤ nowUnixMs + future

/-- A row of the roster. -/
structure LiveMember where
  handle : String
  pubkey : Octets
  beaconUnixMs : Int64
  lastSeen : Instant
  deriving DecidableEq

/-- When a member left by its own clock, and when that was heard. -/
structure DepartedMark where
  leaveMs : Int64
  heard : Instant
  deriving DecidableEq

inductive PresenceChange
  | appeared
  | refreshed
  | departed
  | unchanged
  deriving DecidableEq, Repr

/-- The members heard in one room, and the marks of those that left it. Nobody
is both. -/
structure PresenceTracker where
  members : Map Octets LiveMember
  departed : Map Octets DepartedMark
  room : Option String
  ttl : Duration
  apart : ∀ pubkey, members.lookup pubkey = none ∨ departed.lookup pubkey = none

namespace PresenceTracker

def new (ttl : Duration) : PresenceTracker := ⟨∅, ∅, none, ttl, fun _ => .inl rfl⟩

def forRoom (room : String) (ttl : Duration) : PresenceTracker :=
  ⟨∅, ∅, some room, ttl, fun _ => .inl rfl⟩

/-- The member's row set, and its mark gone. -/
def seat (self : PresenceTracker) (pubkey : Octets) (row : LiveMember) : PresenceTracker :=
  { self with
    members := self.members.insert pubkey row
    departed := self.departed.erase pubkey
    apart := fun other => by
      by_cases e : other = pubkey
      · exact .inr (e ▸ AList.lookup_erase ..)
      · rw [AList.lookup_insert_ne e, AList.lookup_erase_ne e]
        exact self.apart other }

/-- The member's mark set, and its row gone. -/
def unseat (self : PresenceTracker) (pubkey : Octets) (mark : DepartedMark) : PresenceTracker :=
  { self with
    members := self.members.erase pubkey
    departed := self.departed.insert pubkey mark
    apart := fun other => by
      by_cases e : other = pubkey
      · exact .inl (e ▸ AList.lookup_erase ..)
      · rw [AList.lookup_insert_ne e, AList.lookup_erase_ne e]
        exact self.apart other }

/-- The member's mark dropped. -/
def unmark (self : PresenceTracker) (pubkey : Octets) : PresenceTracker :=
  { self with
    departed := self.departed.erase pubkey
    apart := fun other => by
      by_cases e : other = pubkey
      · exact .inr (e ▸ AList.lookup_erase ..)
      · rw [AList.lookup_erase_ne e]
        exact self.apart other }

/-- The row of a member that no mark holds back. -/
def refresh (self : PresenceTracker) (pubkey : Octets) (handle : String) (sentUnixMs : Int64)
    (now : Instant) : PresenceChange × PresenceTracker :=
  let row : LiveMember := { handle, pubkey, beaconUnixMs := sentUnixMs, lastSeen := now }
  match self.members.lookup pubkey with
  | some cur =>
    if sentUnixMs.toInt < cur.beaconUnixMs.toInt then (.unchanged, self)
    else (.refreshed, self.seat pubkey row)
  | none => (.appeared, self.seat pubkey row)

/-- A beacon or a chat message. -/
def foldWrite (self : PresenceTracker) (pubkey : Octets) (handle : String) (sentUnixMs : Int64)
    (now : Instant) : PresenceChange × PresenceTracker :=
  match self.departed.lookup pubkey with
  | some mark =>
    if sentUnixMs.toInt ≤ mark.leaveMs.toInt then (.unchanged, self)
    else (self.unmark pubkey).refresh pubkey handle sentUnixMs now
  | none => self.refresh pubkey handle sentUnixMs now

/-- The mark a leave leaves, beside one that stands. -/
def leaveMark (old : Option DepartedMark) (leaveMs : Int64) (now : Instant) : DepartedMark :=
  let entry := old.getD { leaveMs, heard := now }
  if leaveMs.toInt ≥ entry.leaveMs.toInt then { leaveMs, heard := now } else entry

/-- A leave older than the member's newest write is ignored. -/
def applyLeave (self : PresenceTracker) (pubkey : Octets) (leaveMs : Int64) (now : Instant) :
    PresenceChange × PresenceTracker :=
  let left := self.unseat pubkey (leaveMark (self.departed.lookup pubkey) leaveMs now)
  match self.members.lookup pubkey with
  | some cur =>
    if leaveMs.toInt < cur.beaconUnixMs.toInt then (.unchanged, self) else (.departed, left)
  | none => (.unchanged, left)

def apply (self : PresenceTracker) (hb : MemberHeartbeat) (now : Instant) :
    PresenceChange × PresenceTracker :=
  if hb.isLeave then self.applyLeave hb.senderPubkey hb.sentUnixMs now
  else self.foldWrite hb.senderPubkey hb.senderHandle hb.sentUnixMs now

/-- A message tagged with another room is refused. -/
def applyMemberWrite (self : PresenceTracker) (room : String) (pubkey : Octets) (handle : String)
    (sentUnixMs : Int64) (now : Instant) : PresenceChange × PresenceTracker :=
  if self.room.any (· != room) then (.unchanged, self)
  else self.foldWrite pubkey handle sentUnixMs now

/-- Marks and rows not renewed for the time to live go; the rows are handed
back. Nothing goes while writes are slow. -/
def reap (self : PresenceTracker) (now : Instant) (congested : Bool) :
    List LiveMember × PresenceTracker :=
  if congested then ([], self)
  else
    let alive (m : LiveMember) : Bool := now - m.lastSeen < self.ttl
    ((self.members.retain fun _ m => !alive m).values,
      { self with
        members := self.members.retain fun _ m => alive m
        departed := self.departed.retain fun _ mark => now - mark.heard < self.ttl
        apart := fun pubkey => by
          simp only [Map.lookup_retain]
          exact (self.apart pubkey).imp (by simp [·]) (by simp [·]) })

end PresenceTracker

end Daemonseed.Room.Presence
