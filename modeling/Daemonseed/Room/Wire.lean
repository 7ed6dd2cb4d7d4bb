import Daemonseed.Lib.Bytes

/-! # What a room's records carry

The messages of the wire schema that the readers of a room take in. -/
namespace Daemonseed.Room.Wire
open Daemonseed.Lib.Bytes

/-- A chat message, in a public room or in a circle. -/
structure RoomMessage where
  roomId : String
  senderPubkey : Octets
  senderHandle : String
  body : String
  sentUnixMs : Int64
  signature : Octets
  deriving DecidableEq

/-- A beacon of one member, or its leave tombstone. -/
structure MemberHeartbeat where
  room : String
  senderPubkey : Octets
  senderHandle : String
  sentUnixMs : Int64
  signature : Octets
  liveShareIds : List String
  isLeave : Bool
  deriving DecidableEq

/-- One share listed in a room, or withdrawn from it. -/
structure ShareAnnouncement where
  room : String
  senderPubkey : Octets
  senderHandle : String
  shareId : String
  name : String
  rating : String
  withdraw : Bool
  sentUnixMs : Int64
  signature : Octets
  rootCommitment : Octets
  deriving DecidableEq

end Daemonseed.Room.Wire
