import Daemonseed.Lib.Maps
import Daemonseed.Lib.Runs

/-! # The rooms of the interface

Each room keeps a transcript in memory, ordered by the senders' stamps as they
are trusted, an unread mark, and the moment up to which its messages have been
seen. That moment is kept for the circles of a profile over a relaunch. The
derivation of a circle's key from its phrase is a parameter. -/
namespace Daemonseed.Gui.Transcript
open Daemonseed.Lib.Maps Daemonseed.Lib.Runs

def transcriptMaxBacklogAge : Int := 24 * 60 * 60 * 1000

def transcriptMaxClockSkew : Int := 120 * 1000

/-- A stamp pulled into the window that is trusted. -/
def clampOrderMs (sentUnixMs nowMs : Int) : Int :=
  max (nowMs - transcriptMaxBacklogAge) (min sentUnixMs (nowMs + transcriptMaxClockSkew))

def isStaleBacklog (sentUnixMs nowMs : Int) : Bool :=
  decide (sentUnixMs < nowMs - transcriptMaxBacklogAge)

/-- A message as its sender made it. -/
structure Sent where
  who : String
  text : String
  mine : Bool
  sentUnixMs : Int
  deriving DecidableEq

structure Msg extends Sent where
  orderMs : Int

/-- A room of the rail; the Lobby has no phrase. -/
structure Room (P : Type) where
  phrase : Option P
  messages : List Msg
  unread : Bool
  highWaterMs : Int

inductive RailSection
  | chats
  | directMessages
  deriving DecidableEq

structure GuiState (P : Type) where
  circles : List (Room P)
  active : Nat
  owner : RailSection
  chatsOpen : Bool

variable {P : Type}

def Room.new (phrase : Option P) (highWaterMs : Int) : Room P := ⟨phrase, [], false, highWaterMs⟩

namespace GuiState

/-- Whether the main pane shows the chat of the active room. -/
def chatOnScreen (self : GuiState P) : Bool := decide (self.owner = .chats) && self.chatsOpen

def onScreen (self : GuiState P) (idx : Nat) : Bool :=
  decide (idx = self.active) && self.chatOnScreen

end GuiState

/-! ## A message comes in -/

def Room.holds (self : Room P) (sent : Sent) : Bool := self.messages.any (·.toSent == sent)

/-- A message behind those whose order time is not later. -/
def Room.insert (self : Room P) (msg : Msg) : Room P :=
  { self with
    messages := self.messages.takeWhile (·.orderMs ≤ msg.orderMs) ++
      msg :: self.messages.dropWhile (·.orderMs ≤ msg.orderMs) }

structure PushOutcome where
  inserted : Bool
  unreadRaised : Bool
  deriving DecidableEq

/-- A message comes into a room that is on screen or is not. -/
def Room.push (self : Room P) (sent : Sent) (onScreen : Bool) (now : Int) : Room P × PushOutcome :=
  let order := clampOrderMs sent.sentUnixMs now
  if self.holds sent then (self, ⟨false, false⟩)
  else
    let room := self.insert ⟨sent, order⟩
    if onScreen then
      ({ room with highWaterMs := max room.highWaterMs (min order now) }, ⟨true, false⟩)
    else if !sent.mine && decide (order > room.highWaterMs) && !room.unread then
      ({ room with unread := true }, ⟨true, true⟩)
    else (room, ⟨true, false⟩)

/-- The room is on screen: everything in it is seen. -/
def Room.seen (self : Room P) (now : Int) : Room P :=
  { self with
    unread := false
    highWaterMs := match self.messages.getLast? with
      | some latest => max self.highWaterMs (min latest.orderMs now)
      | none => self.highWaterMs }

namespace GuiState

def pushMessage (self : GuiState P) (idx : Nat) (sent : Sent) (now : Int) :
    GuiState P × PushOutcome :=
  match self.circles[idx]? with
  | some room =>
    let (room, outcome) := room.push sent (self.onScreen idx) now
    ({ self with circles := self.circles.set idx room }, outcome)
  | none => (self, ⟨false, false⟩)

/-- The event of a message; one too old is dropped. -/
def onMessage (self : GuiState P) (idx : Nat) (sent : Sent) (now : Int) : GuiState P × PushOutcome :=
  if isStaleBacklog sent.sentUnixMs now then (self, ⟨false, false⟩)
  else self.pushMessage idx sent now

/-! ## What the main pane shows -/

def markActiveRoomSeen (self : GuiState P) (now : Int) : GuiState P :=
  { self with circles := self.circles.modify self.active (Room.seen · now) }

def switchTo (self : GuiState P) (target : Nat) (now : Int) : GuiState P :=
  if target < self.circles.length then
    { self with active := target, owner := .chats, chatsOpen := true }.markActiveRoomSeen now
  else self

def openRailSection (self : GuiState P) (section_ : RailSection) (now : Int) : GuiState P :=
  match section_ with
  | .chats => self.switchTo 0 now
  | .directMessages => { self with owner := .directMessages, chatsOpen := false }

def toggleRailSection (self : GuiState P) (section_ : RailSection) (now : Int) : GuiState P :=
  let toggled := match section_ with
    | .chats => { self with chatsOpen := !self.chatsOpen }
    | .directMessages => self
  if toggled.chatOnScreen then toggled.markActiveRoomSeen now else toggled

/-- A direct message's thread is selected. -/
def selectDm (self : GuiState P) : GuiState P := { self with owner := .directMessages }

end GuiState

/-! ## The profile -/

structure Seeds (P : Type) where
  circles : List P
  circleSeen : Map P Int

/-- The profile as unlocked, and as it is in its blob. -/
structure Profile (P : Type) where
  seeds : Seeds P
  blob : Seeds P

section

variable [DecidableEq P]

def Seeds.setCircleSeen (self : Seeds P) (phrase : P) (ms : Int) : Bool × Seeds P :=
  if (self.circleSeen.lookup phrase).any (ms ≤ ·) then (false, self)
  else (true, { self with circleSeen := self.circleSeen.insert phrase ms })

/-- `resealed` is whether the blob could be written. -/
def Profile.persistCircleSeen (self : Profile P) (phrase : P) (ms : Int) (resealed : Bool) :
    Profile P :=
  let (changed, seeds) := self.seeds.setCircleSeen phrase ms
  ⟨seeds, if changed && resealed then seeds else self.blob⟩

/-- The marks that are kept: those of the circles whose rooms were seen. -/
def GuiState.marks (self : GuiState P) : List (P × Int) :=
  (self.circles.filterMap fun room => room.phrase.map (·, room.highWaterMs)).filter (0 < ·.2)

def GuiState.persistAllCircleSeen (self : GuiState P) (profile : Profile P) (resealed : P → Bool) :
    Profile P :=
  self.marks.foldl (fun p mark => p.persistCircleSeen mark.1 mark.2 (resealed mark.1)) profile

variable {K : Type} [DecidableEq K] (deriveCotKey : P → Option K)

/-- A circle of the profile gets a room unless one has its key. -/
def addCircle (circleSeen : Map P Int) (rooms : List (Room P)) (phrase : P) : List (Room P) :=
  match deriveCotKey phrase with
  | none => rooms
  | some key =>
    if rooms.any fun room => decide (room.phrase.bind deriveCotKey = some key) then rooms
    else rooms ++ [.new (some phrase) ((circleSeen.lookup phrase).getD 0)]

/-- The interface of a new session, with the circles of the profile. -/
def GuiState.start (seeds : Seeds P) : GuiState P where
  circles := seeds.circles.foldl (addCircle deriveCotKey seeds.circleSeen) [.new none 0]
  active := 0
  owner := .chats
  chatsOpen := true

end

/-! ## Sessions one after another -/

/-- What happens to the interface. -/
inductive Call (P : Type)
  | wait (ms : Nat)
  | message (idx : Nat) (sent : Sent)
  | switchTo (target : Nat)
  | openRailSection (section_ : RailSection)
  | toggleRailSection (section_ : RailSection)
  | selectDm
  | persistAllCircleSeen (resealed : P → Bool)
  | relaunch

/-- The interface over its sessions, by the local clock. Beside it is kept when
each room was on screen last, and when each message of the session came in. -/
structure World (P : Type) where
  gui : GuiState P
  profile : Profile P
  clock : Nat
  shown : Option P → Int
  arrivals : List (Option P × Msg × Int)

section

variable [DecidableEq P] {K : Type} [DecidableEq K] (deriveCotKey : P → Option K)

namespace World

/-- The key of the room on screen. -/
def roomShown (self : World P) : Option (Option P) :=
  if self.gui.chatOnScreen then self.gui.circles[self.gui.active]?.map Room.phrase else none

/-- A room on screen is so at this moment. -/
def touched (self : World P) : World P :=
  match self.roomShown with
  | some key => { self with shown := Function.update self.shown key self.clock }
  | none => self

/-- The message that comes into a room, where it is not held yet. -/
def arrives (self : World P) (idx : Nat) (sent : Sent) : Option (Option P × Msg × Int) :=
  if isStaleBacklog sent.sentUnixMs self.clock then none
  else self.gui.circles[idx]?.bind fun room =>
    if room.holds sent then none
    else some (room.phrase, ⟨sent, clampOrderMs sent.sentUnixMs self.clock⟩, self.clock)

def called (self : World P) : Call P → World P
  | .wait ms => { self with clock := self.clock + ms }
  | .message idx sent =>
    { self with
      gui := (self.gui.onMessage idx sent self.clock).1
      arrivals := (self.arrives idx sent).toList ++ self.arrivals }
  | .switchTo target => { self with gui := self.gui.switchTo target self.clock }
  | .openRailSection s => { self with gui := self.gui.openRailSection s self.clock }
  | .toggleRailSection s => { self with gui := self.gui.toggleRailSection s self.clock }
  | .selectDm => { self with gui := self.gui.selectDm }
  | .persistAllCircleSeen resealed =>
    { self with profile := self.gui.persistAllCircleSeen self.profile resealed }
  | .relaunch =>
    { self with
      gui := .start deriveCotKey self.profile.blob
      profile := ⟨self.profile.blob, self.profile.blob⟩
      arrivals := [] }

def step (self : World P) (call : Call P) : World P := (self.called deriveCotKey call).touched

/-- The first session, of a profile nothing of was seen in. -/
def start (circles : List P) (clock : Nat) : World P :=
  touched
    { gui := .start deriveCotKey ⟨circles, ∅⟩
      profile := ⟨⟨circles, ∅⟩, ⟨circles, ∅⟩⟩
      clock
      shown := fun _ => 0
      arrivals := [] }

end World

end

end Daemonseed.Gui.Transcript
