import Mathlib.Data.List.MinMax
import Daemonseed.Dm.Scans

/-! # The circles of a session

The session loop takes one command at a time. While a node it started is not
ready it holds every command but those that end the session. A circle is joined
by a request of its own or by the Connect that restores it, and a join that the
transport refuses for now is tried again later. -/
namespace Daemonseed.Gui.CircleSession
open Daemonseed.Dm.Scans (textContains)

variable {P S C : Type}

/-! ## Joining one circle -/

inductive VeilidNetError
  | routing (text : String)
  | timedOut (text : String)
  | other (text : String)
  deriving DecidableEq, Repr

def VeilidNetError.toString : VeilidNetError → String
  | .routing text => "routing error: " ++ text
  | .timedOut text => "timed out: " ++ text
  | .other text => text

def isTransientSubscribeError (e : VeilidNetError) : Bool :=
  (match e with
    | .routing _ | .timedOut _ => true
    | .other _ => false) ||
    textContains (e.toString.toList.map Char.toLower) "tryagain".toList

structure CircleKeys (S C : Type) where
  cotKey : C
  ownerSeed : S
  deriving DecidableEq, Repr

structure VeilidCircle (S C : Type) where
  circleId : Nat
  cotKey : C
  ownerSeed : S
  deriving DecidableEq, Repr

/-- A circle whose join failed at the transport; times are milliseconds. -/
structure PendingJoin (P : Type) where
  circleId : Nat
  phrase : P
  delay : Nat
  due : Nat
  deriving DecidableEq, Repr

inductive JoinAttempt
  | joined
  | settled
  | transportFailed (reason : String)
  deriving DecidableEq, Repr

/-- `circleJoined` names the content key its address is the fingerprint of. -/
inductive NetEvent (C : Type)
  | connected
  | stillConnecting
  | connectFailed (reason : String)
  | circleJoined (circleId : Nat) (cotKey : C)
  | circleJoinFailed (circleId : Nat) (reason : String)
  | circleError (circleId : Nat) (reason : String)
  deriving DecidableEq, Repr

inductive NetCommand (P : Type)
  | connect (rejoinCircles : List (Nat × P))
  | joinCircle (circleId : Nat) (phrase : P)
  | leaveCircle (circleId : Nat)
  | stopDm
  | gracefulClose
  /-- Any command that touches no circle and ends no session. -/
  | other
  deriving DecidableEq, Repr

def joinRetryFirstDelay : Nat := 5000
def joinRetryMaxDelay : Nat := 120000

def notConnected : String := "not connected to Veilid"
def previousNodeStopping : String :=
  "veilid start: the previous Veilid node is still stopping; try again in a moment"

structure Tried (S C : Type) where
  attempt : JoinAttempt
  circles : List (VeilidCircle S C)
  events : List (NetEvent C)

/-- How a subscribe was answered; `none` is one given up at the end of its time. -/
abbrev Answer := Option (Except VeilidNetError Unit)

variable [DecidableEq S] (derive : P → Except String (CircleKeys S C))

def joinCircleWith (circleId : Nat) (phrase : P) (net : Bool) (circles : List (VeilidCircle S C))
    (answer : Answer) : Tried S C :=
  if net then
    match derive phrase with
    | .error reason => ⟨.settled, circles, [.circleJoinFailed circleId reason]⟩
    | .ok keys =>
      match circles.find? fun c => decide (c.ownerSeed = keys.ownerSeed) with
      | some existing =>
        ⟨.settled, circles, [.circleJoined existing.circleId existing.cotKey]⟩
      | none =>
        match answer with
        | none => ⟨.transportFailed "no answer within 20s", circles, []⟩
        | some (.error e) =>
          let reason := "subscribe failed: " ++ e.toString
          if isTransientSubscribeError e then ⟨.transportFailed reason, circles, []⟩
          else ⟨.settled, circles, [.circleJoinFailed circleId reason]⟩
        | some (.ok ()) =>
          ⟨.joined, circles ++ [⟨circleId, keys.cotKey, keys.ownerSeed⟩],
            [.circleJoined circleId keys.cotKey]⟩
  else ⟨.settled, circles, [.circleJoinFailed circleId notConnected]⟩

/-! ## The session -/

/-- A node that is not ready yet, with what its Connect does once it is. -/
structure ParkedConnect (P : Type) where
  generation : Nat
  rejoinCircles : List (Nat × P)
  held : List (NetCommand P)
  deriving DecidableEq, Repr

/-- What the loop did, for its history: a command carried out or a Connect given
up, a join tried, an event sent. -/
inductive Entry (P C : Type)
  | took (cmd : NetCommand P)
  | abandoned (cmd : NetCommand P)
  | tried (circleId : Nat) (phrase : P) (attempt : JoinAttempt) (events : List (NetEvent C))
  | told (event : NetEvent C)
  deriving DecidableEq, Repr

/-- The loop's state; the last three fields are its history, the log newest first. -/
structure Session (P S C : Type) where
  cmdRx : List (NetCommand P)
  queued : List (NetCommand P)
  parked : Option (ParkedConnect P)
  parkGeneration : Nat
  teardown : Bool
  net : Bool
  circles : List (VeilidCircle S C)
  pendingJoins : List (PendingJoin P)
  sent : List (NetCommand P)
  closing : Bool
  log : List (Entry P C)

def Session.new : Session P S C := ⟨[], [], none, 0, false, false, [], [], [], false, []⟩

/-- The answer to one subscribe, and when the attempt ended. -/
structure Reply where
  answer : Except VeilidNetError Unit
  ended : Nat

def scheduleJoinRetry (pendingJoins : List (PendingJoin P)) (circleId : Nat) (phrase : P)
    (delay now : Nat) : List (PendingJoin P) :=
  pendingJoins ++ [⟨circleId, phrase, delay, now + delay⟩]

variable [DecidableEq P]

namespace Session

def joinOrScheduleRetry (s : Session P S C) (circleId : Nat) (phrase : P) (reply : Reply) :
    Session P S C :=
  let tried := joinCircleWith derive circleId phrase s.net s.circles (some reply.answer)
  let others := s.pendingJoins.filter fun p => decide (p.phrase ≠ phrase)
  match tried.attempt with
  | .transportFailed reason =>
    { s with
      circles := tried.circles
      pendingJoins := scheduleJoinRetry others circleId phrase joinRetryFirstDelay reply.ended
      log := .tried circleId phrase tried.attempt
        (tried.events ++ [.circleError circleId reason]) :: s.log }
  | .joined | .settled =>
    { s with
      circles := tried.circles
      pendingJoins := others
      log := .tried circleId phrase tried.attempt tried.events :: s.log }

end Session

/-- The index of the first of the due retries that are due earliest. -/
def earliestDue (pendingJoins : List (PendingJoin P)) (now : Nat) : Option Nat :=
  ((pendingJoins.zipIdx.filter fun e => decide (e.1.due ≤ now)).argmin (·.1.due)).map Prod.snd

/-- The last element moves to the place of the one removed. -/
def swapRemove {α : Type} (xs : List α) (i : Nat) : List α :=
  match xs.getLast? with
  | none => []
  | some last => (xs.set i last).dropLast

namespace Session

/-- The retry of `pending`, taken out of the table with `others` left. -/
def retryJoin (s : Session P S C) (pending : PendingJoin P) (others : List (PendingJoin P))
    (answer : Answer) (ended : Nat) : Session P S C :=
  let tried := joinCircleWith derive pending.circleId pending.phrase s.net s.circles answer
  { s with
    circles := tried.circles
    pendingJoins :=
      match tried.attempt with
      | .transportFailed _ => scheduleJoinRetry others pending.circleId pending.phrase
          (min (pending.delay * 2) joinRetryMaxDelay) ended
      | .joined | .settled => others
    log := .tried pending.circleId pending.phrase tried.attempt tried.events :: s.log }

def retryDueJoin (s : Session P S C) (now : Nat) (answer : Answer) (ended : Nat) :
    Session P S C :=
  if s.net then
    match earliestDue s.pendingJoins now with
    | none => s
    | some index =>
      match s.pendingJoins[index]? with
      | none => s
      | some pending => s.retryJoin derive pending (swapRemove s.pendingJoins index) answer ended
  else s

/-! ## Connecting -/

def failRejoinsWithoutConnection (s : Session P S C) : List (Nat × P) → Session P S C
  | [] => s
  | (circleId, phrase) :: rest =>
    failRejoinsWithoutConnection
      { s with
        log := .tried circleId phrase .settled
          [.circleJoinFailed circleId notConnected] :: s.log } rest

def rejoin (s : Session P S C) (replies : Nat → Reply) : List (Nat × P) → Session P S C
  | [] => s
  | (circleId, phrase) :: rest =>
    (s.joinOrScheduleRetry derive circleId phrase (replies 0)).rejoin
      (fun n => replies (n + 1)) rest

def afterConnect (s : Session P S C) (rejoinCircles : List (Nat × P)) (replies : Nat → Reply) :
    Session P S C :=
  if s.net then s.rejoin derive replies rejoinCircles
  else s.failRejoinsWithoutConnection rejoinCircles

/-- The Connect is carried out: what it restores is joined, or told that it failed. -/
def completed (s : Session P S C) (told : NetEvent C) (rejoinCircles : List (Nat × P))
    (replies : Nat → Reply) : Session P S C :=
  afterConnect derive { s with log := .took (.connect rejoinCircles) :: .told told :: s.log }
    rejoinCircles replies

end Session

/-- How the start of a node ends. -/
inductive Start
  | failed (reason : String)
  | attaching
  | attachRefused (reason : String)
  deriving DecidableEq, Repr

namespace Session

def park (s : Session P S C) (rejoinCircles : List (Nat × P)) : Session P S C :=
  { s with
    parkGeneration := s.parkGeneration + 1
    parked := some ⟨s.parkGeneration + 1, rejoinCircles, []⟩
    log := .told .stillConnecting :: s.log }

def connect (s : Session P S C) (rejoinCircles : List (Nat × P)) (start : Start)
    (replies : Nat → Reply) : Session P S C :=
  if s.net then s.completed derive .connected rejoinCircles replies
  else
    match start with
    | .failed reason => s.completed derive (.connectFailed reason) rejoinCircles replies
    | .attaching => s.park rejoinCircles
    | .attachRefused reason =>
      { s.completed derive (.connectFailed ("veilid attach: " ++ reason)) rejoinCircles replies with
        teardown := true }

def handleCommand (s : Session P S C) (start : Start) (replies : Nat → Reply) :
    NetCommand P → Session P S C
  | .connect rejoinCircles => s.connect derive rejoinCircles start replies
  | .joinCircle circleId phrase =>
    joinOrScheduleRetry derive { s with log := .took (.joinCircle circleId phrase) :: s.log }
      circleId phrase (replies 0)
  | .leaveCircle circleId =>
    { s with
      circles := s.circles.filter fun c => decide (c.circleId ≠ circleId)
      pendingJoins := s.pendingJoins.filter fun p => decide (p.circleId ≠ circleId)
      log := .took (.leaveCircle circleId) :: s.log }
  | .gracefulClose =>
    { s with net := false, pendingJoins := [], closing := true, log := .took .gracefulClose :: s.log }
  | .stopDm => { s with log := .took .stopDm :: s.log }
  | .other => { s with log := .took .other :: s.log }

end Session

/-! ## The loop -/

/-- Whether the command ends the session a parked node was started for. -/
def NetCommand.discardsParked : NetCommand P → Bool
  | .stopDm | .gracefulClose => true
  | _ => false

def NetCommand.isConnect : NetCommand P → Bool
  | .connect _ => true
  | _ => false

namespace Session

/-- The parked node is shut down. What it held runs first, and then the command;
a close drops the Connects among it. -/
def discard (s : Session P S C) (p : ParkedConnect P) (cmd : NetCommand P) : Session P S C :=
  let closing := decide (cmd = .gracefulClose)
  { s with
    parked := none
    teardown := s.teardown || !closing
    closing := s.closing || closing
    queued := (if closing then p.held.filter (!·.isConnect) else p.held) ++ cmd :: s.queued
    log := .abandoned (.connect p.rejoinCircles) :: s.log }

def onCommand (s : Session P S C) (start : Start) (replies : Nat → Reply) (cmd : NetCommand P) :
    Session P S C :=
  match s.parked with
  | some p =>
    if cmd.discardsParked then s.discard p cmd
    else { s with parked := some { p with held := p.held ++ [cmd] } }
  | none =>
    if cmd.isConnect && s.teardown then
      { s with log := .abandoned cmd :: .told (.connectFailed previousNodeStopping) :: s.log }
    else s.handleCommand derive start replies cmd

/-- The first queued command, else the next of the channel. -/
def nextCommand (s : Session P S C) (start : Start) (replies : Nat → Reply) : Session P S C :=
  match s.queued, s.cmdRx with
  | cmd :: rest, _ => onCommand derive { s with queued := rest } start replies cmd
  | [], cmd :: rest => onCommand derive { s with cmdRx := rest } start replies cmd
  | [], [] => s

/-- The result of a readiness read: whether the node is ready, an error, or `none`
where the read ran out of time. -/
abbrev Read := Option (Except String Bool)

/-- The parked node's Connect is carried out and the commands it held run next. -/
def release (s : Session P S C) (p : ParkedConnect P) (told : NetEvent C)
    (replies : Nat → Reply) : Session P S C :=
  let s := completed derive { s with parked := none } told p.rejoinCircles replies
  { s with queued := p.held ++ s.queued }

def onRead (s : Session P S C) (generation : Nat) (read : Read) (replies : Nat → Reply) :
    Session P S C :=
  match s.parked with
  | none => s
  | some p =>
    if p.generation = generation then
      match read with
      | none | some (.ok false) => s
      | some (.error e) =>
        release derive { s with teardown := true } p (.connectFailed ("veilid attach: " ++ e))
          replies
      | some (.ok true) =>
        let s := { s with queued := s.queued ++ s.cmdRx, cmdRx := [] }
        if s.queued.any NetCommand.discardsParked then s
        else release derive { s with net := true } p .connected replies
    else s

end Session

/-- What the loop is given: a command sent, its turn to take one with how a start
and the subscribes end, a readiness read that arrives, the end of a shutdown, and
a tick of the retries. -/
inductive Input (P : Type)
  | send (cmd : NetCommand P)
  | next (start : Start) (replies : Nat → Reply)
  | read (generation : Nat) (read : Session.Read) (replies : Nat → Reply)
  | teardownDone
  | retryTick (now : Nat) (answer : Answer) (ended : Nat)

def Session.step (s : Session P S C) : Input P → Session P S C
  | .send cmd => { s with cmdRx := s.cmdRx ++ [cmd], sent := s.sent ++ [cmd] }
  | .next start replies => s.nextCommand derive start replies
  | .read generation read replies => s.onRead derive generation read replies
  | .teardownDone => { s with teardown := false }
  | .retryTick now answer ended => s.retryDueJoin derive now answer ended

def Session.run (s : Session P S C) (inputs : List (Input P)) : Session P S C :=
  inputs.foldl (Session.step derive) s

end Daemonseed.Gui.CircleSession
