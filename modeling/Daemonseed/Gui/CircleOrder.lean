import Daemonseed.Gui.CircleJoins

/-! # What a session owes the circles asked for

Commands end in the order they were sent, whatever a parked node held back, so
a request carried out after a circle was left was sent after the leave. -/
namespace Daemonseed.Gui.CircleOrder
open Daemonseed.Gui.CircleSession Daemonseed.Gui.CircleSession.Session Daemonseed.Gui.CircleJoins

variable {P S C : Type} {derive : P → Except String (CircleKeys S C)} {s s' : Session P S C}
  {cmd : NetCommand P} {cmds : List (NetCommand P)} {rest : List (Nat × P)}

/-! ## What a join leaves alone -/

/-- The queues, the node being started and the commands ended are as before. -/
structure Still (s s' : Session P S C) : Prop where
  cmdRx : s'.cmdRx = s.cmdRx
  queued : s'.queued = s.queued
  parked : s'.parked = s.parked
  sent : s'.sent = s.sent
  closing : s'.closing = s.closing
  ended : ended s'.log = ended s.log

theorem Still.refl (s : Session P S C) : Still s s := ⟨rfl, rfl, rfl, rfl, rfl, rfl⟩

theorem Still.trans {s'' : Session P S C} (h : Still s s') (h' : Still s' s'') : Still s s'' :=
  ⟨h'.cmdRx.trans h.cmdRx, h'.queued.trans h.queued, h'.parked.trans h.parked,
    h'.sent.trans h.sent, h'.closing.trans h.closing, h'.ended.trans h.ended⟩

theorem ends_still {circleId : Nat} {phrase : P} {others : List (PendingJoin P)}
    (ends : Ends derive s circleId phrase others s') : Still s s' := by
  cases ends <;> exact ⟨rfl, rfl, rfl, rfl, rfl, rfl⟩

theorem failed_still (s : Session P S C) (rest : List (Nat × P)) :
    Still s (s.failRejoinsWithoutConnection rest) := by
  induction rest generalizing s with
  | nil => exact .refl s
  | cons r rest ih =>
    refine .trans ?_ (ih _)
    exact ⟨rfl, rfl, rfl, rfl, rfl, rfl⟩

/-! ## The order of commands -/

/-- The commands that have ended or still wait, in the order they end. -/
def seen (s : Session P S C) : List (NetCommand P) := ended s.log ++ waiting s

/-- The commands end in the order they were sent, and none is lost before a close. -/
structure InOrder (s : Session P S C) : Prop where
  order : (seen s).Sublist s.sent
  whole : s.closing = false → seen s = s.sent

/-- With nothing sent, `cmds` are seen afterwards, or some of them once a close began. -/
structure Passes (s s' : Session P S C) (cmds : List (NetCommand P)) : Prop where
  order : (seen s').Sublist cmds
  whole : s'.closing = false → s.closing = false ∧ seen s' = cmds
  sent : s'.sent = s.sent

theorem Passes.all (seen : seen s' = cmds) (sent : s'.sent = s.sent)
    (closing : s'.closing = false → s.closing = false) : Passes s s' cmds :=
  ⟨seen ▸ .refl _, fun unclosed => ⟨closing unclosed, seen⟩, sent⟩

theorem Still.seen (still : Still s s') : seen s' = seen s := by
  unfold CircleOrder.seen waiting
  rw [still.ended, still.parked, still.queued, still.cmdRx]

theorem Still.requeue (still : Still s s') (held : List (NetCommand P)) :
    CircleOrder.seen { s' with queued := held ++ s'.queued } =
      CircleOrder.seen { s with queued := held ++ s.queued } := by
  unfold CircleOrder.seen waiting
  dsimp only
  rw [still.ended, still.parked, still.queued, still.cmdRx]

theorem Passes.still {s'' : Session P S C} (passes : Passes s s' cmds) (still : Still s' s'') :
    Passes s s'' cmds where
  order := still.seen ▸ passes.order
  whole unclosed := still.seen ▸ passes.whole (still.closing ▸ unclosed)
  sent := still.sent.trans passes.sent

theorem Passes.of {s₀ : Session P S C} {cmds₀ : List (NetCommand P)} (passes : Passes s₀ s' cmds₀)
    (sent : s₀.sent = s.sent) (closing : s₀.closing = s.closing) (eq : cmds₀ = cmds) :
    Passes s s' cmds where
  order := eq ▸ passes.order
  whole unclosed := closing ▸ eq ▸ passes.whole unclosed
  sent := passes.sent.trans sent

theorem InOrder.passes (inOrder : InOrder s) (passes : Passes s s' (seen s)) : InOrder s' where
  order := passes.sent ▸ passes.order.trans inOrder.order
  whole unclosed := by
    obtain ⟨before, eq⟩ := passes.whole unclosed
    rw [eq, passes.sent, inOrder.whole before]

section
variable [DecidableEq S] [DecidableEq P] {start : Start} {replies : Nat → Reply}

theorem rejoin_still (s : Session P S C) (replies : Nat → Reply) (rest : List (Nat × P)) :
    Still s (s.rejoin derive replies rest) := by
  induction rest generalizing s replies with
  | nil => exact .refl s
  | cons r rest ih => exact (ends_still (joinOrScheduleRetry_ends s _ _ _)).trans (ih _ _)

theorem afterConnect_still (s : Session P S C) (replies : Nat → Reply) (rest : List (Nat × P)) :
    Still s (s.afterConnect derive rest replies) := by
  unfold afterConnect
  split
  · exact rejoin_still s replies rest
  · exact failed_still s rest

/-- A Connect is carried out with its node no longer parked. -/
theorem completed_passes {told : NetEvent C} (idle : s.parked = none) :
    Passes s (s.completed derive told rest replies)
      (ended s.log ++ .connect rest :: (s.queued ++ s.cmdRx)) := by
  refine Passes.still ?_ (afterConnect_still _ replies rest)
  exact .all (by simp [seen, waiting, ended, idle]) rfl id

theorem handleCommand_passes (idle : s.parked = none) (cmd : NetCommand P) :
    Passes s (s.handleCommand derive start replies cmd)
      (ended s.log ++ cmd :: (s.queued ++ s.cmdRx)) := by
  cases cmd with
  | connect rest =>
    change Passes s (s.connect derive rest start replies) _
    unfold Session.connect
    split
    · exact completed_passes idle
    · cases start with
      | failed reason => exact completed_passes idle
      | attaching => exact .all (by simp [seen, waiting, ended, park]) rfl id
      | attachRefused reason =>
        have passes : Passes s
            (s.completed derive (.connectFailed ("veilid attach: " ++ reason)) rest replies)
            (ended s.log ++ .connect rest :: (s.queued ++ s.cmdRx)) := completed_passes idle
        refine passes.still ?_
        exact ⟨rfl, rfl, rfl, rfl, rfl, rfl⟩
  | joinCircle circleId phrase =>
    refine Passes.still ?_ (ends_still (joinOrScheduleRetry_ends _ _ _ _))
    exact .all (by simp [seen, waiting, ended, idle]) rfl id
  | gracefulClose =>
    refine .all (by simp [seen, waiting, ended, idle, handleCommand]) rfl fun unclosed => ?_
    cases unclosed
  | leaveCircle | stopDm | other =>
    exact .all (by simp [seen, waiting, ended, idle, handleCommand]) rfl id

/-- What a parked node holds waits before the command. -/
theorem onCommand_passes (cmd : NetCommand P) :
    Passes s (s.onCommand derive start replies cmd)
      (ended s.log ++ (s.parked.elim [] fun p => .connect p.rejoinCircles :: p.held) ++
        cmd :: (s.queued ++ s.cmdRx)) := by
  unfold onCommand
  split
  · rename_i p parked
    split
    · by_cases closing : cmd = .gracefulClose
      · refine ⟨?_, fun unclosed => ?_, rfl⟩
        · simp only [seen, waiting, Session.discard, ended, parked, closing, Option.elim_none,
            Option.elim_some, decide_true, if_true, List.append_assoc, List.nil_append,
            List.cons_append]
          exact .append_left (.cons_cons _ (.append_right List.filter_sublist _)) _
        · simp [Session.discard, closing] at unclosed
      · refine .all ?_ rfl fun unclosed => (Bool.or_eq_false_iff.1 unclosed).1
        simp [seen, waiting, Session.discard, ended, parked, closing]
    · exact .all (by simp [seen, waiting, parked]) rfl id
  · rename_i idle
    rw [idle]
    split
    · exact .all (by simp [seen, waiting, ended]) rfl id
    · simpa using handleCommand_passes idle cmd

theorem nextCommand_passes : Passes s (s.nextCommand derive start replies) (seen s) := by
  unfold nextCommand
  split
  · rename_i queued
    refine (onCommand_passes _).of rfl rfl ?_
    simp [seen, waiting, queued]
  · rename_i queued cmdRx
    refine (onCommand_passes _).of rfl rfl ?_
    simp [seen, waiting, queued, cmdRx]
  · exact .all rfl rfl id

theorem release_passes {p : ParkedConnect P} {told : NetEvent C} (parked : s.parked = some p) :
    Passes s (s.release derive p told replies) (seen s) := by
  let released : Session P S C :=
    { s with
      parked := none
      log := .took (.connect p.rejoinCircles) :: .told told :: s.log }
  have still : Still released (released.afterConnect derive p.rejoinCircles replies) :=
    afterConnect_still released replies p.rejoinCircles
  refine .all ((still.requeue p.held).trans ?_) still.sent fun unclosed => still.closing ▸ unclosed
  simp [seen, waiting, ended, parked, released]

theorem onRead_passes {generation : Nat} {read : Read} :
    Passes s (s.onRead derive generation read replies) (seen s) := by
  unfold onRead
  split
  · exact .all rfl rfl id
  · rename_i p parked
    split
    · split
      · exact .all rfl rfl id
      · exact .all rfl rfl id
      · exact (release_passes (by exact parked)).of rfl rfl rfl
      · dsimp only
        have drained : seen { s with queued := s.queued ++ s.cmdRx, cmdRx := [] } = seen s := by
          simp [seen, waiting]
        split
        · exact .all drained rfl id
        · refine (release_passes (by exact parked)).of rfl rfl ?_
          exact drained
    · exact .all rfl rfl id

omit [DecidableEq P] in
theorem retryDueJoin_still {now ended : Nat} {answer : Answer} :
    Still s (s.retryDueJoin derive now answer ended) := by
  unfold retryDueJoin
  split
  · split
    · exact .refl s
    · split
      · exact .refl s
      · exact ends_still (retryJoin_ends s _ _ _)
  · exact .refl s

theorem InOrder.step (inOrder : InOrder s) (input : Input P) : InOrder (s.step derive input) := by
  cases input with
  | send cmd =>
    have seen' : seen { s with cmdRx := s.cmdRx ++ [cmd], sent := s.sent ++ [cmd] } =
        seen s ++ [cmd] := by
      simp [seen, waiting]
    refine ⟨?_, fun unclosed => ?_⟩
    · exact seen' ▸ inOrder.order.append_right [cmd]
    · exact seen'.trans (congrArg (· ++ [cmd]) (inOrder.whole unclosed))
  | next start replies => exact inOrder.passes nextCommand_passes
  | read generation read replies => exact inOrder.passes onRead_passes
  | teardownDone => exact ⟨inOrder.order, inOrder.whole⟩
  | retryTick now answer ended =>
    exact inOrder.passes (Passes.still (.all rfl rfl id) retryDueJoin_still)

theorem InOrder.run (inOrder : InOrder s) (inputs : List (Input P)) :
    InOrder (s.run derive inputs) := by
  induction inputs generalizing s with
  | nil => exact inOrder
  | cons input inputs ih => exact ih (inOrder.step input)

end

/-! ## The session -/

section
variable (derive)

/-- No id is sent for two circles. -/
def OneCircle (sent : List (NetCommand P)) : Prop :=
  ∀ circleId p q, (circleId, p) ∈ sent.flatMap requests → (circleId, q) ∈ sent.flatMap requests →
    SameCircle derive p q

/-- What a session owes the circles it was asked for and told to leave. -/
structure Owes (s : Session P S C) : Prop where
  oneHeld : (s.circles.map VeilidCircle.ownerSeed).Nodup
  oneId : OneCircle derive s.sent → (s.circles.map VeilidCircle.circleId).Nodup
  oneRetry : (s.pendingJoins.map PendingJoin.phrase).Nodup
  answered : s.closing = false → ∀ p, Wanted derive p s.log →
    Held derive s p ∨ s.net = true ∧ p ∈ s.pendingJoins.map PendingJoin.phrase
  waits : s.closing = false → ended s.log ++ waiting s = s.sent
  order : (ended s.log ++ waiting s).Sublist s.sent
  held : ∀ c ∈ s.circles, ∃ p, Names derive p c.ownerSeed ∧ Live c.circleId p s.log
  retried : ∀ p ∈ s.pendingJoins, Live p.circleId p.phrase s.log
  subscribed : Fresh s.log

end

theorem ids_once (kept : Kept derive s rest) (inOrder : InOrder s) (one : OneCircle derive s.sent) :
    (s.circles.map VeilidCircle.circleId).Nodup := by
  have sent : ∀ {circleId p}, Live circleId p s.log → (circleId, p) ∈ s.sent.flatMap requests := by
    intro circleId p live
    obtain ⟨cmd, took, asks⟩ := live.asked
    have mem : cmd ∈ s.sent := inOrder.order.mem (List.mem_append_left _ (mem_ended took))
    exact List.mem_flatMap.2 ⟨cmd, mem, asks⟩
  refine List.pairwise_map.2 ((List.pairwise_map.1 kept.seeds).imp_of_mem ?_)
  intro c d hc hd other same
  obtain ⟨p, names, live⟩ := kept.held c hc
  obtain ⟨q, names', live'⟩ := kept.held d hd
  have circle := one d.circleId p q (sent (same ▸ live)) (sent live')
  exact other (names.unique (circle.names names'))

theorem owes (kept : Kept derive s []) (inOrder : InOrder s) : Owes derive s where
  oneHeld := kept.seeds
  oneId := ids_once kept inOrder
  oneRetry := kept.phrases
  answered unclosed p wanted := by
    rcases kept.answered unclosed p wanted with held | pending | waits
    · exact .inl held
    · obtain ⟨retry, mem, rfl⟩ := List.mem_map.1 pending
      exact .inr ⟨kept.connected (List.ne_nil_of_mem mem), pending⟩
    · cases waits
  waits := inOrder.whole
  order := inOrder.order
  held := kept.held
  retried := kept.retried
  subscribed := kept.fresh

/-- **Joins end.** In every state of a session, over every sequence of commands and
outcomes. -/
theorem joins_end [DecidableEq S] [DecidableEq P] (derive : P → Except String (CircleKeys S C))
    (inputs : List (Input P)) : Owes derive (Session.new.run derive inputs) :=
  owes (new_kept.run inputs) (InOrder.run ⟨.refl _, fun _ => rfl⟩ inputs)

/-! A stop that comes while the node is being started: the circle the Connect
restores is not held, not tried again and not told to have failed. -/

def plainKeys (phrase : Nat) : Except String (CircleKeys Nat Nat) := .ok ⟨phrase, phrase⟩

def subscribedAll (_ : Nat) : Reply := ⟨.ok (), 0⟩

def stoppedEarly : Session Nat Nat Nat :=
  Session.new.run plainKeys
    [.send (.connect [(7, 0)]), .next .attaching subscribedAll, .send .stopDm,
      .next .attaching subscribedAll, .next .attaching subscribedAll]

theorem stopped_connect_unanswered :
    stoppedEarly.sent = [.connect [(7, 0)], .stopDm] ∧ stoppedEarly.closing = false ∧
    waiting stoppedEarly = [] ∧ stoppedEarly.circles = [] ∧ stoppedEarly.pendingJoins = [] ∧
    stoppedEarly.log =
      [.took .stopDm, .abandoned (.connect [(7, 0)]), .told .stillConnecting] := by
  decide

end Daemonseed.Gui.CircleOrder
