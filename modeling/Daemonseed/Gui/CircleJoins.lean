import Mathlib.Data.List.Nodup
import Daemonseed.Gui.CircleSession

/-! # Every circle join ends

A circle that was asked for and not left is held, failed for good, or tried
again; and what a session holds or tries again under an id was asked for under
it since the id was last left. -/
namespace Daemonseed.Gui.CircleJoins
open Daemonseed.Gui.CircleSession Daemonseed.Gui.CircleSession.Session

variable {P S C : Type} {derive : P → Except String (CircleKeys S C)}

/-! ## What was asked for -/

/-- The circles that a command asks to be joined, each with its id. -/
def requests : NetCommand P → List (Nat × P)
  | .connect rejoinCircles => rejoinCircles
  | .joinCircle circleId phrase => [(circleId, phrase)]
  | _ => []

section
variable (derive)

def Names (phrase : P) (ownerSeed : S) : Prop :=
  ∃ keys, derive phrase = .ok keys ∧ keys.ownerSeed = ownerSeed

def SameCircle (p q : P) : Prop := p = q ∨ ∃ seed, Names derive p seed ∧ Names derive q seed

/-- Whether a request for `phrase` under `circleId` was carried out. -/
def Asked (circleId : Nat) (phrase : P) (log : List (Entry P C)) : Prop :=
  ∃ cmd, .took cmd ∈ log ∧ (circleId, phrase) ∈ requests cmd

/-- Whether such a request was carried out since `circleId` was last left. -/
def Live (circleId : Nat) (phrase : P) : List (Entry P C) → Prop
  | [] => False
  | .took cmd :: log =>
    (circleId, phrase) ∈ requests cmd ∨ cmd ≠ .leaveCircle circleId ∧ Live circleId phrase log
  | _ :: log => Live circleId phrase log

/-- Whether the events tell that a join ended for good. -/
def Refused (events : List (NetEvent C)) : Prop :=
  ∃ circleId reason, .circleJoinFailed circleId reason ∈ events

/-- Whether the command leaves the circle of `phrase`, by an id it was asked for under. -/
def Leaves (cmd : NetCommand P) (phrase : P) (log : List (Entry P C)) : Prop :=
  ∃ circleId q, cmd = .leaveCircle circleId ∧ Asked circleId q log ∧ SameCircle derive phrase q

/-- Whether the circle of `phrase` was asked for, and since then neither left nor
told to have failed. -/
def Wanted (phrase : P) : List (Entry P C) → Prop
  | [] => False
  | .took cmd :: log =>
    (∃ circleId, (circleId, phrase) ∈ requests cmd) ∨
      Wanted phrase log ∧ ¬ Leaves derive cmd phrase log
  | .tried _ q _ events :: log =>
    Wanted phrase log ∧ ¬ (SameCircle derive phrase q ∧ Refused events)
  | .abandoned _ :: log | .told _ :: log => Wanted phrase log

def Held (s : Session P S C) (phrase : P) : Prop := ∃ c ∈ s.circles, Names derive phrase c.ownerSeed

end

/-- The commands carried out or given up, in that order. -/
def ended : List (Entry P C) → List (NetCommand P)
  | [] => []
  | .took cmd :: log | .abandoned cmd :: log => ended log ++ [cmd]
  | _ :: log => ended log

/-- The commands that wait: the Connect of the node being started, those it holds,
those to be run next and those of the channel. -/
def waiting (s : Session P S C) : List (NetCommand P) :=
  (s.parked.elim [] fun p => .connect p.rejoinCircles :: p.held) ++ s.queued ++ s.cmdRx

/-! ## What a log keeps -/

variable {log : List (Entry P C)} {circleId : Nat} {phrase p q : P} {cmd : NetCommand P}

theorem SameCircle.symm (h : SameCircle derive p q) : SameCircle derive q p := by
  rcases h with rfl | ⟨seed, named, named'⟩
  · exact .inl rfl
  · exact .inr ⟨seed, named', named⟩

theorem Names.unique {seed seed' : S} (h : Names derive p seed) (h' : Names derive p seed') :
    seed = seed' := by
  obtain ⟨keys, eq, rfl⟩ := h
  obtain ⟨keys', eq', rfl⟩ := h'
  rw [eq] at eq'
  cases eq'
  rfl

theorem SameCircle.names {seed : S} (h : SameCircle derive p q) (named : Names derive q seed) :
    Names derive p seed := by
  rcases h with rfl | ⟨seed', named', hq⟩
  · exact named
  · rwa [hq.unique named] at named'

theorem Live.asked (h : Live circleId phrase log) : Asked circleId phrase log := by
  induction log with
  | nil => exact h.elim
  | cons e log ih =>
    have later : Asked circleId phrase log → Asked circleId phrase (e :: log) := by
      rintro ⟨cmd, took, asks⟩
      exact ⟨cmd, List.mem_cons_of_mem _ took, asks⟩
    cases e with
    | took cmd =>
      rcases h with asks | ⟨-, live⟩
      · exact ⟨cmd, List.mem_cons_self, asks⟩
      · exact later (ih live)
    | abandoned | tried | told => exact later (ih h)

theorem mem_ended (h : .took cmd ∈ log) : cmd ∈ ended log := by
  induction log with
  | nil => cases h
  | cons e log ih =>
    rcases List.mem_cons.1 h with rfl | inner
    · simp [ended]
    · cases e <;> simp [ended, ih inner]

/-! ## What the loop keeps -/

/-- Every join that subscribed was asked for under its id since that id was last left. -/
def Fresh (log : List (Entry P C)) : Prop :=
  ∀ later circleId phrase events earlier,
    log = later ++ .tried circleId phrase .joined events :: earlier → Live circleId phrase earlier

theorem Fresh.cons {e : Entry P C} (fresh : Fresh log)
    (first : ∀ circleId phrase events, e = .tried circleId phrase .joined events →
      Live circleId phrase log) : Fresh (e :: log) := by
  intro later circleId phrase events earlier eq
  cases later with
  | nil =>
    simp only [List.nil_append, List.cons.injEq] at eq
    exact eq.2 ▸ first _ _ _ eq.1
  | cons e' later =>
    simp only [List.cons_append, List.cons.injEq] at eq
    exact fresh _ _ _ _ _ eq.2

/-- What holds while the circles of `rest`, all asked for, are still to be joined. -/
structure Kept (derive : P → Except String (CircleKeys S C)) (s : Session P S C)
    (rest : List (Nat × P)) : Prop where
  seeds : (s.circles.map VeilidCircle.ownerSeed).Nodup
  phrases : (s.pendingJoins.map PendingJoin.phrase).Nodup
  held : ∀ c ∈ s.circles, ∃ p, Names derive p c.ownerSeed ∧ Live c.circleId p s.log
  retried : ∀ p ∈ s.pendingJoins, Live p.circleId p.phrase s.log
  asked : ∀ r ∈ rest, Live r.1 r.2 s.log
  connected : s.pendingJoins ≠ [] → s.net = true
  answered : s.closing = false → ∀ p, Wanted derive p s.log →
    Held derive s p ∨ p ∈ s.pendingJoins.map PendingJoin.phrase ∨ p ∈ rest.map Prod.snd
  fresh : Fresh s.log

variable {s s' : Session P S C} {rest rest' : List (Nat × P)} {others : List (PendingJoin P)}

/-- The queues and the node being started are no part of it. -/
theorem Kept.congr (kept : Kept derive s rest) (circles : s'.circles = s.circles)
    (pending : s'.pendingJoins = s.pendingJoins) (net : s.net = true → s'.net = true)
    (closing : s'.closing = false → s.closing = false) (log : s'.log = s.log) :
    Kept derive s' rest where
  seeds := circles ▸ kept.seeds
  phrases := pending ▸ kept.phrases
  held := by rw [circles, log]; exact kept.held
  retried := by rw [pending, log]; exact kept.retried
  asked := by rw [log]; exact kept.asked
  connected := by rw [pending]; exact fun some => net (kept.connected some)
  answered := by
    unfold Held
    rw [circles, pending, log]
    exact fun unclosed => kept.answered (closing unclosed)
  fresh := log ▸ kept.fresh

/-- The entry tells of no join, and of no command carried out. -/
def Aside : Entry P C → Prop
  | .told _ | .abandoned _ => True
  | _ => False

theorem Kept.aside {e : Entry P C} (kept : Kept derive s rest) (aside : Aside e) :
    Kept derive { s with log := e :: s.log } rest := by
  cases e with
  | took | tried => exact aside.elim
  | told | abandoned =>
    exact { kept with fresh := kept.fresh.cons (by rintro _ _ _ ⟨⟩) }

/-! ## One join -/

/-- How a join leaves the session, with `others` the retries it does not touch. -/
inductive Ends (derive : P → Except String (CircleKeys S C)) (s : Session P S C) (circleId : Nat)
    (phrase : P) (others : List (PendingJoin P)) : Session P S C → Prop
  | failed (events : List (NetEvent C)) (refused : Refused events) :
    Ends derive s circleId phrase others
      { s with pendingJoins := others, log := .tried circleId phrase .settled events :: s.log }
  | known (events : List (NetEvent C)) (held : Held derive s phrase) :
    Ends derive s circleId phrase others
      { s with pendingJoins := others, log := .tried circleId phrase .settled events :: s.log }
  | again (events : List (NetEvent C)) (reason : String) (delay due : Nat) (net : s.net = true) :
    Ends derive s circleId phrase others
      { s with
        pendingJoins := others ++ [⟨circleId, phrase, delay, due⟩]
        log := .tried circleId phrase (.transportFailed reason) events :: s.log }
  | joined (events : List (NetEvent C)) (c : VeilidCircle S C) (id : c.circleId = circleId)
      (names : Names derive phrase c.ownerSeed)
      (new : c.ownerSeed ∉ s.circles.map VeilidCircle.ownerSeed) :
    Ends derive s circleId phrase others
      { s with
        circles := s.circles ++ [c]
        pendingJoins := others
        log := .tried circleId phrase .joined events :: s.log }

theorem Kept.ends (kept : Kept derive s rest) (live : Live circleId phrase s.log)
    (nodup : (others.map PendingJoin.phrase).Nodup)
    (old : ∀ p ∈ others, p ∈ s.pendingJoins ∧ p.phrase ≠ phrase)
    (all : ∀ p ∈ s.pendingJoins, p.phrase = phrase ∨ p ∈ others)
    (within : ∀ r ∈ rest', r ∈ rest) (fewer : ∀ r ∈ rest, r.2 = phrase ∨ r ∈ rest')
    (ends : Ends derive s circleId phrase others s') : Kept derive s' rest' := by
  have nonempty : others ≠ [] → s.net = true := by
    intro some
    obtain ⟨p, mem⟩ := List.exists_mem_of_ne_nil _ some
    exact kept.connected (List.ne_nil_of_mem (old p mem).1)
  have retried : ∀ p ∈ others, Live p.circleId p.phrase s.log := fun p mem =>
    kept.retried p (old p mem).1
  have asked : ∀ r ∈ rest', Live r.1 r.2 s.log := fun r mem => kept.asked r (within r mem)
  -- A circle of another phrase is accounted for as it was.
  have elsewhere : ∀ p, p ≠ phrase → s.closing = false → Wanted derive p s.log →
      Held derive s p ∨ p ∈ others.map PendingJoin.phrase ∨ p ∈ rest'.map Prod.snd := by
    intro p other unclosed wanted
    rcases kept.answered unclosed p wanted with held | pending | waits
    · exact .inl held
    · obtain ⟨retry, mem, rfl⟩ := List.mem_map.1 pending
      exact .inr (.inl (List.mem_map_of_mem ((all retry mem).resolve_left other)))
    · obtain ⟨r, mem, rfl⟩ := List.mem_map.1 waits
      exact .inr (.inr (List.mem_map_of_mem ((fewer r mem).resolve_left other)))
  have settled : ∀ events, Fresh (.tried circleId phrase .settled events :: s.log) := fun events =>
    kept.fresh.cons (by rintro _ _ _ ⟨⟩)
  cases ends with
  | failed events refused =>
    refine ⟨kept.seeds, nodup, kept.held, retried, asked, nonempty, ?_, settled events⟩
    rintro unclosed p ⟨wanted, unrefused⟩
    by_cases same : p = phrase
    · exact absurd ⟨.inl same, refused⟩ unrefused
    · exact elsewhere p same unclosed wanted
  | known events held =>
    refine ⟨kept.seeds, nodup, kept.held, retried, asked, nonempty, ?_, settled events⟩
    rintro unclosed p ⟨wanted, -⟩
    by_cases same : p = phrase
    · exact .inl (same ▸ held)
    · exact elsewhere p same unclosed wanted
  | again events reason delay due net =>
    refine ⟨kept.seeds, ?_, kept.held, ?_, asked, fun _ => net, ?_,
      kept.fresh.cons (by rintro _ _ _ ⟨⟩)⟩
    · rw [List.map_append, List.map_singleton, List.nodup_append]
      refine ⟨nodup, List.nodup_singleton _, ?_⟩
      rintro _ mem _ last rfl
      obtain ⟨p, mem, eq⟩ := List.mem_map.1 mem
      exact (old p mem).2 (eq.trans (List.mem_singleton.1 last))
    · intro p mem
      rcases List.mem_append.1 mem with mem | last
      · exact retried p mem
      · obtain rfl := List.mem_singleton.1 last
        exact live
    · rintro unclosed p ⟨wanted, -⟩
      by_cases same : p = phrase
      · exact .inr (.inl (by simp [same]))
      · rcases elsewhere p same unclosed wanted with held | pending | waits
        · exact .inl held
        · exact .inr (.inl (by rw [List.map_append]; exact List.mem_append_left _ pending))
        · exact .inr (.inr waits)
  | joined events c id names new =>
    refine ⟨?_, nodup, ?_, retried, asked, nonempty, ?_, ?_⟩
    · rw [List.map_append, List.map_singleton, List.nodup_append]
      refine ⟨kept.seeds, List.nodup_singleton _, ?_⟩
      rintro _ mem _ last rfl
      exact new (List.mem_singleton.1 last ▸ mem)
    · intro d mem
      rcases List.mem_append.1 mem with mem | last
      · exact kept.held d mem
      · obtain rfl := List.mem_singleton.1 last
        exact ⟨phrase, names, id ▸ live⟩
    · rintro unclosed p ⟨wanted, -⟩
      by_cases same : p = phrase
      · exact .inl ⟨c, List.mem_append_right _ List.mem_cons_self, same ▸ names⟩
      · rcases elsewhere p same unclosed wanted with ⟨d, mem, held⟩ | rest
        · exact .inl ⟨d, List.mem_append_left _ mem, held⟩
        · exact .inr rest
    · refine kept.fresh.cons ?_
      rintro _ _ _ ⟨⟩
      exact live

section
variable [DecidableEq S]

theorem joinCircleWith_cases (derive : P → Except String (CircleKeys S C)) (circleId : Nat)
    (phrase : P) (net : Bool) (circles : List (VeilidCircle S C)) (answer : Answer) :
    (∃ reason, joinCircleWith derive circleId phrase net circles answer =
      ⟨.settled, circles, [.circleJoinFailed circleId reason]⟩) ∨
    (∃ c ∈ circles, Names derive phrase c.ownerSeed ∧
      joinCircleWith derive circleId phrase net circles answer =
        ⟨.settled, circles, [.circleJoined c.circleId c.cotKey]⟩) ∨
    (net = true ∧ ∃ reason, joinCircleWith derive circleId phrase net circles answer =
      ⟨.transportFailed reason, circles, []⟩) ∨
    ∃ keys, derive phrase = .ok keys ∧
      keys.ownerSeed ∉ circles.map VeilidCircle.ownerSeed ∧
      joinCircleWith derive circleId phrase net circles answer =
        ⟨.joined, circles ++ [⟨circleId, keys.cotKey, keys.ownerSeed⟩],
          [.circleJoined circleId keys.cotKey]⟩ := by
  unfold joinCircleWith
  cases net with
  | false => exact .inl ⟨_, rfl⟩
  | true =>
    cases derived : derive phrase with
    | error reason => exact .inl ⟨reason, rfl⟩
    | ok keys =>
      cases found : circles.find? fun c => decide (c.ownerSeed = keys.ownerSeed) with
      | some c =>
        have same : c.ownerSeed = keys.ownerSeed := by simpa using List.find?_some found
        have mem : c ∈ circles := List.mem_of_find?_eq_some found
        exact .inr (.inl ⟨c, mem, ⟨keys, derived, same.symm⟩, by simp [found]⟩)
      | none =>
        have new : keys.ownerSeed ∉ circles.map VeilidCircle.ownerSeed := by
          intro mem
          obtain ⟨c, mem, same⟩ := List.mem_map.1 mem
          simpa [same] using List.find?_eq_none.1 found c mem
        rcases answer with _ | (e | _)
        · exact .inr (.inr (.inl ⟨rfl, "no answer within 20s", by simp [found]⟩))
        · by_cases transient : isTransientSubscribeError e = true
          · exact .inr (.inr (.inl
              ⟨rfl, "subscribe failed: " ++ e.toString, by simp [found, transient]⟩))
          · exact .inl ⟨"subscribe failed: " ++ e.toString, by simp [found, transient]⟩
        · exact .inr (.inr (.inr ⟨keys, rfl, new, by simp [found]⟩))

theorem retryJoin_ends (s : Session P S C) (pending : PendingJoin P) (answer : Answer)
    (ended : Nat) :
    Ends derive s pending.circleId pending.phrase others
      (s.retryJoin derive pending others answer ended) := by
  unfold retryJoin
  rcases joinCircleWith_cases derive pending.circleId pending.phrase s.net s.circles answer with
    ⟨reason, eq⟩ | ⟨c, mem, names, eq⟩ | ⟨net, reason, eq⟩ | ⟨keys, derived, new, eq⟩
  all_goals simp only [eq]
  · exact .failed _ ⟨_, _, List.mem_cons_self⟩
  · exact .known _ ⟨c, mem, names⟩
  · exact .again _ _ _ _ net
  · exact .joined _ ⟨_, _, _⟩ rfl ⟨keys, derived, rfl⟩ new

variable [DecidableEq P]

theorem joinOrScheduleRetry_ends (s : Session P S C) (circleId : Nat) (phrase : P)
    (reply : Reply) :
    Ends derive s circleId phrase (s.pendingJoins.filter fun p => decide (p.phrase ≠ phrase))
      (s.joinOrScheduleRetry derive circleId phrase reply) := by
  unfold joinOrScheduleRetry
  rcases joinCircleWith_cases derive circleId phrase s.net s.circles (some reply.answer) with
    ⟨reason, eq⟩ | ⟨c, mem, names, eq⟩ | ⟨net, reason, eq⟩ | ⟨keys, derived, new, eq⟩
  all_goals simp only [eq]
  · exact .failed _ ⟨_, _, List.mem_cons_self⟩
  · exact .known _ ⟨c, mem, names⟩
  · exact .again _ _ _ _ net
  · exact .joined _ ⟨_, _, _⟩ rfl ⟨keys, derived, rfl⟩ new

theorem Kept.joins (kept : Kept derive s ((circleId, phrase) :: rest)) (reply : Reply) :
    Kept derive (s.joinOrScheduleRetry derive circleId phrase reply) rest := by
  refine kept.ends (kept.asked _ List.mem_cons_self) (kept.phrases.sublist ?_) ?_ ?_ ?_ ?_
    (joinOrScheduleRetry_ends s circleId phrase reply)
  · exact List.filter_sublist.map _
  · intro p mem
    simpa using mem
  · intro p mem
    by_cases same : p.phrase = phrase
    · exact .inl same
    · exact .inr (List.mem_filter.2 ⟨mem, by simpa using same⟩)
  · exact fun r mem => List.mem_cons_of_mem _ mem
  · intro r mem
    rcases List.mem_cons.1 mem with rfl | mem
    · exact .inl rfl
    · exact .inr mem

theorem Kept.rejoin {replies : Nat → Reply} (kept : Kept derive s rest) :
    Kept derive (s.rejoin derive replies rest) [] := by
  induction rest generalizing s replies with
  | nil => exact kept
  | cons r rest ih => exact ih (kept.joins _)

omit [DecidableEq S] [DecidableEq P] in
theorem Kept.failed (kept : Kept derive s rest) (net : s.net = false) :
    Kept derive (s.failRejoinsWithoutConnection rest) [] := by
  induction rest generalizing s with
  | nil => exact kept
  | cons r rest ih =>
    have none : s.pendingJoins = [] := by
      by_contra some
      rw [kept.connected some] at net
      cases net
    have old : ∀ p ∈ s.pendingJoins, p ∈ s.pendingJoins ∧ p.phrase ≠ r.2 := by simp [none]
    refine ih (kept.ends (kept.asked _ List.mem_cons_self) kept.phrases old ?_ ?_ ?_
      (.failed _ ⟨_, _, List.mem_cons_self⟩)) net
    · simp [none]
    · exact fun r mem => List.mem_cons_of_mem _ mem
    · intro r mem
      rcases List.mem_cons.1 mem with rfl | mem
      · exact .inl rfl
      · exact .inr mem

theorem Kept.afterConnect {replies : Nat → Reply} (kept : Kept derive s rest) :
    Kept derive (s.afterConnect derive rest replies) [] := by
  unfold Session.afterConnect
  cases net : s.net with
  | true => exact kept.rejoin
  | false => exact kept.failed net

/-! ## Commands -/

omit [DecidableEq S] [DecidableEq P] in
/-- Taking up a command that leaves no circle makes its requests those still to be joined. -/
theorem Kept.took (kept : Kept derive s []) (stays : ∀ circleId, cmd ≠ .leaveCircle circleId) :
    Kept derive { s with log := .took cmd :: s.log } (requests cmd) where
  seeds := kept.seeds
  phrases := kept.phrases
  held c mem := by
    obtain ⟨p, names, live⟩ := kept.held c mem
    exact ⟨p, names, .inr ⟨stays _, live⟩⟩
  retried p mem := .inr ⟨stays _, kept.retried p mem⟩
  asked r mem := .inl mem
  connected := kept.connected
  answered unclosed p wanted := by
    rcases wanted with ⟨circleId, asks⟩ | ⟨wanted, -⟩
    · exact .inr (.inr (List.mem_map_of_mem asks))
    · rcases kept.answered unclosed p wanted with held | pending | waits
      · exact .inl held
      · exact .inr (.inl pending)
      · cases waits
  fresh := kept.fresh.cons (by rintro _ _ _ ⟨⟩)

theorem Kept.completed {told : NetEvent C} {replies : Nat → Reply} (kept : Kept derive s []) :
    Kept derive (s.completed derive told rest replies) [] :=
  have aside : Kept derive { s with log := .told told :: s.log } [] := kept.aside trivial
  have took : Kept derive { s with log := .took (.connect rest) :: .told told :: s.log } rest :=
    aside.took (by rintro _ ⟨⟩)
  took.afterConnect

omit [DecidableEq S] [DecidableEq P] in
theorem Kept.leave (kept : Kept derive s []) (circleId : Nat) :
    Kept derive
      { s with
        circles := s.circles.filter fun c => decide (c.circleId ≠ circleId)
        pendingJoins := s.pendingJoins.filter fun p => decide (p.circleId ≠ circleId)
        log := .took (.leaveCircle circleId) :: s.log } [] where
  seeds := kept.seeds.sublist (List.filter_sublist.map _)
  phrases := kept.phrases.sublist (List.filter_sublist.map _)
  held c mem := by
    obtain ⟨mem, other⟩ := List.mem_filter.1 mem
    obtain ⟨p, names, live⟩ := kept.held c mem
    refine ⟨p, names, .inr ⟨?_, live⟩⟩
    rintro ⟨⟩
    simp at other
  retried p mem := by
    obtain ⟨mem, other⟩ := List.mem_filter.1 mem
    refine .inr ⟨?_, kept.retried p mem⟩
    rintro ⟨⟩
    simp at other
  asked r mem := by cases mem
  connected some := kept.connected fun none => some (by simp [none])
  answered unclosed p wanted := by
    obtain ⟨_, asks⟩ | ⟨wanted, stays⟩ := wanted
    · cases asks
    rcases kept.answered unclosed p wanted with ⟨c, mem, names⟩ | pending | waits
    · -- A circle held under the id left was asked for under it.
      refine .inl ⟨c, List.mem_filter.2 ⟨mem, decide_eq_true ?_⟩, names⟩
      rintro rfl
      obtain ⟨q, named, live⟩ := kept.held c mem
      exact stays ⟨_, q, rfl, live.asked, .inr ⟨_, names, named⟩⟩
    · obtain ⟨retry, mem, rfl⟩ := List.mem_map.1 pending
      refine .inr (.inl (List.mem_map_of_mem (List.mem_filter.2 ⟨mem, decide_eq_true ?_⟩)))
      rintro rfl
      exact stays ⟨_, _, rfl, (kept.retried retry mem).asked, .inl rfl⟩
    · cases waits
  fresh := kept.fresh.cons (by rintro _ _ _ ⟨⟩)

omit [DecidableEq S] [DecidableEq P] in
theorem Kept.close (kept : Kept derive s []) :
    Kept derive
      { s with net := false, pendingJoins := [], closing := true, log := .took .gracefulClose :: s.log }
      [] where
  seeds := kept.seeds
  phrases := List.nodup_nil
  held :=
    have took : Kept derive { s with log := .took .gracefulClose :: s.log } [] :=
      kept.took (by rintro _ ⟨⟩)
    took.held
  retried _ mem := by cases mem
  asked _ mem := by cases mem
  connected some := absurd rfl some
  answered unclosed := by cases unclosed
  fresh := kept.fresh.cons (by rintro _ _ _ ⟨⟩)

theorem Kept.connect {start : Start} {replies : Nat → Reply} (kept : Kept derive s []) :
    Kept derive (s.connect derive rest start replies) [] := by
  unfold Session.connect
  split
  · exact kept.completed
  · cases start with
    | failed reason => exact kept.completed
    | attaching =>
      have aside : Kept derive { s with log := .told .stillConnecting :: s.log } [] :=
        kept.aside trivial
      exact aside.congr rfl rfl id id rfl
    | attachRefused reason => exact kept.completed.congr rfl rfl id id rfl

theorem Kept.handleCommand {start : Start} {replies : Nat → Reply} (kept : Kept derive s [])
    (cmd : NetCommand P) : Kept derive (s.handleCommand derive start replies cmd) [] := by
  cases cmd with
  | connect rejoinCircles => exact kept.connect
  | joinCircle circleId phrase =>
    have took : Kept derive { s with log := .took (.joinCircle circleId phrase) :: s.log }
        [(circleId, phrase)] := kept.took (by rintro _ ⟨⟩)
    exact took.joins _
  | leaveCircle circleId => exact kept.leave circleId
  | gracefulClose => exact kept.close
  | stopDm => exact kept.took (by rintro _ ⟨⟩)
  | other => exact kept.took (by rintro _ ⟨⟩)

/-! ## Steps -/

omit [DecidableEq S] in
theorem Kept.discard (kept : Kept derive s []) (p : ParkedConnect P) (cmd : NetCommand P) :
    Kept derive (s.discard p cmd) [] :=
  (kept.aside (e := .abandoned (.connect p.rejoinCircles)) trivial).congr rfl rfl id
    (fun unclosed => (Bool.or_eq_false_iff.1 unclosed).1) rfl

theorem Kept.onCommand {start : Start} {replies : Nat → Reply} (kept : Kept derive s [])
    (cmd : NetCommand P) : Kept derive (s.onCommand derive start replies cmd) [] := by
  unfold Session.onCommand
  split
  · split
    · exact kept.discard _ cmd
    · exact kept.congr rfl rfl id id rfl
  · split
    · exact (kept.aside (e := .told (.connectFailed previousNodeStopping)) trivial).aside
        (e := .abandoned cmd) trivial
    · exact kept.handleCommand cmd

theorem Kept.nextCommand {start : Start} {replies : Nat → Reply} (kept : Kept derive s []) :
    Kept derive (s.nextCommand derive start replies) [] := by
  unfold Session.nextCommand
  split
  · refine Kept.onCommand ?_ _
    exact kept.congr rfl rfl id id rfl
  · refine Kept.onCommand ?_ _
    exact kept.congr rfl rfl id id rfl
  · exact kept

theorem Kept.release {p : ParkedConnect P} {told : NetEvent C} {replies : Nat → Reply}
    (kept : Kept derive s []) : Kept derive (s.release derive p told replies) [] :=
  Kept.congr (Kept.completed (s := { s with parked := none }) (kept.congr rfl rfl id id rfl))
    rfl rfl id id rfl

theorem Kept.onRead {generation : Nat} {read : Read} {replies : Nat → Reply}
    (kept : Kept derive s []) : Kept derive (s.onRead derive generation read replies) [] := by
  unfold Session.onRead
  split
  · exact kept
  · split
    · split
      · exact kept
      · exact kept
      · exact Kept.release (kept.congr rfl rfl id id rfl)
      · dsimp only
        split
        · exact kept.congr rfl rfl id id rfl
        · exact Kept.release (kept.congr rfl rfl (fun _ => rfl) id rfl)
    · exact kept

omit [DecidableEq S] [DecidableEq P] in
theorem swapRemove_perm {α : Type} {xs : List α} {i : Nat} {x : α} (found : xs[i]? = some x) :
    (x :: swapRemove xs i).Perm xs := by
  obtain ⟨within, rfl⟩ := List.getElem?_eq_some_iff.1 found
  obtain ⟨init, last, rfl⟩ : ∃ init last, xs = init ++ [last] :=
    ⟨_, _, (List.dropLast_concat_getLast (List.ne_nil_of_length_pos (by omega))).symm⟩
  have removed : swapRemove (init ++ [last]) i = ((init ++ [last]).set i last).dropLast := by
    simp [swapRemove]
  rw [removed]
  by_cases inner : i < init.length
  · rw [List.set_append_left _ _ inner, List.dropLast_concat, List.getElem_append_left inner]
    calc (init[i] :: init.set i last).Perm (init[i] :: last :: init.eraseIdx i) :=
          (List.set_perm_cons_eraseIdx inner last).cons _
      _ |>.Perm (last :: init[i] :: init.eraseIdx i) := .swap ..
      _ |>.Perm (last :: init) := (List.getElem_cons_eraseIdx_perm inner).cons _
      _ |>.Perm (init ++ [last]) := (List.perm_append_singleton _ _).symm
  · obtain rfl : i = init.length := by simp at within; omega
    simpa using (List.perm_append_singleton last init).symm

omit [DecidableEq P] in
theorem earliestDue_found {pendingJoins : List (PendingJoin P)} {now index : Nat}
    (due : earliestDue pendingJoins now = some index) : ∃ p, pendingJoins[index]? = some p := by
  obtain ⟨e, least, rfl⟩ := Option.map_eq_some_iff.1 due
  exact ⟨e.1, List.mem_zipIdx_iff_getElem?.1 (List.mem_filter.1 (List.argmin_mem least)).1⟩

omit [DecidableEq P] in
theorem Kept.retryDueJoin {now : Nat} {answer : Answer} {ended : Nat} (kept : Kept derive s []) :
    Kept derive (s.retryDueJoin derive now answer ended) [] := by
  unfold Session.retryDueJoin
  split
  · split
    · exact kept
    · split
      · exact kept
      · rename_i pending found
        have perm := swapRemove_perm found
        have distinct := (perm.map PendingJoin.phrase).nodup_iff.2 kept.phrases
        rw [List.map_cons, List.nodup_cons] at distinct
        have mem : ∀ {p}, p ∈ s.pendingJoins ↔ p = pending ∨ p ∈ swapRemove s.pendingJoins _ :=
          fun {p} => perm.mem_iff.symm.trans List.mem_cons
        refine kept.ends (kept.retried _ (mem.2 (.inl rfl))) distinct.2 ?_ ?_ (fun _ => id)
          (fun _ => .inr) (retryJoin_ends s pending answer ended)
        · exact fun p other => ⟨mem.2 (.inr other), fun same =>
            distinct.1 (same ▸ List.mem_map_of_mem other)⟩
        · exact fun p held => (mem.1 held).imp (congrArg PendingJoin.phrase) id
  · exact kept

theorem Kept.step (kept : Kept derive s []) (input : Input P) :
    Kept derive (s.step derive input) [] := by
  cases input with
  | send cmd => exact kept.congr rfl rfl id id rfl
  | next start replies => exact kept.nextCommand
  | read generation read replies => exact kept.onRead
  | teardownDone => exact kept.congr rfl rfl id id rfl
  | retryTick now answer ended => exact kept.retryDueJoin

omit [DecidableEq S] [DecidableEq P] in
theorem new_kept : Kept derive (Session.new : Session P S C) [] where
  seeds := List.nodup_nil
  phrases := List.nodup_nil
  held _ mem := by cases mem
  retried _ mem := by cases mem
  asked _ mem := by cases mem
  connected some := absurd rfl some
  answered _ _ wanted := wanted.elim
  fresh := by
    intro later circleId phrase events earlier eq
    simp [Session.new] at eq

theorem Kept.run (kept : Kept derive s []) (inputs : List (Input P)) :
    Kept derive (s.run derive inputs) [] := by
  induction inputs generalizing s with
  | nil => exact kept
  | cons input inputs ih => exact ih (kept.step input)

end

end Daemonseed.Gui.CircleJoins
