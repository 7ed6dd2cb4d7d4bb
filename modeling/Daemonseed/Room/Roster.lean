import Daemonseed.Lib.Attendance
import Daemonseed.Lib.Runs
import Daemonseed.Room.Presence

/-! # The members decide the roster

For each member the tracker is a standing of that member alone, so the roster
depends on the members' own clocks and not on the order of delivery. The two
freshness windows are shorter than the time to live, so nothing that is
forgotten can be replayed. -/
namespace Daemonseed.Room.Roster
open Daemonseed.Lib.Attendance Daemonseed.Lib.Bytes Daemonseed.Lib.Maps Daemonseed.Lib.Runs
open Daemonseed.Lib.Stamped Daemonseed.Room.Presence Daemonseed.Room.Wire

/-- A verified write of a member, as a client receives it. -/
inductive MemberWrite
  | beacon (hb : MemberHeartbeat)
  | message (room : String) (pubkey : Octets) (handle : String) (sentUnixMs : Int64)
  deriving DecidableEq

namespace MemberWrite

def sender : MemberWrite → Octets
  | beacon hb => hb.senderPubkey
  | message _ pubkey _ _ => pubkey

def sentUnixMs : MemberWrite → Int64
  | beacon hb => hb.sentUnixMs
  | message _ _ _ sentUnixMs => sentUnixMs

def sent (write : MemberWrite) : Int := write.sentUnixMs.toInt

def isLeave : MemberWrite → Bool
  | beacon hb => hb.isLeave
  | message .. => false

/-- The room's own, where the tracker is for one room. -/
def OfRoom (room : Option String) : MemberWrite → Prop
  | beacon _ => True
  | message tag _ _ _ => ∀ r, room = some r → tag = r

end MemberWrite

def receive (tracker : PresenceTracker) (write : MemberWrite) (now : Instant) :
    PresenceChange × PresenceTracker :=
  match write with
  | .beacon hb => tracker.apply hb now
  | .message room pubkey handle sentUnixMs =>
    tracker.applyMemberWrite room pubkey handle sentUnixMs now

/-! ## One member's standing -/

/-- What the tracker knows of one member. -/
def standing (tracker : PresenceTracker) (pubkey : Octets) : Standing Int Instant :=
  match tracker.members.lookup pubkey, tracker.departed.lookup pubkey with
  | some row, _ => .here row.beaconUnixMs.toInt row.lastSeen
  | none, some mark => .gone mark.leaveMs.toInt mark.heard
  | none, none => .unheard

variable {tracker : PresenceTracker} {pubkey other : Octets} {handle room : String}
  {sentUnixMs : Int64} {now : Instant} {write : MemberWrite} {row : LiveMember}
  {mark : DepartedMark}

theorem here_iff : (standing tracker pubkey).Here ↔ pubkey ∈ tracker.members := by
  rw [← AList.lookup_isSome]
  unfold standing
  split <;> simp [Standing.Here, *]

theorem standing_here (held : tracker.members.lookup pubkey = some row) :
    standing tracker pubkey = .here row.beaconUnixMs.toInt row.lastSeen := by
  simp [standing, held]

theorem standing_gone (held : tracker.departed.lookup pubkey = some mark) :
    standing tracker pubkey = .gone mark.leaveMs.toInt mark.heard := by
  have absent := (tracker.apart pubkey).resolve_right (by simp [held])
  simp [standing, absent, held]

theorem standing_unheard (absent : tracker.members.lookup pubkey = none)
    (unmarked : tracker.departed.lookup pubkey = none) :
    standing tracker pubkey = .unheard := by
  simp [standing, absent, unmarked]

theorem standing_seat : standing (tracker.seat pubkey row) other =
    if other = pubkey then .here row.beaconUnixMs.toInt row.lastSeen
    else standing tracker other := by
  split
  · rename_i e
    exact standing_here (e ▸ AList.lookup_insert _)
  · rename_i e
    simp [standing, PresenceTracker.seat, AList.lookup_insert_ne e, AList.lookup_erase_ne e]

theorem standing_unseat : standing (tracker.unseat pubkey mark) other =
    if other = pubkey then .gone mark.leaveMs.toInt mark.heard else standing tracker other := by
  split
  · rename_i e
    exact standing_gone (e ▸ AList.lookup_insert _)
  · rename_i e
    simp [standing, PresenceTracker.unseat, AList.lookup_insert_ne e, AList.lookup_erase_ne e]

theorem standing_unmark_ne (ne : other ≠ pubkey) :
    standing (tracker.unmark pubkey) other = standing tracker other := by
  simp [standing, PresenceTracker.unmark, AList.lookup_erase_ne ne]

/-- A write refreshes the standing of its sender and no other. -/
theorem standing_foldWrite :
    standing (tracker.foldWrite pubkey handle sentUnixMs now).2 other =
      if other = pubkey then (standing tracker pubkey).writes sentUnixMs.toInt now
      else standing tracker other := by
  unfold PresenceTracker.foldWrite
  cases marked : tracker.departed.lookup pubkey with
  | some mark =>
    have absent := (tracker.apart pubkey).resolve_right (by simp [marked])
    have absent : (tracker.unmark pubkey).members.lookup pubkey = none := absent
    simp only [standing_gone marked, Standing.writes]
    split
    · split <;> simp [*, standing_gone marked]
    · simp only [PresenceTracker.refresh, absent, standing_seat]
      split
      · rfl
      · rename_i ne
        exact standing_unmark_ne ne
  | none =>
    unfold PresenceTracker.refresh
    cases held : tracker.members.lookup pubkey with
    | some cur =>
      simp only [standing_here held, Standing.writes]
      split
      · split <;> simp [*, standing_here held]
      · exact standing_seat
    | none =>
      simp only [standing_unheard held marked, Standing.writes]
      exact standing_seat

/-- A leave marks its sender and no other. -/
theorem standing_applyLeave :
    standing (tracker.applyLeave pubkey sentUnixMs now).2 other =
      if other = pubkey then (standing tracker pubkey).leaves sentUnixMs.toInt now
      else standing tracker other := by
  unfold PresenceTracker.applyLeave
  cases held : tracker.members.lookup pubkey with
  | some cur =>
    have unmarked := (tracker.apart pubkey).resolve_left (by simp [held])
    simp only [standing_here held, Standing.leaves]
    split
    · split <;> simp [*, standing_here held]
    · simp [standing_unseat, PresenceTracker.leaveMark, unmarked]
  | none =>
    simp only [standing_unseat, PresenceTracker.leaveMark]
    cases marked : tracker.departed.lookup pubkey with
    | some mark =>
      simp only [standing_gone marked, Standing.leaves, Option.getD_some]
      split
      · split <;> rfl
      · rfl
    | none => simp [standing_unheard held marked, Standing.leaves]

/-- Its room and its time to live are the tracker's for good. -/
def Kept (tracker tracker' : PresenceTracker) : Prop :=
  tracker'.room = tracker.room ∧ tracker'.ttl = tracker.ttl

theorem refresh_kept : Kept tracker (tracker.refresh pubkey handle sentUnixMs now).2 := by
  unfold PresenceTracker.refresh
  split
  · split <;> exact ⟨rfl, rfl⟩
  · exact ⟨rfl, rfl⟩

theorem foldWrite_kept : Kept tracker (tracker.foldWrite pubkey handle sentUnixMs now).2 := by
  unfold PresenceTracker.foldWrite
  split
  · split
    · exact ⟨rfl, rfl⟩
    · exact (refresh_kept : Kept (tracker.unmark pubkey) _)
  · exact refresh_kept

theorem applyLeave_kept : Kept tracker (tracker.applyLeave pubkey sentUnixMs now).2 := by
  unfold PresenceTracker.applyLeave
  dsimp only
  split
  · split <;> exact ⟨rfl, rfl⟩
  · exact ⟨rfl, rfl⟩

theorem receive_kept : Kept tracker (receive tracker write now).2 := by
  cases write with
  | beacon hb =>
    show Kept tracker (tracker.apply hb now).2
    unfold PresenceTracker.apply
    split
    · exact applyLeave_kept
    · exact foldWrite_kept
  | message tag p h s =>
    show Kept tracker (tracker.applyMemberWrite tag p h s now).2
    unfold PresenceTracker.applyMemberWrite
    split
    · exact ⟨rfl, rfl⟩
    · exact foldWrite_kept

theorem reap_kept : Kept tracker (tracker.reap now false).2 := ⟨rfl, rfl⟩

/-- What a write does to its sender's standing. -/
def Standing.takes (x : Standing Int Instant) (write : MemberWrite) (now : Instant) :
    Standing Int Instant :=
  if write.isLeave then x.leaves write.sent now else x.writes write.sent now

/-- The tracker is one standing for each member. -/
theorem standing_receive (own : write.OfRoom tracker.room) :
    standing (receive tracker write now).2 other =
      if other = write.sender then Standing.takes (standing tracker write.sender) write now
      else standing tracker other := by
  cases write with
  | beacon hb =>
    unfold receive PresenceTracker.apply Standing.takes MemberWrite.isLeave
    dsimp only
    split
    · exact standing_applyLeave
    · exact standing_foldWrite
  | message tag p h s =>
    have kept : (tracker.room.any (· != tag)) = false := by
      cases limited : tracker.room with
      | none => rfl
      | some r => simp [own r limited]
    unfold receive PresenceTracker.applyMemberWrite
    simp only [kept, Bool.false_eq_true, if_false]
    exact standing_foldWrite

/-- Another room's message changes nothing. -/
theorem receive_foreign (foreign : ¬ write.OfRoom tracker.room) :
    (receive tracker write now).2 = tracker := by
  cases write with
  | beacon hb => exact absurd trivial foreign
  | message tag p h s =>
    have refused : (tracker.room.any (· != tag)) = true := by
      simp only [MemberWrite.OfRoom, not_forall] at foreign
      obtain ⟨r, limited, ne⟩ := foreign
      simp [limited, Ne.symm ne]
    show (tracker.applyMemberWrite tag p h s now).2 = tracker
    unfold PresenceTracker.applyMemberWrite
    rw [if_pos refused]

theorem standing_reap : standing (tracker.reap now false).2 other =
    (standing tracker other).ages fun heard => now - heard < tracker.ttl := by
  unfold PresenceTracker.reap
  simp only [Bool.false_eq_true, if_false]
  cases held : tracker.members.lookup other with
  | some row =>
    have unmarked := (tracker.apart other).resolve_left (by simp [held])
    by_cases alive : now - row.lastSeen < tracker.ttl <;>
      simp [Standing.ages, standing, held, unmarked, Option.filter_some, alive]
  | none =>
    cases marked : tracker.departed.lookup other with
    | some mark =>
      by_cases alive : now - mark.heard < tracker.ttl <;>
        simp [Standing.ages, standing, held, marked, Option.filter_some, alive]
    | none =>
      simp [Standing.ages, standing, held, marked]

/-! ## Any order of delivery -/

/-- A tracker that has heard nothing, for one room or for any. -/
def fresh (room : Option String) : PresenceTracker :=
  match room with
  | none => .new presenceTtl
  | some room => .forRoom room presenceTtl

def receiveAll (tracker : PresenceTracker) (delivered : List (MemberWrite × Instant)) :
    PresenceTracker :=
  delivered.foldl (fun tracker d => (receive tracker d.1 d.2).2) tracker

/-- The stamps of a member's leaves, or of its other writes. -/
def stamps (pubkey : Octets) (leave : Bool) (writes : List MemberWrite) : List (WithBot Int) :=
  (writes.filter fun w => w.sender == pubkey && w.isLeave == leave).map fun w => (w.sent : WithBot Int)

/-- The newest of them. -/
def newest (pubkey : Octets) (leave : Bool) (writes : List MemberWrite) : WithBot Int :=
  (stamps pubkey leave writes).foldl max ⊥

theorem newest_congr {leave : Bool} {writes writes' : List MemberWrite}
    (same : ∀ w, w ∈ writes ↔ w ∈ writes') :
    newest pubkey leave writes = newest pubkey leave writes' := by
  refine foldl_max_congr fun s => ?_
  simp only [stamps, List.mem_map, List.mem_filter, same]

theorem reflects_receiveAll {delivered : List (MemberWrite × Instant)} {w l : WithBot Int}
    (own : ∀ d ∈ delivered, d.1.OfRoom tracker.room)
    (h : (standing tracker pubkey).Reflects w l) :
    (standing (receiveAll tracker delivered) pubkey).Reflects
      ((stamps pubkey false (delivered.map Prod.fst)).foldl max w)
      ((stamps pubkey true (delivered.map Prod.fst)).foldl max l) := by
  induction delivered generalizing tracker w l with
  | nil => exact h
  | cons d rest ih =>
    obtain ⟨write, now⟩ := d
    obtain ⟨mine, others⟩ := List.forall_mem_cons.1 own
    have others : ∀ d ∈ rest, d.1.OfRoom (receive tracker write now).2.room := by
      rwa [receive_kept.1]
    by_cases e : write.sender = pubkey
    · have next : standing (receive tracker write now).2 pubkey =
          Standing.takes (standing tracker pubkey) write now := by
        rw [standing_receive mine, if_pos e.symm, e]
      cases leave : write.isLeave with
      | false =>
        have step := ih others (by
          rw [next, Standing.takes, leave]
          exact h.writes)
        simpa [receiveAll, stamps, e, leave] using step
      | true =>
        have step := ih others (by
          rw [next, Standing.takes, leave]
          exact h.leaves)
        simpa [receiveAll, stamps, e, leave] using step
    · have next : standing (receive tracker write now).2 pubkey = standing tracker pubkey := by
        rw [standing_receive mine, if_neg (Ne.symm e)]
      have step := ih others (next.symm ▸ h)
      simpa [receiveAll, stamps, e] using step

/-! ## Receipts and reaps in any run -/

/-- A client and its clocks. The wall clock is ahead of the instants by a fixed
time. -/
structure World where
  tracker : PresenceTracker
  now : Instant
  ahead : Duration

def World.nowUnixMs (w : World) : Int := asMillis (w.ahead + w.now)

inductive Act
  | passes (d : Duration)
  | receives (write : MemberWrite)
  | reaps
  deriving DecidableEq

/-- Time passes, a fresh write is received, or the tracker is reaped. -/
inductive Steps (w : World) : Act → World → Prop
  | passes (d : Duration) : Steps w (.passes d) { w with now := w.now + d }
  | receives {write : MemberWrite} (fresh : beaconIsFresh write.sentUnixMs w.nowUnixMs = true) :
    Steps w (.receives write) { w with tracker := (receive w.tracker write w.now).2 }
  | reaps : Steps w .reaps { w with tracker := (w.tracker.reap w.now false).2 }

def World.start (room : Option String) (now : Instant) (ahead : Duration) : World :=
  ⟨Roster.fresh room, now, ahead⟩

/-- The freshness of a stamp at an instant. -/
def Accepts (ahead : Duration) (now : Instant) (sent : Int) : Prop :=
  asMillis (ahead + now) - asMillis replayFreshnessPast ≤ sent ∧
    sent ≤ asMillis (ahead + now) + asMillis replayFreshnessFuture

def alive (now heard : Instant) : Bool := now - heard < presenceTtl

variable {w w' w₁ w₂ w₃ w₄ : World} {act : Act} {acts between : List Act} {x y : MemberWrite}

theorem fresh_iff : beaconIsFresh sentUnixMs w.nowUnixMs = true ↔
    Accepts w.ahead w.now sentUnixMs.toInt := by
  show (decide _ && decide _) = true ↔ _
  rw [Bool.and_eq_true, decide_eq_true_iff, decide_eq_true_iff]
  exact Iff.rfl

theorem windows {ahead heard now later : Nat} {newest s : Int}
    (ahead_of : newest ≤ ((ahead + heard) / 1000000 : Nat) + 60000) (dead : 600000000000 ≤ now - heard)
    (after : now ≤ later) (old : s ≤ newest) : s < ((ahead + later) / 1000000 : Nat) - 300000 := by
  omega

/-- The windows: what is not alive was stamped too long ago. -/
theorem lapses (ahead : Duration) : Standing.Lapses (Accepts ahead) alive := by
  intro heard now newest taken before dead later after s old accepted
  rw [alive, decide_eq_false_iff_not, not_lt] at dead
  exact absurd accepted.1 (not_le.2 (windows taken.2 dead after old))

/-- What every member's standing keeps to. -/
structure Good (w : World) : Prop where
  ttl : w.tracker.ttl = presenceTtl
  timely : ∀ pubkey, (standing w.tracker pubkey).Timely (Accepts w.ahead) w.now

theorem Good.start (room : Option String) (now : Instant) (ahead : Duration) :
    Good (.start room now ahead) := by
  cases room <;> exact ⟨rfl, fun _ => trivial⟩

theorem takes_timely {s : Standing Int Instant} {ahead : Duration}
    (h : s.Timely (Accepts ahead) now) (taken : Accepts ahead now write.sent) :
    (Standing.takes s write now).Timely (Accepts ahead) now := by
  unfold Standing.takes
  split
  · exact h.leaves taken
  · exact h.writes taken

theorem Good.step (good : Good w) (step : Steps w act w') : Good w' := by
  cases step with
  | passes d =>
    exact ⟨good.ttl, fun pubkey => (good.timely pubkey).passes (Nat.le_add_right _ _)⟩
  | @receives write taken =>
    refine ⟨receive_kept.2.trans good.ttl, fun pubkey => ?_⟩
    by_cases own : write.OfRoom w.tracker.room
    · show (standing (receive w.tracker write w.now).2 pubkey).Timely _ _
      rw [standing_receive own]
      split
      · exact takes_timely (good.timely _) (fresh_iff.1 taken)
      · exact good.timely pubkey
    · show (standing (receive w.tracker write w.now).2 pubkey).Timely _ _
      rw [receive_foreign own]
      exact good.timely pubkey
  | reaps =>
    refine ⟨good.ttl, fun pubkey => ?_⟩
    show (standing (w.tracker.reap w.now false).2 pubkey).Timely _ _
    rw [standing_reap]
    exact (good.timely pubkey).ages _

theorem Good.run (good : Good w) (run : Trail Steps w acts w') : Good w' :=
  run.invariant (fun _ _ _ good step => good.step step) good

/-- The room and the wall clock's lead are the same in every run. -/
theorem run_fixed (run : Trail Steps w acts w') :
    w'.tracker.room = w.tracker.room ∧ w'.ahead = w.ahead := by
  induction run with
  | nil => exact ⟨rfl, rfl⟩
  | cons head _ ih =>
    rw [ih.1, ih.2]
    cases head with
    | passes => exact ⟨rfl, rfl⟩
    | receives => exact ⟨receive_kept.1, rfl⟩
    | reaps => exact ⟨rfl, rfl⟩

/-- No write of the member stamped `s` or earlier seats it any more. -/
def Spent (w : World) (pubkey : Octets) (s : Int) : Prop :=
  (standing w.tracker pubkey).Spent (Accepts w.ahead) w.now s

theorem Spent.step {s : Int} (h : Spent w pubkey s) (good : Good w) (step : Steps w act w') :
    Spent w' pubkey s := by
  cases step with
  | passes d => exact h.passes (Nat.le_add_right _ _)
  | @receives write taken =>
    show (standing (receive w.tracker write w.now).2 pubkey).Spent _ _ _
    by_cases own : write.OfRoom w.tracker.room
    · rw [standing_receive own]
      split
      · rename_i e
        subst e
        unfold Standing.takes
        split
        · exact Standing.Spent.leaves h
        · exact Standing.Spent.writes h
      · exact h
    · rw [receive_foreign own]
      exact h
  | reaps =>
    show (standing (w.tracker.reap w.now false).2 pubkey).Spent _ _ _
    rw [standing_reap, good.ttl]
    exact Standing.Spent.ages (lapses w.ahead) (good.timely pubkey) h

theorem Spent.run {s : Int} (h : Spent w pubkey s) (good : Good w) (run : Trail Steps w acts w') :
    Spent w' pubkey s :=
  (run.invariant (I := fun w => Spent w pubkey s ∧ Good w)
    (fun _ _ _ h step => ⟨h.1.step h.2 step, h.2.step step⟩) ⟨h, good⟩).1

/-- What is received is spent. -/
theorem spent_received (own : x.OfRoom w.tracker.room) (step : Steps w (.receives x) w') :
    Spent w' x.sender x.sent := by
  cases step with
  | receives taken =>
    show (standing (receive w.tracker x w.now).2 x.sender).Spent _ _ _
    rw [standing_receive own, if_pos rfl]
    unfold Standing.takes
    split
    · exact Standing.spent_leaves
    · exact Standing.spent_writes

/-- A spent write leaves an absent sender absent. -/
theorem Spent.away {s : Int} (h : Spent w y.sender s) (old : y.sent ≤ s) (writes : y.isLeave = false)
    (step : Steps w (.receives y) w') (absent : y.sender ∉ w.tracker.members) :
    y.sender ∉ w'.tracker.members := by
  cases step with
  | receives taken =>
    show y.sender ∉ (receive w.tracker y w.now).2.members
    by_cases own : y.OfRoom w.tracker.room
    · rw [← here_iff] at absent ⊢
      rw [standing_receive own, if_pos rfl, Standing.takes, writes]
      exact Standing.Spent.away h old (fresh_iff.1 taken) absent
    · rwa [receive_foreign own]

/-- The member sends nothing after `T`, and its clock runs no further ahead than
the window allows. -/
def SilentAfter (T : Int) (pubkey : Octets) (acts : List Act) : Prop :=
  ∀ write, .receives write ∈ acts → write.sender = pubkey → write.isLeave = false →
    write.sent ≤ T + asMillis replayFreshnessFuture

/-- The row the member has is of a write it sent by `T`. -/
def SentBy (T : Int) (pubkey : Octets) (w : World) : Prop :=
  ∀ sent heard, standing w.tracker pubkey = .here sent heard →
    sent ≤ T + asMillis replayFreshnessFuture

theorem SentBy.step {T : Int} (h : SentBy T pubkey w) (quiet : SilentAfter T pubkey [act])
    (step : Steps w act w') : SentBy T pubkey w' := by
  intro sent heard now
  cases step with
  | passes => exact h sent heard now
  | @receives write taken =>
    by_cases own : write.OfRoom w.tracker.room
    · rw [standing_receive own] at now
      split at now
      · rename_i e
        subst e
        unfold Standing.takes at now
        split at now
        · exact h sent heard (Standing.leaves_here now)
        · rename_i writes
          rcases Standing.writes_here now with now | ⟨rfl, -⟩
          · exact h sent heard now
          · exact quiet write (List.mem_singleton_self _) rfl (by simpa using writes)
      · exact h sent heard now
    · rw [receive_foreign own] at now
      exact h sent heard now
  | reaps =>
    rw [standing_reap] at now
    exact h sent heard (Standing.ages_here now).1

theorem SentBy.run {T : Int} (h : SentBy T pubkey w) (quiet : SilentAfter T pubkey acts)
    (run : Trail Steps w acts w') : SentBy T pubkey w' := by
  refine run.invariant_on (P := fun act => SilentAfter T pubkey [act])
    (fun _ _ _ quiet h step => h.step quiet step) (fun act mem write only => ?_) h
  exact quiet write (List.mem_singleton.1 only ▸ mem)

theorem overdue {ahead heard now : Nat} {sent T : Int}
    (taken : ((ahead + heard) / 1000000 : Nat) - 300000 ≤ sent) (by_ : sent ≤ T + 60000)
    (late : T + 960000 < ((ahead + now) / 1000000 : Nat)) : ¬ now - heard < 600000000000 := by
  omega

/-- A reap long enough after `T` leaves no row of a member silent since. -/
theorem absent_reaped {T : Int} (good : Good w) (sent : SentBy T pubkey w)
    (late : T + asMillis (replayFreshnessPast + replayFreshnessFuture + presenceTtl) < w.nowUnixMs) :
    pubkey ∉ (w.tracker.reap w.now false).2.members := by
  rw [← here_iff, standing_reap, good.ttl]
  intro here
  cases known : (standing w.tracker pubkey).ages fun heard => w.now - heard < presenceTtl with
  | here newest heard =>
    obtain ⟨held, fresh⟩ := Standing.ages_here known
    have timely := good.timely pubkey
    rw [held] at timely
    have stamped : newest ≤ T + 60000 := sent newest heard held
    exact overdue timely.1.1 stamped late (of_decide_eq_true fresh)
  | gone => rwa [known] at here
  | unheard => rwa [known] at here

/-- **The roster is decided by the members' clocks.** Without reaps, whatever
the order and the repetition of the room's writes, a member is on the roster
exactly when the newest of its writes is newer than the newest of its leaves.
In a run of fresh receipts and reaps, once a write or a leave has been received
no write sent at or before it puts its sender back, reaped or not; and who is
silent after `T` is absent after every reap that is late enough. -/
theorem roster_decided :
    (∀ (room : Option String) (writes : List MemberWrite)
        (delivered : List (MemberWrite × Instant)) (pubkey : Octets),
      (∀ w, w ∈ delivered.map Prod.fst ↔ w ∈ writes) → (∀ w ∈ writes, w.OfRoom room) →
      (pubkey ∈ (receiveAll (fresh room) delivered).members ↔
        newest pubkey true writes < newest pubkey false writes)) ∧
    ∀ (room : Option String) (now : Instant) (ahead : Duration) (acts : List Act) (w : World),
      Trail Steps (.start room now ahead) acts w →
      (∀ x y between w₁ w₂ w₃, x.OfRoom room → Steps w (.receives x) w₁ →
        Trail Steps w₁ between w₂ → Steps w₂ (.receives y) w₃ →
        y.sender = x.sender → y.isLeave = false → y.sent ≤ x.sent →
        y.sender ∉ w₂.tracker.members → y.sender ∉ w₃.tracker.members) ∧
      ∀ T pubkey w', SilentAfter T pubkey acts → Steps w .reaps w' →
        T + asMillis (replayFreshnessPast + replayFreshnessFuture + presenceTtl) < w.nowUnixMs →
        pubkey ∉ w'.tracker.members := by
  refine ⟨fun room writes delivered pubkey same own => ?_, fun room now ahead acts w run => ⟨?_, ?_⟩⟩
  · have nothing : (standing (fresh room) pubkey).Reflects ⊥ ⊥ := by
      cases room <;> exact .unheard
    have scope : (fresh room).room = room := by
      cases room <;> rfl
    have own : ∀ d ∈ delivered, d.1.OfRoom (fresh room).room := fun d mem =>
      scope.symm ▸ own d.1 ((same d.1).1 (List.mem_map_of_mem mem))
    rw [← here_iff, (reflects_receiveAll own nothing).here_iff, ← newest_congr same,
      ← newest_congr same]
    exact Iff.rfl
  · intro x y between w₁ w₂ w₃ own received run' again same writes old absent
    have good := (Good.start room now ahead).run run
    have scope : w.tracker.room = room := by
      rw [(run_fixed run).1]
      cases room <;> rfl
    have spent := (spent_received (scope.symm ▸ own) received).run (good.step received) run'
    exact (same ▸ spent : Spent w₂ y.sender x.sent).away old writes again absent
  · intro T pubkey w' quiet reaped late
    have good := (Good.start room now ahead).run run
    have none_yet : SentBy T pubkey (.start room now ahead) := by
      intro sent heard here
      cases room <;> cases here
    cases reaped
    exact absent_reaped good (none_yet.run quiet run) late

def toyBeacon : MemberWrite := .beacon ⟨"lobby", [1], "a", 5, [], [], false⟩

def toyLeave : MemberWrite := .beacon ⟨"lobby", [1], "a", 7, [], [], true⟩

/-- A member that left, its beacon after its leave, and a reap when it has long
been silent. -/
theorem roster_decided_departed :
    [1] ∉ (receiveAll (fresh none) [(toyLeave, 3), (toyBeacon, 4)]).members ∧
    (∃ w w', Steps (.start none 0 0) (.receives toyLeave) w ∧ Steps w (.receives toyBeacon) w' ∧
      [1] ∉ w'.tracker.members) ∧
    ∃ w', Steps (.start none (fromSecs 961) 0) .reaps w' ∧ [1] ∉ w'.tracker.members := by
  obtain ⟨orders, runs⟩ := roster_decided
  refine ⟨?_, ⟨_, _, .receives (by decide), .receives (by decide), ?_⟩, _, .reaps, ?_⟩
  · rw [orders none [toyBeacon, toyLeave] _ [1] (by simp [or_comm]) (by simp [toyBeacon, toyLeave,
      MemberWrite.OfRoom])]
    decide
  · exact (runs none 0 0 [] _ (.nil _)).1 toyLeave toyBeacon [] _ _ _ trivial
      (.receives (by decide)) (.nil _) (.receives (by decide)) rfl rfl (by decide) (by decide)
  · exact (runs none (fromSecs 961) 0 [] _ (.nil _)).2 0 [1] _ (by simp [SilentAfter]) .reaps
      (by decide)

end Daemonseed.Room.Roster
