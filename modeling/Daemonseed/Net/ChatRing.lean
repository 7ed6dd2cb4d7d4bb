import Daemonseed.Lib.Bytes
import Daemonseed.Lib.Runs
import Daemonseed.Net.RecordLine

/-! # A member's chat ring

The two slots of a room's record a member writes its messages to in turn, by a
cursor that is kept in memory and is moved on before the write. What the two
slots hold is what the last write to land in each of them left. -/
namespace Daemonseed.Net.ChatRing
open Daemonseed.Lib.Bytes Daemonseed.Lib.Runs Daemonseed.Net.WriteFunnel
  Daemonseed.Net.FunnelSafety Daemonseed.Net.ClosingFlush Daemonseed.Net.RecordLine

def memberRegions : Nat := 32

def ringDepth : Nat := 2

/-- The region of a node key: its first four bytes, little-endian. -/
def memberRegion (nodePub : Vector UInt8 32) : Nat :=
  fromBe [nodePub[3], nodePub[2], nodePub[1], nodePub[0]] % memberRegions

def memberBaseSubkey (nodePub : Vector UInt8 32) : Nat := memberRegion nodePub * ringDepth

/-- A message handed to the funnel in one life of the node. -/
structure Sent (D ρ : Type) where
  life : Nat
  pending : Pending D ρ

/-- Handed over earlier. -/
def Sent.Older {D ρ : Type} (m n : Sent D ρ) : Prop :=
  m.life < n.life ∨ m.life = n.life ∧ m.pending.seq < n.pending.seq

theorem Sent.Older.irrefl {D ρ : Type} (m : Sent D ρ) : ¬ m.Older m := by
  unfold Older
  omega

/-- How a publish ends: at the open, at the set, or answered `Ok`; a set that
fails may have landed, and one that is answered may have been passed over. -/
inductive Outcome
  | unopened
  | failed (landed : Bool)
  | answered (taken : Bool)
  deriving DecidableEq, Repr

namespace Outcome

def opened : Outcome → Bool
  | unopened => false
  | failed _ | answered _ => true

def lands : Outcome → Bool
  | unopened => false
  | failed landed => landed
  | answered taken => taken

def ok : Outcome → Bool
  | answered _ => true
  | unopened | failed _ => false

end Outcome

variable {M O : Type}

/-- What happens to the record: this node's publishes and restarts, and the
writes of the others. -/
inductive Act (M O : Type)
  | publish (m : M) (o : Outcome)
  | restart
  | theirs (k : Nat) (value : O)

/-- The cursor of this life and the record, whose subkeys hold a message of
this node or a value of another's. -/
structure Ring (M O : Type) where
  cursor : Nat
  record : Nat → Option (M ⊕ O)

namespace Ring

/-- The slot is taken from the cursor, and the cursor moved on, before the
write. -/
def publishRendezvous (base : Nat) (ring : Ring M O) (m : M) (o : Outcome) : Ring M O :=
  if o.opened then
    { cursor := (ring.cursor + 1) % 2 ^ 32
      record :=
        if o.lands then Function.update ring.record (base + ring.cursor % ringDepth) (some (.inl m))
        else ring.record }
  else ring

def act (base : Nat) (ring : Ring M O) : Act M O → Ring M O
  | .publish m o => ring.publishRendezvous base m o
  | .restart => { ring with cursor := 0 }
  | .theirs k value => { ring with record := Function.update ring.record k (some (.inr value)) }

end Ring

/-! ## What is left of the messages -/

/-- The publishes that opened the record since the last restart. -/
def openings : List (Act M O) → Nat :=
  List.foldl (fun n a =>
    match a with
    | .publish _ o => if o.opened then n + 1 else n
    | .restart => 0
    | .theirs _ _ => n) 0

/-- The message an act publishes. -/
def published : Act M O → Option M
  | .publish m _ => some m
  | .restart | .theirs _ _ => none

/-- The message an act puts in the record. -/
def landed : Act M O → Option M
  | .publish m o => if o.lands then some m else none
  | .restart | .theirs _ _ => none

/-- The message a publish returned `Ok` for. -/
def oked : Act M O → Option M
  | .publish m o => if o.ok then some m else none
  | .restart | .theirs _ _ => none

/-- Every write of the others is outside a region. -/
def Outside (base : Nat) (acts : List (Act M O)) : Prop :=
  ∀ k value, .theirs k value ∈ acts → k ≠ base ∧ k ≠ base + 1

section

variable {base : Nat} {start : Ring M O} {acts : List (Act M O)}

theorem openings_concat (a : Act M O) :
    openings (acts ++ [a]) =
      match a with
      | .publish _ o => if o.opened then openings acts + 1 else openings acts
      | .restart => 0
      | .theirs _ _ => openings acts := by
  rw [openings, List.foldl_append]
  rfl

theorem cursor_after (fresh : start.cursor = 0) :
    (acts.foldl (Ring.act base) start).cursor = openings acts % 2 ^ 32 := by
  induction acts using List.reverseRecOn with
  | nil => exact fresh
  | append_singleton acts a ih =>
    rw [List.foldl_append, openings_concat]
    cases a with
    | restart => rfl
    | theirs k value => exact ih
    | publish m o =>
      simp only [List.foldl_cons, List.foldl_nil, Ring.act, Ring.publishRendezvous]
      by_cases ho : o.opened = true
      · rw [if_pos ho, if_pos ho]
        simp only [ih, Nat.mod_add_mod]
      · rw [if_neg ho, if_neg ho, ih]

/-- A publish lands in the slot of the openings before it. -/
theorem slot_after (fresh : start.cursor = 0) :
    (acts.foldl (Ring.act base) start).cursor % ringDepth = openings acts % 2 := by
  rw [cursor_after fresh, ringDepth]
  omega

/-- No write of `after` lands in the slot `j`; `before` is what was before
them. -/
def Unwritten (j : Nat) (before after : List (Act M O)) : Prop :=
  ∀ mid q o rest, after = mid ++ .publish q o :: rest → o.lands = true →
    openings (before ++ mid) % 2 ≠ j

theorem unwritten_concat {j : Nat} {before after : List (Act M O)} {a : Act M O} :
    Unwritten j before (after ++ [a]) ↔ Unwritten j before after ∧
      ∀ q o, a = .publish q o → o.lands = true → openings (before ++ after) % 2 ≠ j := by
  constructor
  · intro h
    refine ⟨fun mid q o rest hs => h mid q o (rest ++ [a]) (by simp [hs]), fun q o ha => ?_⟩
    exact h after q o [] (by rw [ha])
  · rintro ⟨h, last⟩ mid q o rest hs lands
    rcases List.eq_nil_or_concat rest with rfl | ⟨rest, b, rfl⟩
    · obtain ⟨rfl, ha⟩ := List.append_inj' hs rfl
      exact last q o (List.singleton_inj.1 ha) lands
    · rw [List.concat_eq_append, ← List.cons_append, ← List.append_assoc] at hs
      exact h mid q o rest (List.append_inj' hs rfl).1 lands

/-- The slot `j` was last written by a publish of `m`. -/
def LastWrote (j : Nat) (m : M) (acts : List (Act M O)) : Prop :=
  ∃ before o after, acts = before ++ .publish m o :: after ∧ o.lands = true ∧
    openings before % 2 = j ∧ Unwritten j (before ++ [.publish m o]) after

theorem lastWrote_concat {j : Nat} {m : M} {a : Act M O} :
    LastWrote j m (acts ++ [a]) ↔
      (∃ o, a = .publish m o ∧ o.lands = true ∧ openings acts % 2 = j) ∨
      LastWrote j m acts ∧ ∀ q o, a = .publish q o → o.lands = true → openings acts % 2 ≠ j := by
  constructor
  · rintro ⟨before, o, after, hs, lands, slot, unwritten⟩
    rcases List.eq_nil_or_concat after with rfl | ⟨after, b, rfl⟩
    · obtain ⟨rfl, ha⟩ := List.append_inj' hs rfl
      exact .inl ⟨o, List.singleton_inj.1 ha, lands, slot⟩
    · rw [List.concat_eq_append, ← List.cons_append, ← List.append_assoc] at hs
      obtain ⟨rfl, ha⟩ := List.append_inj' hs rfl
      obtain rfl := List.singleton_inj.1 ha
      rw [List.concat_eq_append, unwritten_concat] at unwritten
      refine .inr ⟨⟨before, o, after, rfl, lands, slot, unwritten.1⟩, fun q o' ha lands' => ?_⟩
      have := unwritten.2 q o' ha lands'
      rwa [List.append_assoc] at this
  · rintro (⟨o, rfl, lands, slot⟩ | ⟨⟨before, o, after, rfl, lands, slot, unwritten⟩, last⟩)
    · exact ⟨acts, o, [], rfl, lands, slot, fun mid q o rest hs => by simp at hs⟩
    · refine ⟨before, o, after ++ [a], by simp, lands, slot, unwritten_concat.2 ⟨unwritten, ?_⟩⟩
      intro q o' ha lands'
      rw [List.append_assoc]
      exact last q o' ha lands'

/-- **A slot holds what last landed in it.** -/
theorem holds_iff (fresh : start.cursor = 0) (blank : ∀ k m, start.record k ≠ some (.inl m))
    (outside : Outside base acts) {j : Nat} (hj : j < ringDepth) {m : M} :
    (acts.foldl (Ring.act base) start).record (base + j) = some (.inl m) ↔ LastWrote j m acts := by
  induction acts using List.reverseRecOn with
  | nil =>
    refine iff_of_false (blank _ _) ?_
    rintro ⟨before, o, after, hs, -⟩
    simp at hs
  | append_singleton acts a ih =>
    have ih := ih fun k value h => outside k value (List.mem_append_left _ h)
    rw [List.foldl_append, lastWrote_concat, ← ih]
    simp only [List.foldl_cons, List.foldl_nil]
    cases a with
    | restart => simp [Ring.act]
    | theirs k value =>
      have apart := outside k value (by simp)
      have other : base + j ≠ k := by unfold ringDepth at hj; omega
      simp [Ring.act, Function.update_of_ne other]
    | publish q o =>
      have slot : (acts.foldl (Ring.act base) start).cursor % ringDepth = openings acts % 2 :=
        slot_after fresh
      simp only [Ring.act, Ring.publishRendezvous, slot]
      cases lands : o.lands with
      | false => split <;> simp_all
      | true =>
        have opened : o.opened = true := by cases o <;> simp_all [Outcome.lands, Outcome.opened]
        rw [if_pos opened]
        by_cases here : openings acts % 2 = j
        · subst here
          simp only [if_true, Function.update_self]
          constructor
          · intro same
            cases same
            exact .inl ⟨o, rfl, lands, trivial⟩
          · rintro (⟨o', same, -⟩ | ⟨-, not_⟩)
            · cases same
              rfl
            · exact absurd rfl (not_ q o rfl lands)
        · have other : base + j ≠ base + openings acts % 2 := by omega
          simp only [if_true, Function.update_of_ne other]
          constructor
          · exact fun held => .inr ⟨held, fun _ _ _ _ => here⟩
          · rintro (⟨o', -, -, same⟩ | ⟨held, -⟩)
            · exact absurd same here
            · exact held

end

/-! ## The last two messages -/

/-- A slot of the region holds this message. -/
def Holds (base : Nat) (ring : Ring M O) (m : M) : Prop :=
  ∃ j < ringDepth, ring.record (base + j) = some (.inl m)

/-- After a publish of `m` returned `Ok`: the region holds it and, of the
publishes that returned `Ok` before, the most recent one. -/
def KeepsLast (base : Nat) (ring : Ring M O) (earlier : List (Act M O)) (m : M) : Prop :=
  Holds base ring m ∧ ∀ p, (earlier.filterMap oked).getLast? = some p → Holds base ring p

/-- A publish of `m` that returned `Ok` was taken, as was the most recent
earlier one; and of the writes since that one, this one included, none that
landed did so after as many openings, modulo the depth. -/
def InTurn (earlier : List (Act M O)) (m : M) (taken : Bool) : Prop :=
  taken = true ∧ ∀ before p t between, earlier = before ++ .publish p (.answered t) :: between →
    between.filterMap oked = [] → t = true ∧
      Unwritten (openings before % 2) (before ++ [.publish p (.answered t)])
        (between ++ [.publish m (.answered taken)])

theorem getLast_oked {acts : List (Act M O)} {p : M} :
    (acts.filterMap oked).getLast? = some p ↔ ∃ before t between,
      acts = before ++ .publish p (.answered t) :: between ∧ between.filterMap oked = [] := by
  constructor
  · intro h
    obtain ⟨front, hs⟩ := List.getLast?_eq_some_iff.1 h
    obtain ⟨l₁, l₂, rfl, h₁, h₂⟩ := List.filterMap_eq_append_iff.1 hs
    obtain ⟨l₃, a, l₄, rfl, none_, ha, h₄⟩ := List.filterMap_eq_cons_iff.1 h₂
    cases a with
    | restart => cases ha
    | theirs _ _ => cases ha
    | publish q o =>
      cases o with
      | unopened => cases ha
      | failed _ => cases ha
      | answered t =>
        obtain rfl : q = p := by simpa [oked, Outcome.ok] using ha
        exact ⟨l₁ ++ l₃, t, l₄, by simp, h₄⟩
  · rintro ⟨before, t, between, rfl, none_⟩
    have last : oked (.publish p (.answered t) : Act M O) = some p := rfl
    rw [List.filterMap_append, List.filterMap_cons_some last, none_]
    simp

section

variable {acts : List (Act M O)}

/-- No message is published twice. -/
theorem once {before after : List (Act M O)} {m : M} {o : Outcome}
    (nodup : ((before ++ .publish m o :: after).filterMap published).Nodup) :
    m ∉ before.filterMap published ∧ m ∉ after.filterMap published := by
  have this_ : published (.publish m o : Act M O) = some m := rfl
  rw [List.filterMap_append, List.filterMap_cons_some this_, List.nodup_middle,
    List.nodup_cons, List.mem_append, not_or] at nodup
  exact nodup.1

theorem mem_published {before after : List (Act M O)} {m : M} {o : Outcome} :
    m ∈ (before ++ .publish m o :: after).filterMap published :=
  List.mem_filterMap.2 ⟨.publish m o, by simp, rfl⟩

theorem split_once {before after before' after' : List (Act M O)} {m : M} {o o' : Outcome}
    (nodup : ((before ++ .publish m o :: after).filterMap published).Nodup)
    (same : before ++ .publish m o :: after = before' ++ .publish m o' :: after') :
    before = before' ∧ o = o' ∧ after = after' := by
  obtain ⟨not_before, not_after⟩ := once nodup
  rcases List.append_eq_append_iff.1 same with ⟨mid, rfl, hs⟩ | ⟨mid, rfl, hs⟩
  · cases mid with
    | nil =>
      simp only [List.nil_append, List.cons.injEq, Act.publish.injEq, true_and] at hs
      exact ⟨(List.append_nil _).symm, hs⟩
    | cons a mid =>
      obtain ⟨-, rfl⟩ := List.cons.inj hs
      exact absurd mem_published not_after
  · cases mid with
    | nil =>
      simp only [List.nil_append, List.cons.injEq, Act.publish.injEq, true_and] at hs
      exact ⟨List.append_nil _, hs.1.symm, hs.2.symm⟩
    | cons a mid =>
      obtain ⟨rfl, -⟩ := List.cons.inj hs
      exact absurd mem_published not_before

/-- What a region holds of a message published once. -/
theorem holds_once {base : Nat} {start : Ring M O} (fresh : start.cursor = 0)
    (blank : ∀ k m, start.record k ≠ some (.inl m)) {before after : List (Act M O)} {m : M}
    {o : Outcome} (hs : acts = before ++ .publish m o :: after) (outside : Outside base acts)
    (nodup : (acts.filterMap published).Nodup) :
    Holds base (acts.foldl (Ring.act base) start) m ↔ o.lands = true ∧
      Unwritten (openings before % 2) (before ++ [.publish m o]) after := by
  constructor
  · rintro ⟨j, hj, held⟩
    obtain ⟨before', o', after', hs', lands, slot, unwritten⟩ :=
      (holds_iff fresh blank outside hj).1 held
    obtain ⟨rfl, rfl, rfl⟩ := split_once (hs ▸ nodup) (hs.symm.trans hs')
    exact ⟨lands, slot ▸ unwritten⟩
  · rintro ⟨lands, unwritten⟩
    have hj : openings before % 2 < ringDepth := Nat.mod_lt _ (by decide)
    exact ⟨_, hj, (holds_iff fresh blank outside hj).2 ⟨before, o, after, hs, lands, rfl, unwritten⟩⟩

theorem keepsLast_iff {base : Nat} {start : Ring M O} (fresh : start.cursor = 0)
    (blank : ∀ k m, start.record k ≠ some (.inl m)) {earlier : List (Act M O)} {m : M}
    {taken : Bool} (hs : acts = earlier ++ [.publish m (.answered taken)])
    (outside : Outside base acts) (nodup : (acts.filterMap published).Nodup) :
    KeepsLast base (acts.foldl (Ring.act base) start) earlier m ↔ InTurn earlier m taken := by
  have last : Holds base (acts.foldl (Ring.act base) start) m ↔ taken = true := by
    rw [holds_once fresh blank hs outside nodup]
    exact ⟨And.left, fun h => ⟨h, fun mid q o rest hs => by simp at hs⟩⟩
  have previous : ∀ before p t between, earlier = before ++ .publish p (.answered t) :: between →
      (Holds base (acts.foldl (Ring.act base) start) p ↔ t = true ∧
        Unwritten (openings before % 2) (before ++ [.publish p (.answered t)])
          (between ++ [.publish m (.answered taken)])) := by
    rintro before p t between rfl
    have here : acts = before ++ .publish p (.answered t) ::
        (between ++ [.publish m (.answered taken)]) := by simp [hs]
    exact holds_once fresh blank here outside nodup
  constructor
  · rintro ⟨held, both⟩
    refine ⟨last.1 held, fun before p t between h none_ => (previous before p t between h).1 ?_⟩
    exact both p (getLast_oked.2 ⟨before, t, between, h, none_⟩)
  · rintro ⟨held, both⟩
    refine ⟨last.2 held, fun p hp => ?_⟩
    obtain ⟨before, t, between, h, none_⟩ := getLast_oked.1 hp
    exact (previous before p t between h).2 (both before p t between h none_)

end

/-! ## The node -/

variable {R D ρ : Type} [DecidableEq R]

structure Node (R D ρ O : Type) where
  /-- Which run of the process this is. -/
  life : Nat
  closing : Bool
  funnel : Funnel R D ρ
  ring : Ring (Sent D ρ) O
  /-- All that happened to the record. -/
  acts : List (Act (Sent D ρ) O)

namespace Node

/-- A node that has published nothing, and what others have in the record. -/
def start (cfg : SchedulerConfig) (theirs : Nat → Option O) : Node R D ρ O where
  life := 0
  closing := false
  funnel := .start cfg
  ring := ⟨0, fun k => (theirs k).map .inr⟩
  acts := []

def act (base : Nat) (node : Node R D ρ O) (a : Act (Sent D ρ) O) : Node R D ρ O :=
  { node with ring := node.ring.act base a, acts := node.acts ++ [a] }

/-- What a completed write of any record is to the room's. -/
def wrote (room : R) (base : Nat) (node : Node R D ρ O) (d : Dispatched R D ρ) (o : Outcome) :
    Node R D ρ O :=
  if d.record = room then node.act base (.publish ⟨node.life, d.pending⟩ o) else node

/-- The write under way when the process ends may have landed. -/
def cut (room : R) (base : Nat) (node : Node R D ρ O) (landed : Bool) : Node R D ρ O :=
  match runningOn room node.funnel.running with
  | [] => node
  | p :: _ => node.act base (.publish ⟨node.life, p⟩ (.failed landed))

/-- A new process of the same node key. -/
def restart (room : R) (base : Nat) (cfg : SchedulerConfig) (node : Node R D ρ O) (landed : Bool) :
    Node R D ρ O :=
  { (node.cut room base landed).act base .restart with
    life := node.life + 1
    closing := false
    funnel := .start cfg }

end Node

inductive Happens (R D ρ O : Type)
  | enqueue (now : Nat) (req : WriteRequest R D ρ)
  | tryDispatch (now : Nat)
  | done (d : Dispatched R D ρ) (o : Outcome)
  | close
  | restart (landed : Bool)
  | theirs (k : Nat) (value : O)

/-- One event of a node whose only writes to `room` are its chat publishes. A
closing funnel takes no more requests and drains after each completion. -/
inductive Steps (room : R) (nodePub : Vector UInt8 32) (cfg : SchedulerConfig) :
    Node R D ρ O → Happens R D ρ O → Node R D ρ O → Prop
  | enqueue {node : Node R D ρ O} (open_ : node.closing = false) (now : Nat)
      (req : WriteRequest R D ρ) :
      Steps room nodePub cfg node (.enqueue now req) { node with funnel := node.funnel.enqueue now req }
  | tryDispatch {node : Node R D ρ O} (open_ : node.closing = false) (now : Nat) :
      Steps room nodePub cfg node (.tryDispatch now)
        { node with funnel := node.funnel.dispatches (node.funnel.st.tryDispatch now) }
  | done {node : Node R D ρ O} {before after : List (Dispatched R D ρ)} {d : Dispatched R D ρ}
      (busy : node.funnel.running = before ++ d :: after) (o : Outcome) (latency : Nat)
      (acquireWait : Option Nat) :
      Steps room nodePub cfg node (.done d o)
        { node.wrote room (memberBaseSubkey nodePub) d o with
          funnel :=
            let completed := completes node.funnel d (before ++ after) latency acquireWait
            if node.closing then drains completed else completed }
  | close {node : Node R D ρ O} (open_ : node.closing = false) :
      Steps room nodePub cfg node .close { node with closing := true, funnel := drains node.funnel }
  | restart (node : Node R D ρ O) (landed : Bool) :
      Steps room nodePub cfg node (.restart landed) (node.restart room (memberBaseSubkey nodePub) cfg landed)
  | theirs (node : Node R D ρ O) {k : Nat} (value : O) (apart : k / ringDepth ≠ memberRegion nodePub) :
      Steps room nodePub cfg node (.theirs k value) (node.act (memberBaseSubkey nodePub) (.theirs k value))

/-! ## Every run -/

/-- What every event of a node keeps. -/
structure Kept (room : R) (base : Nat) (first : Ring (Sent D ρ) O) (node : Node R D ρ O) :
    Prop where
  inLine : InLine room node.funnel
  ring : node.ring = node.acts.foldl (Ring.act base) first
  outside : Outside base node.acts
  older : (node.acts.filterMap published).Pairwise Sent.Older
  past : ∀ m ∈ node.acts.filterMap published, m.life < node.life ∨
    m.life = node.life ∧ m.pending ∈ completedOn room node.funnel.log

section

variable {room : R} {base : Nat} {first : Ring (Sent D ρ) O} {node : Node R D ρ O}

omit [DecidableEq R] in
/-- What an act adds to the record and to the history. -/
theorem act_told (ring : node.ring = node.acts.foldl (Ring.act base) first) (a : Act (Sent D ρ) O) :
    (node.act base a).ring = (node.act base a).acts.foldl (Ring.act base) first := by
  simp only [Node.act, List.foldl_append, List.foldl_cons, List.foldl_nil, ring]

/-- A write under way is of a message newer than all before. -/
theorem Kept.newer (h : Kept room base first node) {p : Pending D ρ}
    (busy : p ∈ runningOn room node.funnel.running) :
    ∀ m ∈ node.acts.filterMap published, m.Older ⟨node.life, p⟩ := by
  intro m hm
  rcases h.past m hm with before | ⟨same, done⟩
  · exact .inl before
  · refine .inr ⟨same, ?_⟩
    exact (List.pairwise_append.1 h.inLine.order).2.2 _ done p (List.mem_append_left _ busy)

theorem Kept.publish (h : Kept room base first node) {p : Pending D ρ}
    (busy : p ∈ runningOn room node.funnel.running) (o : Outcome) :
    Outside base (node.act base (.publish ⟨node.life, p⟩ o)).acts ∧
      ((node.act base (.publish ⟨node.life, p⟩ o)).acts.filterMap published).Pairwise
        Sent.Older := by
  constructor
  · intro k value hk
    rcases List.mem_append.1 hk with old | new
    · exact h.outside k value old
    · simp at new
  · rw [Node.act, List.filterMap_append]
    refine List.pairwise_append.2 ⟨h.older, List.pairwise_singleton _ _, fun m hm m' hm' => ?_⟩
    obtain rfl : m' = ⟨node.life, p⟩ := by simpa [published] using hm'
    exact h.newer busy m hm

theorem Kept.restart (h : Kept room base first node) (cfg : SchedulerConfig) (landed : Bool) :
    Kept room base first (node.restart room base cfg landed) := by
  have cut : (node.cut room base landed).ring =
        (node.cut room base landed).acts.foldl (Ring.act base) first ∧
      Outside base (node.cut room base landed).acts ∧
      ((node.cut room base landed).acts.filterMap published).Pairwise Sent.Older ∧
      ∀ m ∈ (node.cut room base landed).acts.filterMap published, m.life < node.life + 1 := by
    have past : ∀ m ∈ node.acts.filterMap published, m.life < node.life + 1 := fun m hm => by
      rcases h.past m hm with before | ⟨same, -⟩
      · exact Nat.lt_succ_of_lt before
      · exact same ▸ Nat.lt_succ_self _
    unfold Node.cut
    cases running : runningOn room node.funnel.running with
    | nil => exact ⟨h.ring, h.outside, h.older, past⟩
    | cons p rest =>
      obtain ⟨outside, older⟩ := h.publish (running ▸ List.mem_cons_self) (.failed landed)
      refine ⟨act_told h.ring _, outside, older, fun m hm => ?_⟩
      simp only [Node.act, List.filterMap_append, List.mem_append] at hm
      rcases hm with old | new
      · exact past m old
      · obtain rfl : m = ⟨node.life, p⟩ := by simpa [published] using new
        exact Nat.lt_succ_self _
  obtain ⟨ring, outside, older, past⟩ := cut
  have same : (node.restart room base cfg landed).acts.filterMap published =
      (node.cut room base landed).acts.filterMap published := by
    simp [Node.restart, Node.act, published]
  refine ⟨inLine_start cfg, act_told ring .restart, fun k value hk => ?_, same ▸ older,
    fun m hm => .inl (past m (same ▸ hm))⟩
  simp only [Node.restart, Node.act, List.mem_append, List.mem_singleton, reduceCtorEq,
    or_false] at hk
  exact outside k value hk

/-- What the funnel does by itself. -/
theorem Kept.funnel (h : Kept room base first node) {f : Funnel R D ρ} (inLine : InLine room f)
    (done : completedOn room f.log = completedOn room node.funnel.log) (closing : Bool) :
    Kept room base first { node with closing := closing, funnel := f } where
  inLine := inLine
  ring := h.ring
  outside := h.outside
  older := h.older
  past := by
    rw [done]
    exact h.past

end

theorem completedOn_dispatches {room : R} (f : Funnel R D ρ)
    (pass : State R D ρ × List (Dispatched R D ρ)) :
    completedOn room (f.dispatches pass).log = completedOn room f.log := by
  have none_ : completedOn room (pass.2.map Happened.dispatched) = [] := by
    simp [completedOn, List.filterMap_map]
  rw [Funnel.dispatches, completedOn_append, none_, List.append_nil]

theorem mem_runningOn {room : R} {before after : List (Dispatched R D ρ)} {d : Dispatched R D ρ}
    (on : d.record = room) : d.pending ∈ runningOn room (before ++ d :: after) := by
  rw [runningOn_append, runningOn_cons_self on]
  exact List.mem_append_right _ List.mem_cons_self

variable {room : R} {nodePub : Vector UInt8 32} {cfg : SchedulerConfig}

theorem Kept.done {first : Ring (Sent D ρ) O} {node : Node R D ρ O}
    (h : Kept room (memberBaseSubkey nodePub) first node) {before after : List (Dispatched R D ρ)}
    {d : Dispatched R D ρ} (busy : node.funnel.running = before ++ d :: after) (o : Outcome)
    {f : Funnel R D ρ} (inLine : InLine room f)
    (done : completedOn room f.log = completedOn room (node.funnel.log ++ [.completed d])) :
    Kept room (memberBaseSubkey nodePub) first
      { node.wrote room (memberBaseSubkey nodePub) d o with funnel := f } := by
  rw [completedOn_append] at done
  unfold Node.wrote
  by_cases on : d.record = room
  · rw [if_pos on]
    obtain ⟨outside, older⟩ := h.publish (busy ▸ mem_runningOn on) o
    have new : completedOn room [Happened.completed d] = [d.pending] := by simp [completedOn, on]
    refine ⟨inLine, act_told h.ring (.publish ⟨node.life, d.pending⟩ o), outside, older,
      fun m hm => ?_⟩
    rw [new] at done
    simp only [Node.act, List.filterMap_append, List.mem_append, done, List.mem_singleton] at hm ⊢
    rcases hm with old | last
    · rcases h.past m old with earlier | ⟨same, over_⟩
      · exact .inl earlier
      · exact .inr ⟨same, .inl over_⟩
    · obtain rfl : m = ⟨node.life, d.pending⟩ := by simpa [published] using last
      exact .inr ⟨rfl, .inr rfl⟩
  · rw [if_neg on]
    have none_ : completedOn room [Happened.completed d] = [] := by simp [completedOn, on]
    refine h.funnel inLine ?_ node.closing
    rw [done, none_, List.append_nil]

theorem Kept.step {first : Ring (Sent D ρ) O} {node node' : Node R D ρ O} {e : Happens R D ρ O}
    (h : Kept room (memberBaseSubkey nodePub) first node) (step : Steps room nodePub cfg node e node') :
    Kept room (memberBaseSubkey nodePub) first node' := by
  cases step with
  | enqueue open_ now req =>
    exact h.funnel (h.inLine.enqueue now req) (completedOn_enqueue _ _ _ _) node.closing
  | tryDispatch open_ now =>
    exact h.funnel (h.inLine.tryDispatch now) (completedOn_dispatches _ _) node.closing
  | done busy o latency acquireWait =>
    have over_ := h.inLine.completes busy latency acquireWait
    dsimp only
    split
    · exact h.done busy o over_.drains (completedOn_dispatches _ _)
    · exact h.done busy o over_ rfl
  | close open_ => exact h.funnel h.inLine.drains (completedOn_dispatches _ _) true
  | restart landed => exact h.restart cfg landed
  | @theirs k value apart =>
    have same : (node.acts ++ [Act.theirs k value]).filterMap published =
        node.acts.filterMap published := by
      simp [published]
    refine ⟨h.inLine, act_told h.ring _, fun k' value' hk => ?_, same.symm ▸ h.older, ?_⟩
    · rcases List.mem_append.1 hk with old | new
      · exact h.outside k' value' old
      · obtain ⟨rfl, -⟩ : k' = k ∧ value' = value := by simpa using new
        unfold memberBaseSubkey ringDepth at *
        omega
    · simp only [Node.act]
      rw [same]
      exact h.past

/-- What the chat ring keeps: messages land in the order they were handed
over, and a publish that returned `Ok` leaves the last two exactly where they
were written in turn. -/
structure RingKept (nodePub : Vector UInt8 32) (node : Node R D ρ O) : Prop where
  inOrder : (node.acts.filterMap landed).Pairwise Sent.Older
  lastTwo : ∀ earlier m taken, node.acts = earlier ++ [.publish m (.answered taken)] →
    (KeepsLast (memberBaseSubkey nodePub) node.ring earlier m ↔ InTurn earlier m taken)

theorem landed_sublist (acts : List (Act M O)) :
    (acts.filterMap landed).Sublist (acts.filterMap published) := by
  induction acts with
  | nil => exact .slnil
  | cons a acts ih =>
    cases a with
    | restart => exact ih
    | theirs k value => exact ih
    | publish m o =>
      have one : published (.publish m o : Act M O) = some m := rfl
      rw [List.filterMap_cons_some one]
      cases lands : o.lands with
      | true =>
        have this_ : landed (.publish m o : Act M O) = some m := by simp [landed, lands]
        rw [List.filterMap_cons_some this_]
        exact ih.cons_cons m
      | false =>
        have this_ : landed (.publish m o : Act M O) = none := by simp [landed, lands]
        rw [List.filterMap_cons_none this_]
        exact ih.cons m

/-- **The chat ring, over every run of the node.** -/
theorem chat_ring {theirs : Nat → Option O} {es : List (Happens R D ρ O)} {node : Node R D ρ O}
    (run : Trail (Steps room nodePub cfg) (.start cfg theirs) es node) : RingKept nodePub node := by
  have kept : Kept room (memberBaseSubkey nodePub) ⟨0, fun k => (theirs k).map .inr⟩ node :=
    run.invariant (fun _ _ _ h step => h.step step) ⟨inLine_start cfg, rfl, nofun, .nil, nofun⟩
  refine ⟨kept.older.sublist (landed_sublist _), fun earlier m taken last => ?_⟩
  have nodup : (node.acts.filterMap published).Nodup :=
    kept.older.imp fun {a b} older (same : a = b) => Sent.Older.irrefl b (same ▸ older)
  rw [kept.ring]
  refine keepsLast_iff rfl (fun k m => ?_) last kept.outside nodup
  cases theirs k <;> simp

/-! ## A publish that fails between two that do not -/

def nodeKey : Vector UInt8 32 := .replicate 32 0

def handed (node : Node Unit Nat Unit Unit) (message : Nat) : Node Unit Nat Unit Unit :=
  { node with funnel := node.funnel.enqueue 0 ⟨(), .chat, .ring, none, message, none⟩ }

def sent (node : Node Unit Nat Unit Unit) : Node Unit Nat Unit Unit :=
  { node with funnel := node.funnel.dispatches (node.funnel.st.tryDispatch 0) }

/-- A message is handed over, dispatched, and over. -/
def publishes (node : Node Unit Nat Unit Unit) (message : Nat) (o : Outcome) :
    Node Unit Nat Unit Unit :=
  let node := sent (handed node message)
  match node.funnel.running with
  | [] => node
  | d :: rest =>
    { node.wrote () (memberBaseSubkey nodeKey) d o with
      funnel :=
        let completed := completes node.funnel d rest 0 none
        if node.closing then drains completed else completed }

theorem publishes_run {node : Node Unit Nat Unit Unit} (open_ : node.closing = false)
    (message : Nat) (o : Outcome) :
    (publishes node message o).closing = false ∧
      ∃ es, Trail (Steps () nodeKey .default) node es (publishes node message o) := by
  have waiting : (handed node message).closing = false := open_
  have dispatched : Steps () nodeKey .default (handed node message) (.tryDispatch 0)
      (sent (handed node message)) := .tryDispatch waiting 0
  have run : Trail (Steps () nodeKey .default) node [.enqueue 0 _, .tryDispatch 0]
      (sent (handed node message)) :=
    .cons (.enqueue open_ 0 _) (.cons dispatched (.nil _))
  have still : (sent (handed node message)).closing = false := open_
  revert run still
  clear waiting dispatched
  unfold publishes
  generalize sent (handed node message) = node
  intro run still
  dsimp only
  cases busy : node.funnel.running with
  | nil => exact ⟨still, _, run⟩
  | cons d rest =>
    refine ⟨?_, _, run.snoc (.done (List.nil_append (d :: rest) ▸ busy) o 0 none)⟩
    dsimp only
    unfold Node.wrote
    split <;> exact still

theorem publishes_runs {node : Node Unit Nat Unit Unit} (open_ : node.closing = false)
    (ms : List (Nat × Outcome)) :
    ∃ es, Trail (Steps () nodeKey .default) node es
      (ms.foldl (fun node m => publishes node m.1 m.2) node) := by
  induction ms generalizing node with
  | nil => exact ⟨[], .nil node⟩
  | cons m ms ih =>
    obtain ⟨still, es, run⟩ := publishes_run open_ m.1 m.2
    obtain ⟨es', rest⟩ := ih still
    exact ⟨es ++ es', run.append rest⟩

/-- Two messages are answered, the third fails at the set, the fourth is
answered. -/
def said : Node Unit Nat Unit Unit :=
  [(0, .answered true), (1, .answered true), (2, .failed false), (3, .answered true)].foldl
    (fun node m => publishes node m.1 m.2) (.start .default fun _ => none)

theorem chat_ring_said : RingKept nodeKey said := by
  have start : (Node.start .default fun _ => none : Node Unit Nat Unit Unit).closing = false := rfl
  obtain ⟨es, run⟩ := publishes_runs start
    [(0, .answered true), (1, .answered true), (2, .failed false), (3, .answered true)]
  exact chat_ring run

/-- The item of this node's message in a slot. -/
def itemAt (node : Node Unit Nat Unit Unit) (j : Nat) : Option Nat :=
  (node.ring.record (memberBaseSubkey nodeKey + j)).bind
    (Sum.elim (fun m => some m.pending.item) fun _ => none)

/-- The fourth message is written over the second, the last answered before
it, and the first one stays. -/
theorem fourth_over_second :
    (∃ es, Trail (Steps () nodeKey .default) (.start .default fun _ => none) es said) ∧
      ∃ earlier m, said.acts = earlier ++ [.publish m (.answered true)] ∧
        ¬ KeepsLast (memberBaseSubkey nodeKey) said.ring earlier m := by
  have start : (Node.start .default fun _ => none : Node Unit Nat Unit Unit).closing = false := rfl
  refine ⟨publishes_runs start _, said.acts.take 3, ⟨0, ⟨3, 0, 0, .chat, .ring, none, 3, none⟩⟩, rfl,
    fun both => ?_⟩
  obtain ⟨j, hj, held⟩ := both.2 ⟨0, ⟨1, 0, 0, .chat, .ring, none, 1, none⟩⟩ rfl
  have gone : ∀ j < ringDepth, itemAt said j ≠ some 1 := by decide
  refine gone j hj ?_
  rw [itemAt, held]
  rfl

end Daemonseed.Net.ChatRing
