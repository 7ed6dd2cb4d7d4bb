import Daemonseed.Net.FunnelSafety

/-! # What a queued write keeps of the one it replaces

Its class, its starvation clock and its deadline: how a request that replaces
queued writes of its id may come to wait longer than they would have. -/
namespace Daemonseed.Net.Superseding
open Daemonseed.Net.WriteFunnel

variable {R D ρ : Type}

/-- Where one has a deadline the other has one no later. -/
def NoLater (new old : Option Nat) : Prop := ∀ d ∈ old, ∃ d' ∈ new, d' ≤ d

/-- A write that is nowhere behind the one it replaces. -/
structure NotWeaker (new old : Pending D ρ) : Prop where
  cls : new.writeClass.rank ≤ old.writeClass.rank
  clock : new.starvedSince ≤ old.starvedSince
  deadline : NoLater new.deadline old.deadline

/-! ## What is inherited -/

/-- The clock and the class carried over are those of no weaker a write. -/
def Covers (c : Coalesced) (p : Pending D ρ) : Prop :=
  c.strongest.rank ≤ p.writeClass.rank ∧ c.starvedSince ≤ p.starvedSince

theorem strongestClass_le_left (a b : WriteClass) : (strongestClass a b).rank ≤ a.rank := by
  unfold strongestClass
  split <;> omega

theorem strongestClass_le_right (a b : WriteClass) : (strongestClass a b).rank ≤ b.rank := by
  unfold strongestClass
  split <;> omega

/-- What is inherited of one more write dropped. -/
def joined (acc : Option Coalesced) (p : Pending D ρ) : Coalesced :=
  match acc with
  | none => ⟨p.starvedSince, p.writeClass⟩
  | some acc => ⟨min acc.starvedSince p.starvedSince, strongestClass acc.strongest p.writeClass⟩

theorem coalesced_snoc (dropped : List (Pending D ρ)) (last : Pending D ρ) :
    coalesced (dropped ++ [last]) = some (joined (coalesced dropped) last) := by
  rw [coalesced, List.foldl_append]
  rfl

theorem coalesced_covers (dropped : List (Pending D ρ)) (some_ : dropped ≠ []) :
    ∃ c, coalesced dropped = some c ∧ ∀ p ∈ dropped, Covers c p := by
  induction dropped using List.reverseRecOn with
  | nil => exact absurd rfl some_
  | append_singleton before last ih =>
    rw [coalesced_snoc]
    refine ⟨_, rfl, fun p hp => ?_⟩
    by_cases first : before = []
    · subst first
      obtain rfl : p = last := by simpa using hp
      exact ⟨Nat.le_refl _, Nat.le_refl _⟩
    · obtain ⟨acc, sum, covers⟩ := ih first
      rw [sum]
      rcases List.mem_append.1 hp with earlier | now
      · obtain ⟨rank, clock⟩ := covers p earlier
        exact ⟨(strongestClass_le_left _ _).trans rank, (Nat.min_le_left _ _).trans clock⟩
      · obtain rfl := List.mem_singleton.1 now
        exact ⟨strongestClass_le_right _ _, Nat.min_le_right _ _⟩

/-! ## One enqueue -/

section

variable [DecidableEq R] (st : State R D ρ) (now : Nat) (req : WriteRequest R D ρ)

variable {st now req}

theorem pending_deadline : (st.pending now req).deadline = req.deadline := rfl

variable (now) in
/-- A current-state write inherits the class and the clock. -/
theorem pending_covers {p : Pending D ρ} (dropped : p ∈ st.dropped req)
    (kind : req.kind.isTombstone = false) :
    (st.pending now req).writeClass.rank ≤ p.writeClass.rank ∧
      (st.pending now req).starvedSince ≤ p.starvedSince := by
  obtain ⟨c, sum, covers⟩ := coalesced_covers _ (List.ne_nil_of_mem dropped)
  obtain ⟨rank, clock⟩ := covers p dropped
  unfold State.pending
  cases hk : req.kind with
  | ring =>
    have := (List.mem_filter.1 dropped).2
    simp [hk, WriteKind.supersedes] at this
  | currentState id =>
    simp only [sum, Option.map_some, Option.getD_some]
    exact ⟨(strongestClass_le_right _ _).trans rank, clock⟩
  | tombstone id => simp [hk, WriteKind.isTombstone] at kind

end

/-! ## What it is worth -/

theorem rank_inj {a b : WriteClass} (h : a.rank = b.rank) : a = b := by
  cases a <;> cases b <;> first | rfl | cases h

theorem rank_pos (c : WriteClass) : 1 ≤ c.rank := by cases c <;> decide

/-- A write nowhere behind another escalates no later, is due no later, and
comes of floor age no later where its class does not take longer to. -/
theorem NotWeaker.reaches {new old : Pending D ρ} (h : NotWeaker new old) (st : State R D ρ)
    (t : Nat) :
    st.effectiveRank new t ≤ st.effectiveRank old t ∧
      (old.deadline.any (· ≤ t) = true → new.deadline.any (· ≤ t) = true) ∧
      (st.floorAge new.writeClass ≤ st.floorAge old.writeClass →
        st.floorAge old.writeClass ≤ t - old.starvedSince →
          st.floorAge new.writeClass ≤ t - new.starvedSince) := by
  obtain ⟨cls, clock, deadline⟩ := h
  refine ⟨?_, fun due => ?_, fun shorter aged => by omega⟩
  · have := rank_pos new.writeClass
    unfold State.effectiveRank
    rcases Nat.lt_or_eq_of_le cls with stronger | same
    · dsimp only
      split <;> split <;> omega
    · rw [rank_inj same]
      dsimp only
      split <;> split <;> omega
  · obtain ⟨d, hd, passed⟩ := (Option.any_eq_true _ _).1 due
    obtain ⟨d', hd', earlier⟩ := deadline d hd
    rw [hd']
    simp only [decide_eq_true_eq] at passed
    simpa using earlier.trans passed

variable [DecidableEq R]

/-- An announcement waits that expires at 1000. -/
def announced : State Unit Unit Unit :=
  ((State.new .default).enqueue 0 ⟨(), .keepalive, .currentState "motd", some 1000, (), none⟩).1

def announcement : Pending Unit Unit :=
  ⟨0, 0, 0, .keepalive, .currentState "motd", some 1000, (), none⟩

def refresh : WriteRequest Unit Unit Unit :=
  ⟨(), .keepalive, .currentState "motd", some 5000, (), none⟩

def withdrawal : WriteRequest Unit Unit Unit :=
  ⟨(), .republish, .tombstone "motd", some 1000, (), none⟩

end Daemonseed.Net.Superseding
