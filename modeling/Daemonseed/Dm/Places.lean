import Daemonseed.Dm.Symbolic
import Daemonseed.Dm.Session

/-! # Every message key belongs to one place of one direction

Both directions start from one root under one set of labels. What keeps
their keys apart is the first root each of them advances to: the initiator
mixes a secret of the acceptor's into it, the acceptor has none to mix. From
there a key determines its direction, its depth from the seed and its
position in the chain, and no direction uses a place twice. -/
namespace Daemonseed.Dm.Places
open Daemonseed.Dm.Primitives Daemonseed.Dm.Channel Daemonseed.Dm.Chain Daemonseed.Dm.Session
open Daemonseed.Lib.Runs

variable {B : Type} {C : Crypto B} {ss0 : B}

/-! ## Roots by depth -/

/-- The roots of the direction `p` writes, by how many turns they are from
the seed. -/
inductive Lineage (C : Crypto B) (ss0 : B) (p : Role) : Nat → B → Prop
  | seed : Lineage C ss0 p 0 (seedRoot C ss0)
  | first (peerSs : Option B) (ownSs : B) (mixes : peerSs.isSome = decide (p = .initiator)) :
      Lineage C ss0 p 1 (advanceRoot C (seedRoot C ss0) peerSs ownSs)
  | later (k : Nat) (root : B) (peerSs : Option B) (ownSs : B) (h : Lineage C ss0 p (k + 1) root) :
      Lineage C ss0 p (k + 2) (advanceRoot C root peerSs ownSs)

theorem advanceRoot_inj (inj : HkdfInjective C) {r r' own own' : B} {peer peer' : Option B}
    (h : advanceRoot C r peer own = advanceRoot C r' peer' own') :
    r = r' ∧ peer = peer' ∧ own = own' := by
  obtain ⟨hr, hi, _⟩ := inj.hkdf_inj h
  simp only [List.cons.injEq, Piece.lp.injEq, Option.some.injEq, and_true] at hi
  exact ⟨hr, hi.1, hi.2⟩

theorem advanceRoot_ne_seedRoot (inj : HkdfInjective C) (r : B) (peer : Option B) (own : B) :
    advanceRoot C r peer own ≠ seedRoot C ss0 := by
  intro h
  have hi := (inj.hkdf_inj h).2.1
  simp at hi

namespace Lineage

theorem ne_seed (inj : HkdfInjective C) {p : Role} {k : Nat} {root : B}
    (h : Lineage C ss0 p (k + 1) root) : root ≠ seedRoot C ss0 := by
  cases h with
  | first | later => exact advanceRoot_ne_seedRoot inj _ _ _

/-- A root determines its depth and, past the seed, its direction. -/
theorem unique (inj : HkdfInjective C) {p q : Role} {k : Nat} {root : B}
    (h : Lineage C ss0 p k root) {l : Nat} (h' : Lineage C ss0 q l root) :
    k = l ∧ (k = 0 ∨ p = q) := by
  induction h generalizing l with
  | seed =>
    cases l with
    | zero => simp
    | succ l => exact absurd rfl (h'.ne_seed inj)
  | first peer own mixes =>
    generalize hr : advanceRoot C (seedRoot C ss0) peer own = root at h'
    cases h' with
    | seed => exact absurd hr (advanceRoot_ne_seedRoot inj _ _ _)
    | first peer' own' mixes' =>
      have hp := (advanceRoot_inj inj hr).2.1
      rw [hp, mixes'] at mixes
      refine ⟨rfl, .inr ?_⟩
      cases p <;> cases q <;> simp_all
    | later l root' _ _ h' =>
      exact absurd (advanceRoot_inj inj hr).1.symm (h'.ne_seed inj)
  | later k root₁ peer own h ih =>
    generalize hr : advanceRoot C root₁ peer own = root at h'
    cases h' with
    | seed => exact absurd hr (advanceRoot_ne_seedRoot inj _ _ _)
    | first peer' own' mixes' => exact absurd (advanceRoot_inj inj hr).1 (h.ne_seed inj)
    | later l root' _ _ h' =>
      obtain rfl := (advanceRoot_inj inj hr).1
      obtain ⟨hk, hp⟩ := ih h'
      exact ⟨by omega, .inr (hp.resolve_left (by omega))⟩

theorem eq_seed {p : Role} {root : B} (h : Lineage C ss0 p 0 root) : root = seedRoot C ss0 := by
  cases h
  rfl

theorem depth_eq_zero (inj : HkdfInjective C) {p : Role} {k : Nat} {root : B}
    (h : Lineage C ss0 p k root) (hs : root = seedRoot C ss0) : k = 0 :=
  (h.unique inj (hs ▸ seed (p := p))).1

/-- A turn takes a root one deeper. -/
theorem advance {p : Role} {k : Nat} {root : B} (h : Lineage C ss0 p k root) (peer : Option B)
    (own : B) (mixes : root = seedRoot C ss0 → peer.isSome = decide (p = .initiator)) :
    Lineage C ss0 p (k + 1) (advanceRoot C root peer own) := by
  cases h with
  | seed => exact .first peer own (mixes rfl)
  | first | later => exact .later _ _ _ _ (by constructor; assumption)

end Lineage

/-! ## Positions along a chain -/

/-- The chain key at position `j` of a turn. -/
def chainAt (C : Crypto B) (root : B) : Nat → B
  | 0 => chainFromRoot C root
  | j + 1 => (step C (chainAt C root j)).2

/-- The message key at position `j` of a turn. -/
def keyAt (C : Crypto B) (root : B) (j : Nat) : B := (step C (chainAt C root j)).1

theorem chainAt_inj (inj : HkdfInjective C) {root root' : B} :
    ∀ {j j' : Nat}, chainAt C root j = chainAt C root' j' → root = root' ∧ j = j'
  | 0, 0, h => by simpa using (inj.hkdf_inj h).2.1
  | 0, _ + 1, h | _ + 1, 0, h => by
    have := inj.label_inj (inj.hkdf_inj h).2.2
    cases this
  | j + 1, j' + 1, h => by
    have hi := (inj.hkdf_inj h).2.1
    simp only [List.cons.injEq, Piece.raw.injEq, and_true] at hi
    obtain ⟨hr, hj⟩ := chainAt_inj inj hi
    exact ⟨hr, by rw [hj]⟩

theorem keyAt_inj (inj : HkdfInjective C) {root root' : B} {j j' : Nat}
    (h : keyAt C root j = keyAt C root' j') : root = root' ∧ j = j' := by
  have hi := (inj.hkdf_inj h).2.1
  simp only [List.cons.injEq, Piece.raw.injEq, and_true] at hi
  exact chainAt_inj inj hi

/-- A key at a place of the direction `p` writes: `k` turns from the seed,
`j` messages into the turn. The acceptor has no chain at the seed. -/
structure Placed (C : Crypto B) (ss0 : B) (p : Role) (k j : Nat) (root key : B) : Prop where
  lineage : Lineage C ss0 p k root
  key_eq : key = keyAt C root j
  pos : p = .acceptor → 0 < k

/-- **A key determines its place.** -/
theorem Placed.unique (inj : HkdfInjective C) {p q : Role} {k j l i : Nat} {root root' key : B}
    (h : Placed C ss0 p k j root key) (h' : Placed C ss0 q l i root' key) :
    p = q ∧ k = l ∧ j = i := by
  obtain ⟨rfl, hj⟩ := keyAt_inj inj (h.key_eq.symm.trans h'.key_eq)
  obtain ⟨hk, hp⟩ := h.lineage.unique inj h'.lineage
  refine ⟨?_, hk, hj⟩
  rcases hp with hp | hp
  · have hpos := h.pos
    have hpos' := h'.pos
    cases p <;> cases q <;> simp_all
  · exact hp

/-! ## Where a direction is -/

/-- The schedule of the direction `p` writes is at a place: the next key is
the one at position `j`, `k` turns from the seed. -/
structure At (C : Crypto B) (ss0 : B) (p : Role) (k j : Nat) (s : Schedule B) : Prop where
  lineage : Lineage C ss0 p k s.root
  chain : s.chain = some (chainAt C s.root j) ∧ (p = .acceptor → 0 < k) ∨
    s.chain = none ∧ p = .acceptor ∧ k = 0 ∧ j = 0

/-- The next place, within the turn or at the start of the one after it. -/
def Beyond (k j k' j' : Nat) : Prop := k' = k ∧ j' = j ∨ k' = k + 1 ∧ j' = 0

/-- A chain held is the one at the schedule's place. -/
theorem At.chain_of {p : Role} {k j : Nat} {s : Schedule B} (h : At C ss0 p k j s) {ck : B}
    (hc : s.chain = some ck) : ck = chainAt C s.root j ∧ (p = .acceptor → 0 < k) := by
  rcases h.chain with ⟨hc', pos⟩ | ⟨hc', _⟩
  · exact ⟨Option.some.inj (hc.symm.trans hc'), pos⟩
  · rw [hc] at hc'
    cases hc'

theorem At.continues {p : Role} {k j : Nat} {s : Schedule B} (h : At C ss0 p k j s) {ck : B}
    (hc : s.chain = some ck) :
    Placed C ss0 p k j s.root (step C ck).1 ∧
      ∀ n, At C ss0 p k (j + 1) ⟨s.root, some (step C ck).2, n⟩ := by
  obtain ⟨rfl, pos⟩ := h.chain_of hc
  exact ⟨⟨h.lineage, rfl, pos⟩, fun n => ⟨h.lineage, .inl ⟨rfl, pos⟩⟩⟩

theorem At.starts {p : Role} {k j : Nat} {s : Schedule B} (h : At C ss0 p k j s)
    (peer : Option B) (own : B)
    (mixes : s.root = seedRoot C ss0 → peer.isSome = decide (p = .initiator)) {root : B}
    (hr : root = advanceRoot C s.root peer own) :
    Placed C ss0 p (k + 1) 0 root (step C (chainFromRoot C root)).1 ∧
      ∀ n, At C ss0 p (k + 1) 1 ⟨root, some (step C (chainFromRoot C root)).2, n⟩ := by
  subst hr
  have hl := h.lineage.advance peer own mixes
  exact ⟨⟨hl, rfl, fun _ => by omega⟩, fun n => ⟨hl, .inl ⟨rfl, fun _ => by omega⟩⟩⟩

/-- A sealed message is at the place its direction was at. -/
theorem At.made {p : Role} {k j : Nat} {a : Schedule B} {s : Sealing B} (h : At C ss0 p k j a)
    (made : Made C a s)
    (mixes : a.root = seedRoot C ss0 → s.minted.isSome →
      s.peerSs.isSome = decide (p = .initiator)) :
    ∃ k' j', Beyond k j k' j' ∧ Placed C ss0 p k' j' s.root s.key ∧
      At C ss0 p k' (j' + 1) s.after := by
  cases made with
  | continues ck chain key next root n =>
    obtain ⟨hplaced, hafter⟩ := h.continues chain
    refine ⟨k, j, .inl ⟨rfl, rfl⟩, ?_, ?_⟩
    · rw [root, key]; exact hplaced
    · rw [Sealing.after, root, next]; exact hafter _
  | starts peer d z m peerPk root key next n ct pk minted =>
    obtain ⟨hplaced, hafter⟩ := h.starts s.peerSs _ (fun hs => mixes hs (by simp [minted])) root
    refine ⟨k + 1, 0, .inr ⟨rfl, rfl⟩, ?_, ?_⟩
    · rw [key]; exact hplaced
    · rw [Sealing.after, next]; exact hafter _

/-- At the seed root, no turn has been started. -/
theorem At.root_eq_seed (inj : HkdfInjective C) {p : Role} {k j : Nat} {s : Schedule B}
    (h : At C ss0 p k j s) (hs : s.root = seedRoot C ss0) : k = 0 :=
  h.lineage.depth_eq_zero inj hs

theorem At.unique (inj : HkdfInjective C) {p : Role} {k j l i : Nat} {s : Schedule B}
    (h : At C ss0 p k j s) (h' : At C ss0 p l i s) : k = l ∧ j = i := by
  have hk := (h.lineage.unique inj h'.lineage).1
  refine ⟨hk, ?_⟩
  rcases h.chain with ⟨hc, _⟩ | ⟨hc, _, _, hj⟩ <;> rcases h'.chain with ⟨hc', _⟩ | ⟨hc', _, _, hi⟩
  · exact (chainAt_inj inj (Option.some.inj (hc.symm.trans hc'))).2
  · rw [hc] at hc'; cases hc'
  · rw [hc] at hc'; cases hc'
  · omega

end Daemonseed.Dm.Places
