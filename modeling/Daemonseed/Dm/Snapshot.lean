import Daemonseed.Dm.Roots
import Daemonseed.Dm.Attacker

/-! # What a snapshot and the wire hold

The byte strings of one side's snapshot, by where they come from: the roots
its halves are at, a chain key of one of these, the turns it retains, and
what it last read of the peer. The draws of a run are taken fresh: each is a
random value no other draw is. -/
namespace Daemonseed.Dm.Snapshot
open Daemonseed.Dm.Primitives Daemonseed.Dm.Channel Daemonseed.Dm.Chain Daemonseed.Dm.Session
open Daemonseed.Dm.Places Daemonseed.Dm.Separation Daemonseed.Dm.Agreement Daemonseed.Dm.Roots
open Daemonseed.Dm.Symbolic Daemonseed.Dm.Attacker Daemonseed.Lib.Runs

variable {B : Type} {C : Crypto B} {ss0 : B}

def turnBytes (t : OwnTurn B) : List B := t.keypair.pk :: t.keypair.dk :: t.ss.toList

def directionBytes (s : DirectionState B) : List B :=
  s.root :: (s.chain.toList ++ s.peerPk.toList ++ s.peerSs.toList ++
    s.pendingTurn.toList.flatMap turnBytes)

def receivingBytes (s : ReceivingState B) : List B :=
  s.root :: (s.chain.toList ++ (s.ownTurns.1.toList ++ s.ownTurns.2.toList).flatMap turnBytes ++
    s.peerLatest.toList.flatMap fun t => t.pk :: t.ss.toList)

/-- Every byte string of a snapshot. Its numbers and its flag are no secret. -/
def snapshotBytes (s : ConversationSnapshot B) : List B :=
  directionBytes s.sending ++ receivingBytes s.receiving

/-- What an attacker has who is given one side's snapshot and every header
and ciphertext either side ever sent. -/
def Knows (w : World Term) (p : Role) (t : Term) : Prop :=
  t ∈ snapshotBytes (w.conv p).snapshot ∨
    ∃ q, ∃ x ∈ w.sent q, t = pieces x.sealing.header.encode ∨ t = x.ciphertext

/-! ## Where the bytes of a snapshot come from -/

/-- The origins of what a snapshot holds. -/
inductive Held (C : Crypto B) (ss0 : B) (w : World B) (p : Role) : B → Prop
  | root (r : B) (h : r = (w.conv p).sending.root ∨ r = (w.conv p).receiving.root) :
      Held C ss0 w p r
  | chain (r : B) (j : Nat) (h : r = (w.conv p).sending.root ∨ r = (w.conv p).receiving.root) :
      Held C ss0 w p (chainAt C r j)
  | own (u : OwnTurn B) (h : Retains (w.conv p).receiving u) (t : B) (ht : t ∈ turnBytes u) :
      Held C ss0 w p t
  | peerPk (u : OwnTurn B) (h : u ∈ w.turns p.peer) : Held C ss0 w p u.keypair.pk
  /-- The acceptor has no secret of the initiator's before it has read one. -/
  | peerSs (u : OwnTurn B) (h : u ∈ w.turns p.peer) (s : B) (hs : u.ss = some s)
      (read : p = .acceptor → (w.conv p).receiving.root ≠ seedRoot C ss0) : Held C ss0 w p s

/-- What the sending half holds of the peer is of one of the peer's turns. -/
theorem held_peer {w : World B} (h : ∀ p, Agreed C ss0 w p) (p : Role) :
    (∀ pk, (w.conv p).sending.peerPk = some pk → Held C ss0 w p pk) ∧
      ∀ s, (w.conv p).sending.peerSs = some s → Held C ss0 w p s := by
  have link := (h p.peer).back
  cases hm : (w.conv p).sending.mSeen with
  | none =>
    obtain ⟨hpk, hss⟩ := link.unheld hm
    simp [hpk, hss]
  | some m =>
    obtain ⟨own, hown, _, hpk, hss⟩ := link.held m hm
    have hmem := List.mem_of_getElem? hown
    refine ⟨fun pk h' => ?_, fun s h' => ?_⟩
    · rw [hpk] at h'
      exact Option.some.inj h' ▸ .peerPk own hmem
    · refine .peerSs own hmem s (hss.symm.trans h') fun hp seed => ?_
      have := ((h p).separated.rooted.untaught hp seed).2
      rw [this] at h'
      cases h'

theorem held_of_mem {w : World B} (h : ∀ p, Agreed C ss0 w p) {p : Role} {t : B}
    (ht : t ∈ snapshotBytes (w.conv p).snapshot) : Held C ss0 w p t := by
  obtain ⟨_, _, writes⟩ := (h p).separated.rooted.writes
  obtain ⟨_, _, reads⟩ := (h p).separated.rooted.reads
  simp only [snapshotBytes, directionBytes, receivingBytes, Conversation.snapshot,
    (h p).half.settled, List.mem_append, List.mem_cons, List.mem_flatMap, Option.mem_toList,
    Option.toList_none, List.flatMap_nil, List.not_mem_nil, or_false] at ht
  rcases ht with (rfl | (hc | hpk) | hss) | rfl | (hc | ⟨u, hu, hut⟩) | ⟨v, hv, hvt⟩
  · exact .root _ (.inl rfl)
  · rw [(writes.chain_of hc).1]
    exact .chain _ _ (.inl rfl)
  · exact (held_peer h p).1 t hpk
  · exact (held_peer h p).2 t hss
  · exact .root _ (.inr rfl)
  · rw [(reads.chain_of hc).1]
    exact .chain _ _ (.inr rfl)
  · exact .own u hu t hut
  · obtain ⟨own, hown, rfl⟩ := (h p.peer).back.latest v hv
    have hmem := List.mem_of_getElem? hown
    rcases hvt with rfl | hss
    · exact .peerPk own hmem
    · refine .peerSs own hmem t hss fun hp seed => ?_
      have := ((h p).separated.rooted.untaught hp seed).1 _ hv
      rw [this] at hss
      cases hss

/-! ## Every turn a side minted, and the draws it took -/

/-- The turns a side minted are those its messages started, after the one it
was opened with. -/
theorem turns_ledger {w₀ w : World B} {es : List (Event B)} (start : Started C ss0 w₀)
    (run : Trail (Steps C) w₀ es w) (p : Role) :
    w.turns p = w₀.turns p ++ (w.sent p).filterMap (·.sealing.minted) := by
  refine run.invariant (I := fun w => ∀ p, w.turns p = w₀.turns p ++
    (w.sent p).filterMap (·.sealing.minted)) ?_ (fun p => ?_) p
  · rintro v e _ h rfl p
    generalize hv : next C v e = v'
    cases hv ▸ next_moves (C := C) v e with
    | stays | forces | opens => exact h p
    | seals q body deviceId fill nonce s hs =>
      rcases q.eq_or_peer p with rfl | rfl
      · rw [push_turns_self, push_self, setConv_turns, setConv_sent, h p, List.filterMap_append,
          List.append_assoc]
        cases hm : s.minted <;> simp [hm]
      · rw [push_turns_peer, push_peer]
        exact h _
  · obtain ⟨d, z, rfl⟩ := started_iff.mp start
    simp [World.start]

/-- What an event's fill function answered. -/
def draws : Event Term → List Term
  | .sealMessage _ _ _ fill _ => fill.reduceOption
  | _ => []

/-- A seal of public bytes under a public nonce, drawing random values. -/
def Plain (e : Event Term) : Prop :=
  (∀ t ∈ draws e, ∃ i, t = .rand i) ∧
    ∀ p body deviceId fill nonce, e = .sealMessage p body deviceId fill (some nonce) →
      ∃ i j, body = .data i ∧ nonce = .data j

/-- The draws of a run from the hello on: random values, none drawn twice. -/
structure Fresh (ss0 d z : Nat) (es : List (Event Term)) : Prop where
  plain : ∀ e ∈ es, Plain e
  nodup : (.rand ss0 :: .rand d :: .rand z :: es.flatMap draws).Nodup

/-- What is sent in a run of plain events shows public bytes only. -/
theorem plain_sent {s₀ : Term} {w₀ w : World Term} {es : List (Event Term)}
    (start : Started symbolic s₀ w₀)
    (run : Trail (Steps symbolic) w₀ es w) (plain : ∀ e ∈ es, Plain e) (p : Role) :
    ∀ x ∈ w.sent p, ∃ k i a j, x.ciphertext = .aead k (.data i) a (.data j) := by
  refine run.invariant_on (I := fun w => ∀ p, ∀ x ∈ w.sent p, ∃ k i a j,
    x.ciphertext = .aead k (.data i) a (.data j)) ?_ plain (fun p => ?_) p
  · rintro v e _ hplain h rfl p
    generalize hv : next symbolic v e = v'
    cases hv ▸ next_moves (C := symbolic) v e with
    | stays | forces | opens => exact h p
    | seals q body deviceId fill nonce s hs =>
      rcases q.eq_or_peer p with rfl | rfl
      · intro x hx
        rw [push_self, List.mem_append, List.mem_singleton] at hx
        rcases hx with hx | rfl
        · exact h p x hx
        · obtain ⟨i, j, rfl, rfl⟩ := hplain.2 p body deviceId fill nonce rfl
          exact ⟨_, j, _, i, rfl⟩
      · rw [push_peer]
        exact h _
  · obtain ⟨d, z, rfl⟩ := started_iff.mp start
    simp [World.start]

/-- The turns of both sides, from the values drawn so far: no two share a
secret half or a shared secret. -/
structure Drawn (used : List Term) (w : World Term) : Prop where
  random : ∀ t ∈ used, ∃ i, t = .rand i
  pair : ∀ p, ∀ t ∈ w.turns p, ∃ d z, t.keypair = ⟨.ek d z, .dk d z⟩ ∧ d ∈ used
  secret : ∀ p, ∀ t ∈ w.turns p, ∀ s, t.ss = some s → ∃ pk m, s = .ss pk m ∧ m ∈ used
  apart : ∀ {p q : Role} {i j : Nat} {t u : OwnTurn Term}, (w.turns p)[i]? = some t →
    (w.turns q)[j]? = some u → (p, i) ≠ (q, j) → t.keypair.dk ≠ u.keypair.dk ∧ t.ss ≠ u.ss

theorem Drawn.more {used more : List Term} {w w' : World Term} (h : Drawn used w)
    (hmore : ∀ t ∈ more, ∃ i, t = .rand i) (ht : w'.turns = w.turns) :
    Drawn (used ++ more) w' := by
  refine ⟨?_, ?_, ?_, ?_⟩
  · intro t ht
    exact (List.mem_append.mp ht).elim (h.random t) (hmore t)
  · intro p t hp
    obtain ⟨d, z, hk, hd⟩ := h.pair p t (ht ▸ hp)
    exact ⟨d, z, hk, List.mem_append_left _ hd⟩
  · intro p t hp s hs
    obtain ⟨pk, m, rfl, hm⟩ := h.secret p t (ht ▸ hp) s hs
    exact ⟨pk, m, rfl, List.mem_append_left _ hm⟩
  · rw [ht]
    exact h.apart

/-- A turn from values not drawn before shares nothing with an earlier one. -/
theorem Drawn.apart_new {used : List Term} {w : World Term} (h : Drawn used w) {x y pk m : Term}
    (hx : x ∉ used) (hm : m ∉ used) {q : Role} {u : OwnTurn Term} (hu : u ∈ w.turns q) :
    u.keypair.dk ≠ .dk x y ∧ u.ss ≠ some (.ss pk m) := by
  refine ⟨fun he => ?_, fun he => ?_⟩
  · obtain ⟨d, z, hk, hd⟩ := h.pair q u hu
    rw [hk] at he
    obtain ⟨rfl, _⟩ := Term.dk.inj he
    exact hx hd
  · obtain ⟨pk', m', hs, hm'⟩ := h.secret q u hu _ he
    obtain ⟨_, rfl⟩ := Term.ss.inj hs
    exact hm hm'

/-- A turn on the ledger after a seal was there before, or is the one the
seal minted, at the end of its side's. -/
theorem push_turns_cases {w : World B} {q p : Role} {x : Sent B} {turn t : OwnTurn B} {i : Nat}
    (hm : x.sealing.minted = some turn) (ht : ((w.push q x).turns p)[i]? = some t) :
    (w.turns p)[i]? = some t ∨ (p, i) = (q, (w.turns q).length) ∧ t = turn := by
  rcases q.eq_or_peer p with rfl | rfl
  · rw [push_turns_self, hm, Option.toList_some] at ht
    rcases Nat.lt_trichotomy i (w.turns p).length with hi | rfl | hi
    · rw [List.getElem?_append_left hi] at ht
      exact .inl ht
    · rw [List.getElem?_concat_length, Option.some.injEq] at ht
      exact .inr ⟨rfl, ht.symm⟩
    · rw [List.getElem?_eq_none (by simp; omega)] at ht
      cases ht
  · rw [push_turns_peer] at ht
    exact .inl ht

theorem Drawn.seals {used : List Term} {w : World Term} (h : Drawn used w) {q : Role} {x : Sent Term}
    {turn : OwnTurn Term} {a b pk m : Term} {rest : List Term} (hmint : x.sealing.minted = some turn)
    (hturn : turn.keypair = ⟨.ek a b, .dk a b⟩) (hss : turn.ss = some (.ss pk m))
    (random : ∀ t ∈ a :: b :: m :: rest, ∃ i, t = .rand i)
    (nodup : (used ++ a :: b :: m :: rest).Nodup) :
    Drawn (used ++ a :: b :: m :: rest) (w.push q x) := by
  have new : ∀ t ∈ a :: b :: m :: rest, t ∉ used := fun t ht hu =>
    (List.nodup_append.mp nodup).2.2 t hu t ht rfl
  have hnew : ∀ {p : Role} {u : OwnTurn Term}, u ∈ w.turns p →
      u.keypair.dk ≠ turn.keypair.dk ∧ u.ss ≠ turn.ss := fun hu => by
    rw [hturn, hss]
    exact h.apart_new (new a (by simp)) (new m (by simp)) hu
  have hcases : ∀ {p : Role} {t : OwnTurn Term}, t ∈ (w.push q x).turns p →
      t ∈ w.turns p ∨ t = turn := fun {p t} ht => by
    obtain ⟨i, hi⟩ := List.getElem?_of_mem ht
    exact (push_turns_cases hmint hi).imp List.mem_of_getElem? (·.2)
  refine ⟨?_, ?_, ?_, ?_⟩
  · intro t ht
    exact (List.mem_append.mp ht).elim (h.random t) (random t)
  · intro p t ht
    rcases hcases ht with ht | rfl
    · obtain ⟨d, z, hk, hd⟩ := h.pair p t ht
      exact ⟨d, z, hk, List.mem_append_left _ hd⟩
    · exact ⟨a, b, hturn, by simp⟩
  · intro p t ht s hs
    rcases hcases ht with ht | rfl
    · obtain ⟨pk', m', rfl, hm⟩ := h.secret p t ht s hs
      exact ⟨pk', m', rfl, List.mem_append_left _ hm⟩
    · exact ⟨pk, m, Option.some.inj (hs.symm.trans hss), by simp⟩
  · intro p p' i j t u ht hu ne
    rcases push_turns_cases hmint ht with ht | ⟨hp, rfl⟩ <;>
      rcases push_turns_cases hmint hu with hu | ⟨hp', rfl⟩
    · exact h.apart ht hu ne
    · exact hnew (List.mem_of_getElem? ht)
    · obtain ⟨hdk, hs⟩ := hnew (List.mem_of_getElem? hu)
      exact ⟨hdk.symm, hs.symm⟩
    · exact absurd (hp.trans hp'.symm) ne

theorem next_drawn {used : List Term} {w : World Term} {e : Event Term} (h : Drawn used w)
    (plain : Plain e) (nodup : (used ++ draws e).Nodup) :
    Drawn (used ++ draws e) (next symbolic w e) := by
  generalize hw : next symbolic w e = w'
  cases hw ▸ next_moves (C := symbolic) w e with
  | stays | forces | opens => exact h.more plain.1 rfl
  | seals q body deviceId fill nonce s hs =>
    have prepared := prepare_ok hs
    cases hm : s.minted with
    | none =>
      refine h.more plain.1 (funext fun p => ?_)
      rcases q.eq_or_peer p with rfl | rfl
      · simp [hm]
      · simp
    | some turn =>
      obtain ⟨a, b, peer, m, rest, hfill, _, _, hmint⟩ := prepared.drawn (by simp [hm])
      have hd : draws (.sealMessage q body deviceId fill (some nonce)) =
          a :: b :: m :: rest.reduceOption := by rw [draws, hfill]; rfl
      rw [hd] at nodup ⊢
      obtain rfl := Option.some.inj (hm.symm.trans hmint)
      exact Drawn.seals (w := w.setConv q _) ⟨h.random, h.pair, h.secret, h.apart⟩ hm rfl rfl
        (hd ▸ plain.1) nodup

/-- **No two turns of a fresh run share a secret.** -/
theorem run_drawn {used : List Term} {w₀ w : World Term} {es : List (Event Term)}
    (run : Trail (Steps symbolic) w₀ es w) (h : Drawn used w₀) (plain : ∀ e ∈ es, Plain e)
    (nodup : (used ++ es.flatMap draws).Nodup) : Drawn (used ++ es.flatMap draws) w := by
  induction run generalizing used with
  | nil => simpa using h
  | cons head tail ih =>
    obtain rfl := head
    simp only [List.forall_mem_cons] at plain
    simp only [List.flatMap_cons, ← List.append_assoc] at nodup ⊢
    exact ih (next_drawn h plain.1 (List.nodup_append.mp nodup).1) plain.2 nodup

theorem started_drawn (ss0 d z : Nat) :
    Drawn [.rand ss0, .rand d, .rand z]
      (.start symbolic (.rand ss0) (.rand d) (.rand z)) := by
  have only : ∀ {p : Role} {i : Nat} {t : OwnTurn Term},
      ((World.start symbolic (.rand ss0) (.rand d) (.rand z)).turns p)[i]? = some t →
        p = .initiator ∧ i = 0 ∧ t = ⟨0, ⟨.ek (.rand d) (.rand z), .dk (.rand d) (.rand z)⟩, none⟩ := by
    intro p i t ht
    cases p <;> cases i <;> simp_all [World.start, symbolic]
  refine ⟨by simp, ?_, ?_, ?_⟩
  · intro p t ht
    obtain ⟨i, hi⟩ := List.getElem?_of_mem ht
    obtain ⟨_, _, rfl⟩ := only hi
    exact ⟨_, _, rfl, by simp⟩
  · intro p t ht s hs
    obtain ⟨i, hi⟩ := List.getElem?_of_mem ht
    obtain ⟨_, _, rfl⟩ := only hi
    cases hs
  · intro p q i j t u ht hu ne
    obtain ⟨rfl, rfl, _⟩ := only ht
    obtain ⟨rfl, rfl, _⟩ := only hu
    exact absurd rfl ne

end Daemonseed.Dm.Snapshot
