import Daemonseed.Dm.Agreement

/-! # Which root a message's key comes from

A direction's messages, from its first one, run through its turns in order:
the turn number a message carries says how deep its root lies under the
seed, and two messages of one turn share their root. Its writer stands at
the last message sealed, its reader at the last one opened. -/
namespace Daemonseed.Dm.Roots
open Daemonseed.Dm.Primitives Daemonseed.Dm.Channel Daemonseed.Dm.Chain Daemonseed.Dm.Session
open Daemonseed.Dm.Places Daemonseed.Dm.Separation Daemonseed.Dm.Agreement Daemonseed.Lib.Runs

variable {B : Type} {C : Crypto B} {ss0 : B}

/-- Where the direction `p` writes starts: the acceptor has no chain yet. -/
def origin (C : Crypto B) (ss0 : B) : Role → Schedule B
  | .initiator => ⟨seedRoot C ss0, some (chainFromRoot C (seedRoot C ss0)), 0⟩
  | .acceptor => ⟨seedRoot C ss0, none, 0⟩

/-- How many turns from the seed turn `n` of a direction is: the acceptor's
turn 0 is a turn like every other. -/
def depthOf : Role → Nat → Nat
  | .initiator, n => n
  | .acceptor, n => n + 1

/-- One message of the direction `p` writes. -/
def FollowsIn (C : Crypto B) (ss0 : B) (p : Role) (a : Schedule B) (s : Sealing B)
    (b : Schedule B) : Prop :=
  Follows C a s b ∧ (a.root = seedRoot C ss0 → s.minted.isSome →
    s.peerSs.isSome = decide (p = .initiator))

/-- A schedule whose turn number is its depth. -/
def Numbered (C : Crypto B) (ss0 : B) (p : Role) (a : Schedule B) : Prop :=
  a.chain.isSome ∧ Lineage C ss0 p (depthOf p a.n) a.root ∨ a = origin C ss0 p

/-- A later message of a direction is of the same turn and root, or of a
later turn. -/
def Later (n : Nat) (root : B) (s : Sealing B) : Prop := n ≤ s.n ∧ (s.n = n → s.root = root)

theorem follows_numbered {p : Role} {a b : Schedule B} {s : Sealing B} (ha : Numbered C ss0 p a)
    (h : FollowsIn C ss0 p a s b) :
    Lineage C ss0 p (depthOf p s.n) s.root ∧ (a.chain.isSome → Later a.n a.root s) := by
  obtain ⟨⟨made, _⟩, mixes⟩ := h
  cases made with
  | continues ck chain key next root n =>
    refine ⟨?_, fun _ => ⟨n ▸ Nat.le_refl _, fun _ => root⟩⟩
    rw [root, n]
    rcases ha with ⟨_, hl⟩ | rfl
    · exact hl
    · cases p with
      | initiator => exact .seed
      | acceptor => cases chain
  | starts peer d z m peerPk root key next n ct pk minted =>
    have mixes' := fun seed => mixes seed (by simp [minted])
    rcases ha with ⟨hc, hl⟩ | rfl
    · simp only [hc, if_true] at n
      refine ⟨?_, fun _ => ⟨by omega, fun he => by omega⟩⟩
      rw [root, n]
      have := hl.advance s.peerSs (C.encapsulate peer m).1 mixes'
      cases p <;> exact this
    · have first : Lineage C ss0 p 1
          (advanceRoot C (seedRoot C ss0) s.peerSs (C.encapsulate peer m).1) :=
        .first _ _ (mixes' (by cases p <;> rfl))
      cases p with
      | initiator =>
        simp only [origin, Option.isSome_some, if_true] at n
        refine ⟨?_, fun _ => ⟨by simp [origin], fun he => by simp [origin] at he; omega⟩⟩
        rw [root, n]
        exact first
      | acceptor =>
        simp only [origin, Option.isSome_none, Bool.false_eq_true, if_false] at n
        refine ⟨?_, fun hc => by simp [origin] at hc⟩
        rw [root, n]
        exact first

theorem follows_after {p : Role} {a b : Schedule B} {s : Sealing B} (ha : Numbered C ss0 p a)
    (h : FollowsIn C ss0 p a s b) : b = s.after ∧ Numbered C ss0 p s.after :=
  ⟨h.1.2, .inl ⟨rfl, (follows_numbered ha h).1⟩⟩

/-- **Along a direction turn numbers only grow, and with them the depth of
the root.** -/
theorem trail_order {p : Role} {a b : Schedule B} {xs : List (Sealing B)}
    (h : Trail (FollowsIn C ss0 p) a xs b) (ha : Numbered C ss0 p a) :
    xs.Pairwise (fun s t => Later s.n s.root t) ∧
      (∀ s ∈ xs, Lineage C ss0 p (depthOf p s.n) s.root ∧ (a.chain.isSome → Later a.n a.root s)) ∧
      b = xs.getLast?.elim a Sealing.after := by
  induction h with
  | nil => exact ⟨.nil, by simp, rfl⟩
  | @cons a t u s rest head tail ih =>
    obtain ⟨rfl, hafter⟩ := follows_after ha head
    obtain ⟨hl, hlater⟩ := follows_numbered ha head
    obtain ⟨hpair, hrest, hlast⟩ := ih hafter
    have hfrom : ∀ t ∈ rest, Later s.n s.root t := fun t ht => (hrest t ht).2 rfl
    refine ⟨List.pairwise_cons.mpr ⟨hfrom, hpair⟩, ?_, ?_⟩
    · intro t ht
      rcases List.mem_cons.mp ht with rfl | ht
      · exact ⟨hl, hlater⟩
      · refine ⟨(hrest t ht).1, fun hc => ?_⟩
        obtain ⟨hn, hr⟩ := hlater hc
        obtain ⟨hn', hr'⟩ := hfrom t ht
        exact ⟨by omega, fun he => (hr' (by omega)).trans (hr (by omega))⟩
    · rw [hlast, List.getLast?_cons]
      cases rest.getLast? <;> rfl

/-- What a run keeps of the direction `p` writes, from its origin on. -/
structure Spine (C : Crypto B) (ss0 : B) (w : World B) (p : Role) : Prop where
  full : Trail (FollowsIn C ss0 p) (origin C ss0 p) ((w.sent p).map (·.sealing))
    (w.conv p).sending.schedule
  read : (w.conv p.peer).receiving.schedule =
    ((w.sent p).take (w.conv p.peer).receiving.nextSeq).getLast?.elim (origin C ss0 p)
      (·.sealing.after)

theorem started_spine {w : World B} (h : Started C ss0 w) (p : Role) : Spine C ss0 w p := by
  obtain ⟨d, z, rfl⟩ := started_iff.mp h
  cases p with
  | initiator => exact ⟨.nil _, rfl⟩
  | acceptor => exact ⟨.nil _, rfl⟩

theorem next_spine (inj : HkdfInjective C) (kem : KemCorrect C) {w : World B} {e : Event B}
    (h : ∀ p, Agreed C ss0 w p) (spine : ∀ p, Spine C ss0 w p) (genuine : e.Genuine C w)
    (p : Role) : Spine C ss0 (next C w e) p := by
  have back (q : Role) : (w.conv q).receiving.schedule =
      ((w.sent q.peer).take (w.conv q).receiving.nextSeq).getLast?.elim (origin C ss0 q.peer)
        (·.sealing.after) := by simpa using (spine q.peer).read
  generalize hw : next C w e = w'
  cases hw ▸ next_moves (C := C) w e with
  | stays e cursor =>
    rcases e.side.eq_or_peer p with rfl | rfl
    · refine ⟨?_, ?_⟩
      · simpa [Direction.setCursor, Direction.schedule] using (spine e.side).full
      · simpa using (spine e.side).read
    · refine ⟨?_, ?_⟩
      · simpa using (spine e.side.peer).full
      · simpa using back e.side
  | forces q =>
    rcases q.eq_or_peer p with rfl | rfl
    · refine ⟨?_, ?_⟩
      · simpa [Direction.forceNextTurn, Direction.schedule] using (spine p).full
      · simpa using (spine p).read
    · refine ⟨?_, ?_⟩
      · simpa using (spine q.peer).full
      · simpa using back q
  | seals q body deviceId fill nonce s hs =>
    obtain ⟨hsched, hnext, _⟩ := sealed_receiving (w.conv q) s
    rcases q.eq_or_peer p with rfl | rfl
    · have hle := (h p).linked.next_le
      refine ⟨?_, ?_⟩
      · rw [push_conv, setConv_self, push_self, List.map_append, List.map_singleton]
        exact (spine p).full.snoc ⟨⟨Conversation.prepare_made hs, rfl⟩, fun seed hm =>
          (h p).separated.rooted.mixes hs seed (made_peerPk (prepare_ok hs).made hm)⟩
      · rw [push_conv, setConv_peer, push_self, setConv_sent, List.take_append_of_le_length hle]
        exact (spine p).read
    · refine ⟨?_, ?_⟩
      · simpa using (spine q.peer).full
      · simp only [push_conv, Role.peer_peer, setConv_self, push_peer, setConv_sent, hsched, hnext]
        exact back q
  | opens q header ciphertext body r hseq hr hopen =>
    rcases q.eq_or_peer p with rfl | rfl
    · refine ⟨?_, ?_⟩
      · simpa using (spine p).full
      · simpa using (spine p).read
    · obtain ⟨x, hx, rfl, _, _⟩ := opens_head inj h genuine hseq hr hopen
      have link := (h q.peer).back
      obtain ⟨r', hr', _, hsched, _⟩ := link.reads kem (h q).half hx (link.kept hx hr)
      obtain rfl := Except.ok.inj (hr'.symm.trans hr)
      refine ⟨?_, ?_⟩
      · simpa using (spine q.peer).full
      · have htake : (w.sent q.peer).take ((w.conv q).receiving.nextSeq + 1) =
            (w.sent q.peer).take (w.conv q).receiving.nextSeq ++ [x] := by
          rw [List.take_add_one, hx, Option.toList_some]
        have hcommit : ((w.conv q).receiving.commit C x.sealing.header r').nextSeq =
            (w.conv q).receiving.nextSeq + 1 := rfl
        simp only [Role.peer_peer, setConv_self, setConv_sent, hsched, hcommit, htake]
        simp

theorem run_spine (inj : HkdfInjective C) (kem : KemCorrect C) {w₀ w : World B}
    {es : List (Event B)} (start : Started C ss0 w₀) (run : Trail (GenuineSteps C) w₀ es w) :
    (∀ p, Agreed C ss0 w p) ∧ ∀ p, Spine C ss0 w p := by
  refine run.invariant (I := fun w => (∀ p, Agreed C ss0 w p) ∧ ∀ p, Spine C ss0 w p) ?_
    ⟨started_agreed start, started_spine start⟩
  rintro v e _ ⟨agreed, spine⟩ ⟨genuine, rfl⟩
  exact ⟨next_agreed inj kem agreed genuine, next_spine inj kem agreed spine genuine⟩

/-! ## What a spine says -/

theorem origin_numbered (p : Role) : Numbered C ss0 p (origin C ss0 p) := .inr rfl

/-- The root of a sent message lies as deep as its turn number says. -/
theorem Spine.depth {w : World B} {p : Role} (h : Spine C ss0 w p) {x : Sent B}
    (hx : x ∈ w.sent p) : Lineage C ss0 p (depthOf p x.sealing.n) x.sealing.root :=
  ((trail_order h.full (origin_numbered p)).2.1 _ (List.mem_map_of_mem hx)).1

/-- How a sent message was made. -/
theorem Spine.made {w : World B} {p : Role} (h : Spine C ss0 w p) {x : Sent B}
    (hx : x ∈ w.sent p) : ∃ a, Made C a x.sealing := by
  obtain ⟨i, hi⟩ := List.getElem?_of_mem (List.mem_map_of_mem (f := (·.sealing)) hx)
  obtain ⟨a, _, _, follows, _⟩ := h.full.at_index hi
  exact ⟨a, follows.1.1⟩

theorem Spine.pairwise {w : World B} {p : Role} (h : Spine C ss0 w p) :
    (w.sent p).Pairwise fun x y => Later x.sealing.n x.sealing.root y.sealing :=
  List.pairwise_map.mp (trail_order h.full (origin_numbered p)).1

/-- In a prefix of the messages, none is of a later turn than the last. -/
theorem le_last {xs : List (Sent B)}
    (h : xs.Pairwise fun x y => Later x.sealing.n x.sealing.root y.sealing) {x last : Sent B}
    (hx : x ∈ xs) (hl : xs.getLast? = some last) :
    x.sealing.n ≤ last.sealing.n ∧
      (x.sealing.n = last.sealing.n → x.sealing.root = last.sealing.root) := by
  obtain ⟨ys, rfl⟩ := List.getLast?_eq_some_iff.mp hl
  rw [List.mem_append, List.mem_singleton] at hx
  rcases hx with hx | rfl
  · obtain ⟨hn, hr⟩ := (List.pairwise_append.mp h).2.2 x hx last (by simp)
    exact ⟨hn, fun he => (hr he.symm).symm⟩
  · exact ⟨Nat.le_refl _, fun _ => rfl⟩

/-- The writer is at the turn of the last message it sealed. -/
theorem Spine.current {w : World B} {p : Role} (h : Spine C ss0 w p) {x : Sent B}
    (hx : x ∈ w.sent p) : x.sealing.n ≤ (w.conv p).sending.n ∧
      (x.sealing.n = (w.conv p).sending.n → x.sealing.root = (w.conv p).sending.root) := by
  have hlast := List.getLast?_eq_some_getLast (List.ne_nil_of_mem hx)
  generalize List.getLast _ _ = last at hlast
  have hsched := (trail_order h.full (origin_numbered p)).2.2
  rw [List.getLast?_map, hlast] at hsched
  have hn : (w.conv p).sending.n = last.sealing.n := congrArg Schedule.n hsched
  have hr : (w.conv p).sending.root = last.sealing.root := congrArg Schedule.root hsched
  rw [hn, hr]
  exact le_last h.pairwise hx hlast

/-- The reader is at the turn of the last message it opened. -/
theorem Spine.reading {w : World B} {p : Role} (h : Spine C ss0 w p) {x : Sent B}
    (hx : x ∈ (w.sent p).take (w.conv p.peer).receiving.nextSeq) :
    x.sealing.n ≤ (w.conv p.peer).receiving.n ∧
      (x.sealing.n = (w.conv p.peer).receiving.n →
        x.sealing.root = (w.conv p.peer).receiving.root) := by
  have hlast := List.getLast?_eq_some_getLast (List.ne_nil_of_mem hx)
  generalize List.getLast _ _ = last at hlast
  have hsched := h.read
  rw [hlast] at hsched
  have hn : (w.conv p.peer).receiving.n = last.sealing.n := congrArg Schedule.n hsched
  have hr : (w.conv p.peer).receiving.root = last.sealing.root := congrArg Schedule.root hsched
  rw [hn, hr]
  exact le_last (h.pairwise.sublist (List.take_sublist _ _)) hx hlast

/-- The depth a schedule of the direction is at. -/
theorem Spine.writes {w : World B} {p : Role} (h : Spine C ss0 w p) :
    Numbered C ss0 p (w.conv p).sending.schedule := by
  have hsched := (trail_order h.full (origin_numbered p)).2.2
  cases hl : (w.sent p).getLast? with
  | none =>
    rw [List.getLast?_map, hl] at hsched
    exact .inr hsched
  | some x =>
    rw [List.getLast?_map, hl] at hsched
    exact hsched ▸ .inl ⟨rfl, h.depth (List.mem_of_getLast? hl)⟩

theorem Spine.reads {w : World B} {p : Role} (h : Spine C ss0 w p) :
    Numbered C ss0 p (w.conv p.peer).receiving.schedule := by
  have hsched := h.read
  cases hl : ((w.sent p).take (w.conv p.peer).receiving.nextSeq).getLast? with
  | none =>
    rw [hl] at hsched
    exact .inr hsched
  | some x =>
    rw [hl] at hsched
    exact hsched ▸ .inl ⟨rfl, h.depth (List.mem_of_mem_take (List.mem_of_getLast? hl))⟩

end Daemonseed.Dm.Roots
