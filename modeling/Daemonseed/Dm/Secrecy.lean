import Mathlib.Data.List.ReduceOption
import Daemonseed.Dm.Resets
import Daemonseed.Dm.Snapshot

/-! # What a snapshot gives away

A half keeps the root of the turn it is in, and that root is every key of
the turn. Of the turns before it nothing is left: a root runs forwards only,
and the secrets mixed into it are gone. What remains are the two ends of the
seed root, which each side holds until it has seen a turn of the other's. -/
namespace Daemonseed.Dm.Secrecy
open Daemonseed.Dm.Primitives Daemonseed.Dm.Channel Daemonseed.Dm.Chain Daemonseed.Dm.Session
open Daemonseed.Dm.Places Daemonseed.Dm.Separation Daemonseed.Dm.Agreement Daemonseed.Dm.Roots
open Daemonseed.Dm.Symbolic Daemonseed.Dm.Attacker Daemonseed.Dm.Snapshot Daemonseed.Dm.Resets
open Daemonseed.Lib.Runs

/-! ## Roots above roots -/

variable {B : Type} {C : Crypto B} {seed : B}

/-- `r` is a root the other was advanced from, or the root itself. -/
inductive Above (C : Crypto B) (r : B) : B → Prop
  | refl : Above C r r
  | turn (root : B) (peer : Option B) (own : B) (h : Above C r root) :
      Above C r (advanceRoot C root peer own)

theorem above_seed {p : Role} {k : Nat} {root : B} (h : Lineage C seed p k root) :
    Above C (seedRoot C seed) root := by
  induction h with
  | seed => exact .refl
  | first peer own => exact .turn _ peer own .refl
  | later k root peer own _ ih => exact .turn root peer own ih

/-- The roots above one of a direction are of that direction, no deeper. -/
theorem Above.lineage (inj : HkdfInjective C) {p : Role} {r root : B} (h : Above C r root) :
    ∀ {k : Nat}, Lineage C seed p k root → ∃ l, l ≤ k ∧ Lineage C seed p l r := by
  induction h with
  | refl => exact fun hl => ⟨_, Nat.le_refl _, hl⟩
  | turn root peer own _ ih =>
    intro k hl
    generalize hr : advanceRoot C root peer own = root' at hl
    cases hl with
    | seed => exact absurd hr (advanceRoot_ne_seedRoot inj _ _ _)
    | first =>
      obtain rfl := (advanceRoot_inj inj hr).1
      obtain ⟨l, hle, hl⟩ := ih .seed
      exact ⟨l, by omega, hl⟩
    | later k root₁ _ _ hl =>
      obtain rfl := (advanceRoot_inj inj hr).1
      obtain ⟨l, hle, hl⟩ := ih hl
      exact ⟨l, by omega, hl⟩

/-- A direction's roots stay under the one it is at. -/
theorem trail_above {base : B} {p : Role} {a b : Schedule B} {xs : List (Sealing B)}
    (h : Trail (FollowsIn C seed p) a xs b) (ha : Above C base a.root) :
    ∀ s ∈ xs, Above C base s.root := by
  induction h with
  | nil => simp
  | @cons a _ _ s _ head _ ih =>
    obtain ⟨⟨made, rfl⟩, _⟩ := head
    have hs : Above C base s.root := by
      cases made with
      | continues ck chain key next root => exact root ▸ ha
      | starts peer d z m peerPk root => exact root ▸ .turn _ _ _ ha
    exact List.forall_mem_cons.mpr ⟨hs, ih hs⟩

/-- A root is exposed by a root above it, back to where one starts looking. -/
theorem exposed_above {S : Term → Prop} {base root : Term} (h : Above symbolic base root)
    (he : Exposed S root) :
    (∃ r, Above symbolic base r ∧ Above symbolic r root ∧ S r) ∨ Exposed S base := by
  induction h with
  | refl => exact .inr he
  | turn root peer own h ih =>
    rcases exposed_advanceRoot he with hS | ⟨hroot, _⟩
    · exact .inl ⟨_, .turn root peer own h, .refl, hS⟩
    · exact (ih hroot).imp_left fun ⟨r, hb, hr, hS⟩ => ⟨r, hb, .turn root peer own hr, hS⟩

/-! ## What a run leaves -/

/-- Everything kept by a fresh run from one hello. -/
structure Reached (ss0 : Nat) (w : World Term) : Prop where
  agreed : ∀ p, Agreed symbolic (.rand ss0) w p
  spine : ∀ p, Spine symbolic (.rand ss0) w p
  drawn : ∃ used, Drawn used w
  shown : ∀ p, ∀ x ∈ w.sent p, ∃ k i a j, x.ciphertext = .aead k (.data i) a (.data j)
  accepted : w.turns .acceptor = (w.sent .acceptor).filterMap (·.sealing.minted)
  opened : ∃ t, t.ss = none ∧
    w.turns .initiator = t :: (w.sent .initiator).filterMap (·.sealing.minted)

theorem reached {ss0 d z : Nat} {es : List (Event Term)} {w : World Term} (fresh : Fresh ss0 d z es)
    (run : Trail (GenuineSteps symbolic) (.start symbolic (.rand ss0) (.rand d) (.rand z)) es w) :
    Reached ss0 w := by
  have start : Started symbolic (.rand ss0) (.start symbolic (.rand ss0) (.rand d) (.rand z)) :=
    started_iff.mpr ⟨_, _, rfl⟩
  have steps : Trail (Steps symbolic) _ es w := run.mono fun _ _ _ h => h.2
  obtain ⟨agreed, spine⟩ := run_spine symbolic_hkdf symbolic_kem start run
  exact ⟨agreed, spine, ⟨_, run_drawn steps (started_drawn ss0 d z) fresh.plain fresh.nodup⟩,
    plain_sent start steps fresh.plain, turns_ledger start steps .acceptor,
    ⟨_, rfl, turns_ledger start steps .initiator⟩⟩

/-! ## What the snapshot holds, by shape -/

section Held

variable {ss0 : Nat} {w : World Term} {p : Role}

/-- The bytes of one side's snapshot. -/
def Bytes (w : World Term) (p : Role) (t : Term) : Prop :=
  t ∈ snapshotBytes (w.conv p).snapshot

theorem lineage_shape {seed : Term} {q : Role} {k : Nat} {root : Term}
    (h : Lineage symbolic seed q k root) : ∃ s i, root = .hkdf s i (.label .dmChannelRoot) := by
  cases h <;> exact ⟨_, _, rfl⟩

theorem chainAt_shape (r : Term) (j : Nat) :
    ∃ s i l, chainAt symbolic r j = .hkdf s i (.label l) ∧ l ≠ .dmChannelRoot ∧
      l ≠ .dmChannelMk := by
  cases j <;> exact ⟨_, _, _, rfl, by decide, by decide⟩

theorem Reached.retained (h : Reached ss0 w) {u : OwnTurn Term}
    (hu : Retains (w.conv p).receiving u) : (w.turns p)[u.m]? = some u :=
  (h.agreed p).half.retained hu

theorem Reached.sendingRoot (h : Reached ss0 w) :
    ∃ k, Lineage symbolic (.rand ss0) p k (w.conv p).sending.root := by
  obtain ⟨k, _, at_⟩ := (h.agreed p).separated.rooted.writes
  exact ⟨k, at_.lineage⟩

theorem Reached.receivingRoot (h : Reached ss0 w) :
    ∃ k, Lineage symbolic (.rand ss0) p.peer k (w.conv p).receiving.root := by
  obtain ⟨k, _, at_⟩ := (h.agreed p).separated.rooted.reads
  exact ⟨k, at_.lineage⟩

theorem Reached.rootShape (h : Reached ss0 w) {r : Term}
    (hr : r = (w.conv p).sending.root ∨ r = (w.conv p).receiving.root) :
    ∃ s i, r = .hkdf s i (.label .dmChannelRoot) := by
  rcases hr with rfl | rfl
  · exact lineage_shape h.sendingRoot.choose_spec
  · exact lineage_shape h.receivingRoot.choose_spec

/-- What an own turn is made of. -/
theorem Reached.turnShape (h : Reached ss0 w) {q : Role} {u : OwnTurn Term} (hu : u ∈ w.turns q) :
    (∃ i z, u.keypair = ⟨.ek (.rand i) z, .dk (.rand i) z⟩) ∧
      ∀ s, u.ss = some s → ∃ pk i, s = .ss pk (.rand i) := by
  obtain ⟨used, drawn⟩ := h.drawn
  constructor
  · obtain ⟨d, z, hk, hd⟩ := drawn.pair q u hu
    obtain ⟨i, rfl⟩ := drawn.random d hd
    exact ⟨i, z, hk⟩
  · intro s hs
    obtain ⟨pk, m, rfl, hm⟩ := drawn.secret q u hu s hs
    obtain ⟨i, rfl⟩ := drawn.random m hm
    exact ⟨pk, i, rfl⟩

/-- A snapshot's bytes are a root, a chain key of one of its roots, a public
half, a secret half of a turn retained, or a secret. -/
theorem Reached.bytes_cases (h : Reached ss0 w) {t : Term} (ht : Bytes w p t) :
    (t = (w.conv p).sending.root ∨ t = (w.conv p).receiving.root) ∨
    (∃ r j, (r = (w.conv p).sending.root ∨ r = (w.conv p).receiving.root) ∧
      t = chainAt symbolic r j) ∨
    (∃ d z, t = .ek d z) ∨
    (∃ u, Retains (w.conv p).receiving u ∧ t = u.keypair.dk ∧ ∃ d z, t = .dk d z) ∨
    ∃ pk m, t = .ss pk m ∧ ((∃ u, Retains (w.conv p).receiving u ∧ u.ss = some t) ∨
      (p = .acceptor → (w.conv p).receiving.root ≠ seedRoot symbolic (.rand ss0))) := by
  cases held_of_mem h.agreed ht with
  | root _ hr => exact .inl hr
  | chain r j hr => exact .inr (.inl ⟨r, j, hr, rfl⟩)
  | own u hu _ ht =>
    obtain ⟨⟨i, z, hk⟩, hss⟩ := h.turnShape (List.mem_of_getElem? (h.retained hu))
    simp only [turnBytes, hk, List.mem_cons, Option.mem_toList] at ht
    rcases ht with rfl | rfl | ht
    · exact .inr (.inr (.inl ⟨_, _, rfl⟩))
    · exact .inr (.inr (.inr (.inl ⟨u, hu, by rw [hk], _, _, rfl⟩)))
    · obtain ⟨pk, m, hs⟩ := hss t ht
      exact .inr (.inr (.inr (.inr ⟨pk, _, hs, .inl ⟨u, hu, ht⟩⟩)))
  | peerPk u hu =>
    obtain ⟨⟨i, z, hk⟩, _⟩ := h.turnShape hu
    exact .inr (.inr (.inl ⟨_, _, by rw [hk]⟩))
  | peerSs u hu s hs read =>
    obtain ⟨pk, m, hs'⟩ := (h.turnShape hu).2 t hs
    exact .inr (.inr (.inr (.inr ⟨pk, _, hs', .inr read⟩)))

theorem Reached.bytes_exposed (h : Reached ss0 w) {t : Term} (ht : Bytes w p t) :
    Exposed (Bytes w p) t := by
  rcases h.bytes_cases ht with hr | ⟨r, j, _, rfl⟩ | ⟨d, z, rfl⟩ | ⟨u, _, _, d, z, rfl⟩ | ⟨pk, m, rfl, _⟩
  · obtain ⟨s, i, rfl⟩ := h.rootShape hr
    exact .inl ht
  · obtain ⟨s, i, l, hs, _⟩ := chainAt_shape r j
    rw [hs] at ht ⊢
    exact .inl ht
  · trivial
  · exact .inl ht
  · cases pk <;> exact .inl ht

theorem Reached.bytes_rand (h : Reached ss0 w) (i : Nat) : ¬ Bytes w p (.rand i) := by
  intro ht
  rcases h.bytes_cases ht with hr | ⟨r, j, _, he⟩ | ⟨d, z, he⟩ | ⟨u, _, _, d, z, he⟩ | ⟨pk, m, he, _⟩
  · obtain ⟨s, i, he⟩ := h.rootShape hr
    cases he
  · obtain ⟨s, i, l, hs, _⟩ := chainAt_shape r j
    rw [hs] at he
    cases he
  all_goals cases he

theorem Reached.bytes_hkdf (h : Reached ss0 w) {s i l : Term} (ht : Bytes w p (.hkdf s i l)) :
    (.hkdf s i l = (w.conv p).sending.root ∨ .hkdf s i l = (w.conv p).receiving.root) ∨
    ∃ r j, (r = (w.conv p).sending.root ∨ r = (w.conv p).receiving.root) ∧
      .hkdf s i l = chainAt symbolic r j := by
  rcases h.bytes_cases ht with hr | hc | ⟨d, z, he⟩ | ⟨u, _, _, d, z, he⟩ | ⟨pk, m, he, _⟩
  · exact .inl hr
  · exact .inr hc
  all_goals cases he

theorem Reached.bytes_root (h : Reached ss0 w) {q : Role} {k : Nat} {r : Term}
    (hl : Lineage symbolic (.rand ss0) q k r) (ht : Bytes w p r) :
    r = (w.conv p).sending.root ∨ r = (w.conv p).receiving.root := by
  obtain ⟨s, i, rfl⟩ := lineage_shape hl
  rcases h.bytes_hkdf ht with hr | ⟨r, j, _, he⟩
  · exact hr
  · obtain ⟨_, _, l, hs, hne, _⟩ := chainAt_shape r j
    rw [hs] at he
    simp only [Term.hkdf.injEq, Term.label.injEq] at he
    exact absurd he.2.2.symm hne

theorem Reached.bytes_chain (h : Reached ss0 w) {r : Term} {j : Nat}
    (ht : Bytes w p (chainAt symbolic r j)) :
    r = (w.conv p).sending.root ∨ r = (w.conv p).receiving.root := by
  obtain ⟨s, i, l, hs, hne, _⟩ := chainAt_shape r j
  rw [hs] at ht
  rcases h.bytes_hkdf ht with hr | ⟨r', j', hr, he⟩
  · obtain ⟨s', i', he⟩ := h.rootShape hr
    simp only [Term.hkdf.injEq, Term.label.injEq] at he
    exact absurd he.2.2 hne
  · rw [← hs] at he
    exact (chainAt_inj symbolic_hkdf he).1 ▸ hr

theorem Reached.bytes_key (h : Reached ss0 w) (r : Term) (j : Nat) :
    ¬ Bytes w p (keyAt symbolic r j) := by
  intro ht
  rcases h.bytes_hkdf ht with hr | ⟨r', j', _, he⟩
  · obtain ⟨_, _, he⟩ := h.rootShape hr
    simp [symbolic] at he
  · obtain ⟨_, _, l, hs, _, hne⟩ := chainAt_shape r' j'
    rw [hs] at he
    simp only [Term.hkdf.injEq] at he
    exact hne (by simpa [symbolic] using he.2.2.symm)

/-- The wire shows no secret. -/
theorem Reached.header_exposed (h : Reached ss0 w) {q : Role} {x : Sent Term} (hx : x ∈ w.sent q)
    (S : Term → Prop) : Exposed S (pieces x.sealing.header.encode) := by
  obtain ⟨a, made⟩ := (h.spine q).made hx
  cases made with
  | continues ck chain key next root n ct pk minted =>
    simp [MessageHeader.encode, pieces, piece, ct, pk, Exposed]
  | starts peer d z m peerPk root key next n ct pk minted =>
    simp [MessageHeader.encode, pieces, piece, ct, pk, Exposed, symbolic]

theorem Reached.knows_exposed (h : Reached ss0 w) {t : Term} (ht : Knows w p t) :
    Exposed (Bytes w p) t := by
  rcases ht with ht | ⟨q, x, hx, rfl | rfl⟩
  · exact h.bytes_exposed ht
  · exact h.header_exposed hx _
  · obtain ⟨k, i, a, j, hc⟩ := h.shown q x hx
    rw [hc]
    exact ⟨trivial, trivial⟩

/-- A message key is had only with its root. -/
theorem Reached.key_exposed (h : Reached ss0 w) {q : Role} {x : Sent Term} (hx : x ∈ w.sent q)
    (hd : Derives (Knows w p) x.sealing.key) : Exposed (Bytes w p) x.sealing.root := by
  obtain ⟨k, j, at_⟩ := (h.agreed q).separated.rooted.writes
  obtain ⟨_, i, _, placed⟩ := (h.agreed q).separated.keyed.older k j at_ x hx
  have he := exposed_of_derives (fun _ => h.knows_exposed) hd
  rw [placed.key_eq] at he
  refine exposed_keyAt (h.bytes_key _ _) (fun j hj => ?_) he
  have := h.bytes_chain hj
  rcases this with hr | hr <;> rw [hr]
  · exact h.bytes_exposed (by simp [Bytes, snapshotBytes, directionBytes, Conversation.snapshot])
  · exact h.bytes_exposed (by simp [Bytes, snapshotBytes, receivingBytes, Conversation.snapshot])

/-- **An exposed root lies under a root the snapshot holds**, unless where
one starts looking is itself exposed. -/
theorem Reached.root_below (h : Reached ss0 w) {base root : Term} {q : Role} {k : Nat}
    (above : Above symbolic base root) (hl : Lineage symbolic (.rand ss0) q k root)
    (he : Exposed (Bytes w p) root) :
    (∃ r l, Above symbolic base r ∧ l ≤ k ∧ Lineage symbolic (.rand ss0) q l r ∧
      (r = (w.conv p).sending.root ∨ r = (w.conv p).receiving.root)) ∨
    Exposed (Bytes w p) base := by
  refine (exposed_above above he).imp_left fun ⟨r, hb, hr, hS⟩ => ?_
  obtain ⟨l, hle, hl'⟩ := hr.lineage symbolic_hkdf hl
  exact ⟨r, l, hb, hle, hl', h.bytes_root hl' hS⟩

theorem Reached.root_from_seed (h : Reached ss0 w) {root : Term} {q : Role} {k : Nat}
    (hl : Lineage symbolic (.rand ss0) q k root) (he : Exposed (Bytes w p) root) :
    ∃ r l, l ≤ k ∧ Lineage symbolic (.rand ss0) q l r ∧
      (r = (w.conv p).sending.root ∨ r = (w.conv p).receiving.root) := by
  rcases h.root_below (above_seed hl) hl he with ⟨r, l, _, hle, hl', hr⟩ | hseed
  · exact ⟨r, l, hle, hl', hr⟩
  · rcases exposed_seedRoot hseed with hS | hrand
    · exact ⟨_, 0, Nat.zero_le _, .seed, h.bytes_root (q := q) .seed hS⟩
    · exact absurd hrand (h.bytes_rand ss0)

end Held

/-! ## Turns that are past -/

/-- The keys of a turn of one's own are past: a later turn was started, and
the acceptor, still reading the initiator's turn 0 and so still at the seed,
does not retain the turn 0 that leads away from it. -/
def SealedPast (p : Role) (c : Conversation B) (header : MessageHeader B) : Prop :=
  header.n < c.sending.n ∧
    ¬ (p = .acceptor ∧ c.receiving.n = 0 ∧ (c.receiving.ownTurn 0).isSome)

/-- The keys of a turn of the peer's are past: a later turn was read, and the
initiator, whose turn 0 they are all encapsulated to, has started another. -/
def OpenedPast (p : Role) (c : Conversation B) (header : MessageHeader B) : Prop :=
  header.n < c.receiving.n ∧ ¬ (p = .initiator ∧ c.sending.n = 0)

section Past

variable {ss0 : Nat} {w : World Term} {p : Role}

/-- How deep each half's root is, once its turn number is not 0. -/
theorem Reached.sendingDepth (h : Reached ss0 w) (hn : (w.conv p).sending.n ≠ 0) :
    Lineage symbolic (.rand ss0) p (depthOf p (w.conv p).sending.n) (w.conv p).sending.root := by
  rcases (h.spine p).writes with ⟨_, hl⟩ | ho
  · exact hl
  · refine absurd (congrArg Schedule.n ho) fun h0 => hn (h0.trans ?_)
    cases p <;> rfl

theorem Reached.receivingDepth (h : Reached ss0 w) (hn : (w.conv p).receiving.n ≠ 0) :
    Lineage symbolic (.rand ss0) p.peer (depthOf p.peer (w.conv p).receiving.n)
      (w.conv p).receiving.root := by
  have reads := (h.spine p.peer).reads
  rw [Role.peer_peer] at reads
  rcases reads with ⟨_, hl⟩ | ho
  · exact hl
  · refine absurd (congrArg Schedule.n ho) fun h0 => hn (h0.trans ?_)
    cases p <;> rfl

theorem Reached.header_n (h : Reached ss0 w) {q : Role} {x : Sent Term} (hx : x ∈ w.sent q) :
    x.sealing.header.n = x.sealing.n := ((h.agreed q).linked.faithful x hx).n

theorem le_depthOf {p : Role} {m n : Nat} (h : depthOf p m ≤ depthOf p n) : m ≤ n := by
  cases p <;> simp only [depthOf] at h <;> omega

/-- **The root of a turn opened and past is out of reach.** -/
theorem Reached.opened_past (h : Reached ss0 w) {x : Sent Term}
    (hx : x ∈ w.sent p.peer) (past : OpenedPast p (w.conv p) x.sealing.header) :
    ¬ Exposed (Bytes w p) x.sealing.root := by
  intro he
  obtain ⟨hlt, hinit⟩ := past
  rw [h.header_n hx] at hlt
  have reading := h.receivingDepth (p := p) (by omega)
  obtain ⟨r, l, hle, hl, rfl | rfl⟩ := h.root_from_seed ((h.spine p.peer).depth hx) he
  · -- the sending root is of the other direction, and meets this one at the seed only
    obtain ⟨k, hk⟩ := h.sendingRoot (p := p)
    obtain ⟨rfl, hzero⟩ := hl.unique symbolic_hkdf hk
    obtain rfl := hzero.resolve_right p.peer_ne
    have hseed := hk.eq_seed
    cases p with
    | initiator =>
      refine hinit ⟨rfl, ?_⟩
      by_contra hn
      exact hn ((h.sendingDepth hn).depth_eq_zero symbolic_hkdf hseed)
    | acceptor =>
      have := ((h.agreed _).separated.rooted.idle rfl hseed).2
      have : (w.conv .acceptor).receiving.n = 0 := reading.depth_eq_zero symbolic_hkdf this
      omega
  · have := (hl.unique symbolic_hkdf reading).1
    rw [this] at hle
    have := le_depthOf hle
    omega

/-- **The acceptor's turn 0** leads from the seed to a root that all its
messages are under, by a secret encapsulated to a turn of the initiator's. -/
theorem Reached.first_turn (h : Reached ss0 w) (hne : w.sent .acceptor ≠ []) :
    ∃ t u pk m, (w.turns .acceptor)[0]? = some t ∧ t.ss = some (.ss pk m) ∧
      u ∈ w.turns .initiator ∧ u.keypair.pk = pk ∧ ∀ x ∈ w.sent .acceptor,
        Above symbolic (advanceRoot symbolic (seedRoot symbolic (.rand ss0)) none (.ss pk m))
          x.sealing.root ∧ (x.sealing.n = 0 →
          x.sealing.root =
            advanceRoot symbolic (seedRoot symbolic (.rand ss0)) none (.ss pk m)) := by
  obtain ⟨x₀, rest, hsent⟩ := List.exists_cons_of_ne_nil hne
  have full := (h.spine .acceptor).full
  have pairwise := (h.spine .acceptor).pairwise
  have ledger := h.accepted
  have hmem : x₀ ∈ w.sent .acceptor := by simp [hsent]
  rw [hsent, List.map_cons] at full
  rw [hsent] at ledger pairwise
  cases full with
  | cons head tail =>
    obtain ⟨⟨made, rfl⟩, mixes⟩ := head
    cases made with
    | continues ck chain => cases chain
    | starts peer d z m peerPk root key next n ct pk minted =>
      rw [List.filterMap_cons_some (f := fun s : Sent Term => s.sealing.minted) minted] at ledger
      have hss : x₀.sealing.peerSs = none := by
        simpa using mixes rfl (by simp [minted])
      rw [hss] at root
      obtain ⟨u, hu, names⟩ := ((h.agreed .acceptor).linked.faithful x₀ hmem).names (by simp [minted])
      refine ⟨_, u, peer, m, by rw [ledger]; rfl, rfl, List.mem_of_getElem? hu,
        Option.some.inj (names.pk.symm.trans peerPk), fun x hx => ?_⟩
      rw [hsent, List.mem_cons] at hx
      rcases hx with rfl | hx
      · exact ⟨root ▸ .refl, fun _ => root⟩
      · refine ⟨?_, fun hn => ?_⟩
        · exact trail_above tail (root ▸ .refl) _ (List.mem_map_of_mem hx)
        · have later := (List.pairwise_cons.mp pairwise).1 x hx
          exact (later.2 (hn.trans n.symm)).trans root

/-- The secret of the acceptor's turn 0 is gone with the turn, as long as the
acceptor has read no secret of the initiator's. -/
theorem Reached.first_secret (h : Reached ss0 w) {t u : OwnTurn Term} {pk m : Term}
    (ht : (w.turns .acceptor)[0]? = some t) (hss : t.ss = some (.ss pk m))
    (hu : u ∈ w.turns .initiator) (hpk : u.keypair.pk = pk)
    (hseed : (w.conv .acceptor).receiving.root = seedRoot symbolic (.rand ss0))
    (gone : ∀ v, Retains (w.conv .acceptor).receiving v → v.m ≠ 0) :
    ¬ Exposed (Bytes w .acceptor) (.ss pk m) := by
  obtain ⟨used, drawn⟩ := h.drawn
  obtain ⟨⟨i, z, hk⟩, _⟩ := h.turnShape hu
  obtain ⟨_, j, hm⟩ := (h.turnShape (List.mem_of_getElem? ht)).2 _ hss
  obtain ⟨rfl, rfl⟩ := Term.ss.inj hm
  have retained : ∀ {v}, Retains (w.conv .acceptor).receiving v →
      (w.turns .acceptor)[v.m]? = some v := fun hv => h.retained hv
  rw [hk] at hpk
  subst hpk
  rintro (hS | hrand | hdk | ⟨hrand, _⟩)
  · rcases h.bytes_cases hS with hr | ⟨r, j, _, he⟩ | ⟨d, z, he⟩ | ⟨v, _, _, d, z, he⟩ |
      ⟨_, _, _, ⟨v, hv, hvs⟩ | read⟩
    · obtain ⟨_, _, he⟩ := h.rootShape hr
      cases he
    · obtain ⟨_, _, _, hs, _⟩ := chainAt_shape r j
      rw [hs] at he
      cases he
    · cases he
    · cases he
    · exact (drawn.apart ht (retained hv) fun he => gone v hv (congrArg Prod.snd he).symm).2
        (hss.trans hvs.symm)
    · exact read rfl hseed
  · exact h.bytes_rand _ hrand
  · obtain ⟨n, hn⟩ := List.getElem?_of_mem hu
    rcases h.bytes_cases hdk with hr | ⟨r, j, _, he⟩ | ⟨d, z, he⟩ | ⟨v, hv, hvk, _⟩ | ⟨_, _, he, _⟩
    · obtain ⟨_, _, he⟩ := h.rootShape hr
      cases he
    · obtain ⟨_, _, _, hs, _⟩ := chainAt_shape r j
      rw [hs] at he
      cases he
    · cases he
    · refine (drawn.apart (retained hv) hn fun he => ?_).1 (by rw [hk]; exact hvk.symm)
      cases congrArg Prod.fst he
    · cases he
  · exact h.bytes_rand _ hrand

/-- The turn 0 is no longer retained once a turn 2 is started. -/
theorem Reached.retained_zero (h : Reached ss0 w) {v : OwnTurn Term}
    (hv : Retains (w.conv p).receiving v) (hm : v.m = 0) : (w.conv p).sending.n ≤ 1 := by
  have half := (h.agreed p).half
  have hcount := half.counted
  have hat : ∀ i, (w.turns p)[i]? = some v → i = 0 := fun i hi => by
    rw [← half.numbered i v hi, hm]
  rcases hv with hv | hv
  · rw [half.newest, List.getLast?_eq_getElem?] at hv
    have := hat _ hv
    split at hcount <;> rename_i hc
    · omega
    · have := half.unopened (by simpa using hc)
      omega
  · obtain ⟨hi, hlen⟩ := half.older v hv
    have := hat _ hi
    split at hcount <;> omega

/-- **The root of a turn sealed and past is out of reach.** -/
theorem Reached.sealed_past (h : Reached ss0 w) {x : Sent Term}
    (hx : x ∈ w.sent p) (past : SealedPast p (w.conv p) x.sealing.header) :
    ¬ Exposed (Bytes w p) x.sealing.root := by
  intro he
  obtain ⟨hlt, hacc⟩ := past
  rw [h.header_n hx] at hlt
  have writing := h.sendingDepth (p := p) (by omega)
  have depth := (h.spine p).depth hx
  have deeper : ∀ {l}, l ≤ depthOf p x.sealing.n →
      ¬ Lineage symbolic (.rand ss0) p l (w.conv p).sending.root := fun hle hl => by
    have := (hl.unique symbolic_hkdf writing).1
    rw [this] at hle
    have := le_depthOf hle
    omega
  obtain ⟨r, l, hle, hl, rfl | rfl⟩ := h.root_from_seed depth he
  · exact deeper hle hl
  · -- the receiving root is of the other direction, and meets this one at the seed only
    obtain ⟨k, hk⟩ := h.receivingRoot (p := p)
    obtain ⟨rfl, hzero⟩ := hl.unique symbolic_hkdf hk
    obtain rfl := hzero.resolve_right p.peer_ne.symm
    have hseed := hk.eq_seed
    cases p with
    | initiator =>
      have := ((h.agreed _).separated.rooted.unread rfl hseed).2.2
      have := writing.depth_eq_zero symbolic_hkdf this
      simp only [depthOf] at this
      omega
    | acceptor =>
      have hn : (w.conv .acceptor).receiving.n = 0 := by
        by_contra hn
        exact hn ((h.receivingDepth hn).depth_eq_zero symbolic_hkdf hseed)
      obtain ⟨t, u, pk, m, ht, hss, hu, hpk, hall⟩ := h.first_turn (List.ne_nil_of_mem hx)
      have gone : ∀ v, Retains (w.conv .acceptor).receiving v → v.m ≠ 0 := by
        intro v hv hm
        exact hacc ⟨rfl, hn, hm ▸ retains_ownTurn hv⟩
      have hfirst : Lineage symbolic (.rand ss0) .acceptor 1
          (advanceRoot symbolic (seedRoot symbolic (.rand ss0)) none (.ss pk m)) :=
        .first none _ rfl
      obtain ⟨r, l, hb, hle, hl, rfl | rfl⟩ | hbase := h.root_below (hall x hx).1 depth he
      · exact deeper hle hl
      · obtain ⟨l, hl0, hl⟩ := hb.lineage symbolic_hkdf (hseed ▸ Lineage.seed (p := .acceptor))
        obtain rfl := Nat.le_zero.mp hl0
        exact advanceRoot_ne_seedRoot symbolic_hkdf _ _ _ hl.eq_seed
      · rcases exposed_advanceRoot hbase with hS | ⟨_, hown⟩
        · rcases h.bytes_root hfirst hS with hr | hr
          · exact deeper (by simp [depthOf]) (hr ▸ hfirst)
          · exact advanceRoot_ne_seedRoot symbolic_hkdf _ _ _ (hr.trans hseed)
        · exact h.first_secret ht hss hu hpk hseed gone hown

/-! ## Turns that are not past -/

theorem Reached.derives_key (h : Reached ss0 w) {q : Role} {x : Sent Term} (hx : x ∈ w.sent q)
    (hd : Derives (Knows w p) x.sealing.root) : Derives (Knows w p) x.sealing.key := by
  obtain ⟨k, j, at_⟩ := (h.agreed q).separated.rooted.writes
  obtain ⟨_, i, _, placed⟩ := (h.agreed q).separated.keyed.older k j at_ x hx
  rw [placed.key_eq]
  exact derives_keyAt hd i

theorem derives_sendingRoot : Derives (Knows w p) (w.conv p).sending.root :=
  .known (.inl (by simp [snapshotBytes, directionBytes, Conversation.snapshot]))

theorem derives_receivingRoot : Derives (Knows w p) (w.conv p).receiving.root :=
  .known (.inl (by simp [snapshotBytes, receivingBytes, Conversation.snapshot]))

/-- What a retained turn holds is in the snapshot. -/
theorem derives_retained {u : OwnTurn Term} (hu : Retains (w.conv p).receiving u) {t : Term}
    (ht : t ∈ turnBytes u) : Derives (Knows w p) t := by
  refine .known (.inl ?_)
  simp only [snapshotBytes, receivingBytes, Conversation.snapshot, List.mem_append, List.mem_cons,
    List.mem_flatMap, Option.mem_toList]
  exact .inr (.inr (.inl (.inr ⟨u, hu, ht⟩)))

/-- The KEM ciphertext of a header is on the wire. -/
theorem derives_kemCt {q : Role} {x : Sent Term} (hx : x ∈ w.sent q) {c : Term}
    (hc : x.sealing.header.kemCt = some c) : Derives (Knows w p) c := by
  have wire : Derives (Knows w p) (pieces x.sealing.header.encode) :=
    .known (.inr ⟨q, x, hx, .inl rfl⟩)
  simp only [MessageHeader.encode, pieces, piece, hc] at wire
  exact wire.be32Rest.be64Rest.be64Rest.be64Rest.be64Rest.lpHead

theorem Reached.turns_length (h : Reached ss0 w) :
    (w.turns .initiator).length = (w.conv .initiator).sending.n + 1 := by
  obtain ⟨t, _, hopened⟩ := h.opened
  have hcount := (h.agreed .initiator).half.counted
  split at hcount
  · exact hcount
  · rw [hopened] at hcount
    cases hcount

/-- While the initiator has started no turn, every turn of the acceptor's is
encapsulated to its turn 0, and mixes no secret of its own. -/
theorem Reached.all_to_zero (h : Reached ss0 w) (hn : (w.conv .initiator).sending.n = 0) :
    ∃ t d z, Retains (w.conv .initiator).receiving t ∧ t.keypair = ⟨.ek d z, .dk d z⟩ ∧
      ∀ x ∈ w.sent .acceptor, x.sealing.minted.isSome →
        x.sealing.peerPk = some (.ek d z) ∧ x.sealing.peerSs = none := by
  obtain ⟨t, hss, hopened⟩ := h.opened
  have hlen := h.turns_length
  rw [hn, hopened, List.length_cons, Nat.add_right_cancel_iff, List.length_eq_zero_iff] at hlen
  rw [hlen] at hopened
  obtain ⟨⟨i, z, hk⟩, _⟩ := h.turnShape (q := .initiator) (u := t) (by simp [hopened])
  refine ⟨t, _, z, .inl ?_, hk, fun x hx hm => ?_⟩
  · rw [(h.agreed .initiator).half.newest, hopened]
    rfl
  · obtain ⟨u, hu, names⟩ := ((h.agreed .acceptor).linked.faithful x hx).names hm
    have := List.mem_of_getElem? hu
    rw [show Role.acceptor.peer = .initiator from rfl, hopened, List.mem_singleton] at this
    subst this
    exact ⟨by rw [names.pk, hk], names.ss.trans hss⟩

/-- From the seed, the secret half its turns are encapsulated to and the
wire, a direction's roots follow one from the other. -/
theorem trail_derives {K : Term → Prop} {seed d z : Term} {q : Role} {a b : Schedule Term}
    {xs : List (Sealing Term)} (h : Trail (FollowsIn symbolic seed q) a xs b)
    (ha : Derives K a.root) (hk : Derives K (.dk d z))
    (wire : ∀ s ∈ xs, ∀ c, s.header.kemCt = some c → Derives K c)
    (names : ∀ s ∈ xs, s.minted.isSome → s.peerPk = some (.ek d z) ∧ s.peerSs = none) :
    ∀ s ∈ xs, Derives K s.root := by
  induction h with
  | nil => simp
  | @cons a _ _ s _ head _ ih =>
    obtain ⟨⟨made, rfl⟩, _⟩ := head
    simp only [List.forall_mem_cons] at wire names
    have hs : Derives K s.root := by
      cases made with
      | continues ck chain key next root => exact root ▸ ha
      | starts peer d' z' m peerPk root key next n ct pk minted =>
        obtain ⟨hpk, hss⟩ := names.1 (by simp [minted])
        obtain rfl := Option.some.inj (hpk.symm.trans peerPk)
        have hown : Derives K (symbolic.encapsulate (.ek d z) m).1 := by
          have := Derives.decapsulate hk (wire.1 _ ct)
          rwa [show Symbolic.decapsulate (.dk d z) (symbolic.encapsulate (.ek d z) m).2 =
            (symbolic.encapsulate (.ek d z) m).1 from
              symbolic_kem.decapsulate_encapsulate d z m] at this
        rw [root, hss]
        exact derives_advanceRoot ha (by simp) hown
    exact List.forall_mem_cons.mpr ⟨hs, ih hs wire.2 names.2⟩

theorem Reached.sealed_current (h : Reached ss0 w) {x : Sent Term} (hx : x ∈ w.sent p)
    (current : ¬ SealedPast p (w.conv p) x.sealing.header) :
    Derives (Knows w p) x.sealing.root := by
  obtain ⟨hle, hroot⟩ := (h.spine p).current hx
  by_cases hn : x.sealing.n = (w.conv p).sending.n
  · rw [hroot hn]
    exact derives_sendingRoot
  · have hlt : x.sealing.header.n < (w.conv p).sending.n := by
      rw [h.header_n hx]
      omega
    obtain ⟨rfl, hzero, hown⟩ : p = .acceptor ∧ (w.conv p).receiving.n = 0 ∧
        ((w.conv p).receiving.ownTurn 0).isSome := by
      by_contra hnot
      exact current ⟨hlt, hnot⟩
    obtain ⟨v, hv⟩ := Option.isSome_iff_exists.mp hown
    obtain ⟨retains, hvm⟩ := ownTurn_retains hv
    obtain ⟨t, u, pk, m, ht, hss, _, _, hall⟩ := h.first_turn (List.ne_nil_of_mem hx)
    have := h.retained_zero retains hvm
    have hat := h.retained retains
    rw [hvm, ht, Option.some.injEq] at hat
    subst hat
    have hseed : (w.conv .acceptor).receiving.root = seedRoot symbolic (.rand ss0) := by
      have reads := (h.spine .initiator).reads
      rcases reads with ⟨_, hl⟩ | ho
      · have hdepth : depthOf .initiator (w.conv .acceptor).receiving.schedule.n = 0 := hzero
        exact (hdepth ▸ hl).eq_seed
      · exact congrArg Schedule.root ho
    rw [(hall x hx).2 (by omega), ← hseed]
    exact derives_advanceRoot derives_receivingRoot (by simp)
      (derives_retained retains (by simp [turnBytes, hss]))

theorem Reached.opened_current (h : Reached ss0 w) {x : Sent Term}
    (hx : x ∈ (w.sent p.peer).take (w.conv p).receiving.nextSeq)
    (current : ¬ OpenedPast p (w.conv p) x.sealing.header) :
    Derives (Knows w p) x.sealing.root := by
  have hmem := List.mem_of_mem_take hx
  obtain ⟨hle, hroot⟩ := (h.spine p.peer).reading (by simpa using hx)
  rw [Role.peer_peer] at hle hroot
  by_cases hn : x.sealing.n = (w.conv p).receiving.n
  · rw [hroot hn]
    exact derives_receivingRoot
  · have hlt : x.sealing.header.n < (w.conv p).receiving.n := by
      rw [h.header_n hmem]
      omega
    obtain ⟨rfl, hzero⟩ : p = .initiator ∧ (w.conv p).sending.n = 0 := by
      by_contra hnot
      exact current ⟨hlt, hnot⟩
    obtain ⟨t, d, z, retains, hk, hto⟩ := h.all_to_zero hzero
    have hseed : (w.conv .initiator).sending.root = seedRoot symbolic (.rand ss0) := by
      rcases (h.spine .initiator).writes with ⟨_, hl⟩ | ho
      · have hdepth : depthOf .initiator (w.conv .initiator).sending.schedule.n = 0 := hzero
        exact (hdepth ▸ hl).eq_seed
      · exact congrArg Schedule.root ho
    have secret : Term.dk d z ∈ turnBytes t := by simp [turnBytes, hk]
    refine trail_derives (h.spine .acceptor).full ?_
      (derives_retained retains secret) ?_ ?_ _ (List.mem_map_of_mem hmem)
    · exact (show (origin symbolic (.rand ss0) .acceptor).root = _ from hseed.symm) ▸
        derives_sendingRoot
    · intro s hs c hc
      obtain ⟨y, hy, rfl⟩ := List.mem_map.mp hs
      exact derives_kemCt hy hc
    · intro s hs hm
      obtain ⟨y, hy, rfl⟩ := List.mem_map.mp hs
      exact hto y hy hm

end Past

/-! ## Forward secrecy -/

/-- **A snapshot gives away the keys of the turns its halves are in, and of
no turn that is past.** -/
theorem snapshot_secrecy {ss0 d z : Nat} {es : List (Event Term)} {w : World Term}
    (fresh : Fresh ss0 d z es)
    (run : Trail (GenuineSteps symbolic) (.start symbolic (.rand ss0) (.rand d) (.rand z)) es w)
    (p : Role) :
    (∀ x ∈ w.sent p, ¬ Derives (Knows w p) x.sealing.key ↔
      SealedPast p (w.conv p) x.sealing.header) ∧
    ∀ x ∈ (w.sent p.peer).take (w.conv p).receiving.nextSeq,
      ¬ Derives (Knows w p) x.sealing.key ↔ OpenedPast p (w.conv p) x.sealing.header := by
  have h := reached fresh run
  constructor
  · intro x hx
    constructor
    · intro hnot
      by_contra current
      exact hnot (h.derives_key hx (h.sealed_current hx current))
    · exact fun past hd => h.sealed_past hx past (h.key_exposed hx hd)
  · intro x hx
    have hmem := List.mem_of_mem_take hx
    constructor
    · intro hnot
      by_contra current
      exact hnot (h.derives_key hmem (h.opened_current hx current))
    · exact fun past hd => h.opened_past hmem past (h.key_exposed hmem hd)

theorem honest_plain {f : World Term → Event Term} (h : Honest f) (w : World Term) :
    Plain (f w) := by
  cases h with
  | sealing p i =>
    refine ⟨by simp [sealing, draws, List.reduceOption_cons_of_some], fun q body deviceId fill nonce he => ?_⟩
    obtain ⟨_, rfl, _, _, hn⟩ := Event.sealMessage.inj he
    exact ⟨i, i, rfl, (Option.some.inj hn).symm⟩
  | delivering p =>
    unfold delivering deliverNext
    split <;> simp [Plain, draws]
  | forcing p => simp [forcing, Plain, draws]

theorem played_fresh {fs : List (World Term → Event Term)} (honest : ∀ f ∈ fs, Honest f)
    (nodup : (.rand 0 :: .rand 1 :: .rand 2 :: (played symbolic hello fs).flatMap draws).Nodup) :
    Fresh 0 1 2 (played symbolic hello fs) := by
  refine ⟨fun e he => ?_, nodup⟩
  obtain ⟨f, hf, v, rfl⟩ := mem_played he
  exact honest_plain (honest f hf) v

/-- Two turns each way, one message at a time. -/
def twoTurns : List (World Term → Event Term) :=
  [sealing .initiator 10, delivering .acceptor, sealing .acceptor 20, delivering .initiator,
   sealing .initiator 30, delivering .acceptor, sealing .acceptor 40, delivering .initiator]

theorem snapshot_secrecy_twoTurns :
    ∃ x y, ((playedTo twoTurns).sent .initiator)[0]? = some x ∧
      ((playedTo twoTurns).sent .acceptor)[0]? = some y ∧
      ¬ Derives (Knows (playedTo twoTurns) .initiator) x.sealing.key ∧
      ¬ Derives (Knows (playedTo twoTurns) .initiator) y.sealing.key := by
  have honest : ∀ f ∈ twoTurns, Honest f := by simp [twoTurns, Honest.sealing, Honest.delivering]
  obtain ⟨sealed, opened⟩ := snapshot_secrecy (played_fresh honest (by decide +kernel))
    (playedTo_run twoTurns honest) .initiator
  refine ⟨_, _, rfl, rfl, ?_, ?_⟩
  · exact (sealed _ (List.mem_of_getElem? (i := 0) rfl)).mpr ⟨by decide, by simp⟩
  · exact (opened _ (List.mem_of_getElem? (i := 0) rfl)).mpr ⟨by decide, by decide⟩

/-- One message sealed, and opened. -/
def oneMessage : List (World Term → Event Term) := [sealing .initiator 10, delivering .acceptor]

/-- Neither a message just sealed nor one just opened is out of reach. -/
theorem sealed_and_opened_derivable :
    (¬ ∀ (es : List (Event Term)) (w : World Term), Fresh 0 1 2 es →
      Trail (GenuineSteps symbolic) hello es w → ∀ p, ∀ x ∈ w.sent p,
        ¬ Derives (Knows w p) x.sealing.key) ∧
    ¬ ∀ (es : List (Event Term)) (w : World Term), Fresh 0 1 2 es →
      Trail (GenuineSteps symbolic) hello es w →
        ∀ p, ∀ x ∈ (w.sent p.peer).take (w.conv p).receiving.nextSeq,
          ¬ Derives (Knows w p) x.sealing.key := by
  have honest : ∀ f ∈ oneMessage, Honest f := by
    simp [oneMessage, Honest.sealing, Honest.delivering]
  have run := playedTo_run oneMessage honest
  have fresh := played_fresh honest (by decide +kernel)
  have h := reached fresh run
  constructor
  · intro claim
    have hx : _ ∈ (playedTo oneMessage).sent .initiator := List.mem_of_getElem? (i := 0) rfl
    refine claim _ _ fresh run .initiator _ hx (h.derives_key hx (h.sealed_current hx ?_))
    exact fun past => absurd past.1 (by decide)
  · intro claim
    have hx : _ ∈ ((playedTo oneMessage).sent .initiator).take
        ((playedTo oneMessage).conv .acceptor).receiving.nextSeq :=
      List.mem_of_getElem? (i := 0) rfl
    refine claim _ _ fresh run .acceptor _ hx
      (h.derives_key (List.mem_of_mem_take hx) (h.opened_current (p := .acceptor) hx ?_))
    exact fun past => absurd past.1 (by decide)

end Daemonseed.Dm.Secrecy
