import Daemonseed.Dm.Places

/-! # No message key is used twice

`Rooted` is what one conversation keeps under every seal, every open and
every forced turn, whatever is handed to it: both halves are at a place of
their direction, and as long as a half is at the seed, what its first turn
would mix is what that direction mixes. -/
namespace Daemonseed.Dm.Separation
open Daemonseed.Dm.Primitives Daemonseed.Dm.Channel Daemonseed.Dm.Chain Daemonseed.Dm.Session
open Daemonseed.Dm.Places Daemonseed.Dm.Symbolic Daemonseed.Lib.Runs

variable {B : Type} {C : Crypto B} {ss0 : B}

/-- A retained own turn. -/
def Retains (r : Receiving B) (t : OwnTurn B) : Prop :=
  r.ownTurns.1 = some t ∨ r.ownTurns.2 = some t

/-- What one side's conversation keeps, over every call of it. -/
structure Rooted (C : Crypto B) (ss0 : B) (p : Role) (c : Conversation B) : Prop where
  writes : ∃ k j, At C ss0 p k j c.sending.schedule
  reads : ∃ k j, At C ss0 p.peer k j c.receiving.schedule
  /-- The secret the first turn of the half mixes, as read or as held. -/
  latest : c.sending.root = seedRoot C ss0 → ∀ t, c.receiving.peerLatest = some t →
    t.ss.isSome = decide (p = .initiator)
  held : c.sending.root = seedRoot C ss0 → c.sending.peerPk.isSome →
    c.sending.peerSs.isSome = decide (p = .initiator)
  /-- The secret the peer's first turn mixes. -/
  own : c.receiving.root = seedRoot C ss0 → ∀ t, Retains c.receiving t →
    t.ss.isSome = decide (p = .acceptor)
  /-- The initiator starts no turn before it has read one. -/
  unread : p = .initiator → c.receiving.root = seedRoot C ss0 →
    c.receiving.peerLatest = none ∧ c.sending.peerPk = none ∧ c.sending.root = seedRoot C ss0
  /-- The acceptor has no secret of the initiator's before it has read one. -/
  untaught : p = .acceptor → c.receiving.root = seedRoot C ss0 →
    (∀ t, c.receiving.peerLatest = some t → t.ss = none) ∧ c.sending.peerSs = none
  /-- The acceptor reads no turn before it has started one. -/
  idle : p = .acceptor → c.sending.root = seedRoot C ss0 →
    c.receiving.ownTurns = (none, none) ∧ c.receiving.root = seedRoot C ss0

theorem ownTurn_retains {r : Receiving B} {m : Nat} {t : OwnTurn B} (h : r.ownTurn m = some t) :
    Retains r t ∧ t.m = m := by
  have hm := List.mem_of_find?_eq_some h
  have hp := List.find?_some h
  simp only [List.mem_append, Option.mem_toList] at hm
  exact ⟨hm, by simpa using hp⟩

theorem retains_ownTurn {r : Receiving B} {t : OwnTurn B} (h : Retains r t) :
    (r.ownTurn t.m).isSome := by
  rw [Receiving.ownTurn, List.find?_isSome]
  exact ⟨t, by simpa [Retains] using h, by simp⟩

/-- What a seal reads of the peer: its latest turn where that is news, what
it held before where not. -/
theorem takeInput_cases (c : Conversation B) (cursor : Nat) :
    (∃ t, c.receiving.peerLatest = some t ∧ c.sending.isNews t.m = true ∧
      (c.sending.setCursor cursor).takeInput c.turnInput = (some t.m, some t.pk, t.ss)) ∨
    ((∀ t, c.receiving.peerLatest = some t → c.sending.isNews t.m = false) ∧
      (c.sending.setCursor cursor).takeInput c.turnInput =
        (c.sending.mSeen, c.sending.peerPk, c.sending.peerSs)) := by
  unfold Conversation.turnInput
  cases hl : c.receiving.peerLatest with
  | none => exact .inr ⟨by simp, rfl⟩
  | some t =>
    have hnews : (c.sending.setCursor cursor).isNews t.m = c.sending.isNews t.m := rfl
    cases hn : c.sending.isNews t.m with
    | true => exact .inl ⟨t, rfl, hn, by simp [Direction.takeInput, hnews, hn]⟩
    | false =>
      refine .inr ⟨?_, by simp [Direction.takeInput, hnews, hn]; exact ⟨rfl, rfl, rfl⟩⟩
      intro u hu
      rw [← Option.some.inj hu]
      exact hn

/-- The first turn of a half mixes what its direction mixes. -/
theorem Rooted.mixes {p : Role} {c : Conversation B} (h : Rooted C ss0 p c) {deviceId : Nat}
    {fill : List (Option B)} {s : Sealing B} (hs : c.prepare C deviceId fill = .ok s)
    (seed : c.sending.root = seedRoot C ss0) (pk : s.peerPk.isSome) :
    s.peerSs.isSome = decide (p = .initiator) := by
  have taken := (prepare_ok hs).taken
  rcases takeInput_cases c c.receiving.nextSeq with ⟨t, ht, _, he⟩ | ⟨_, he⟩
  · rw [he, Prod.mk.injEq, Prod.mk.injEq] at taken
    rw [taken.2.2]
    exact h.latest seed t ht
  · rw [he, Prod.mk.injEq, Prod.mk.injEq] at taken
    rw [taken.2.1] at pk
    rw [taken.2.2]
    exact h.held seed pk

theorem continues_of_made {a : Schedule B} {s : Sealing B} (made : Made C a s)
    (hm : s.minted = none) : a.chain.isSome ∧ s.n = a.n ∧ s.root = a.root := by
  cases made with
  | continues ck chain key next root n => exact ⟨by simp [chain], n, root⟩
  | starts peer d z m peerPk root key next n ct pk minted => rw [minted] at hm; cases hm

theorem made_peerPk {a : Schedule B} {s : Sealing B} (made : Made C a s) (hm : s.minted.isSome) :
    s.peerPk.isSome := by
  cases made with
  | continues ck chain key next root n ct pk minted => simp [minted] at hm
  | starts peer d z m peerPk => simp [peerPk]

/-- Nothing is minted before a turn of the peer's is read. -/
theorem prepare_unread {c : Conversation B} {deviceId : Nat} {fill : List (Option B)}
    {s : Sealing B} (hs : c.prepare C deviceId fill = .ok s)
    (latest : c.receiving.peerLatest = none) (pk : c.sending.peerPk = none) :
    s.peerPk = none ∧ s.minted = none := by
  have hnone : s.peerPk = none := by
    have taken := (prepare_ok hs).taken
    rcases takeInput_cases c c.receiving.nextSeq with ⟨t, ht, _⟩ | ⟨_, he⟩
    · rw [latest] at ht
      cases ht
    · rw [he, Prod.mk.injEq, Prod.mk.injEq] at taken
      rw [taken.2.1, pk]
  refine ⟨hnone, ?_⟩
  by_contra hm
  have := made_peerPk (prepare_ok hs).made (Option.ne_none_iff_isSome.mp hm)
  simp [hnone] at this

theorem Rooted.placed {p : Role} {c : Conversation B}
    (h : Rooted C ss0 p c) {deviceId : Nat} {fill : List (Option B)} {s : Sealing B}
    (hs : c.prepare C deviceId fill = .ok s) {k j : Nat} (at_ : At C ss0 p k j c.sending.schedule) :
    ∃ k' j', Beyond k j k' j' ∧ Placed C ss0 p k' j' s.root s.key ∧
      At C ss0 p k' (j' + 1) s.after :=
  at_.made (Conversation.prepare_made hs) fun seed hm =>
    h.mixes hs seed (made_peerPk (prepare_ok hs).made hm)

/-- The place a header is read at. -/
theorem Rooted.readAt {p : Role} {c : Conversation B} (h : Rooted C ss0 p c)
    {header : MessageHeader B} {r : Reading B} (hr : c.receiving.readTurn C header = .ok r)
    {k j : Nat} (at_ : At C ss0 p.peer k j c.receiving.schedule) :
    ∃ k' j', Beyond k j k' j' ∧ Placed C ss0 p.peer k' j' r.root (step C r.chain).1 ∧
      At C ss0 p.peer k' (j' + 1) (c.receiving.commit C header r).schedule := by
  rcases readTurn_ok hr with ⟨_, _, ck, hc, rfl⟩ | ⟨ct, pk, own, _, _, hown, hroot, hchain, _, _⟩
  · obtain ⟨hp, ha⟩ := at_.continues hc
    exact ⟨k, j, .inl ⟨rfl, rfl⟩, hp, ha _⟩
  · have mixes : c.receiving.root = seedRoot C ss0 →
        own.ss.isSome = decide (p.peer = .initiator) := by
      intro seed
      rw [h.own seed own (ownTurn_retains hown).1]
      cases p <;> rfl
    obtain ⟨hp, ha⟩ := at_.starts own.ss _ mixes hroot
    refine ⟨k + 1, 0, .inr ⟨rfl, rfl⟩, ?_, ?_⟩
    · rw [hchain]; exact hp
    · simpa only [Receiving.commit, Receiving.schedule, hchain] using ha r.n

theorem seed_of_made (inj : HkdfInjective C) {a : Schedule B} {s : Sealing B}
    (made : Made C a s) (seed : s.root = seedRoot C ss0) :
    a.root = seedRoot C ss0 ∧ s.minted = none ∧ a.chain.isSome := by
  cases made with
  | continues ck chain key next root n ct pk minted =>
    exact ⟨root ▸ seed, minted, by simp [chain]⟩
  | starts peer d z m peerPk root =>
    exact absurd (root.symm.trans seed) (advanceRoot_ne_seedRoot inj _ _ _)

/-- A seal keeps a conversation rooted. -/
theorem Rooted.seals (inj : HkdfInjective C) {p : Role} {c : Conversation B}
    (h : Rooted C ss0 p c) {deviceId : Nat} {fill : List (Option B)} {s : Sealing B}
    (hs : c.prepare C deviceId fill = .ok s) : Rooted C ss0 p (c.sealed s) := by
  have made := Conversation.prepare_made hs
  obtain ⟨k, j, at_⟩ := h.writes
  obtain ⟨k', j', _, _, hafter⟩ := h.placed hs at_
  have hreceiving : (c.sealed s).receiving.schedule = c.receiving.schedule := by
    cases hm : s.minted <;> simp [Conversation.sealed, hm, Receiving.retain, Receiving.schedule]
  have hroot : (c.sealed s).receiving.root = c.receiving.root := congrArg Schedule.root hreceiving
  have hlatest : (c.sealed s).receiving.peerLatest = c.receiving.peerLatest := by
    cases hm : s.minted <;> simp [Conversation.sealed, hm, Receiving.retain]
  refine ⟨⟨k', j' + 1, hafter⟩, hreceiving ▸ h.reads, ?_, ?_, ?_, ?_, ?_, ?_⟩
  · intro seed t ht
    exact h.latest (seed_of_made inj made seed).1 t (hlatest ▸ ht)
  · intro seed pk
    exact h.mixes hs (seed_of_made inj made seed).1 pk
  · intro seed t ht
    have hinit : p = .initiator → s.minted = none := fun hp =>
      have hu := h.unread hp (hroot ▸ seed)
      (prepare_unread hs hu.1 hu.2.1).2
    cases hm : s.minted with
    | none =>
      rw [Conversation.sealed, hm] at ht
      exact h.own (hroot ▸ seed) t ht
    | some turn =>
      simp only [Conversation.sealed, hm, Option.elim_some, Receiving.retain, Retains,
        Option.some.injEq] at ht
      rcases ht with rfl | ht
      · have hacc : p = .acceptor := by
          cases p with
          | acceptor => rfl
          | initiator => rw [hinit rfl] at hm; cases hm
        cases made with
        | continues ck chain key next root n ct pk minted => rw [minted] at hm; cases hm
        | starts peer d z m peerPk root key next n ct pk minted =>
          rw [minted, Option.some.injEq] at hm
          simp [← hm, hacc]
      · exact h.own (hroot ▸ seed) t (.inl ht)
  · intro hp seed
    have hu := h.unread hp (hroot ▸ seed)
    obtain ⟨hpk, hm⟩ := prepare_unread hs hu.1 hu.2.1
    exact ⟨hlatest ▸ hu.1, hpk, (continues_of_made made hm).2.2.trans hu.2.2⟩
  · intro hp seed
    have hu := h.untaught hp (hroot ▸ seed)
    refine ⟨hlatest ▸ hu.1, ?_⟩
    have taken := (prepare_ok hs).taken
    rcases takeInput_cases c c.receiving.nextSeq with ⟨t, ht, _, he⟩ | ⟨_, he⟩
    · rw [he, Prod.mk.injEq, Prod.mk.injEq] at taken
      exact taken.2.2.trans (hu.1 t ht)
    · rw [he, Prod.mk.injEq, Prod.mk.injEq] at taken
      exact taken.2.2.trans hu.2
  · intro hp seed
    obtain ⟨hseed, _, hchain⟩ := seed_of_made inj made seed
    exfalso
    rcases at_.chain with ⟨_, pos⟩ | ⟨hnone, _⟩
    · have hk := at_.root_eq_seed inj hseed
      have := pos hp
      omega
    · rw [hnone] at hchain
      cases hchain

theorem commit_retains {r : Receiving B} {header : MessageHeader B} {reading : Reading B}
    {t : OwnTurn B} (ht : Retains (r.commit C header reading) t) : Retains r t := by
  simp only [Retains, Receiving.commit] at ht ⊢
  split at ht
  · rcases ht with ht | ht
    · exact .inl ht
    · cases ht
  · exact ht

/-- An open keeps a conversation rooted, whatever header it was given. -/
theorem Rooted.opens (inj : HkdfInjective C) {p : Role} {c : Conversation B}
    (h : Rooted C ss0 p c) {header : MessageHeader B} {r : Reading B}
    (hr : c.receiving.readTurn C header = .ok r) :
    Rooted C ss0 p { c with receiving := c.receiving.commit C header r } := by
  obtain ⟨k, j, at_⟩ := h.reads
  obtain ⟨k', j', _, _, hafter⟩ := h.readAt hr at_
  have hseed : r.root = seedRoot C ss0 →
      c.receiving.root = seedRoot C ss0 ∧ c.receiving.chain.isSome ∧ r.read = none := by
    intro seed
    rcases readTurn_ok hr with ⟨_, _, ck, hc, rfl⟩ | ⟨ct, pk, own, _, _, _, hroot, _⟩
    · exact ⟨seed, by simp [hc], rfl⟩
    · exact absurd (hroot.symm.trans seed) (advanceRoot_ne_seedRoot inj _ _ _)
  refine ⟨h.writes, ⟨k', j' + 1, hafter⟩, ?_, h.held, ?_, ?_, ?_, ?_⟩
  · intro seed t ht
    rcases readTurn_ok hr with ⟨_, _, ck, hc, rfl⟩ | ⟨ct, pk, own, _, _, hown, _, _, _, hread⟩
    · exact h.latest seed t (by simpa [Receiving.commit] using ht)
    · have hss : t.ss.isSome = true := by
        simp only [Receiving.commit, hread, Option.some_or, Option.some.injEq] at ht
        rw [← ht]
        rfl
      cases p with
      | initiator => simpa using hss
      | acceptor =>
        have := (ownTurn_retains hown).1
        simp [Retains, (h.idle rfl seed).1] at this
  · intro seed t ht
    exact h.own (hseed seed).1 t (commit_retains ht)
  · intro hp seed
    exfalso
    obtain ⟨hroot, hchain, _⟩ := hseed seed
    have hk := at_.root_eq_seed inj hroot
    rcases at_.chain with ⟨_, pos⟩ | ⟨hnone, _⟩
    · have := pos (by rw [hp]; rfl)
      omega
    · rw [show c.receiving.chain = none from hnone] at hchain
      cases hchain
  · intro hp seed
    obtain ⟨hroot, _, hread⟩ := hseed seed
    simpa [Receiving.commit, hread] using h.untaught hp hroot
  · intro hp seed
    obtain ⟨hi, hroot⟩ := h.idle hp seed
    refine ⟨by simp [Receiving.commit, hi], ?_⟩
    rcases readTurn_ok hr with ⟨_, _, ck, _, rfl⟩ | ⟨ct, pk, own, _, _, hown, _⟩
    · exact hroot
    · have := (ownTurn_retains hown).1
      simp [Retains, hi] at this

/-! ## Runs -/

/-- An earlier place of one direction. -/
def Before (k' j' k j : Nat) : Prop := k' < k ∨ k' = k ∧ j' < j

/-- What one side has sealed lies before the place its schedule is at, no two
messages at one place. -/
structure Keyed (C : Crypto B) (ss0 : B) (p : Role) (d : Schedule B) (log : List (Sent B)) :
    Prop where
  older : ∀ k j, At C ss0 p k j d → ∀ s ∈ log, ∃ k' j', Before k' j' k j ∧
    Placed C ss0 p k' j' s.sealing.root s.sealing.key
  distinct : log.Pairwise fun s t => s.sealing.key ≠ t.sealing.key

/-- One more message, at the place the schedule was at. -/
theorem Keyed.push (inj : HkdfInjective C) {p : Role} {d : Schedule B} {log : List (Sent B)}
    (h : Keyed C ss0 p d log) {s : Sent B} {k j k' j' : Nat} (at_ : At C ss0 p k j d)
    (beyond : Beyond k j k' j') (placed : Placed C ss0 p k' j' s.sealing.root s.sealing.key)
    (after : At C ss0 p k' (j' + 1) s.sealing.after) :
    Keyed C ss0 p s.sealing.after (log ++ [s]) := by
  constructor
  · intro l i hat t ht
    obtain ⟨rfl, rfl⟩ := hat.unique inj after
    rw [List.mem_append, List.mem_singleton] at ht
    rcases ht with ht | rfl
    · obtain ⟨k₁, j₁, hb, hp⟩ := h.older k j at_ t ht
      refine ⟨k₁, j₁, ?_, hp⟩
      unfold Before Beyond at *
      omega
    · exact ⟨l, j', .inr ⟨rfl, by omega⟩, placed⟩
  · rw [List.pairwise_append]
    refine ⟨h.distinct, List.pairwise_singleton _ _, ?_⟩
    intro t ht u hu he
    rw [List.mem_singleton] at hu
    subst hu
    obtain ⟨k₁, j₁, hb, hp⟩ := h.older k j at_ t ht
    obtain ⟨_, hk, hj⟩ := Placed.unique inj hp (he ▸ placed)
    unfold Before Beyond at *
    omega

/-- What a run keeps of one side, whatever is delivered. -/
structure Separated (C : Crypto B) (ss0 : B) (w : World B) (p : Role) : Prop where
  rooted : Rooted C ss0 p (w.conv p)
  keyed : Keyed C ss0 p (w.conv p).sending.schedule (w.sent p)

theorem started_separated {w : World B} (h : Started C ss0 w) (p : Role) :
    Separated C ss0 w p := by
  obtain ⟨d, z, rfl⟩ := started_iff.mp h
  refine ⟨?_, ⟨by simp [World.start], by simp [World.start]⟩⟩
  cases p with
  | initiator =>
    refine ⟨⟨0, 0, .seed, .inl ⟨rfl, by simp⟩⟩, ⟨0, 0, .seed, .inr ⟨rfl, rfl, rfl, rfl⟩⟩,
      ?_, ?_, ?_, ?_, ?_, ?_⟩ <;>
      simp [World.start, freshReceiving, freshSending, Receiving.retain, Retains]
  | acceptor =>
    refine ⟨⟨0, 0, .seed, .inr ⟨rfl, rfl, rfl, rfl⟩⟩,
      ⟨0, 0, .seed, .inl ⟨rfl, by simp [Role.peer]⟩⟩, ?_, ?_, ?_, ?_, ?_, ?_⟩ <;>
      simp [World.start, accept, freshReceiving, freshSending, Retains]

/-- A conversation that only moved its cursor or its flag is still rooted. -/
theorem Rooted.congr {p : Role} {c c' : Conversation B} (h : Rooted C ss0 p c)
    (hs : c'.sending.schedule = c.sending.schedule) (hr : c'.receiving = c.receiving)
    (hp : c'.sending.peerPk = c.sending.peerPk) (hss : c'.sending.peerSs = c.sending.peerSs) :
    Rooted C ss0 p c' := by
  have hroot : c'.sending.root = c.sending.root := congrArg Schedule.root hs
  refine ⟨hs ▸ h.writes, hr ▸ h.reads, ?_, ?_, ?_, ?_, ?_, ?_⟩
  · rw [hroot, hr]; exact h.latest
  · rw [hroot, hp, hss]; exact h.held
  · rw [hr]; exact h.own
  · rw [hr, hp, hroot]; exact h.unread
  · rw [hr, hss]; exact h.untaught
  · rw [hroot, hr]; exact h.idle

theorem next_separated (inj : HkdfInjective C) {w : World B} (e : Event B)
    (h : ∀ p, Separated C ss0 w p) (p : Role) : Separated C ss0 (next C w e) p := by
  have side : ∀ {q w'}, Separated C ss0 w' q → (w'.conv q.peer = w.conv q.peer) →
      w'.sent q.peer = w.sent q.peer → Separated C ss0 w' p := by
    intro q w' hq hc hs
    rcases q.eq_or_peer p with rfl | rfl
    · exact hq
    · refine ⟨?_, ?_⟩
      · rw [hc]; exact (h _).rooted
      · rw [hc, hs]; exact (h _).keyed
  generalize hw : next C w e = w'
  cases hw ▸ next_moves (C := C) w e with
  | stays e cursor =>
    refine side (q := e.side) ⟨?_, ?_⟩ (setConv_peer w _ _) rfl
    · rw [setConv_self]
      exact (h e.side).rooted.congr rfl rfl rfl rfl
    · rw [setConv_self]
      exact (h e.side).keyed
  | forces q =>
    refine side (q := q) ⟨?_, ?_⟩ (setConv_peer w _ _) rfl
    · rw [setConv_self]
      exact (h q).rooted.congr rfl rfl rfl rfl
    · rw [setConv_self]
      exact (h q).keyed
  | seals q body deviceId fill nonce s hs =>
    refine side (q := q) ⟨?_, ?_⟩ (by simp) (by simp)
    · simpa using (h q).rooted.seals inj hs
    · obtain ⟨k, j, at_⟩ := (h q).rooted.writes
      obtain ⟨k', j', beyond, placed, after⟩ := (h q).rooted.placed hs at_
      simpa [Conversation.sealed_schedule] using
        (h q).keyed.push inj (s := ⟨s, body, _⟩) at_ beyond placed after
  | opens q header ciphertext body r _ hr =>
    refine side (q := q) ⟨?_, ?_⟩ (setConv_peer w _ _) rfl
    · simpa using (h q).rooted.opens inj hr
    · simpa using (h q).keyed

theorem run_separated (inj : HkdfInjective C) {w₀ w : World B} {es : List (Event B)}
    (start : Started C ss0 w₀) (run : Trail (Steps C) w₀ es w) (p : Role) :
    Separated C ss0 w p := by
  refine run.invariant (I := fun w => ∀ p, Separated C ss0 w p) ?_ (started_separated start) p
  rintro v e _ h rfl
  exact next_separated inj e h

/-- **No message key is used for two messages**, of one direction or of the
two, over any run from one hello, whatever is delivered. -/
theorem message_keys_distinct (inj : HkdfInjective C) {w₀ w : World B} {es : List (Event B)}
    (start : Started C ss0 w₀) (run : Trail (Steps C) w₀ es w) {p q : Role} {i j : Nat}
    {s t : Sent B} (hs : (w.sent p)[i]? = some s) (ht : (w.sent q)[j]? = some t)
    (ne : (p, i) ≠ (q, j)) : s.sealing.key ≠ t.sealing.key := by
  have sep := run_separated inj start run
  by_cases hp : p = q
  · subst hp
    have hij : i ≠ j := fun h => ne (by rw [h])
    have pairwise := List.pairwise_iff_getElem.mp (sep p).keyed.distinct
    obtain ⟨hi, rfl⟩ := List.getElem?_eq_some_iff.mp hs
    obtain ⟨hj, rfl⟩ := List.getElem?_eq_some_iff.mp ht
    rcases Nat.lt_or_gt_of_ne hij with h | h
    · exact pairwise i j hi hj h
    · exact (pairwise j i hj hi h).symm
  · intro he
    obtain ⟨k, l, at_⟩ := (sep p).rooted.writes
    obtain ⟨k', l', at_'⟩ := (sep q).rooted.writes
    obtain ⟨_, _, _, placed⟩ := (sep p).keyed.older k l at_ s (List.mem_of_getElem? hs)
    obtain ⟨_, _, _, placed'⟩ := (sep q).keyed.older k' l' at_' t (List.mem_of_getElem? ht)
    exact hp (Placed.unique inj placed (he ▸ placed')).1

/-- Both sides' first messages, each sealed before either is delivered. -/
def crossingFirsts : List (Event Term) :=
  [.sealMessage .initiator (.data 0) 0 [] (some (.data 1)),
   .sealMessage .acceptor (.data 2) 0 [some (.rand 3), some (.rand 4), some (.rand 5)]
     (some (.data 3))]

/-- What they leave, from a hello of fresh draws. -/
def crossed : World Term :=
  crossingFirsts.foldl (next symbolic) (.start symbolic (.rand 0) (.rand 1) (.rand 2))

theorem message_keys_distinct_crossing :
    ∃ s t, (crossed.sent .initiator)[0]? = some s ∧ (crossed.sent .acceptor)[0]? = some t ∧
      s.sealing.key ≠ t.sealing.key := by
  have run := Trail.foldl (next symbolic) (.start symbolic (.rand 0) (.rand 1) (.rand 2))
    crossingFirsts
  refine ⟨_, _, rfl, rfl, ?_⟩
  exact message_keys_distinct symbolic_hkdf (started_iff.mpr ⟨_, _, rfl⟩) run
    (p := .initiator) (q := .acceptor) (i := 0) (j := 0) rfl rfl (by decide)

end Daemonseed.Dm.Separation
