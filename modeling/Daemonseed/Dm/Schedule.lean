import Daemonseed.Lib.Runs
import Daemonseed.Dm.Chain

/-! # What a seal and an open do to a schedule

A direction is at a root, a chain and a turn number; its writer and its
reader each hold such a schedule. `Made` says what one sealed message is
relative to the schedule before it, for the writer; the reader that holds
the same schedule, and still has the own turn the message names, reads it
back. -/
namespace Daemonseed.Dm.Chain
open Daemonseed.Dm.Primitives Daemonseed.Dm.Channel Daemonseed.Lib.Runs

variable {B : Type} {C : Crypto B}

/-- Where a direction is, for its writer or its reader. -/
structure Schedule (B : Type) where
  root : B
  chain : Option B
  n : Nat

def Direction.schedule (d : Direction B) : Schedule B := ⟨d.root, d.chain, d.n⟩

def Receiving.schedule (r : Receiving B) : Schedule B := ⟨r.root, r.chain, r.n⟩

/-- The schedule a sealed message leaves. -/
def Sealing.after (s : Sealing B) : Schedule B := ⟨s.root, some s.nextChain, s.n⟩

/-- How a sealed message comes from the schedule before it. -/
inductive Made (C : Crypto B) (a : Schedule B) (s : Sealing B) : Prop
  | continues (ck : B) (chain : a.chain = some ck) (key : s.key = (step C ck).1)
      (next : s.nextChain = (step C ck).2) (root : s.root = a.root) (n : s.n = a.n)
      (kemCt : s.header.kemCt = none) (kemPk : s.header.kemPk = none) (minted : s.minted = none)
  | starts (peer d z m : B) (peerPk : s.peerPk = some peer)
      (root : s.root = advanceRoot C a.root s.peerSs (C.encapsulate peer m).1)
      (key : s.key = (step C (chainFromRoot C s.root)).1)
      (next : s.nextChain = (step C (chainFromRoot C s.root)).2)
      (n : s.n = if a.chain.isSome then a.n + 1 else a.n)
      (kemCt : s.header.kemCt = some (C.encapsulate peer m).2)
      (kemPk : s.header.kemPk = some (C.keygen d z).1)
      (minted : s.minted = some
        ⟨s.n, ⟨(C.keygen d z).1, (C.keygen d z).2⟩, some (C.encapsulate peer m).1⟩)

/-- One message of a direction, between the schedules around it. -/
def Follows (C : Crypto B) (a : Schedule B) (s : Sealing B) (b : Schedule B) : Prop :=
  Made C a s ∧ b = s.after

/-! ## Sealing -/

theorem mint_ok {fill rest : List (Option B)} {pair : RatchetKeypair B}
    (h : mint C fill = .ok (pair, rest)) :
    ∃ d z, fill = some d :: some z :: rest ∧ pair = ⟨(C.keygen d z).1, (C.keygen d z).2⟩ := by
  match fill with
  | some d :: some z :: more =>
    simp only [mint, draw, bind, Except.bind, pure, Except.pure, Except.ok.injEq,
      Prod.mk.injEq] at h
    exact ⟨d, z, by rw [h.2], h.1.symm⟩
  | [] | none :: _ | some _ :: [] | some _ :: none :: _ =>
    simp [mint, draw, bind, Except.bind] at h

theorem encapsulate_ok {pk ss ct : B} {fill : List (Option B)}
    (h : encapsulate C pk fill = .ok (ss, ct)) :
    ∃ m rest, fill = some m :: rest ∧ ss = (C.encapsulate pk m).1 ∧ ct = (C.encapsulate pk m).2 := by
  match fill with
  | some m :: rest =>
    simp only [encapsulate, draw, bind, Except.bind, pure, Except.pure, Except.ok.injEq] at h
    exact ⟨m, rest, rfl, by rw [h], by rw [h]⟩
  | [] | none :: _ => simp [encapsulate, draw, bind, Except.bind] at h

/-- What starting a turn yields, from the three draws it takes. -/
theorem startTurn_ok {d : Direction B} {peerPk peerSs : Option B} {fill : List (Option B)}
    {root chain ct : B} {n : Nat} {turn : OwnTurn B}
    (h : d.startTurn C peerPk peerSs fill = .ok (root, chain, n, turn, ct)) :
    ∃ peer d' z m rest, peerPk = some peer ∧ fill = some d' :: some z :: some m :: rest ∧
      root = advanceRoot C d.root peerSs (C.encapsulate peer m).1 ∧
      chain = chainFromRoot C root ∧ n = (if d.chain.isSome then d.n + 1 else d.n) ∧
      turn = ⟨n, ⟨(C.keygen d' z).1, (C.keygen d' z).2⟩, some (C.encapsulate peer m).1⟩ ∧
      ct = (C.encapsulate peer m).2 := by
  cases peerPk with
  | none => simp [Direction.startTurn] at h
  | some peer =>
    simp only [Direction.startTurn, bind, Except.bind] at h
    cases hm : mint C fill with
    | error e => simp [hm] at h
    | ok minted =>
      obtain ⟨pair, rest⟩ := minted
      obtain ⟨d', z, rfl, rfl⟩ := mint_ok hm
      simp only [hm] at h
      cases he : encapsulate C peer rest with
      | error e => simp [he] at h
      | ok encapsulated =>
        obtain ⟨ss, kemCt⟩ := encapsulated
        obtain ⟨m, rest', rfl, rfl, rfl⟩ := encapsulate_ok he
        simp only [he, pure, Except.pure, Except.ok.injEq, Prod.mk.injEq] at h
        obtain ⟨rfl, rfl, rfl, rfl, rfl⟩ := h
        exact ⟨peer, d', z, m, rest', rfl, rfl, rfl, rfl, rfl, rfl, rfl⟩

/-- Everything a prepared message says about the direction it comes from. -/
structure Prepared (C : Crypto B) (d : Direction B) (input : TurnInput B) (deviceId : Nat)
    (fill : List (Option B)) (s : Sealing B) : Prop where
  made : Made C d.schedule s
  taken : (s.mSeen, s.peerPk, s.peerSs) = d.takeInput input
  due : s.minted.isSome = d.turnDue input
  deviceId : s.header.deviceId = deviceId
  n : s.header.n = s.n
  m : s.header.m = s.mSeen.getD 0
  seq : s.header.seq = d.seq
  cursor : s.header.cursor = d.cursor
  pending : d.pendingTurn = none
  drawn : s.minted.isSome → ∃ x y peer m rest, fill = some x :: some y :: some m :: rest ∧
    s.peerPk = some peer ∧ s.header.kemCt = some (C.encapsulate peer m).2 ∧
    s.minted = some ⟨s.n, ⟨(C.keygen x y).1, (C.keygen x y).2⟩, some (C.encapsulate peer m).1⟩

theorem prepare_ok {d : Direction B} {input : TurnInput B} {deviceId : Nat}
    {fill : List (Option B)} {s : Sealing B} (h : d.prepare C input deviceId fill = .ok s) :
    Prepared C d input deviceId fill s := by
  unfold Direction.prepare at h
  cases hp : d.pendingTurn with
  | some turn => simp [hp] at h
  | none =>
    simp only [hp, Option.isSome_none, Bool.false_eq_true, if_false] at h
    by_cases hd : d.turnDue input = true
    · simp only [hd, if_true] at h
      cases ht : d.startTurn C (d.takeInput input).2.1 (d.takeInput input).2.2 fill with
      | error e => simp [ht] at h
      | ok started =>
        obtain ⟨root, chain, n, turn, ct⟩ := started
        obtain ⟨peer, x, y, m, rest, hpk, hfill, hroot, hchain, hn, hturn, hct⟩ := startTurn_ok ht
        simp only [ht, Except.ok.injEq] at h
        subst h hturn hchain hct
        refine ⟨.starts peer x y m hpk hroot rfl rfl hn rfl rfl rfl, rfl, hd.symm ▸ rfl, rfl, rfl,
          rfl, rfl, rfl, hp, fun _ => ⟨x, y, peer, m, rest, hfill, hpk, rfl, rfl⟩⟩
    · simp only [hd, Bool.false_eq_true, if_false] at h
      cases hc : d.chain with
      | none => simp [hc] at h
      | some ck =>
        simp only [hc, Except.ok.injEq] at h
        subst h
        refine ⟨.continues ck hc rfl rfl rfl rfl rfl rfl rfl, rfl, ?_, rfl, rfl, rfl, rfl, rfl,
          hp, by simp⟩
        simpa using hd

namespace Conversation

/-- The part of a conversation's seal before the body is sealed. -/
def prepare (C : Crypto B) (self : Conversation B) (deviceId : Nat) (fill : List (Option B)) :
    Except ChainError (Sealing B) :=
  (self.sending.setCursor self.receiving.nextSeq).prepare C self.turnInput deviceId fill

/-- What a failed seal leaves: the cursor is set before the seal is tried. -/
def refused (self : Conversation B) : Conversation B :=
  { self with sending := self.sending.setCursor self.receiving.nextSeq }

/-- What a successful seal leaves. -/
def sealed (self : Conversation B) (s : Sealing B) : Conversation B where
  sending :=
    { self.sending with
      root := s.root, chain := some s.nextChain, n := s.n, mSeen := s.mSeen
      seq := self.sending.seq + 1, cursor := self.receiving.nextSeq, peerPk := s.peerPk
      peerSs := s.peerSs, pendingTurn := none, forceTurn := false }
  receiving := s.minted.elim self.receiving self.receiving.retain

/-- **What a seal does**: a prepared message is sealed and committed, a turn
it minted is retained, and anything else leaves the schedule alone. -/
theorem sealMessage_eq (c : Conversation B) (body : B) (deviceId : Nat) (fill : List (Option B))
    (nonce : Option B) :
    c.sealMessage C body deviceId fill nonce =
      match c.prepare C deviceId fill, nonce with
      | .error e, _ => (.error e, c.refused)
      | .ok _, none => (.error .aead, c.refused)
      | .ok s, some nonce =>
        (.ok (s.header, C.sealEnvelope s.key nonce (messageAad C s.header) body), c.sealed s) := by
  unfold sealMessage Direction.sealMessage prepare
  dsimp only
  cases hp : (c.sending.setCursor c.receiving.nextSeq).prepare C c.turnInput deviceId fill with
  | error e => rfl
  | ok s =>
    have pending : c.sending.pendingTurn = none := (prepare_ok hp).pending
    cases nonce with
    | none => rfl
    | some nonce =>
      simp only [sealUnder, Direction.takePendingTurn, Direction.commit, Direction.setCursor,
        pending, Option.or_none, sealed]
      cases s.minted <;> rfl

theorem sealed_schedule (c : Conversation B) (s : Sealing B) :
    (c.sealed s).sending.schedule = s.after := rfl

theorem prepare_made {c : Conversation B} {deviceId : Nat} {fill : List (Option B)}
    {s : Sealing B} (h : c.prepare C deviceId fill = .ok s) : Made C c.sending.schedule s :=
  (prepare_ok h).made

end Conversation

/-! ## Opening -/

/-- A turn of one party's, as the other party reads it. -/
def OwnTurn.asPeer (t : OwnTurn B) : PeerTurn B := ⟨t.m, t.keypair.pk, t.ss⟩

/-- The own turn a message's first draws went to. -/
structure Names (s : Sealing B) (own : OwnTurn B) : Prop where
  m : s.mSeen = some own.m
  pk : s.peerPk = some own.keypair.pk
  ss : s.peerSs = own.ss

theorem openMessage_error {r : Receiving B} {header : MessageHeader B} {ct : B} {e : ChainError}
    (h : (r.openMessage C header ct).1 = .error e) : (r.openMessage C header ct).2 = r := by
  unfold Receiving.openMessage at h ⊢
  split
  · rfl
  split
  · rfl
  rename_i hlt hgt
  simp only [hlt, hgt, if_false] at h
  cases hr : r.readTurn C header with
  | error e => rfl
  | ok reading =>
    simp only [hr] at h ⊢
    cases ho : openUnder C (step C reading.chain).1 (messageAad C header) ct with
    | error e => rfl
    | ok body => simp [ho] at h

theorem openMessage_ok {r : Receiving B} {header : MessageHeader B} {ct body : B}
    (h : (r.openMessage C header ct).1 = .ok body) :
    header.seq = r.nextSeq ∧ ∃ reading, r.readTurn C header = .ok reading ∧
      C.openEnvelope (step C reading.chain).1 (messageAad C header) ct = some body ∧
      (r.openMessage C header ct).2 = r.commit C header reading := by
  unfold Receiving.openMessage at h ⊢
  by_cases hlt : header.seq < r.nextSeq
  · simp [hlt] at h
  by_cases hgt : r.nextSeq < header.seq
  · simp [hlt, hgt] at h
  simp only [hlt, hgt, if_false] at h ⊢
  cases hr : r.readTurn C header with
  | error e => simp [hr] at h
  | ok reading =>
    simp only [hr] at h ⊢
    unfold openUnder at h ⊢
    cases ho : C.openEnvelope (step C reading.chain).1 (messageAad C header) ct with
    | none => simp [ho] at h
    | some opened =>
      simp only [ho, Except.ok.injEq] at h
      subst h
      exact ⟨by omega, reading, rfl, ho, rfl⟩

/-- The converse: in sequence, read and authenticated is opened. -/
theorem openMessage_of {r : Receiving B} {header : MessageHeader B} {ct body : B}
    {reading : Reading B} (hseq : header.seq = r.nextSeq)
    (hr : r.readTurn C header = .ok reading)
    (ho : C.openEnvelope (step C reading.chain).1 (messageAad C header) ct = some body) :
    r.openMessage C header ct = (.ok body, r.commit C header reading) := by
  simp [Receiving.openMessage, hseq, hr, openUnder, ho]

/-- The two ways a header is read: under the chain held, or under a turn of
the peer's that names a retained own turn. -/
theorem readTurn_ok {r : Receiving B} {header : MessageHeader B} {reading : Reading B}
    (h : r.readTurn C header = .ok reading) :
    (header.kemCt = none ∧ header.kemPk = none ∧ ∃ ck, r.chain = some ck ∧
      reading = ⟨r.root, ck, r.n, none⟩) ∨
    ∃ ct pk own, header.kemCt = some ct ∧ header.kemPk = some pk ∧
      r.ownTurn header.m = some own ∧
      reading.root = advanceRoot C r.root own.ss (C.decapsulate own.keypair.dk ct) ∧
      reading.chain = chainFromRoot C reading.root ∧ reading.n = header.n ∧
      reading.read = some ⟨header.n, pk, some (C.decapsulate own.keypair.dk ct)⟩ := by
  unfold Receiving.readTurn at h
  cases hct : header.kemCt with
  | none =>
    cases hpk : header.kemPk with
    | some pk => simp [hct, hpk] at h
    | none =>
      cases hc : r.chain with
      | none => simp [hct, hpk, hc] at h
      | some ck =>
        simp only [hct, hpk, hc, Except.ok.injEq] at h
        exact .inl ⟨rfl, rfl, ck, rfl, h.symm⟩
  | some ct =>
    cases hpk : header.kemPk with
    | none => simp [hct, hpk] at h
    | some pk =>
      cases ho : r.ownTurn header.m with
      | none => simp [hct, hpk, ho] at h
      | some own =>
        simp only [hct, hpk, ho, Except.ok.injEq] at h
        subst h
        exact .inr ⟨ct, pk, own, rfl, rfl, rfl, rfl, rfl, rfl, rfl⟩

/-- **A reader at the writer's schedule reads the writer's next message**, if
it still has the own turn the message names. -/
theorem readTurn_of_made (kem : KemCorrect C) {r : Receiving B} {s : Sealing B}
    (made : Made C r.schedule s) (hn : s.header.n = s.n)
    (window : s.minted.isSome → ∃ own d z, r.ownTurn s.header.m = some own ∧
      own.keypair = ⟨(C.keygen d z).1, (C.keygen d z).2⟩ ∧ Names s own) :
    ∃ reading, r.readTurn C s.header = .ok reading ∧ (step C reading.chain).1 = s.key ∧
      (r.commit C s.header reading).schedule = s.after ∧
      reading.read = s.minted.map OwnTurn.asPeer := by
  cases made with
  | continues ck chain key next root n ct pk minted =>
    have hc : r.chain = some ck := chain
    refine ⟨⟨r.root, ck, r.n, none⟩, by simp [Receiving.readTurn, ct, pk, hc], key.symm, ?_, ?_⟩
    · simp [Receiving.commit, Receiving.schedule, Sealing.after, root, next, n]
    · simp [minted]
  | starts peer d z m peerPk root key next n ct pk minted =>
    obtain ⟨own, d', z', hown, hpair, names⟩ := window (by simp [minted])
    have hpeer : peer = (C.keygen d' z').1 := by
      have := names.pk
      rw [peerPk, hpair] at this
      exact Option.some.inj this
    have hss : C.decapsulate own.keypair.dk (C.encapsulate peer m).2 = (C.encapsulate peer m).1 := by
      rw [hpair, hpeer]
      exact kem.decapsulate_encapsulate d' z' m
    have hroot : advanceRoot C r.root own.ss (C.encapsulate peer m).1 = s.root := by
      rw [root, names.ss]
      rfl
    refine ⟨⟨s.root, chainFromRoot C s.root, s.header.n,
      some ⟨s.header.n, (C.keygen d z).1, some (C.encapsulate peer m).1⟩⟩, ?_, key.symm, ?_, ?_⟩
    · simp [Receiving.readTurn, ct, pk, hown, hss, hroot]
    · simp [Receiving.commit, Receiving.schedule, Sealing.after, next, hn]
    · simp [minted, OwnTurn.asPeer, hn]

end Daemonseed.Dm.Chain
