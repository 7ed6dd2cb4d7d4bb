import Daemonseed.Dm.Separation
import Daemonseed.Dm.TurnGame

/-! # The two halves of a direction agree

Each direction is a pipe: what its writer has sealed and its reader has not
opened leads from the reader's schedule to the writer's. The halves cross in
the turns: a turn's first message is encapsulated to a turn of its reader's,
and is read only while the reader keeps that turn. Nothing here supposes it
does; whatever an open accepts is the next message of the pipe. -/
namespace Daemonseed.Dm.Agreement
open Daemonseed.Dm.Primitives Daemonseed.Dm.Channel Daemonseed.Dm.Chain Daemonseed.Dm.Session
open Daemonseed.Dm.Places Daemonseed.Dm.Separation Daemonseed.Dm.Symbolic Daemonseed.Lib.Runs

variable {B : Type} {C : Crypto B} {ss0 : B}

/-- The peer's turns a side has read. -/
def readCount (c : Conversation B) : Nat := c.receiving.peerLatest.elim 0 (·.m + 1)

/-! ## A side's own turns -/

/-- What a side keeps of the turns it minted. -/
structure Half (C : Crypto B) (c : Conversation B) (turns : List (OwnTurn B)) : Prop where
  numbered : ∀ (i : Nat) (t : OwnTurn B), turns[i]? = some t → t.m = i
  pairs : ∀ t ∈ turns, ∃ d z, t.keypair = ⟨(C.keygen d z).1, (C.keygen d z).2⟩
  counted : turns.length = if c.sending.chain.isSome then c.sending.n + 1 else 0
  unopened : c.sending.chain = none → c.sending.n = 0
  newest : c.receiving.ownTurns.1 = turns.getLast?
  older : ∀ t, c.receiving.ownTurns.2 = some t → turns[turns.length - 2]? = some t ∧ 2 ≤ turns.length
  settled : c.sending.pendingTurn = none

/-- A retained turn is one of the turns minted, at its own number. -/
theorem Half.retained {c : Conversation B} {turns : List (OwnTurn B)} (h : Half C c turns)
    {t : OwnTurn B} (ht : Retains c.receiving t) : turns[t.m]? = some t := by
  have at_ : ∀ i, turns[i]? = some t → turns[t.m]? = some t := fun i hi => by
    rwa [h.numbered i t hi]
  rcases ht with ht | ht
  · rw [h.newest, List.getLast?_eq_getElem?] at ht
    exact at_ _ ht
  · exact at_ _ (h.older t ht).1

/-- What a turn-starting seal mints. -/
theorem minted_of_made {a : Schedule B} {s : Sealing B} {turn : OwnTurn B} (made : Made C a s)
    (hm : s.minted = some turn) :
    turn.m = s.n ∧ s.n = (if a.chain.isSome then a.n + 1 else a.n) ∧
      ∃ d z, turn.keypair = ⟨(C.keygen d z).1, (C.keygen d z).2⟩ := by
  cases made with
  | continues ck chain key next root n ct pk minted => rw [minted] at hm; cases hm
  | starts peer d z m peerPk root key next n ct pk minted =>
    obtain rfl := Option.some.inj (minted.symm.trans hm)
    exact ⟨rfl, n, d, z, rfl⟩

theorem Half.seals {c : Conversation B} {turns : List (OwnTurn B)} (h : Half C c turns)
    {s : Sealing B} (made : Made C c.sending.schedule s) :
    Half C (c.sealed s) (turns ++ s.minted.toList) := by
  have hcount : turns.length = if c.sending.schedule.chain.isSome then c.sending.schedule.n + 1
      else 0 := h.counted
  cases hm : s.minted with
  | none =>
    obtain ⟨hc, hn, _⟩ := continues_of_made made hm
    simp only [hc, if_true] at hcount
    have hrecv : (c.sealed s).receiving = c.receiving := by simp [Conversation.sealed, hm]
    rw [Option.toList_none, List.append_nil]
    refine ⟨h.numbered, h.pairs, ?_, fun hnone => ?_, hrecv ▸ h.newest, hrecv ▸ h.older, rfl⟩
    · simp [Conversation.sealed, hn, hcount]
    · simp [Conversation.sealed] at hnone
  | some turn =>
    obtain ⟨hturn, hn, hpair⟩ := minted_of_made made hm
    have hlen : s.n = turns.length := by
      cases hc : c.sending.schedule.chain with
      | some ck => simpa [hc] using hn.trans (by simp [hc, hcount])
      | none =>
        simp only [hc, Option.isSome_none, Bool.false_eq_true, if_false] at hn hcount
        rw [hn, hcount]
        exact h.unopened hc
    have hrecv : (c.sealed s).receiving.ownTurns = (some turn, c.receiving.ownTurns.1) := by
      simp [Conversation.sealed, hm, Receiving.retain]
    rw [Option.toList_some]
    refine ⟨?_, ?_, ?_, fun hnone => ?_, ?_, ?_, rfl⟩
    · intro i t ht
      rw [List.getElem?_append] at ht
      split at ht
      · exact h.numbered i t ht
      · rename_i hge
        cases hi : i - turns.length with
        | succ k => simp [hi] at ht
        | zero =>
          simp only [hi, List.getElem?_cons_zero, Option.some.injEq] at ht
          rw [← ht, hturn, hlen]
          omega
    · intro t ht
      rw [List.mem_append, List.mem_singleton] at ht
      rcases ht with ht | rfl
      · exact h.pairs t ht
      · exact hpair
    · simp [Conversation.sealed, hlen]
    · simp [Conversation.sealed] at hnone
    · simp [hrecv]
    · intro t ht
      rw [hrecv, h.newest, List.getLast?_eq_getElem?] at ht
      obtain ⟨hi, _⟩ := List.getElem?_eq_some_iff.mp ht
      refine ⟨?_, by simp; omega⟩
      rw [List.length_append, List.length_singleton, List.getElem?_append_left (by omega)]
      exact ht

theorem Half.opens {c : Conversation B} {turns : List (OwnTurn B)} (h : Half C c turns)
    (header : MessageHeader B) (r : Reading B) :
    Half C { c with receiving := c.receiving.commit C header r } turns := by
  refine ⟨h.numbered, h.pairs, h.counted, h.unopened, ?_, ?_, h.settled⟩
  · simp only [Receiving.commit]
    split <;> exact h.newest
  · intro t ht
    simp only [Receiving.commit] at ht
    split at ht
    · cases ht
    · exact h.older t ht

/-! ## A direction -/

/-- The messages of a direction its reader has not opened. -/
def inFlight (sent : List (Sent B)) (reader : Conversation B) : List (Sent B) :=
  sent.drop reader.receiving.nextSeq

/-- What a sealed message says of its sealing. -/
structure Faithful (C : Crypto B) (readerTurns : List (OwnTurn B)) (s : Sent B) : Prop where
  n : s.sealing.header.n = s.sealing.n
  m : s.sealing.header.m = s.sealing.mSeen.getD 0
  ciphertext : ∃ nonce, s.ciphertext =
    C.sealEnvelope s.sealing.key nonce (messageAad C s.sealing.header) s.body
  /-- A turn's first message is encapsulated to a turn of its reader's. -/
  names : s.sealing.minted.isSome →
    ∃ own : OwnTurn B, readerTurns[own.m]? = some own ∧ Names s.sealing own

/-- A direction, from its writer's sending half to its reader. -/
structure Linked (C : Crypto B) (writer : Direction B) (reader : Conversation B)
    (sent : List (Sent B)) (turns readerTurns : List (OwnTurn B)) : Prop where
  seq : writer.seq = sent.length
  indexed : ∀ (i : Nat) (s : Sent B), sent[i]? = some s → s.sealing.header.seq = i
  next_le : reader.receiving.nextSeq ≤ sent.length
  pipe : Trail (Follows C) reader.receiving.schedule ((inFlight sent reader).map (·.sealing))
    writer.schedule
  faithful : ∀ s ∈ sent, Faithful C readerTurns s
  read_le : readCount reader ≤ turns.length
  flight : (inFlight sent reader).filterMap (·.sealing.minted) = turns.drop (readCount reader)
  /-- What the reader knows of the writer's turns. -/
  latest : ∀ t, reader.receiving.peerLatest = some t →
    ∃ own : OwnTurn B, turns[own.m]? = some own ∧ t = own.asPeer
  held : ∀ m, reader.sending.mSeen = some m → ∃ own : OwnTurn B, turns[own.m]? = some own ∧ own.m = m ∧
    reader.sending.peerPk = some own.keypair.pk ∧ reader.sending.peerSs = own.ss
  unheld : reader.sending.mSeen = none →
    reader.sending.peerPk = none ∧ reader.sending.peerSs = none

theorem getElem?_append_of {α : Type*} {xs ys : List α} {i : Nat} {a : α} (h : xs[i]? = some a) :
    (xs ++ ys)[i]? = some a := by
  rw [List.getElem?_append_left (List.getElem?_eq_some_iff.mp h).1, h]

/-- The turn a prepared message starts is encapsulated to the peer turn the
side has read last. -/
theorem names_of_prepare {d : Direction B} {c : Conversation B} {sent : List (Sent B)}
    {turns own : List (OwnTurn B)} (h : Linked C d c sent turns own) {deviceId : Nat}
    {fill : List (Option B)} {s : Sealing B} (hs : c.prepare C deviceId fill = .ok s)
    (hpk : s.peerPk.isSome) :
    ∃ t : OwnTurn B, turns[t.m]? = some t ∧ Names s t := by
  have taken := (prepare_ok hs).taken
  rcases takeInput_cases c c.receiving.nextSeq with ⟨t, ht, _, he⟩ | ⟨_, he⟩
  · rw [he, Prod.mk.injEq, Prod.mk.injEq] at taken
    obtain ⟨own, hown, rfl⟩ := h.latest t ht
    exact ⟨own, hown, taken.1, taken.2.1, taken.2.2⟩
  · rw [he, Prod.mk.injEq, Prod.mk.injEq] at taken
    cases hm : c.sending.mSeen with
    | none => simp [taken.2.1, (h.unheld hm).1] at hpk
    | some m =>
      obtain ⟨own, hown, rfl, hpk', hss⟩ := h.held m hm
      exact ⟨own, hown, taken.1.trans hm, taken.2.1.trans hpk', taken.2.2.trans hss⟩

/-- The writer seals a message. -/
theorem Linked.writes {c c' : Conversation B} {d' : Direction B} {sent sent' : List (Sent B)}
    {turns turns' : List (OwnTurn B)} (h : Linked C c.sending c' sent turns turns')
    (back : Linked C d' c sent' turns' turns) {deviceId : Nat} {fill : List (Option B)}
    {s : Sealing B} (hs : c.prepare C deviceId fill = .ok s) (nonce body : B) :
    Linked C (c.sealed s).sending c'
      (sent ++ [⟨s, body, C.sealEnvelope s.key nonce (messageAad C s.header) body⟩])
      (turns ++ s.minted.toList) turns' := by
  have prepared := prepare_ok hs
  have hflight : ∀ x : Sent B, inFlight (sent ++ [x]) c' = inFlight sent c' ++ [x] := fun x =>
    List.drop_append_of_le_length h.next_le
  refine ⟨by simp [Conversation.sealed, h.seq], ?_, ?_, ?_, ?_, ?_, ?_, ?_, ?_, h.unheld⟩
  · intro i t ht
    rw [List.getElem?_append] at ht
    split at ht
    · exact h.indexed i t ht
    · cases hi : i - sent.length with
      | succ k => simp [hi] at ht
      | zero =>
        simp only [hi, List.getElem?_cons_zero, Option.some.injEq] at ht
        have : s.header.seq = sent.length := prepared.seq.trans h.seq
        rw [← ht, this]
        omega
  · have := h.next_le
    simp
    omega
  · rw [hflight, List.map_append, List.map_singleton]
    exact h.pipe.snoc ⟨Conversation.prepare_made hs, rfl⟩
  · intro t ht
    rw [List.mem_append, List.mem_singleton] at ht
    rcases ht with ht | rfl
    · exact h.faithful t ht
    · exact ⟨prepared.n, prepared.m, ⟨nonce, rfl⟩, fun hm =>
        names_of_prepare back hs (made_peerPk prepared.made hm)⟩
  · rw [List.length_append]
    exact Nat.le_add_right_of_le h.read_le
  · rw [hflight, List.filterMap_append, h.flight, List.drop_append_of_le_length h.read_le]
    cases hm : s.minted <;> simp [hm]
  · intro t ht
    obtain ⟨own, hown, ht'⟩ := h.latest t ht
    exact ⟨own, getElem?_append_of hown, ht'⟩
  · intro m hm
    obtain ⟨own, hown, hrest⟩ := h.held m hm
    exact ⟨own, getElem?_append_of hown, hrest⟩

theorem sealed_receiving (c : Conversation B) (s : Sealing B) :
    (c.sealed s).receiving.schedule = c.receiving.schedule ∧
      (c.sealed s).receiving.nextSeq = c.receiving.nextSeq ∧
      (c.sealed s).receiving.peerLatest = c.receiving.peerLatest := by
  cases hm : s.minted <;>
    simp [Conversation.sealed, hm, Receiving.retain, Receiving.schedule]

/-- The reader seals a message of its own. -/
theorem Linked.readerSeals {d : Direction B} {c : Conversation B} {sent : List (Sent B)}
    {turns own : List (OwnTurn B)} (h : Linked C d c sent turns own) {deviceId : Nat}
    {fill : List (Option B)} {s : Sealing B} (hs : c.prepare C deviceId fill = .ok s) :
    Linked C d (c.sealed s) sent turns (own ++ s.minted.toList) := by
  obtain ⟨hsched, hnext, hlatest⟩ := sealed_receiving c s
  have hcount : readCount (c.sealed s) = readCount c := by simp [readCount, hlatest]
  have hflight : inFlight sent (c.sealed s) = inFlight sent c := by simp [inFlight, hnext]
  refine ⟨h.seq, h.indexed, hnext ▸ h.next_le, ?_, ?_, hcount ▸ h.read_le, ?_, ?_, ?_, ?_⟩
  · rw [hsched, hflight]
    exact h.pipe
  · intro t ht
    have f := h.faithful t ht
    refine ⟨f.n, f.m, f.ciphertext, fun hm => ?_⟩
    obtain ⟨turn, hturn, names⟩ := f.names hm
    exact ⟨turn, getElem?_append_of hturn, names⟩
  · rw [hflight, hcount]
    exact h.flight
  · rw [hlatest]
    exact h.latest
  · intro m hm
    have taken := (prepare_ok hs).taken
    have hsome : s.mSeen = some m := hm
    rcases takeInput_cases c c.receiving.nextSeq with ⟨t, ht, _, he⟩ | ⟨_, he⟩
    · rw [he, Prod.mk.injEq, Prod.mk.injEq] at taken
      obtain ⟨turn, hturn, rfl⟩ := h.latest t ht
      exact ⟨turn, hturn, Option.some.inj (taken.1.symm.trans hsome), taken.2.1, taken.2.2⟩
    · rw [he, Prod.mk.injEq, Prod.mk.injEq] at taken
      obtain ⟨turn, hturn, hm', hpk, hss⟩ := h.held m (taken.1.symm.trans hsome)
      exact ⟨turn, hturn, hm', taken.2.1.trans hpk, taken.2.2.trans hss⟩
  · intro hm
    have taken := (prepare_ok hs).taken
    have hnone : s.mSeen = none := hm
    rcases takeInput_cases c c.receiving.nextSeq with ⟨t, ht, _, he⟩ | ⟨_, he⟩
    · rw [he, Prod.mk.injEq, Prod.mk.injEq] at taken
      rw [hnone] at taken
      cases taken.1
    · rw [he, Prod.mk.injEq, Prod.mk.injEq] at taken
      have hu := h.unheld (taken.1.symm.trans hnone)
      exact ⟨taken.2.1.trans hu.1, taken.2.2.trans hu.2⟩

/-! ## Opening the next message -/

/-- The next message of the pipe, between the schedules around it. -/
theorem Linked.head {d : Direction B} {c : Conversation B} {sent : List (Sent B)}
    {turns own : List (OwnTurn B)} (h : Linked C d c sent turns own) {x : Sent B}
    (hx : sent[c.receiving.nextSeq]? = some x) :
    Made C c.receiving.schedule x.sealing ∧
      inFlight sent c = x :: sent.drop (c.receiving.nextSeq + 1) ∧
      Trail (Follows C) x.sealing.after
        ((sent.drop (c.receiving.nextSeq + 1)).map (·.sealing)) d.schedule := by
  have hdrop : inFlight sent c = x :: sent.drop (c.receiving.nextSeq + 1) := by
    obtain ⟨hi, rfl⟩ := List.getElem?_eq_some_iff.mp hx
    exact List.drop_eq_getElem_cons hi
  have pipe := h.pipe
  rw [hdrop, List.map_cons] at pipe
  cases pipe with
  | cons head tail =>
    obtain ⟨made, rfl⟩ := head
    exact ⟨made, hdrop, tail⟩

/-- The message numbered as the reader expects is the next of the pipe. -/
theorem Linked.at_next {d : Direction B} {c : Conversation B} {sent : List (Sent B)}
    {turns own : List (OwnTurn B)} (h : Linked C d c sent turns own) {x : Sent B}
    (hx : x ∈ sent) (seq : x.sealing.header.seq = c.receiving.nextSeq) :
    sent[c.receiving.nextSeq]? = some x := by
  obtain ⟨i, hi⟩ := List.getElem?_of_mem hx
  rwa [← seq, h.indexed i x hi]

theorem minted_kem {a : Schedule B} {s : Sealing B} (made : Made C a s) :
    s.minted.isSome = s.header.kemCt.isSome := by
  cases made with
  | continues ck chain key next root n ct pk minted => simp [minted, ct]
  | starts peer d z m peerPk root key next n ct pk minted => simp [minted, ct]

/-- The reader keeps the own turn the message names, where it names one. -/
def Kept (c : Conversation B) (s : Sealing B) : Prop :=
  s.minted.isSome → (c.receiving.ownTurn s.header.m).isSome

/-- **A kept turn is the turn named**: the next message is read back as its
writer made it. -/
theorem Linked.reads (kem : KemCorrect C) {d : Direction B} {c : Conversation B}
    {sent : List (Sent B)} {turns own : List (OwnTurn B)} (h : Linked C d c sent turns own)
    (half : Half C c own) {x : Sent B} (hx : sent[c.receiving.nextSeq]? = some x)
    (kept : Kept c x.sealing) :
    ∃ r, c.receiving.readTurn C x.sealing.header = .ok r ∧
      (step C r.chain).1 = x.sealing.key ∧
      (c.receiving.commit C x.sealing.header r).schedule = x.sealing.after ∧
      r.read = x.sealing.minted.map OwnTurn.asPeer := by
  have faithful := h.faithful x (List.mem_of_getElem? hx)
  refine readTurn_of_made kem (h.head hx).1 faithful.n fun hm => ?_
  obtain ⟨t, ht⟩ := Option.isSome_iff_exists.mp (kept hm)
  obtain ⟨retains, htm⟩ := ownTurn_retains ht
  obtain ⟨named, hnamed, names⟩ := faithful.names hm
  have hheader : x.sealing.header.m = named.m := by rw [faithful.m, names.m]; rfl
  have hsame : t = named := by
    have := half.retained retains
    rw [htm, hheader, hnamed] at this
    exact (Option.some.inj this).symm
  subst hsame
  obtain ⟨d', z', hpair⟩ := half.pairs t (List.mem_of_getElem? hnamed)
  exact ⟨t, d', z', ht, hpair, names⟩

/-- An open that reads the next message's header keeps the turn it names. -/
theorem Linked.kept {d : Direction B} {c : Conversation B} {sent : List (Sent B)}
    {turns own : List (OwnTurn B)} (h : Linked C d c sent turns own) {x : Sent B}
    (hx : sent[c.receiving.nextSeq]? = some x) {r : Reading B}
    (hr : c.receiving.readTurn C x.sealing.header = .ok r) : Kept c x.sealing := by
  intro hm
  rw [minted_kem (h.head hx).1] at hm
  rcases readTurn_ok hr with ⟨hct, _⟩ | ⟨ct, pk, t, _, _, ht, _⟩
  · simp [hct] at hm
  · simp [ht]

/-- The turn the next message starts is the next turn to be read. -/
theorem Linked.head_turn {d : Direction B} {c : Conversation B} {sent : List (Sent B)}
    {turns own : List (OwnTurn B)} (h : Linked C d c sent turns own) {x : Sent B}
    (hx : sent[c.receiving.nextSeq]? = some x) {t : OwnTurn B} (hm : x.sealing.minted = some t) :
    turns[readCount c]? = some t := by
  have hflight := h.flight
  rw [(h.head hx).2.1,
    List.filterMap_cons_some (f := fun s : Sent B => s.sealing.minted) hm] at hflight
  rw [← List.head?_drop, ← hflight]
  rfl

/-- The reader opens the next message. -/
theorem Linked.readerOpens (kem : KemCorrect C) {d : Direction B} {c : Conversation B}
    {sent : List (Sent B)} {turns own : List (OwnTurn B)} (h : Linked C d c sent turns own)
    (half : Half C c own)
    (numbered : ∀ (i : Nat) (t : OwnTurn B), turns[i]? = some t → t.m = i) {x : Sent B}
    (hx : sent[c.receiving.nextSeq]? = some x) {r : Reading B}
    (hr : c.receiving.readTurn C x.sealing.header = .ok r) :
    Linked C d { c with receiving := c.receiving.commit C x.sealing.header r } sent turns own := by
  obtain ⟨made, hdrop, tail⟩ := h.head hx
  obtain ⟨r', hr', _, hsched, hread⟩ := h.reads kem half hx (h.kept hx hr)
  obtain rfl := Except.ok.inj (hr'.symm.trans hr)
  have hflight := h.flight
  rw [hdrop] at hflight
  have hlt := (List.getElem?_eq_some_iff.mp hx).1
  cases hm : x.sealing.minted with
  | none =>
    have hlatest : (c.receiving.commit C x.sealing.header r').peerLatest =
        c.receiving.peerLatest := by simp [Receiving.commit, hread, hm]
    have hcount : readCount { c with receiving := c.receiving.commit C x.sealing.header r' } =
        readCount c := by simp [readCount, hlatest]
    rw [List.filterMap_cons_none (f := fun s : Sent B => s.sealing.minted) hm] at hflight
    refine ⟨h.seq, h.indexed, hlt, ?_, h.faithful, ?_, ?_, ?_, h.held, h.unheld⟩
    · rw [hsched]
      exact tail
    · rw [hcount]
      exact h.read_le
    · rw [hcount]
      exact hflight
    · rw [hlatest]
      exact h.latest
  | some t =>
    have hlatest : (c.receiving.commit C x.sealing.header r').peerLatest = some t.asPeer := by
      simp [Receiving.commit, hread, hm]
    rw [List.filterMap_cons_some (f := fun s : Sent B => s.sealing.minted) hm] at hflight
    have hget := h.head_turn hx hm
    have htm : t.m = readCount c := numbered _ t hget
    have hcount : readCount { c with receiving := c.receiving.commit C x.sealing.header r' } =
        readCount c + 1 := by simp [readCount, hlatest, OwnTurn.asPeer, htm]
    refine ⟨h.seq, h.indexed, hlt, ?_, h.faithful, ?_, ?_, ?_, h.held, h.unheld⟩
    · rw [hsched]
      exact tail
    · rw [hcount]
      exact (List.getElem?_eq_some_iff.mp hget).1
    · rw [hcount, ← List.tail_drop, ← hflight]
      rfl
    · intro u hu
      rw [hlatest] at hu
      exact ⟨t, htm ▸ hget, (Option.some.inj hu).symm⟩

/-! ## Runs -/

/-- What a run keeps of one side and of the direction it writes. -/
structure Agreed (C : Crypto B) (ss0 : B) (w : World B) (p : Role) : Prop where
  separated : Separated C ss0 w p
  half : Half C (w.conv p) (w.turns p)
  linked : Linked C (w.conv p).sending (w.conv p.peer) (w.sent p) (w.turns p) (w.turns p.peer)

theorem started_agreed {w : World B} (h : Started C ss0 w) (p : Role) : Agreed C ss0 w p := by
  have sep := started_separated h p
  obtain ⟨d, z, rfl⟩ := started_iff.mp h
  refine ⟨sep, ?_, ?_⟩
  · cases p with
    | initiator =>
      refine ⟨?_, ?_, rfl, ?_, rfl, ?_, rfl⟩
      · intro i t ht
        cases i with
        | zero => rw [show t = ⟨0, ⟨(C.keygen d z).1, (C.keygen d z).2⟩, none⟩ by
            simpa [World.start] using ht.symm]
        | succ i => simp [World.start] at ht
      · intro t ht
        simp only [World.start, List.mem_singleton] at ht
        exact ⟨d, z, by rw [ht]⟩
      all_goals simp [World.start, freshReceiving, freshSending, Receiving.retain]
    | acceptor =>
      refine ⟨?_, ?_, rfl, ?_, rfl, ?_, rfl⟩ <;>
        simp [World.start, accept, freshReceiving, freshSending]
  · cases p with
    | initiator =>
      refine ⟨rfl, ?_, ?_, .nil _, ?_, ?_, ?_, fun t ht => ?_, ?_, ?_⟩
      case refine_6 =>
        exact ⟨⟨0, ⟨(C.keygen d z).1, (C.keygen d z).2⟩, none⟩, rfl, (Option.some.inj ht).symm⟩
      all_goals
        simp [World.start, accept, freshReceiving, freshSending, Role.peer, readCount, inFlight]
    | acceptor =>
      refine ⟨rfl, ?_, ?_, .nil _, ?_, ?_, ?_, ?_, ?_, ?_⟩ <;>
        simp [World.start, freshReceiving, freshSending, Role.peer, readCount, inFlight,
          Receiving.retain]

/-- **What the envelope lets a side open is the next message of the pipe**:
a key and a header belong to one message of one direction. -/
theorem opens_head (inj : HkdfInjective C) {w : World B} (h : ∀ p, Agreed C ss0 w p) {p : Role}
    {header : MessageHeader B} {ciphertext body : B} {r : Reading B}
    (genuine : Genuine C w p header ciphertext)
    (seq : header.seq = (w.conv p).receiving.nextSeq)
    (read : (w.conv p).receiving.readTurn C header = .ok r)
    (opened : C.openEnvelope (step C r.chain).1 (messageAad C header) ciphertext = some body) :
    ∃ x, (w.sent p.peer)[(w.conv p).receiving.nextSeq]? = some x ∧ x.sealing.header = header ∧
      x.ciphertext = ciphertext ∧ x.sealing.key = (step C r.chain).1 := by
  obtain ⟨q, x, hx, hkey, haad, hct⟩ := genuine r read (by simp [opened])
  obtain ⟨k, j, at_⟩ := (h p).separated.rooted.reads
  obtain ⟨_, _, _, hread, _⟩ := (h p).separated.rooted.readAt read at_
  obtain ⟨k', j', at_'⟩ := (h q).separated.rooted.writes
  obtain ⟨_, _, _, hsent⟩ := (h q).separated.keyed.older k' j' at_' x hx
  obtain rfl := (Placed.unique inj hsent (hkey ▸ hread)).1
  have hheader := messageAad_inj haad
  obtain ⟨i, hi⟩ := List.getElem?_of_mem hx
  have hseq := (h p.peer).linked.indexed i x hi
  rw [hheader, seq] at hseq
  exact ⟨x, hseq ▸ hi, hheader, hct, hkey⟩

/-- A side's own turns: only its own seal mints one, only its own open
drops one. -/
theorem next_half {w : World B} (e : Event B) (h : ∀ p, Half C (w.conv p) (w.turns p)) (p : Role) :
    Half C ((next C w e).conv p) ((next C w e).turns p) := by
  have same : ∀ {q : Role} {d : Direction B}, d.chain = (w.conv q).sending.chain →
      d.n = (w.conv q).sending.n → d.pendingTurn = (w.conv q).sending.pendingTurn →
      Half C { w.conv q with sending := d } (w.turns q) := by
    intro q d hc hn hp
    refine ⟨(h q).numbered, (h q).pairs, ?_, ?_, (h q).newest, (h q).older, hp.trans (h q).settled⟩
    · rw [hc, hn]; exact (h q).counted
    · rw [hc, hn]; exact (h q).unopened
  generalize hw : next C w e = w'
  cases hw ▸ next_moves (C := C) w e with
  | stays e cursor =>
    rcases e.side.eq_or_peer p with rfl | rfl
    · rw [setConv_self, setConv_turns]; exact same rfl rfl rfl
    · rw [setConv_peer, setConv_turns]; exact h _
  | forces q =>
    rcases q.eq_or_peer p with rfl | rfl
    · rw [setConv_self, setConv_turns]; exact same rfl rfl rfl
    · rw [setConv_peer, setConv_turns]; exact h _
  | seals q body deviceId fill nonce s hs =>
    rcases q.eq_or_peer p with rfl | rfl
    · rw [push_conv, setConv_self, push_turns_self, setConv_turns]
      exact (h _).seals (Conversation.prepare_made hs)
    · rw [push_conv, setConv_peer, push_turns_peer, setConv_turns]; exact h _
  | opens q header ciphertext body r _ hr =>
    rcases q.eq_or_peer p with rfl | rfl
    · rw [setConv_self, setConv_turns]; exact (h _).opens header r
    · rw [setConv_peer, setConv_turns]; exact h _

/-- What a link says is read off few of the fields of its two ends. -/
theorem Linked.congr {d d' : Direction B} {c c' : Conversation B} {sent : List (Sent B)}
    {turns own : List (OwnTurn B)} (h : Linked C d c sent turns own) (hseq : d'.seq = d.seq)
    (hd : d'.schedule = d.schedule) (hr : c'.receiving = c.receiving)
    (hm : c'.sending.mSeen = c.sending.mSeen) (hpk : c'.sending.peerPk = c.sending.peerPk)
    (hss : c'.sending.peerSs = c.sending.peerSs) : Linked C d' c' sent turns own := by
  have hcount : readCount c' = readCount c := by rw [readCount, hr]; rfl
  have hflight : inFlight sent c' = inFlight sent c := by rw [inFlight, hr]; rfl
  refine ⟨hseq.trans h.seq, h.indexed, hr ▸ h.next_le, ?_, h.faithful, hcount ▸ h.read_le, ?_, ?_,
    ?_, ?_⟩
  · rw [hr, hd, hflight]; exact h.pipe
  · rw [hflight, hcount]; exact h.flight
  · rw [hr]; exact h.latest
  · rw [hm, hpk, hss]; exact h.held
  · rw [hm, hpk, hss]; exact h.unheld

/-- The link of the direction `p` reads. -/
theorem Agreed.back {w : World B} {p : Role} (h : Agreed C ss0 w p.peer) :
    Linked C (w.conv p.peer).sending (w.conv p) (w.sent p.peer) (w.turns p.peer) (w.turns p) := by
  simpa using h.linked

/-- The link of the direction `p` writes. -/
def Link (C : Crypto B) (w : World B) (p : Role) : Prop :=
  Linked C (w.conv p).sending (w.conv p.peer) (w.sent p) (w.turns p) (w.turns p.peer)

theorem next_link (inj : HkdfInjective C) (kem : KemCorrect C) {w : World B} {e : Event B}
    (h : ∀ p, Agreed C ss0 w p) (genuine : e.Genuine C w) (p : Role) : Link C (next C w e) p := by
  have back (q : Role) := (h q.peer).back
  generalize hw : next C w e = w'
  cases hw ▸ next_moves (C := C) w e with
  | stays e cursor =>
    rcases e.side.eq_or_peer p with rfl | rfl
    · simp only [Link, setConv_self, setConv_peer, setConv_sent, setConv_turns]
      exact (h e.side).linked.congr rfl rfl rfl rfl rfl rfl
    · simp only [Link, Role.peer_peer, setConv_self, setConv_peer, setConv_sent, setConv_turns]
      exact (back e.side).congr rfl rfl rfl rfl rfl rfl
  | forces q =>
    rcases q.eq_or_peer p with rfl | rfl
    · simp only [Link, setConv_self, setConv_peer, setConv_sent, setConv_turns]
      exact (h p).linked.congr rfl rfl rfl rfl rfl rfl
    · simp only [Link, Role.peer_peer, setConv_self, setConv_peer, setConv_sent, setConv_turns]
      exact (back q).congr rfl rfl rfl rfl rfl rfl
  | seals q body deviceId fill nonce s hs =>
    rcases q.eq_or_peer p with rfl | rfl
    · simpa [Link] using (h p).linked.writes (back p) hs nonce body
    · simpa [Link] using (back q).readerSeals hs
  | opens q header ciphertext body r hseq hr hopen =>
    rcases q.eq_or_peer p with rfl | rfl
    · simp only [Link, setConv_self, setConv_peer, setConv_sent, setConv_turns]
      exact (h p).linked.congr rfl rfl rfl rfl rfl rfl
    · obtain ⟨x, hx, rfl, _, _⟩ := opens_head inj h genuine hseq hr hopen
      simpa [Link] using (back q).readerOpens kem (h q).half (h q.peer).half.numbered hx hr

theorem next_agreed (inj : HkdfInjective C) (kem : KemCorrect C) {w : World B} {e : Event B}
    (h : ∀ p, Agreed C ss0 w p) (genuine : e.Genuine C w) (p : Role) :
    Agreed C ss0 (next C w e) p :=
  ⟨next_separated inj e (fun p => (h p).separated) p, next_half e (fun p => (h p).half) p,
    next_link inj kem h genuine p⟩

/-- **The two halves agree over every run** under an envelope that cannot be
forged, forced turns included. -/
theorem run_agreed (inj : HkdfInjective C) (kem : KemCorrect C) {w₀ w : World B}
    {es : List (Event B)} (start : Started C ss0 w₀) (run : Trail (GenuineSteps C) w₀ es w)
    (p : Role) : Agreed C ss0 w p := by
  refine run.invariant (I := fun w => ∀ p, Agreed C ss0 w p) ?_ (started_agreed start) p
  rintro v e _ h ⟨genuine, rfl⟩
  exact next_agreed inj kem h genuine

/-- **A message delivered in sequence opens to its body exactly when its
reader keeps the turn it names**; otherwise that turn is gone. -/
theorem Agreed.open_head (kem : KemCorrect C) (aead : AeadCorrect C) {w : World B}
    (h : ∀ p, Agreed C ss0 w p) {p : Role} {x : Sent B}
    (hx : x ∈ w.sent p.peer) (seq : x.sealing.header.seq = (w.conv p).receiving.nextSeq) :
    (Kept (w.conv p) x.sealing →
      ((w.conv p).openMessage C x.sealing.header x.ciphertext).1 = .ok x.body) ∧
    (¬ Kept (w.conv p) x.sealing →
      ((w.conv p).openMessage C x.sealing.header x.ciphertext).1 =
        .error (.secretGone x.sealing.header.m)) := by
  have link := (h p.peer).back
  have hhead := link.at_next hx seq
  constructor
  · intro kept
    obtain ⟨r, hr, hkey, _⟩ := link.reads kem (h p).half hhead kept
    obtain ⟨nonce, hct⟩ := (link.faithful x hx).ciphertext
    have hopen : C.openEnvelope (step C r.chain).1 (messageAad C x.sealing.header) x.ciphertext =
        some x.body := by
      rw [hkey, hct]
      exact aead.open_seal _ _ _ _
    rw [Conversation.openMessage, openMessage_of seq hr hopen]
  · intro gone
    have hgone : x.sealing.minted.isSome ∧
        (w.conv p).receiving.ownTurn x.sealing.header.m = none := by
      simpa [Kept] using gone
    have made := (link.head hhead).1
    cases made with
    | continues ck chain key next root n ct pk minted => simp [minted] at hgone
    | starts peer d z m peerPk root key next n ct pk minted =>
      simp [Conversation.openMessage, Receiving.openMessage, seq, Receiving.readTurn, ct, pk,
        hgone.2]

/-! ## Honest runs -/

/-- What is delivered in sequence is genuine. -/
theorem deliverNext_genuine (kem : KemCorrect C) {w : World B} (h : ∀ p, Agreed C ss0 w p)
    (p : Role) : (deliverNext w p).Genuine C w := by
  unfold deliverNext
  cases hx : (w.sent p.peer)[(w.conv p).receiving.nextSeq]? with
  | none => trivial
  | some x =>
    intro r hr _
    have link := (h p.peer).back
    obtain ⟨r', hr', hkey, _⟩ := link.reads kem (h p).half hx (link.kept hx hr)
    obtain rfl := Except.ok.inj (hr'.symm.trans hr)
    exact ⟨p.peer, x, List.mem_of_getElem? hx, hkey.symm, rfl, rfl⟩

/-- The events of a schedule that may look at the world, as they happen. -/
def played (C : Crypto B) : World B → List (World B → Event B) → List (Event B)
  | _, [] => []
  | w, f :: rest => f w :: played C (next C w (f w)) rest

theorem mem_played {w : World B} {fs : List (World B → Event B)} {e : Event B}
    (h : e ∈ played C w fs) : ∃ f ∈ fs, ∃ v, e = f v := by
  induction fs generalizing w with
  | nil => simp [played] at h
  | cons f rest ih =>
    rw [played, List.mem_cons] at h
    rcases h with rfl | h
    · exact ⟨f, by simp, w, rfl⟩
    · obtain ⟨g, hg, v, hv⟩ := ih h
      exact ⟨g, List.mem_cons_of_mem _ hg, v, hv⟩

/-- A schedule of seals, forced turns and deliveries in sequence is a run. -/
theorem played_run (inj : HkdfInjective C) (kem : KemCorrect C) {w : World B}
    (h : ∀ p, Agreed C ss0 w p) (fs : List (World B → Event B))
    (honest : ∀ f ∈ fs, ∀ w, (∀ p, Agreed C ss0 w p) → (f w).Genuine C w) :
    Trail (GenuineSteps C) w (played C w fs) ((played C w fs).foldl (next C) w) := by
  induction fs generalizing w with
  | nil => exact .nil w
  | cons f rest ih =>
    simp only [List.forall_mem_cons] at honest
    have genuine := honest.1 w h
    exact .cons ⟨genuine, rfl⟩ (ih (next_agreed inj kem h genuine) honest.2)

end Daemonseed.Dm.Agreement
