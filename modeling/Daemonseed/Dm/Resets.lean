import Daemonseed.Dm.Agreement

/-! # Which forced turns a conversation survives

The turns of a run are a play of the turn game, and a message is lost where
the game is: where it names an own turn its reader no longer keeps. Without
resets that never happens. With them it does not happen as long as no side
forces a turn while it still keeps the turn before its newest. -/
namespace Daemonseed.Dm.Resets
open Daemonseed.Dm.Primitives Daemonseed.Dm.Channel Daemonseed.Dm.Chain Daemonseed.Dm.Session
open Daemonseed.Dm.Separation Daemonseed.Dm.Agreement Daemonseed.Dm.TurnGame
open Daemonseed.Dm.Symbolic Daemonseed.Lib.Runs

variable {B : Type} {C : Crypto B} {ss0 : B}

/-- A turn number as the game counts it. -/
def count (m : Option Nat) : Nat := m.elim 0 (· + 1)

/-- The turns a direction has in flight, by what each names. -/
def names (sent : List (Sent B)) (reader : Conversation B) : List Nat :=
  (inFlight sent reader).filterMap fun x => x.sealing.minted.map fun _ => count x.sealing.mSeen

/-- One side of a run, as a side of the game. -/
def side (w : World B) (p : Role) : Side where
  minted := (w.turns p).length
  older := (w.conv p).receiving.ownTurns.2.isSome
  read := readCount (w.conv p)
  seen := count (w.conv p).sending.mSeen
  queue := names (w.sent p) (w.conv p.peer)

/-- The rule makes a turn due: a turn of the peer's was read since the last
message. -/
def ruleDue (c : Conversation B) : Bool := c.receiving.peerLatest.any (c.sending.isNews ·.m)

theorem turnDue_eq (c : Conversation B) (cursor : Nat) :
    (c.sending.setCursor cursor).turnDue c.turnInput = (c.sending.forceTurn || ruleDue c) := by
  unfold Direction.turnDue Conversation.turnInput ruleDue
  cases hl : c.receiving.peerLatest with
  | none => cases hf : c.sending.forceTurn <;> simp [Direction.setCursor, hf]
  | some t =>
    cases hf : c.sending.forceTurn <;> simp [Direction.setCursor, Direction.isNews, hf]

theorem ruleDue_iff (c : Conversation B) :
    ruleDue c = true ↔ count c.sending.mSeen < readCount c := by
  unfold ruleDue readCount count Direction.isNews
  cases c.receiving.peerLatest <;> cases c.sending.mSeen <;> simp

/-- What a seal has seen of the peer's turns. -/
theorem seen_of_prepare {c : Conversation B} {deviceId : Nat} {fill : List (Option B)}
    {s : Sealing B} (hs : c.prepare C deviceId fill = .ok s)
    (le : count c.sending.mSeen ≤ readCount c) : count s.mSeen = readCount c := by
  have taken := (prepare_ok hs).taken
  rcases takeInput_cases c c.receiving.nextSeq with ⟨t, ht, _, he⟩ | ⟨hn, he⟩
  · rw [he, Prod.mk.injEq, Prod.mk.injEq] at taken
    simp [taken.1, count, readCount, ht]
  · rw [he, Prod.mk.injEq, Prod.mk.injEq] at taken
    rw [taken.1]
    refine Nat.le_antisymm le (Nat.not_lt.mp fun hlt => ?_)
    have hdue := (ruleDue_iff c).mpr hlt
    cases hl : c.receiving.peerLatest with
    | none => simp [ruleDue, hl] at hdue
    | some t => simp [ruleDue, hl, hn t hl] at hdue

/-! ## Runs as plays -/

/-- A turn that the flag alone makes due is sealed only once the own turn
before the newest is gone. -/
def Event.Spaced (w : World B) : Event B → Prop
  | .sealMessage p .. => (w.conv p).sending.forceTurn = true → ruleDue (w.conv p) = false →
      (w.conv p).receiving.ownTurns.2 = none
  | _ => True

/-- One event of a run that spaces its forced turns. -/
def SpacedSteps (C : Crypto B) (w : World B) (e : Event B) (w' : World B) : Prop :=
  Event.Spaced w e ∧ GenuineSteps C w e w'

/-- Both directions of a play are linked. -/
def Play (w : World B) : Prop := ∀ p, TurnGame.Link (side w p) (side w p.peer)

theorem started_play {w : World B} (h : Started C ss0 w) : Play w := by
  obtain ⟨d, z, rfl⟩ := started_iff.mp h
  intro p
  cases p with
  | initiator =>
    refine ⟨rfl, ?_, ?_, ?_, .empty, ?_, ?_⟩ <;>
      simp [side, names, inFlight, World.start, Role.peer, accept, freshReceiving, freshSending,
        Receiving.retain, readCount, count]
  | acceptor =>
    refine ⟨rfl, ?_, ?_, ?_, .empty, ?_, ?_⟩ <;>
      simp [side, names, inFlight, World.start, Role.peer, accept, freshReceiving, freshSending,
        Receiving.retain, readCount, count]

/-- A sealed message plays a turn, or nothing. -/
theorem side_seals {w : World B} {p : Role} {deviceId : Nat} {fill : List (Option B)}
    {s : Sealing B} (hs : (w.conv p).prepare C deviceId fill = .ok s)
    (half : Half C (w.conv p) (w.turns p)) (le : (side w p).seen ≤ (side w p).read)
    (next_le : (w.conv p.peer).receiving.nextSeq ≤ (w.sent p).length) (body ct : B) :
    side ((w.setConv p ((w.conv p).sealed s)).push p ⟨s, body, ct⟩) p =
        (if s.minted.isSome then (side w p).start else side w p) ∧
      side ((w.setConv p ((w.conv p).sealed s)).push p ⟨s, body, ct⟩) p.peer = side w p.peer := by
  obtain ⟨_, hnext, hlatest⟩ := sealed_receiving (w.conv p) s
  have hcount : readCount ((w.conv p).sealed s) = readCount (w.conv p) := by
    simp [readCount, hlatest]
  have hseen : count s.mSeen = readCount (w.conv p) := seen_of_prepare hs le
  have hnames : names (w.sent p ++ [⟨s, body, ct⟩]) (w.conv p.peer) =
      names (w.sent p) (w.conv p.peer) ++
        (s.minted.map fun _ => readCount (w.conv p)).toList := by
    rw [names, inFlight, List.drop_append_of_le_length next_le, List.filterMap_append, ← hseen]
    cases hm : s.minted <;> simp [names, inFlight, hm]
  have hpeer : names (w.sent p.peer) ((w.conv p).sealed s) =
      names (w.sent p.peer) (w.conv p) := by simp [names, inFlight, hnext]
  have hside : side ((w.setConv p ((w.conv p).sealed s)).push p ⟨s, body, ct⟩) p =
      { minted := (w.turns p ++ s.minted.toList).length
        older := ((w.conv p).sealed s).receiving.ownTurns.2.isSome
        read := readCount (w.conv p)
        seen := readCount (w.conv p)
        queue := names (w.sent p) (w.conv p.peer) ++
          (s.minted.map fun _ => readCount (w.conv p)).toList } := by
    have hmSeen : ((w.conv p).sealed s).sending.mSeen = s.mSeen := rfl
    simp only [side, push_conv, setConv_self, setConv_peer, push_self, push_turns_self,
      setConv_sent, setConv_turns, hcount, hmSeen, hseen, hnames]
  constructor
  · cases hm : s.minted with
    | none =>
      have hsame : count (w.conv p).sending.mSeen = readCount (w.conv p) := by
        have hdue := (prepare_ok hs).due
        rw [hm, turnDue_eq] at hdue
        have hrule : ruleDue (w.conv p) = false := by
          cases h : ruleDue (w.conv p) <;> simp_all
        have := (ruleDue_iff (w.conv p)).not.mp (by simp [hrule])
        exact Nat.le_antisymm le (Nat.not_lt.mp this)
      rw [hside]
      simp [side, hm, hsame, Conversation.sealed]
    | some turn =>
      have holder : (w.conv p).receiving.ownTurns.1.isSome = (side w p).start.older := by
        rw [half.newest]
        cases hw : w.turns p <;> simp [side, Side.start, hw]
      rw [hside]
      simp only [Conversation.sealed, hm, Option.elim_some, Receiving.retain, holder]
      simp [side, Side.start]
  · simp [side, hpeer]

/-- Reading a turn that names the newest own turn drops the one before. -/
theorem older_commit {c : Conversation B} {turns : List (OwnTurn B)} (half : Half C c turns)
    {x : Sent B} (faithful : Faithful C turns x) (hm : x.sealing.minted.isSome) {r : Reading B}
    (hread : r.read.isSome) :
    (c.receiving.commit C x.sealing.header r).ownTurns.2.isSome =
      if count x.sealing.mSeen = turns.length then false else c.receiving.ownTurns.2.isSome := by
  obtain ⟨named, hnamed, names⟩ := faithful.names hm
  have hlt := (List.getElem?_eq_some_iff.mp hnamed).1
  obtain ⟨last, hlast⟩ : ∃ last, turns[turns.length - 1]? = some last :=
    ⟨_, List.getElem?_eq_getElem (by omega)⟩
  have hlastm : last.m = turns.length - 1 := half.numbered _ last hlast
  have hnewest : c.receiving.ownTurns.1 = some last := by
    rw [half.newest, List.getLast?_eq_getElem?, hlast]
  have hheader : x.sealing.header.m = named.m := by rw [faithful.m, names.m]; rfl
  have hiff : last.m = x.sealing.header.m ↔ count x.sealing.mSeen = turns.length := by
    rw [names.m, hheader, hlastm]
    simp only [count, Option.elim_some]
    omega
  simp only [Receiving.commit, hread, hnewest, Option.any_some, Bool.true_and, beq_iff_eq, hiff]
  split <;> simp_all

/-- A message that is opened plays the turn it starts, or nothing. -/
theorem side_opens (kem : KemCorrect C) {w : World B} {p : Role}
    (link : Linked C (w.conv p.peer).sending (w.conv p) (w.sent p.peer) (w.turns p.peer)
      (w.turns p)) (half : Half C (w.conv p) (w.turns p))
    (half' : Half C (w.conv p.peer) (w.turns p.peer)) {x : Sent B}
    (hx : (w.sent p.peer)[(w.conv p).receiving.nextSeq]? = some x) {r : Reading B}
    (hr : (w.conv p).receiving.readTurn C x.sealing.header = .ok r) :
    let w' := w.setConv p { w.conv p with
      receiving := (w.conv p).receiving.commit C x.sealing.header r }
    (side w' p.peer = side w p.peer ∧ side w' p = side w p) ∨
    ∃ named rest, (side w p.peer).queue = named :: rest ∧
      side w' p.peer = (side w p.peer).pop ∧ side w' p = (side w p).take named := by
  intro w'
  obtain ⟨r', hr', _, _, hread⟩ := link.reads kem half hx (link.kept hx hr)
  obtain rfl := Except.ok.inj (hr'.symm.trans hr)
  have hdrop := (link.head hx).2.1
  have hpop : names (w.sent p.peer) (w'.conv p) =
      ((w.sent p.peer).drop ((w.conv p).receiving.nextSeq + 1)).filterMap
        fun x => x.sealing.minted.map fun _ => count x.sealing.mSeen := by
    simp [w', names, inFlight, Receiving.commit]
  cases hm : x.sealing.minted with
  | none =>
    left
    have hqueue : names (w.sent p.peer) (w'.conv p) = names (w.sent p.peer) (w.conv p) := by
      rw [hpop, names, hdrop, List.filterMap_cons_none (by simp [hm])]
    have hcount : readCount (w'.conv p) = readCount (w.conv p) := by
      simp [w', readCount, Receiving.commit, hread, hm]
    constructor
    · simpa [side, w'] using hqueue
    · simp only [side, hcount]
      simp [w', Receiving.commit, hread, hm]
  | some t =>
    right
    have hqueue : names (w.sent p.peer) (w.conv p) =
        count x.sealing.mSeen :: names (w.sent p.peer) (w'.conv p) := by
      rw [hpop, names, hdrop, List.filterMap_cons_some (by simp [hm]; rfl)]
    have hcount : readCount (w'.conv p) = readCount (w.conv p) + 1 := by
      have htm : t.m = readCount (w.conv p) := half'.numbered _ t (link.head_turn hx hm)
      simp [w', readCount, Receiving.commit, hread, hm, OwnTurn.asPeer] at htm ⊢
      exact htm
    refine ⟨count x.sealing.mSeen, names (w.sent p.peer) (w'.conv p), ?_, ?_, ?_⟩
    · simpa only [side, Role.peer_peer] using hqueue
    · simp only [side, Side.pop, Role.peer_peer, hqueue, List.tail_cons, Side.mk.injEq]
      simp [w']
    · have holder := older_commit half (link.faithful x (List.mem_of_getElem? hx))
        (by simp [hm]) (by simp [hread, hm] : r'.read.isSome)
      simp only [side, Side.take, hcount, Side.mk.injEq]
      simp only [w', setConv_self, setConv_peer, setConv_sent, setConv_turns, holder]
      by_cases newest : count x.sealing.mSeen = (w.turns p).length <;> simp [newest]

theorem next_play (inj : HkdfInjective C) (kem : KemCorrect C) {w : World B} {e : Event B}
    (h : ∀ p, Agreed C ss0 w p) (play : Play w) (spaced : Event.Spaced w e)
    (genuine : e.Genuine C w) : Play (next C w e) := by
  have back (q : Role) := (h q.peer).back
  -- both links of one side give both links of the other
  have both : ∀ {w' : World B} (q : Role), TurnGame.Link (side w' q) (side w' q.peer) →
      TurnGame.Link (side w' q.peer) (side w' q) → Play w' := by
    intro w' q hq hq' p
    rcases q.eq_or_peer p with rfl | rfl
    · exact hq
    · simpa using hq'
  have there (q : Role) := play q
  have here (q : Role) : TurnGame.Link (side w q.peer) (side w q) := by simpa using play q.peer
  generalize hw : next C w e = w'
  cases hw ▸ next_moves (C := C) w e with
  | stays e cursor =>
    refine both e.side ?_ ?_
    · simpa [side, readCount, names, inFlight, Direction.setCursor] using there e.side
    · simpa [side, readCount, names, inFlight, Direction.setCursor] using here e.side
  | forces q =>
    refine both q ?_ ?_
    · simpa [side, readCount, names, inFlight, Direction.forceNextTurn] using there q
    · simpa [side, readCount, names, inFlight, Direction.forceNextTurn] using here q
  | seals q body deviceId fill nonce s hs =>
    obtain ⟨hself, hpeer⟩ := side_seals hs (h q).half (there q).seen_le (h q).linked.next_le body
      (C.sealEnvelope s.key nonce (messageAad C s.header) body)
    cases hm : s.minted with
    | none =>
      simp only [hm, Option.isSome_none, Bool.false_eq_true, if_false] at hself
      exact both q (by rw [hself, hpeer]; exact there q) (by rw [hself, hpeer]; exact here q)
    | some turn =>
      simp only [hm, Option.isSome_some, if_true] at hself
      have hdue := (prepare_ok hs).due
      rw [hm, turnDue_eq] at hdue
      have hread : 0 < (side w q).read := by
        have hseen : count s.mSeen = readCount (w.conv q) := seen_of_prepare hs (there q).seen_le
        obtain ⟨t, _, named⟩ := names_of_prepare (back q) hs
          (made_peerPk (prepare_ok hs).made (by simp [hm]))
        rw [named.m] at hseen
        simp only [side, ← hseen, count, Option.elim_some]
        omega
      have may : (side w q).Due ∨ (side w q).older = false := by
        cases hrule : ruleDue (w.conv q) with
        | true => exact .inl ((ruleDue_iff _).mp hrule)
        | false =>
          rw [hrule, Bool.or_false] at hdue
          exact .inr (by simp [side, spaced hdue.symm hrule])
      obtain ⟨hxy, hyx⟩ := start_links (there q) (here q) hread may
      exact both q (by rw [hself, hpeer]; exact hxy) (by rw [hself, hpeer]; exact hyx)
  | opens q header ciphertext body r hseq hr hopen =>
    obtain ⟨x, hx, rfl, _, _⟩ := opens_head inj h genuine hseq hr hopen
    rcases side_opens kem (back q) (h q).half (h q.peer).half hx hr with
      ⟨hpeer, hself⟩ | ⟨named, rest, hqueue, hpeer, hself⟩
    · exact both q (by rw [hself, hpeer]; exact there q) (by rw [hself, hpeer]; exact here q)
    · obtain ⟨hxy, hyx⟩ := take_links (here q) (there q) hqueue
      exact both q (by rw [hself, hpeer]; exact hyx) (by rw [hself, hpeer]; exact hxy)

/-- In a play, every reader keeps the turn the next message names. -/
theorem kept_of_play {w : World B} (h : ∀ p, Agreed C ss0 w p) (play : Play w) {p : Role}
    {x : Sent B} (hx : x ∈ w.sent p.peer)
    (seq : x.sealing.header.seq = (w.conv p).receiving.nextSeq) : Kept (w.conv p) x.sealing := by
  intro hm
  have link := (h p.peer).back
  have hhead := link.at_next hx seq
  have half := (h p).half
  obtain ⟨named, hnamed, hnames⟩ := (link.faithful x hx).names hm
  have hheader : x.sealing.header.m = named.m := by
    rw [(link.faithful x hx).m, hnames.m]
    rfl
  have hqueue : (side w p.peer).queue = count x.sealing.mSeen ::
      ((w.sent p.peer).drop ((w.conv p).receiving.nextSeq + 1)).filterMap
        fun x => x.sealing.minted.map fun _ => count x.sealing.mSeen := by
    obtain ⟨t, ht⟩ := Option.isSome_iff_exists.mp hm
    simp only [side, Role.peer_peer, names]
    rw [(link.head hhead).2.1, List.filterMap_cons_some (by simp [ht]; rfl)]
  have hlink : TurnGame.Link (side w p.peer) (side w p) := by simpa using play p.peer
  rw [hheader]
  have hcount : count x.sealing.mSeen = named.m + 1 := by rw [hnames.m]; rfl
  have found : ∀ t, Retains (w.conv p).receiving t → t.m = named.m →
      ((w.conv p).receiving.ownTurn named.m).isSome := by
    intro t ht htm
    simp only [Receiving.ownTurn, List.find?_isSome]
    exact ⟨t, by simpa [Retains] using ht, by simp [htm]⟩
  rcases hlink.keeps hqueue with hnew | ⟨hold, hbefore⟩
  · refine found named (.inl ?_) rfl
    have hlen : named.m + 1 = (w.turns p).length := hcount.symm.trans hnew
    rw [half.newest, List.getLast?_eq_getElem?, ← hlen]
    exact hnamed
  · obtain ⟨t, ht⟩ := Option.isSome_iff_exists.mp hold
    have hlen : named.m + 1 + 1 = (w.turns p).length := by rw [← hcount]; exact hbefore
    refine found t (.inr ht) ?_
    have := half.numbered _ t (half.older t ht).1
    omega

/-! ## What opens -/

theorem opens_of_play (kem : KemCorrect C) (aead : AeadCorrect C) {w : World B}
    (h : ∀ p, Agreed C ss0 w p) (play : Play w) {p : Role} {x : Sent B} (hx : x ∈ w.sent p.peer)
    (seq : x.sealing.header.seq = (w.conv p).receiving.nextSeq) :
    ((w.conv p).openMessage C x.sealing.header x.ciphertext).1 = .ok x.body :=
  (Agreed.open_head kem aead h hx seq).1 (kept_of_play h play hx seq)

theorem openMessage_refused {c : Conversation B} {header : MessageHeader B} {ct : B}
    {e : ChainError} (h : (c.openMessage C header ct).1 = .error e) :
    (c.openMessage C header ct).2 = c := by
  have h' : (c.receiving.openMessage C header ct).1 = .error e := h
  simp [Conversation.openMessage, openMessage_error h']

/-- No side has a turn forced on it. -/
def Calm (w : World B) : Prop := ∀ p, (w.conv p).sending.forceTurn = false

theorem next_calm {w : World B} {e : Event B} (h : Calm w)
    (quiet : ∀ p, e ≠ .forceNextTurn p) : Calm (next C w e) := by
  intro p
  generalize hw : next C w e = w'
  cases hw ▸ next_moves (C := C) w e with
  | stays e cursor =>
    rcases e.side.eq_or_peer p with rfl | rfl
    · simpa [Direction.setCursor] using h e.side
    · simpa using h e.side.peer
  | forces q => exact absurd rfl (quiet q)
  | seals q body deviceId fill nonce s hs =>
    rcases q.eq_or_peer p with rfl | rfl
    · simp [Conversation.sealed]
    · simpa using h q.peer
  | opens q header ciphertext body r hseq hr hopen =>
    rcases q.eq_or_peer p with rfl | rfl
    · simpa using h p
    · simpa using h q.peer

/-- **Without resets the two sides agree.** Whatever is sealed, refused,
delivered, replayed, reordered or tampered with and however often either side
restarts, a message delivered in sequence opens to its body, and a delivery
that is refused changes nothing. -/
theorem agreement_without_resets (inj : HkdfInjective C) (kem : KemCorrect C)
    (aead : AeadCorrect C) {w₀ w : World B} {es : List (Event B)} (start : Started C ss0 w₀)
    (run : Trail (GenuineSteps C) w₀ es w) (calm : ∀ e ∈ es, ∀ p, e ≠ .forceNextTurn p)
    (p : Role) :
    (∀ x ∈ w.sent p.peer, x.sealing.header.seq = (w.conv p).receiving.nextSeq →
      ((w.conv p).openMessage C x.sealing.header x.ciphertext).1 = .ok x.body) ∧
    ∀ header ct e, ((w.conv p).openMessage C header ct).1 = .error e →
      ((w.conv p).openMessage C header ct).2 = w.conv p := by
  have all := run.invariant_on
    (I := fun w => (∀ p, Agreed C ss0 w p) ∧ Play w ∧ Calm w)
    (P := fun e => ∀ p, e ≠ .forceNextTurn p) ?_ calm ?_
  · exact ⟨fun x hx seq => opens_of_play kem aead all.1 all.2.1 hx seq,
      fun _ _ _ => openMessage_refused⟩
  · rintro v e _ quiet ⟨agreed, play, hcalm⟩ ⟨genuine, rfl⟩
    have spaced : Event.Spaced v e := by
      cases e with
      | sealMessage q => intro force; rw [hcalm q] at force; cases force
      | deliver | forceNextTurn | restart => trivial
    exact ⟨next_agreed inj kem agreed genuine, next_play inj kem agreed play spaced genuine,
      next_calm hcalm quiet⟩
  · refine ⟨started_agreed start, started_play start, ?_⟩
    obtain ⟨d, z, rfl⟩ := started_iff.mp start
    intro q
    cases q <;> rfl

/-- A hello of fresh draws. -/
def hello : World Term := .start symbolic (.rand 0) (.rand 1) (.rand 2)

theorem hello_started : Started symbolic (.rand 0) hello := started_iff.mpr ⟨_, _, rfl⟩

/-- A seal of `p`, from the draws numbered from `i`. -/
def sealing (p : Role) (i : Nat) (_ : World Term) : Event Term :=
  .sealMessage p (.data i) 0 [some (.rand i), some (.rand (i + 1)), some (.rand (i + 2))]
    (some (.data i))

def delivering (p : Role) (w : World Term) : Event Term := deliverNext w p

def forcing (p : Role) (_ : World Term) : Event Term := .forceNextTurn p

/-- The world a schedule leads to from the hello. -/
def playedTo (fs : List (World Term → Event Term)) : World Term :=
  (played symbolic hello fs).foldl (next symbolic) hello

/-- What a schedule may do: seal, deliver in sequence and force a turn. -/
inductive Honest : (World Term → Event Term) → Prop
  | sealing (p : Role) (i : Nat) : Honest (sealing p i)
  | delivering (p : Role) : Honest (delivering p)
  | forcing (p : Role) : Honest (forcing p)

theorem playedTo_run (fs : List (World Term → Event Term)) (honest : ∀ f ∈ fs, Honest f) :
    Trail (GenuineSteps symbolic) hello (played symbolic hello fs) (playedTo fs) := by
  refine played_run symbolic_hkdf symbolic_kem (started_agreed hello_started) fs fun f hf w h => ?_
  cases honest f hf with
  | sealing | forcing => trivial
  | delivering p => exact deliverNext_genuine symbolic_kem h p

theorem deliverNext_ne_force (w : World B) (p q : Role) : deliverNext w p ≠ .forceNextTurn q := by
  unfold deliverNext
  split <;> simp

/-- Both sides seal, the acceptor's turn is read, and the initiator answers
with a turn of its own. -/
def exchange : List (World Term → Event Term) :=
  [sealing .initiator 3, sealing .acceptor 9, delivering .initiator, sealing .initiator 6,
    delivering .acceptor]

theorem agreement_without_resets_exchange :
    ∃ x, x ∈ (playedTo exchange).sent .initiator ∧ x.sealing.minted.isSome ∧
      (((playedTo exchange).conv .acceptor).openMessage symbolic x.sealing.header
        x.ciphertext).1 = .ok (.data 6) := by
  have calm : ∀ e ∈ played symbolic hello exchange, ∀ p, e ≠ .forceNextTurn p := by
    intro e he p
    obtain ⟨f, hf, v, rfl⟩ := mem_played he
    simp only [exchange, List.mem_cons, List.not_mem_nil, or_false] at hf
    rcases hf with rfl | rfl | rfl | rfl | rfl
    case inr.inr.inl => exact deliverNext_ne_force v _ p
    case inr.inr.inr.inr => exact deliverNext_ne_force v _ p
    all_goals simp [sealing]
  refine ⟨_, List.mem_of_getElem? (i := 1) rfl, rfl, ?_⟩
  exact (agreement_without_resets symbolic_hkdf symbolic_kem symbolic_aead hello_started
    (playedTo_run exchange (by simp [exchange, Honest.sealing, Honest.delivering])) calm .acceptor).1 _
    (List.mem_of_getElem? (i := 1) rfl) rfl

/-- **Spaced resets keep the two sides in agreement.** -/
theorem agreement_with_spaced_resets (inj : HkdfInjective C) (kem : KemCorrect C)
    (aead : AeadCorrect C) {w₀ w : World B} {es : List (Event B)} (start : Started C ss0 w₀)
    (run : Trail (SpacedSteps C) w₀ es w) {p : Role} {x : Sent B} (hx : x ∈ w.sent p.peer)
    (seq : x.sealing.header.seq = (w.conv p).receiving.nextSeq) :
    ((w.conv p).openMessage C x.sealing.header x.ciphertext).1 = .ok x.body := by
  have all := run.invariant (I := fun w => (∀ p, Agreed C ss0 w p) ∧ Play w) ?_
    ⟨started_agreed start, started_play start⟩
  · exact opens_of_play kem aead all.1 all.2 hx seq
  · rintro v e _ ⟨agreed, play⟩ ⟨spaced, genuine, rfl⟩
    exact ⟨next_agreed inj kem agreed genuine, next_play inj kem agreed play spaced genuine⟩

/-- The acceptor forces a second turn before its first is answered, and the
initiator reads the first. -/
def reset : List (World Term → Event Term) :=
  [sealing .acceptor 9, forcing .acceptor, sealing .acceptor 12, delivering .initiator]

theorem agreement_with_spaced_resets_reset :
    ∃ x, x ∈ (playedTo reset).sent .acceptor ∧ x.sealing.header.seq = 1 ∧
      (((playedTo reset).conv .initiator).openMessage symbolic x.sealing.header
        x.ciphertext).1 = .ok (.data 12) := by
  have run : Trail (SpacedSteps symbolic) hello (played symbolic hello reset) (playedTo reset) :=
    (playedTo_run reset (by simp [reset, Honest.sealing, Honest.delivering, Honest.forcing])).along
      ⟨fun _ _ => rfl, trivial, fun _ _ => rfl, trivial, trivial⟩
  refine ⟨_, List.mem_of_getElem? (i := 1) rfl, rfl, ?_⟩
  exact agreement_with_spaced_resets symbolic_hkdf symbolic_kem symbolic_aead hello_started run
    (p := .initiator) (List.mem_of_getElem? (i := 1) rfl) rfl

/-! ## Resets apart by a read alone -/

/-- The event seals a message of `p` while its force-turn flag is set. -/
def sealsForced (C : Crypto B) (p : Role) (w : World B) : Event B → Bool
  | .sealMessage q body deviceId fill nonce =>
    decide (q = p) && (w.conv q).sending.forceTurn &&
      ((w.conv q).sealMessage C body deviceId fill nonce).1.isOk
  | _ => false

/-- The event opens a message at `p`. -/
def opensAt (C : Crypto B) (p : Role) (w : World B) : Event B → Bool
  | .deliver q header ct => decide (q = p) && ((w.conv q).openMessage C header ct).1.isOk
  | _ => false

/-- Between two forced turns of `p`, it opens a message. `owing` says it has
sealed one and opened none since. -/
def alternates (C : Crypto B) (p : Role) : Bool → World B → List (Event B) → Bool
  | _, _, [] => true
  | owing, w, e :: rest =>
    !(sealsForced C p w e && owing) &&
      alternates C p (sealsForced C p w e || owing && !opensAt C p w e) (next C w e) rest

/-- The acceptor's turn is answered by the rule and then by force, while a
forced turn of the acceptor's crosses both. -/
def crossing : List (World Term → Event Term) :=
  [sealing .acceptor 9, delivering .initiator, sealing .initiator 3, forcing .initiator,
    sealing .initiator 6, forcing .acceptor, sealing .acceptor 12]

/-- **A read between two forced turns is not enough**: one forced turn a side
leaves the acceptor's second message without the turn it names. -/
theorem reads_between_resets_insufficient :
    ¬ ∀ (es : List (Event Term)) (w : World Term), Trail (GenuineSteps symbolic) hello es w →
      (∀ p, alternates symbolic p false hello es = true) →
      ∀ (p : Role) (x : Sent Term), x ∈ w.sent p.peer →
        x.sealing.header.seq = (w.conv p).receiving.nextSeq →
        ((w.conv p).openMessage symbolic x.sealing.header x.ciphertext).1 = .ok x.body := by
  intro claim
  have run := playedTo_run crossing (by simp [crossing, Honest.sealing, Honest.delivering, Honest.forcing])
  have lost : ((playedTo crossing).sent .acceptor)[1]?.map (fun x =>
      (((playedTo crossing).conv .initiator).openMessage symbolic x.sealing.header
        x.ciphertext).1) = some (.error (.secretGone 0)) := rfl
  have opened := claim _ _ run (fun p => by cases p <;> rfl) .initiator _
    (List.mem_of_getElem? (i := 1) rfl) rfl
  cases opened.symm.trans (Option.some.inj lost)

end Daemonseed.Dm.Resets
