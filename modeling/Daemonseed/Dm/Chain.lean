import Daemonseed.Dm.Channel

/-! # The key schedule of a direct-message conversation

One conversation is two directions, each a root, a chain and a turn number.
A function that takes `&mut self` returns its result beside the state it
leaves, on the error path too. A caller's entropy is the list of what its
fill function answers, a refusal being `none`; the nonce an envelope draws is
a parameter. `seal` and `open` are keywords here, hence `sealMessage` and
`openMessage`. -/
namespace Daemonseed.Dm.Chain
open Daemonseed.Dm.Primitives Daemonseed.Dm.Channel

variable {B : Type}

/-- Why a key-schedule operation failed. `Aead` also stands for an envelope
that could not draw its nonce. -/
inductive ChainError
  | entropy
  | noPeerKey
  | secretGone (named : Nat)
  | alreadyOpened (seq : Nat)
  | outOfOrder (expected found : Nat)
  | noTurn
  | turnFieldsIncomplete
  | pendingTurnNotTaken
  | aead
  deriving DecidableEq, Repr

/-! ## Derivations -/

/-- The root both directions start from. -/
def seedRoot (C : Crypto B) (ss0 : B) : B :=
  C.hkdf (C.label .dmChannelRootSalt) [.raw ss0] (C.label .dmChannelRoot)

/-- A direction's root, one turn on: the previous root is the salt. -/
def advanceRoot (C : Crypto B) (previous : B) (peerSs : Option B) (ownSs : B) : B :=
  C.hkdf previous [.lp peerSs, .lp (some ownSs)] (C.label .dmChannelRoot)

/-- A turn's first chain key. -/
def chainFromRoot (C : Crypto B) (root : B) : B :=
  C.hkdf (C.label .dmChannelChainSalt) [.raw root] (C.label .dmChannelChain)

/-- One step along a chain: this position's message key, and the successor. -/
def step (C : Crypto B) (ck : B) : B × B :=
  (C.hkdf (C.label .dmChannelStepSalt) [.raw ck] (C.label .dmChannelMk),
   C.hkdf (C.label .dmChannelStepSalt) [.raw ck] (C.label .dmChannelCk))

structure RatchetKeypair (B : Type) where
  pk : B
  dk : B
  deriving DecidableEq, Repr

/-- One call of the caller's fill function. -/
def draw : List (Option B) → Except ChainError (B × List (Option B))
  | some bytes :: rest => .ok (bytes, rest)
  | _ => .error .entropy

/-- A turn's ratchet keypair, from two draws. -/
def mint (C : Crypto B) (fill : List (Option B)) :
    Except ChainError (RatchetKeypair B × List (Option B)) := do
  let (d, fill) ← draw fill
  let (z, fill) ← draw fill
  return (⟨(C.keygen d z).1, (C.keygen d z).2⟩, fill)

/-- Encapsulate to a peer's ratchet key, from one draw. -/
def encapsulate (C : Crypto B) (peerPk : B) (fill : List (Option B)) :
    Except ChainError (B × B) := do
  let (m, _) ← draw fill
  return C.encapsulate peerPk m

def sealUnder (C : Crypto B) (mk : B) (nonce : Option B) (aad : List (Piece B)) (body : B) :
    Except ChainError B :=
  match nonce with
  | some nonce => .ok (C.sealEnvelope mk nonce aad body)
  | none => .error .aead

def openUnder (C : Crypto B) (mk : B) (aad : List (Piece B)) (sealed : B) : Except ChainError B :=
  match C.openEnvelope mk aad sealed with
  | some body => .ok body
  | none => .error .aead

/-! ## The sending half -/

/-- One turn this party minted. The secret is absent for the initiator's
turn 0 alone. -/
structure OwnTurn (B : Type) where
  m : Nat
  keypair : RatchetKeypair B
  ss : Option B
  deriving DecidableEq, Repr

/-- One turn of the peer's that this party has read. -/
structure PeerTurn (B : Type) where
  m : Nat
  pk : B
  ss : Option B
  deriving DecidableEq, Repr

/-- What the sending side has read of the peer since its last message. -/
inductive TurnInput (B : Type)
  | unchanged
  | peerTurn (m : Nat) (peerPk : B) (peerSs : Option B)

/-- The sending half of one direction. -/
structure Direction (B : Type) where
  root : B
  chain : Option B
  n : Nat
  mSeen : Option Nat
  seq : Nat
  cursor : Nat
  peerPk : Option B
  peerSs : Option B
  pendingTurn : Option (OwnTurn B)
  forceTurn : Bool
  deriving DecidableEq, Repr

/-- What a seal derives into locals before it commits any of it. -/
structure Sealing (B : Type) where
  header : MessageHeader B
  key : B
  nextChain : B
  root : B
  n : Nat
  mSeen : Option Nat
  peerPk : Option B
  peerSs : Option B
  minted : Option (OwnTurn B)

namespace Direction

def setCursor (self : Direction B) (cursor : Nat) : Direction B := { self with cursor }

/-- Make the next message start a turn, whatever has been read. -/
def forceNextTurn (self : Direction B) : Direction B := { self with forceTurn := true }

/-- Whether peer turn `m` is later than the one the last message consumed. -/
def isNews (self : Direction B) (m : Nat) : Bool := self.mSeen.all (· < m)

/-- Whether the next message will start a turn given `input`. -/
def turnDue (self : Direction B) (input : TurnInput B) : Bool :=
  if self.forceTurn then true
  else match input with
    | .unchanged => false
    | .peerTurn m _ _ => self.isNews m

/-- The peer turn, its key and its secret once `input` is read. -/
def takeInput (self : Direction B) : TurnInput B → Option Nat × Option B × Option B
  | .peerTurn m pk ss =>
    if self.isNews m then (some m, some pk, ss) else (self.mSeen, self.peerPk, self.peerSs)
  | .unchanged => (self.mSeen, self.peerPk, self.peerSs)

/-- Start a turn: a fresh keypair, a secret encapsulated to the peer's key,
and the root and chain they lead to. -/
def startTurn (C : Crypto B) (self : Direction B) (peerPk peerSs : Option B)
    (fill : List (Option B)) : Except ChainError (B × B × Nat × OwnTurn B × B) :=
  match peerPk with
  | none => .error .noPeerKey
  | some pk => do
    let (keypair, fill) ← mint C fill
    let (ownSs, kemCt) ← encapsulate C pk fill
    let root := advanceRoot C self.root peerSs ownSs
    let n := if self.chain.isSome then self.n + 1 else self.n
    return (root, chainFromRoot C root, n, ⟨n, keypair, some ownSs⟩, kemCt)

/-- The part of `seal` before the body is sealed: nothing in `self` moves. -/
def prepare (C : Crypto B) (self : Direction B) (input : TurnInput B) (deviceId : Nat)
    (fill : List (Option B)) : Except ChainError (Sealing B) :=
  if self.pendingTurn.isSome then .error .pendingTurnNotTaken
  else
    let (mSeen, peerPk, peerSs) := self.takeInput input
    let header (n : Nat) (kemCt kemPk : Option B) : MessageHeader B :=
      { deviceId, n, m := mSeen.getD 0, seq := self.seq, cursor := self.cursor, kemCt, kemPk }
    if self.turnDue input then
      match self.startTurn C peerPk peerSs fill with
      | .error e => .error e
      | .ok (root, chain, n, turn, kemCt) =>
        .ok { header := header n (some kemCt) (some turn.keypair.pk), key := (step C chain).1
              nextChain := (step C chain).2, root, n, mSeen, peerPk, peerSs, minted := some turn }
    else
      match self.chain with
      | none => .error .noTurn
      | some chain =>
        .ok { header := header self.n none none, key := (step C chain).1
              nextChain := (step C chain).2, root := self.root, n := self.n, mSeen, peerPk, peerSs
              minted := none }

/-- What a successful seal leaves. -/
def commit (self : Direction B) (s : Sealing B) : Direction B :=
  { self with
    root := s.root, chain := some s.nextChain, n := s.n, mSeen := s.mSeen, seq := self.seq + 1
    peerPk := s.peerPk, peerSs := s.peerSs, forceTurn := false
    pendingTurn := s.minted.or self.pendingTurn }

/-- Seal one message. A failed seal leaves the direction where it was. -/
def sealMessage (C : Crypto B) (self : Direction B) (input : TurnInput B) (body : B) (deviceId : Nat)
    (fill : List (Option B)) (nonce : Option B) :
    Except ChainError (MessageHeader B × B) × Direction B :=
  match self.prepare C input deviceId fill with
  | .error e => (.error e, self)
  | .ok s =>
    match sealUnder C s.key nonce (messageAad C s.header) body with
    | .error e => (.error e, self)
    | .ok sealed => (.ok (s.header, sealed), self.commit s)

/-- The turn this seal minted, if it started one. -/
def takePendingTurn (self : Direction B) : Option (OwnTurn B) × Direction B :=
  (self.pendingTurn, { self with pendingTurn := none })

end Direction

/-! ## The reading half -/

/-- The reading half of one direction. The retained own turns are newest
first, `OWN_TURNS_RETAINED` of them. -/
structure Receiving (B : Type) where
  root : B
  chain : Option B
  n : Nat
  nextSeq : Nat
  ownTurns : Option (OwnTurn B) × Option (OwnTurn B)
  peerLatest : Option (PeerTurn B)
  deriving DecidableEq, Repr

/-- What an open derives into locals before it commits any of it. -/
structure Reading (B : Type) where
  root : B
  chain : B
  n : Nat
  read : Option (PeerTurn B)

namespace Receiving

/-- Retain a freshly minted own turn, dropping the third-oldest. -/
def retain (self : Receiving B) (turn : OwnTurn B) : Receiving B :=
  { self with ownTurns := (some turn, self.ownTurns.1) }

/-- The retained own turn numbered `m`, the newer looked at first. -/
def ownTurn (self : Receiving B) (m : Nat) : Option (OwnTurn B) :=
  (self.ownTurns.1.toList ++ self.ownTurns.2.toList).find? (·.m == m)

/-- The root and chain a header is read under: recomputed where it starts a
turn, the ones held where it does not. -/
def readTurn (C : Crypto B) (self : Receiving B) (header : MessageHeader B) :
    Except ChainError (Reading B) :=
  match header.kemCt, header.kemPk with
  | some kemCt, some kemPk =>
    match self.ownTurn header.m with
    | none => .error (.secretGone header.m)
    | some own =>
      let peerSs := C.decapsulate own.keypair.dk kemCt
      let root := advanceRoot C self.root own.ss peerSs
      .ok { root, chain := chainFromRoot C root, n := header.n
            read := some ⟨header.n, kemPk, some peerSs⟩ }
  | none, none =>
    match self.chain with
    | none => .error .noTurn
    | some chain => .ok { root := self.root, chain, n := self.n, read := none }
  | _, _ => .error .turnFieldsIncomplete

/-- What a successful open leaves. A message encapsulated to the newer own
turn deletes the older. -/
def commit (C : Crypto B) (self : Receiving B) (header : MessageHeader B) (r : Reading B) :
    Receiving B :=
  { root := r.root, chain := some (step C r.chain).2, n := r.n, nextSeq := self.nextSeq + 1
    ownTurns :=
      if r.read.isSome && self.ownTurns.1.any (·.m == header.m) then (self.ownTurns.1, none)
      else self.ownTurns
    peerLatest := r.read.or self.peerLatest }

/-- Open one message. A failed open leaves the half where it was. -/
def openMessage (C : Crypto B) (self : Receiving B) (header : MessageHeader B) (ciphertext : B) :
    Except ChainError B × Receiving B :=
  if header.seq < self.nextSeq then (.error (.alreadyOpened header.seq), self)
  else if self.nextSeq < header.seq then (.error (.outOfOrder self.nextSeq header.seq), self)
  else
    match self.readTurn C header with
    | .error e => (.error e, self)
    | .ok r =>
      match openUnder C (step C r.chain).1 (messageAad C header) ciphertext with
      | .error e => (.error e, self)
      | .ok body => (.ok body, self.commit C header r)

end Receiving

/-! ## Both halves -/

structure Conversation (B : Type) where
  sending : Direction B
  receiving : Receiving B
  deriving DecidableEq, Repr

namespace Conversation

/-- What the reading half tells the sending half it has read. -/
def turnInput (self : Conversation B) : TurnInput B :=
  match self.receiving.peerLatest with
  | some peer => .peerTurn peer.m peer.pk peer.ss
  | none => .unchanged

/-- Seal one message, publishing the reading half's cursor in its header and
retaining any turn the seal minted. -/
def sealMessage (C : Crypto B) (self : Conversation B) (body : B) (deviceId : Nat)
    (fill : List (Option B)) (nonce : Option B) :
    Except ChainError (MessageHeader B × B) × Conversation B :=
  let sending := self.sending.setCursor self.receiving.nextSeq
  match sending.sealMessage C self.turnInput body deviceId fill nonce with
  | (.error e, sending) => (.error e, { self with sending })
  | (.ok sealed, sending) =>
    match sending.takePendingTurn with
    | (some turn, sending) => (.ok sealed, ⟨sending, self.receiving.retain turn⟩)
    | (none, sending) => (.ok sealed, { self with sending })

/-- Open one message of the peer's. -/
def openMessage (C : Crypto B) (self : Conversation B) (header : MessageHeader B)
    (ciphertext : B) : Except ChainError B × Conversation B :=
  match self.receiving.openMessage C header ciphertext with
  | (outcome, receiving) => (outcome, { self with receiving })

end Conversation

/-! ## At rest -/

structure DirectionState (B : Type) where
  root : B
  chain : Option B
  n : Nat
  mSeen : Option Nat
  seq : Nat
  cursor : Nat
  peerPk : Option B
  peerSs : Option B
  pendingTurn : Option (OwnTurn B)
  forceTurn : Bool
  deriving DecidableEq, Repr

structure ReceivingState (B : Type) where
  root : B
  chain : Option B
  n : Nat
  nextSeq : Nat
  ownTurns : Option (OwnTurn B) × Option (OwnTurn B)
  peerLatest : Option (PeerTurn B)
  deriving DecidableEq, Repr

/-- One conversation's key-schedule state at rest. -/
structure ConversationSnapshot (B : Type) where
  sending : DirectionState B
  receiving : ReceivingState B
  deriving DecidableEq, Repr

namespace Conversation

/-- Everything a restart needs to resume this conversation. -/
def snapshot (self : Conversation B) : ConversationSnapshot B where
  sending :=
    { root := self.sending.root, chain := self.sending.chain, n := self.sending.n
      mSeen := self.sending.mSeen, seq := self.sending.seq, cursor := self.sending.cursor
      peerPk := self.sending.peerPk, peerSs := self.sending.peerSs
      pendingTurn := self.sending.pendingTurn, forceTurn := self.sending.forceTurn }
  receiving :=
    { root := self.receiving.root, chain := self.receiving.chain, n := self.receiving.n
      nextSeq := self.receiving.nextSeq, ownTurns := self.receiving.ownTurns
      peerLatest := self.receiving.peerLatest }

/-- Rebuild a conversation from a snapshot. -/
def restore (state : ConversationSnapshot B) : Conversation B where
  sending :=
    { root := state.sending.root, chain := state.sending.chain, n := state.sending.n
      mSeen := state.sending.mSeen, seq := state.sending.seq, cursor := state.sending.cursor
      peerPk := state.sending.peerPk, peerSs := state.sending.peerSs
      pendingTurn := state.sending.pendingTurn, forceTurn := state.sending.forceTurn }
  receiving :=
    { root := state.receiving.root, chain := state.receiving.chain, n := state.receiving.n
      nextSeq := state.receiving.nextSeq, ownTurns := state.receiving.ownTurns
      peerLatest := state.receiving.peerLatest }

@[simp] theorem restore_snapshot (c : Conversation B) : restore c.snapshot = c := rfl

end Conversation

/-! ## Opening a conversation -/

/-- What `initiate` hands back. -/
structure Opening (B : Type) where
  ratchetPk : B
  conversation : Conversation B

/-- A reading half at the seed root. -/
def freshReceiving (root : B) (chain : Option B) : Receiving B where
  root := root
  chain := chain
  n := 0
  nextSeq := 0
  ownTurns := (none, none)
  peerLatest := none

/-- A sending half at the seed root. -/
def freshSending (root : B) (chain : Option B) : Direction B where
  root := root
  chain := chain
  n := 0
  mSeen := none
  seq := 0
  cursor := 0
  peerPk := none
  peerSs := none
  pendingTurn := none
  forceTurn := false

/-- Open a conversation as the initiator, from the hello's shared secret.
Turn 0 of its direction is open on return. -/
def initiate (C : Crypto B) (ss0 : B) (fill : List (Option B)) :
    Except ChainError (Opening B) := do
  let root := seedRoot C ss0
  let (keypair, _) ← mint C fill
  return { ratchetPk := keypair.pk
           conversation :=
            { sending := freshSending root (some (chainFromRoot C root))
              receiving := (freshReceiving root none).retain ⟨0, keypair, none⟩ } }

/-- Open a conversation as the acceptor, from the hello's shared secret and
the initiator's first ratchet key. -/
def accept (C : Crypto B) (ss0 initiatorRatchetPk : B) : Conversation B :=
  let root := seedRoot C ss0
  { sending := freshSending root none
    receiving :=
      { freshReceiving root (some (chainFromRoot C root)) with
        peerLatest := some ⟨0, initiatorRatchetPk, none⟩ } }

/-- `reset_all`: force a new turn on every conversation. The advert rotation
it also asks of the caller is not part of the schedule. -/
def resetAll (conversations : List (Conversation B)) : List (Conversation B) :=
  conversations.map fun c => { c with sending := c.sending.forceNextTurn }

end Daemonseed.Dm.Chain
