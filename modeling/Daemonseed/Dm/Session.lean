import Daemonseed.Dm.Schedule

/-! # Two parties running one conversation

The initiator and the acceptor of one hello, and everything that can happen
to their two conversations: a seal, a header and a ciphertext handed to one
side, a forced turn, a restart through a snapshot. What each side has sealed
and every turn it minted are kept beside the states. -/
namespace Daemonseed.Dm.Session
open Daemonseed.Dm.Primitives Daemonseed.Dm.Channel Daemonseed.Dm.Chain Daemonseed.Lib.Runs

variable {B : Type}

/-- The two ends of a conversation. -/
inductive Role
  | initiator
  | acceptor
  deriving DecidableEq, Repr

def Role.peer : Role → Role
  | .initiator => .acceptor
  | .acceptor => .initiator

@[simp] theorem Role.peer_peer (p : Role) : p.peer.peer = p := by cases p <;> rfl

theorem Role.peer_ne (p : Role) : p.peer ≠ p := by cases p <;> decide

theorem Role.eq_or_peer (p q : Role) : q = p ∨ q = p.peer := by cases p <;> cases q <;> decide

/-- One sealed message: what its seal derived, its body and its ciphertext. -/
structure Sent (B : Type) where
  sealing : Sealing B
  body : B
  ciphertext : B

/-- Both conversations, what each side has sealed and the turns it minted,
oldest first. -/
structure World (B : Type) where
  conv : Role → Conversation B
  sent : Role → List (Sent B)
  turns : Role → List (OwnTurn B)

/-- Something that happens to one side. A delivery names any header and any
ciphertext. -/
inductive Event (B : Type)
  | sealMessage (p : Role) (body : B) (deviceId : Nat) (fill : List (Option B)) (nonce : Option B)
  | deliver (p : Role) (header : MessageHeader B) (ciphertext : B)
  | forceNextTurn (p : Role)
  | restart (p : Role)

/-- The state one side is in becomes `c`. -/
def World.setConv (w : World B) (p : Role) (c : Conversation B) : World B :=
  { w with conv := Function.update w.conv p c }

/-- One side sealed a message. -/
def World.push (w : World B) (p : Role) (s : Sent B) : World B :=
  { w with
    sent := Function.update w.sent p (w.sent p ++ [s])
    turns := Function.update w.turns p (w.turns p ++ s.sealing.minted.toList) }

/-- What an event makes of the world. -/
def next (C : Crypto B) (w : World B) : Event B → World B
  | .sealMessage p body deviceId fill nonce =>
    match (w.conv p).sealMessage C body deviceId fill nonce, (w.conv p).prepare C deviceId fill with
    | (.ok (_, ciphertext), c), .ok sealing => (w.setConv p c).push p ⟨sealing, body, ciphertext⟩
    | (_, c), _ => w.setConv p c
  | .deliver p header ciphertext =>
    w.setConv p ((w.conv p).openMessage C header ciphertext).2
  | .forceNextTurn p =>
    w.setConv p { w.conv p with sending := (w.conv p).sending.forceNextTurn }
  | .restart p => w.setConv p (Conversation.restore (w.conv p).snapshot)

/-- Both halves of one hello, before anything is sealed. -/
def Started (C : Crypto B) (ss0 : B) (w : World B) : Prop :=
  ∃ fill opening, initiate C ss0 fill = .ok opening ∧
    w = { conv := fun
            | .initiator => opening.conversation
            | .acceptor => accept C ss0 opening.ratchetPk
          sent := fun _ => []
          turns := fun
            | .initiator => opening.conversation.receiving.ownTurns.1.toList
            | .acceptor => [] }

/-- The delivery of the next message in sequence, where one is in flight. -/
def deliverNext (w : World B) (p : Role) : Event B :=
  match (w.sent p.peer)[(w.conv p).receiving.nextSeq]? with
  | some x => .deliver p x.sealing.header x.ciphertext
  | none => .restart p

/-- The two halves of one hello, by the draws of the initiator's keypair. -/
def World.start (C : Crypto B) (ss0 d z : B) : World B where
  conv := fun
    | .initiator =>
      { sending := freshSending (seedRoot C ss0) (some (chainFromRoot C (seedRoot C ss0)))
        receiving := (freshReceiving (seedRoot C ss0) none).retain
          ⟨0, ⟨(C.keygen d z).1, (C.keygen d z).2⟩, none⟩ }
    | .acceptor => accept C ss0 (C.keygen d z).1
  sent := fun _ => []
  turns := fun
    | .initiator => [⟨0, ⟨(C.keygen d z).1, (C.keygen d z).2⟩, none⟩]
    | .acceptor => []

theorem started_iff {C : Crypto B} {ss0 : B} {w : World B} :
    Started C ss0 w ↔ ∃ d z, w = World.start C ss0 d z := by
  constructor
  · rintro ⟨fill, opening, ho, rfl⟩
    simp only [initiate, bind, Except.bind] at ho
    cases hm : mint C fill with
    | error e => simp [hm] at ho
    | ok minted =>
      obtain ⟨pair, rest⟩ := minted
      obtain ⟨d, z, _, rfl⟩ := mint_ok hm
      simp only [hm, pure, Except.pure, Except.ok.injEq] at ho
      subst ho
      exact ⟨d, z, rfl⟩
  · rintro ⟨d, z, rfl⟩
    exact ⟨[some d, some z], _, rfl, rfl⟩

/-- The envelope opens only a triple of key, associated data and ciphertext
that one of the two sides sealed. -/
def Genuine (C : Crypto B) (w : World B) (p : Role) (header : MessageHeader B)
    (ciphertext : B) : Prop :=
  ∀ r, (w.conv p).receiving.readTurn C header = .ok r →
    (C.openEnvelope (step C r.chain).1 (messageAad C header) ciphertext).isSome →
    ∃ q, ∃ s ∈ w.sent q, s.sealing.key = (step C r.chain).1 ∧
      messageAad C s.sealing.header = messageAad C header ∧ s.ciphertext = ciphertext

def Event.Genuine (C : Crypto B) (w : World B) : Event B → Prop
  | .deliver p header ciphertext => Session.Genuine C w p header ciphertext
  | _ => True

/-- One event, whatever is delivered. -/
def Steps (C : Crypto B) (w : World B) (e : Event B) (w' : World B) : Prop := w' = next C w e

/-- One event under an envelope that cannot be forged. -/
def GenuineSteps (C : Crypto B) (w : World B) (e : Event B) (w' : World B) : Prop :=
  e.Genuine C w ∧ Steps C w e w'

/-! ## What each event does -/

variable {C : Crypto B}

@[simp] theorem setConv_self (w : World B) (p : Role) (c : Conversation B) :
    (w.setConv p c).conv p = c := by simp [World.setConv]

@[simp] theorem setConv_peer (w : World B) (p : Role) (c : Conversation B) :
    (w.setConv p c).conv p.peer = w.conv p.peer := by
  simp [World.setConv, Function.update_of_ne p.peer_ne]

@[simp] theorem setConv_sent (w : World B) (p : Role) (c : Conversation B) :
    (w.setConv p c).sent = w.sent := rfl

@[simp] theorem push_conv (w : World B) (p : Role) (s : Sent B) : (w.push p s).conv = w.conv := rfl

@[simp] theorem push_self (w : World B) (p : Role) (s : Sent B) :
    (w.push p s).sent p = w.sent p ++ [s] := by simp [World.push]

@[simp] theorem push_peer (w : World B) (p : Role) (s : Sent B) :
    (w.push p s).sent p.peer = w.sent p.peer := by
  simp [World.push, Function.update_of_ne p.peer_ne]

/-- The side an event happens to. -/
def Event.side : Event B → Role
  | .sealMessage p .. | .deliver p .. | .forceNextTurn p | .restart p => p

@[simp] theorem setConv_turns (w : World B) (p : Role) (c : Conversation B) :
    (w.setConv p c).turns = w.turns := rfl

@[simp] theorem push_turns_self (w : World B) (p : Role) (s : Sent B) :
    (w.push p s).turns p = w.turns p ++ s.sealing.minted.toList := by simp [World.push]

@[simp] theorem push_turns_peer (w : World B) (p : Role) (s : Sent B) :
    (w.push p s).turns p.peer = w.turns p.peer := by
  simp [World.push, Function.update_of_ne p.peer_ne]

/-- What an event comes to: nothing but a cursor moves, a flag is set, one
side sealed, or one side opened. -/
inductive Moves (C : Crypto B) (w : World B) : Event B → World B → Prop
  /-- A refused call or a restart. -/
  | stays (e : Event B) (cursor : Nat) :
      Moves C w e (w.setConv e.side
        { w.conv e.side with sending := (w.conv e.side).sending.setCursor cursor })
  | forces (p : Role) :
      Moves C w (.forceNextTurn p)
        (w.setConv p { w.conv p with sending := (w.conv p).sending.forceNextTurn })
  | seals (p : Role) (body : B) (deviceId : Nat) (fill : List (Option B)) (nonce : B)
      (s : Sealing B) (prepared : (w.conv p).prepare C deviceId fill = .ok s) :
      Moves C w (.sealMessage p body deviceId fill (some nonce))
        ((w.setConv p ((w.conv p).sealed s)).push p
          ⟨s, body, C.sealEnvelope s.key nonce (messageAad C s.header) body⟩)
  | opens (p : Role) (header : MessageHeader B) (ciphertext body : B) (r : Reading B)
      (seq : header.seq = (w.conv p).receiving.nextSeq)
      (read : (w.conv p).receiving.readTurn C header = .ok r)
      (opened : C.openEnvelope (step C r.chain).1 (messageAad C header) ciphertext = some body) :
      Moves C w (.deliver p header ciphertext) (w.setConv p
        { w.conv p with receiving := (w.conv p).receiving.commit C header r })

theorem stays_self (w : World B) (e : Event B) :
    Moves C w e (w.setConv e.side (w.conv e.side)) := by
  simpa [Direction.setCursor] using
    Moves.stays (C := C) (w := w) e (w.conv e.side).sending.cursor

theorem next_moves (w : World B) (e : Event B) : Moves C w e (next C w e) := by
  cases e with
  | sealMessage p body deviceId fill nonce =>
    simp only [next, Conversation.sealMessage_eq]
    cases hp : (w.conv p).prepare C deviceId fill with
    | error e => exact .stays (.sealMessage p body deviceId fill nonce) _
    | ok s =>
      cases nonce with
      | none => exact .stays (.sealMessage p body deviceId fill none) _
      | some nonce => exact .seals p body deviceId fill nonce s hp
  | deliver p header ciphertext =>
    simp only [next, Conversation.openMessage]
    cases ho : ((w.conv p).receiving.openMessage C header ciphertext).1 with
    | error e => rw [openMessage_error ho]; exact stays_self w (.deliver p header ciphertext)
    | ok body =>
      obtain ⟨hseq, r, hread, hopen, hto⟩ := openMessage_ok ho
      rw [hto]
      exact .opens p header ciphertext body r hseq hread hopen
  | forceNextTurn p => exact .forces p
  | restart p => exact stays_self w (.restart p)

end Daemonseed.Dm.Session
