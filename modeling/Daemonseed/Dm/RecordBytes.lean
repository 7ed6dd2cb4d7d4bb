import Daemonseed.Dm.Routes
import Daemonseed.Lib.Lines
import Daemonseed.Lib.Readers

/-! # The records of the store as bytes

A record is written field after field, each at a fixed width: an absent field
takes as many zeros as it would take present. Every record is read back as it
was written and is as long as any other of its kind, so two records that encode
alike hold the same fields. -/
namespace Daemonseed.Dm.RecordBytes
open Daemonseed.Lib.Bytes Daemonseed.Lib.Framed Daemonseed.Lib.Lines Daemonseed.Lib.Readers
open Daemonseed.Dm.Store (StoreError)
open Daemonseed.Dm.Records (dropSubkeys)
open Daemonseed.Dm.Channel (ringSlots channelSubkeyLen)
open Daemonseed.Dm.Routes (magic)

/-! ## Widths -/

namespace MlKem

def ekLen : Nat := 1568

def dkLen : Nat := 3168

def ctLen : Nat := 1568

def sharedSecretLen : Nat := 32

end MlKem

namespace MlDsa

def pkLen : Nat := 2592

def sigLen : Nat := 4627

end MlDsa

def rootLen : Nat := 32

def chainKeyLen : Nat := 32

def controlKeyLen : Nat := 32

def helloLookupKeyLen : Nat := 32

def helloRLen : Nat := 32

def helloPlaintextLen : Nat := helloLookupKeyLen + helloRLen + 1 + MlKem.sharedSecretLen

/-- The encapsulation, the sealed plaintext and the tag of the work. -/
def helloLen : Nat := MlKem.ctLen + 12 + helloPlaintextLen + 16 + 8

def openingLen : Nat :=
  MlDsa.pkLen + MlDsa.pkLen + helloLookupKeyLen + MlKem.ekLen + 8 + MlDsa.sigLen

def ownTurnLen : Nat := 8 + MlKem.ekLen + MlKem.dkLen + 1 + MlKem.sharedSecretLen

def peerTurnLen : Nat := 8 + MlKem.ekLen + 1 + MlKem.sharedSecretLen

def sendingLen : Nat :=
  rootLen + (1 + chainKeyLen) + 8 + (1 + 8) + 8 + 8 + (1 + MlKem.ekLen)
    + (1 + MlKem.sharedSecretLen) + (1 + ownTurnLen) + 1

def ownTurnsRetained : Nat := 2

def receivingLen : Nat :=
  rootLen + (1 + chainKeyLen) + 8 + 8 + ownTurnsRetained * (1 + ownTurnLen) + (1 + peerTurnLen)

def snapshotLen : Nat := sendingLen + receivingLen

def helloFieldLen : Nat := 1 + 2 + helloRLen + MlKem.ctLen + helloLen + 8

/-! ## What the records hold -/

structure RatchetKeypair where
  pk : Field MlKem.ekLen
  dk : Field MlKem.dkLen
  deriving DecidableEq

structure OwnTurn where
  m : BitVec 64
  keypair : RatchetKeypair
  ss : Option (Field MlKem.sharedSecretLen)
  deriving DecidableEq

structure PeerTurn where
  m : BitVec 64
  pk : Field MlKem.ekLen
  ss : Option (Field MlKem.sharedSecretLen)
  deriving DecidableEq

/-- The sending half of one direction at rest. -/
structure DirectionState where
  root : Field rootLen
  chain : Option (Field chainKeyLen)
  n : BitVec 64
  mSeen : Option (BitVec 64)
  seq : BitVec 64
  cursor : BitVec 64
  peerPk : Option (Field MlKem.ekLen)
  peerSs : Option (Field MlKem.sharedSecretLen)
  pendingTurn : Option OwnTurn
  forceTurn : Bool
  deriving DecidableEq

/-- The reading half of one direction at rest; the retained own turns are newest
first. -/
structure ReceivingState where
  root : Field rootLen
  chain : Option (Field chainKeyLen)
  n : BitVec 64
  nextSeq : BitVec 64
  ownTurns : Option OwnTurn × Option OwnTurn
  peerLatest : Option PeerTurn
  deriving DecidableEq

structure ConversationSnapshot where
  sending : DirectionState
  receiving : ReceivingState
  deriving DecidableEq

structure OutstandingHello where
  slot : BitVec 16
  r : Field helloRLen
  kemCt : Field MlKem.ctLen
  sealed : Field helloLen
  advertSerial : BitVec 64
  deriving DecidableEq

structure ConvState where
  peerIdentityPk : Field MlDsa.pkLen
  outgoingLookupKey : Field helloLookupKeyLen
  incomingLookupKey : Field helloLookupKeyLen
  generation : BitVec 64
  conversation : ConversationSnapshot
  sendSeq : BitVec 64
  peerCollected : BitVec 64
  myCollected : BitVec 64
  cursorPublished : BitVec 64
  awaitingAcceptance : Bool
  acceptancePending : Bool
  outstandingHello : Option OutstandingHello
  ownHelloSecret : Option (Field MlKem.sharedSecretLen)
  ownHelloKemCt : Option (Field MlKem.ctLen)
  ownControlKey : Option (Field controlKeyLen)
  peerControlKey : Option (Field controlKeyLen)
  peerAdvertSerial : Option (BitVec 64)
  ownOpening : Option (Field openingLen)
  deletePending : Bool
  deriving DecidableEq

structure OutboxEntry where
  seq : BitVec 64
  sentAt : BitVec 64
  ciphertext : Octets
  deriving DecidableEq

structure RetiredSnapshot where
  serial : BitVec 64
  retiredAt : BitVec 64
  decapsulationKey : Field MlKem.dkLen
  deriving DecidableEq

structure AdvertSnapshot where
  serial : BitVec 64
  notBefore : BitVec 64
  decapsulationKey : Field MlKem.dkLen
  previous : Option RetiredSnapshot
  deriving DecidableEq

/-! ## Writing -/

def absent : BitVec 8 := 0

def present : BitVec 8 := 1

namespace Writer

def u8 (v : BitVec 8) : Octets := be 1 v

def u16 (v : BitVec 16) : Octets := be 2 v

def u32 (v : BitVec 32) : Octets := be 4 v

def u64 (v : BitVec 64) : Octets := be 8 v

def bool (b : Bool) : Octets := u8 (if b then present else absent)

/-- A flag, then the value or as many zeros. -/
def opt {n : Nat} (v : Option (Field n)) : Octets :=
  v.elim (u8 absent ++ padded [] n) fun b => u8 present ++ padded b.1 n

def optU64 (v : Option (BitVec 64)) : Octets := opt (v.map fun v => ⟨u64 v, be_length⟩)

def ownTurnBody (t : OwnTurn) : Octets := u64 t.m ++ t.keypair.pk.1 ++ t.keypair.dk.1 ++ opt t.ss

def ownTurn (turn : Option OwnTurn) : Octets :=
  turn.elim (u8 absent ++ padded [] ownTurnLen) fun t => u8 present ++ ownTurnBody t

def peerTurnBody (t : PeerTurn) : Octets := u64 t.m ++ t.pk.1 ++ opt t.ss

def peerTurn (turn : Option PeerTurn) : Octets :=
  turn.elim (u8 absent ++ padded [] peerTurnLen) fun t => u8 present ++ peerTurnBody t

end Writer

/-! ## Reading -/

/-- Any field the record ends inside of. -/
def endedInside : StoreError := .corrupt "the record ended inside a field"

namespace Reader

def field (n : Nat) : Reader StoreError (Field n) := Lib.Readers.field endedInside n

def u8 : Reader StoreError (BitVec 8) := word endedInside 1

def u16 : Reader StoreError (BitVec 16) := word endedInside 2

def u32 : Reader StoreError (BitVec 32) := word endedInside 4

def u64 : Reader StoreError (BitVec 64) := word endedInside 8

def take (n : Nat) : Reader StoreError Octets := Lib.Readers.take endedInside n

/-- Only what the writer writes. -/
def flag : Reader StoreError Bool := do
  let b ← u8
  refuse (b ≠ absent ∧ b ≠ present) (.corrupt "a presence flag held neither 0 nor 1")
  return b = present

def optField (n : Nat) : Reader StoreError (Option (Field n)) := do
  let here ← flag
  let value ← field n
  return if here then some value else none

def optU64 : Reader StoreError (Option (BitVec 64)) := do
  return (← optField 8).map (ofBe 8 ·.1)

def ownTurn : Reader StoreError (Option OwnTurn) := do
  let here ← flag
  let m ← u64
  let pk ← field MlKem.ekLen
  let dk ← field MlKem.dkLen
  let ss ← optField MlKem.sharedSecretLen
  return if here then some ⟨m, ⟨pk, dk⟩, ss⟩ else none

def peerTurn : Reader StoreError (Option PeerTurn) := do
  let here ← flag
  let m ← u64
  let pk ← field MlKem.ekLen
  let ss ← optField MlKem.sharedSecretLen
  return if here then some ⟨m, pk, ss⟩ else none

def headerVersion (magic : Octets) (version : UInt8) : Reader StoreError Unit := fun bytes =>
  (Routes.Reader.headerVersion magic version bytes).map fun rest => ((), rest)

def finish : Reader StoreError Unit := fun bytes => (Routes.Reader.finish bytes).map fun _ => ((), [])

end Reader

/-! ## What each field is read back from -/

section

variable {n : Nat}

theorem zeros_add (m n : Nat) : padded [] (m + n) = padded [] m ++ padded [] n := by
  rw [padded, padded, padded, List.nil_append, List.nil_append, List.nil_append, List.length_nil,
    Nat.sub_zero, Nat.sub_zero, Nat.sub_zero, List.replicate_append_replicate]

theorem be_zero (width : Nat) : be width 0 = padded [] width := by
  have zero : toBe width 0 = padded [] width := by
    induction width with
    | zero => rfl
    | succ width ih =>
      rw [zeros_add, ← ih]
      rfl
  exact zero

theorem padded_field (b : Field n) : padded b.1 n = b.1 := by
  rw [padded, b.2, Nat.sub_self]
  exact List.append_nil _

/-- A field nobody has written. -/
def blank (n : Nat) : Field n := ⟨padded [] n, padded_length (Nat.zero_le n)⟩

theorem opt_none : Writer.opt (none : Option (Field n)) = Writer.u8 absent ++ (blank n).1 := rfl

theorem opt_some (b : Field n) : Writer.opt (some b) = Writer.u8 present ++ b.1 := by
  rw [Writer.opt, Option.elim_some, padded_field]

theorem reads_flag (b : Bool) : Reads Reader.flag (Writer.bool b) b := by
  intro rest
  rw [Reader.flag, Reader.u8, Writer.bool, Writer.u8, (reads_word _).run_bind]
  cases b <;> rfl

theorem reads_u64 (v : BitVec 64) : Reads Reader.u64 (Writer.u64 v) v := reads_word (n := 8) v

theorem reads_array (b : Field n) : Reads (Reader.field n) b.1 b := reads_field b

theorem reads_optField (v : Option (Field n)) : Reads (Reader.optField n) (Writer.opt v) v := by
  cases v with
  | none => exact (reads_flag false).bind (reads_array (blank n)).last
  | some b =>
    rw [opt_some]
    exact (reads_flag true).bind (reads_array b).last

theorem reads_optU64 (v : Option (BitVec 64)) : Reads Reader.optU64 (Writer.optU64 v) v := by
  have back : (v.map fun v => (⟨Writer.u64 v, be_length⟩ : Field 8)).map (ofBe 8 ·.1) = v := by
    cases v with
    | none => rfl
    | some v => exact congrArg some (ofBe_be (n := 8) v)
  have read := (reads_optField (v.map fun v => (⟨Writer.u64 v, be_length⟩ : Field 8))).last
    (g := fun v => v.map (ofBe 8 ·.1))
  rw [back] at read
  exact read

/-- A turn nobody has written. -/
def blankOwnTurn : OwnTurn := ⟨0, ⟨blank _, blank _⟩, none⟩

theorem ownTurnBody_blank : Writer.ownTurnBody blankOwnTurn = padded [] ownTurnLen := by
  rw [ownTurnLen, zeros_add, zeros_add, zeros_add, zeros_add, ← be_zero 8, ← be_zero 1]
  simp only [Writer.ownTurnBody, blankOwnTurn, opt_none, Writer.u64, Writer.u8, absent, blank,
    List.append_assoc]

theorem reads_ownTurnBody (here : Bool) (t : OwnTurn) :
    Reads Reader.ownTurn (Writer.bool here ++ Writer.ownTurnBody t) (if here then some t else none) := by
  simp only [Writer.ownTurnBody, List.append_assoc]
  exact (reads_flag here).bind <| (reads_u64 t.m).bind <| (reads_array t.keypair.pk).bind <|
    (reads_array t.keypair.dk).bind <| (reads_optField t.ss).last

theorem reads_ownTurn (turn : Option OwnTurn) : Reads Reader.ownTurn (Writer.ownTurn turn) turn := by
  cases turn with
  | none =>
    rw [Writer.ownTurn, Option.elim_none, ← ownTurnBody_blank]
    exact reads_ownTurnBody false blankOwnTurn
  | some t => exact reads_ownTurnBody true t

def blankPeerTurn : PeerTurn := ⟨0, blank _, none⟩

theorem peerTurnBody_blank : Writer.peerTurnBody blankPeerTurn = padded [] peerTurnLen := by
  rw [peerTurnLen, zeros_add, zeros_add, zeros_add, ← be_zero 8, ← be_zero 1]
  simp only [Writer.peerTurnBody, blankPeerTurn, opt_none, Writer.u64, Writer.u8, absent, blank,
    List.append_assoc]

theorem reads_peerTurnBody (here : Bool) (t : PeerTurn) :
    Reads Reader.peerTurn (Writer.bool here ++ Writer.peerTurnBody t)
      (if here then some t else none) := by
  simp only [Writer.peerTurnBody, List.append_assoc]
  exact (reads_flag here).bind <| (reads_u64 t.m).bind <| (reads_array t.pk).bind <|
    (reads_optField t.ss).last

theorem reads_peerTurn (turn : Option PeerTurn) :
    Reads Reader.peerTurn (Writer.peerTurn turn) turn := by
  cases turn with
  | none =>
    rw [Writer.peerTurn, Option.elim_none, ← peerTurnBody_blank]
    exact reads_peerTurnBody false blankPeerTurn
  | some t => exact reads_peerTurnBody true t

theorem reads_header (magic : Octets) (version : UInt8) :
    Reads (Reader.headerVersion magic version) (magic ++ [version]) () := by
  intro rest
  show (Routes.Reader.headerVersion magic version (magic ++ [version] ++ rest)).map _ = _
  rw [List.append_assoc, Routes.headerVersion_append]
  rfl

theorem finish_run : Reader.finish.run [] = .ok ((), []) := rfl

end

/-! ## The conversation record -/

def convMagic : Octets := magic "daemonseed/dm/store/conv/v1"

def convRecordVersion : UInt8 := 3

def convRecordLen : Nat :=
  convMagic.length + 1 + MlDsa.pkLen + helloLookupKeyLen + helloLookupKeyLen + 8 + 8 + 8 + 8 + 8
    + 1 + helloFieldLen + (1 + MlKem.sharedSecretLen) + (1 + MlKem.ctLen) + (1 + controlKeyLen)
    + (1 + controlKeyLen) + (1 + 8) + (1 + openingLen) + snapshotLen + 1 + 1

namespace Writer

def helloBody (h : OutstandingHello) : Octets :=
  u16 h.slot ++ h.r.1 ++ h.kemCt.1 ++ h.sealed.1 ++ u64 h.advertSerial

def hello (outstanding : Option OutstandingHello) : Octets :=
  outstanding.elim (u8 absent ++ padded [] (helloFieldLen - 1)) fun h => u8 present ++ helloBody h

def sending (s : DirectionState) : Octets :=
  s.root.1 ++ opt s.chain ++ u64 s.n ++ optU64 s.mSeen ++ u64 s.seq ++ u64 s.cursor ++ opt s.peerPk
    ++ opt s.peerSs ++ ownTurn s.pendingTurn ++ bool s.forceTurn

def receiving (s : ReceivingState) : Octets :=
  s.root.1 ++ opt s.chain ++ u64 s.n ++ u64 s.nextSeq ++ ownTurn s.ownTurns.1
    ++ ownTurn s.ownTurns.2 ++ peerTurn s.peerLatest

end Writer

section

open Writer

def encodeConv (state : ConvState) : Octets :=
  convMagic ++ [convRecordVersion] ++ state.peerIdentityPk.1 ++ state.outgoingLookupKey.1
    ++ state.incomingLookupKey.1 ++ u64 state.generation ++ u64 state.sendSeq
    ++ u64 state.peerCollected ++ u64 state.myCollected ++ u64 state.cursorPublished
    ++ bool state.awaitingAcceptance ++ hello state.outstandingHello ++ opt state.ownHelloSecret
    ++ opt state.ownHelloKemCt ++ opt state.ownControlKey ++ opt state.peerControlKey
    ++ optU64 state.peerAdvertSerial ++ opt state.ownOpening ++ sending state.conversation.sending
    ++ receiving state.conversation.receiving ++ bool state.acceptancePending
    ++ bool state.deletePending

end

namespace Reader

def hello : Reader StoreError (Option OutstandingHello) := do
  let hasHello ← flag
  let slot ← u16
  let r ← field helloRLen
  let kemCt ← field MlKem.ctLen
  let sealed ← field helloLen
  let advertSerial ← u64
  refuse (hasHello ∧ dropSubkeys ≤ slot.toNat)
    (.corrupt "the outstanding hello names a slot the drop does not have")
  refuse (hasHello ∧ sealed.1.take MlKem.ctLen ≠ kemCt.1)
    (.corrupt "the outstanding hello's encapsulation is not the one it opens with")
  return if hasHello then some ⟨slot, r, kemCt, sealed, advertSerial⟩ else none

def sending : Reader StoreError DirectionState := do
  let root ← field rootLen
  let chain ← optField chainKeyLen
  let n ← u64
  let mSeen ← optU64
  let seq ← u64
  let cursor ← u64
  let peerPk ← optField MlKem.ekLen
  let peerSs ← optField MlKem.sharedSecretLen
  let pendingTurn ← ownTurn
  let forceTurn ← flag
  return { root, chain, n, mSeen, seq, cursor, peerPk, peerSs, pendingTurn, forceTurn }

def receiving : Reader StoreError ReceivingState := do
  let root ← field rootLen
  let chain ← optField chainKeyLen
  let n ← u64
  let nextSeq ← u64
  let newest ← ownTurn
  let older ← ownTurn
  let peerLatest ← peerTurn
  return { root, chain, n, nextSeq, ownTurns := (newest, older), peerLatest }

def conv : Reader StoreError ConvState := do
  headerVersion convMagic convRecordVersion
  let peerIdentityPk ← field MlDsa.pkLen
  let outgoingLookupKey ← field helloLookupKeyLen
  let incomingLookupKey ← field helloLookupKeyLen
  let generation ← u64
  let sendSeq ← u64
  let peerCollected ← u64
  let myCollected ← u64
  let cursorPublished ← u64
  let awaitingAcceptance ← flag
  refuse (myCollected < cursorPublished)
    (.corrupt "the published cursor is above this side's collection cursor")
  refuse (sendSeq < peerCollected)
    (.corrupt "the correspondent's cursor is above this side's send sequence")
  let outstandingHello ← hello
  let ownHelloSecret ← optField MlKem.sharedSecretLen
  let ownHelloKemCt ← optField MlKem.ctLen
  let ownControlKey ← optField controlKeyLen
  let peerControlKey ← optField controlKeyLen
  let peerAdvertSerial ← optU64
  let ownOpening ← optField openingLen
  let sending ← sending
  let receiving ← receiving
  let acceptancePending ← flag
  let deletePending ← flag
  finish
  return { peerIdentityPk, outgoingLookupKey, incomingLookupKey, generation,
           conversation := { sending, receiving }, sendSeq, peerCollected, myCollected,
           cursorPublished, awaitingAcceptance, acceptancePending, outstandingHello,
           ownHelloSecret, ownHelloKemCt, ownControlKey, peerControlKey, peerAdvertSerial,
           ownOpening, deletePending }

end Reader

def decodeConv (bytes : Octets) : Except StoreError ConvState := Reader.conv.run' bytes

/-- What `decode_conv` checks across fields. -/
structure ConvState.Readable (s : ConvState) : Prop where
  published : s.cursorPublished ≤ s.myCollected
  collected : s.peerCollected ≤ s.sendSeq
  slot : ∀ h ∈ s.outstandingHello, h.slot.toNat < dropSubkeys
  opens : ∀ h ∈ s.outstandingHello, h.sealed.1.take MlKem.ctLen = h.kemCt.1

def blankHello : OutstandingHello := ⟨0, blank _, blank _, blank _, 0⟩

theorem helloBody_blank : Writer.helloBody blankHello = padded [] (helloFieldLen - 1) := by
  have width : helloFieldLen - 1 = 2 + helloRLen + MlKem.ctLen + helloLen + 8 := by decide
  rw [width, zeros_add, zeros_add, zeros_add, zeros_add, ← be_zero 2, ← be_zero 8]
  simp only [Writer.helloBody, blankHello, Writer.u64, Writer.u16, blank]

theorem reads_helloBody (here : Bool) (h : OutstandingHello)
    (slot : here → h.slot.toNat < dropSubkeys)
    (opens : here → h.sealed.1.take MlKem.ctLen = h.kemCt.1) :
    Reads Reader.hello (Writer.bool here ++ Writer.helloBody h) (if here then some h else none) := by
  have inside : ¬ (here ∧ dropSubkeys ≤ h.slot.toNat) := fun ⟨e, past⟩ =>
    Nat.not_le_of_lt (slot e) past
  have begins : ¬ (here ∧ h.sealed.1.take MlKem.ctLen ≠ h.kemCt.1) := fun ⟨e, ne⟩ => ne (opens e)
  simp only [Writer.helloBody, List.append_assoc]
  refine (reads_flag here).bind <| (reads_word (n := 2) h.slot).bind <| (reads_array h.r).bind <|
    (reads_array h.kemCt).bind <| (reads_array h.sealed).bind ?_
  rw [← List.append_nil (Writer.u64 _)]
  exact (reads_u64 h.advertSerial).bind <| (reads_refuse inside).pass <|
    (reads_refuse begins).last

theorem reads_hello {outstanding : Option OutstandingHello}
    (slot : ∀ h ∈ outstanding, h.slot.toNat < dropSubkeys)
    (opens : ∀ h ∈ outstanding, h.sealed.1.take MlKem.ctLen = h.kemCt.1) :
    Reads Reader.hello (Writer.hello outstanding) outstanding := by
  cases outstanding with
  | none =>
    rw [Writer.hello, Option.elim_none, ← helloBody_blank]
    exact reads_helloBody false blankHello (fun e => by cases e) fun e => by cases e
  | some h => exact reads_helloBody true h (fun _ => slot h rfl) fun _ => opens h rfl

theorem reads_sending (s : DirectionState) : Reads Reader.sending (Writer.sending s) s := by
  simp only [Writer.sending, List.append_assoc]
  exact (reads_array s.root).bind <| (reads_optField s.chain).bind <| (reads_u64 s.n).bind <|
    (reads_optU64 s.mSeen).bind <| (reads_u64 s.seq).bind <| (reads_u64 s.cursor).bind <|
    (reads_optField s.peerPk).bind <| (reads_optField s.peerSs).bind <|
    (reads_ownTurn s.pendingTurn).bind <| (reads_flag s.forceTurn).last

theorem reads_receiving (s : ReceivingState) : Reads Reader.receiving (Writer.receiving s) s := by
  simp only [Writer.receiving, List.append_assoc]
  exact (reads_array s.root).bind <| (reads_optField s.chain).bind <| (reads_u64 s.n).bind <|
    (reads_u64 s.nextSeq).bind <| (reads_ownTurn s.ownTurns.1).bind <|
    (reads_ownTurn s.ownTurns.2).bind <| (reads_peerTurn s.peerLatest).last

/-- The flags that end the record. -/
theorem reads_ending {α : Type} {acceptance deletion : Bool} {f : Bool → Bool → α} :
    (do
      let acceptancePending ← Reader.flag
      let deletePending ← Reader.flag
      Reader.finish
      return f acceptancePending deletePending : Reader StoreError α).run
        (Writer.bool acceptance ++ Writer.bool deletion) = .ok (f acceptance deletion, []) := by
  rw [(reads_flag acceptance).run_bind, ← List.append_nil (Writer.bool deletion),
    (reads_flag deletion).run_bind]
  rfl

/-- A record that the checks hold of is read back as it was written. -/
theorem decodeConv_encodeConv {s : ConvState} (readable : s.Readable) :
    decodeConv (encodeConv s) = .ok s := by
  have published : ¬ s.myCollected < s.cursorPublished := BitVec.not_lt.2 readable.published
  have collected : ¬ s.sendSeq < s.peerCollected := BitVec.not_lt.2 readable.collected
  have read : Reader.conv.run (encodeConv s) = .ok (s, []) := by
    unfold encodeConv Reader.conv
    simp only [List.append_assoc]
    rw [← List.append_assoc convMagic]
    exact (reads_header convMagic convRecordVersion).then <| (reads_array s.peerIdentityPk).then <|
      (reads_array s.outgoingLookupKey).then <| (reads_array s.incomingLookupKey).then <|
      (reads_u64 s.generation).then <| (reads_u64 s.sendSeq).then <|
      (reads_u64 s.peerCollected).then <| (reads_u64 s.myCollected).then <|
      (reads_u64 s.cursorPublished).then <| (reads_flag s.awaitingAcceptance).then <|
      refuse_then published <| refuse_then collected <|
      (reads_hello readable.slot readable.opens).then <| (reads_optField s.ownHelloSecret).then <|
      (reads_optField s.ownHelloKemCt).then <| (reads_optField s.ownControlKey).then <|
      (reads_optField s.peerControlKey).then <| (reads_optU64 s.peerAdvertSerial).then <|
      (reads_optField s.ownOpening).then <| (reads_sending s.conversation.sending).then <|
      (reads_receiving s.conversation.receiving).then reads_ending
  exact congrArg (Functor.map Prod.fst) read

/-! ## The width of the conversation record -/

section

variable {n : Nat}

@[simp] theorem u8_length (v : BitVec 8) : (Writer.u8 v).length = 1 := toBe_length 1 _

@[simp] theorem u16_length (v : BitVec 16) : (Writer.u16 v).length = 2 := toBe_length 2 _

@[simp] theorem u32_length (v : BitVec 32) : (Writer.u32 v).length = 4 := toBe_length 4 _

@[simp] theorem u64_length (v : BitVec 64) : (Writer.u64 v).length = 8 := toBe_length 8 _

@[simp] theorem bool_length (b : Bool) : (Writer.bool b).length = 1 := u8_length _

@[simp] theorem field_length (b : Field n) : b.1.length = n := b.2

@[simp] theorem opt_length (v : Option (Field n)) : (Writer.opt v).length = 1 + n := by
  cases v with
  | none => rw [opt_none, List.length_append, u8_length, field_length]
  | some b => rw [opt_some, List.length_append, u8_length, field_length]

@[simp] theorem optU64_length (v : Option (BitVec 64)) : (Writer.optU64 v).length = 9 := opt_length _

theorem zeros_length (n : Nat) : (padded [] n).length = n := padded_length (Nat.zero_le n)

@[simp] theorem ownTurn_length (turn : Option OwnTurn) :
    (Writer.ownTurn turn).length = 1 + ownTurnLen := by
  cases turn with
  | none => rw [Writer.ownTurn, Option.elim_none, List.length_append, u8_length, zeros_length]
  | some t =>
    simp only [Writer.ownTurn, Option.elim_some, Writer.ownTurnBody, List.length_append, u8_length,
      u64_length, field_length, opt_length, ownTurnLen]
    omega

@[simp] theorem peerTurn_length (turn : Option PeerTurn) :
    (Writer.peerTurn turn).length = 1 + peerTurnLen := by
  cases turn with
  | none => rw [Writer.peerTurn, Option.elim_none, List.length_append, u8_length, zeros_length]
  | some t =>
    simp only [Writer.peerTurn, Option.elim_some, Writer.peerTurnBody, List.length_append, u8_length,
      u64_length, field_length, opt_length, peerTurnLen]
    omega

@[simp] theorem hello_length (outstanding : Option OutstandingHello) :
    (Writer.hello outstanding).length = helloFieldLen := by
  cases outstanding with
  | none =>
    rw [Writer.hello, Option.elim_none, List.length_append, u8_length, zeros_length]
    rfl
  | some h =>
    simp only [Writer.hello, Option.elim_some, Writer.helloBody, List.length_append, u8_length,
      u16_length, u64_length, field_length, helloFieldLen]
    omega

@[simp] theorem sending_length (s : DirectionState) : (Writer.sending s).length = sendingLen := by
  simp only [Writer.sending, List.length_append, field_length, opt_length, u64_length,
    optU64_length, ownTurn_length, bool_length, sendingLen]

@[simp] theorem receiving_length (s : ReceivingState) :
    (Writer.receiving s).length = receivingLen := by
  simp only [Writer.receiving, List.length_append, field_length, opt_length, u64_length,
    ownTurn_length, peerTurn_length, receivingLen, ownTurnsRetained]
  omega

/-- Every conversation record is of one size. -/
theorem encodeConv_length (s : ConvState) : (encodeConv s).length = convRecordLen := by
  unfold encodeConv convRecordLen snapshotLen
  simp only [List.length_append, List.length_singleton, field_length, u64_length, bool_length,
    hello_length, opt_length, optU64_length, sending_length, receiving_length]
  omega

end

/-! ## The advert keys -/

def advertKeysMagic : Octets := magic "daemonseed/dm/store/self/v1"

def advertKeysRecordVersion : UInt8 := 2

def advertKeysRecordLen : Nat :=
  advertKeysMagic.length + 1 + 8 + 8 + MlKem.dkLen + (1 + 8 + 8 + MlKem.dkLen) + (1 + 8)

def Writer.retiredBody (p : RetiredSnapshot) : Octets :=
  u64 p.serial ++ u64 p.retiredAt ++ p.decapsulationKey.1

def Writer.retired (previous : Option RetiredSnapshot) : Octets :=
  previous.elim (u8 absent ++ padded [] (8 + 8 + MlKem.dkLen)) fun p => u8 present ++ retiredBody p

/-- The keys, and the serial of the last advert known to be published. -/
def encodeAdvertKeys (snapshot : AdvertSnapshot) (published : Option (BitVec 64)) : Octets :=
  advertKeysMagic ++ [advertKeysRecordVersion] ++ Writer.u64 snapshot.serial
    ++ Writer.u64 snapshot.notBefore ++ snapshot.decapsulationKey.1
    ++ Writer.retired snapshot.previous ++ Writer.optU64 published

def Reader.retired : Reader StoreError (Option RetiredSnapshot) := do
  let hasPrevious ← flag
  let serial ← u64
  let retiredAt ← u64
  let decapsulationKey ← field MlKem.dkLen
  return if hasPrevious then some { serial, retiredAt, decapsulationKey } else none

def Reader.advertKeys : Reader StoreError (AdvertSnapshot × Option (BitVec 64)) := do
  headerVersion advertKeysMagic advertKeysRecordVersion
  let serial ← u64
  let notBefore ← u64
  let decapsulationKey ← field MlKem.dkLen
  let previous ← retired
  let published ← optU64
  finish
  return ({ serial, notBefore, decapsulationKey, previous }, published)

def decodeAdvertKeys (bytes : Octets) :
    Except StoreError (AdvertSnapshot × Option (BitVec 64)) :=
  Reader.advertKeys.run' bytes

def blankRetired : RetiredSnapshot := ⟨0, 0, blank _⟩

theorem retiredBody_blank : Writer.retiredBody blankRetired = padded [] (8 + 8 + MlKem.dkLen) := by
  rw [zeros_add, zeros_add, ← be_zero 8]
  simp only [Writer.retiredBody, blankRetired, Writer.u64, blank]

theorem reads_retiredBody (here : Bool) (p : RetiredSnapshot) :
    Reads Reader.retired (Writer.bool here ++ Writer.retiredBody p)
      (if here then some p else none) := by
  simp only [Writer.retiredBody, List.append_assoc]
  exact (reads_flag here).bind <| (reads_u64 p.serial).bind <| (reads_u64 p.retiredAt).bind <|
    (reads_array p.decapsulationKey).last

theorem reads_retired (previous : Option RetiredSnapshot) :
    Reads Reader.retired (Writer.retired previous) previous := by
  cases previous with
  | none =>
    rw [Writer.retired, Option.elim_none, ← retiredBody_blank]
    exact reads_retiredBody false blankRetired
  | some p => exact reads_retiredBody true p

theorem decodeAdvertKeys_encodeAdvertKeys (snapshot : AdvertSnapshot)
    (published : Option (BitVec 64)) :
    decodeAdvertKeys (encodeAdvertKeys snapshot published) = .ok (snapshot, published) := by
  have read : Reader.advertKeys.run (encodeAdvertKeys snapshot published) =
      .ok ((snapshot, published), []) := by
    unfold encodeAdvertKeys Reader.advertKeys
    rw [← List.append_nil (Writer.optU64 published)]
    simp only [List.append_assoc]
    rw [← List.append_assoc advertKeysMagic]
    exact (reads_header advertKeysMagic advertKeysRecordVersion).then <|
      (reads_u64 snapshot.serial).then <| (reads_u64 snapshot.notBefore).then <|
      (reads_array snapshot.decapsulationKey).then <| (reads_retired snapshot.previous).then <|
      (reads_optU64 published).then rfl
  exact congrArg (Functor.map Prod.fst) read

theorem encodeAdvertKeys_length (snapshot : AdvertSnapshot) (published : Option (BitVec 64)) :
    (encodeAdvertKeys snapshot published).length = advertKeysRecordLen := by
  have retired : (Writer.retired snapshot.previous).length = 1 + (8 + 8 + MlKem.dkLen) := by
    cases snapshot.previous with
    | none => rw [Writer.retired, Option.elim_none, List.length_append, u8_length, zeros_length]
    | some p =>
      simp only [Writer.retired, Option.elim_some, Writer.retiredBody, List.length_append, u8_length,
        u64_length, field_length]
  simp only [encodeAdvertKeys, List.length_append, List.length_singleton, field_length, u64_length,
    optU64_length, retired, advertKeysRecordLen]
  omega

/-! ## The outbox -/

def convOutboxMagic : Octets := magic "daemonseed/dm/store/obox/v1"

def convOutboxRecordVersion : UInt8 := 2

def convOutboxEntryLen : Nat := 1 + 8 + 8 + 4 + channelSubkeyLen

def convOutboxRecordLen : Nat := convOutboxMagic.length + 1 + ringSlots * convOutboxEntryLen

def Writer.entryBody (e : OutboxEntry) : Octets :=
  u64 e.seq ++ u64 e.sentAt ++ u32 (BitVec.ofNat 32 e.ciphertext.length)
    ++ padded e.ciphertext channelSubkeyLen

def Writer.entry (slot : Option OutboxEntry) : Octets :=
  slot.elim (u8 absent ++ padded [] (convOutboxEntryLen - 1)) fun e => u8 present ++ entryBody e

def encodeConvOutbox (table : List (Option OutboxEntry)) : Octets :=
  convOutboxMagic ++ [convOutboxRecordVersion] ++ table.flatMap Writer.entry

/-- An entry's place is its sequence modulo the ring. -/
def Reader.entry (index : Nat) : Reader StoreError (Option OutboxEntry) := do
  let here ← flag
  let seq ← u64
  let sentAt ← u64
  let len ← u32
  let body ← take channelSubkeyLen
  refuse (here ∧ seq.toNat % ringSlots ≠ index)
    (.corrupt "an entry holds a sequence that is not its ring position")
  refuse (here ∧ body.length < len.toNat) (.corrupt "an entry's length runs past its slot")
  return if here then some ⟨seq, sentAt, body.take len.toNat⟩ else none

def Reader.outbox : Reader StoreError (List (Option OutboxEntry)) := do
  headerVersion convOutboxMagic convOutboxRecordVersion
  let table ← (List.range ringSlots).mapM entry
  finish
  return table

def decodeConvOutbox (bytes : Octets) : Except StoreError (List (Option OutboxEntry)) :=
  Reader.outbox.run' bytes

/-- What an entry at an index is. -/
structure OutboxEntry.Fits (e : OutboxEntry) (index : Nat) : Prop where
  place : e.seq.toNat % ringSlots = index
  short : e.ciphertext.length ≤ channelSubkeyLen

/-- One entry for each slot of the ring, each in its place. -/
structure Table (table : List (Option OutboxEntry)) : Prop where
  slots : table.length = ringSlots
  entries : ∀ (i : Nat) (e : OutboxEntry), table[i]? = some (some e) → e.Fits i

theorem channelSubkeyLen_lt : channelSubkeyLen < 2 ^ 32 := by decide

theorem reads_entryBody {index : Nat} {e : OutboxEntry} (fits : e.Fits index) :
    Reads (Reader.entry index) (Writer.bool true ++ Writer.entryBody e) (some e) := by
  have len : (BitVec.ofNat 32 e.ciphertext.length).toNat = e.ciphertext.length :=
    Nat.mod_eq_of_lt (Nat.lt_of_le_of_lt fits.short channelSubkeyLen_lt)
  have body : (padded e.ciphertext channelSubkeyLen).take
      (BitVec.ofNat 32 e.ciphertext.length).toNat = e.ciphertext := by
    rw [len, take_padded]
  have placed : ¬ (true = true ∧ e.seq.toNat % ringSlots ≠ index) := fun ⟨_, ne⟩ => ne fits.place
  have inside : ¬ (true = true ∧ (padded e.ciphertext channelSubkeyLen).length <
      (BitVec.ofNat 32 e.ciphertext.length).toNat) := by
    rw [len, padded_length fits.short]
    exact fun ⟨_, past⟩ => Nat.not_lt_of_le fits.short past
  intro rest
  simp only [Writer.entryBody, List.append_assoc]
  refine (reads_flag true).then <| (reads_u64 e.seq).then <| (reads_u64 e.sentAt).then <|
    (reads_word (n := 4) _).then <| (reads_take_of (padded_length fits.short)).then <|
    refuse_then placed <| refuse_then inside ?_
  rw [body]
  rfl

theorem reads_blankEntry (index : Nat) :
    Reads (Reader.entry index) (Writer.entry none) none := by
  have width : convOutboxEntryLen - 1 = 8 + 8 + 4 + channelSubkeyLen := by decide
  have absent : ∀ P : Prop, ¬ (false = true ∧ P) := fun _ h => by cases h.1
  rw [Writer.entry, Option.elim_none, width, zeros_add, zeros_add, zeros_add, ← be_zero 8,
    ← be_zero 4]
  simp only [List.append_assoc]
  intro rest
  simp only [List.append_assoc]
  exact (reads_flag false).then <| (reads_u64 0).then <| (reads_u64 0).then <|
    (reads_word (n := 4) 0).then <| (reads_take_of (zeros_length _)).then <|
    refuse_then (absent _) <| refuse_then (absent _) rfl

theorem reads_entry {index : Nat} {slot : Option OutboxEntry} (fits : ∀ e ∈ slot, e.Fits index) :
    Reads (Reader.entry index) (Writer.entry slot) slot := by
  cases slot with
  | none => exact reads_blankEntry index
  | some e => exact reads_entryBody (fits e rfl)

theorem Table.reads {table : List (Option OutboxEntry)} (h : Table table) :
    Reads ((List.range ringSlots).mapM Reader.entry) (table.flatMap Writer.entry) table := by
  refine Reads.mapM (List.forall₂_iff_get.2 ⟨by rw [List.length_range, h.slots], ?_⟩)
  intro i inRange inTable
  refine reads_entry fun e held => ?_
  simp only [List.get_eq_getElem, List.getElem_range]
  refine h.entries i e ?_
  rw [List.getElem?_eq_getElem inTable]
  exact congrArg some held

theorem decodeConvOutbox_encodeConvOutbox {table : List (Option OutboxEntry)} (h : Table table) :
    decodeConvOutbox (encodeConvOutbox table) = .ok table := by
  have read : Reader.outbox.run (encodeConvOutbox table) = .ok (table, []) := by
    unfold encodeConvOutbox Reader.outbox
    rw [← List.append_nil (table.flatMap _)]
    exact (reads_header convOutboxMagic convOutboxRecordVersion).then <| h.reads.then rfl
  exact congrArg (Functor.map Prod.fst) read

theorem entry_length {i : Nat} {slot : Option OutboxEntry} (fits : ∀ e ∈ slot, e.Fits i) :
    (Writer.entry slot).length = convOutboxEntryLen := by
  cases slot with
  | none =>
    rw [Writer.entry, Option.elim_none, List.length_append, u8_length, zeros_length]
    rfl
  | some e =>
    simp only [Writer.entry, Option.elim_some, Writer.entryBody, List.length_append, u8_length,
      u64_length, u32_length, padded_length (fits e rfl).short, convOutboxEntryLen]
    omega

theorem encodeConvOutbox_length {table : List (Option OutboxEntry)} (h : Table table) :
    (encodeConvOutbox table).length = convOutboxRecordLen := by
  have entries : ∀ slot ∈ table, (Writer.entry slot).length = convOutboxEntryLen := by
    intro slot mem
    obtain ⟨i, inTable, rfl⟩ := List.mem_iff_getElem.1 mem
    refine entry_length (i := i) fun e held => h.entries i e ?_
    rw [List.getElem?_eq_getElem inTable]
    exact congrArg some held
  have sum : (table.map fun slot => (Writer.entry slot).length).sum =
      ringSlots * convOutboxEntryLen := by
    rw [List.map_congr_left entries, List.map_const', List.sum_replicate, h.slots, smul_eq_mul]
  rw [encodeConvOutbox, List.length_append, List.length_append, List.length_singleton,
    List.length_flatMap, sum, convOutboxRecordLen]

/-! ## The route and the handle -/

def routeRecordLen : Nat := Routes.routeMagic.length + 1 + 2 + Routes.reachRouteMaxLen + 8

def handleRecordLen : Nat := Routes.handleMagic.length + 1 + 2 + Routes.handleMaxLen

theorem encodeRoute_length {route : Octets} {serial : Routes.U64}
    (h : route.length ≤ Routes.reachRouteMaxLen) :
    (Routes.encodeRoute route serial).length = routeRecordLen := by
  rw [Routes.encodeRoute, List.take_of_length_le h]
  simp only [List.length_append, List.length_singleton, toBe_length, padded_length h,
    List.length_nil, routeRecordLen]
  omega

theorem cutHandle_go {room : Nat} {t : List Char} (fits : String.utf8Len t ≤ room) :
    Routes.cutHandle.go room t = t := by
  induction t generalizing room with
  | nil => rfl
  | cons c t ih =>
    rw [String.utf8Len_cons] at fits
    rw [Routes.cutHandle.go, if_neg (by omega), ih (by omega)]

/-- A handle within its field is not cut. -/
theorem cutHandle_fits {handle : String} (fits : handle.utf8ByteSize ≤ Routes.handleMaxLen) :
    Routes.cutHandle handle = handle := by
  rw [Routes.cutHandle, cutHandle_go, String.ofList_toList]
  rwa [← String.utf8ByteSize_ofList, String.ofList_toList]

theorem decodeHandle_encodeHandle {handle : String}
    (fits : handle.utf8ByteSize ≤ Routes.handleMaxLen) :
    Routes.decodeHandle (Routes.encodeHandle handle) = .ok handle := by
  have short : (utf8 handle).length ≤ Routes.handleMaxLen := utf8_length handle ▸ fits
  have len : fromBe (toBe 2 (utf8 handle).length) = (utf8 handle).length := by
    rw [fromBe_toBe, Nat.mod_eq_of_lt]
    exact Nat.lt_of_le_of_lt short (by decide)
  have back : String.fromUTF8? ⟨(utf8 handle).toArray⟩ = some handle := ofUtf8_utf8 handle
  rw [Routes.encodeHandle, cutHandle_fits fits, toUTF8_toList, Routes.decodeHandle,
    Routes.headerVersion_append]
  simp only [bind, Except.bind]
  rw [Routes.take_eq (toBe_length 2 _)]
  dsimp only
  rw [← List.append_nil (padded _ _), Routes.take_eq (padded_length short)]
  simp only [len, padded_length short, if_neg (Nat.not_lt_of_le short), take_padded, back]
  rfl

theorem encodeHandle_length {handle : String} (fits : handle.utf8ByteSize ≤ Routes.handleMaxLen) :
    (Routes.encodeHandle handle).length = handleRecordLen := by
  have short : (utf8 handle).length ≤ Routes.handleMaxLen := utf8_length handle ▸ fits
  rw [Routes.encodeHandle, cutHandle_fits fits, toUTF8_toList]
  simp only [List.length_append, List.length_singleton, toBe_length, padded_length short,
    handleRecordLen]
  omega

/-! ## All of them -/

/-- **Records are read back and of one size.** A conversation that the checks hold of, the advert
keys, an outbox whose entries are in their places, and a route and a handle within their fields
are read back as they were written, and each record is as long as any other of its kind. -/
theorem records_read_back :
    (∀ s : ConvState, (encodeConv s).length = convRecordLen ∧
      (s.Readable → decodeConv (encodeConv s) = .ok s)) ∧
    (∀ s s' : ConvState, s.Readable → s'.Readable → encodeConv s = encodeConv s' → s = s') ∧
    (∀ snapshot published,
      (encodeAdvertKeys snapshot published).length = advertKeysRecordLen ∧
      decodeAdvertKeys (encodeAdvertKeys snapshot published) = .ok (snapshot, published)) ∧
    (∀ table, Table table →
      (encodeConvOutbox table).length = convOutboxRecordLen ∧
      decodeConvOutbox (encodeConvOutbox table) = .ok table) ∧
    (∀ route serial, route.length ≤ Routes.reachRouteMaxLen →
      (Routes.encodeRoute route serial).length = routeRecordLen ∧
      Routes.decodeRoute (Routes.encodeRoute route serial) =
        .ok (if route = [] then none else some route, serial)) ∧
    ∀ handle : String, handle.utf8ByteSize ≤ Routes.handleMaxLen →
      (Routes.encodeHandle handle).length = handleRecordLen ∧
      Routes.decodeHandle (Routes.encodeHandle handle) = .ok handle := by
  refine ⟨fun s => ⟨encodeConv_length s, decodeConv_encodeConv⟩, fun s s' readable readable' same => ?_,
    fun snapshot published =>
      ⟨encodeAdvertKeys_length _ _, decodeAdvertKeys_encodeAdvertKeys _ _⟩,
    fun table h => ⟨encodeConvOutbox_length h, decodeConvOutbox_encodeConvOutbox h⟩,
    fun route serial h => ⟨encodeRoute_length h, Routes.decodeRoute_encodeRoute h⟩,
    fun handle h => ⟨encodeHandle_length h, decodeHandle_encodeHandle h⟩⟩
  have read := decodeConv_encodeConv readable
  rw [same, decodeConv_encodeConv readable'] at read
  exact (Except.ok.inj read).symm

/-- A first contact nobody has answered, with nothing else in the record. -/
def freshConv : ConvState where
  peerIdentityPk := blank _
  outgoingLookupKey := blank _
  incomingLookupKey := blank _
  generation := 0
  conversation := ⟨⟨blank _, none, 0, none, 0, 0, none, none, none, false⟩,
    ⟨blank _, none, 0, 0, (none, none), none⟩⟩
  sendSeq := 0
  peerCollected := 0
  myCollected := 0
  cursorPublished := 0
  awaitingAcceptance := true
  acceptancePending := false
  outstandingHello := some ⟨7, blank _, blank _, blank _, 3⟩
  ownHelloSecret := none
  ownHelloKemCt := none
  ownControlKey := none
  peerControlKey := none
  peerAdvertSerial := none
  ownOpening := none
  deletePending := false

theorem records_read_back_fresh : decodeConv (encodeConv freshConv) = .ok freshConv := by
  refine (records_read_back.1 freshConv).2 ⟨by decide, by decide, fun h held => ?_, fun h held => ?_⟩
  · obtain rfl := Option.some.inj held
    decide
  · obtain rfl := Option.some.inj held
    have width : helloLen = MlKem.ctLen + (helloLen - MlKem.ctLen) := by decide
    show (padded [] helloLen).take MlKem.ctLen = padded [] MlKem.ctLen
    rw [width, zeros_add, List.take_append_of_le_length (zeros_length _).ge,
      List.take_of_length_le (zeros_length _).le]

end Daemonseed.Dm.RecordBytes
