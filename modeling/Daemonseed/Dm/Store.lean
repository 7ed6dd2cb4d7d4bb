import Daemonseed.Dm.Chain
import Daemonseed.Dm.Records
import Daemonseed.Lib.Results
import Mathlib.Data.List.Sort
import Mathlib.Logic.Function.Basic

/-! # One correspondence at rest

The conversation record and the outbox of one correspondence, and what the
store does to them in one critical section. A record is kept as its fields:
the encoding writes each of them at a place of its own, so two records encode
alike exactly where they are equal, and what a read can still refuse is what
`decode_conv` checks across fields. -/
namespace Daemonseed.Dm.Store
open Daemonseed.Dm.Primitives Daemonseed.Dm.Channel Daemonseed.Dm.Chain Daemonseed.Dm.Records
  Daemonseed.Lib.Results

variable {B : Type}

/-- Why a store operation failed. -/
inductive StoreError
  | corrupt (reason : String)
  | outboxSlotOccupied (offered holding : Nat)
  | ciphertextTooLong (len : Nat)
  | missingConversation
  | conversationExists
  deriving DecidableEq, Repr

/-- An unanswered first-contact hello, held as it was written. -/
structure OutstandingHello (B : Type) where
  slot : Nat
  r : B
  kemCt : B
  sealed : SealedHello B
  advertSerial : Nat
  deriving DecidableEq, Repr

/-- The conversation record. -/
structure ConvState (B : Type) where
  peerIdentityPk : B
  outgoingLookupKey : B
  incomingLookupKey : B
  generation : Nat
  conversation : ConversationSnapshot B
  sendSeq : Nat
  peerCollected : Nat
  myCollected : Nat
  cursorPublished : Nat
  awaitingAcceptance : Bool
  acceptancePending : Bool
  outstandingHello : Option (OutstandingHello B)
  ownHelloSecret : Option B
  ownHelloKemCt : Option B
  ownControlKey : Option B
  peerControlKey : Option B
  peerAdvertSerial : Option Nat
  ownOpening : Option (ChannelOpening B)
  deletePending : Bool
  deriving DecidableEq, Repr

/-- One message still owed: the exact slot it must hold. -/
structure OutboxEntry (B : Type) where
  seq : Nat
  sentAt : Nat
  ciphertext : Slot B
  deriving DecidableEq, Repr

/-- What a correspondence holds on disk. The outbox has an entry for each ring
index. -/
structure Correspondence (B : Type) where
  conv : Option (ConvState B)
  outbox : Nat → Option (OutboxEntry B)

/-- A correspondence as a launch reads it. -/
structure LoadedConv (B : Type) where
  state : ConvState B
  outstandingOutbox : List (OutboxEntry B)

/-- Which entry of the outbox a sequence occupies. -/
def ringIndex (seq : Nat) : Nat := seq % ringSlots

/-- What `decode_conv` checks of a record across its fields. -/
def decodeConv [DecidableEq B] (s : ConvState B) : Except StoreError (ConvState B) :=
  if s.myCollected < s.cursorPublished then
    .error (.corrupt "the published cursor is above this side's collection cursor")
  else if s.sendSeq < s.peerCollected then
    .error (.corrupt "the correspondent's cursor is above this side's send sequence")
  else
    match s.outstandingHello with
    | none => .ok s
    | some h =>
      if dropSubkeys ≤ h.slot then
        .error (.corrupt "the outstanding hello names a slot the drop does not have")
      else if h.sealed.kemCt ≠ h.kemCt then
        .error (.corrupt "the outstanding hello's encapsulation is not the one it opens with")
      else .ok s

/-- What `decode_conv_outbox` checks: an entry's place is its sequence modulo
the ring. -/
def readOutbox (outbox : Nat → Option (OutboxEntry B)) :
    Except StoreError (Nat → Option (OutboxEntry B)) :=
  if (List.range ringSlots).all fun i => (outbox i).all (ringIndex ·.seq == i) then .ok outbox
  else .error (.corrupt "an entry holds a sequence that is not its ring position")

namespace Correspondence

/-- `Store::load_conv`. -/
def loadConv [DecidableEq B] (c : Correspondence B) : Except StoreError (Option (ConvState B)) :=
  match c.conv with
  | none => .ok none
  | some s => (decodeConv s).map some

/-- Create, never replace. -/
def createConv (s : ConvState B) (c : Correspondence B) : Except StoreError (Correspondence B) :=
  if c.conv.isSome then .error .conversationExists else .ok { c with conv := some s }

/-- Read, change and write back, where the change is not refused. -/
def tryUpdateConv [DecidableEq B] {ε α : Type} (f : ConvState B → Except ε (α × ConvState B))
    (c : Correspondence B) : Except StoreError (Except ε (α × Correspondence B)) :=
  match c.loadConv with
  | .error e => .error e
  | .ok none => .error .missingConversation
  | .ok (some s) =>
    match f s with
    | .error e => .ok (.error e)
    | .ok (a, s') => .ok (.ok (a, { c with conv := some s' }))

/-- `update_conv`: a change that is never refused. -/
def updateConv [DecidableEq B] (f : ConvState B → ConvState B) (c : Correspondence B) :
    Except StoreError (Correspondence B) :=
  match c.loadConv with
  | .error e => .error e
  | .ok none => .error .missingConversation
  | .ok (some s) => .ok { c with conv := some (f s) }

def markDeletePending [DecidableEq B] (c : Correspondence B) :
    Except StoreError (Correspondence B) :=
  c.updateConv fun s => { s with deletePending := true }

/-- Record the slot of `seq` before it is written. -/
def persistOutbox (P : Platform B) (seq : Nat) (ciphertext : Slot B) (sentAt : Nat)
    (c : Correspondence B) : Except StoreError (Correspondence B) :=
  if channelSubkeyLen < ciphertext.length P then
    .error (.ciphertextTooLong (ciphertext.length P))
  else do
    let table ← readOutbox c.outbox
    let persisted : Correspondence B :=
      { c with outbox := Function.update table (ringIndex seq) (some ⟨seq, sentAt, ciphertext⟩) }
    match table (ringIndex seq) with
    | some held =>
      if held.seq ≠ seq then .error (.outboxSlotOccupied seq held.seq) else .ok persisted
    | none => .ok persisted

/-- Drop every entry below `cursor`. -/
def deleteOutboxThrough (cursor : Nat) (c : Correspondence B) :
    Except StoreError (Correspondence B) := do
  let table ← readOutbox c.outbox
  return { c with outbox := fun i => (table i).filter fun e => !collected e.seq cursor }

/-- The messages committed and not yet collected, ascending. -/
def outstanding (s : ConvState B) (outbox : Nat → Option (OutboxEntry B)) :
    List (OutboxEntry B) :=
  (((List.range ringSlots).filterMap outbox).filter fun e =>
    !s.deletePending && (s.peerCollected ≤ e.seq ∧ e.seq < s.sendSeq : Bool)).insertionSort
      fun x y => x.seq ≤ y.seq

/-- `Store::load`, of this correspondence. -/
def load [DecidableEq B] (c : Correspondence B) : Except StoreError (Option (LoadedConv B)) := do
  match ← c.loadConv with
  | none => return none
  | some s =>
    let table ← readOutbox c.outbox
    return some ⟨s, outstanding s table⟩

end Correspondence

/-! ## What a section does -/

theorem decodeConv_ok [DecidableEq B] {s s' : ConvState B} (h : decodeConv s = .ok s') :
    s' = s := by
  unfold decodeConv at h
  repeat' split at h
  all_goals simp_all

/-- What `decode_conv` accepts. -/
theorem decodeConv_iff [DecidableEq B] {s : ConvState B} :
    decodeConv s = .ok s ↔ s.cursorPublished ≤ s.myCollected ∧ s.peerCollected ≤ s.sendSeq ∧
      ∀ h, s.outstandingHello = some h → h.slot < dropSubkeys ∧ h.sealed.kemCt = h.kemCt := by
  unfold decodeConv
  split
  · simp only [reduceCtorEq, false_iff, not_and]
    omega
  · split
    · simp only [reduceCtorEq, false_iff, not_and]
      omega
    · cases hh : s.outstandingHello with
      | none => simp; omega
      | some h =>
        simp only [Option.some.injEq, forall_eq']
        split
        · simp only [reduceCtorEq, false_iff, not_and]
          omega
        · split
          · simp_all
          · simp_all

theorem loadConv_some [DecidableEq B] {c : Correspondence B} {s : ConvState B}
    (h : c.loadConv = .ok (some s)) : c.conv = some s := by
  unfold Correspondence.loadConv at h
  cases hc : c.conv with
  | none => simp [hc] at h
  | some s' =>
    simp only [hc] at h
    cases hd : decodeConv s' with
    | error e => simp [hd, Except.map] at h
    | ok s'' =>
      simp only [hd, Except.map, Except.ok.injEq, Option.some.injEq] at h
      rw [← h, decodeConv_ok hd]

theorem loadConv_none [DecidableEq B] {c : Correspondence B} (h : c.loadConv = .ok none) :
    c.conv = none := by
  unfold Correspondence.loadConv at h
  cases hc : c.conv with
  | none => rfl
  | some s =>
    simp only [hc] at h
    cases hd : decodeConv s <;> simp [hd, Except.map] at h

theorem updateConv_ok [DecidableEq B] {f : ConvState B → ConvState B} {c c' : Correspondence B}
    (h : c.updateConv f = .ok c') :
    ∃ s, c.loadConv = .ok (some s) ∧ c.conv = some s ∧ c' = { c with conv := some (f s) } := by
  unfold Correspondence.updateConv at h
  split at h
  · cases h
  · cases h
  · rename_i s hs
    cases h
    exact ⟨s, hs, loadConv_some hs, rfl⟩

theorem tryUpdateConv_ok [DecidableEq B] {ε α : Type}
    {f : ConvState B → Except ε (α × ConvState B)} {c c' : Correspondence B} {a : α}
    (h : c.tryUpdateConv f = .ok (.ok (a, c'))) :
    ∃ s s', c.loadConv = .ok (some s) ∧ c.conv = some s ∧ f s = .ok (a, s') ∧
      c' = { c with conv := some s' } := by
  unfold Correspondence.tryUpdateConv at h
  split at h
  · cases h
  · cases h
  · rename_i s hs
    cases hf : f s with
    | error e => simp [hf] at h
    | ok x =>
      obtain ⟨b, s'⟩ := x
      simp only [hf, Except.ok.injEq, Prod.mk.injEq] at h
      exact ⟨s, s', hs, loadConv_some hs, h.1 ▸ hf, h.2.symm⟩

theorem createConv_ok {s : ConvState B} {c c' : Correspondence B}
    (h : c.createConv s = .ok c') : c.conv = none ∧ c' = { c with conv := some s } := by
  unfold Correspondence.createConv at h
  split at h
  · cases h
  · cases h
    exact ⟨Option.not_isSome_iff_eq_none.1 ‹_›, rfl⟩

theorem readOutbox_ok {outbox table : Nat → Option (OutboxEntry B)}
    (h : readOutbox outbox = .ok table) : table = outbox := by
  unfold readOutbox at h
  split at h <;> cases h
  rfl

/-- A persisted entry takes its own place, free or its own, and nothing else
moves. -/
theorem persistOutbox_ok {P : Platform B} {seq sentAt : Nat} {ciphertext : Slot B}
    {c c' : Correspondence B} (h : c.persistOutbox P seq ciphertext sentAt = .ok c') :
    c' = { c with
        outbox := Function.update c.outbox (ringIndex seq) (some ⟨seq, sentAt, ciphertext⟩) } ∧
      ∀ e, c.outbox (ringIndex seq) = some e → e.seq = seq := by
  unfold Correspondence.persistOutbox at h
  split at h
  · cases h
  · cases ht : readOutbox c.outbox with
    | error e => simp [ht, bind, Except.bind] at h
    | ok table =>
      obtain rfl := readOutbox_ok ht
      simp only [ht, bind, Except.bind] at h
      cases hs : c.outbox (ringIndex seq) with
      | none =>
        simp only [hs, Except.ok.injEq] at h
        exact ⟨h.symm, by simp⟩
      | some held =>
        simp only [hs] at h
        split at h
        · cases h
        · cases h
          exact ⟨rfl, by simp_all⟩

theorem deleteOutboxThrough_ok {cursor : Nat} {c c' : Correspondence B}
    (h : c.deleteOutboxThrough cursor = .ok c') :
    c' = { c with outbox := fun i => (c.outbox i).filter fun e => !collected e.seq cursor } := by
  unfold Correspondence.deleteOutboxThrough at h
  cases ht : readOutbox c.outbox with
  | error e => simp [ht, bind, Except.bind] at h
  | ok table =>
    obtain rfl := readOutbox_ok ht
    simp only [ht, bind, Except.bind, pure, Except.pure, Except.ok.injEq] at h
    exact h.symm

end Daemonseed.Dm.Store
