import Daemonseed.Dm.RecordInvariant
import Daemonseed.Lib.Recall

/-! # One sequence, one slot

What is written to the slot of one sequence is the same bytes each time,
whichever flow writes it and however often a seal at that sequence was made and
refused, as long as nothing comes between a seal's entry in the outbox and its
commit. -/
namespace Daemonseed.Dm.OneSlot
open Daemonseed.Dm.Primitives Daemonseed.Dm.Channel Daemonseed.Dm.Chain Daemonseed.Dm.Records
  Daemonseed.Dm.Store Daemonseed.Dm.Flows Daemonseed.Dm.Contact Daemonseed.Dm.Sections
  Daemonseed.Dm.Symbolic Daemonseed.Dm.RecordInvariant Daemonseed.Lib.Runs Daemonseed.Lib.Flows
  Daemonseed.Lib.Flows.Flow Daemonseed.Lib.Pools Daemonseed.Lib.Recall
  Daemonseed.Lib.Results

variable {B : Type} {C : Crypto B} {P : Platform B}

/-! ## Rewriting -/

/-- The runner's `rewrite_slot` for each entry. A write that fails is left to
the next repair. -/
def rewriteSlots (lookupKey : B) : List (OutboxEntry B) → DmFlow B Unit
  | [] => return ()
  | entry :: rest => do
    let _ : Except RecordError Unit ←
      Flow.call (Query.writeChannel lookupKey (slotFor entry.seq) (.slot entry.ciphertext))
    rewriteSlots lookupKey rest

/-- The slots the runner writes from the outbox: one a send has just committed
(`write_committed`), or those the network's reports pick (`rewrite_evicted`). -/
def rewriteOutstanding [DecidableEq B] (P : Platform B) (picked : OutboxEntry B → Bool) :
    DmFlow B Unit := do
  match ← loadAll with
  | none => return ()
  | some conv =>
    if conv.state.outgoingLookupKey = P.zeros then return ()
    else rewriteSlots conv.state.outgoingLookupKey (conv.outstandingOutbox.filter picked)

/-- A call of a flow, or a repair of the runner's. -/
inductive Act (B : Type)
  | call (flow : Call B)
  | rewrite (picked : OutboxEntry B → Bool)

def Act.flow [DecidableEq B] (C : Crypto B) (P : Platform B) (me : Me B) (rounds : Nat) :
    Act B → DmFlow B (Outcome B)
  | .call flow => flow.flow C P me rounds
  | .rewrite picked => do
    rewriteOutstanding P picked
    return .done

/-! ## What is written -/

/-- The slots a query writes to the record store: channel, subkey and bytes. -/
def slotsOf : Query B → List (B × Nat × Slot B)
  | .writeChannel lookupKey subkey (.slot slot) => [(lookupKey, subkey, slot)]
  | .writeBatch writes => writes.filterMap fun
    | .channel lookupKey subkey (.slot slot) => some (lookupKey, subkey, slot)
    | _ => none
  | _ => []

/-- How many sequences of this side are committed. -/
def committed (c : Correspondence B) : Nat :=
  match c.conv with
  | none => 0
  | some s => s.sendSeq

/-- The bytes the outbox holds at a sequence's place. -/
def held (c : Correspondence B) (seq : Nat) : Option (Slot B) :=
  (c.outbox (ringIndex seq)).map (·.ciphertext)

/-- Each committed sequence owes the bytes told of it. -/
structure Owes (F : Nat → Option (Slot B)) (c : Correspondence B) : Prop where
  entries : ∀ e, c.outbox (ringIndex e.seq) = some e → e.seq < committed c →
    F e.seq = some e.ciphertext
  named : ∀ n slot, n < committed c → F n = some slot → slot.header.seq = n

/-- A slot write owes its sequence's bytes, at its sequence's subkey. -/
def Owed (F : Nat → Option (Slot B)) (q : Query B) : Prop :=
  ∀ w ∈ slotsOf q, F w.2.2.header.seq = some w.2.2 ∧ w.2.1 = slotFor w.2.2.header.seq

variable {F : Nat → Option (Slot B)}

/-- A section that commits nothing and puts nothing in the outbox. -/
theorem Owes.tame {c c' : Correspondence B} (h : Owes F c) (same : committed c' = committed c)
    (fewer : ∀ i e, c'.outbox i = some e → c.outbox i = some e) : Owes F c' where
  entries e he hlt := h.entries e (fewer _ e he) (same ▸ hlt)
  named n slot hn := h.named n slot (same ▸ hn)

/-- A sequence committed with its entry in place. -/
theorem Owes.commits {c c' : Correspondence B} (h : Owes F c)
    (next : committed c' = committed c + 1) (outbox : c'.outbox = c.outbox) {slot : Slot B}
    (told : F (committed c) = some slot) (entry : held c (committed c) = some slot)
    (named : slot.header.seq = committed c) : Owes F c' where
  entries e he hlt := by
    rw [outbox] at he
    rcases Nat.lt_succ_iff_lt_or_eq.1 (next ▸ hlt) with hlt | heq
    · exact h.entries e he hlt
    · rw [held, ← heq, he, Option.map_some, Option.some.injEq] at entry
      rw [heq, told, entry]
  named n slot' hn hF := by
    rcases Nat.lt_succ_iff_lt_or_eq.1 (next ▸ hn) with hlt | rfl
    · exact h.named n slot' hlt hF
    · rw [told, Option.some.injEq] at hF
      rw [← hF, named]

variable [DecidableEq B]

/-! ## Sealing alone -/

/-- A section is let on these terms: the end of an acceptance is recorded while
it is pending, nothing is put in the outbox at a committed sequence, and a
sequence is committed over the entry its own call's last section left. -/
structure SealsAlone (left : Option (Correspondence B))
    (f : Correspondence B → Correspondence B) (c : Correspondence B) : Prop where
  finishes : FinishesPending f c
  persists : ∀ i < ringSlots, ∀ e, (f c).outbox i = some e → e.seq < committed c →
    c.outbox i = some e
  commits : committed c < committed (f c) → ∀ p, left = some p →
    held c (committed c) = held p (committed c)

/-- What is known beside that of a section of a run: the record is in order and
what it commits is what was told. -/
structure Let (F : Nat → Option (Slot B)) (left : Option (Correspondence B))
    (f : Correspondence B → Correspondence B) (c : Correspondence B) : Prop where
  alone : SealsAlone left f c
  keeps : Keeps c
  agrees : Agrees committed held F left f c

/-- A flow that writes only the bytes told. -/
abbrev Writer (F : Nat → Option (Slot B)) {α : Type} (post : α → Prop)
    (p : DmFlow B α) (left : Option (Correspondence B)) : Prop :=
  Shows (Owes F) (Let F) (Owed F) post p left

/-! ## Sections on the way -/

variable {α β : Type} {post : β → Prop} {left : Option (Correspondence B)}

theorem Writer.returns {mid : α → Prop} {p : DmFlow B α} {k : α → β}
    (h : Writer F mid p left) :
    Writer F (fun _ => True) (p >>= fun a => pure (k a)) left :=
  h.bind fun _ _ _ => shows_pure trivial

variable {ι : Type}

variable [DecidableEq ι]

/-- The acceptance is carried on to its end; both sends put their entry in the
outbox; the first commits and writes its slot; the repair writes what the
outbox holds. -/
def crossed : List (Fin 5) :=
  List.replicate 19 0 ++ List.replicate 10 1 ++ List.replicate 4 2 ++ List.replicate 4 3 ++
    List.replicate 2 2 ++ List.replicate 4 4

end Daemonseed.Dm.OneSlot
