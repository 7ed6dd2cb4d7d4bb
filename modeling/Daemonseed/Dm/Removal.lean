import Daemonseed.Dm.Contact
import Daemonseed.Dm.Routes
import Daemonseed.Lib.Folders

/-! # The records of one correspondence, access by access

The store keeps four records for each correspondent. Each critical section on
them is the accesses it makes, in their order: a section that fails, or is
stopped, leaves what the accesses before did, and what is left of a delete that
stopped is finished by the next section that reads it. -/
namespace Daemonseed.Dm.Removal
open Daemonseed.Dm.Primitives Daemonseed.Dm.Channel Daemonseed.Dm.Records Daemonseed.Dm.Store
  Daemonseed.Lib.Bytes Daemonseed.Lib.Folders Daemonseed.Lib.Folders.Section
open Daemonseed.Dm.Routes (U64 Reach ReachTake decodeRoute encodeRoute decodeHandle encodeHandle
  cutHandle)

inductive RecordKind
  | conversation
  | conversationOutbox
  | correspondentHandle
  | correspondentRoute
  deriving DecidableEq, Repr

abbrev Table (B : Type) := Nat → Option (OutboxEntry B)

def Payload (B : Type) : RecordKind → Type
  | .conversation => ConvState B
  | .conversationOutbox => Table B
  | .correspondentHandle | .correspondentRoute => Octets

/-- The records of one correspondence. -/
abbrev Records (B : Type) := Folder (Payload B)

/-- A critical section of one correspondence. -/
abbrev Locked (B : Type) := Section (Payload B) StoreError

/-- The order in which `delete_conv` removes the records. -/
def deleteOrder : List RecordKind :=
  [.conversation, .conversationOutbox, .correspondentHandle, .correspondentRoute]

variable {B : Type}

/-- Where no record is left, the outbox is empty. -/
def outboxOf : Option (Table B) → Except StoreError (Table B)
  | none => .ok fun _ => none
  | some table => readOutbox table

/-- A handle that does not decode is none. -/
def readHandle : Locked B (Option String) := do
  let found : Option Octets ← readFinishing RecordKind.correspondentHandle
  return found.bind fun bytes => (decodeHandle bytes).toOption

/-- No route and serial 0 where there is no record or it does not decode. -/
def readRouteRecord : Locked B (Option Octets × U64) := do
  let found : Option Octets ← readFinishing RecordKind.correspondentRoute
  return (found.bind fun bytes => (decodeRoute bytes).toOption).getD (none, 0)

section Sections

variable [DecidableEq B]

def readConv : Locked B (Option (ConvState B)) := do
  let found : Option (ConvState B) ← readFinishing RecordKind.conversation
  match found with
  | none => return none
  | some state => do
    let state ← ofExcept (decodeConv state)
    return some state

/-- The conversation a section is about, or `MissingConversation`. -/
def heldConv : Locked B (ConvState B) := do
  match ← readConv with
  | none => refuse .missingConversation
  | some state => return state

/-- Creates, never replaces. -/
def createConv (state : ConvState B) : Locked B Unit := do
  match ← look .conversation with
  | .absent => replace .conversation state
  | .payload _ => refuse .conversationExists
  | _ => fail .conversation

def updateConv {α : Type} (f : ConvState B → α × ConvState B) : Locked B α := do
  let state ← heldConv
  replace .conversation (f state).2
  return (f state).1

/-- The record is written only where the change is not refused. -/
def tryUpdateConv {α ε : Type} (f : ConvState B → Except ε (α × ConvState B)) :
    Locked B (Except ε α) := do
  let state ← heldConv
  match f state with
  | .error e => return .error e
  | .ok (out, state) => do
    replace .conversation state
    return .ok out

def deleteConv : Locked B Unit := deleteOrder.forM erase

def recordHandle (handle : String) : Locked B Bool := do
  let _ ← heldConv
  let held ← readHandle
  if held = some (cutHandle handle) then return false
  else do
    replace .correspondentHandle (encodeHandle (cutHandle handle))
    return true

/-- Compare the serial; the route and the serial are one write. -/
def landRoute (serial : U64) (route : Option Octets) (held : Option Octets × U64) :
    Locked B ReachTake := do
  if serial < held.2 then return .older
  else if serial = held.2 then
    match held.1, route with
    | none, some route => do
      replace .correspondentRoute (encodeRoute route serial)
      return .same
    | _, _ => return .same
  else do
    replace .correspondentRoute (encodeRoute ((route.or held.1).getD []) serial)
    return .newer

def keepHandle : Option String → Locked B Bool
  | none => return false
  | some handle => do
    let held ← readHandle
    if held = some (cutHandle handle) then return false
    else do
      replace .correspondentHandle (encodeHandle (cutHandle handle))
      return true

/-- `verifiedBy` is the handle of a reach that names an identity. What happens to the handle once
the route is taken does not undo the take. -/
def takeReach (verifiedBy : Reach → B → Option String) (serial : U64) (reach : Reach) :
    Locked B (ReachTake × Option Bool) := do
  let state ← heldConv
  let held ← readRouteRecord
  let take ← landRoute serial reach.usableRoute held
  let written ← attempt (keepHandle
    (if take.applied then verifiedBy reach state.peerIdentityPk else none))
  return (take, written.toOption)

/-- The mark, and the state as it stood. -/
def markDeletePending : Locked B (ConvState B) := do
  let state ← heldConv
  replace .conversation { state with deletePending := true }
  return { state with deletePending := true }

/-- What `pending_deletes` asks of each correspondence. -/
def pendingDelete : Locked B Bool := do
  let found ← readConv
  return found.any (·.deletePending)

def persistOutbox (P : Platform B) (seq : Nat) (ciphertext : Slot B) (sentAt : Nat) :
    Locked B Unit := do
  if channelSubkeyLen < ciphertext.length P then refuse (.ciphertextTooLong (ciphertext.length P))
  else do
    let found : Option (Table B) ← readFinishing RecordKind.conversationOutbox
    let table ← ofExcept (outboxOf found)
    let persisted : Table B :=
      Function.update table (ringIndex seq) (some ⟨seq, sentAt, ciphertext⟩)
    match table (ringIndex seq) with
    | some held =>
      if held.seq ≠ seq then refuse (.outboxSlotOccupied seq held.seq)
      else replace .conversationOutbox persisted
    | none => replace .conversationOutbox persisted

/-- The entries a cursor leaves. -/
def keptAbove (cursor : Nat) (table : Table B) : Table B :=
  fun i => (table i).filter fun e => !collected e.seq cursor

def deleteOutboxThrough (cursor : Nat) : Locked B Unit := do
  let found : Option (Table B) ← readFinishing RecordKind.conversationOutbox
  match found with
  | none => return ()
  | some raw => do
    let table ← ofExcept (outboxOf (some raw))
    if (List.range ringSlots).any fun i => (table i).any fun e => collected e.seq cursor then
      replace .conversationOutbox (keptAbove cursor table)
    else return ()

/-- What `sweep_orphaned_outboxes` does to each correspondence. -/
def sweepOrphanedOutbox : Locked B Bool := do
  let conv ← readConv
  if conv.isSome then return false
  else do
    let outbox : Option (Table B) ← readFinishing RecordKind.conversationOutbox
    if outbox.isNone then return false
    else do
      erase .conversationOutbox
      return true

/-- A correspondence as a launch reads it, with its handle and route. -/
structure Loaded (B : Type) where
  conv : LoadedConv B
  handle : Option String
  route : Option Octets

/-- A record that outlived its conversation is removed. -/
def removeLeft (kind : RecordKind) (leaves : Bool) : Locked B Unit := do
  let found : Option (Payload B kind) ← readFinishing kind
  if found.isSome && leaves then erase kind else return ()

/-- What `load` does to each correspondence. An outbox alone is left in place where no delete of its
conversation stopped: it may be that of a record still to be created. -/
def load : Locked B (Option (Loaded B)) := do
  let deleteStopped ← interrupted .conversation
  match ← readConv with
  | none => do
    removeLeft .conversationOutbox deleteStopped
    removeLeft .correspondentHandle true
    removeLeft .correspondentRoute true
    return none
  | some state => do
    let found : Option (Table B) ← readFinishing RecordKind.conversationOutbox
    let table ← ofExcept (outboxOf found)
    let handle ← readHandle
    let route ← readRouteRecord
    return some ⟨⟨state, Correspondence.outstanding state table⟩, handle, route.1⟩

end Sections

/-! ## What each section leaves -/

/-- What may be written to each record. -/
def writing (conv : ConvState B → Prop) (outbox : Table B → Prop) (handle route : Prop) :
    (kind : RecordKind) → Payload B kind → Prop
  | .conversation, s => conv s
  | .conversationOutbox, table => outbox table
  | .correspondentHandle, _ => handle
  | .correspondentRoute, _ => route

/-- Nothing is written. -/
abbrev unwritten : (kind : RecordKind) → Payload B kind → Prop := fun _ _ => False

/-- Nothing is erased. -/
abbrev unerased : RecordKind → Prop := fun _ => False

/-- The conversation's payload. -/
def Holds (D : Records B) (s : ConvState B) : Prop := D .conversation = .payload s

/-- There is a conversation. -/
def Held (D : Records B) : Prop := ∃ s, Holds D s

/-- The mark of a delete is written to the conversation there is. -/
def marking (D : Records B) : (kind : RecordKind) → Payload B kind → Prop :=
  writing (fun s => ∃ s₀, Holds D s₀ ∧ s = { s₀ with deletePending := true }) (fun _ => False) False
    False

section Leaving

variable {writes : (kind : RecordKind) → Payload B kind → Prop} {erases : RecordKind → Prop}
  {D D₀ : Records B} {P : Records B → Prop}

/-- A conversation that is neither written nor removed is the one there was. -/
theorem turned_holds (h : Turned writes erases D₀ D) (unwritten : ∀ s, ¬ writes .conversation s)
    (kept : ¬ erases .conversation) (s : ConvState B) : Holds D s ↔ Holds D₀ s :=
  (h .conversation).still unwritten kept

theorem reads_holds (h : Reads D₀ D) (s : ConvState B) : Holds D s ↔ Holds D₀ s :=
  turned_holds h (fun _ no => no) (fun no => no) s

theorem not_held (h : Turned writes erases D₀ D) (unwritten : ∀ s, ¬ writes .conversation s)
    (kept : ¬ erases .conversation) (absent : D .conversation = .absent) : ¬ Held D₀ := by
  rintro ⟨s, holds⟩
  have still := (turned_holds h unwritten kept s).2 holds
  rw [Holds, absent] at still
  cases still

theorem keeps_readHandle (frame : ∀ D, P D → P (Function.update D .correspondentHandle .absent)) :
    Keeps (Turned writes erases D₀) P readHandle fun _ D => P D :=
  keeps_bind (keeps_readFinishing frame) fun _ => keeps_return fun _ _ h => h.2

theorem keeps_readRouteRecord
    (frame : ∀ D, P D → P (Function.update D .correspondentRoute .absent)) :
    Keeps (Turned writes erases D₀) P readRouteRecord fun _ D => P D :=
  keeps_bind (keeps_readFinishing frame) fun _ => keeps_return fun _ _ h => h.2

/-- The handle's record is read, and written where `writes` has it. -/
theorem keeps_keepHandle (lets : ∀ bytes, writes .correspondentHandle bytes) (handle : Option String) :
    Keeps (Turned writes erases D₀) P (keepHandle handle) fun _ _ => True := by
  cases handle with
  | none => exact keeps_return fun _ _ _ => trivial
  | some handle =>
    refine keeps_bind (keeps_readHandle fun _ _ => trivial).any fun found => ?_
    split
    · exact keeps_return fun _ _ _ => trivial
    · exact keeps_bind (keeps_replace fun D' turned _ => turned.write (lets _)) fun _ =>
        keeps_return fun _ _ _ => trivial

theorem deleteConv_turned (D : Records B) (ws : List Went) :
    Turned unwritten (fun _ => True) D ((deleteConv : Locked B Unit).leaves D ws) := by
  have erases : ∀ kind, Keeps (Turned unwritten (fun _ => True) D) (fun _ => True)
      (erase kind : Locked B Unit) fun _ _ => True := fun kind =>
    Keeps.mono (keeps_erase (R := fun _ => True) (fun D' w turned _ => turned.erase trivial w)
      fun _ _ => trivial) (fun _ _ h => h) fun _ _ _ _ => trivial
  have all : Keeps (Turned unwritten (fun _ => True) D) (fun _ => True)
      (deleteConv : Locked B Unit) fun _ _ => True :=
    keeps_bind (erases _) fun _ => keeps_bind (erases _) fun _ => keeps_bind (erases _) fun _ =>
      keeps_bind (erases _) fun _ => keeps_return fun _ _ _ => trivial
  exact (all.any.turned ws).1

variable [DecidableEq B]

theorem keeps_readConv (frame : ∀ D, P D → P (Function.update D .conversation .absent)) :
    Keeps (Turned writes erases D₀) P readConv fun found D =>
      (D .conversation = .ofOption found ∧ P D) ∧ ∀ s ∈ found, decodeConv s = .ok s := by
  refine keeps_bind (keeps_readFinishing frame) fun found => ?_
  cases found with
  | none => exact keeps_return fun _ _ h => ⟨h, fun _ none => by cases none⟩
  | some state =>
    refine keeps_bind keeps_ofExcept fun state' => keeps_return fun _ _ h => ?_
    have same := decodeConv_ok h.1
    subst same
    exact ⟨h.2, fun s e => by cases e; exact h.1⟩

/-- A section on a conversation, where there is one. -/
theorem keeps_onHeld {α : Type} {p : ConvState B → Locked B α} {Q : α → Records B → Prop}
    (h : ∀ s, Holds D₀ s → decodeConv s = .ok s → Keeps (Turned writes erases D₀) (Reads D₀) (p s) Q) :
    Keeps (Turned writes erases D₀) (Reads D₀) (heldConv >>= p) Q := by
  have found : Keeps (Reads D₀) (fun _ => True) (heldConv (B := B))
      fun s _ => Holds D₀ s ∧ decodeConv s = .ok s := by
    refine keeps_bind (keeps_readConv fun _ _ => trivial) fun found => ?_
    cases found with
    | none => exact keeps_refuse
    | some s => exact keeps_return fun D reads h => ⟨(reads_holds reads s).1 h.1.1, h.2 s rfl⟩
  refine keeps_bind (Keeps.mono found.reading (fun _ _ reads => ⟨reads, trivial⟩)
    fun _ _ _ h => h) fun s D ws turned holds => ?_
  exact h s holds.2.1 holds.2.2 D ws turned holds.1

theorem markDeletePending_turned (D : Records B) (ws : List Went) :
    Turned (marking D) unerased D ((markDeletePending (B := B)).leaves D ws) ∧
    ∀ s, (markDeletePending (B := B)).result D ws = .ok s →
      Holds ((markDeletePending (B := B)).leaves D ws) s ∧ s.deletePending = true := by
  have all : Keeps (Turned (marking D) unerased D) (Reads D) (markDeletePending (B := B))
      fun s D' => Holds D' s ∧ s.deletePending = true :=
    keeps_onHeld fun state holds _ => keeps_bind
      (keeps_replace fun D' turned _ => turned.write (show marking D .conversation _ from
        ⟨state, holds, rfl⟩)) fun _ => keeps_return fun _ _ h => ⟨h, rfl⟩
  exact all.turned ws

theorem pendingDelete_turned (D : Records B) (ws : List Went) :
    Reads D ((pendingDelete (B := B)).leaves D ws) := by
  have all : Keeps (Reads D) (fun _ => True) (pendingDelete (B := B)) fun _ _ => True :=
    keeps_bind (keeps_readConv fun _ _ => trivial) fun _ => keeps_return fun _ _ _ => trivial
  exact (all.any.turned ws).1

/-- A handle is written only beside a conversation. -/
theorem recordHandle_turned (handle : String) (D : Records B) (ws : List Went) :
    Turned (writing (fun _ => False) (fun _ => False) (Held D) False) unerased D
      ((recordHandle handle).leaves D ws) := by
  have all : Keeps (Turned (writing (fun _ => False) (fun _ => False) (Held D) False) unerased D)
      (Reads D) (recordHandle handle) fun _ _ => True := by
    refine keeps_onHeld fun s holds _ => ?_
    refine keeps_bind (keeps_readHandle fun _ _ => trivial).any fun found => ?_
    split
    · exact keeps_return fun _ _ _ => trivial
    · exact keeps_bind (keeps_replace fun D' turned _ => turned.write ⟨s, holds⟩) fun _ =>
        keeps_return fun _ _ _ => trivial
  exact (all.turned ws).1

/-- A route is written only beside a conversation. -/
theorem takeReach_turned (verifiedBy : Reach → B → Option String) (serial : U64) (reach : Reach)
    (D : Records B) (ws : List Went) :
    Turned (writing (fun _ => False) (fun _ => False) (Held D) (Held D)) unerased D
      ((takeReach verifiedBy serial reach).leaves D ws) := by
  have lands : Held D → ∀ held, Keeps (Turned (writing (fun _ => False) (fun _ => False) (Held D)
      (Held D)) unerased D) (fun _ => True) (landRoute serial reach.usableRoute held : Locked B ReachTake)
      fun _ _ => True := by
    intro there held
    have replaces : ∀ (bytes : Octets) (take : ReachTake),
        Keeps (Turned (writing (fun _ => False) (fun _ => False) (Held D) (Held D)) unerased D)
          (fun _ => True) (do replace .correspondentRoute bytes; return take : Locked B ReachTake)
          fun _ _ => True :=
      fun bytes take => keeps_bind (keeps_replace fun D' turned _ => turned.write there)
        fun _ => keeps_return fun _ _ _ => trivial
    unfold landRoute
    split
    · exact keeps_return fun _ _ _ => trivial
    · split
      · split
        · exact replaces _ _
        · exact keeps_return fun _ _ _ => trivial
      · exact replaces _ _
  have all : Keeps (Turned (writing (fun _ => False) (fun _ => False) (Held D) (Held D)) unerased D)
      (Reads D) (takeReach verifiedBy serial reach) fun _ _ => True := by
    refine keeps_onHeld fun s holds _ => ?_
    refine keeps_bind (keeps_readRouteRecord fun _ _ => trivial).any fun held => ?_
    refine keeps_bind (lands ⟨s, holds⟩ held) fun take => ?_
    exact keeps_bind (keeps_attempt (keeps_keepHandle (fun _ => ⟨s, holds⟩) _)) fun _ =>
      keeps_return fun _ _ _ => trivial
  exact (all.turned ws).1

/-- The sweep erases an outbox alone. -/
def orphaned (D : Records B) : RecordKind → Prop
  | .conversationOutbox => ¬ Held D
  | _ => False

/-- A load erases what outlived a conversation, and an outbox where it ends the conversation's
erasure. -/
def outlived (D : Records B) : RecordKind → Prop
  | .conversation => False
  | .conversationOutbox => D .conversation = .scrubbed
  | .correspondentHandle | .correspondentRoute => ¬ Held D

theorem sweepOrphanedOutbox_turned (D : Records B) (ws : List Went) :
    Turned unwritten (orphaned D) D ((sweepOrphanedOutbox (B := B)).leaves D ws) ∧
    ∀ swept, (sweepOrphanedOutbox (B := B)).result D ws = .ok swept → ¬ Held D →
      (sweepOrphanedOutbox (B := B)).leaves D ws .conversation = .absent ∧
      (sweepOrphanedOutbox (B := B)).leaves D ws .conversationOutbox = .absent := by
  have all : Keeps (Turned unwritten (orphaned D) D) (fun _ => True) (sweepOrphanedOutbox (B := B))
      fun _ D' => ¬ Held D → D' .conversation = .absent ∧ D' .conversationOutbox = .absent := by
    refine keeps_bind (keeps_readConv fun _ _ => trivial) fun found => ?_
    cases found with
    | some s =>
      exact keeps_return fun D' turned h none =>
        absurd ⟨s, (turned_holds turned (fun _ h => h) (fun h => h) s).1 h.1.1⟩ none
    | none =>
      have reads : Keeps (Turned unwritten (orphaned D) D) (fun D' => D' .conversation = .absent)
          (readFinishing RecordKind.conversationOutbox : Locked B (Option (Table B)))
          fun outbox D' => D' .conversationOutbox = .ofOption outbox ∧ D' .conversation = .absent :=
        keeps_readFinishing (V := Payload B) (k := .conversationOutbox) fun _ h => absent_update h
      refine keeps_bind (Keeps.mono reads (fun _ _ h => h.1.1) fun _ _ _ h => h) fun outbox => ?_
      cases outbox with
      | none => exact keeps_return fun _ _ h _ => ⟨h.2, h.1⟩
      | some table =>
        refine keeps_bind (keeps_erase (k := RecordKind.conversationOutbox)
          (R := fun D' => D' .conversation = .absent)
          (fun D' w turned h => turned.erase (show orphaned D .conversationOutbox from
            not_held turned (fun _ h => h) (fun h => h) h.2) w)
          fun _ h => absent_update h.2) fun _ => keeps_return fun _ _ h _ => ⟨h.2, h.1⟩
  exact all.any.turned ws

omit [DecidableEq B] in
/-- A record removed where it is left keeps what else is gone. -/
theorem keeps_removeLeft {kind : RecordKind} {leaves : Bool}
    (lets : ∀ D, Turned writes erases D₀ D → P D → leaves = true → erases kind)
    (frame : ∀ D, P D → P (Function.update D kind .absent)) :
    Keeps (Turned writes erases D₀) P (removeLeft kind leaves : Locked B Unit)
      fun _ D => (leaves = true → D kind = .absent) ∧ P D := by
  refine keeps_bind (keeps_readFinishing (V := Payload B) (k := kind) frame) fun found => ?_
  split
  · rename_i left
    have gone : leaves = true := (Bool.and_eq_true_iff.1 left).2
    refine (keeps_erase (k := kind) (R := P)
      (fun D w turned h => turned.erase (lets D turned h.2 gone) w) fun D h => frame D h.2).mono
      (fun _ _ h => h) fun _ _ _ h => ⟨fun _ => h.1, h.2⟩
  · rename_i not_left
    refine keeps_return fun D _ h => ⟨fun gone => ?_, h.2⟩
    cases found with
    | none => exact h.1
    | some value => exact absurd (by simp [gone]) not_left

/-- What a load that lists, or does not list, a conversation found and left. -/
def Listed (D D' : Records B) : Option (Loaded B) → Prop
  | some loaded => Holds D loaded.conv.state
  | none => D' .conversation = .absent ∧ D' .correspondentHandle = .absent ∧
    D' .correspondentRoute = .absent

/-- A load lists the conversation there is, or leaves no handle and no route where there is none. -/
theorem load_turned (D : Records B) (ws : List Went) :
    Turned unwritten (outlived D) D ((load (B := B)).leaves D ws) ∧
    ∀ loaded, (load (B := B)).result D ws = .ok loaded →
      Listed D ((load (B := B)).leaves D ws) loaded := by
  have scrubbed : ∀ D', Turned unwritten (outlived D) D D' → D' .conversation = .scrubbed →
      D .conversation = .scrubbed := by
    intro D' turned was
    have turn := turned .conversation
    rw [was] at turn
    generalize D .conversation = r at turn
    cases turn with
    | same => rfl
    | erased may => exact may.elim
  have stopped : Keeps (Turned unwritten (outlived D) D) (fun _ => True)
      (interrupted .conversation : Locked B Bool)
      fun stopped _ => stopped = true → D .conversation = .scrubbed := fun D' ws' turned _ =>
    have ⟨kept, found⟩ := keeps_interrupted (P := Turned unwritten (outlived D) D) D' ws' turned turned
    ⟨kept, fun a ha was => scrubbed _ (found a ha).2 ((found a ha).1 was)⟩
  have gone : ∀ D', Turned unwritten (outlived D) D D' → D' .conversation = .absent → ¬ Held D :=
    fun D' turned h => not_held turned (fun _ h => h) (fun h => h) h
  have all : Keeps (Turned unwritten (outlived D) D) (fun _ => True) (load (B := B))
      fun loaded D' => Listed D D' loaded := by
    refine keeps_bind stopped fun deleteStopped => ?_
    refine keeps_bind (keeps_readConv (P := fun _ => deleteStopped = true → D .conversation = .scrubbed)
      fun _ h => h) fun found => ?_
    cases found with
    | some s =>
      refine keeps_bind ((keeps_readFinishing (V := Payload B) (k := .conversationOutbox)
        (P := fun _ => Holds D s) fun _ h => h).mono (fun D' turned h =>
          (turned_holds turned (fun _ h => h) (fun h => h) s).1 h.1.1) fun _ _ _ h => h.2) fun found => ?_
      refine keeps_bind (keeps_ofExcept.mono (fun _ _ h => h) fun _ _ _ h => h.2) fun table => ?_
      refine keeps_bind (keeps_readHandle fun _ h => h) fun _ => ?_
      exact keeps_bind (keeps_readRouteRecord fun _ h => h) fun _ => keeps_return fun _ _ h => h
    | none =>
      refine keeps_bind (Keeps.mono (keeps_removeLeft (P := fun D' => D' .conversation = .absent ∧
        (deleteStopped = true → D .conversation = .scrubbed)) (fun D' _ h was => h.2 was)
        fun _ h => ⟨absent_update h.1, h.2⟩) (fun _ _ h => h.1) fun _ _ _ h => h) fun _ => ?_
      refine keeps_bind (Keeps.mono (keeps_removeLeft (P := fun D' => D' .conversation = .absent)
        (fun D' turned h _ => gone D' turned h) fun _ h => absent_update h) (fun _ _ h => h.2.1)
        fun _ _ _ h => h) fun _ => ?_
      refine keeps_bind (Keeps.mono (keeps_removeLeft
        (P := fun D' => D' .conversation = .absent ∧ D' .correspondentHandle = .absent)
        (fun D' turned h _ => gone D' turned h.1) fun _ h => ⟨absent_update h.1, absent_update h.2⟩)
        (fun _ _ h => ⟨h.2, h.1 rfl⟩) fun _ _ _ h => h) fun _ => ?_
      exact keeps_return fun _ _ h => ⟨h.2.1, h.2.2, h.1 rfl⟩
  exact all.any.turned ws

end Leaving

end Daemonseed.Dm.Removal
