import Daemonseed.Dm.Contact
import Daemonseed.Dm.Schedule

/-! # What the flows' checks, seals and sections come to

Each is inverted once: what must have held where it went through, and what it
left. Later proofs cite these and do not open the definitions again. -/
namespace Daemonseed.Dm.Sections
open Daemonseed.Dm.Primitives Daemonseed.Dm.Channel Daemonseed.Dm.Chain Daemonseed.Dm.Records
  Daemonseed.Dm.Store Daemonseed.Dm.Flows Daemonseed.Dm.Contact Daemonseed.Lib.Flows
  Daemonseed.Lib.Flows.Flow Daemonseed.Lib.Results

variable {B : Type} {C : Crypto B} {P : Platform B}

/-! ## Checks -/

@[simp] theorem refuseWhere_ok {refused : Bool} {e : FlowError} {u : Unit} :
    refuseWhere refused e = .ok u ↔ refused = false := by
  cases refused <;> simp [refuseWhere]

@[simp] theorem refuseWhere_error {refused : Bool} {e e' : FlowError} :
    refuseWhere refused e = .error e' ↔ refused = true ∧ e = e' := by
  cases refused <;> simp [refuseWhere]

/-- What a store operation leaves, as a section of a flow. -/
@[simp] theorem ofStore_leaves {x : Except StoreError (Correspondence B)}
    {c' : Correspondence B} {u : Unit} :
    (ofStore x).map (fun c => ((), c)) = .ok (u, c') ↔ x = .ok c' := by
  cases x <;> simp [ofStore, Except.mapError, Except.map]

@[simp] theorem setForceTurn_self (s : ConvState B) : setForceTurn s (forceTurn s) = s := rfl

@[simp] theorem forceTurn_setForceTurn (s : ConvState B) (flag : Bool) :
    forceTurn (setForceTurn s flag) = flag := rfl

@[simp] theorem setForceTurn_setForceTurn (s : ConvState B) (flag flag' : Bool) :
    setForceTurn (setForceTurn s flag) flag' = setForceTurn s flag' := rfl

@[simp] theorem setLeftOut_self (s : ConvState B) :
    setLeftOut s (forceTurn s) s.cursorPublished = s := rfl

@[simp] theorem setLeftOut_setLeftOut (s : ConvState B) (flag flag' : Bool) (pub pub' : Nat) :
    setLeftOut (setLeftOut s flag pub) flag' pub' = setLeftOut s flag' pub' := rfl

section

variable [DecidableEq B]

theorem loaded_ok {c : Correspondence B} {s : ConvState B} :
    loaded c = .ok s ↔ c.loadConv = .ok (some s) := by
  unfold loaded
  split <;> simp_all

theorem updates_ok {f : ConvState B → ConvState B} {c c' : Correspondence B} {u : Unit}
    (h : updates f c = .ok (u, c')) :
    ∃ s, c.loadConv = .ok (some s) ∧ c.conv = some s ∧ c' = { c with conv := some (f s) } :=
  updateConv_ok (ofStore_leaves.1 h)

theorem tryUpdates_ok {α : Type} {f : ConvState B → Except FlowError (α × ConvState B)}
    {c c' : Correspondence B} {a : α} (h : tryUpdates f c = .ok (a, c')) :
    ∃ s s', c.loadConv = .ok (some s) ∧ c.conv = some s ∧ f s = .ok (a, s') ∧
      c' = { c with conv := some s' } := by
  unfold tryUpdates at h
  cases hc : c.tryUpdateConv f with
  | error e => simp [hc] at h
  | ok r =>
    rw [hc] at h
    exact tryUpdateConv_ok (hc.trans (congrArg Except.ok h))

/-- A record unchanged since it was loaded differs from it in the two fields
left out alone. -/
theorem unchanged_ok {loaded stored : ConvState B} {u : Unit} :
    (AsLoaded.of loaded).unchanged stored = .ok u ↔
      stored = setLeftOut loaded (forceTurn stored) stored.cursorPublished := by
  unfold AsLoaded.unchanged AsLoaded.of
  by_cases same : setLeftOut stored (forceTurn loaded) loaded.cursorPublished = loaded
  · simp only [same, if_true, true_iff]
    rw [← same, setLeftOut_setLeftOut, setLeftOut_self]
  · simp only [same, if_false, reduceCtorEq, false_iff]
    intro h
    exact same (by rw [h, setLeftOut_setLeftOut, setLeftOut_self])

theorem unchanged_eq {loaded stored : ConvState B} {u : Unit}
    (h : (AsLoaded.of loaded).unchanged stored = .ok u) :
    ∃ flag published, stored = setLeftOut loaded flag published := ⟨_, _, unchanged_ok.1 h⟩

end

/-! ## Seals and opens -/

theorem sealWith_ok {conversation conversation' : Conversation B} {body : B} {now : Nat}
    {drawn : List (Option B) × Option B} {slot : Slot B}
    (h : sealWith C P conversation body now drawn = .ok (slot, conversation')) :
    ∃ s nonce, conversation.prepare C deviceIdSingleDevice drawn.1 = .ok s ∧
      drawn.2 = some nonce ∧
      slot = ⟨s.header, C.sealEnvelope s.key nonce (messageAad C s.header)
        (encodeMessagePlaintext P (now * 1000) body)⟩ ∧
      conversation' = conversation.sealed s := by
  unfold sealWith at h
  rw [Conversation.sealMessage_eq] at h
  cases hp : conversation.prepare C deviceIdSingleDevice drawn.1 with
  | error e => simp [hp] at h
  | ok s =>
    cases hn : drawn.2 with
    | none => simp [hp, hn] at h
    | some nonce =>
      simp only [hp, hn, Except.ok.injEq, Prod.mk.injEq] at h
      exact ⟨s, nonce, rfl, rfl, h.1.symm, h.2.symm⟩

theorem sealed_nextSeq (conversation : Conversation B) (s : Sealing B) :
    (conversation.sealed s).receiving.nextSeq = conversation.receiving.nextSeq := by
  cases h : s.minted <;> simp [Conversation.sealed, h, Receiving.retain]

theorem initiate_ok {ss0 : B} {fill : List (Option B)} {opening : Opening B}
    (h : initiate C ss0 fill = .ok opening) :
    ∃ keypair, opening = ⟨keypair.pk, freshSending (seedRoot C ss0)
      (some (chainFromRoot C (seedRoot C ss0))),
      (freshReceiving (seedRoot C ss0) none).retain ⟨0, keypair, none⟩⟩ := by
  simp only [initiate, bind_ok, pure, Except.pure, Except.ok.injEq] at h
  obtain ⟨⟨keypair, rest⟩, -, rfl⟩ := h
  exact ⟨keypair, rfl⟩

/-- What a slot that opened as the message at `seq` was. -/
structure Opened (C : Crypto B) (P : Platform B) (conversation : Conversation B) (raw : Wire B)
    (seq : Nat) (message : ReceivedMessage B) (conversation' : Conversation B) (slot : Slot B)
    (reading : Reading B) (plaintext : B) : Prop where
  decodes : decodeSlot raw = .ok slot
  names : slot.header.seq = seq
  next : conversation.receiving.nextSeq = seq
  read : conversation.receiving.readTurn C slot.header = .ok reading
  opened : C.openEnvelope (step C reading.chain).1 (messageAad C slot.header) slot.sealed =
    some plaintext
  decoded : decodeMessagePlaintext P plaintext = .ok (message.sentAtMs, message.body)
  leaves : conversation' =
    { conversation with receiving := conversation.receiving.commit C slot.header reading }

/-- One slot read: a message of this sequence, or nothing moved. -/
inductive Read (C : Crypto B) (P : Platform B) (conversation : Conversation B) (ring : Ring)
    (raw : Wire B) (seq : Nat) : RingStep B → Conversation B → Ring → Prop
  | message {message : ReceivedMessage B} {conversation' : Conversation B} {slot : Slot B}
      {reading : Reading B} {plaintext : B}
      (opened : Opened C P conversation raw seq message conversation' slot reading plaintext) :
      Read C P conversation ring raw seq (.message seq message none) conversation'
        (ring.advancePeerCollected slot.header.cursor)
  | atEnd : Read C P conversation ring raw seq .atEnd conversation ring
  | unopened (subkey : Nat) (e : ChainError) :
      Read C P conversation ring raw seq (.unopened seq subkey e) conversation ring

theorem openRingSlot_ok {conversation conversation' : Conversation B} {ring ring' : Ring}
    {raw : Wire B} {seq : Nat} {step : RingStep B}
    (h : openRingSlot C P conversation ring raw seq = .ok (step, conversation', ring')) :
    Read C P conversation ring raw seq step conversation' ring' := by
  unfold openRingSlot at h
  cases hd : decodeSlot raw with
  | error e =>
    simp only [hd, Except.ok.injEq, Prod.mk.injEq] at h
    obtain ⟨rfl, rfl, rfl⟩ := h
    exact .atEnd
  | ok slot =>
    simp only [hd] at h
    split at h
    · cases h
      exact .atEnd
    · rename_i hseq
      simp only [Conversation.openMessage] at h
      cases ho : (conversation.receiving.openMessage C slot.header slot.sealed).1 with
      | error e =>
        simp only [ho, openMessage_error ho, Except.ok.injEq, Prod.mk.injEq] at h
        obtain ⟨rfl, rfl, rfl⟩ := h
        exact .unopened _ e
      | ok plaintext =>
        obtain ⟨hnext, reading, hread, hopen, hto⟩ := openMessage_ok ho
        cases hm : decodeMessagePlaintext P plaintext with
        | error e => simp [ho, hm] at h
        | ok x =>
          obtain ⟨sentAtMs, body⟩ := x
          simp only [ho, hm, hto, Except.ok.injEq, Prod.mk.injEq] at h
          obtain ⟨rfl, rfl, rfl⟩ := h
          have hseq : slot.header.seq = seq := Decidable.not_not.1 hseq
          exact .message ⟨hd, hseq, hnext.symm.trans hseq, hread, hopen, hm, rfl⟩

/-! ## Ring reads -/

/-- The messages a ring read takes one after another from a sequence on. -/
inductive ReadsOn (C : Crypto B) (P : Platform B) :
    Conversation B → Ring → Nat → List (ReceivedMessage B) → Conversation B → Ring → Nat → Prop
  | nil (conversation : Conversation B) (ring : Ring) (seq : Nat) :
      ReadsOn C P conversation ring seq [] conversation ring seq
  | cons {conversation conversation' conversation'' : Conversation B} {ring ring'' : Ring}
      {seq seq'' : Nat} {raw : Wire B} {message : ReceivedMessage B} {slot : Slot B}
      {reading : Reading B} {plaintext : B} {rest : List (ReceivedMessage B)}
      (opened : Opened C P conversation raw seq message conversation' slot reading plaintext)
      (on : ReadsOn C P conversation' (ring.advancePeerCollected slot.header.cursor) (seq + 1) rest
        conversation'' ring'' seq'') :
      ReadsOn C P conversation ring seq (message :: rest) conversation'' ring'' seq''

/-- A read leaves the sending half and what it has sent, and counts what it
read. -/
structure ReadTo (conversation : Conversation B) (ring : Ring) (seq : Nat)
    (conversation' : Conversation B) (ring' : Ring) (seq' : Nat) : Prop where
  sending : conversation'.sending = conversation.sending
  nextSeq : conversation.receiving.nextSeq = seq → conversation'.receiving.nextSeq = seq'
  le : seq ≤ seq'
  sendSeq : ring'.sendSeq = ring.sendSeq
  sound : ring.Sound → ring'.Sound

theorem ReadsOn.readTo {conversation conversation' : Conversation B} {ring ring' : Ring}
    {seq seq' : Nat} {messages : List (ReceivedMessage B)}
    (h : ReadsOn C P conversation ring seq messages conversation' ring' seq') :
    ReadTo conversation ring seq conversation' ring' seq' := by
  induction h with
  | nil => exact ⟨rfl, id, Nat.le_refl _, rfl, id⟩
  | cons opened _ ih =>
    obtain ⟨sending, nextSeq, le, sendSeq, sound⟩ := ih
    refine ⟨sending.trans (by rw [opened.leaves]), fun hs => nextSeq ?_, by omega,
      sendSeq.trans (Ring.advance_sendSeq _ _), fun hr => sound (hr.advance _)⟩
    rw [opened.leaves, ← hs]
    rfl

theorem quiet_readChannel (lookupKey : B) (subkey : Nat) : Quiet (readChannel lookupKey subkey) :=
  (quiet_call _).bind fun _ => quiet_lift _

theorem quiet_readRing (lookupKey : B) (rounds : Nat) (conversation : Conversation B) (ring : Ring)
    (messages : List (ReceivedMessage B)) (collected : Nat) :
    Quiet (readRing C P lookupKey rounds conversation ring messages collected) := by
  induction rounds generalizing conversation ring messages collected with
  | zero => exact fun never => nomatch never
  | succ rounds ih =>
    refine (quiet_readChannel _ _).bind fun found => ?_
    cases found with
    | none => exact quiet_pure _
    | some raw =>
      refine (quiet_lift _).bind fun ⟨step, conversation, ring⟩ => ?_
      cases step with
      | message => exact ih _ _ _ _
      | atEnd => exact quiet_pure _
      | unopened => exact quiet_pure _

theorem readRing_ok {lookupKey : B} {rounds : Nat} {conversation conversation' : Conversation B}
    {ring ring' : Ring} {messages : List (ReceivedMessage B)} {collected : Nat} {read : RingRead B}
    {ms : List (Move (Correspondence B) (Query B) Reply)}
    (h : Runs (readRing C P lookupKey rounds conversation ring messages collected) ms
      (.ok (read, conversation', ring'))) :
    ∃ new, read.messages = messages ++ new ∧
      ReadsOn C P conversation ring collected new conversation' ring' read.collected := by
  induction rounds generalizing conversation ring messages collected ms with
  | zero =>
    obtain ⟨never, _⟩ := runs_ask.1 h
    exact nomatch never
  | succ rounds ih =>
    obtain ⟨found, _, _, rfl, _, h⟩ := runs_bind_ok.1 h
    cases found with
    | none =>
      obtain ⟨rfl, h⟩ := runs_pure.1 h
      cases h
      exact ⟨[], by simp, .nil _ _ _⟩
    | some raw =>
      obtain ⟨⟨step, conversation₁, ring₁⟩, _, _, rfl, hopen, h⟩ := runs_bind_ok.1 h
      cases openRingSlot_ok (runs_lift.1 hopen).2.symm with
      | atEnd =>
        obtain ⟨rfl, h⟩ := runs_pure.1 h
        cases h
        exact ⟨[], by simp, .nil _ _ _⟩
      | unopened subkey e =>
        obtain ⟨rfl, h⟩ := runs_pure.1 h
        cases h
        exact ⟨[], by simp, .nil _ _ _⟩
      | message opened =>
        obtain ⟨new, hnew, on⟩ := ih h
        exact ⟨_ :: new, by rw [hnew]; simp, .cons opened on⟩

/-! ## Calls -/

theorem quiet_writeChannel (lookupKey : B) (subkey : Nat) (bytes : Wire B) :
    Quiet (writeChannel lookupKey subkey bytes) := (quiet_call _).bind fun _ => quiet_lift _

theorem quiet_sealSlot (conversation : Conversation B) (body : B) (now : Nat) :
    Quiet (sealSlot C P conversation body now) :=
  (quiet_lift _).bind fun _ => (quiet_call _).bind fun _ => quiet_lift _

/-- A sealed slot is what its draws make of it. -/
theorem sealSlot_ok {conversation conversation' : Conversation B} {body : B} {now : Nat}
    {slot : Slot B} {ms : List (Move (Correspondence B) (Query B) Reply)}
    (h : Runs (sealSlot C P conversation body now) ms (.ok (slot, conversation'))) :
    ∃ drawn : List (Option B) × Option B, ms = [.asks Query.entropy drawn] ∧
      sealWith C P conversation body now drawn = .ok (slot, conversation') := by
  obtain ⟨_, _, _, rfl, hfits, h⟩ := runs_bind_ok.1 h
  obtain ⟨drawn, _, _, rfl, hdrawn, hseal⟩ := runs_bind_ok.1 h
  obtain ⟨rfl, -⟩ := runs_lift.1 hfits
  obtain ⟨a, rfl, ha⟩ := runs_call.1 hdrawn
  cases ha
  obtain ⟨rfl, hs⟩ := runs_lift.1 hseal
  exact ⟨drawn, rfl, hs.symm⟩

theorem quiet_repick : Quiet (repick : DmFlow B B) := (quiet_call _).bind fun _ => quiet_lift _

theorem quiet_drawGeneration : Quiet (drawGeneration : DmFlow B Nat) :=
  (quiet_call _).bind fun _ => quiet_lift _

theorem quiet_openChannel (owner : ChannelOwner B) : Quiet (openChannel owner) :=
  (quiet_call _).bind fun _ => quiet_lift _

theorem quiet_writeDropSlot (identity : B) (slot : Nat) (bytes : SealedHello B) :
    Quiet (writeDropSlot identity slot bytes) := (quiet_call _).bind fun _ => quiet_lift _

theorem quiet_readDropSlot (identity : B) (slot : Nat) : Quiet (readDropSlot identity slot) :=
  (quiet_call _).bind fun _ => quiet_lift _

theorem quiet_eraseDropSlot (identity : B) (slot : Nat) : Quiet (eraseDropSlot identity slot) :=
  (quiet_call _).bind fun _ => quiet_lift _

theorem quiet_writeAll (writes : List (BatchWrite B)) : Quiet (writeAll writes) :=
  (quiet_call _).bind fun _ => quiet_lift _

theorem quiet_encapsulateTo (advert : Advert B) (now : Nat) :
    Quiet (encapsulateTo C advert now) :=
  (quiet_lift _).bind fun _ => (quiet_call _).bind fun _ => (quiet_lift _).bind fun _ =>
    quiet_pure _

theorem quiet_readAdvert (identity : B) : Quiet (readAdvert C P identity) := by
  unfold readAdvert
  refine (quiet_call _).bind fun _ => (quiet_lift _).bind fun found => ?_
  split
  · exact quiet_throw _
  · exact (quiet_lift _).bind fun _ => quiet_pure _
  · exact quiet_throw _

theorem quiet_offerHelloBack (state : ConvState B) (identity outgoingLookupKey : B)
    (control : Wire B) (reply : Slot B) (advertSerial : Nat) :
    Quiet (offerHelloBack C P state identity outgoingLookupKey control reply advertSerial) := by
  unfold offerHelloBack
  split
  · exact (quiet_lift _).bind fun _ => quiet_repick.bind fun _ => (quiet_call _).bind fun _ =>
      quiet_pure _
  · exact quiet_pure _

section

variable [DecidableEq B]

theorem quiet_readControl (key lookupKey : B) : Quiet (readControl key lookupKey) :=
  (quiet_call _).bind fun _ => quiet_pure _

theorem quiet_readAcceptedOpening (myPk key incoming : B) (serial : Nat) (identity : B)
    (openedWith : Option B) :
    Quiet (readAcceptedOpening C P myPk key incoming serial identity openedWith) :=
  (quiet_readControl _ _).bind fun _ => (quiet_lift _).bind fun _ => (quiet_lift _).bind fun _ =>
    (quiet_lift _).bind fun _ => quiet_lift _

end

end Daemonseed.Dm.Sections
