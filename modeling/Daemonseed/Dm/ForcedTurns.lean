import Daemonseed.Dm.Sections
import Daemonseed.Lib.Visits

/-! # The force-turn flag under every flow

A flow that commits no message leaves a flag that is set; a commit keeps it where the
flow had not loaded it, and starts a turn where it had. So of the messages committed
once the flag is set, one starts a turn no later than the first whose flow loaded the
record after that. -/
namespace Daemonseed.Dm.ForcedTurns
open Daemonseed.Dm.Primitives Daemonseed.Dm.Channel Daemonseed.Dm.Chain Daemonseed.Dm.Records
  Daemonseed.Dm.Store Daemonseed.Dm.Flows Daemonseed.Dm.Contact Daemonseed.Dm.Sections
  Daemonseed.Lib.Flows Daemonseed.Lib.Flows.Flow Daemonseed.Lib.Results Daemonseed.Lib.Visits

variable {B : Type} {C : Crypto B} {P : Platform B}

/-! ## What a section does to the flag -/

/-- The record is left with the message of a seal that started a turn. -/
def StartsTurn (C : Crypto B) (s t : ConvState B) : Prop :=
  ∃ flag fill sealing, (Conversation.restore (setForceTurn s flag).conversation).prepare C
      deviceIdSingleDevice fill = .ok sealing ∧ sealing.minted.isSome = true ∧
    t = { writeConversation s
        ((Conversation.restore (setForceTurn s flag).conversation).sealed sealing) flag with
      sendSeq := s.sendSeq + 1 }

/-- The flag is set. -/
def Forced (c : Correspondence B) : Prop := ∃ s, c.conv = some s ∧ forceTurn s = true

/-- A section of a record, over the correspondence that has one before and after it. -/
def OnRecord (R : ConvState B → ConvState B → Prop) (f : Correspondence B → Correspondence B)
    (c : Correspondence B) : Prop := ∀ s t, c.conv = some s → (f c).conv = some t → R s t

/-- No message is committed, and a flag that is set stays. -/
def Leaves (s t : ConvState B) : Prop :=
  (forceTurn s = true → forceTurn t = true) ∧ t.sendSeq = s.sendSeq

/-- A flag that is set stays, or the message committed starts a turn. -/
def Keeps (C : Crypto B) (s t : ConvState B) : Prop :=
  forceTurn s = true → forceTurn t = true ∨ StartsTurn C s t

/-- A message committed starts a turn. -/
def Turns (C : Crypto B) (s t : ConvState B) : Prop := t.sendSeq ≠ s.sendSeq → StartsTurn C s t

section

variable {s t : ConvState B}

theorem Leaves.refl (s : ConvState B) : Leaves s s := ⟨id, rfl⟩

theorem Keeps.refl (C : Crypto B) (s : ConvState B) : Keeps C s s := .inl

theorem Turns.refl (C : Crypto B) (s : ConvState B) : Turns C s s := fun sent => absurd rfl sent

theorem Leaves.keeps (h : Leaves s t) : Keeps C s t := fun forced => .inl (h.1 forced)

theorem Leaves.turns (h : Leaves s t) : Turns C s t := fun sent => absurd h.2 sent

end

abbrev Plain : (Correspondence B → Correspondence B) → Correspondence B → Prop := OnRecord Leaves

abbrev Kept (C : Crypto B) : (Correspondence B → Correspondence B) → Correspondence B → Prop :=
  OnRecord (Keeps C)

abbrev Turned (C : Crypto B) : (Correspondence B → Correspondence B) → Correspondence B → Prop :=
  OnRecord (Turns C)

section

variable {f : Correspondence B → Correspondence B} {c : Correspondence B}

theorem Plain.kept (h : Plain f c) : Kept C f c := fun s t before after => (h s t before after).keeps

theorem Plain.turned (h : Plain f c) : Turned C f c := fun s t before after =>
  (h s t before after).turns

theorem plain_of_same (same : (f c).conv = c.conv) : Plain f c := fun s t before after => by
  obtain rfl := Option.some.inj (before.symm.trans (same.symm.trans after))
  exact ⟨id, rfl⟩

theorem plain_id (c : Correspondence B) : Plain id c := plain_of_same rfl

end

variable {α β : Type}

/-! ## Sections beside the record -/

theorem plain_createConv_bind {s : ConvState B} {k : Unit → DmFlow B β}
    (h : Each Plain (k ())) : Each Plain (createConv s >>= k) := by
  refine each_attempt_bind (fun c => ?_) fun _ _ _ _ => h
  cases taken : (ofStore (c.createConv s)).map fun c' => ((), c') with
  | error e => exact plain_of_same (by rw [attempted, taken])
  | ok x =>
    obtain ⟨u, c'⟩ := x
    intro s' t before after
    rw [(createConv_ok (ofStore_leaves.1 taken)).1] at before
    cases before

theorem persistOutbox_conv {seq sentAt : Nat} {slot : Slot B} (c : Correspondence B) :
    (attempted (fun c : Correspondence B => (ofStore (c.persistOutbox P seq slot sentAt)).map
      fun c' => ((), c')) c).conv = c.conv := by
  cases taken : (ofStore (c.persistOutbox P seq slot sentAt)).map fun c' => ((), c') with
  | error e => rw [attempted, taken]
  | ok x =>
    obtain ⟨u, c'⟩ := x
    rw [attempted, taken, (persistOutbox_ok (ofStore_leaves.1 taken)).1]

theorem plain_persistOutbox_bind {seq sentAt : Nat} {slot : Slot B} {k : Unit → DmFlow B β}
    (h : Each Plain (k ())) : Each Plain (persistOutbox P seq slot sentAt >>= k) :=
  each_attempt_bind (fun c => plain_of_same (persistOutbox_conv c)) fun _ _ _ _ => h

theorem plain_deleteOutboxThrough (cursor : Nat) :
    Each Plain (Flows.deleteOutboxThrough cursor : DmFlow B (Option StoreError)) := by
  refine each_attempt fun c => plain_of_same ?_
  cases deleted : c.deleteOutboxThrough cursor with
  | error e => simp only [attempted, deleted]
  | ok c' => simp only [attempted, deleted, deleteOutboxThrough_ok deleted]

theorem plain_pure (b : β) : Each Plain (pure b : DmFlow B β) := trivial

/-! ## A schedule read on -/

/-- A schedule whose sending half is the one loaded keeps a flag that is set. -/
theorem forceTurn_writeConversation {s loaded : ConvState B} {written : Conversation B}
    (sending : written.sending = (Conversation.restore loaded.conversation).sending)
    (forced : forceTurn s = true) :
    forceTurn (writeConversation s written (forceTurn loaded)) = true := by
  have flag : written.snapshot.sending.forceTurn = forceTurn loaded := by
    show written.sending.forceTurn = forceTurn loaded
    rw [sending]
    rfl
  show (written.snapshot.sending.forceTurn || (forceTurn s && !forceTurn loaded)) = true
  rw [flag, forced]
  cases forceTurn loaded <;> rfl

theorem sending_of_read {conversation conversation' : Conversation B} {ring ring' : Ring}
    {raw : Wire B} {seq : Nat} {step : RingStep B}
    (read : Read C P conversation ring raw seq step conversation' ring') :
    conversation'.sending = conversation.sending := by
  cases read with
  | message opened => rw [opened.leaves]
  | atEnd => rfl
  | unopened => rfl

theorem plain_readRing_bind {lookupKey : B} {rounds : Nat} {conversation : Conversation B}
    {ring : Ring} {messages : List (ReceivedMessage B)} {collected : Nat}
    {k : RingRead B × Conversation B × Ring → DmFlow B β}
    (h : ∀ read reader ring, reader.sending = conversation.sending →
      Each Plain (k (read, reader, ring))) :
    Each Plain (readRing C P lookupKey rounds conversation ring messages collected >>= k) :=
  each_quiet_bind (quiet_readRing _ _ _ _ _ _) fun _ ⟨read, reader, ring⟩ ran => by
    obtain ⟨new, -, on⟩ := readRing_ok ran
    exact h read reader ring on.readTo.sending

variable [DecidableEq B]

/-! ## Sections of the record -/

theorem plain_updates {f : ConvState B → ConvState B}
    (h : ∀ s, Leaves s (f s))
    (c : Correspondence B) : Plain (attempted (updates f)) c := by
  cases taken : updates f c with
  | error e => exact plain_of_same (by rw [attempted, taken])
  | ok x =>
    obtain ⟨u, c'⟩ := x
    obtain ⟨s', -, held, rfl⟩ := updates_ok taken
    intro s t before after
    rw [attempted, taken] at after
    obtain rfl := Option.some.inj (held.symm.trans before)
    obtain rfl := Option.some.inj after
    exact h s'

/-- What a checked section leaves of the record. -/
theorem onRecord_tryUpdates {R : ConvState B → ConvState B → Prop} (refl : ∀ s, R s s)
    {f : ConvState B → Except FlowError (α × ConvState B)}
    (h : ∀ s a t, f s = .ok (a, t) → R s t) (c : Correspondence B) :
    OnRecord R (attempted (tryUpdates f)) c := by
  intro s t before after
  cases taken : tryUpdates f c with
  | error e =>
    rw [attempted, taken] at after
    obtain rfl := Option.some.inj (before.symm.trans after)
    exact refl s
  | ok x =>
    obtain ⟨a, c'⟩ := x
    obtain ⟨s', t', -, held, changed, rfl⟩ := tryUpdates_ok taken
    rw [attempted, taken] at after
    obtain rfl := Option.some.inj (held.symm.trans before)
    obtain rfl := Option.some.inj after
    exact h s' a t' changed

/-! ## Steps of the flows that commit nothing -/

theorem plain_load_bind {k : ConvState B → DmFlow B β} (h : ∀ s, Each Plain (k s)) :
    Each Plain (load >>= k) := each_view_bind plain_id fun _ s _ => h s

theorem plain_loadAll_bind {k : Option (LoadedConv B) → DmFlow B β}
    (h : ∀ found, Each Plain (k found)) : Each Plain (loadAll >>= k) :=
  each_view_bind plain_id fun _ found _ => h found

theorem plain_update {f : ConvState B → ConvState B}
    (h : ∀ s, Leaves s (f s)) :
    Each Plain (updateConv f) := each_attempt (plain_updates h)

/-- An update of a record that touches neither its schedule nor its sequence. -/
theorem plain_update_other {f : ConvState B → ConvState B}
    (conversation : ∀ s, (f s).conversation = s.conversation)
    (sendSeq : ∀ s, (f s).sendSeq = s.sendSeq) : Each Plain (updateConv f : DmFlow B Unit) :=
  plain_update fun s => ⟨fun forced => by rwa [forceTurn, conversation], sendSeq s⟩

theorem plain_tryUpdate_bind {f : ConvState B → Except FlowError (α × ConvState B)}
    {k : α → DmFlow B β}
    (h : ∀ s a t, f s = .ok (a, t) → Leaves s t) (rest : ∀ a, Each Plain (k a)) : Each Plain (tryUpdateConv f >>= k) :=
  each_attempt_bind (onRecord_tryUpdates Leaves.refl h) fun _ a _ _ => rest a

/-! ## Collecting and publishing -/

theorem plain_collectStep : Each Plain (collectStep C P) := by
  refine plain_load_bind fun s => each_lift_bind fun _ _ => each_lift_bind fun _ _ => ?_
  refine each_lift_bind fun ring _ => each_quiet_bind (quiet_readChannel _ _) fun _ found _ => ?_
  cases found with
  | none => trivial
  | some raw =>
    refine each_lift_bind fun ⟨step, conversation, ring'⟩ _ => ?_
    cases step with
    | atEnd => trivial
    | unopened => trivial
    | message seq message outboxError =>
      refine plain_tryUpdate_bind (fun stored collected t taken => ?_) fun _ =>
        (plain_deleteOutboxThrough _).bind fun _ => plain_pure _
      obtain ⟨_, _, taken⟩ := bind_ok.1 taken
      obtain ⟨_, _, taken⟩ := bind_ok.1 taken
      obtain ⟨_, _, taken⟩ := bind_ok.1 taken
      obtain ⟨ring, _, taken⟩ := bind_ok.1 taken
      obtain ⟨⟨step', fresh, ring'⟩, opened, taken⟩ := bind_ok.1 taken
      have sending := sending_of_read (openRingSlot_ok opened)
      cases step' with
      | atEnd => cases taken
      | unopened => cases taken
      | message =>
        simp only [pure, Except.pure, Except.ok.injEq, Prod.mk.injEq] at taken
        obtain ⟨-, rfl⟩ := taken
        exact ⟨forceTurn_writeConversation sending, rfl⟩

theorem plain_publishCursor : Each Plain (publishCursor : DmFlow B Bool) := by
  refine plain_load_bind fun s => each_lift_bind fun _ _ => each_lift_bind fun _ _ => ?_
  split
  · trivial
  · refine each_lift_bind fun _ _ => each_lift_bind fun _ _ => ?_
    refine each_quiet_bind (quiet_writeChannel _ _ _) fun _ _ _ => ?_
    exact Each.bind (plain_update_other (fun _ => rfl) fun _ => rfl) fun _ => plain_pure _

theorem plain_takePeerCursor (cursor : Nat) :
    Each Plain (takePeerCursor cursor : DmFlow B Unit) :=
  plain_update_other (fun _ => rfl) fun _ => rfl

/-- The section of a reset on one conversation. -/
def flagSection (c : Correspondence B) : Except FlowError (Unit × Correspondence B) :=
  match c.updateConv fun state => setForceTurn state true with
  | .error .missingConversation => .ok ((), c)
  | .error e => .error (.store e)
  | .ok c' => .ok ((), c')

/-- It flags the record where there is one, or changes nothing. -/
theorem flagSection_cases (c : Correspondence B) :
    attempted flagSection c = c ∨ ∃ s, c.conv = some s ∧
      attempted flagSection c = { c with conv := some (setForceTurn s true) } := by
  unfold attempted flagSection
  cases flagged : c.updateConv fun state => setForceTurn state true with
  | error e => cases e <;> exact .inl rfl
  | ok c' =>
    obtain ⟨s, -, held, rfl⟩ := updateConv_ok flagged
    exact .inr ⟨s, held, rfl⟩

theorem plain_flagSection (c : Correspondence B) : Plain (attempted flagSection) c := by
  obtain same | ⟨s, held, flagged⟩ := flagSection_cases c
  · exact plain_of_same (by rw [same])
  · intro s' t before after
    rw [flagged] at after
    obtain rfl := Option.some.inj (held.symm.trans before)
    obtain rfl := Option.some.inj after
    exact ⟨fun _ => rfl, rfl⟩

theorem plain_reset : Each Plain (reset : DmFlow B Unit) := by
  refine plain_loadAll_bind fun found => ?_
  cases found with
  | none => trivial
  | some _ => exact each_attempt plain_flagSection

theorem plain_markDeletePending : Each Plain (markDeletePending : DmFlow B Unit) :=
  plain_update_other (fun _ => rfl) fun _ => rfl

/-! ## First contact -/

theorem plain_outstandingZero_bind {k : Option (Slot B) → DmFlow B β}
    (h : ∀ x, Each Plain (k x)) : Each Plain (outstandingZero >>= k) :=
  each_bind_assoc <| plain_loadAll_bind fun _ => h _

theorem plain_placeLoop {pk key : B} {from_ : HelloSeal B} {awaiting : Bool} {tries : Nat}
    {attempt : HelloAttempt B} : Each Plain (placeLoop C P pk key from_ awaiting tries attempt) := by
  induction tries generalizing attempt with
  | zero => exact fun never => nomatch never
  | succ tries ih =>
    refine plain_tryUpdate_bind (fun s _ t placed => ?_) fun _ => ?_
    · obtain ⟨_, _, placed⟩ := bind_ok.1 placed
      simp only [pure, Except.pure, Except.ok.injEq, Prod.mk.injEq] at placed
      obtain ⟨-, rfl⟩ := placed
      exact ⟨id, rfl⟩
    refine each_quiet_bind (quiet_writeDropSlot _ _ _) fun _ _ _ => ?_
    refine each_quiet_bind (quiet_readDropSlot _ _) fun _ found _ => ?_
    split
    · trivial
    · refine each_quiet_bind quiet_repick fun _ r _ => each_lift_bind fun _ _ => ih

theorem plain_placeHello {pk key : B} {from_ : HelloSeal B} {attempt : HelloAttempt B} :
    Each Plain (placeHello C P pk key from_ attempt) := plain_load_bind fun _ => plain_placeLoop

theorem plain_finishFirstContact (s : ConvState B) : Each Plain (finishFirstContact C P s) := by
  refine each_lift_bind fun _ _ => each_lift_bind fun _ _ => each_lift_bind fun _ _ => ?_
  refine plain_outstandingZero_bind fun _ => each_lift_bind fun _ _ => each_lift_bind fun _ _ => ?_
  refine each_quiet_bind (quiet_writeAll _) fun _ _ _ => ?_
  refine each_quiet_bind quiet_repick fun _ _ _ => ?_
  exact plain_placeHello.bind fun _ => plain_pure _

theorem plain_resumeFirstContact : Each Plain (resumeFirstContact : DmFlow B (Option Nat)) := by
  refine plain_load_bind fun s => each_lift_bind fun _ _ => ?_
  split
  · trivial
  · exact each_quiet_bind (quiet_writeDropSlot _ _ _) fun _ _ _ => plain_pure _

theorem plain_continueFirstContact : Each Plain (continueFirstContact C P) := by
  refine plain_load_bind fun s => each_lift_bind fun _ _ => each_lift_bind fun _ _ => ?_
  split
  · exact plain_resumeFirstContact.bind fun _ => each_lift_bind fun _ _ => plain_pure _
  · exact plain_finishFirstContact s

theorem plain_firstContact {me : Me B} {pk body : B} {now : Nat} :
    Each Plain (firstContact C P me pk body now) := by
  refine each_bind_assoc <| plain_loadAll_bind fun found => ?_
  change Each Plain (if _ then _ else _)
  split
  · exact plain_continueFirstContact
  · refine each_lift_bind fun _ _ => each_quiet_bind (quiet_readAdvert _) fun _ _ _ => ?_
    refine each_quiet_bind quiet_drawGeneration fun _ _ _ => ?_
    refine each_quiet_bind (quiet_openChannel _) fun _ _ _ => ?_
    refine each_quiet_bind (quiet_encapsulateTo _ _) fun _ _ _ => ?_
    refine each_quiet_bind (quiet_call _) fun _ _ _ => each_lift_bind fun _ _ => ?_
    refine each_lift_bind fun _ _ => each_quiet_bind (quiet_sealSlot _ _ _) fun _ _ _ => ?_
    refine plain_persistOutbox_bind <| plain_createConv_bind <| plain_load_bind fun s => ?_
    exact plain_finishFirstContact s

theorem plain_refreshFirstContact {now : Nat} : Each Plain (refreshFirstContact C P now) := by
  refine plain_load_bind fun s => each_lift_bind fun _ _ => each_lift_bind fun _ _ => ?_
  refine each_lift_bind fun _ _ => each_lift_bind fun _ _ => ?_
  refine each_quiet_bind (quiet_readAdvert _) fun _ _ _ => ?_
  split
  · refine each_quiet_bind (quiet_encapsulateTo _ _) fun _ _ _ => ?_
    exact plain_placeHello.bind fun _ => plain_pure _
  · exact plain_pure _

/-! ## Acceptance -/

theorem plain_alreadyEstablished (s : ConvState B) :
    Each Plain (alreadyEstablished s : DmFlow B α) := by
  unfold alreadyEstablished
  split
  · exact Each.bind (plain_update_other (fun _ => rfl) fun _ => rfl) fun _ => trivial
  · trivial

theorem plain_outgoingChannel (me : Me B) (s : ConvState B) : Each Plain (outgoingChannel P me s) := by
  unfold outgoingChannel
  split
  · refine each_quiet_bind (quiet_openChannel _) fun _ key _ => ?_
    exact Each.bind (plain_update_other (fun _ => rfl) fun _ => rfl) fun _ => plain_pure _
  · exact plain_pure _

theorem plain_mintAcceptance {me : Me B} {s : ConvState B} {key pk : B} {now : Nat} :
    Each Plain (mintAcceptance C P me s key pk now) := by
  unfold mintAcceptance
  split
  · refine each_quiet_bind (quiet_readAdvert _) fun _ _ _ => ?_
    refine each_quiet_bind (quiet_encapsulateTo _ _) fun _ _ _ => ?_
    exact plain_update_other (fun _ => rfl) fun _ => rfl
  · exact plain_pure _

theorem plain_writeHelloBack {s : ConvState B} {identity key : B} {serial : Nat}
    {offered : Option (HelloAttempt B)} :
    Each Plain (writeHelloBack C P s identity key serial offered) := by
  unfold writeHelloBack
  cases s.outstandingHello with
  | some hello => exact each_quiet_bind (quiet_writeDropSlot _ _ _) fun _ _ _ => plain_pure _
  | none =>
    refine each_lift_bind fun from_ _ => ?_
    have place (first : HelloAttempt B) : Each Plain (placeHello C P identity key from_ first >>=
        fun attempt => pure (attempt.slot C P, attempt.repicks)) :=
      plain_placeHello.bind fun _ => plain_pure _
    cases offered with
    | some attempt => exact place attempt
    | none => exact each_bind_assoc <| each_quiet_bind quiet_repick fun _ r _ => place (.new r)

theorem plain_finishAccept {me : Me B} {rounds now : Nat} {slot : Option Nat} (s : ConvState B) :
    Each Plain (finishAccept C P me rounds s slot now) := by
  refine each_lift_bind fun _ _ => each_lift_bind fun _ _ => ?_
  refine each_quiet_bind (quiet_readAcceptedOpening _ _ _ _ _ _) fun _ _ _ => ?_
  refine (plain_outgoingChannel _ _).bind fun key => plain_outstandingZero_bind fun zero => ?_
  refine each_lift_bind fun _ _ => each_lift_bind fun _ _ => each_lift_bind fun _ _ => ?_
  refine plain_mintAcceptance.bind fun _ => each_lift_bind fun ring _ => ?_
  refine plain_readRing_bind fun read reader ring sending => plain_load_bind fun current => ?_
  refine each_lift_bind fun _ _ => each_lift_bind fun _ _ => ?_
  refine each_quiet_bind (quiet_offerHelloBack _ _ _ _ _ _) fun _ _ _ => ?_
  refine each_quiet_bind (quiet_writeAll _) fun _ _ _ => plain_writeHelloBack.bind fun _ => ?_
  refine Each.bind (plain_update fun stored => ⟨fun forced => ?_, rfl⟩) fun _ => plain_pure _
  exact forceTurn_writeConversation sending forced

theorem plain_accept {me : Me B} {rounds now : Nat} {request : ContactRequest B} {reply : B} :
    Each Plain (accept C P me rounds request reply now) := by
  refine each_bind_assoc <| plain_loadAll_bind fun found => ?_
  change Each Plain (if _ then _ else _)
  split
  · refine plain_load_bind fun s => each_lift_bind fun _ _ => each_lift_bind fun _ _ => ?_
    split
    · exact plain_alreadyEstablished s
    · exact plain_finishAccept s
  · refine each_lift_bind fun _ _ => each_quiet_bind (quiet_openChannel _) fun _ _ _ => ?_
    refine each_lift_bind fun _ _ => each_quiet_bind (quiet_sealSlot _ _ _) fun _ _ _ => ?_
    refine plain_persistOutbox_bind <| plain_createConv_bind <| plain_load_bind fun s => ?_
    exact plain_finishAccept s

theorem plain_continueAcceptance {me : Me B} {rounds now : Nat} :
    Each Plain (continueAcceptance C P me rounds now) := by
  refine plain_load_bind fun s => each_lift_bind fun _ _ => ?_
  split
  · exact plain_alreadyEstablished s
  · exact plain_finishAccept s

theorem plain_recogniseAcceptance {me : Me B} {rounds cursor slot : Nat} {key secret : B} :
    Each Plain (recogniseAcceptance C P me rounds key cursor secret slot) := by
  refine plain_load_bind fun s => each_lift_bind fun _ _ => ?_
  refine plain_tryUpdate_bind (fun stored asLoaded t taken => ?_) fun asLoaded => ?_
  · obtain ⟨_, _, taken⟩ := bind_ok.1 taken
    obtain ⟨_, _, taken⟩ := bind_ok.1 taken
    simp only [pure, Except.pure, Except.ok.injEq, Prod.mk.injEq] at taken
    obtain ⟨-, rfl⟩ := taken
    exact ⟨id, rfl⟩
  refine each_lift_bind fun ring _ => plain_readRing_bind fun read reader ring sending => ?_
  refine plain_tryUpdate_bind (fun stored _ t taken => ?_) fun _ => ?_
  · obtain ⟨_, _, taken⟩ := bind_ok.1 taken
    obtain ⟨_, _, taken⟩ := bind_ok.1 taken
    simp only [pure, Except.pure, Except.ok.injEq, Prod.mk.injEq] at taken
    obtain ⟨-, rfl⟩ := taken
    exact ⟨forceTurn_writeConversation sending, rfl⟩
  · exact each_quiet_bind (quiet_eraseDropSlot _ _) fun _ _ _ => plain_pure _

/-! ## Committing a message -/

omit [DecidableEq B] in
/-- What a commit does of a schedule loaded as `loaded`, where the record stored is the
one loaded but for the flag and the published cursor. -/
theorem commit_startsTurn {loaded : ConvState B} {flag : Bool} {published : Nat}
    {fill : List (Option B)} {sealing : Sealing B}
    (prepared : (Conversation.restore loaded.conversation).prepare C deviceIdSingleDevice fill =
      .ok sealing) (forced : forceTurn loaded = true) :
    StartsTurn C (setLeftOut loaded flag published)
      { writeConversation (setLeftOut loaded flag published)
          ((Conversation.restore loaded.conversation).sealed sealing) (forceTurn loaded) with
        sendSeq := loaded.sendSeq + 1 } := by
  refine ⟨forceTurn loaded, fill, sealing, prepared, ?_, rfl⟩
  rw [(prepare_ok prepared).due]
  exact if_pos forced

/-- The section of a commit, over the record its flow loaded. -/
theorem commitSection_cases {loaded s t : ConvState B} {u : Unit} {fill : List (Option B)}
    {sealing : Sealing B}
    (prepared : (Conversation.restore loaded.conversation).prepare C deviceIdSingleDevice fill =
      .ok sealing)
    (taken : commitSection (.of loaded) ((Conversation.restore loaded.conversation).sealed sealing)
      (forceTurn loaded) (loaded.sendSeq + 1) s = .ok (u, t)) :
    (forceTurn loaded = true → StartsTurn C s t) ∧
      (forceTurn s = true → forceTurn t = true ∨ StartsTurn C s t) := by
  obtain ⟨_, -, taken⟩ := bind_ok.1 taken
  obtain ⟨_, same, taken⟩ := bind_ok.1 taken
  cases taken
  obtain ⟨flag, published, rfl⟩ := unchanged_eq same
  refine ⟨commit_startsTurn prepared, fun stored => ?_⟩
  cases loadedForced : forceTurn loaded with
  | true => exact .inr (loadedForced ▸ commit_startsTurn prepared loadedForced)
  | false =>
    refine .inl ?_
    obtain rfl : flag = true := stored
    rfl

/-- A commit whose flow has loaded the record. -/
def commitFrom (C : Crypto B) (P : Platform B) (body : B) (now : Nat) (loaded : ConvState B) :
    DmFlow B (Committed B) := do
  refuseWhere loaded.deletePending .deletePending
  refuseWhere (loaded.awaitingAcceptance || loaded.acceptancePending) .awaitingAcceptance
  let ring ← (Ring.restore loaded.sendSeq loaded.peerCollected).mapError FlowError.channel
  let (seq, ring) ← ring.reserve.mapError FlowError.channel
  let (slot, conversation) ← sealSlot C P (Conversation.restore loaded.conversation) body now
  persistOutbox P seq slot now
  tryUpdateConv (commitSection (.of loaded) conversation (forceTurn loaded) ring.sendSeq)
  return { seq, lookupKey := loaded.outgoingLookupKey, subkey := slotFor seq, slot }

theorem commitMessage_eq (body : B) (now : Nat) :
    commitMessage C P body now = load >>= commitFrom C P body now := rfl

/-- Each section of a commit is what its own is, or plain. -/
theorem each_commitFrom {S : (Correspondence B → Correspondence B) → Correspondence B → Prop}
    {body : B} {now : Nat} {loaded : ConvState B} (plain : ∀ f c, Plain f c → S f c)
    (commits : ∀ fill sealing,
      (Conversation.restore loaded.conversation).prepare C deviceIdSingleDevice fill = .ok sealing →
      ∀ c, S (attempted (tryUpdates (commitSection (.of loaded)
        ((Conversation.restore loaded.conversation).sealed sealing) (forceTurn loaded)
        (loaded.sendSeq + 1)))) c) : Each S (commitFrom C P body now loaded) := by
  refine each_lift_bind fun _ _ => each_lift_bind fun _ _ => each_lift_bind fun ring restored => ?_
  refine each_lift_bind fun ⟨seq, ring'⟩ reserved => ?_
  obtain ⟨rfl, -⟩ := Ring.restore_ok (mapError_ok.1 restored)
  obtain ⟨rfl, rfl, -⟩ := Ring.reserve_ok (mapError_ok.1 reserved)
  refine each_quiet_bind (quiet_sealSlot _ _ _) fun ms ⟨slot, conversation⟩ ran => ?_
  obtain ⟨drawn, -, made⟩ := sealSlot_ok ran
  obtain ⟨sealing, _, prepared, -, -, rfl⟩ := sealWith_ok made
  refine each_attempt_bind (fun c => plain _ _ (plain_of_same (persistOutbox_conv c))) ?_
  refine fun _ _ _ _ => each_attempt_bind (commits _ sealing prepared) fun _ _ _ _ => trivial

theorem kept_commitMessage {body : B} {now : Nat} : Each (Kept C) (commitMessage C P body now) := by
  refine each_view_bind (fun c => (plain_id c).kept) fun _ loaded _ => ?_
  refine each_commitFrom (fun _ _ => Plain.kept) fun fill sealing prepared => ?_
  exact onRecord_tryUpdates (Keeps.refl C) fun s _ t taken => (commitSection_cases prepared taken).2

theorem turned_commitMessage {body : B} {now : Nat} :
    Informed Forced (Turned C) (commitMessage C P body now) := by
  refine informed_view_bind (fun c => (plain_id c).turned) fun c state found read => ?_
  refine each_commitFrom (fun _ _ => Plain.turned) fun fill sealing prepared => ?_
  obtain ⟨s, held, flag⟩ := found
  obtain rfl := Option.some.inj (held.symm.trans (loadConv_some (loaded_ok.1 read)))
  exact onRecord_tryUpdates (Turns.refl C) fun s _ t taken _ =>
    (commitSection_cases prepared taken).1 flag

/-! ## Every call -/

variable {me : Me B} {rounds : Nat}

/-- The calls that commit no message. -/
def Commits : Call B → Prop
  | .commitMessage .. | .sendMessage .. => True
  | _ => False

theorem plain_call {call : Call B} (other : ¬ Commits call) :
    Each Plain (call.flow C P me rounds) := by
  cases call with
  | firstContact => exact plain_firstContact.bind fun _ => plain_pure _
  | continueFirstContact => exact plain_continueFirstContact.bind fun _ => plain_pure _
  | resumeFirstContact => exact plain_resumeFirstContact.bind fun _ => plain_pure _
  | refreshFirstContact => exact plain_refreshFirstContact.bind fun _ => plain_pure _
  | accept => exact plain_accept.bind fun _ => plain_pure _
  | continueAcceptance => exact plain_continueAcceptance.bind fun _ => plain_pure _
  | recogniseAcceptance => exact plain_recogniseAcceptance.bind fun _ => plain_pure _
  | commitMessage => exact absurd trivial other
  | sendMessage => exact absurd trivial other
  | collectStep => exact plain_collectStep.bind fun _ => plain_pure _
  | publishCursor => exact plain_publishCursor.bind fun _ => plain_pure _
  | takePeerCursor cursor => exact (plain_takePeerCursor cursor).bind fun _ => plain_pure _
  | deleteOutboxThrough cursor => exact (plain_deleteOutboxThrough cursor).bind fun _ => plain_pure _
  | reset => exact plain_reset.bind fun _ => plain_pure _
  | markDeletePending => exact plain_markDeletePending.bind fun _ => plain_pure _

/-- **No call clears a flag but by the message it forces.** -/
theorem kept_call (call : Call B) : Each (Kept C) (call.flow C P me rounds) := by
  by_cases sends : Commits call
  · cases call with
    | commitMessage => exact kept_commitMessage.bind fun _ => trivial
    | sendMessage =>
      refine Each.bind (kept_commitMessage.bind fun _ => ?_) fun _ => trivial
      exact each_quiet_bind (quiet_writeChannel _ _ _) fun _ _ _ => trivial
    | _ => exact sends.elim
  · exact Each.mono (fun _ _ => Plain.kept) (plain_call sends)

/-- **A call that finds the flag set forces the message it commits.** -/
theorem turned_call (call : Call B) : Informed Forced (Turned C) (call.flow C P me rounds) := by
  by_cases sends : Commits call
  · cases call with
    | commitMessage => exact turned_commitMessage.bind fun _ => trivial
    | sendMessage =>
      refine Informed.bind (turned_commitMessage.bind fun _ => ?_) fun _ => trivial
      exact each_quiet_bind (quiet_writeChannel _ _ _) fun _ _ _ => trivial
    | _ => exact sends.elim
  · exact Each.informed (Each.mono (fun _ _ => Plain.turned) (plain_call sends))

end Daemonseed.Dm.ForcedTurns

