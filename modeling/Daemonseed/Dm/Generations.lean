import Daemonseed.Dm.Drop
import Daemonseed.Dm.Sections

/-! # Where a record's generation comes from

Every section of every flow keeps the generation of the record it finds. The
one a record is created with is the one the flow drew, or the one named by the
request it accepts. -/
namespace Daemonseed.Dm.Generations
open Daemonseed.Dm.Primitives Daemonseed.Dm.Channel Daemonseed.Dm.Chain Daemonseed.Dm.Records
  Daemonseed.Dm.Store Daemonseed.Dm.Flows Daemonseed.Dm.Contact Daemonseed.Dm.Drop
  Daemonseed.Dm.Sections Daemonseed.Lib.Flows Daemonseed.Lib.Solo Daemonseed.Lib.Results

variable {B : Type} {C : Crypto B} {P : Platform B} {α β : Type}

/-- What a flow has been answered. -/
abbrev Answered (B : Type) := Told (Reply (B := B))

/-- A record there is keeps its generation, and one that comes to be has a generation granted. -/
structure Gains (granted : Answered B → Nat → Prop) (heard : Answered B)
    (c d : Correspondence B) : Prop where
  kept : ∀ r, c.conv = some r → ∃ r', d.conv = some r' ∧ r'.generation = r.generation
  born : ∀ r, c.conv = none → d.conv = some r → granted heard r.generation

variable {granted : Answered B → Nat → Prop} {heard : Answered B}

theorem Gains.same {c d : Correspondence B} (e : d.conv = c.conv) : Gains granted heard c d where
  kept r held := ⟨r, e.trans held, rfl⟩
  born r none_ held := by
    rw [e, none_] at held
    cases held

theorem Gains.refl (heard : Answered B) (c : Correspondence B) :
    Gains granted heard c c := .same rfl

abbrev Bound (granted : Answered B → Nat → Prop) (heard : Answered B)
    (p : DmFlow B α) : Prop := Heeds (Gains granted) heard p

theorem bound_lift (x : Except FlowError α) : Bound granted heard (liftM x : DmFlow B α) :=
  heeds_quiet (Flow.quiet_lift x)

theorem bound_drawGeneration {k : Nat → DmFlow B β}
    (then_ : ∀ g heard, ⟨.generation, (some g : Option Nat)⟩ ∈ heard → Bound granted heard (k g)) :
    Bound granted heard (drawGeneration >>= k) := by
  intro drawn
  cases drawn with
  | none => trivial
  | some g => exact then_ g _ (List.mem_append_right _ (List.mem_singleton_self _))

theorem bound_createConv {s : ConvState B} (grants : granted heard s.generation) :
    Bound granted heard (Flows.createConv s) := by
  refine heeds_attempt Gains.refl fun c _ d h => ?_
  simp only [Correspondence.createConv] at h
  split at h
  · cases h
  · rename_i none_
    have absent : c.conv = none := by simpa using none_
    cases h
    refine ⟨fun r e => ?_, fun r _ e => ?_⟩
    · cases absent.symm.trans e
    · cases e
      exact grants

theorem bound_persistOutbox {seq sentAt : Nat} {slot : Slot B} :
    Bound granted heard (Flows.persistOutbox P seq slot sentAt) := by
  refine heeds_attempt Gains.refl fun _ _ _ h => .same ?_
  rw [(persistOutbox_ok (ofStore_leaves.1 h)).1]

theorem bound_deleteOutboxThrough {cursor : Nat} :
    Bound granted heard (Flows.deleteOutboxThrough cursor : DmFlow B (Option StoreError)) := by
  refine heeds_attempt Gains.refl fun c _ d h => .same ?_
  cases made : c.deleteOutboxThrough cursor with
  | error e =>
    simp only [made, Except.ok.injEq, Prod.mk.injEq] at h
    rw [h.2]
  | ok c' =>
    simp only [made, Except.ok.injEq, Prod.mk.injEq] at h
    rw [← h.2, deleteOutboxThrough_ok made]

/-- One flow and then another, whatever the first was answered. -/
theorem bound_then {p : DmFlow B α} {k : α → DmFlow B β} (first : Bound granted heard p)
    (then_ : ∀ a heard, Bound granted heard (k a)) : Bound granted heard (p >>= k) :=
  heeds_bind first fun a _ => then_ a _

theorem bound_lift_then {x : Except FlowError α} {k : α → DmFlow B β}
    (then_ : ∀ a, x = .ok a → Bound granted heard (k a)) : Bound granted heard (liftM x >>= k) := by
  cases x with
  | ok a => exact then_ a rfl
  | error e => trivial

variable [DecidableEq B]

theorem bound_load : Bound granted heard (load : DmFlow B (ConvState B)) := heeds_view Gains.refl

theorem bound_loadAll : Bound granted heard (loadAll : DmFlow B (Option (LoadedConv B))) :=
  heeds_view Gains.refl

theorem bound_correspondenceFor (identity : B) : Bound granted heard (correspondenceFor identity) :=
  heeds_bind bound_loadAll fun _ _ => heeds_pure

theorem bound_outstandingZero : Bound granted heard (outstandingZero : DmFlow B (Option (Slot B))) :=
  heeds_bind bound_loadAll fun _ _ => heeds_pure

theorem bound_updateConv {f : ConvState B → ConvState B} (same : ∀ s, (f s).generation = s.generation) :
    Bound granted heard (updateConv f) := by
  refine heeds_attempt Gains.refl fun c _ d h => ?_
  obtain ⟨s, -, held, rfl⟩ := updates_ok h
  refine ⟨fun r e => ?_, fun r e => ?_⟩
  · cases held.symm.trans e
    exact ⟨_, rfl, same s⟩
  · cases held.symm.trans e

theorem bound_tryUpdateConv {f : ConvState B → Except FlowError (α × ConvState B)}
    (same : ∀ {s a t}, f s = .ok (a, t) → t.generation = s.generation) :
    Bound granted heard (tryUpdateConv f) := by
  refine heeds_attempt Gains.refl fun c _ d h => ?_
  obtain ⟨s, t, -, held, made, rfl⟩ := tryUpdates_ok h
  refine ⟨fun r e => ?_, fun r e => ?_⟩
  · cases held.symm.trans e
    exact ⟨_, rfl, same made⟩
  · cases held.symm.trans e


/-! ## The flows of an established conversation -/

theorem commitSection_generation {asLoaded : AsLoaded B} {conversation : Conversation B} {forced : Bool}
    {sendSeq : Nat} {s t : ConvState B} {u : Unit}
    (h : commitSection asLoaded conversation forced sendSeq s = .ok (u, t)) :
    t.generation = s.generation := by
  obtain ⟨_, -, h⟩ := bind_ok.1 h
  obtain ⟨_, -, h⟩ := bind_ok.1 h
  cases h
  rfl

theorem bound_commitMessage {body : B} {now : Nat} :
    Bound granted heard (commitMessage C P body now) := by
  refine bound_then bound_load fun s _ => ?_
  refine bound_lift_then fun _ _ => bound_lift_then fun _ _ => bound_lift_then fun ring _ => ?_
  refine bound_lift_then fun (seq, ring) _ => ?_
  refine bound_then (heeds_quiet (quiet_sealSlot _ _ _)) fun (slot, conversation) _ => ?_
  refine bound_then bound_persistOutbox fun _ _ => ?_
  exact bound_then (bound_tryUpdateConv commitSection_generation) fun _ _ => heeds_pure

theorem bound_sendMessage {body : B} {now : Nat} : Bound granted heard (sendMessage C P body now) :=
  bound_then bound_commitMessage fun _ _ =>
    bound_then (heeds_quiet (quiet_writeChannel _ _ _)) fun _ _ => heeds_pure

theorem collectSection_generation {incoming : B} {seq : Nat} {raw : Wire B} {s t : ConvState B} {n : Nat}
    (h : collectSection C P incoming seq raw s = .ok (n, t)) : t.generation = s.generation := by
  obtain ⟨_, -, h⟩ := bind_ok.1 h
  obtain ⟨_, -, h⟩ := bind_ok.1 h
  obtain ⟨_, -, h⟩ := bind_ok.1 h
  obtain ⟨ring, -, h⟩ := bind_ok.1 h
  obtain ⟨⟨step, fresh, ring⟩, -, h⟩ := bind_ok.1 h
  cases step with
  | message =>
    cases h
    rfl
  | atEnd => cases h
  | unopened => cases h

theorem bound_collectStep : Bound granted heard (collectStep C P) := by
  refine bound_then bound_load fun s _ => ?_
  refine bound_lift_then fun _ _ => bound_lift_then fun _ _ => bound_lift_then fun ring _ => ?_
  refine bound_then (heeds_quiet (quiet_readChannel _ _)) fun found _ => ?_
  cases found with
  | none => exact heeds_pure
  | some raw =>
    refine bound_lift_then fun (step, conversation, ring) _ => ?_
    cases step with
    | message seq message _ =>
      refine bound_then (bound_tryUpdateConv collectSection_generation) fun cursor _ => ?_
      exact bound_then bound_deleteOutboxThrough fun _ _ => heeds_pure
    | atEnd => exact heeds_pure
    | unopened => exact heeds_pure

theorem bound_publishCursor : Bound granted heard (publishCursor : DmFlow B Bool) := by
  refine bound_then bound_load fun s _ => ?_
  refine bound_lift_then fun _ _ => bound_lift_then fun _ _ => ?_
  split
  · exact heeds_pure
  · refine bound_lift_then fun _ _ => bound_lift_then fun _ _ => ?_
    refine bound_then (heeds_quiet (quiet_writeChannel _ _ _)) fun _ _ => ?_
    exact bound_then (bound_updateConv fun _ => rfl) fun _ _ => heeds_pure

theorem bound_reset : Bound granted heard (reset : DmFlow B Unit) := by
  refine bound_then bound_loadAll fun found heard => ?_
  cases found with
  | none => exact heeds_pure
  | some conv =>
    refine heeds_attempt Gains.refl fun c _ d h => ?_
    cases made : c.updateConv fun state => setForceTurn state true with
    | error e =>
      rw [made] at h
      cases e with
      | missingConversation =>
        cases h
        exact .same rfl
      | corrupt | outboxSlotOccupied | ciphertextTooLong | conversationExists => cases h
    | ok c' =>
      rw [made] at h
      cases h
      obtain ⟨s, -, held, rfl⟩ := updateConv_ok made
      refine ⟨fun r e => ?_, fun r e => ?_⟩
      · cases held.symm.trans e
        exact ⟨_, rfl, rfl⟩
      · cases held.symm.trans e

/-! ## The flows that establish one -/

theorem bound_placeLoop {pk key : B} {from_ : HelloSeal B} {awaiting : Bool} {tries : Nat}
    {attempt : HelloAttempt B} : Bound granted heard (placeLoop C P pk key from_ awaiting tries attempt) := by
  induction tries generalizing heard attempt with
  | zero => exact fun never => never.elim
  | succ tries ih =>
    have section_ {hello : OutstandingHello B} {s t : ConvState B} {u : Unit}
        (h : placeSection awaiting hello s = .ok (u, t)) : t.generation = s.generation := by
      obtain ⟨_, -, h⟩ := bind_ok.1 h
      cases h
      rfl
    refine bound_then (bound_tryUpdateConv section_) fun _ _ => ?_
    refine bound_then (heeds_quiet (quiet_writeDropSlot _ _ _)) fun _ _ => ?_
    refine bound_then (heeds_quiet (quiet_readDropSlot _ _)) fun found _ => ?_
    cases afterReadBack (sealOutstanding C P from_ key pk attempt).sealed found with
    | landed => exact heeds_pure
    | clobbered =>
      refine bound_then (heeds_quiet quiet_repick) fun r _ => ?_
      exact bound_lift_then fun _ _ => ih

theorem bound_placeHello {pk key : B} {from_ : HelloSeal B} {attempt : HelloAttempt B} :
    Bound granted heard (placeHello C P pk key from_ attempt) :=
  bound_then bound_load fun _ _ => bound_placeLoop

theorem bound_finishFirstContact {s : ConvState B} :
    Bound granted heard (finishFirstContact C P s) := by
  refine bound_lift_then fun _ _ => bound_lift_then fun _ _ => bound_lift_then fun _ _ => ?_
  refine bound_then bound_outstandingZero fun zero _ => ?_
  refine bound_lift_then fun _ _ => bound_lift_then fun _ _ => ?_
  refine bound_then (heeds_quiet (quiet_writeAll _)) fun _ _ => ?_
  refine bound_then (heeds_quiet quiet_repick) fun _ _ => ?_
  exact bound_then bound_placeHello fun _ _ => heeds_pure

theorem bound_resumeFirstContact : Bound granted heard (resumeFirstContact : DmFlow B (Option Nat)) := by
  refine bound_then bound_load fun s _ => bound_lift_then fun _ _ => ?_
  split
  · exact heeds_pure
  · exact bound_then (heeds_quiet (quiet_writeDropSlot _ _ _)) fun _ _ => heeds_pure

theorem bound_continueFirstContact : Bound granted heard (continueFirstContact C P) := by
  refine bound_then bound_load fun s _ => bound_lift_then fun _ _ => bound_lift_then fun _ _ => ?_
  split
  · refine bound_then bound_resumeFirstContact fun slot _ => ?_
    exact bound_lift_then fun _ _ => heeds_pure
  · exact bound_finishFirstContact

theorem bound_refreshFirstContact {now : Nat} :
    Bound granted heard (refreshFirstContact C P now) := by
  refine bound_then bound_load fun s _ => bound_lift_then fun _ _ => bound_lift_then fun _ _ => ?_
  refine bound_lift_then fun _ _ => bound_lift_then fun _ _ => ?_
  refine bound_then (heeds_quiet (quiet_readAdvert _)) fun advert _ => ?_
  split
  · refine bound_then (heeds_quiet (quiet_encapsulateTo _ _)) fun _ _ => ?_
    exact bound_then bound_placeHello fun _ _ => heeds_pure
  · exact heeds_pure

theorem bound_alreadyEstablished {s : ConvState B} :
    Bound granted heard (alreadyEstablished s : DmFlow B α) := by
  unfold alreadyEstablished
  split
  · exact bound_then (bound_updateConv fun _ => rfl) fun _ _ => heeds_throw
  · exact heeds_throw

theorem bound_outgoingChannel {me : Me B} {s : ConvState B} :
    Bound granted heard (outgoingChannel P me s) := by
  unfold outgoingChannel
  split
  · refine bound_then (heeds_quiet (quiet_openChannel _)) fun _ _ => ?_
    exact bound_then (bound_updateConv fun _ => rfl) fun _ _ => heeds_pure
  · exact heeds_pure

theorem bound_mintAcceptance {me : Me B} {s : ConvState B} {key pk : B} {now : Nat} :
    Bound granted heard (mintAcceptance C P me s key pk now) := by
  unfold mintAcceptance
  split
  · refine bound_then (heeds_quiet (quiet_readAdvert _)) fun _ _ => ?_
    refine bound_then (heeds_quiet (quiet_encapsulateTo _ _)) fun _ _ => ?_
    exact bound_updateConv fun _ => rfl
  · exact heeds_pure

theorem bound_writeHelloBack {s : ConvState B} {identity key : B} {serial : Nat}
    {offered : Option (HelloAttempt B)} :
    Bound granted heard (writeHelloBack C P s identity key serial offered) := by
  unfold writeHelloBack
  split
  · exact bound_then (heeds_quiet (quiet_writeDropSlot _ _ _)) fun _ _ => heeds_pure
  · refine bound_lift_then fun from_ _ => ?_
    have attempts {heard : Answered B} : Bound granted heard (firstAttempt offered) := by
      cases offered with
      | some attempt => exact heeds_pure
      | none => exact bound_then (heeds_quiet quiet_repick) fun _ _ => heeds_pure
    refine bound_then attempts fun attempt _ => ?_
    exact bound_then bound_placeHello fun _ _ => heeds_pure

theorem bound_finishAccept {me : Me B} {rounds now : Nat} {s : ConvState B} {slot : Option Nat} :
    Bound granted heard (finishAccept C P me rounds s slot now) := by
  refine bound_lift_then fun _ _ => bound_lift_then fun _ _ => ?_
  refine bound_then (heeds_quiet (quiet_readAcceptedOpening _ _ _ _ _ _)) fun _ _ => ?_
  refine bound_then bound_outgoingChannel fun key _ => ?_
  refine bound_then bound_outstandingZero fun zero _ => ?_
  refine bound_lift_then fun _ _ => bound_lift_then fun _ _ => bound_lift_then fun _ _ => ?_
  refine bound_then bound_mintAcceptance fun _ _ => bound_lift_then fun ring _ => ?_
  refine bound_then (heeds_quiet (quiet_readRing _ _ _ _ _ _)) fun (read, reader, ring) _ => ?_
  refine bound_then bound_load fun current _ => ?_
  refine bound_lift_then fun _ _ => bound_lift_then fun _ _ => ?_
  refine bound_then (heeds_quiet (quiet_offerHelloBack _ _ _ _ _ _)) fun offered _ => ?_
  refine bound_then (heeds_quiet (quiet_writeAll _)) fun _ _ => ?_
  refine bound_then bound_writeHelloBack fun (helloSlot, repicks) _ => ?_
  exact bound_then (bound_updateConv fun _ => rfl) fun _ _ => heeds_pure

theorem bound_continueAcceptance {me : Me B} {rounds now : Nat} :
    Bound granted heard (continueAcceptance C P me rounds now) := by
  refine bound_then bound_load fun s _ => bound_lift_then fun _ _ => ?_
  split
  · exact bound_alreadyEstablished
  · exact bound_finishAccept

theorem bound_recogniseAcceptance {me : Me B} {rounds cursor slot : Nat} {key secret : B} :
    Bound granted heard (recogniseAcceptance C P me rounds key cursor secret slot) := by
  have first {asLoaded : AsLoaded B} {peerKey : B} {s t : ConvState B} {a : AsLoaded B}
      (h : recogniseSection asLoaded key peerKey s = .ok (a, t)) : t.generation = s.generation := by
    obtain ⟨_, -, h⟩ := bind_ok.1 h
    obtain ⟨_, -, h⟩ := bind_ok.1 h
    cases h
    rfl
  have last {asLoaded : AsLoaded B} {conversation : Conversation B} {forced : Bool}
      {collected peerCollected : Nat} {s t : ConvState B} {u : Unit}
      (h : acceptedSection asLoaded conversation forced collected peerCollected s = .ok (u, t)) :
      t.generation = s.generation := by
    obtain ⟨_, -, h⟩ := bind_ok.1 h
    obtain ⟨_, -, h⟩ := bind_ok.1 h
    cases h
    rfl
  refine bound_then bound_load fun s _ => bound_lift_then fun _ _ => ?_
  refine bound_then (bound_tryUpdateConv first) fun asLoaded _ => bound_lift_then fun ring _ => ?_
  refine bound_then (heeds_quiet (quiet_readRing _ _ _ _ _ _)) fun (read, conversation, ring) _ => ?_
  refine bound_then (bound_tryUpdateConv last) fun _ _ => ?_
  exact bound_then (heeds_quiet (quiet_eraseDropSlot _ _)) fun _ _ => heeds_pure

/-! ## What a call creates a record with -/

/-- A first contact has drawn the generation of the record it creates. -/
theorem bound_firstContact {me : Me B} {pk body : B} {now : Nat} :
    Bound (fun heard g => ⟨.generation, (some g : Option Nat)⟩ ∈ heard) heard
      (firstContact C P me pk body now) := by
  refine bound_then (bound_correspondenceFor pk) fun known heard => ?_
  split
  · exact bound_continueFirstContact
  · refine bound_lift_then fun _ _ => ?_
    refine bound_then (heeds_quiet (quiet_readAdvert _)) fun advert heard => ?_
    refine bound_drawGeneration fun g heard drawn => ?_
    refine heeds_bind (heeds_quiet (quiet_openChannel _)) fun key told => ?_
    refine heeds_bind (heeds_quiet (quiet_encapsulateTo _ _)) fun encapsulation told => ?_
    refine heeds_bind (heeds_quiet (Flow.quiet_call _)) fun entropy told => ?_
    refine bound_lift_then fun opened _ => bound_lift_then fun (seq, ring) _ => ?_
    refine heeds_bind (heeds_quiet (quiet_sealSlot _ _ _)) fun (slot, conversation) told => ?_
    refine heeds_bind bound_persistOutbox fun _ told => ?_
    refine bound_then (bound_createConv ?_) fun _ heard => ?_
    · simp only [List.append_assoc, List.mem_append]
      exact .inl drawn
    · exact bound_then bound_load fun _ _ => bound_finishFirstContact

/-- An acceptance creates its record with the generation its request names. -/
theorem bound_accept {me : Me B} {rounds now : Nat} {request : ContactRequest B} {reply : B} :
    Bound (fun _ g => g = request.generation) heard (accept C P me rounds request reply now) := by
  refine bound_then (bound_correspondenceFor _) fun known heard => ?_
  split
  · refine bound_then bound_load fun s _ => bound_lift_then fun _ _ => bound_lift_then fun _ _ => ?_
    split
    · exact bound_alreadyEstablished
    · exact bound_finishAccept
  · refine bound_lift_then fun _ _ => ?_
    refine bound_then (heeds_quiet (quiet_openChannel _)) fun key _ => ?_
    refine bound_lift_then fun (seq, ring) _ => ?_
    refine bound_then (heeds_quiet (quiet_sealSlot _ _ _)) fun (slot, conversation) _ => ?_
    refine bound_then bound_persistOutbox fun _ _ => ?_
    refine bound_then (bound_createConv rfl) fun _ _ => ?_
    exact bound_then bound_load fun _ _ => bound_finishAccept

/-- The generations a call may create a record with, by what it was answered. -/
def grants (c : Call B) (heard : Answered B) (g : Nat) : Prop :=
  match c with
  | .firstContact _ _ _ => ⟨.generation, (some g : Option Nat)⟩ ∈ heard
  | .accept request _ _ => g = request.generation
  | _ => False

theorem bound_call {me : Me B} {rounds : Nat} (c : Call B) :
    Bound (grants c) heard (c.flow C P me rounds) := by
  cases c with
  | firstContact => exact bound_then bound_firstContact fun _ _ => heeds_pure
  | continueFirstContact => exact bound_then bound_continueFirstContact fun _ _ => heeds_pure
  | resumeFirstContact => exact bound_then bound_resumeFirstContact fun _ _ => heeds_pure
  | refreshFirstContact => exact bound_then bound_refreshFirstContact fun _ _ => heeds_pure
  | accept => exact bound_then bound_accept fun _ _ => heeds_pure
  | continueAcceptance => exact bound_then bound_continueAcceptance fun _ _ => heeds_pure
  | recogniseAcceptance => exact bound_then bound_recogniseAcceptance fun _ _ => heeds_pure
  | commitMessage => exact bound_then bound_commitMessage fun _ _ => heeds_pure
  | sendMessage => exact bound_then bound_sendMessage fun _ _ => heeds_pure
  | collectStep => exact bound_then bound_collectStep fun _ _ => heeds_pure
  | publishCursor => exact bound_then bound_publishCursor fun _ _ => heeds_pure
  | takePeerCursor => exact bound_then (bound_updateConv fun _ => rfl) fun _ _ => heeds_pure
  | deleteOutboxThrough => exact bound_then bound_deleteOutboxThrough fun _ _ => heeds_pure
  | reset => exact bound_then bound_reset fun _ _ => heeds_pure
  | markDeletePending => exact bound_then (bound_updateConv fun _ => rfl) fun _ _ => heeds_pure

end Daemonseed.Dm.Generations
