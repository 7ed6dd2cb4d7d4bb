import Daemonseed.Dm.Sections
import Daemonseed.Dm.Symbolic
import Daemonseed.Lib.Pools

/-! # What every conversation record keeps

The numbers a record holds twice agree, its cursors are within their bounds,
and it decodes. Each flow is shown to keep this with the others moving the
record forward between its sections, as every flow does. -/
namespace Daemonseed.Dm.RecordInvariant
open Daemonseed.Dm.Primitives Daemonseed.Dm.Channel Daemonseed.Dm.Chain Daemonseed.Dm.Records
  Daemonseed.Dm.Store Daemonseed.Dm.Flows Daemonseed.Dm.Contact Daemonseed.Dm.Sections
  Daemonseed.Dm.Symbolic Daemonseed.Lib.Runs Daemonseed.Lib.Flows Daemonseed.Lib.Flows.Flow
  Daemonseed.Lib.Pools Daemonseed.Lib.Results

variable {B : Type} {C : Crypto B} {P : Platform B}

/-! ## The invariant -/

/-- A conversation record in order. -/
structure Sound (s : ConvState B) : Prop where
  sendSeq : s.sendSeq = s.conversation.sending.seq
  myCollected : s.myCollected = s.conversation.receiving.nextSeq
  published : s.cursorPublished ≤ s.myCollected
  peer : s.peerCollected ≤ s.sendSeq
  ring : s.sendSeq - s.peerCollected ≤ ringSlots
  settled : s.conversation.sending.pendingTurn = none
  flags : ¬(s.awaitingAcceptance = true ∧ s.acceptancePending = true)
  hello : ∀ h, s.outstandingHello = some h → h.slot < dropSubkeys ∧ h.sealed.kemCt = h.kemCt

/-- `decode_conv` refuses no record in order. -/
theorem Sound.decodes [DecidableEq B] {s : ConvState B} (h : Sound s) :
    decodeConv s = .ok s := decodeConv_iff.2 ⟨h.published, h.peer, h.hello⟩

theorem Sound.ringSound {s : ConvState B} (h : Sound s) :
    (⟨s.sendSeq, s.peerCollected⟩ : Ring).Sound := ⟨h.peer, h.ring⟩

/-- What being in order is about. -/
def numbers (s : ConvState B) :=
  ((s.conversation.sending.seq, s.conversation.receiving.nextSeq,
    s.conversation.sending.pendingTurn),
   (s.sendSeq, s.peerCollected, s.myCollected, s.cursorPublished),
   (s.awaitingAcceptance, s.acceptancePending, s.outstandingHello))

theorem Sound.same {s t : ConvState B} (h : Sound s) (e : numbers t = numbers s) : Sound t := by
  simp only [numbers, Prod.mk.injEq] at e
  obtain ⟨⟨hseq, hnext, hpend⟩, ⟨hsend, hpeer, hmine, hpub⟩, haw, hacc, hhello⟩ := e
  exact ⟨by rw [hsend, hseq, h.sendSeq], by rw [hmine, hnext, h.myCollected],
    by rw [hpub, hmine]; exact h.published, by rw [hpeer, hsend]; exact h.peer,
    by rw [hsend, hpeer]; exact h.ring, by rw [hpend]; exact h.settled,
    by rw [haw, hacc]; exact h.flags, by rw [hhello]; exact h.hello⟩

/-- How a record goes on: its sequences only grow, no acceptance becomes
pending, and while one is, only the force-turn flag of the schedule moves. -/
structure Later (s t : ConvState B) : Prop where
  sendSeq : s.sendSeq ≤ t.sendSeq
  myCollected : s.myCollected ≤ t.myCollected
  pending : t.acceptancePending = true → s.acceptancePending = true ∧
    t.sendSeq = s.sendSeq ∧ t.myCollected = s.myCollected ∧
    ∃ flag, t.conversation = (setForceTurn s flag).conversation

theorem Later.refl (s : ConvState B) : Later s s :=
  ⟨Nat.le_refl _, Nat.le_refl _, fun h => ⟨h, rfl, rfl, forceTurn s, rfl⟩⟩

theorem Later.trans {s t u : ConvState B} (h : Later s t) (k : Later t u) : Later s u := by
  refine ⟨h.sendSeq.trans k.sendSeq, h.myCollected.trans k.myCollected, fun hp => ?_⟩
  obtain ⟨ht, hseq, hcol, flag, hconv⟩ := k.pending hp
  obtain ⟨hs, hseq', hcol', flag', hconv'⟩ := h.pending ht
  refine ⟨hs, hseq.trans hseq', hcol.trans hcol', flag, ?_⟩
  rw [hconv]
  simp only [setForceTurn, hconv']

/-- A step that is over with the acceptance. -/
theorem Later.of_done {s t : ConvState B} (sendSeq : s.sendSeq ≤ t.sendSeq)
    (myCollected : s.myCollected ≤ t.myCollected) (done : t.acceptancePending = false) :
    Later s t := ⟨sendSeq, myCollected, fun h => absurd h (by simp [done])⟩

/-- A step that moves no number of the schedule. -/
theorem Later.of_same {s t : ConvState B} (sendSeq : t.sendSeq = s.sendSeq)
    (myCollected : t.myCollected = s.myCollected)
    (pending : t.acceptancePending = s.acceptancePending)
    (conversation : ∃ flag, t.conversation = (setForceTurn s flag).conversation) : Later s t :=
  ⟨sendSeq.ge, myCollected.ge, fun h => ⟨pending.symm.trans h, sendSeq, myCollected, conversation⟩⟩

/-- The record, where there is one, is in order. -/
def Keeps (c : Correspondence B) : Prop := ∀ s, c.conv = some s → Sound s

/-- A record stays, and goes on. -/
def Grows (c d : Correspondence B) : Prop :=
  ∀ s, c.conv = some s → ∃ t, d.conv = some t ∧ Later s t

theorem Grows.refl (c : Correspondence B) : Grows c c := fun s hs => ⟨s, hs, .refl s⟩

theorem Grows.trans {c d e : Correspondence B} (h : Grows c d) (k : Grows d e) : Grows c e := by
  intro s hs
  obtain ⟨t, ht, hst⟩ := h s hs
  obtain ⟨u, hu, htu⟩ := k t ht
  exact ⟨u, hu, hst.trans htu⟩

theorem Grows.later {c d : Correspondence B} {s t : ConvState B} (h : Grows c d)
    (hs : c.conv = some s) (ht : d.conv = some t) : Later s t := by
  obtain ⟨u, hu, hsu⟩ := h s hs
  rw [ht, Option.some.injEq] at hu
  exact hu ▸ hsu

/-- The record a section writes takes the place of the one it read. -/
theorem grows_of_later {d : Correspondence B} {s t : ConvState B} (hd : d.conv = some s)
    (h : Later s t) : Grows d { d with conv := some t } := by
  intro u hu
  rw [hd, Option.some.injEq] at hu
  exact ⟨t, rfl, hu ▸ h⟩

theorem keeps_of_sound {d : Correspondence B} {t : ConvState B} (h : Sound t) :
    Keeps { d with conv := some t } := by
  intro u hu
  rw [Option.some.injEq] at hu
  exact hu ▸ h

/-! ## What each section writes -/

/-- A message committed to a record in order. -/
theorem Sound.commits {stored : ConvState B} (h : Sound stored) {conversation : Conversation B}
    {s : Sealing B} (sending : conversation.sending.seq = stored.sendSeq)
    (receiving : conversation.receiving.nextSeq = stored.myCollected) (forced : Bool)
    (room : stored.sendSeq - stored.peerCollected < ringSlots) :
    Sound { writeConversation stored (conversation.sealed s) forced with
      sendSeq := stored.sendSeq + 1 } where
  sendSeq := congrArg (· + 1) sending.symm
  myCollected := receiving.symm.trans (sealed_nextSeq _ _).symm
  published := h.published
  peer := Nat.le_succ_of_le h.peer
  ring := by
    have := h.peer
    simp only [writeConversation]
    omega
  settled := rfl
  flags := h.flags
  hello := h.hello

/-- A message collected into a record in order. -/
theorem Sound.collects {stored : ConvState B} (h : Sound stored) {raw : Wire B} {seq : Nat}
    {message : ReceivedMessage B} {conversation : Conversation B} {slot : Slot B}
    {reading : Reading B} {plaintext : B}
    (opened : Opened C P (Conversation.restore stored.conversation) raw seq message conversation
      slot reading plaintext) {ring : Ring} (sent : ring.sendSeq = stored.sendSeq)
    (ok : ring.Sound) (forced : Bool) :
    Sound { writeConversation stored conversation forced with
      myCollected := seq + 1, peerCollected := ring.peerCollected } where
  sendSeq := by rw [opened.leaves]; exact h.sendSeq
  myCollected := by
    rw [opened.leaves, ← opened.next]
    rfl
  published := by
    have := h.published
    have := h.myCollected.trans opened.next
    simp only [writeConversation]
    omega
  peer := sent ▸ ok.le
  ring := sent ▸ ok.bound
  settled := by rw [opened.leaves]; exact h.settled
  flags := h.flags
  hello := h.hello

/-- A whole ring read recorded at once, in a record whose numbers are those
the read began from. -/
theorem Sound.reads {stored loaded : ConvState B} (h : Sound stored) (hl : Sound loaded)
    {conversation : Conversation B} {from_ ring : Ring} {collected : Nat}
    (read : ReadTo (Conversation.restore loaded.conversation) from_ loaded.myCollected conversation
      ring collected) (ok : from_.Sound) (sent : from_.sendSeq = loaded.sendSeq)
    (sendSeq : stored.sendSeq = loaded.sendSeq) (myCollected : stored.myCollected = loaded.myCollected)
    {peerCollected : Nat} (above : ring.peerCollected ≤ peerCollected)
    (below : peerCollected ≤ stored.sendSeq) (forced awaiting : Bool)
    {hello : Option (OutstandingHello B)}
    (fits : ∀ o, hello = some o → o.slot < dropSubkeys ∧ o.sealed.kemCt = o.kemCt) :
    Sound { writeConversation stored conversation forced with
      myCollected := collected, peerCollected, awaitingAcceptance := awaiting
      acceptancePending := false, outstandingHello := hello } where
  sendSeq := by
    change stored.sendSeq = conversation.sending.seq
    rw [read.sending, sendSeq]
    exact hl.sendSeq
  myCollected := (read.nextSeq hl.myCollected.symm).symm
  published := by
    have := h.published
    have := read.le
    change stored.cursorPublished ≤ collected
    omega
  peer := below
  ring := by
    have := (read.sound ok).bound
    have := read.sendSeq
    change stored.sendSeq - peerCollected ≤ ringSlots
    omega
  settled := by
    change conversation.sending.pendingTurn = none
    rw [read.sending]
    exact hl.settled
  flags := by simp
  hello := fits

/-- The record of a first contact. -/
theorem sound_contactRecord {pk key zeros : B} {generation : Nat}
    {encapsulation : HelloEncapsulation B} {opening : ChannelOpening B}
    {conversation : Conversation B} (sending : conversation.sending.seq = 0)
    (receiving : conversation.receiving.nextSeq = 0) (s : Sealing B) :
    Sound (contactRecord C pk key generation encapsulation opening (conversation.sealed s) 1
      zeros) where
  sendSeq := congrArg (· + 1) sending.symm
  myCollected := receiving.symm.trans (sealed_nextSeq conversation s).symm
  published := Nat.le_refl 0
  peer := Nat.zero_le 1
  ring := show 1 ≤ ringSlots by decide
  settled := rfl
  flags := by simp [contactRecord]
  hello := by simp [contactRecord]

/-- The record of an acceptance. -/
theorem sound_acceptanceRecord {request : ContactRequest B} {key : B} (s : Sealing B) :
    Sound (acceptanceRecord C request key
      ((Chain.accept C request.sharedSecret request.firstRatchetPk).sealed s) 1) where
  sendSeq := rfl
  myCollected := (sealed_nextSeq (Chain.accept C request.sharedSecret request.firstRatchetPk)
    s).symm
  published := Nat.le_refl 0
  peer := Nat.zero_le 1
  ring := show 1 ≤ ringSlots by decide
  settled := rfl
  flags := by simp [acceptanceRecord]
  hello := by simp [acceptanceRecord]

/-! ## One section of a flow -/

/-- The sections that record the end of an acceptance find it pending. -/
def FinishesPending [DecidableEq B] (f : Correspondence B → Correspondence B)
    (c : Correspondence B) : Prop :=
  ∀ reader loadedForced collected peerCollected,
    f = attempted (updates (finishSection reader loadedForced collected peerCollected)) →
      ∀ s, c.conv = some s → s.acceptancePending = true

theorem persistOutbox_conv {seq sentAt : Nat} {slot : Slot B} {d d' : Correspondence B} {u : Unit}
    (h : (ofStore (d.persistOutbox P seq slot sentAt)).map (fun c' => ((), c')) = .ok (u, d')) :
    d'.conv = d.conv := by
  rw [(persistOutbox_ok (ofStore_leaves.1 h)).1]

variable [DecidableEq B] {α β : Type}

/-- A flow that keeps the record in order beside the others. -/
abbrev Steady (post : α → Correspondence B → Prop) (p : DmFlow B α) (c : Correspondence B) :
    Prop := Safe Keeps Grows Grows FinishesPending post p c

/-- Nothing more is asked of what a flow returns. -/
abbrev Whatever (_ : α) (_ : Correspondence B) : Prop := True

variable {post : β → Correspondence B → Prop} {c : Correspondence B}

theorem steady_load {k : ConvState B → DmFlow B β}
    (h : ∀ d s, Grows c d → d.conv = some s → Sound s → Steady post (k s) d) :
    Steady post (load >>= k) c :=
  safe_view_bind Grows.refl fun d s hd hI hs =>
    have hc := loadConv_some (loaded_ok.1 hs)
    h d s hd hc (hI s hc)

theorem steady_loadAll {k : Option (LoadedConv B) → DmFlow B β}
    (h : ∀ d found, Grows c d → Steady post (k found) d) : Steady post (loadAll >>= k) c :=
  safe_view_bind Grows.refl fun d found hd _ _ => h d found hd

theorem steady_update {f : ConvState B → ConvState B} {k : Unit → DmFlow B β}
    (h : ∀ d s, Grows c d → FinishesPending (attempted (updates f)) d → d.conv = some s →
      Sound s → Sound (f s) ∧ Later s (f s) ∧
        ∀ d', Grows c d' → d'.conv = some (f s) → Steady post (k ()) d') :
    Steady post (updateConv f >>= k) c :=
  safe_attempt_bind Grows.refl fun d _ d' hd hI hmay hg => by
    obtain ⟨s, -, hs, rfl⟩ := updates_ok hg
    obtain ⟨sound, later, rest⟩ := h d s hd hmay hs (hI s hs)
    have grows := grows_of_later hs later
    exact ⟨keeps_of_sound sound, grows, rest _ (hd.trans grows) rfl⟩

theorem steady_tryUpdate {f : ConvState B → Except FlowError (α × ConvState B)}
    {k : α → DmFlow B β}
    (h : ∀ d s a t, Grows c d → d.conv = some s → Sound s → f s = .ok (a, t) →
      Sound t ∧ Later s t ∧ ∀ d', Grows c d' → d'.conv = some t → Steady post (k a) d') :
    Steady post (tryUpdateConv f >>= k) c :=
  safe_attempt_bind Grows.refl fun d a d' hd hI _ hg => by
    obtain ⟨s, t, -, hs, hf, rfl⟩ := tryUpdates_ok hg
    obtain ⟨sound, later, rest⟩ := h d s a t hd hs (hI s hs) hf
    have grows := grows_of_later hs later
    exact ⟨keeps_of_sound sound, grows, rest _ (hd.trans grows) rfl⟩

/-- A record created where there was none. -/
theorem steady_createConv {s : ConvState B} (sound : Sound s) {k : Unit → DmFlow B β}
    (h : ∀ d, Grows c d → d.conv = some s → Steady post (k ()) d) :
    Steady post (createConv s >>= k) c :=
  safe_attempt_bind Grows.refl fun d _ d' hd _ _ hg => by
    obtain ⟨hnone, rfl⟩ := createConv_ok (ofStore_leaves.1 hg)
    have grows : Grows d { d with conv := some s } := fun u hu => by simp [hnone] at hu
    exact ⟨keeps_of_sound sound, grows, h _ (hd.trans grows) rfl⟩

/-- A section that changes the outbox alone. -/
theorem steady_outbox {g : Correspondence B → Except FlowError (α × Correspondence B)}
    {k : α → DmFlow B β} (same : ∀ d a d', g d = .ok (a, d') → d'.conv = d.conv)
    (h : ∀ d a, Grows c d → Steady post (k a) d) :
    Steady post (attempt g >>= k) c :=
  safe_attempt_bind Grows.refl fun d a d' hd hI _ hg => by
    have hc := same d a d' hg
    have grows : Grows d d' := fun s hs => ⟨s, hc.trans hs, .refl s⟩
    exact ⟨fun s hs => hI s (hc.symm.trans hs), grows, h d' a (hd.trans grows)⟩

theorem steady_persistOutbox {seq sentAt : Nat} {slot : Slot B} {k : Unit → DmFlow B β}
    (h : ∀ d, Grows c d → Steady post (k ()) d) :
    Steady post (persistOutbox P seq slot sentAt >>= k) c :=
  steady_outbox (fun _ _ _ hg => persistOutbox_conv hg) fun d _ hd => h d hd

theorem steady_deleteOutboxThrough {cursor : Nat} {k : Option StoreError → DmFlow B β}
    (h : ∀ d e, Grows c d → Steady post (k e) d) :
    Steady post (Flows.deleteOutboxThrough cursor >>= k) c := by
  refine steady_outbox (fun d e d' hg => ?_) h
  cases hp : d.deleteOutboxThrough cursor with
  | error e' =>
    simp only [hp, Except.ok.injEq, Prod.mk.injEq] at hg
    rw [← hg.2]
  | ok c' =>
    simp only [hp, Except.ok.injEq, Prod.mk.injEq] at hg
    rw [← hg.2, deleteOutboxThrough_ok hp]

/-- The end of a flow. -/
theorem steady_return {b : β} : Steady Whatever (pure b) c := safe_pure fun _ _ _ => trivial

/-- A seal on the way: what was sealed. -/
theorem steady_sealSlot {conversation : Conversation B} {body : B} {now : Nat}
    {k : Slot B × Conversation B → DmFlow B β}
    (h : ∀ slot s, Steady post (k (slot, conversation.sealed s)) c) :
    Steady post (sealSlot C P conversation body now >>= k) c :=
  safe_quiet_bind (quiet_sealSlot _ _ _) fun ms ⟨slot, conversation'⟩ hx => by
    obtain ⟨drawn, -, hseal⟩ := sealSlot_ok hx
    obtain ⟨s, -, -, -, -, rfl⟩ := sealWith_ok hseal
    exact h slot s

/-! ## Sending, collecting, publishing -/

theorem steady_commitMessage {body : B} {now : Nat} :
    Steady Whatever (commitMessage C P body now) c := by
  refine steady_load fun d s _ hs sound => ?_
  refine safe_lift_bind fun _ _ => safe_lift_bind fun _ pending => ?_
  refine safe_lift_bind fun ring hring => safe_lift_bind fun ⟨seq, ring'⟩ hres => ?_
  obtain ⟨rfl, -⟩ := Ring.restore_ok (mapError_ok.1 hring)
  obtain ⟨-, rfl, room⟩ := Ring.reserve_ok (mapError_ok.1 hres)
  refine steady_sealSlot fun slot sl => ?_
  refine steady_persistOutbox fun d' hd' => ?_
  refine steady_tryUpdate fun e stored _ t _ _ soundStored hf => ?_
  obtain ⟨_, _, hf⟩ := bind_ok.1 hf
  obtain ⟨_, same, hf⟩ := bind_ok.1 hf
  simp only [pure, Except.pure, Except.ok.injEq, Prod.mk.injEq] at hf
  obtain ⟨-, rfl⟩ := hf
  obtain ⟨flag, published, rfl⟩ := unchanged_eq same
  exact ⟨soundStored.commits (s := sl) sound.sendSeq.symm sound.myCollected.symm (forceTurn s) room,
    .of_done (Nat.le_succ _) (Nat.le_refl _) (Bool.or_eq_false_iff.1 (refuseWhere_ok.1 pending)).2,
    fun _ _ _ => steady_return⟩

/-- A flow that keeps the record in order, then one that does from anywhere. -/
theorem Steady.bind {p : DmFlow B α} {k : α → DmFlow B β} (keeps : Keeps c)
    (h : Steady Whatever p c) (hk : ∀ a d, Steady post (k a) d) : Steady post (p >>= k) c :=
  Safe.bind Grows.refl keeps h fun a d _ _ => hk a d

theorem steady_sendMessage {body : B} {now : Nat} (keeps : Keeps c) :
    Steady Whatever (sendMessage C P body now) c :=
  steady_commitMessage.bind keeps fun _ _ =>
    safe_quiet_bind (quiet_writeChannel _ _ _) fun _ _ _ => steady_return

theorem steady_collectStep : Steady Whatever (collectStep C P) c := by
  refine steady_load fun d s _ hs sound => ?_
  refine safe_lift_bind fun _ _ => safe_lift_bind fun _ pending => ?_
  refine safe_lift_bind fun ring hring => ?_
  refine safe_quiet_bind (quiet_readChannel _ _) fun _ found _ => ?_
  cases found with
  | none => exact steady_return
  | some raw =>
    refine safe_lift_bind fun ⟨step, conversation, ring'⟩ hopen => ?_
    cases openRingSlot_ok hopen with
    | atEnd => exact steady_return
    | unopened subkey e => exact steady_return
    | message opened =>
      refine steady_tryUpdate fun e stored collected t _ _ soundStored hf => ?_
      obtain ⟨_, _, hf⟩ := bind_ok.1 hf
      obtain ⟨_, notPending, hf⟩ := bind_ok.1 hf
      obtain ⟨_, same, hf⟩ := bind_ok.1 hf
      obtain ⟨ring, hring, hf⟩ := bind_ok.1 hf
      obtain ⟨rfl, -⟩ := Ring.restore_ok (mapError_ok.1 hring)
      obtain ⟨⟨step', fresh, ring'⟩, hopen, hf⟩ := bind_ok.1 hf
      cases openRingSlot_ok hopen with
      | atEnd => cases hf
      | unopened subkey e => cases hf
      | message opened' =>
        simp only [pure, Except.pure, Except.ok.injEq, Prod.mk.injEq] at hf
        obtain ⟨-, rfl⟩ := hf
        refine ⟨soundStored.collects opened' (Ring.advance_sendSeq _ _)
          (soundStored.ringSound.advance _) _, ?_, ?_⟩
        · refine .of_done (Nat.le_refl _) ?_ (refuseWhere_ok.1 notPending)
          have := soundStored.myCollected.trans opened'.next
          simp only
          omega
        · exact fun _ _ _ => steady_deleteOutboxThrough fun _ _ _ => steady_return

theorem steady_publishCursor : Steady Whatever (publishCursor : DmFlow B Bool) c := by
  refine steady_load fun d s _ hs sound => ?_
  refine safe_lift_bind fun _ _ => safe_lift_bind fun _ _ => ?_
  split
  · exact steady_return
  · refine safe_lift_bind fun _ _ => safe_lift_bind fun _ _ => ?_
    refine safe_quiet_bind (quiet_writeChannel _ _ _) fun _ _ _ => ?_
    refine steady_update fun e stored he _ hstored soundStored => ⟨?_, ?_, fun _ _ _ =>
      steady_return⟩
    · have hcol := (he.later hs hstored).myCollected
      exact ⟨soundStored.sendSeq, soundStored.myCollected,
        Nat.max_le.2 ⟨soundStored.published, hcol⟩, soundStored.peer, soundStored.ring,
        soundStored.settled, soundStored.flags, soundStored.hello⟩
    · exact .of_same rfl rfl rfl ⟨_, rfl⟩

theorem steady_takePeerCursor {cursor : Nat} :
    Steady Whatever (takePeerCursor cursor : DmFlow B Unit) c := by
  refine Safe.bind_pure (steady_update fun d s _ _ _ sound => ⟨?_, .of_same rfl rfl rfl ⟨_, rfl⟩,
    fun _ _ _ => steady_return⟩)
  have := sound.peer
  have := sound.ring
  refine ⟨sound.sendSeq, sound.myCollected, sound.published, ?_, ?_, sound.settled, sound.flags,
    sound.hello⟩ <;> simp only <;> split <;> omega

theorem steady_reset : Steady Whatever (reset : DmFlow B Unit) c := by
  refine steady_loadAll fun d found hd => ?_
  cases found with
  | none => exact steady_return
  | some _ =>
    refine Safe.bind_pure (safe_attempt_bind Grows.refl fun e _ e' he hI _ hg => ?_)
    split at hg
    · cases hg
      exact ⟨hI, .refl e, steady_return⟩
    · cases hg
    · rename_i hu
      cases hg
      obtain ⟨s, -, hs, rfl⟩ := updateConv_ok hu
      exact ⟨keeps_of_sound ((hI s hs).same rfl),
        grows_of_later hs (.of_same rfl rfl rfl ⟨true, rfl⟩), steady_return⟩

theorem steady_markDeletePending : Steady Whatever (markDeletePending : DmFlow B Unit) c :=
  Safe.bind_pure <| steady_update fun _ _ _ _ _ sound =>
    ⟨sound.same rfl, .of_same rfl rfl rfl ⟨_, rfl⟩, fun _ _ _ => steady_return⟩

/-! ## First contact -/

theorem steady_outstandingZero {k : Option (Slot B) → DmFlow B β}
    (h : ∀ d x, Grows c d → Steady post (k x) d) : Steady post (outstandingZero >>= k) c :=
  Safe.bind_assoc <| steady_loadAll fun d _ hd => h d _ hd

theorem steady_placeLoop {pk key : B} {from_ : HelloSeal B} {awaiting : Bool} {tries : Nat}
    {attempt : HelloAttempt B} {k : HelloAttempt B → DmFlow B β}
    (h : ∀ d a, Grows c d → Steady post (k a) d) :
    Steady post (placeLoop C P pk key from_ awaiting tries attempt >>= k) c := by
  induction tries generalizing attempt c with
  | zero => exact fun never => nomatch never
  | succ tries ih =>
    refine Safe.bind_assoc <| steady_tryUpdate fun d s _ t _ hs sound hf => ?_
    obtain ⟨_, _, hf⟩ := bind_ok.1 hf
    simp only [pure, Except.pure, Except.ok.injEq, Prod.mk.injEq] at hf
    obtain ⟨-, rfl⟩ := hf
    refine ⟨⟨sound.sendSeq, sound.myCollected, sound.published, sound.peer, sound.ring,
      sound.settled, sound.flags, ?_⟩, .of_same rfl rfl rfl ⟨_, rfl⟩, fun d' hd' _ => ?_⟩
    · rintro hello ⟨⟩
      exact ⟨dropSlotFor_lt _ _ _, rfl⟩
    refine Safe.bind_assoc <| safe_quiet_bind (quiet_writeDropSlot _ _ _) fun _ _ _ => ?_
    refine Safe.bind_assoc <| safe_quiet_bind (quiet_readDropSlot _ _) fun _ found _ => ?_
    split
    · exact h d' _ hd'
    · refine Safe.bind_assoc <| safe_quiet_bind quiet_repick fun _ r _ => ?_
      refine Safe.bind_assoc <| safe_lift_bind fun _ _ => ?_
      exact ih fun e a he => h e a (hd'.trans he)

theorem steady_placeHello {pk key : B} {from_ : HelloSeal B} {attempt : HelloAttempt B}
    {k : HelloAttempt B → DmFlow B β} (h : ∀ d a, Grows c d → Steady post (k a) d) :
    Steady post (placeHello C P pk key from_ attempt >>= k) c :=
  Safe.bind_assoc <| steady_load fun _ _ hd _ _ =>
    steady_placeLoop fun e a he => h e a (hd.trans he)

theorem steady_finishFirstContact {s : ConvState B} :
    Steady Whatever (finishFirstContact C P s) c := by
  refine safe_lift_bind fun _ _ => safe_lift_bind fun _ _ => safe_lift_bind fun _ _ => ?_
  refine steady_outstandingZero fun d zero _ => ?_
  refine safe_lift_bind fun _ _ => safe_lift_bind fun _ _ => ?_
  refine safe_quiet_bind (quiet_writeAll _) fun _ _ _ => ?_
  refine safe_quiet_bind quiet_repick fun _ r _ => ?_
  exact steady_placeHello fun _ _ _ => steady_return

theorem steady_resumeFirstContact {k : Option Nat → DmFlow B β}
    (h : ∀ d x, Steady post (k x) d) : Steady post (resumeFirstContact >>= k) c := by
  refine Safe.bind_assoc <| steady_load fun d s _ _ _ => ?_
  refine Safe.bind_assoc <| safe_lift_bind fun _ _ => ?_
  cases s.outstandingHello with
  | none => exact h d none
  | some hello =>
    exact Safe.bind_assoc <| safe_quiet_bind (quiet_writeDropSlot _ _ _) fun _ _ _ => h d _

theorem steady_continueFirstContact : Steady Whatever (continueFirstContact C P) c := by
  refine steady_load fun d s _ _ _ => ?_
  refine safe_lift_bind fun _ _ => safe_lift_bind fun _ _ => ?_
  split
  · exact steady_resumeFirstContact fun _ _ => safe_lift_bind fun _ _ => steady_return
  · exact steady_finishFirstContact

theorem steady_firstContact {me : Me B} {pk body : B} {now : Nat} :
    Steady Whatever (firstContact C P me pk body now) c := by
  refine Safe.bind_assoc <| steady_loadAll fun d found _ => ?_
  change Steady Whatever (if _ then _ else _) d
  split
  · exact steady_continueFirstContact
  · refine safe_lift_bind fun _ _ => safe_quiet_bind (quiet_readAdvert _) fun _ _ _ => ?_
    refine safe_quiet_bind quiet_drawGeneration fun _ _ _ => ?_
    refine safe_quiet_bind (quiet_openChannel _) fun _ _ _ => ?_
    refine safe_quiet_bind (quiet_encapsulateTo _ _) fun _ _ _ => ?_
    refine safe_call_bind fun drawn => safe_lift_bind fun opened hopened => ?_
    refine safe_lift_bind fun ⟨seq, ring⟩ hres => ?_
    obtain ⟨-, rfl, -⟩ := Ring.reserve_ok (mapError_ok.1 hres)
    refine steady_sealSlot fun slot sl => steady_persistOutbox fun _ _ => ?_
    obtain ⟨keypair, rfl⟩ := initiate_ok (mapError_ok.1 hopened)
    refine steady_createConv (sound_contactRecord rfl rfl sl) fun _ _ _ => ?_
    exact steady_load fun _ _ _ _ _ => steady_finishFirstContact

theorem steady_refreshFirstContact {now : Nat} :
    Steady Whatever (refreshFirstContact C P now) c := by
  refine steady_load fun d s _ _ _ => ?_
  refine safe_lift_bind fun _ _ => safe_lift_bind fun _ _ => ?_
  refine safe_lift_bind fun _ _ => safe_lift_bind fun _ _ => ?_
  refine safe_quiet_bind (quiet_readAdvert _) fun _ _ _ => ?_
  split
  · refine safe_quiet_bind (quiet_encapsulateTo _ _) fun _ _ _ => ?_
    exact steady_placeHello fun _ _ _ => steady_return
  · exact steady_return

/-! ## Acceptance -/

theorem steady_alreadyEstablished {s : ConvState B} :
    Steady Whatever (alreadyEstablished s : DmFlow B α) c := by
  unfold alreadyEstablished
  split
  · exact steady_update fun _ _ _ _ _ sound => ⟨sound.same rfl, .of_same rfl rfl rfl ⟨_, rfl⟩,
      fun _ _ _ => safe_throw⟩
  · exact safe_throw

theorem steady_outgoingChannel {me : Me B} {s : ConvState B} {k : B → DmFlow B β}
    (h : ∀ d x, Grows c d → Steady post (k x) d) :
    Steady post (outgoingChannel P me s >>= k) c := by
  unfold outgoingChannel
  split
  · refine Safe.bind_assoc <| safe_quiet_bind (quiet_openChannel _) fun _ key _ => ?_
    exact Safe.bind_assoc <| steady_update fun _ _ _ _ _ sound =>
      ⟨sound.same rfl, .of_same rfl rfl rfl ⟨_, rfl⟩, fun d hd _ => h d key hd⟩
  · exact h c _ (.refl c)

theorem steady_mintAcceptance {me : Me B} {s : ConvState B} {key pk : B} {now : Nat}
    {k : Unit → DmFlow B β} (h : ∀ d, Grows c d → Steady post (k ()) d) :
    Steady post (mintAcceptance C P me s key pk now >>= k) c := by
  unfold mintAcceptance
  split
  · refine Safe.bind_assoc <| safe_quiet_bind (quiet_readAdvert _) fun _ _ _ => ?_
    refine Safe.bind_assoc <| safe_quiet_bind (quiet_encapsulateTo _ _) fun _ _ _ => ?_
    exact steady_update fun _ _ _ _ _ sound =>
      ⟨sound.same rfl, .of_same rfl rfl rfl ⟨_, rfl⟩, fun d hd _ => h d hd⟩
  · exact h c (.refl c)

theorem steady_writeHelloBack {s : ConvState B} {identity key : B} {serial : Nat}
    {offered : Option (HelloAttempt B)} {k : Nat × Nat → DmFlow B β}
    (h : ∀ d x, Grows c d → Steady post (k x) d) :
    Steady post (writeHelloBack C P s identity key serial offered >>= k) c := by
  unfold writeHelloBack
  cases s.outstandingHello with
  | some hello =>
    exact Safe.bind_assoc <| safe_quiet_bind (quiet_writeDropSlot _ _ _) fun _ _ _ =>
      h c _ (.refl c)
  | none =>
    refine Safe.bind_assoc <| safe_lift_bind fun from_ _ => Safe.bind_assoc ?_
    have place : ∀ first, Steady post ((placeHello C P identity key from_ first >>= fun attempt =>
        pure (attempt.slot C P, attempt.repicks)) >>= k) c := fun first =>
      Safe.bind_assoc <| steady_placeHello fun d _ hd => h d _ hd
    cases offered with
    | some attempt => exact place attempt
    | none =>
      exact Safe.bind_assoc <| safe_quiet_bind quiet_repick fun _ r _ => place (.new r)

/-- The end of an acceptance is recorded over the numbers it was loaded with,
since those stand while it is pending. -/
theorem steady_finishAccept {me : Me B} {rounds now : Nat} {slot : Option Nat} {s : ConvState B}
    {c₀ : Correspondence B} (hs : c₀.conv = some s) (sound : Sound s) (hc : Grows c₀ c) :
    Steady Whatever (finishAccept C P me rounds s slot now) c := by
  refine safe_lift_bind fun _ _ => safe_lift_bind fun _ _ => ?_
  refine safe_quiet_bind (quiet_readAcceptedOpening _ _ _ _ _ _) fun _ _ _ => ?_
  refine steady_outgoingChannel fun d key hd => steady_outstandingZero fun d₁ zero hd₁ => ?_
  refine safe_lift_bind fun _ _ => safe_lift_bind fun _ _ => safe_lift_bind fun _ _ => ?_
  refine steady_mintAcceptance fun d₂ hd₂ => safe_lift_bind fun ring hring => ?_
  obtain ⟨rfl, -⟩ := Ring.restore_ok (mapError_ok.1 hring)
  refine safe_quiet_bind (quiet_readRing _ _ _ _ _ _) fun ms ⟨read, reader, ring⟩ hread => ?_
  obtain ⟨new, -, on⟩ := readRing_ok hread
  have readTo := on.readTo
  refine steady_load fun d₃ current hd₃ _ _ => ?_
  refine safe_lift_bind fun _ _ => safe_lift_bind fun _ _ => ?_
  refine safe_quiet_bind (quiet_offerHelloBack _ _ _ _ _ _) fun _ _ _ => ?_
  refine safe_quiet_bind (quiet_writeAll _) fun _ _ _ => ?_
  refine steady_writeHelloBack fun d₄ x hd₄ => ?_
  refine steady_update fun e stored he pending hstored soundStored => ?_
  have later : Later s stored := (hc.trans <| hd.trans <| hd₁.trans <| hd₂.trans <| hd₃.trans <|
    hd₄.trans he).later hs hstored
  obtain ⟨-, sendSeq, myCollected, -⟩ := later.pending (pending _ _ _ _ rfl stored hstored)
  have within : max stored.peerCollected ring.peerCollected ≤ stored.sendSeq := by
    have := (readTo.sound sound.ringSound).le
    have := readTo.sendSeq
    have := soundStored.peer
    simp only at *
    omega
  refine ⟨soundStored.reads sound readTo sound.ringSound rfl sendSeq myCollected
    (Nat.le_max_right _ _) within _ stored.awaitingAcceptance soundStored.hello, .of_done (Nat.le_refl _) ?_ rfl,
    fun _ _ _ => steady_return⟩
  have := readTo.le
  change stored.myCollected ≤ read.collected
  omega

theorem steady_accept {me : Me B} {rounds now : Nat} {request : ContactRequest B} {reply : B} :
    Steady Whatever (accept C P me rounds request reply now) c := by
  refine Safe.bind_assoc <| steady_loadAll fun d found _ => ?_
  change Steady Whatever (if _ then _ else _) d
  split
  · refine steady_load fun d s _ hs sound => ?_
    refine safe_lift_bind fun _ _ => safe_lift_bind fun _ _ => ?_
    split
    · exact steady_alreadyEstablished
    · exact steady_finishAccept hs sound (.refl d)
  · refine safe_lift_bind fun _ _ => safe_quiet_bind (quiet_openChannel _) fun _ _ _ => ?_
    refine safe_lift_bind fun ⟨seq, ring⟩ hres => ?_
    obtain ⟨-, rfl, -⟩ := Ring.reserve_ok (mapError_ok.1 hres)
    refine steady_sealSlot fun slot sl => steady_persistOutbox fun _ _ => ?_
    refine steady_createConv (sound_acceptanceRecord sl) fun _ _ _ => ?_
    exact steady_load fun d s _ hs sound => steady_finishAccept hs sound (.refl d)

theorem steady_continueAcceptance {me : Me B} {rounds now : Nat} :
    Steady Whatever (continueAcceptance C P me rounds now) c := by
  refine steady_load fun d s _ hs sound => ?_
  refine safe_lift_bind fun _ _ => ?_
  split
  · exact steady_alreadyEstablished
  · exact steady_finishAccept hs sound (.refl d)

/-! ## Recognition -/

theorem steady_recogniseAcceptance {me : Me B} {rounds cursor slot : Nat} {key secret : B} :
    Steady Whatever (recogniseAcceptance C P me rounds key cursor secret slot) c := by
  refine steady_load fun d s _ hs sound => ?_
  refine safe_lift_bind fun _ awaiting => ?_
  have awaiting : s.awaitingAcceptance = true := by simpa using awaiting
  have notPending : s.acceptancePending = false := by
    have := sound.flags
    simp_all
  refine steady_tryUpdate fun e stored asLoaded t _ _ soundStored hf => ?_
  obtain ⟨_, _, hf⟩ := bind_ok.1 hf
  obtain ⟨_, same, hf⟩ := bind_ok.1 hf
  simp only [pure, Except.pure, Except.ok.injEq, Prod.mk.injEq] at hf
  obtain ⟨rfl, rfl⟩ := hf
  obtain ⟨flag, published, rfl⟩ := unchanged_eq same
  refine ⟨soundStored.same rfl, .of_same rfl rfl rfl ⟨_, rfl⟩, fun _ _ _ => ?_⟩
  refine safe_lift_bind fun ring hring => ?_
  obtain ⟨rfl, -⟩ := Ring.restore_ok (mapError_ok.1 hring)
  refine safe_quiet_bind (quiet_readRing _ _ _ _ _ _) fun ms ⟨read, reader, ring⟩ hread => ?_
  obtain ⟨new, -, on⟩ := readRing_ok hread
  have readTo := on.readTo
  refine steady_tryUpdate fun e stored' _ t _ _ soundStored' hf => ?_
  obtain ⟨_, _, hf⟩ := bind_ok.1 hf
  obtain ⟨_, same, hf⟩ := bind_ok.1 hf
  simp only [pure, Except.pure, Except.ok.injEq, Prod.mk.injEq] at hf
  obtain ⟨-, rfl⟩ := hf
  obtain ⟨flag', published', rfl⟩ := unchanged_eq same
  have start : (Ring.advancePeerCollected ⟨s.sendSeq, s.peerCollected⟩ cursor).Sound :=
    sound.ringSound.advance _
  have startSent := Ring.advance_sendSeq ⟨s.sendSeq, s.peerCollected⟩ cursor
  have within : ring.peerCollected ≤ s.sendSeq := by
    have := (readTo.sound start).le
    have := readTo.sendSeq.trans startSent
    simp only at this
    omega
  have reads := soundStored'.reads sound readTo start startSent rfl rfl (Nat.le_refl _) within
    (forceTurn s) false fun (_ : OutstandingHello B) (h : none = some _) => by cases h
  refine ⟨reads.same ?_, .of_done (Nat.le_refl _) readTo.le notPending, fun _ _ _ => ?_⟩
  · simp only [numbers, setLeftOut, setForceTurn, writeConversation, notPending]
  · exact safe_quiet_bind (quiet_eraseDropSlot _ _) fun _ _ _ => steady_return

/-! ## Every call -/

/-- The one thing a call returns beside its flow's own value. -/
theorem Steady.returns {p : DmFlow B α} {k : α → β} (keeps : Keeps c) (h : Steady Whatever p c) :
    Steady Whatever (p >>= fun a => pure (k a)) c := h.bind keeps fun _ _ => steady_return

theorem steady_call {me : Me B} {rounds : Nat} (call : Call B) (keeps : Keeps c) :
    Steady Whatever (call.flow C P me rounds) c := by
  cases call with
  | firstContact => exact steady_firstContact.returns keeps
  | continueFirstContact => exact steady_continueFirstContact.returns keeps
  | resumeFirstContact => exact steady_resumeFirstContact fun _ _ => steady_return
  | refreshFirstContact => exact steady_refreshFirstContact.returns keeps
  | accept => exact steady_accept.returns keeps
  | continueAcceptance => exact steady_continueAcceptance.returns keeps
  | recogniseAcceptance => exact steady_recogniseAcceptance.returns keeps
  | commitMessage => exact steady_commitMessage.returns keeps
  | sendMessage => exact (steady_sendMessage keeps).returns keeps
  | collectStep => exact steady_collectStep.returns keeps
  | publishCursor => exact steady_publishCursor.returns keeps
  | takePeerCursor => exact steady_takePeerCursor.bind keeps fun _ _ => steady_return
  | deleteOutboxThrough => exact steady_deleteOutboxThrough fun _ _ _ => steady_return
  | reset => exact steady_reset.bind keeps fun _ _ => steady_return
  | markDeletePending => exact steady_markDeletePending.bind keeps fun _ _ => steady_return

/-! ## Every run -/

variable {ι : Type}

/-- Calls on one correspondence keep its record in order together. -/
theorem calls_cooperate {me : Me B} {rounds : ι → Nat} (calls : ι → Call B) :
    Cooperates Keeps (fun _ => Grows) (fun _ => Grows) (fun _ => Whatever)
      (fun i => (calls i).flow C P me (rounds i)) FinishesPending where
  refl _ := Grows.refl
  trans _ _ _ _ := Grows.trans
  meets _ _ _ _ _ _ _ h := h
  begins i _ keeps := steady_call (calls i) keeps

variable [DecidableEq ι]

/-- **The record invariant**: whatever calls run on a correspondence, in any
order of their sections and with stops anywhere, its record is in order and
decodes, as long as an acceptance is recorded as over while it is pending. -/
theorem record_in_order {me : Me B} {rounds : ι → Nat} {calls : ι → Call B}
    {start now : Pool ι (Correspondence B) (Query B) Reply FlowError (Outcome B)}
    {es : List (Event ι (Correspondence B) (Query B) Reply)} (idle : Idle start)
    (fresh : start.state.conv = none)
    (run : Trail (Steps (fun i => (calls i).flow C P me (rounds i)) FinishesPending) start es now) :
    ∀ s, now.state.conv = some s → Sound s ∧ decodeConv s = .ok s := by
  have kept := run_kept (calls_cooperate calls) idle (fun s hs => by simp [fresh] at hs) run
  exact fun s hs => ⟨kept.state s hs, (kept.state s hs).decodes⟩

/-! ## Two calls that carry on one acceptance -/

def here : Me Term := ⟨.rand 100, .rand 101⟩

def there : Term := symbolicPlatform.publicKey (.rand 200)

def thereRequest : ContactRequest Term where
  identity := there
  lookupKey := .data 1
  firstRatchetPk := .ek (.rand 1) (.rand 2)
  slot := 0
  advertSerial := 3
  sharedSecret := .rand 5
  generation := 7

def thereAdvert : Advert Term where
  serial := 4
  notBefore := 0
  kemPk := .ek (.rand 3) (.rand 4)
  signature := symbolicPlatform.sign (.rand 200)
    (advertSigningInput symbolic there 4 0 (.ek (.rand 3) (.rand 4)))

def thereControl : Wire Term := .control (controlKey symbolic (.rand 5))
  { opening := some (ChannelOpening.build symbolic symbolicPlatform (.rand 200)
      (symbolicPlatform.publicKey here.signer) (.data 1) (.ek (.rand 1) (.rand 2)) 3)
    collectedCursor := 0, closed := false, generation := 7 }

/-- A network on which every write lands, where the correspondent has
published its advert and its opening and nothing more. -/
def answers : (q : Query Term) → Option (Reply q)
  | .fill => some (some (.rand 20) : Option Term)
  | .generation => some (some 7 : Option Nat)
  | .entropy => some (([some (.rand 11), some (.rand 12), some (.rand 13)], some (.data 14)) :
      List (Option Term) × Option Term)
  | .readAdvert _ =>
    some (.ok (some (.advert thereAdvert)) : Except RecordError (Option (Wire Term)))
  | .readDropSlot _ _ => some (.ok none : Except RecordError (Option (Wire Term)))
  | .readChannel _ subkey =>
    some (.ok (if subkey = controlSubkey then some thereControl else none) :
      Except RecordError (Option (Wire Term)))
  | .openChannel _ => some (.ok (.data 2) : Except RecordError Term)
  | .writeDropSlot _ _ _ | .eraseDropSlot _ _ | .writeChannel _ _ _ =>
    some (.ok () : Except RecordError Unit)
  | .writeBatch writes => some (writes.map fun _ => .ok () : List (Except RecordError Unit))
  | .offerAcceptance _ => some ()
  | .halt => none

/-- An acceptance, two calls that carry it on, and a message. -/
def acceptedTwice : Fin 4 → Call Term
  | 0 => .accept thereRequest (.data 30) 0
  | 1 | 2 => .continueAcceptance 0
  | 3 => .commitMessage (.data 31) 0

def acceptedTwiceFlow (i : Fin 4) : DmFlow Term (Outcome Term) :=
  (acceptedTwice i).flow symbolic symbolicPlatform here 1

/-- Nothing on disk, and no call begun. -/
def unborn : Pool (Fin 4) (Correspondence Term) (Query Term) Reply FlowError (Outcome Term) :=
  ⟨⟨none, fun _ => none⟩, fun _ => .unborn⟩

theorem record_in_order_accepted :
    ∃ s, (unborn.play acceptedTwiceFlow answers (List.replicate 6 0)).state.conv = some s ∧
      Sound s ∧ decodeConv s = .ok s := by
  have empty : ∀ n < 6, (unborn.play acceptedTwiceFlow answers
      ((List.replicate 6 0).take n)).state.conv = none := by decide +kernel
  obtain ⟨es, run⟩ : ∃ es, Trail (Steps acceptedTwiceFlow FinishesPending) unborn es
      (unborn.play acceptedTwiceFlow answers (List.replicate 6 0)) :=
    play_trail answers unborn (List.replicate 6 0) fun n hn f _ _ _ _ _ s hs =>
      absurd (hs.symm.trans (empty n hn)) (by simp)
  have created : (unborn.play acceptedTwiceFlow answers
      (List.replicate 6 0)).state.conv.isSome := by decide +kernel
  obtain ⟨s, hs⟩ := Option.isSome_iff_exists.1 created
  exact ⟨s, hs, record_in_order (fun _ => rfl) rfl run s hs⟩

/-- The acceptance stops after its hello back is persisted; two calls carry it
on up to their last write; the first ends it, a message is committed, and the
second writes the schedule it loaded over the message's. -/
def overwritten : List (Fin 4) :=
  List.replicate 19 0 ++ List.replicate 8 1 ++ List.replicate 8 2 ++ [1] ++ List.replicate 5 3 ++
    [2]

theorem acceptance_ended_twice :
    ∃ es now, Trail (Steps acceptedTwiceFlow fun _ _ => True) unborn es now ∧
      ∃ s, now.state.conv = some s ∧ s.sendSeq ≠ s.conversation.sending.seq := by
  obtain ⟨es, run⟩ : ∃ es, Trail (Steps acceptedTwiceFlow fun _ _ => True) unborn es
      (unborn.play acceptedTwiceFlow answers overwritten) :=
    play_trail answers unborn overwritten fun _ _ _ => trivial
  have numbers : (unborn.play acceptedTwiceFlow answers overwritten).state.conv.map
      (fun s => (s.sendSeq, s.conversation.sending.seq)) = some (2, 1) := by decide +kernel
  obtain ⟨s, hs, h⟩ := Option.map_eq_some_iff.1 numbers
  simp only [Prod.mk.injEq] at h
  exact ⟨es, _, run, s, hs, by omega⟩

end Daemonseed.Dm.RecordInvariant
