import Daemonseed.Gui.DmKept

/-! # Messages and their sequences

Whatever the user does and the runner reports, a thread is drawn with each message once
and in order, as long as no step ties a composed message to a sequence it was not
committed under. -/
namespace Daemonseed.Gui.DmTies
open Daemonseed.Lib.Maps Daemonseed.Dm.Thread Daemonseed.Dm.Threads Daemonseed.Dm.Reports
open Daemonseed.Gui.DirectMessages Daemonseed.Gui.DmDrawn Daemonseed.Gui.DmKept
open Daemonseed.Dm.View hiding Input step run

variable {I L : Type} [DecidableEq I] [DecidableEq L]

/-! ## What a step may be -/

/-- What a runner gives: a command is answered while it waits, under the label of whom it is
addressed to, and a roster's labels are of those it names. -/
def Given (runner : Runner I L) (dm : GuiDm I L) : Input I L → Prop
  | .event (.sent token label _ _) _ => ∃ command, dm.state.outstanding.lookup token = some command ∧
      runner.names label = addressee command
  | .event (.refused (some token) _) _ => (dm.state.outstanding.lookup token).isSome = true
  | .event (.roster rows) _ => ∀ row ∈ rows, runner.names row.peer = row.peerIdentityPk
  | _ => True

/-- The message of a report is held, and was committed under the sequence that is reported; and so
is the first contact that a roster takes up. -/
def Held (runner : Runner I L) (dm : GuiDm I L) : RunnerEvent I L → Prop
  | .sent token label seq _ => runner.committed (runner.names label) token = some seq ∧
      ∃ m ∈ dm.messages (runner.names label), m.token = token
  | .roster rows => ∀ row ∈ rows, dm.conversation row.peerIdentityPk = none → ∀ body reason,
      dm.state.refusedFirstContacts.lookup row.peerIdentityPk = some (body, reason) →
        ∃ m ∈ dm.messages row.peerIdentityPk, m.firstContact = true ∧ m.lost = true ∧ m.body = body
  | _ => True

/-- Each refused first contact that is taken for message 0 is the one committed as it. -/
def AdoptsOwn (runner : Runner I L) (dm : GuiDm I L) : Prop :=
  ∀ peer, ∀ m ∈ dm.messages peer, dm.adopts peer m = true → runner.committed peer m.token = some 0

/-- Each refused reply that is taken for the one that opened the conversation is it. -/
def OpensOwn (runner : Runner I L) (dm : GuiDm I L) : Prop :=
  ∀ peer, ∀ m ∈ dm.messages peer, dm.opened peer m = true → runner.committed peer m.token = some 0

/-- No step ties a message to a sequence that is not its own, and no token is given again. -/
def Rightly (runner : Runner I L) (dm : GuiDm I L) : Input I L → Prop
  | .event event nowMs => Held runner dm event ∧ AdoptsOwn runner (dm.told event nowMs) ∧
      OpensOwn runner (dm.told event nowMs).adoptRefusedFirstContacts
  | .sendDm _ _ => dm.state.lastToken + 1 < 2 ^ 64
  | .acceptDmRequest _ => dm.state.lastToken + 1 < 2 ^ 64
  | _ => True

/-- What an input reports collected. -/
def Reports (names : L → I) : Input I L → I → Nat → Prop
  | .event (.delivered label through) _, peer, n => names label = peer ∧ n ≤ through
  | .event (.roster rows) _, peer, n =>
    ∃ row ∈ rows, row.peerIdentityPk = peer ∧ n < row.peerCollected
  | _, _, _ => False

/-- Every input is as `P` has it, where it comes. -/
def Every (P : GuiDm I L → Input I L → Prop) : GuiDm I L → List (Input I L) → Prop
  | _, [] => True
  | dm, input :: inputs => P dm input ∧ Every P (step dm input) inputs

variable {runner : Runner I L} {R : I → Nat → Prop} {dm dm' : GuiDm I L} {peer : I}
  {event : RunnerEvent I L} {nowMs : Int}

/-! ## Steps that leave the messages -/

theorem messages_reconcile (dm : GuiDm I L) (peer : I) :
    dm.reconcile.messages peer = dm.messages peer ∨
      dm.reconcile.messages peer = [] ∧ dm.conversation peer = none := by
  unfold GuiDm.messages GuiDm.reconcile
  dsimp only
  rw [Map.lookup_retain]
  cases dm.composed.lookup peer with
  | none => exact .inl rfl
  | some messages =>
    rw [Option.filter_some]
    split <;> rename_i keeps
    · exact .inl rfl
    · refine .inr ⟨rfl, ?_⟩
      simp only [Bool.or_eq_true, not_or] at keeps
      exact Option.not_isSome_iff_eq_none.1 keeps.1.1

theorem kept_reconcile (h : Kept runner R dm) : Kept runner R dm.reconcile := by
  refine h.dropped rfl fun peer => ?_
  obtain same | ⟨empty, -⟩ := messages_reconcile dm peer
  · rw [same]
  · rw [empty]
    exact List.nil_sublist _

theorem stood_reconcile (h : Stood dm) : Stood dm.reconcile := by
  intro peer row mem out
  obtain same | ⟨-, gone⟩ := messages_reconcile dm peer
  · rw [same]
    exact h peer row mem out
  · have empty : threadOf dm.state peer = [] := by
      rw [← thread_eq, GuiDm.thread, gone]
      rfl
    have held : row ∈ threadOf dm.state peer := mem
    rw [empty] at held
    cases held

/-! ## Reports -/

/-- A fold keeps what the composed messages keep to. -/
theorem kept_fold (h : Kept runner R dm) (given : Given runner dm (.event event nowMs))
    (reports : ∀ peer n, Reports runner.names (.event event nowMs) peer n → R peer n) :
    Kept runner R { dm with state := (dm.state.fold nowMs event).1 } := by
  refine h.folded (fun _ => rfl) (h.reached.step (.event event nowMs)) (h.faithful.fold nowMs ?_)
    (waits_fold dm.state nowMs event)
  cases event with
  | roster rows => exact fun row mem => ⟨given row mem, fun n le => reports _ n ⟨row, mem, rfl, le⟩⟩
  | delivered label through => exact fun n le => reports _ n ⟨rfl, le⟩
  | sent token label seq sentAt =>
    intro pk about
    obtain ⟨command, waits, named⟩ := given
    rw [answer_identity waits] at about
    exact named.trans (Option.some.inj about)
  | contactRequest => trivial
  | startedOver => trivial
  | requestPreview => trivial
  | message => trivial
  | deleted => trivial
  | accepted => trivial
  | refused => trivial
  | health => trivial
  | advert => trivial
  | blockList => trivial
  | blockListUnreadable => trivial

theorem replyRefused_same (dm : GuiDm I L) (token : Nat) :
    (dm.replyRefused token).composed = dm.composed ∧ (dm.replyRefused token).state = dm.state := by
  unfold GuiDm.replyRefused
  cases dm.peerOf token with
  | none => exact ⟨rfl, rfl⟩
  | some peer =>
    rw [Option.elim_some]
    dsimp only
    split
    · exact ⟨rfl, rfl⟩
    · exact ⟨rfl, rfl⟩

/-- What an event says of the messages keeps them, once it is folded. -/
theorem kept_answered (h : Kept runner R dm) (given : Given runner dm (.event event nowMs))
    (held : Held runner dm event)
    (folded : Kept runner R { dm with state := (dm.state.fold nowMs event).1 }) :
    Kept runner R (GuiDm.answered { dm with state := (dm.state.fold nowMs event).1 } event) := by
  cases event with
  | sent token label seq sentAt =>
    obtain ⟨committed, -⟩ := held
    obtain ⟨command, waits, named⟩ := given
    refine folded.composedMut (fun _ => rfl) (fun peer m mem same => ⟨?_, fun accept => ?_⟩) ?_
    · rintro n ⟨⟩
      have person := ((h.waiting token command waits).2 peer m mem same).1
      rw [person, ← named]
      exact same ▸ committed
    · exact ⟨((h.fair peer m mem).reply accept).1, nofun⟩
    · intro waits
      rw [show (dm.state.fold nowMs (.sent token label seq sentAt)).1.outstanding.lookup token = none
        from sent_answered] at waits
      cases waits
  | refused token reason =>
    cases token with
    | none =>
      have reached := folded.reached
      refine folded.folded (fun _ => rfl) ?_ (folded.faithful.same rfl rfl) (.same rfl rfl)
      exact ⟨⟨reached.sound.unmapped, reached.sound.previews⟩, reached.ordered⟩
    | some token =>
      obtain ⟨command, waits⟩ := Option.isSome_iff_exists.1 given
      obtain ⟨composed, state⟩ := replyRefused_same
        (GuiDm.composedMut { dm with state := (dm.state.fold nowMs (.refused (some token) reason)).1 }
          token ({ · with refusal := some reason })) token
      refine Kept.congr ?_ composed state
      refine folded.composedMut (fun _ => rfl) (fun peer m mem same => ⟨?_, fun accept => ?_⟩) ?_
      · exact (h.fair peer m mem).tied
      · refine ⟨((h.fair peer m mem).reply accept).1, fun _ => ?_⟩
        have pending := ((h.waiting token command waits).2 peer m mem same).2
        exact Option.isNone_iff_eq_none.1 (Bool.and_eq_true_iff.1 pending).1
      · intro waits
        rw [show (dm.state.fold nowMs (.refused (some token) reason)).1.outstanding.lookup token = none
          from refused_answered] at waits
        cases waits
  | blockList listed => exact folded.congr rfl rfl
  | roster => exact folded
  | contactRequest => exact folded
  | startedOver => exact folded
  | requestPreview => exact folded
  | message => exact folded
  | deleted => exact folded
  | delivered => exact folded
  | accepted => exact folded
  | health => exact folded
  | advert => exact folded
  | blockListUnreadable => exact folded

theorem told_same (dm : GuiDm I L) (event : RunnerEvent I L) (nowMs : Int) :
    (dm.told event nowMs).composed =
        (GuiDm.answered { dm with state := (dm.state.fold nowMs event).1 } event).composed ∧
      (dm.told event nowMs).state =
        (GuiDm.answered { dm with state := (dm.state.fold nowMs event).1 } event).state := by
  unfold GuiDm.told
  dsimp only
  cases (dm.state.fold nowMs event).2.refusedAccept with
  | none => exact ⟨rfl, rfl⟩
  | some told => exact ⟨rfl, rfl⟩

theorem kept_told (h : Kept runner R dm) (given : Given runner dm (.event event nowMs))
    (held : Held runner dm event)
    (reports : ∀ peer n, Reports runner.names (.event event nowMs) peer n → R peer n) :
    Kept runner R (dm.told event nowMs) :=
  (kept_answered h given held (kept_fold h given reports)).congr (told_same dm event nowMs).1
    (told_same dm event nowMs).2

/-- The threads are those of the fold. -/
theorem thread_told (dm : GuiDm I L) (event : RunnerEvent I L) (nowMs : Int) (peer : I) :
    threadOf (dm.told event nowMs).state peer = threadOf (dm.state.fold nowMs event).1 peer := by
  rw [(told_same dm event nowMs).2]
  unfold GuiDm.answered
  split
  · rw [state_composedMut]
  · rw [(replyRefused_same _ _).2, state_composedMut]
  · rfl
  · rfl
  · rfl

/-- A sequence that is known stays known. -/
theorem seq_told (h : Kept runner R dm) (given : Given runner dm (.event event nowMs))
    {m : Composed} {n : Nat} (mem : m ∈ dm.messages peer) (seq : m.seq = some n) :
    ∃ m ∈ (dm.told event nowMs).messages peer, m.seq = some n := by
  rw [messages_congr (told_same dm event nowMs).1]
  unfold GuiDm.answered
  split
  · rename_i token label seq' sentAt
    obtain ⟨command, waits, -⟩ := given
    obtain mem' | ⟨same, -⟩ := composedMut_mem
      { dm with state := (dm.state.fold nowMs (.sent token label seq' sentAt)).1 } token
      ({ · with seq := some seq', refusal := none, sentAtMs := some sentAt }) mem
    · exact ⟨m, mem', seq⟩
    · have pending := ((h.waiting token command waits).2 peer m mem same).2
      rw [Composed.pending, seq] at pending
      cases pending
  · rename_i token reason
    rw [messages_congr (replyRefused_same _ _).1]
    obtain mem' | ⟨-, mem'⟩ := composedMut_mem
      { dm with state := (dm.state.fold nowMs (.refused (some token) reason)).1 } token
      ({ · with refusal := some reason }) mem
    · exact ⟨m, mem', seq⟩
    · exact ⟨_, mem', seq⟩
  · exact ⟨m, mem, seq⟩
  · exact ⟨m, mem, seq⟩
  · exact ⟨m, mem, seq⟩

/-- A row of this side's has its message, or is the first contact that is taken up. -/
theorem owed_told (h : Kept runner R dm) (stood : Stood dm)
    (given : Given runner dm (.event event nowMs)) (held : Held runner dm event)
    {row : DmThreadRow} (mem : row ∈ threadOf (dm.told event nowMs).state peer)
    (out : row.outgoing = true) :
    (∃ m ∈ (dm.told event nowMs).messages peer, m.seq = some row.seq) ∨
      row.seq = 0 ∧ ∃ m ∈ (dm.told event nowMs).messages peer,
        (dm.told event nowMs).adopts peer m = true := by
  have mem' := mem
  rw [thread_told] at mem'
  cases own_rows h.reached.sound nowMs mem' out with
  | kept old held same =>
    obtain ⟨out', seq'⟩ := Prod.mk.inj same
    obtain ⟨m, mem, seq⟩ := List.mem_filterMap.1 (stood peer old held (out'.trans out))
    exact .inl (seq_told h given mem (seq.trans (congrArg some seq')))
  | reported token label sentAt tells about =>
    subst tells
    obtain ⟨-, m, mem, same⟩ := held
    obtain ⟨command, waits, named⟩ := given
    rw [answer_identity waits] at about
    have person : runner.names label = peer := named.trans (Option.some.inj about)
    rw [person] at mem
    have given : Given runner dm (.event (.sent token label row.seq sentAt) nowMs) :=
      ⟨command, waits, named⟩
    have anyhow : Kept runner (fun _ _ => True) dm :=
      h.folded (fun _ => rfl) h.reached (h.faithful.mono fun _ _ _ => trivial) (.same rfl rfl)
    have fold := kept_fold anyhow given fun _ _ _ => trivial
    rw [messages_congr (told_same dm _ nowMs).1]
    exact .inl (composedMut_seq fold mem same fun _ => rfl)
  | adopted rows body reason time tells named absent refused same =>
    subst tells
    obtain ⟨told, listed, rfl⟩ := List.mem_map.1 named
    have gone : dm.conversation told.peerIdentityPk = none := Option.not_isSome_iff_eq_none.1 absent
    obtain ⟨m, composed, first, lost, rfl⟩ := held told listed gone body reason refused
    subst same
    have is : GuiDm.holdsFirst m.body (.sent 0 (some m.body) time) = true := decide_eq_true rfl
    refine .inr ⟨rfl, m, ?_, ?_⟩
    · rw [messages_congr (told_same dm _ nowMs).1]
      exact composed
    · rw [GuiDm.adopts, first, lost, thread_eq]
      exact List.any_eq_true.2 ⟨_, mem, is⟩

/-! ## Guesses -/

/-- Each message is changed on its own. -/
theorem kept_map (h : Kept runner R dm) {g : I → Composed → Composed} (state : dm'.state = dm.state)
    (messages : ∀ peer, dm'.messages peer = (dm.messages peer).map (g peer))
    (token : ∀ peer, ∀ m ∈ dm.messages peer, (g peer m).token = m.token)
    (fair : ∀ peer, ∀ m ∈ dm.messages peer, Fair runner peer (g peer m))
    (pending : ∀ peer, ∀ m ∈ dm.messages peer,
      (dm.state.outstanding.lookup m.token).isSome = true → (g peer m).pending = true) :
    Kept runner R dm' := by
  refine h.changed state (fun peer => ?_) (fun peer m mem => ?_) fun peer m mem waits => ?_
  · rw [messages, List.map_map]
    exact List.map_congr_left fun m mem => token peer m mem
  · rw [messages] at mem
    obtain ⟨old, held, rfl⟩ := List.mem_map.1 mem
    exact fair peer old held
  · rw [messages] at mem
    obtain ⟨old, held, rfl⟩ := List.mem_map.1 mem
    rw [token peer old held] at waits
    exact pending peer old held waits

theorem stood_map (h : Stood dm) {g : I → Composed → Composed} (state : dm'.state = dm.state)
    (messages : ∀ peer, dm'.messages peer = (dm.messages peer).map (g peer))
    (seq : ∀ peer, ∀ m ∈ dm.messages peer, m.seq.isSome = true → (g peer m).seq = m.seq) :
    Stood dm' := by
  refine h.of (fun peer => by rw [state]) fun peer m mem n known => ?_
  refine ⟨g peer m, by rw [messages]; exact List.mem_map_of_mem mem, ?_⟩
  rw [seq peer m mem (by rw [known]; rfl), known]

/-- What waits for its answer is pending. -/
theorem pending_of_waits (h : Kept runner R dm) {m : Composed} (mem : m ∈ dm.messages peer)
    (waits : (dm.state.outstanding.lookup m.token).isSome = true) : m.pending = true := by
  obtain ⟨command, waiting⟩ := Option.isSome_iff_exists.1 waits
  exact ((h.waiting _ command waiting).2 peer m mem rfl).2

theorem not_lost {m : Composed} (pending : m.pending = true) : m.lost = false := by
  obtain ⟨seq, refusal⟩ := Bool.and_eq_true_iff.1 pending
  rw [Composed.lost, Option.isNone_iff_eq_none.1 refusal, Option.isSome_none, Bool.and_false]

theorem messages_adopt (dm : GuiDm I L) (peer : I) :
    dm.adoptRefusedFirstContacts.messages peer = (dm.messages peer).map fun m =>
      if dm.adopts peer m then { m with seq := some 0 } else m :=
  messages_each dm dm.adoptRefusedFirstContacts
    (fun peer messages =>
      messages.map fun m => if dm.adopts peer m then { m with seq := some 0 } else m)
    (fun _ => rfl) rfl peer

theorem kept_adopt (h : Kept runner R dm) (own : AdoptsOwn runner dm) :
    Kept runner R dm.adoptRefusedFirstContacts := by
  refine kept_map h rfl (messages_adopt dm) (fun peer m mem => ?_) (fun peer m mem => ?_)
    fun peer m mem waits => ?_
  · split
    · rfl
    · rfl
  · split <;> rename_i adopts
    · refine ⟨?_, fun accept => ?_⟩
      · rintro n ⟨⟩
        exact own peer m mem adopts
      · have contact := ((h.fair peer m mem).reply accept).1
        rw [GuiDm.adopts, contact] at adopts
        cases adopts
    · exact h.fair peer m mem
  · have pending := pending_of_waits h mem waits
    rw [if_neg]
    · exact pending
    · rw [GuiDm.adopts, not_lost pending, Bool.and_false]
      exact Bool.false_ne_true

/-- The first contact that is taken up stands for its row. -/
theorem stood_adopt (owed : ∀ peer, ∀ row ∈ threadOf dm.state peer, row.outgoing = true →
      (∃ m ∈ dm.messages peer, m.seq = some row.seq) ∨
        row.seq = 0 ∧ ∃ m ∈ dm.messages peer, dm.adopts peer m = true) :
    Stood dm.adoptRefusedFirstContacts := by
  intro peer row mem out
  have changed : ∀ m ∈ dm.messages peer,
      (if dm.adopts peer m then { m with seq := some 0 } else m) ∈
        dm.adoptRefusedFirstContacts.messages peer := by
    intro m mem
    rw [messages_adopt]
    exact List.mem_map_of_mem mem
  obtain ⟨m, held, seq⟩ | ⟨zero, m, held, adopts⟩ := owed peer row mem out
  · refine List.mem_filterMap.2 ⟨_, changed m held, ?_⟩
    rw [if_neg, seq]
    rw [GuiDm.adopts, Composed.lost, seq]
    simp
  · refine List.mem_filterMap.2 ⟨_, changed m held, ?_⟩
    rw [if_pos adopts, zero]

/-- A reply, tied where it opened the conversation. -/
def settled (dm : GuiDm I L) (peer : I) (m : Composed) : Composed :=
  if dm.opened peer m then { m with seq := some 0, refusal := none } else m

/-- The replies are settled, and placed. -/
theorem messages_settle (dm : GuiDm I L) (peer : I) :
    ∃ after : Composed → Nat, dm.settleAcceptReplies.messages peer =
      (dm.messages peer).map fun m => { settled dm peer m with after := after (settled dm peer m) } := by
  have each := messages_each dm dm.settleAcceptReplies fun peer messages =>
    (dm.conversation peer).elim messages fun c =>
      GuiDm.placeReplies c (messages.map (settled dm peer))
  rw [each (fun peer => ?_) rfl]
  · cases found : dm.conversation peer with
    | none =>
      have shut : ∀ m, settled dm peer m = m := by
        intro m
        rw [settled, GuiDm.opened, found]
        rfl
      refine ⟨(·.after), ?_⟩
      rw [Option.elim_none]
      exact (List.map_id'' (fun m => by simp [shut]) _).symm
    | some c =>
      rw [Option.elim_some]
      unfold GuiDm.placeReplies
      split
      · dsimp only
        generalize foreignRows c.thread _ = after
        refine ⟨fun m => if GuiDm.uncollected c m then after else m.after, ?_⟩
        rw [List.map_map]
        refine List.map_congr_left fun m _ => ?_
        dsimp only [Function.comp]
        split
        · rfl
        · rfl
      · exact ⟨(·.after), rfl⟩
  · cases dm.conversation peer with
    | none => rfl
    | some c => rfl

theorem settled_lost {m : Composed} (waits : m.lost = false) : settled dm peer m = m := by
  rw [settled, GuiDm.opened, waits, Bool.and_false]
  exact if_neg Bool.false_ne_true

theorem kept_settle (h : Kept runner R dm) (own : OpensOwn runner dm) :
    Kept runner R dm.settleAcceptReplies := by
  choose after messages using messages_settle dm
  refine kept_map h rfl messages (fun peer m mem => ?_) (fun peer m mem => ?_)
    fun peer m mem waits => ?_
  · dsimp only [settled]
    split
    · rfl
    · rfl
  · have fair : Fair runner peer (settled dm peer m) := by
      unfold settled
      split <;> rename_i opened
      · refine ⟨?_, fun accept => ⟨((h.fair peer m mem).reply accept).1, nofun⟩⟩
        rintro n ⟨⟩
        exact own peer m mem opened
      · exact h.fair peer m mem
    exact ⟨fair.tied, fair.reply⟩
  · have pending := pending_of_waits h mem waits
    rw [settled_lost (not_lost pending)]
    exact pending

theorem stood_settle (h : Stood dm) : Stood dm.settleAcceptReplies := by
  choose after messages using messages_settle dm
  refine stood_map h rfl messages fun peer m mem known => ?_
  dsimp only
  rw [settled_lost]
  rw [Composed.lost, Option.isNone_eq_false_iff.2 known, Bool.false_and]

theorem event_kept (h : Kept runner R dm) (stood : Stood dm)
    (given : Given runner dm (.event event nowMs)) (rightly : Rightly runner dm (.event event nowMs))
    (reports : ∀ peer n, Reports runner.names (.event event nowMs) peer n → R peer n) :
    Kept runner R (dm.onDmEvent event nowMs) ∧ Stood (dm.onDmEvent event nowMs) := by
  obtain ⟨held, adopts, opens⟩ := rightly
  have adopted := kept_adopt (kept_told h given held reports) adopts
  have stood' := stood_adopt fun _ _ mem out =>
    owed_told h stood given held mem out
  exact ⟨kept_reconcile (kept_settle adopted opens), stood_reconcile (stood_settle stood')⟩

/-! ## Stops -/

/-- The state is another of which the same is known, of the same threads. -/
theorem kept_state (dm' : GuiDm I L) (h : Kept runner R dm) (stood : Stood dm)
    (composed : dm'.composed = dm.composed)
    (reached : Reached dm'.state) (faithful : Faithful runner.names R dm'.state)
    (waits : Waits dm.state dm'.state)
    (threads : ∀ peer, threadOf dm'.state peer = threadOf dm.state peer) :
    Kept runner R dm' ∧ Stood dm' := by
  refine ⟨h.folded (messages_congr composed) reached faithful waits, ?_⟩
  refine stood.of threads fun peer m mem n seq => ⟨m, ?_, seq⟩
  rwa [messages_congr composed]

theorem stopped_kept (h : Kept runner R dm) (stood : Stood dm) :
    Kept runner R dm.onDmStopped ∧ Stood dm.onDmStopped := by
  obtain ⟨waits, none_⟩ := waits_stop (s := dm.state)
  obtain ⟨kept, stood'⟩ := kept_state { dm with state := dm.state.stop.1 } h stood rfl
    (h.reached.step .stop) (faithful_stop h.faithful) waits fun peer =>
      thread_stop h.reached.sound peer
  have messages := messages_each { dm with state := dm.state.stop.1 }
    { dm with
      composed := dm.composed.each fun _ messages => messages.map fun m =>
        if m.pending then { m with refusal := some .shuttingDown } else m
      state := dm.state.stop.1
      blocksInFlight := [] }
    (fun _ messages => messages.map fun m =>
      if m.pending then { m with refusal := some .shuttingDown } else m)
    (fun _ => rfl) rfl
  refine ⟨kept_reconcile (kept_map kept rfl messages (fun peer m mem => ?_) (fun peer m mem => ?_)
    fun peer m mem waits => ?_), stood_reconcile (stood_map stood' rfl messages fun peer m mem _ => ?_)⟩
  · split
    · rfl
    · rfl
  · split <;> rename_i pending
    · refine ⟨(kept.fair peer m mem).tied, fun accept => ?_⟩
      refine ⟨((kept.fair peer m mem).reply accept).1, fun _ => ?_⟩
      exact Option.isNone_iff_eq_none.1 (Bool.and_eq_true_iff.1 pending).1
    · exact kept.fair peer m mem
  · rw [show dm.state.stop.1.outstanding = ∅ from none_] at waits
    cases waits
  · split
    · rfl
    · rfl

/-! ## What the user does -/

theorem start_kept (h : Kept runner R dm) (stood : Stood dm) (peer : I) :
    Kept runner R (dm.startDmWith peer) ∧ Stood (dm.startDmWith peer) := by
  unfold GuiDm.startDmWith
  split
  · exact ⟨(kept_reconcile h).congr rfl rfl, (stood_reconcile stood).congr rfl rfl⟩
  · split
    · exact ⟨(kept_reconcile h).congr rfl rfl, (stood_reconcile stood).congr rfl rfl⟩
    · have kept : Kept runner R { dm with drafts := insert peer dm.drafts } := h.congr rfl rfl
      have stood' : Stood { dm with drafts := insert peer dm.drafts } := stood.congr rfl rfl
      exact ⟨(kept_reconcile kept).congr rfl rfl, (stood_reconcile stood').congr rfl rfl⟩

/-- A message is composed under the token of its command. -/
theorem send_kept (h : Kept runner R dm) (stood : Stood dm) (command : DmOutstanding I) {body : String}
    {firstContact : Bool} (room : dm.state.lastToken + 1 < 2 ^ 64) (person : peer = addressee command) :
    let sent := GuiDm.compose { dm with state := (dm.state.issue command).1 } peer
      (dm.state.issue command).2 body firstContact nowMs
    Kept runner R sent ∧ Stood sent := by
  obtain ⟨kept, token, waits, fresh⟩ := h.issue { dm with state := (dm.state.issue command).1 }
    command room rfl fun _ => rfl
  rw [← token] at waits fresh
  exact ⟨kept.compose _ _ _ person waits fresh, Stood.compose (stood.of (fun _ => rfl) fun _ m mem _ seq =>
    ⟨m, mem, seq⟩)⟩

theorem moved_kept (h : Kept runner R dm) (stood : Stood dm) (key : DmItemKey I) :
    Kept runner R (dm.moved key) ∧ Stood (dm.moved key) := by
  have kept : Kept runner R ({ dm with drafts := dm.drafts.erase key.peer }.select key) :=
    h.congr rfl rfl
  have stood' : Stood ({ dm with drafts := dm.drafts.erase key.peer }.select key) :=
    stood.congr rfl rfl
  exact ⟨kept_reconcile kept, stood_reconcile stood'⟩

theorem sendFirst_kept (h : Kept runner R dm) (stood : Stood dm)
    (room : dm.state.lastToken + 1 < 2 ^ 64) (body : String) :
    Kept runner R (dm.sendFirst peer body nowMs) ∧ Stood (dm.sendFirst peer body nowMs) := by
  unfold GuiDm.sendFirst DmState.firstContact
  split <;> rename_i answer
  · split at answer
    · cases answer
    · split at answer
      · cases answer
      · split at answer
        · cases answer
        · obtain ⟨rfl, rfl⟩ := Prod.mk.inj (Except.ok.inj answer)
          exact send_kept h stood (.firstContact peer body) room rfl
  · exact moved_kept h stood _
  · exact moved_kept h stood _
  · exact ⟨h, stood⟩

theorem sendDm_kept (h : Kept runner R dm) (stood : Stood dm)
    (room : dm.state.lastToken + 1 < 2 ^ 64) (body : String) :
    Kept runner R (dm.sendDm body nowMs) ∧ Stood (dm.sendDm body nowMs) := by
  unfold GuiDm.sendDm
  split
  · exact ⟨h, stood⟩
  cases dm.selected with
  | none => exact ⟨h, stood⟩
  | some key =>
    rw [Option.elim_some]
    split
    · exact sendFirst_kept h stood room body
    · unfold GuiDm.sendNext
      split
      · exact send_kept h stood (.send key.peer body) room rfl
      · exact ⟨h, stood⟩
    · exact ⟨h, stood⟩

/-- A reply that was refused is tied to nothing, so none is missed. -/
theorem replaced_kept (dm' : GuiDm I L) (h : Kept runner R dm) (stood : Stood dm) (sender : I)
    (composed : dm'.composed = dm.composed.insert sender
      ((dm.messages sender).filter fun m => !(m.accept && m.refusal.isSome)))
    (state : dm'.state = dm.state) : Kept runner R dm' ∧ Stood dm' := by
  have messages : ∀ peer, dm'.messages peer = _ := fun peer => messages_insert composed
  refine ⟨h.dropped state fun peer => ?_, stood.of (fun peer => by rw [state]) fun peer m mem n seq => ?_⟩
  · rw [messages]
    split <;> rename_i same
    · exact same ▸ List.filter_sublist
    · exact List.Sublist.refl _
  · refine ⟨m, ?_, seq⟩
    rw [messages]
    split <;> rename_i same
    · subst same
      refine List.mem_filter.2 ⟨mem, ?_⟩
      by_contra refused
      rw [Bool.not_eq_true, Bool.not_eq_false', Bool.and_eq_true_iff] at refused
      have untied := ((h.fair peer m mem).reply refused.1).2 refused.2
      rw [untied] at seq
      cases seq
    · exact mem

theorem composeReply_kept (nowMs : Int) (opensConversation : Bool) (h : Kept runner R dm)
    (stood : Stood dm) {command : DmOutstanding I} {sender : I} {token : Nat} (person : sender = addressee command)
    (waits : dm.state.outstanding.lookup token = some command)
    (fresh : ∀ peer, ∀ m ∈ dm.messages peer, m.token < token) :
    Kept runner R (dm.composeReply sender token opensConversation nowMs) ∧
      Stood (dm.composeReply sender token opensConversation nowMs) := by
  unfold GuiDm.composeReply
  dsimp only
  obtain ⟨kept, stood'⟩ := replaced_kept { dm with
    composed := dm.composed.insert sender
      ((dm.messages sender).filter fun m => !(m.accept && m.refusal.isSome)) } h stood sender rfl rfl
  have fresh' : ∀ peer, ∀ m ∈ GuiDm.messages { dm with
      composed := dm.composed.insert sender
        ((dm.messages sender).filter fun m => !(m.accept && m.refusal.isSome)) } peer, m.token < token := by
    intro peer m mem
    rw [messages_insert rfl] at mem
    split at mem <;> rename_i same
    · exact fresh sender m (List.mem_of_mem_filter mem)
    · exact fresh peer m mem
  have composed := kept.compose dmAcceptReply false nowMs person waits fresh'
  constructor
  · refine composed.composedMut (fun _ => rfl) (fun peer m mem same => ?_) fun _ m pending => pending
    obtain ⟨-, new⟩ | ⟨old, held, e, -⟩ := mem_compose mem
    · rw [new]
      exact ⟨nofun, fun _ => ⟨rfl, nofun⟩⟩
    · have := fresh' peer old held
      exact absurd (e.symm.trans same) (Nat.ne_of_lt this)
  · refine Stood.of (Stood.compose stood') (fun peer => by rw [state_composedMut]) fun peer m mem n seq => ?_
    obtain mem | ⟨-, mem⟩ := composedMut_mem _ token ({ · with accept := true, opensConversation }) mem
    · exact ⟨m, mem, seq⟩
    · exact ⟨_, mem, seq⟩

theorem accept_kept (h : Kept runner R dm) (stood : Stood dm)
    (room : dm.state.lastToken + 1 < 2 ^ 64) :
    Kept runner R (dm.acceptDmRequest nowMs) ∧ Stood (dm.acceptDmRequest nowMs) := by
  unfold GuiDm.acceptDmRequest
  cases dm.selectedRequester with
  | none => exact ⟨h, stood⟩
  | some sender =>
    rw [Option.elim_some]
    cases dm.state.requests.find? (·.sender = sender) with
    | none => exact ⟨h, stood⟩
    | some held =>
      rw [Option.elim_some]
      unfold GuiDm.acceptFrom
      split
      · exact ⟨h, stood⟩
      dsimp only
      generalize command_ : DmOutstanding.accept held.request sender dmAcceptReply = command
      have person : sender = addressee command := by rw [← command_]; rfl
      obtain ⟨kept, token, waits, fresh⟩ := h.issue
        { dm with
          state := (dm.state.issue command).1
          acceptRefused := dm.acceptRefused.erase sender
          drafts := insert sender dm.drafts } command room rfl fun _ => rfl
      rw [← token] at waits fresh
      obtain ⟨kept', stood'⟩ := composeReply_kept nowMs
        ((dm.conversation sender).isNone && !(dm.messages sender).any (·.firstContact)) kept
        (stood.of (fun _ => rfl) fun _ m mem _ seq => ⟨m, mem, seq⟩) person waits fresh
      exact ⟨kept_reconcile (kept'.congr rfl rfl), stood_reconcile (stood'.congr rfl rfl)⟩

theorem decline_kept (h : Kept runner R dm) (stood : Stood dm) :
    Kept runner R dm.declineDmRequest ∧ Stood dm.declineDmRequest := by
  unfold GuiDm.declineDmRequest
  cases dm.selectedRequester with
  | none => exact ⟨h, stood⟩
  | some sender =>
    obtain ⟨kept, stood'⟩ := kept_state { dm with state := dm.state.decline sender } h stood rfl
      (h.reached.step (.decline sender)) (h.faithful.same rfl rfl) (.same rfl rfl) fun _ => rfl
    exact ⟨kept_reconcile kept, stood_reconcile stood'⟩

theorem block_kept (h : Kept runner R dm) (stood : Stood dm) :
    Kept runner R dm.blockDmRequest ∧ Stood dm.blockDmRequest := by
  unfold GuiDm.blockDmRequest
  cases dm.selectedRequester with
  | none => exact ⟨h, stood⟩
  | some sender =>
    obtain ⟨kept, stood'⟩ := kept_state { dm with
      state := { dm.state with blocking := insert sender dm.state.blocking }
      blockRefused := dm.blockRefused.erase sender
      blocksInFlight := dm.blocksInFlight ++ [sender] } h stood rfl
      ⟨⟨h.reached.sound.unmapped, h.reached.sound.previews⟩, h.reached.ordered⟩
      (h.faithful.same rfl rfl) (.same rfl rfl) fun _ => rfl
    exact ⟨kept_reconcile kept, stood_reconcile stood'⟩

/-! ## Runs -/

/-- **Step lemma.** -/
theorem step_kept (h : Kept runner R dm) (stood : Stood dm) {input : Input I L}
    (given : Given runner dm input) (rightly : Rightly runner dm input)
    (reports : ∀ peer n, Reports runner.names input peer n → R peer n) :
    Kept runner R (step dm input) ∧ Stood (step dm input) := by
  cases input with
  | event event nowMs => exact event_kept h stood given rightly reports
  | stopped => exact stopped_kept h stood
  | startDmWith peer => exact start_kept h stood peer
  | sendDm body nowMs => exact sendDm_kept h stood rightly body
  | acceptDmRequest nowMs => exact accept_kept h stood rightly
  | declineDmRequest => exact decline_kept h stood
  | blockDmRequest => exact block_kept h stood
  | selectDmItem key =>
    unfold step GuiDm.selectDmItem
    dsimp only
    split
    · exact ⟨h.congr rfl rfl, stood.congr rfl rfl⟩
    · exact ⟨h, stood⟩
  | openRailSection rail =>
    cases rail with
    | chats => exact ⟨h.congr rfl rfl, stood.congr rfl rfl⟩
    | directMessages => exact ⟨h.congr rfl rfl, stood.congr rfl rfl⟩
  | toggleRailSection rail =>
    cases rail with
    | chats => exact ⟨h.congr rfl rfl, stood.congr rfl rfl⟩
    | directMessages => exact ⟨h.congr rfl rfl, stood.congr rfl rfl⟩
  | showChats => exact ⟨h.congr rfl rfl, stood.congr rfl rfl⟩

/-- **Run lemma.** -/
theorem run_kept {inputs : List (Input I L)} (h : Kept runner R dm) (stood : Stood dm)
    (each : Every (fun dm input => Given runner dm input ∧ Rightly runner dm input) dm inputs)
    (reports : ∀ input ∈ inputs, ∀ peer n, Reports runner.names input peer n → R peer n) :
    Kept runner R (run dm inputs) ∧ Stood (run dm inputs) := by
  induction inputs generalizing dm with
  | nil => exact ⟨h, stood⟩
  | cons input inputs ih =>
    obtain ⟨⟨given, rightly⟩, rest⟩ := each
    obtain ⟨first, others⟩ := List.forall_mem_cons.1 reports
    obtain ⟨kept, stood'⟩ := step_kept h stood given rightly first
    exact ih kept stood' rest others

theorem kept_start : Kept runner R ({} : GuiDm I L) := by
  refine ⟨Daemonseed.Dm.Threads.reached [], ⟨nofun, fun pk n shown => ?_⟩, fun _ => .nil, nofun,
    nofun, nofun, nofun⟩
  cases shown

/-- A first contact is refused, its conversation is listed, and the message is collected. -/
def takenUp : List (Input Nat Nat) :=
  [.startDmWith 7, .sendDm "hi" 100, .event (.refused (some 1) .network) 110,
    .event (.roster [⟨9, 7, .pending, 0, none⟩]) 120, .event (.delivered 9 0) 130]

/-- Two first contacts of one body: the one that was refused with nothing written is taken for the
message that was sent. -/
example : ((run ({} : GuiDm Nat Nat) [.startDmWith 7, .sendDm "hi" 100,
    .event (.refused (some 1) .noAdvert) 110, .sendDm "hi" 120, .event (.sent 2 9 0 130) 131]).messages
      7).map (·.seq) = [some 0, some 0] := by decide

end Daemonseed.Gui.DmTies
