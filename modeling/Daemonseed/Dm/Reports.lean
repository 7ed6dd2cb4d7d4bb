import Daemonseed.Dm.Threads

/-! # What a view takes from reports

What a fold adds to a view was in the event: a label names whom the runner said, a message
is shown as collected where it was reported so, and a row of this side's is one that was
reported sent or the first contact that was refused. -/
namespace Daemonseed.Dm.Reports
open Daemonseed.Lib.Maps Daemonseed.Dm.Thread Daemonseed.Dm.View Daemonseed.Dm.Threads
open Daemonseed.Dm.Thread.DmThreadRow Daemonseed.Dm.View.DmState

variable {I L : Type} [DecidableEq I] [DecidableEq L] {s s' s'' : DmState I L}

/-! ## Commands that wait -/

/-- No command is waited for that was not, and no token was given. -/
structure Waits (s s' : DmState I L) : Prop where
  outstanding : ∀ token command, s'.outstanding.lookup token = some command →
    s.outstanding.lookup token = some command
  lastToken : s'.lastToken = s.lastToken

theorem Waits.trans (h : Waits s s') (h' : Waits s' s'') : Waits s s'' :=
  ⟨fun token command waits => h.outstanding token command (h'.outstanding token command waits),
    h'.lastToken.trans h.lastToken⟩

theorem Waits.same (outstanding : s'.outstanding = s.outstanding)
    (lastToken : s'.lastToken = s.lastToken) : Waits s s' :=
  ⟨fun _ _ waits => outstanding ▸ waits, lastToken⟩

theorem Waits.erase {token : Nat} (outstanding : s'.outstanding = s.outstanding.erase token)
    (lastToken : s'.lastToken = s.lastToken) : Waits s s' := by
  refine ⟨fun other command waits => ?_, lastToken⟩
  rw [outstanding] at waits
  by_cases same : other = token
  · rw [same, AList.lookup_erase] at waits
    cases waits
  · rwa [AList.lookup_erase_ne same] at waits

theorem waits_withEntry {pk : I} {f : DmCorrespondence L → DmCorrespondence L} :
    Waits s (s.withEntry pk f) := .same rfl rfl

theorem updateEntry_same (s : DmState I L) (pk : I) (f : DmCorrespondence L → DmCorrespondence L) :
    (s.updateEntry pk f).outstanding = s.outstanding ∧
      (s.updateEntry pk f).lastToken = s.lastToken := by
  unfold DmState.updateEntry
  split
  · exact ⟨rfl, rfl⟩
  · exact ⟨rfl, rfl⟩

theorem waits_updateEntry {pk : I} {f : DmCorrespondence L → DmCorrespondence L} :
    Waits s (s.updateEntry pk f) :=
  .same (updateEntry_same s pk f).1 (updateEntry_same s pk f).2

theorem waits_mapLabel {label : L} {pk : I} : Waits s (s.mapLabel label pk) := by
  unfold mapLabel
  dsimp only
  split
  · exact .same rfl rfl
  · exact .same rfl rfl

theorem waits_rosterRow {nowMs : Int} {row : ConversationSummary I L} :
    Waits s (rosterRow nowMs s row) := by
  have stamped : ∀ changed : Bool, Waits s (if changed then s.nextActivity else s) := by
    intro changed
    split
    · exact .same rfl rfl
    · exact .same rfl rfl
  have listed : Waits s (s.listed row) := by
    unfold DmState.listed
    exact ((stamped _).trans waits_mapLabel).trans waits_withEntry
  unfold DmState.rosterRow adoptRefused
  dsimp only
  split
  · exact listed
  · exact listed.trans (.same rfl rfl)

theorem waits_roster {rows : List (ConversationSummary I L)} {nowMs : Int} :
    Waits s (s.roster rows nowMs) := by
  have each : ∀ s : DmState I L, Waits s (rows.foldl (rosterRow nowMs) s) := by
    induction rows with
    | nil => exact fun s => .same rfl rfl
    | cons row rows ih => exact fun s => waits_rosterRow.trans (ih _)
  have named : Waits s (s.named (rows.map (·.peerIdentityPk))) := .same rfl rfl
  have folded := named.trans (each _)
  exact ⟨folded.outstanding, folded.lastToken⟩

theorem waits_answer {token : Nat} {label : L} : Waits s (s.answer token label).1 := by
  unfold answer
  dsimp only
  split
  · exact .erase rfl rfl
  · exact .erase rfl rfl
  · exact .erase rfl rfl
  · exact .erase rfl rfl

theorem waits_reportRefused {token : Option Nat} {reason : Refusal} :
    Waits s (s.reportRefused token reason).1 := by
  unfold reportRefused
  cases token with
  | none => exact .same rfl rfl
  | some token =>
    dsimp only
    split
    · exact .erase rfl rfl
    · split
      · refine Waits.trans ?_ waits_updateEntry
        exact .erase rfl rfl
      · exact .erase rfl rfl
    · refine Waits.trans ?_ waits_updateEntry
      exact .erase rfl rfl
    · exact .erase rfl rfl

/-- What was refused is not waited for. -/
theorem refused_answered {token : Nat} {reason : Refusal} :
    (s.reportRefused (some token) reason).1.outstanding.lookup token = none := by
  unfold reportRefused
  dsimp only
  split
  · exact AList.lookup_erase _ _
  · split
    · rw [(updateEntry_same _ _ _).1]
      exact AList.lookup_erase _ _
    · exact AList.lookup_erase _ _
  · rw [(updateEntry_same _ _ _).1]
    exact AList.lookup_erase _ _
  · exact AList.lookup_erase _ _

/-- What was reported sent is not waited for. -/
theorem sent_answered {token : Nat} {label : L} {seq sentAt : Nat} :
    (s.reportSent token label seq sentAt).outstanding.lookup token = none := by
  have erased : (s.answer token label).1.outstanding.lookup token = none := by
    unfold answer
    dsimp only
    split
    · exact AList.lookup_erase _ _
    · exact AList.lookup_erase _ _
    · exact AList.lookup_erase _ _
    · exact AList.lookup_erase _ _
  have waits : Waits (s.answer token label).1 (s.reportSent token label seq sentAt) := by
    unfold reportSent
    dsimp only
    cases (s.answer token label).2.identity with
    | none => exact .same rfl rfl
    | some pk => exact waits_mapLabel.trans (.same rfl rfl)
  refine Option.eq_none_iff_forall_ne_some.2 fun command left => ?_
  exact Option.some_ne_none command ((waits.outstanding token command left).symm.trans erased)

theorem waits_fold (s : DmState I L) (nowMs : Int) (event : RunnerEvent I L) :
    Waits s (s.fold nowMs event).1 := by
  cases event with
  | roster rows => exact waits_roster
  | contactRequest request sender =>
    unfold fold holdRequest
    dsimp only
    split
    · exact .same rfl rfl
    · split
      · exact .same rfl rfl
      · exact .same rfl rfl
  | startedOver request sender =>
    unfold fold holdRequest
    dsimp only
    split
    · exact .same rfl rfl
    · split
      · exact .same rfl rfl
      · exact .same rfl rfl
  | requestPreview request messages readAt => exact .same rfl rfl
  | message label seq body sentAt receivedAt =>
    unfold fold collected
    dsimp only
    split
    · exact .same rfl rfl
    · exact .same rfl rfl
  | sent token label seq sentAt =>
    unfold fold reportSent
    dsimp only
    cases (s.answer token label).2.identity with
    | none => exact waits_answer
    | some pk => exact waits_answer.trans (waits_mapLabel.trans (.same rfl rfl))
  | deleted token label =>
    unfold fold reportDeleted
    dsimp only
    split
    · exact .erase rfl rfl
    · exact .erase rfl rfl
  | delivered label through =>
    unfold fold reportDelivered
    dsimp only
    cases s.labels.lookup label with
    | none => exact .same rfl rfl
    | some pk => exact waits_updateEntry
  | accepted label =>
    unfold fold reportAccepted
    dsimp only
    cases s.labels.lookup label with
    | none => exact .same rfl rfl
    | some pk => exact .same rfl rfl
  | refused token reason => exact waits_reportRefused
  | health => exact .same rfl rfl
  | advert published => exact .same rfl rfl
  | blockList identities => exact .same rfl rfl
  | blockListUnreadable => exact .same rfl rfl

/-- Whom a command is addressed to. -/
def addressee : DmOutstanding I → I
  | .firstContact peer _ => peer
  | .send peer _ => peer
  | .accept _ sender _ => sender

theorem answer_identity {token : Nat} {label : L} {command : DmOutstanding I}
    (waits : s.outstanding.lookup token = some command) :
    (s.answer token label).2.identity = some (addressee command) := by
  unfold answer
  rw [waits]
  cases command with
  | firstContact peer body => rfl
  | send peer body => rfl
  | accept request sender reply => rfl

/-! ## Labels and collected messages -/

/-- The labels name whom they are of, and what is shown as collected was reported so. -/
structure Faithful (names : L → I) (R : I → Nat → Prop) (s : DmState I L) : Prop where
  labels : ∀ label pk, s.labels.lookup label = some pk → names label = pk
  delivered : ∀ pk n, (s.entry pk).delivered n = true → R pk n

variable {names : L → I} {R R' : I → Nat → Prop} {pk : I}
  {f : DmCorrespondence L → DmCorrespondence L}

theorem Faithful.mono (h : Faithful names R s) (le : ∀ pk n, R pk n → R' pk n) :
    Faithful names R' s :=
  ⟨h.labels, fun pk n shown => le pk n (h.delivered pk n shown)⟩

theorem Faithful.same (h : Faithful names R s) (conversations : s'.correspondences = s.correspondences)
    (labels : s'.labels = s.labels) : Faithful names R s' := by
  refine ⟨fun label pk held => h.labels label pk (labels ▸ held), fun pk n shown => ?_⟩
  unfold entry at shown
  rw [conversations] at shown
  exact h.delivered pk n shown

theorem Faithful.nextActivity (h : Faithful names R s) : Faithful names R s.nextActivity :=
  h.same rfl rfl

theorem Faithful.withEntry (h : Faithful names R s)
    (keeps : ∀ n, (f (s.entry pk)).delivered n = true → R pk n) :
    Faithful names R (s.withEntry pk f) := by
  refine ⟨h.labels, fun other n shown => ?_⟩
  rw [entry_withEntry] at shown
  split at shown <;> rename_i same
  · exact same ▸ keeps n shown
  · exact h.delivered other n shown

theorem Faithful.updateEntry (h : Faithful names R s)
    (keeps : ∀ n, (f (s.entry pk)).delivered n = true → R pk n) :
    Faithful names R (s.updateEntry pk f) := by
  unfold DmState.updateEntry
  split
  · exact h.withEntry keeps
  · exact h

theorem Faithful.mapLabel (h : Faithful names R s) {label : L} (named : names label = pk) :
    Faithful names R (s.mapLabel label pk) := by
  have labels : ∀ other held, (s.labels.insert label pk).lookup other = some held →
      names other = held := by
    intro other held found
    by_cases same : other = label
    · rw [same, AList.lookup_insert] at found
      exact same ▸ named.trans (Option.some.inj found)
    · rw [AList.lookup_insert_ne same] at found
      exact h.labels other held found
  unfold DmState.mapLabel
  dsimp only
  split
  · exact Faithful.withEntry ⟨labels, h.delivered⟩ fun n shown => h.delivered pk n shown
  · exact Faithful.withEntry ⟨labels, h.delivered⟩ fun n shown => h.delivered pk n shown

theorem Faithful.rosterRow (h : Faithful names R s) {nowMs : Int} {row : ConversationSummary I L}
    (named : names row.peer = row.peerIdentityPk)
    (collected : ∀ n < row.peerCollected, R row.peerIdentityPk n) :
    Faithful names R (rosterRow nowMs s row) := by
  have listed : ∀ s : DmState I L, Faithful names R s → ∀ activity state changed,
      Faithful names R ((s.mapLabel row.peer row.peerIdentityPk).withEntry row.peerIdentityPk
        fun entry =>
          { entry with
            state
            peerCollected := row.peerCollected
            handle := row.handle
            lastActivity := if changed = true then activity else entry.lastActivity }) := by
    intro s h activity state changed
    have mapped := h.mapLabel named
    refine mapped.withEntry fun n shown => ?_
    obtain shown | shown := Bool.or_eq_true_iff.1 shown
    · exact collected n (of_decide_eq_true shown)
    · exact mapped.delivered _ n (Bool.or_eq_true_iff.2 (.inr shown))
  have stamped : ∀ changed : Bool, Faithful names R (if changed then s.nextActivity else s) := by
    intro changed
    split
    · exact h.nextActivity
    · exact h
  have first : Faithful names R (s.listed row) := listed _ (stamped _) _ _ _
  unfold DmState.rosterRow adoptRefused
  dsimp only
  split
  · exact first
  · exact Faithful.withEntry (first.same rfl rfl) fun n shown => first.delivered _ n shown

theorem Faithful.roster (h : Faithful names R s) {rows : List (ConversationSummary I L)} {nowMs : Int}
    (named : ∀ row ∈ rows, names row.peer = row.peerIdentityPk)
    (collected : ∀ row ∈ rows, ∀ n < row.peerCollected, R row.peerIdentityPk n) :
    Faithful names R (s.roster rows nowMs) := by
  have each : ∀ s : DmState I L, Faithful names R s →
      Faithful names R (rows.foldl (DmState.rosterRow nowMs) s) := by
    induction rows with
    | nil => exact fun s h => h
    | cons row rows ih =>
      obtain ⟨first, others⟩ := List.forall_mem_cons.1 named
      obtain ⟨count, counts⟩ := List.forall_mem_cons.1 collected
      exact fun s h => ih others counts _ (h.rosterRow first count)
  have kept : ∀ pks, Faithful names R (s.named pks) := by
    intro pks
    refine ⟨fun label pk held => ?_, fun pk n shown => ?_⟩
    · exact h.labels label pk (Map.lookup_retain_some.1 held).1
    · refine h.delivered pk n ?_
      unfold entry DmState.named at shown
      dsimp only at shown
      rw [Map.lookup_retain] at shown
      unfold entry
      cases found : s.correspondences.lookup pk with
      | none =>
        rw [found] at shown
        exact shown
      | some c =>
        rw [found] at shown
        by_cases mem : pk ∈ pks
        · rwa [Option.filter_some_pos (by simpa using mem)] at shown
        · rw [Option.filter_some_neg (by simpa using mem)] at shown
          cases shown
  exact (each _ (kept _)).same rfl rfl

theorem Faithful.reportSent (h : Faithful names R s) {token : Nat} {label : L} {seq sentAt : Nat}
    (named : ∀ pk, (s.answer token label).2.identity = some pk → names label = pk) :
    Faithful names R (s.reportSent token label seq sentAt) := by
  have answered : Faithful names R (s.answer token label).1 := by
    unfold DmState.answer
    dsimp only
    split
    · exact h.same rfl rfl
    · exact h.same rfl rfl
    · exact h.same rfl rfl
    · exact h.same rfl rfl
  unfold DmState.reportSent
  dsimp only
  cases about : (s.answer token label).2.identity with
  | none => exact answered
  | some pk =>
    have mapped := answered.mapLabel (named pk about)
    rw [Option.elim_some]
    unfold recordSent
    exact mapped.nextActivity.withEntry fun n shown => mapped.delivered pk n shown

theorem Faithful.reportDelivered (h : Faithful names R s) {label : L} {through : Nat}
    (told : ∀ n ≤ through, R (names label) n) : Faithful names R (s.reportDelivered label through) := by
  unfold DmState.reportDelivered
  cases found : s.labels.lookup label with
  | none => exact h
  | some pk =>
    rw [Option.elim_some]
    refine h.updateEntry fun n shown => ?_
    obtain rfl := h.labels label pk found
    obtain shown | shown := Bool.or_eq_true_iff.1 shown
    · exact h.delivered _ n (Bool.or_eq_true_iff.2 (.inl shown))
    cases before : (s.entry (names label)).deliveredThrough with
    | none =>
      rw [before] at shown
      exact told n (of_decide_eq_true shown)
    | some held =>
      rw [before] at shown
      have le : n ≤ max held through := of_decide_eq_true shown
      obtain le | le := le_max_iff.1 le
      · refine h.delivered _ n (Bool.or_eq_true_iff.2 (.inr ?_))
        rw [before]
        exact decide_eq_true le
      · exact told n le

/-- What an event says of labels and collected messages is so. -/
def Tells (names : L → I) (R : I → Nat → Prop) (s : DmState I L) : RunnerEvent I L → Prop
  | .roster rows => ∀ row ∈ rows, names row.peer = row.peerIdentityPk ∧
      ∀ n < row.peerCollected, R row.peerIdentityPk n
  | .sent token label _ _ => ∀ pk, (s.answer token label).2.identity = some pk → names label = pk
  | .delivered label through => ∀ n ≤ through, R (names label) n
  | _ => True

theorem Faithful.fold (h : Faithful names R s) (nowMs : Int) {event : RunnerEvent I L}
    (tells : Tells names R s event) : Faithful names R (s.fold nowMs event).1 := by
  cases event with
  | roster rows =>
    exact h.roster (fun row mem => (tells row mem).1) fun row mem => (tells row mem).2
  | contactRequest request sender =>
    unfold DmState.fold holdRequest
    dsimp only
    split
    · exact h
    · split
      · exact h.same rfl rfl
      · exact h.same rfl rfl
  | startedOver request sender =>
    unfold DmState.fold holdRequest
    dsimp only
    split
    · exact h
    · split
      · exact h.same rfl rfl
      · exact h.same rfl rfl
  | requestPreview request messages readAt => exact h.same rfl rfl
  | message label seq body sentAt receivedAt =>
    unfold DmState.fold DmState.collected
    dsimp only
    split
    · exact h.nextActivity.withEntry fun n shown => h.delivered _ n shown
    · exact h.same rfl rfl
  | sent token label seq sentAt => exact h.reportSent tells
  | deleted token label =>
    unfold DmState.fold reportDeleted
    dsimp only
    split
    · exact h.same rfl rfl
    · rename_i identity _
      refine ⟨fun other pk held => h.labels other pk ?_, fun pk n shown => h.delivered pk n ?_⟩
      · by_cases same : other = label
        · rw [same, AList.lookup_erase] at held
          cases held
        · rwa [AList.lookup_erase_ne same] at held
      · unfold entry at shown ⊢
        dsimp only at shown
        by_cases same : pk = identity
        · rw [same, AList.lookup_erase] at shown
          cases shown
        · rwa [AList.lookup_erase_ne same] at shown
  | delivered label through => exact h.reportDelivered tells
  | accepted label =>
    unfold DmState.fold reportAccepted
    dsimp only
    cases s.labels.lookup label with
    | none => exact h
    | some pk =>
      rw [Option.elim_some]
      exact h.nextActivity.withEntry fun n shown => h.delivered pk n shown
  | refused token reason =>
    unfold DmState.fold reportRefused
    cases token with
    | none => exact h.same rfl rfl
    | some token =>
      dsimp only
      split
      · exact h.same rfl rfl
      · split
        · exact Faithful.updateEntry (h.same rfl rfl) fun n shown => h.delivered _ n shown
        · exact h.same rfl rfl
      · exact Faithful.updateEntry (h.same rfl rfl) fun n shown => h.delivered _ n shown
      · exact h.same rfl rfl
  | health => exact h.same rfl rfl
  | advert published => exact h.same rfl rfl
  | blockList identities => exact h.same rfl rfl
  | blockListUnreadable => exact h.same rfl rfl

/-! ## The end of a runner -/

theorem faithful_stop (h : Faithful names R s) : Faithful names R s.stop.1 := by
  have marks : ∀ (commands : List (DmOutstanding I)) (s : DmState I L), Faithful names R s →
      Faithful names R (commands.foldl unsent s) := by
    intro commands
    induction commands with
    | nil => exact fun s h => h
    | cons command commands ih =>
      intro s h
      refine ih _ ?_
      cases command with
      | accept => exact h
      | firstContact => exact h.updateEntry fun n shown => h.delivered _ n shown
      | send => exact h.updateEntry fun n shown => h.delivered _ n shown
  exact marks _ _ (h.same rfl rfl)

theorem waits_stop : Waits s s.stop.1 ∧ s.stop.1.outstanding = ∅ := by
  have marks : ∀ (commands : List (DmOutstanding I)) (s : DmState I L),
      (commands.foldl unsent s).outstanding = s.outstanding ∧
        (commands.foldl unsent s).lastToken = s.lastToken := by
    intro commands
    induction commands with
    | nil => exact fun s => ⟨rfl, rfl⟩
    | cons command commands ih =>
      intro s
      obtain ⟨outstanding, lastToken⟩ := ih (s.unsent command)
      have kept : (s.unsent command).outstanding = s.outstanding ∧
          (s.unsent command).lastToken = s.lastToken := by
        cases command with
        | accept => exact ⟨rfl, rfl⟩
        | firstContact => exact updateEntry_same s _ _
        | send => exact updateEntry_same s _ _
      exact ⟨outstanding.trans kept.1, lastToken.trans kept.2⟩
  have stopped := marks s.outstanding.values
    { s with
      running := false
      advertUnpublished := false
      requests := []
      unmapped := []
      refusedFirstContacts := ∅
      blocking := ∅
      outstanding := ∅ }
  have empty : s.stop.1.outstanding = ∅ := stopped.1
  refine ⟨⟨fun token command waits => ?_, stopped.2⟩, empty⟩
  rw [empty] at waits
  cases waits

theorem thread_stop (sound : Sound s) (pk : I) : threadOf s.stop.1 pk = threadOf s pk := by
  obtain ⟨rows, e, none_⟩ := ((grows_stop (P := fun _ _ => False) sound).2 pk).2
  cases rows with
  | nil => exact e
  | cons row rows => exact (none_ row List.mem_cons_self).elim

/-! ## Rows of this side's -/

variable {P Q : DmThreadRow → Prop} {t t' : List DmThreadRow} {event : RunnerEvent I L}

/-- What holds of the rows that were held and of those recorded holds of all, where one that takes
the place of another keeps it. -/
theorem rows_of_extends (h : Extends P t t') (held : ∀ row ∈ t, Q row) (new : ∀ row, P row → Q row)
    (replacing : ∀ row old, P row → message old = message row → Q (row.replacing old)) :
    ∀ row ∈ t', Q row := by
  obtain ⟨rows, rfl, each⟩ := h
  induction rows generalizing t with
  | nil => exact held
  | cons row rows ih =>
    obtain ⟨first, others⟩ := List.forall_mem_cons.1 each
    refine ih ?_ others
    obtain ⟨-, e⟩ | ⟨front, old, back, rfl, same, e⟩ := record_cases t row
    · rw [e]
      intro a mem
      obtain rfl | mem := mem_place.1 mem
      · exact new a first
      · exact held a mem
    have put : Q (row.replacing old) := replacing row old first same
    have rest : ∀ a ∈ front ++ back, Q a := by
      intro a mem
      refine held a ?_
      exact List.mem_append.2 ((List.mem_append.1 mem).imp_right (List.mem_cons_of_mem _))
    obtain e | e := e
    · rw [e]
      intro a mem
      obtain rfl | mem := mem_place.1 mem
      · exact put
      · exact rest a mem
    · rw [e]
      intro a mem
      obtain mem | mem := List.mem_append.1 mem
      · exact rest a (List.mem_append_left _ mem)
      · obtain rfl | mem := List.mem_cons.1 mem
        · exact put
        · exact rest a (List.mem_append_right _ mem)

/-- Where a row of this side's comes from: the thread held it, the message was reported sent, or it
is the first contact that was refused. -/
inductive Origin (s : DmState I L) (event : RunnerEvent I L) (pk : I) (row : DmThreadRow) : Prop
  | kept (old : DmThreadRow) (mem : old ∈ threadOf s pk) (same : message old = message row)
  | reported (token : Nat) (label : L) (sentAt : Nat) (tells : event = .sent token label row.seq sentAt)
      (about : (s.answer token label).2.identity = some pk)
  | adopted (rows : List (ConversationSummary I L)) (body : String) (reason : Refusal) (time : Nat)
      (tells : event = .roster rows) (named : pk ∈ rows.map (·.peerIdentityPk))
      (absent : ¬ Holds s pk)
      (refused : s.refusedFirstContacts.lookup pk = some (body, reason))
      (same : row = sent 0 (some body) time)

theorem Origin.replacing {row old : DmThreadRow} (h : Origin s event pk row)
    (same : message old = message row) : Origin s event pk (row.replacing old) := by
  have message' : message (row.replacing old) = message row := replacing_message row old
  cases h with
  | kept held mem same => exact .kept held mem (same.trans message'.symm)
  | reported token label sentAt tells about =>
    refine .reported token label sentAt ?_ about
    rw [tells, (Prod.mk.inj message').2]
  | adopted rows body reason time tells named absent refused e =>
    subst e
    cases old with
    | received => cases (Prod.mk.inj same).1
    | sent seq told kept =>
      exact .adopted rows body reason (min time kept) tells named absent refused rfl

theorem own_rows (sound : Sound s) (nowMs : Int) {row : DmThreadRow}
    (mem : row ∈ threadOf (s.fold nowMs event).1 pk) (out : row.outgoing = true) :
    Origin s event pk row := by
  by_cases held : Holds (s.fold nowMs event).1 pk
  · have heard : Heard fun pk (row : DmThreadRow) => row.outgoing = true → Origin s event pk row := by
      intro pk row theirs out
      rw [theirs] at out
      cases out
    have grown := (@fold_extends I L _ _ s _ sound heard event nowMs
      (fun rows tells pk named absent body reason found time _ =>
        .adopted rows body reason time tells named absent found rfl)
      (fun token label n sentAt tells pk about time _ =>
        .reported token label sentAt tells about)).2 pk held
    refine rows_of_extends grown (fun row mem _ => .kept row mem rfl) (fun row h => h) ?_ row mem out
    intro row old h same out
    refine (h ?_).replacing same
    rwa [(Prod.mk.inj (replacing_message row old)).1] at out
  · unfold threadOf entry at mem
    rw [Option.not_isSome_iff_eq_none.1 held] at mem
    cases mem

end Daemonseed.Dm.Reports
