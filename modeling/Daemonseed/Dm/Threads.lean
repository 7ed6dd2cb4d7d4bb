import Daemonseed.Dm.View

/-! # Threads under reports

Whatever is reported in whatever order, a thread only grows by rows that are recorded
in it, and so it stays in order and keeps the bodies that are known. -/
namespace Daemonseed.Dm.Threads
open Daemonseed.Lib.Bytes Daemonseed.Lib.Maps Daemonseed.Dm.Thread Daemonseed.Dm.View
open Daemonseed.Dm.Thread.DmThreadRow Daemonseed.Dm.View.DmState

variable {I L : Type} [DecidableEq I] [DecidableEq L]

/-! ## Threads that grow -/

variable {s s' s'' : DmState I L} {P Q : DmThreadRow → Prop} {t t' t'' : List DmThreadRow}

/-- `t'` is `t` with some rows recorded, each of which has `P`. -/
def Extends (P : DmThreadRow → Prop) (t t' : List DmThreadRow) : Prop :=
  ∃ rows : List DmThreadRow, t' = rows.foldl record t ∧ ∀ row ∈ rows, P row

theorem Extends.refl : Extends P t t := ⟨[], rfl, by simp⟩

theorem Extends.trans (h : Extends P t t') (h' : Extends P t' t'') : Extends P t t'' := by
  obtain ⟨rows, rfl, each⟩ := h
  obtain ⟨rows', rfl, each'⟩ := h'
  exact ⟨rows ++ rows', List.foldl_append.symm, List.forall_mem_append.2 ⟨each, each'⟩⟩

theorem Extends.mono (h : Extends P t t') (le : ∀ row, P row → Q row) : Extends Q t t' := by
  obtain ⟨rows, e, each⟩ := h
  exact ⟨rows, e, fun row mem => le row (each row mem)⟩

theorem Extends.one {row : DmThreadRow} (h : P row) : Extends P t (record t row) :=
  ⟨[row], rfl, by simpa using h⟩

theorem Extends.ordered (h : Extends P t t') (ordered : Ordered t) : Ordered t' := by
  obtain ⟨rows, rfl, -⟩ := h
  exact ordered_records ordered

/-- What `row` says a message of this side's is, it says of what `Q` holds of. -/
def Bodies (Q : Nat → String → Prop) (row : DmThreadRow) : Prop :=
  ∀ n body sentAtMs, row = sent n (some body) sentAtMs → Q n body

theorem bodies_received {Q : Nat → String → Prop} {row : DmThreadRow} (h : row.outgoing = false) :
    Bodies Q row := by
  rintro n body sentAtMs rfl
  cases h

theorem Extends.known {Q : Nat → String → Prop} {n : Nat} {body : String}
    (h : Extends (Bodies Q) t t') (known : Known t n body) :
    ∃ body', Known t' n body' ∧ (body' = body ∨ Q n body') := by
  obtain ⟨rows, rfl, each⟩ := h
  induction rows generalizing t body with
  | nil => exact ⟨body, known, .inl rfl⟩
  | cons row rows ih =>
    obtain ⟨first, others⟩ := List.forall_mem_cons.1 each
    have recorded : ∃ body', Known (record t row) n body' ∧ _ := known_record known
    obtain ⟨body', known', told⟩ := recorded
    obtain ⟨body'', known'', told'⟩ := ih known' others
    refine ⟨body'', known'', told'.elim (fun same => ?_) .inr⟩
    subst same
    exact told.imp id fun ⟨time, e⟩ => first n _ time e

/-! ## States that grow -/

def Holds (s : DmState I L) (pk : I) : Prop := (s.correspondences.lookup pk).isSome = true

def threadOf (s : DmState I L) (pk : I) : List DmThreadRow := (s.entry pk).thread

/-- Only messages of correspondents wait for a label or stand in a preview. -/
structure Sound (s : DmState I L) : Prop where
  unmapped : ∀ x ∈ s.unmapped, x.2.outgoing = false
  previews : ∀ request ∈ s.requests, ∀ row ∈ request.preview, row.outgoing = false

/-- No conversation is dropped, and to each thread only such rows are recorded. -/
def Grows (P : I → DmThreadRow → Prop) (s s' : DmState I L) : Prop :=
  Sound s → Sound s' ∧ ∀ pk, (Holds s pk → Holds s' pk) ∧
    Extends (P pk) (threadOf s pk) (threadOf s' pk)

variable {P : I → DmThreadRow → Prop} {peer pk : I} {f : DmCorrespondence L → DmCorrespondence L}

theorem Grows.trans (h : Grows P s s') (h' : Grows P s' s'') : Grows P s s'' := by
  intro sound
  obtain ⟨sound', grown⟩ := h sound
  obtain ⟨sound'', grown'⟩ := h' sound'
  exact ⟨sound'', fun pk => ⟨fun held => (grown' pk).1 ((grown pk).1 held),
    (grown pk).2.trans (grown' pk).2⟩⟩

theorem Grows.same (conversations : s'.correspondences = s.correspondences)
    (sound : Sound s → Sound s') : Grows P s s' := by
  refine fun h => ⟨sound h, fun pk => ?_⟩
  unfold Holds threadOf entry
  rw [conversations]
  exact ⟨id, .refl⟩

@[simp] theorem entry_withEntry : (s.withEntry peer f).entry pk =
    if pk = peer then f (s.entry peer) else s.entry pk := by
  unfold entry withEntry
  by_cases same : pk = peer
  · subst same
    simp [entry]
  · rw [if_neg same]
    dsimp only
    rw [AList.lookup_insert_ne same]

theorem holds_withEntry : Holds (s.withEntry peer f) pk ↔ pk = peer ∨ Holds s pk := by
  unfold Holds withEntry
  by_cases same : pk = peer
  · subst same
    simp
  · dsimp only
    rw [AList.lookup_insert_ne same]
    simp [same]

theorem Grows.withEntry (h : Extends (P peer) (threadOf s peer) (f (s.entry peer)).thread) :
    Grows P s (s.withEntry peer f) := by
  refine fun sound => ⟨⟨sound.unmapped, sound.previews⟩, fun pk =>
    ⟨fun held => holds_withEntry.2 (.inr held), ?_⟩⟩
  unfold threadOf
  rw [entry_withEntry]
  split <;> rename_i same
  · exact same ▸ h
  · exact .refl

theorem Grows.updateEntry (h : (f (s.entry peer)).thread = threadOf s peer) :
    Grows P s (s.updateEntry peer f) := by
  unfold DmState.updateEntry
  split
  · exact .withEntry (h ▸ .refl)
  · exact .same rfl id

theorem grows_nextActivity : Grows P s s.nextActivity :=
  .same rfl fun sound => ⟨sound.unmapped, sound.previews⟩

/-- Rows of correspondents are told of, whatever else is. -/
def Heard (P : I → DmThreadRow → Prop) : Prop := ∀ pk row, row.outgoing = false → P pk row

theorem grows_mapLabel (heard : Heard P) {label : L} : Grows P s (s.mapLabel label peer) := by
  intro sound
  have mine : ∀ row ∈ (s.unmapped.filter (·.1 = label)).map Prod.snd, row.outgoing = false := by
    intro row mem
    obtain ⟨x, held, rfl⟩ := List.mem_map.1 mem
    exact sound.unmapped x (List.mem_of_mem_filter held)
  let parted : DmState I L :=
    { s with
      labels := s.labels.insert label peer
      unmapped := s.unmapped.filter (·.1 ≠ label) }
  have first : Grows P s parted := .same rfl fun sound =>
    ⟨fun x held => sound.unmapped x (List.mem_of_mem_filter held), sound.previews⟩
  have second : Grows P parted
      (if s.unmapped.filter (·.1 = label) = [] then parted else parted.nextActivity) := by
    split
    · exact .same rfl id
    · exact grows_nextActivity
  unfold mapLabel
  exact ((first.trans second).trans
    (.withEntry ⟨_, rfl, fun row mem => heard peer row (mine row mem)⟩)) sound

/-- What a state that holds no conversation with `pk` may record first. -/
def Fresh (P : I → DmThreadRow → Prop) (s : DmState I L) : Prop :=
  ∀ pk row, ¬ Holds s pk → P pk row

/-- What may be recorded of the first contact with `pk` that was refused. -/
def Refused (P : I → DmThreadRow → Prop) (s : DmState I L) (pk : I) : Prop :=
  ∀ body reason, s.refusedFirstContacts.lookup pk = some (body, reason) →
    ∀ time, P pk (sent 0 (some body) time)

/-- What is recorded first may be the first contact that was refused. -/
theorem Fresh.refused (h : Fresh P s) (absent : ¬ Holds s pk) : Refused P s pk :=
  fun _ _ _ _ => h pk _ absent

theorem grows_listed (heard : Heard P) {row : ConversationSummary I L} :
    Grows P s (s.listed row) := by
  have first : ∀ changed : Bool, Grows P s (if changed then s.nextActivity else s) := by
    intro changed
    split
    · exact grows_nextActivity
    · exact .same rfl id
  unfold listed
  exact ((first _).trans (grows_mapLabel heard)).trans (.withEntry .refl)

theorem grows_adoptRefused {new : Bool} {nowMs : Int} (fresh : new = true → Refused P s peer) :
    Grows P s (s.adoptRefused new peer nowMs) := by
  unfold adoptRefused
  split
  · exact .same rfl id
  · rename_i body reason found
    dsimp only
    refine Grows.trans ?_ (.withEntry ?_)
    · exact .same rfl fun sound => ⟨sound.unmapped, sound.previews⟩
    dsimp only
    split <;> rename_i here
    · exact .one (fresh here body reason found _)
    · exact .refl

theorem refused_listed {row : ConversationSummary I L} :
    (s.listed row).refusedFirstContacts = s.refusedFirstContacts := by
  unfold listed mapLabel withEntry nextActivity
  dsimp only
  split <;> split <;> rfl

theorem grows_rosterRow (heard : Heard P) {row : ConversationSummary I L} {nowMs : Int}
    (fresh : ¬ Holds s row.peerIdentityPk → Refused P s row.peerIdentityPk) :
    Grows P s (rosterRow nowMs s row) := by
  refine (grows_listed heard).trans (grows_adoptRefused fun new => ?_)
  have absent : ¬ Holds s row.peerIdentityPk := by
    rw [Holds, Option.isNone_iff_eq_none.1 new]
    exact Bool.false_ne_true
  intro body reason found
  have held : s.refusedFirstContacts.lookup row.peerIdentityPk = some (body, reason) := by
    rwa [refused_listed] at found
  exact fresh absent body reason held

/-- A row of a roster leaves what was refused, or nothing of it. -/
theorem refused_rosterRow {row : ConversationSummary I L} {nowMs : Int} {told : String × Refusal}
    (h : (rosterRow nowMs s row).refusedFirstContacts.lookup pk = some told) :
    s.refusedFirstContacts.lookup pk = some told := by
  unfold rosterRow adoptRefused at h
  dsimp only at h
  split at h
  · rwa [refused_listed] at h
  · unfold DmState.withEntry at h
    dsimp only at h
    by_cases same : pk = row.peerIdentityPk
    · rw [same, AList.lookup_erase] at h
      cases h
    · rwa [AList.lookup_erase_ne same, refused_listed] at h

theorem grows_collected (heard : Heard P) {label : L} {row : DmThreadRow}
    (theirs : row.outgoing = false) : Grows P s (s.collected label row) := by
  unfold collected
  cases s.labels.lookup label with
  | some peer =>
    exact grows_nextActivity.trans (.withEntry (.one (heard peer row theirs)))
  | none =>
    refine .same rfl fun sound => ⟨fun x mem => ?_, sound.previews⟩
    obtain old | new := List.mem_append.1 mem
    · refine sound.unmapped x ?_
      split at old
      · exact List.mem_of_mem_drop old
      · exact old
    · exact List.mem_singleton.1 new ▸ theirs

theorem forall_mem_modify {α : Type} {p : α → Prop} {l : List α} {f : α → α} (h : ∀ a ∈ l, p a)
    (step : ∀ a, p a → p (f a)) (i : Nat) : ∀ a ∈ l.modify i f, p a := by
  induction l generalizing i with
  | nil => simp
  | cons a l ih =>
    obtain ⟨first, others⟩ := List.forall_mem_cons.1 h
    cases i with
    | zero => exact List.forall_mem_cons.2 ⟨step a first, others⟩
    | succ i => exact List.forall_mem_cons.2 ⟨first, ih others i⟩

theorem grows_holdRequest {request : Nat} {sender : I} {startedOver : Bool} {nowMs : Int} :
    Grows P s (s.holdRequest request sender startedOver nowMs).1 := by
  unfold holdRequest
  split
  · exact .same rfl id
  dsimp only
  split
  · refine .same rfl fun sound => ⟨sound.unmapped, forall_mem_modify sound.previews ?_ _⟩
    intro r shown row mem
    dsimp only at mem
    split at mem
    · cases mem
    · exact shown row mem
  · refine .same rfl fun sound => ⟨sound.unmapped, fun r mem => ?_⟩
    obtain old | new := List.mem_append.1 mem
    · refine sound.previews r ?_
      split at old
      · exact List.mem_of_mem_drop old
      · exact old
    · obtain rfl := List.mem_singleton.1 new
      simp

theorem grows_requestPreview {request : Nat} {messages : List ReceivedMessage} {readAt : Nat} :
    Grows P s (s.requestPreview request messages readAt) := by
  unfold requestPreview
  refine .same rfl fun sound => ⟨sound.unmapped, forall_mem_modify sound.previews ?_ _⟩
  intro r _ row mem
  obtain ⟨message, -, rfl⟩ := List.mem_map.1 mem
  rfl

theorem grows_answer {token : Nat} {label : L} : Grows P s (s.answer token label).1 := by
  unfold answer
  dsimp only
  split
  · exact .same rfl fun sound => ⟨sound.unmapped, sound.previews⟩
  · exact .same rfl fun sound => ⟨sound.unmapped, sound.previews⟩
  · exact .same rfl fun sound => ⟨sound.unmapped, sound.previews⟩
  · refine .same rfl fun sound => ⟨sound.unmapped, fun r mem => ?_⟩
    refine forall_mem_modify sound.previews ?_ _ r (List.mem_of_mem_filter mem)
    intro r _
    simp

/-- What is known of a message that was sent is what its command said. -/
theorem answer_body {token : Nat} {label : L} {body : String}
    (h : (s.answer token label).2.body = some body) :
    ∃ command, s.outstanding.lookup token = some command ∧ command.body = body := by
  unfold answer at h
  dsimp only at h
  split at h <;> rename_i found
  · cases h
  · refine ⟨_, found, ?_⟩
    dsimp only at h
    split at h
    · cases h
    · exact Option.some.inj h
  · exact ⟨_, found, Option.some.inj h⟩
  · exact ⟨_, found, Option.some.inj h⟩

theorem answer_previewed (sound : Sound s) {token : Nat} {label : L} :
    ∀ row ∈ (s.answer token label).2.previewed, row.outgoing = false := by
  unfold answer
  dsimp only
  split
  · simp
  · simp
  · simp
  · dsimp only
    intro row mem
    cases found : s.requests.find? _ with
    | none =>
      rw [found] at mem
      cases mem
    | some request =>
      rw [found] at mem
      exact sound.previews request (List.mem_of_find?_eq_some found) row mem

theorem extends_previewed {rows : List DmThreadRow} (each : ∀ row ∈ rows, Q row) :
    Extends Q t (rows.foldl recordPreviewed t) := by
  induction rows generalizing t with
  | nil => exact .refl
  | cons row rows ih =>
    obtain ⟨first, others⟩ := List.forall_mem_cons.1 each
    refine Extends.trans ?_ (ih others)
    unfold recordPreviewed
    split
    · exact .refl
    · exact .one first

/-- Whom a report of a message sent is about has the message recorded. -/
theorem grows_reportSent (heard : Heard P) {token : Nat} {label : L} {n sentAt : Nat}
    (said : ∀ pk, (s.answer token label).2.identity = some pk → ∀ time,
      P pk (sent n (s.answer token label).2.body time)) :
    Grows P s (s.reportSent token label n sentAt) := by
  intro sound
  have previewed : ∀ row ∈ (s.answer token label).2.previewed, row.outgoing = false :=
    answer_previewed sound
  have answered : Grows P s (s.answer token label).1 := grows_answer
  unfold reportSent
  dsimp only
  cases about : (s.answer token label).2.identity with
  | none => exact answered sound
  | some identity =>
    rw [Option.elim_some]
    have recorded : Grows P ((s.answer token label).1.mapLabel label identity)
        (((s.answer token label).1.mapLabel label identity).recordSent (s.answer token label).2
          ((s.outstanding.lookup token).any DmOutstanding.isAccept) identity n sentAt) := by
      unfold recordSent
      refine grows_nextActivity.trans (.withEntry ?_)
      exact (extends_previewed fun row mem => heard identity row (previewed row mem)).trans
        (.one (said identity about _))
    exact ((answered.trans (grows_mapLabel heard)).trans recorded) sound

theorem grows_reportDelivered {label : L} {n : Nat} : Grows P s (s.reportDelivered label n) := by
  unfold reportDelivered
  cases s.labels.lookup label with
  | none => exact .same rfl id
  | some peer =>
    rw [Option.elim_some]
    exact .updateEntry rfl

theorem grows_reportAccepted {label : L} : Grows P s (s.reportAccepted label) := by
  unfold reportAccepted
  cases s.labels.lookup label with
  | none => exact .same rfl id
  | some peer =>
    rw [Option.elim_some]
    exact grows_nextActivity.trans (.withEntry .refl)

theorem grows_reportRefused {token : Option Nat} {reason : Refusal} :
    Grows P s (s.reportRefused token reason).1 := by
  unfold reportRefused
  cases token with
  | none => exact .same rfl fun sound => ⟨sound.unmapped, sound.previews⟩
  | some token =>
    dsimp only
    split
    · exact .same rfl fun sound => ⟨sound.unmapped, sound.previews⟩
    · split
      · dsimp only
        refine Grows.trans ?_ (.updateEntry rfl)
        exact .same rfl fun sound => ⟨sound.unmapped, sound.previews⟩
      · exact .same rfl fun sound => ⟨sound.unmapped, sound.previews⟩
    · dsimp only
      refine Grows.trans ?_ (.updateEntry rfl)
      exact .same rfl fun sound => ⟨sound.unmapped, sound.previews⟩
    · exact .same rfl fun sound => ⟨sound.unmapped, sound.previews⟩

theorem grows_stop : Grows P s s.stop.1 := by
  have marks : ∀ (commands : List (DmOutstanding I)) (s : DmState I L),
      Grows P s (commands.foldl unsent s) := by
    intro commands
    induction commands with
    | nil => exact fun s => .same rfl id
    | cons command commands ih =>
      intro s
      refine Grows.trans ?_ (ih (s.unsent command))
      cases command with
      | accept => exact .same rfl id
      | firstContact => exact .updateEntry rfl
      | send => exact .updateEntry rfl
  unfold stop
  refine Grows.trans ?_ (marks _ _)
  exact .same rfl fun _ => ⟨by simp, by simp⟩

/-! ## Every report -/

/-- The report answers a command that said `body`, as the message `n`. -/
def Answers (s : DmState I L) (input : Input I L) (n : Nat) (body : String) : Prop :=
  ∃ token label sentAt nowMs command, input = .event (.sent token label n sentAt) nowMs ∧
    s.outstanding.lookup token = some command ∧ command.body = body

/-- What an input may record: no body but the one of the command it answers, or any where no
conversation was held. -/
def May (s : DmState I L) (input : Input I L) (pk : I) : DmThreadRow → Prop :=
  Bodies fun n body => ¬ Holds s pk ∨ Answers s input n body

theorem heard_may {input : Input I L} : Heard (May s input) := fun _ _ theirs => bodies_received theirs

theorem holds_rosterRow {row : ConversationSummary I L} {nowMs : Int}
    (h : Holds (rosterRow nowMs s row) pk) : pk = row.peerIdentityPk ∨ Holds s pk := by
  have listed : Holds (s.listed row) pk → pk = row.peerIdentityPk ∨ Holds s pk := by
    intro h
    unfold DmState.listed at h
    obtain same | h := holds_withEntry.1 h
    · exact .inl same
    unfold mapLabel at h
    obtain same | h := holds_withEntry.1 h
    · exact .inl same
    refine .inr ?_
    split at h <;> split at h <;> exact h
  unfold rosterRow adoptRefused at h
  dsimp only at h
  split at h
  · exact listed h
  · obtain same | h := holds_withEntry.1 h
    · exact .inl same
    · exact listed h

/-- A roster's conversations are those it names, each as it was but for what is heard now. -/
theorem extends_rosterRows {pks : List I} {rows : List (ConversationSummary I L)} (nowMs : Int)
    (heard : Heard P) (fresh : ∀ pk ∈ pks, ¬ Holds s pk → Refused P s pk)
    (among : ∀ row ∈ rows, row.peerIdentityPk ∈ pks) (sound : Sound s')
    (before : ∀ pk, Holds s pk → pk ∈ pks → Holds s' pk) (within : ∀ pk, Holds s' pk → pk ∈ pks)
    (left : ∀ pk told, s'.refusedFirstContacts.lookup pk = some told →
      s.refusedFirstContacts.lookup pk = some told) :
    Sound (rows.foldl (rosterRow nowMs) s') ∧ ∀ pk, Holds (rows.foldl (rosterRow nowMs) s') pk →
      pk ∈ pks ∧ Extends (P pk) (threadOf s' pk) (threadOf (rows.foldl (rosterRow nowMs) s') pk) := by
  induction rows generalizing s' with
  | nil => exact ⟨sound, fun pk held => ⟨within pk held, .refl⟩⟩
  | cons row rows ih =>
    obtain ⟨mem, others⟩ := List.forall_mem_cons.1 among
    have first : Grows P s' (rosterRow nowMs s' row) :=
      grows_rosterRow heard fun absent body reason found =>
        fresh _ mem (fun held => absent (before _ held mem)) body reason (left _ _ found)
    obtain ⟨sound', grown⟩ := first sound
    obtain ⟨sound'', rest⟩ := ih others sound'
      (fun pk held named => (grown pk).1 (before pk held named))
      (fun pk held => (holds_rosterRow held).elim (· ▸ mem) (within pk))
      fun pk told found => left pk told (refused_rosterRow found)
    refine ⟨sound'', fun pk held => ?_⟩
    obtain ⟨named, later⟩ := rest pk held
    exact ⟨named, (grown pk).2.trans later⟩

theorem named_lookup {pks : List I} {pk : I} (mem : pk ∈ pks) :
    (s.named pks).correspondences.lookup pk = s.correspondences.lookup pk := by
  unfold named
  dsimp only
  rw [Map.lookup_retain]
  cases s.correspondences.lookup pk <;> simp [mem]

theorem holds_named {pks : List I} {pk : I} (h : Holds (s.named pks) pk) : pk ∈ pks := by
  unfold Holds named at h
  dsimp only at h
  obtain ⟨c, found⟩ := Option.isSome_iff_exists.1 h
  simpa using (Map.lookup_retain_some.1 found).2

theorem extends_roster (sound : Sound s) {rows : List (ConversationSummary I L)} {nowMs : Int}
    (heard : Heard P)
    (fresh : ∀ pk ∈ rows.map (·.peerIdentityPk), ¬ Holds s pk → Refused P s pk) :
    Sound (s.roster rows nowMs) ∧ ∀ pk, Holds (s.roster rows nowMs) pk →
      Extends (P pk) (threadOf s pk) (threadOf (s.roster rows nowMs) pk) := by
  have sound' : Sound (s.named (rows.map (·.peerIdentityPk))) := ⟨sound.unmapped, sound.previews⟩
  obtain ⟨after, grown⟩ := extends_rosterRows nowMs heard fresh
    (fun row mem => List.mem_map_of_mem mem) sound'
    (fun pk held mem => by rwa [Holds, named_lookup mem]) (fun pk held => holds_named held)
    fun _ _ found => found
  refine ⟨⟨after.unmapped, fun request mem => after.previews request (List.mem_of_mem_filter mem)⟩,
    fun pk held => ?_⟩
  obtain ⟨mem, extends_⟩ := grown pk held
  have same : threadOf (s.named (rows.map (·.peerIdentityPk))) pk = threadOf s pk := by
    rw [threadOf, entry, named_lookup mem]
    rfl
  rw [same] at extends_
  exact extends_

theorem extends_deleted (sound : Sound s) {token : Nat} {label : L} {Q : I → DmThreadRow → Prop} :
    Sound (s.reportDeleted token label) ∧ ∀ pk, Holds (s.reportDeleted token label) pk →
      Extends (Q pk) (threadOf s pk) (threadOf (s.reportDeleted token label) pk) := by
  unfold reportDeleted
  dsimp only
  cases s.labels.lookup label with
  | none => exact ⟨⟨sound.unmapped, sound.previews⟩, fun pk _ => .refl⟩
  | some identity =>
    refine ⟨⟨sound.unmapped, sound.previews⟩, fun pk held => ?_⟩
    unfold Holds at held
    dsimp only at held
    have other : pk ≠ identity := by
      rintro rfl
      rw [AList.lookup_erase] at held
      cases held
    unfold threadOf entry
    dsimp only
    rw [AList.lookup_erase_ne other]
    exact .refl

theorem contact_cases (peer : I) (body : String) : step s (.contact peer body) = s ∨
    step s (.contact peer body) = (s.issue (.firstContact peer body)).1 := by
  unfold step DmState.firstContact
  dsimp only
  split
  · exact .inl rfl
  · split
    · exact .inl rfl
    · split
      · exact .inl rfl
      · exact .inr rfl

/-- A fold records what a message that was sent is told of, and the first contact that was refused,
in the thread they are of. -/
theorem fold_extends (sound : Sound s) (heard : Heard P) {event : RunnerEvent I L} (nowMs : Int)
    (refused : ∀ rows, event = .roster rows → ∀ pk ∈ rows.map (·.peerIdentityPk), ¬ Holds s pk →
      Refused P s pk)
    (said : ∀ token label n sentAt, event = .sent token label n sentAt → ∀ pk,
      (s.answer token label).2.identity = some pk → ∀ time,
        P pk (sent n (s.answer token label).2.body time)) :
    Sound (s.fold nowMs event).1 ∧ ∀ pk, Holds (s.fold nowMs event).1 pk →
      Extends (P pk) (threadOf s pk) (threadOf (s.fold nowMs event).1 pk) := by
  have grown : Grows P s (s.fold nowMs event).1 → Sound (s.fold nowMs event).1 ∧
      ∀ pk, Holds (s.fold nowMs event).1 pk →
        Extends (P pk) (threadOf s pk) (threadOf (s.fold nowMs event).1 pk) := by
    intro h
    obtain ⟨sound', all⟩ := h sound
    exact ⟨sound', fun pk _ => (all pk).2⟩
  cases event with
  | roster rows => exact extends_roster sound heard (refused rows rfl)
  | deleted token peer => exact extends_deleted sound
  | contactRequest request sender => exact grown grows_holdRequest
  | startedOver request sender => exact grown grows_holdRequest
  | requestPreview request messages readAt => exact grown grows_requestPreview
  | message label seq body sentAt receivedAt => exact grown (grows_collected heard rfl)
  | sent token label seq sentAt => exact grown (grows_reportSent heard (said token label seq sentAt rfl))
  | delivered peer throughSeq => exact grown grows_reportDelivered
  | accepted peer => exact grown grows_reportAccepted
  | refused token reason => exact grown grows_reportRefused
  | health => exact grown (.same rfl fun sound => ⟨sound.unmapped, sound.previews⟩)
  | advert published => exact grown (.same rfl fun sound => ⟨sound.unmapped, sound.previews⟩)
  | blockList identities =>
    refine grown (.same rfl fun sound => ⟨sound.unmapped, fun request mem => ?_⟩)
    exact sound.previews request (List.mem_of_mem_filter mem)
  | blockListUnreadable => exact grown (.same rfl fun sound => ⟨sound.unmapped, sound.previews⟩)

theorem step_extends (sound : Sound s) (input : Input I L) :
    Sound (step s input) ∧ ∀ pk, Holds (step s input) pk →
      Extends (May s input pk) (threadOf s pk) (threadOf (step s input) pk) := by
  have grown : Grows (May s input) s (step s input) → Sound (step s input) ∧
      ∀ pk, Holds (step s input) pk →
        Extends (May s input pk) (threadOf s pk) (threadOf (step s input) pk) := by
    intro h
    obtain ⟨sound', all⟩ := h sound
    exact ⟨sound', fun pk _ => (all pk).2⟩
  have hidden : ∀ sender : I, ∀ request ∈ s.requests.filter (·.sender ≠ sender),
      ∀ row ∈ request.preview, row.outgoing = false :=
    fun sender request mem => sound.previews request (List.mem_of_mem_filter mem)
  cases input with
  | event event nowMs =>
    refine fold_extends sound heard_may nowMs (fun rows _ pk _ => Fresh.refused ?_) ?_
    · exact fun pk row absent _ _ _ _ => .inl absent
    · rintro token label n sentAt rfl pk - time n' body sentAtMs same
      obtain ⟨rfl, said, rfl⟩ := DmThreadRow.sent.inj same
      obtain ⟨command, found, rfl⟩ := answer_body said
      exact .inr ⟨token, label, sentAt, nowMs, command, rfl, found, rfl⟩
  | contact peer body =>
    refine grown ?_
    obtain e | e := contact_cases (s := s) peer body
    · rw [e]
      exact .same rfl id
    · rw [e]
      exact .same rfl fun sound => ⟨sound.unmapped, sound.previews⟩
  | issue command => exact grown (.same rfl fun sound => ⟨sound.unmapped, sound.previews⟩)
  | decline sender => exact grown (.same rfl fun sound => ⟨sound.unmapped, hidden sender⟩)
  | block sender => exact grown (.same rfl fun sound => ⟨sound.unmapped, hidden sender⟩)
  | stop => exact grown grows_stop

/-! ## Runs -/

/-- What is reachable: threads in order, and nothing but messages of correspondents held back. -/
structure Reached (s : DmState I L) : Prop where
  sound : Sound s
  ordered : ∀ pk, Ordered (threadOf s pk)

theorem Reached.step (h : Reached s) (input : Input I L) : Reached (step s input) := by
  obtain ⟨sound, grown⟩ := step_extends h.sound input
  refine ⟨sound, fun pk => ?_⟩
  by_cases held : Holds (View.step s input) pk
  · exact (grown pk held).ordered (h.ordered pk)
  · unfold threadOf entry
    rw [Option.not_isSome_iff_eq_none.1 held]
    exact .nil

theorem Reached.run (h : Reached s) (inputs : List (Input I L)) : Reached (run s inputs) := by
  induction inputs generalizing s with
  | nil => exact h
  | cons input inputs ih => exact ih (h.step input)

theorem reached (inputs : List (Input I L)) : Reached (run {} inputs) :=
  Reached.run ⟨⟨by simp, by simp⟩, fun _ => by simp [threadOf, entry, Ordered]⟩ inputs

end Daemonseed.Dm.Threads
