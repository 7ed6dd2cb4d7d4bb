import Daemonseed.Dm.Reports
import Daemonseed.Gui.DmDrawn

/-! # What the composed messages keep to

The runner commits what it is given in the order of the tokens, a conversation at a
time. As long as a composed message is tied to no sequence but the one it was committed
under, the messages composed to one person stand in the order of their tokens and of
their sequences. -/
namespace Daemonseed.Gui.DmKept
open Daemonseed.Lib.Maps Daemonseed.Dm.Thread Daemonseed.Dm.Threads Daemonseed.Dm.Reports
open Daemonseed.Gui.DirectMessages
open Daemonseed.Dm.View hiding Input step run

variable {I L : Type} [DecidableEq I] [DecidableEq L]

/-- What there is on the runner's side: whom each label is of, and the sequence that the message
of a token to a person was committed under. -/
structure Runner (I L : Type) where
  names : L → I
  committed : I → Nat → Option Nat
  ascending : ∀ peer token token' n n', token < token' → committed peer token = some n →
    committed peer token' = some n' → n < n'

/-! ## The messages of a person -/

variable {dm dm' : GuiDm I L} {peer : I} {token : Nat} {f : Composed → Composed}

theorem thread_eq (dm : GuiDm I L) (peer : I) : dm.thread peer = threadOf dm.state peer := by
  unfold GuiDm.thread GuiDm.conversation threadOf DmState.entry
  cases dm.state.correspondences.lookup peer with
  | none => rfl
  | some c => rfl

theorem messages_congr (composed : dm'.composed = dm.composed) (peer : I) :
    dm'.messages peer = dm.messages peer := by
  unfold GuiDm.messages
  rw [composed]

theorem messages_insert {messages : List Composed} {other : I}
    (composed : dm'.composed = dm.composed.insert peer messages) :
    dm'.messages other = if other = peer then messages else dm.messages other := by
  unfold GuiDm.messages
  rw [composed]
  split <;> rename_i same
  · rw [same, AList.lookup_insert]
    rfl
  · rw [AList.lookup_insert_ne same]

theorem messages_each (dm dm' : GuiDm I L) (g : I → List Composed → List Composed)
    (empty : ∀ peer, g peer [] = [])
    (composed : dm'.composed = dm.composed.each g) (peer : I) :
    dm'.messages peer = g peer (dm.messages peer) := by
  unfold GuiDm.messages
  rw [composed, Map.lookup_each]
  cases dm.composed.lookup peer with
  | none => exact (empty peer).symm
  | some messages => rfl

theorem modify_length {α : Type} (front back : List α) (x : α) (f : α → α) :
    (front ++ x :: back).modify front.length f = front ++ f x :: back := by
  induction front with
  | nil => rfl
  | cons y front ih => rw [List.cons_append, List.length_cons, List.modify_succ_cons, ih]; rfl

/-- The first that passes is changed, where one does. -/
theorem modify_first {α : Type} (p : α → Bool) (f : α → α) (l : List α) :
    (l.modify (l.findIdx p) f = l ∧ ∀ x ∈ l, p x = false) ∨
      ∃ front x back, l = front ++ x :: back ∧ p x = true ∧
        l.modify (l.findIdx p) f = front ++ f x :: back := by
  obtain ⟨front, back, rfl, index, before, here⟩ := findIdx_split p l
  rw [index]
  cases back with
  | nil =>
    refine .inl ⟨?_, by simpa using before⟩
    rw [List.append_nil]
    exact List.modify_eq_self (Nat.le_refl _)
  | cons x back =>
    exact .inr ⟨front, x, back, rfl, here x rfl, modify_length front back x f⟩

theorem listed {m : Composed} (mem : m ∈ dm.messages peer) :
    ∃ messages, ⟨peer, messages⟩ ∈ dm.composed.entries ∧ m ∈ messages := by
  unfold GuiDm.messages at mem
  cases found : dm.composed.lookup peer with
  | none =>
    rw [found] at mem
    cases mem
  | some messages =>
    rw [found] at mem
    exact ⟨messages, AList.mem_lookup_iff.1 found, mem⟩

/-- A token changes one message, or there is none of it. -/
theorem composedMut_cases (dm : GuiDm I L) (token : Nat) (f : Composed → Composed) :
    (dm.composedMut token f = dm ∧ ∀ peer, ∀ m ∈ dm.messages peer, m.token ≠ token) ∨
    ∃ peer front m back, dm.messages peer = front ++ m :: back ∧ m.token = token ∧
      (dm.composedMut token f).messages peer = front ++ f m :: back ∧
      ∀ other, other ≠ peer → (dm.composedMut token f).messages other = dm.messages other := by
  unfold GuiDm.composedMut GuiDm.peerOf
  cases found : dm.composed.entries.find? fun e => e.2.any (·.token = token) with
  | none =>
    refine .inl ⟨rfl, fun peer m mem same => ?_⟩
    obtain ⟨messages, entry, held⟩ := listed mem
    have := List.find?_eq_none.1 found _ entry
    exact this (List.any_eq_true.2 ⟨m, held, decide_eq_true same⟩)
  | some e =>
    obtain ⟨peer, messages⟩ := e
    have held : dm.messages peer = messages := by
      unfold GuiDm.messages
      rw [AList.mem_lookup_iff.2 (List.mem_of_find?_eq_some found)]
      rfl
    have some_ : messages.any (·.token = token) = true := by simpa using List.find?_some found
    right
    rw [Option.map_some, Option.elim_some]
    dsimp only
    obtain ⟨-, none_⟩ | ⟨front, m, back, split, passes, changed⟩ :=
      modify_first (fun m : Composed => decide (m.token = token)) f (dm.messages peer)
    · obtain ⟨m, mem, passes⟩ := List.any_eq_true.1 some_
      rw [none_ m (held ▸ mem)] at passes
      cases passes
    · refine ⟨peer, front, m, back, split, of_decide_eq_true passes, ?_, fun other apart => ?_⟩
      · rw [messages_insert rfl, if_pos rfl]
        exact changed
      · rw [messages_insert rfl, if_neg apart]

@[simp] theorem state_composedMut : (dm.composedMut token f).state = dm.state := by
  unfold GuiDm.composedMut
  cases dm.peerOf token with
  | none => rfl
  | some peer => rfl

/-! ## The invariant -/

/-- A composed message is tied to no sequence but its own, and a reply that was refused to none. -/
structure Fair (runner : Runner I L) (peer : I) (m : Composed) : Prop where
  tied : ∀ n, m.seq = some n → runner.committed peer m.token = some n
  reply : m.accept = true → m.firstContact = false ∧ (m.refusal.isSome = true → m.seq = none)

structure Kept (runner : Runner I L) (R : I → Nat → Prop) (dm : GuiDm I L) : Prop where
  reached : Reached dm.state
  faithful : Faithful runner.names R dm.state
  ascending : ∀ peer, ((dm.messages peer).map (·.token)).Pairwise (· < ·)
  issued : ∀ peer, ∀ m ∈ dm.messages peer, m.token ≤ dm.state.lastToken
  apart : ∀ peer peer', ∀ m ∈ dm.messages peer, ∀ m' ∈ dm.messages peer', m.token = m'.token →
    peer = peer'
  waiting : ∀ token command, dm.state.outstanding.lookup token = some command →
    token ≤ dm.state.lastToken ∧ ∀ peer, ∀ m ∈ dm.messages peer, m.token = token →
      peer = addressee command ∧ m.pending = true
  fair : ∀ peer, ∀ m ∈ dm.messages peer, Fair runner peer m

/-- Each row of this side's has a composed message that stands for it. -/
def Stood (dm : GuiDm I L) : Prop :=
  ∀ peer, ∀ row ∈ threadOf dm.state peer, row.outgoing = true →
    row.seq ∈ (dm.messages peer).filterMap (·.seq)

variable {runner : Runner I L} {R R' : I → Nat → Prop}

namespace Kept

/-- A state that waits for no more, and of which the same is known. -/
theorem folded (h : Kept runner R dm) (messages : ∀ peer, dm'.messages peer = dm.messages peer)
    (reached : Reached dm'.state) (faithful : Faithful runner.names R' dm'.state)
    (waits : Waits dm.state dm'.state) : Kept runner R' dm' where
  reached
  faithful
  ascending peer := messages peer ▸ h.ascending peer
  issued peer m mem := by
    rw [waits.lastToken]
    exact h.issued peer m (messages peer ▸ mem)
  apart peer peer' m mem m' mem' :=
    h.apart peer peer' m (messages peer ▸ mem) m' (messages peer' ▸ mem')
  waiting token command waiting := by
    obtain ⟨le, each⟩ := h.waiting token command (waits.outstanding token command waiting)
    exact ⟨waits.lastToken ▸ le, fun peer m mem => each peer m (messages peer ▸ mem)⟩
  fair peer m mem := h.fair peer m (messages peer ▸ mem)

/-- The messages are changed, and none of them is another's. -/
theorem changed (h : Kept runner R dm) (state : dm'.state = dm.state)
    (tokens : ∀ peer, (dm'.messages peer).map (·.token) = (dm.messages peer).map (·.token))
    (fair : ∀ peer, ∀ m ∈ dm'.messages peer, Fair runner peer m)
    (pending : ∀ peer, ∀ m ∈ dm'.messages peer,
      (dm.state.outstanding.lookup m.token).isSome = true → m.pending = true) :
    Kept runner R dm' := by
  have was : ∀ peer, ∀ m ∈ dm'.messages peer, ∃ old ∈ dm.messages peer, old.token = m.token := by
    intro peer m mem
    have token : m.token ∈ (dm'.messages peer).map (·.token) := List.mem_map_of_mem mem
    rw [tokens] at token
    exact List.mem_map.1 token
  refine ⟨state ▸ h.reached, state ▸ h.faithful, fun peer => tokens peer ▸ h.ascending peer,
    fun peer m mem => ?_, fun peer peer' m mem m' mem' same => ?_, fun token command waits => ?_, fair⟩
  · obtain ⟨old, held, e⟩ := was peer m mem
    rw [state, ← e]
    exact h.issued peer old held
  · obtain ⟨old, held, e⟩ := was peer m mem
    obtain ⟨old', held', e'⟩ := was peer' m' mem'
    exact h.apart peer peer' old held old' held' (e.trans (same.trans e'.symm))
  · rw [state] at waits ⊢
    obtain ⟨le, each⟩ := h.waiting token command waits
    refine ⟨le, fun peer m mem same => ?_⟩
    obtain ⟨old, held, e⟩ := was peer m mem
    exact ⟨(each peer old held (e.trans same)).1,
      pending peer m mem (by rw [same, waits]; rfl)⟩

/-- Some messages are dropped. -/
theorem dropped (h : Kept runner R dm) (state : dm'.state = dm.state)
    (sub : ∀ peer, (dm'.messages peer).Sublist (dm.messages peer)) : Kept runner R dm' := by
  refine ⟨state ▸ h.reached, state ▸ h.faithful,
    fun peer => (h.ascending peer).sublist ((sub peer).map _),
    fun peer m mem => state ▸ h.issued peer m ((sub peer).subset mem),
    fun peer peer' m mem m' mem' =>
      h.apart peer peer' m ((sub peer).subset mem) m' ((sub peer').subset mem'),
    fun token command waits => ?_, fun peer m mem => h.fair peer m ((sub peer).subset mem)⟩
  rw [state] at waits ⊢
  obtain ⟨le, each⟩ := h.waiting token command waits
  exact ⟨le, fun peer m mem => each peer m ((sub peer).subset mem)⟩

end Kept

/-- What `dm` knows of sequences `dm'` knows, of the same threads. -/
theorem Stood.of (h : Stood dm) (threads : ∀ peer, threadOf dm'.state peer = threadOf dm.state peer)
    (seqs : ∀ peer, ∀ m ∈ dm.messages peer, ∀ n, m.seq = some n →
      ∃ m ∈ dm'.messages peer, m.seq = some n) : Stood dm' := by
  intro peer row mem out
  rw [threads] at mem
  obtain ⟨m, held, seq⟩ := List.mem_filterMap.1 (h peer row mem out)
  obtain ⟨m', held', seq'⟩ := seqs peer m held _ seq
  exact List.mem_filterMap.2 ⟨m', held', seq'⟩

/-! ## Steps that leave the messages -/

theorem Kept.congr (h : Kept runner R dm) (composed : dm'.composed = dm.composed)
    (state : dm'.state = dm.state) : Kept runner R dm' :=
  h.dropped state fun peer => by rw [messages_congr composed]

theorem Stood.congr (h : Stood dm) (composed : dm'.composed = dm.composed)
    (state : dm'.state = dm.state) : Stood dm' :=
  h.of (fun peer => by rw [state]) fun peer m mem n seq =>
    ⟨m, by rwa [messages_congr composed], seq⟩

/-! ## Answers -/

theorem mem_composedMut {m : Composed} (mem : m ∈ (dm.composedMut token f).messages peer) :
    m ∈ dm.messages peer ∨ ∃ old ∈ dm.messages peer, old.token = token ∧ m = f old := by
  obtain ⟨same, -⟩ | ⟨peer', front, old, back, held, token, changed, others⟩ :=
    composedMut_cases dm token f
  · exact .inl (same ▸ mem)
  by_cases e : peer = peer'
  · subst e
    rw [changed] at mem
    rw [held]
    obtain mem | mem := List.mem_append.1 mem
    · exact .inl (List.mem_append_left _ mem)
    · obtain rfl | mem := List.mem_cons.1 mem
      · exact .inr ⟨old, by simp, token, rfl⟩
      · exact .inl (List.mem_append_right _ (List.mem_cons_of_mem _ mem))
  · exact .inl (others peer e ▸ mem)

theorem composedMut_mem (dm : GuiDm I L) (token : Nat) (f : Composed → Composed) {m : Composed}
    (mem : m ∈ dm.messages peer) :
    m ∈ (dm.composedMut token f).messages peer ∨
      m.token = token ∧ f m ∈ (dm.composedMut token f).messages peer := by
  obtain ⟨same, -⟩ | ⟨peer', front, old, back, held, token, changed, others⟩ :=
    composedMut_cases dm token f
  · exact .inl (same.symm ▸ mem)
  by_cases e : peer = peer'
  · subst e
    rw [held] at mem
    rw [changed]
    obtain mem | mem := List.mem_append.1 mem
    · exact .inl (List.mem_append_left _ mem)
    · obtain rfl | mem := List.mem_cons.1 mem
      · exact .inr ⟨token, by simp⟩
      · exact .inl (List.mem_append_right _ (List.mem_cons_of_mem _ mem))
  · exact .inl ((others peer e).symm ▸ mem)

theorem tokens_composedMut (keeps : ∀ m, (f m).token = m.token) (peer : I) :
    ((dm.composedMut token f).messages peer).map (·.token) = (dm.messages peer).map (·.token) := by
  obtain ⟨same, -⟩ | ⟨peer', front, old, back, held, -, changed, others⟩ :=
    composedMut_cases dm token f
  · rw [same]
  by_cases e : peer = peer'
  · subst e
    rw [changed, held, List.map_append, List.map_append, List.map_cons, List.map_cons, keeps]
  · rw [others peer e]

theorem Kept.composedMut (h : Kept runner R dm) (keeps : ∀ m, (f m).token = m.token)
    (fair : ∀ peer, ∀ m ∈ dm.messages peer, m.token = token → Fair runner peer (f m))
    (pending : (dm.state.outstanding.lookup token).isSome = true →
      ∀ m, m.pending = true → (f m).pending = true) :
    Kept runner R (dm.composedMut token f) := by
  refine h.changed state_composedMut (tokens_composedMut keeps) (fun peer m mem => ?_)
    fun peer m mem waits => ?_
  · obtain mem | ⟨old, held, same, rfl⟩ := mem_composedMut mem
    · exact h.fair peer m mem
    · exact fair peer old held same
  · obtain ⟨command, waiting⟩ := Option.isSome_iff_exists.1 waits
    obtain mem | ⟨old, held, same, rfl⟩ := mem_composedMut mem
    · exact ((h.waiting _ command waiting).2 peer m mem rfl).2
    · rw [keeps, same] at waits waiting
      exact pending waits old ((h.waiting token command waiting).2 peer old held same).2

/-- A message of the person has the token's sequence, where one of theirs has the token. -/
theorem composedMut_seq (h : Kept runner R dm) {m : Composed} {n : Nat} (mem : m ∈ dm.messages peer)
    (same : m.token = token) (seq : ∀ m, (f m).seq = some n) :
    ∃ m ∈ (dm.composedMut token f).messages peer, m.seq = some n := by
  obtain ⟨-, none_⟩ | ⟨peer', front, old, back, held, token', changed, -⟩ :=
    composedMut_cases dm token f
  · exact absurd same (none_ peer m mem)
  have e : peer' = peer :=
    h.apart peer' peer old (by rw [held]; simp) m mem (token'.trans same.symm)
  subst e
  exact ⟨f old, by rw [changed]; simp, seq old⟩

/-! ## Composing -/

theorem Kept.issue (dm' : GuiDm I L) (h : Kept runner R dm) (command : DmOutstanding I)
    (room : dm.state.lastToken + 1 < 2 ^ 64) (state : dm'.state = (dm.state.issue command).1)
    (messages : ∀ peer, dm'.messages peer = dm.messages peer) :
    Kept runner R dm' ∧ (dm.state.issue command).2 = dm'.state.lastToken ∧
      dm'.state.outstanding.lookup dm'.state.lastToken = some command ∧
      ∀ peer, ∀ m ∈ dm'.messages peer, m.token < dm'.state.lastToken := by
  have last : (dm.state.issue command).1.lastToken = dm.state.lastToken + 1 := by
    show (dm.state.lastToken + 1) % 2 ^ 64 = _
    exact Nat.mod_eq_of_lt room
  have outstanding : (dm.state.issue command).1.outstanding =
      dm.state.outstanding.insert (dm.state.lastToken + 1) command := by
    show dm.state.outstanding.insert ((dm.state.lastToken + 1) % 2 ^ 64) command = _
    rw [Nat.mod_eq_of_lt room]
  have fresh : ∀ peer, ∀ m ∈ dm'.messages peer, m.token < dm.state.lastToken + 1 := by
    intro peer m mem
    rw [messages] at mem
    exact Nat.lt_succ_of_le (h.issued peer m mem)
  have reached : Reached (dm.state.issue command).1 := h.reached.step (.issue command)
  refine ⟨⟨state ▸ reached, state ▸ h.faithful.same rfl rfl,
    fun peer => messages peer ▸ h.ascending peer, fun peer m mem => ?_,
    fun peer peer' m mem m' mem' =>
      h.apart peer peer' m (messages peer ▸ mem) m' (messages peer' ▸ mem'),
    fun token held waits => ?_, fun peer m mem => h.fair peer m (messages peer ▸ mem)⟩, ?_, ?_, ?_⟩
  · rw [state, last]
    exact Nat.le_of_lt (fresh peer m mem)
  · rw [state, outstanding] at waits
    rw [state, last]
    by_cases new : token = dm.state.lastToken + 1
    · refine ⟨Nat.le_of_eq new, fun peer m mem same => ?_⟩
      have := fresh peer m mem
      omega
    · rw [AList.lookup_insert_ne new] at waits
      obtain ⟨le, each⟩ := h.waiting token held waits
      exact ⟨Nat.le_succ_of_le le, fun peer m mem => each peer m (messages peer ▸ mem)⟩
  · rw [state]
    rfl
  · rw [state, last, outstanding]
    exact AList.lookup_insert _
  · rw [state, last]
    exact fresh

/-- The messages to a person once one more is composed, all of them as they were but for what a
first contact takes back. -/
theorem messages_compose (dm : GuiDm I L) (peer : I) (token : Nat) (body : String)
    (firstContact : Bool) (nowMs : Int) (other : I) :
    ∃ held new, (dm.compose peer token body firstContact nowMs).messages other =
        (if other = peer then held ++ [new] else dm.messages other) ∧
      held.map (·.token) = (dm.messages peer).map (·.token) ∧
      held.map (·.seq) = (dm.messages peer).map (·.seq) ∧
      (∀ m ∈ held, ∃ old ∈ dm.messages peer, m.token = old.token ∧ m.seq = old.seq ∧
        m.refusal = old.refusal ∧ m.accept = old.accept ∧ m.firstContact = old.firstContact) ∧
      new = { token, body, firstContact, after := new.after, composedAtMs := nowMs } := by
  refine ⟨_, _, messages_insert rfl, ?_, ?_, ?_, rfl⟩
  · split
    · rw [List.map_map]
      rfl
    · rfl
  · split
    · rw [List.map_map]
      rfl
    · rfl
  · intro m mem
    split at mem
    · obtain ⟨old, held, rfl⟩ := List.mem_map.1 mem
      exact ⟨old, held, rfl, rfl, rfl, rfl, rfl⟩
    · exact ⟨m, mem, rfl, rfl, rfl, rfl, rfl⟩

/-- A message is the new one, or as one was but for what a first contact takes back. -/
theorem mem_compose {body : String} {firstContact : Bool} {nowMs : Int} {other : I} {m : Composed}
    (mem : m ∈ (dm.compose peer token body firstContact nowMs).messages other) :
    (other = peer ∧ m = { token, body, firstContact, after := m.after, composedAtMs := nowMs }) ∨
      ∃ old ∈ dm.messages other, m.token = old.token ∧ m.seq = old.seq ∧ m.refusal = old.refusal ∧
        m.accept = old.accept ∧ m.firstContact = old.firstContact := by
  obtain ⟨held, new, messages, -, -, kept, new'⟩ :=
    messages_compose dm peer token body firstContact nowMs other
  rw [messages] at mem
  split at mem <;> rename_i same
  · subst same
    obtain mem | mem := List.mem_append.1 mem
    · exact .inr (kept m mem)
    · obtain rfl := List.mem_singleton.1 mem
      exact .inl ⟨rfl, new'⟩
  · exact .inr ⟨m, mem, rfl, rfl, rfl, rfl, rfl⟩

theorem Kept.compose (h : Kept runner R dm) {command : DmOutstanding I} (body : String)
    (firstContact : Bool) (nowMs : Int) (person : peer = addressee command)
    (waits : dm.state.outstanding.lookup token = some command)
    (fresh : ∀ peer, ∀ m ∈ dm.messages peer, m.token < token) :
    Kept runner R (dm.compose peer token body firstContact nowMs) := by
  have le : token ≤ dm.state.lastToken := (h.waiting token command waits).1
  refine ⟨h.reached, h.faithful, fun other => ?_, fun other m mem => ?_,
    fun other other' m mem m' mem' same => ?_, fun other held waits' => ?_, fun other m mem => ?_⟩
  · obtain ⟨held, new, messages, tokens, -, -, new'⟩ :=
    messages_compose dm peer token body firstContact nowMs other
    rw [messages]
    split
    · rw [List.map_append, tokens]
      refine List.pairwise_append.2 ⟨h.ascending _, List.pairwise_singleton _ _, fun a mem b mem' => ?_⟩
      obtain ⟨old, held, rfl⟩ := List.mem_map.1 mem
      obtain rfl := List.mem_singleton.1 mem'
      show old.token < new.token
      rw [new']
      exact fresh _ old held
    · exact h.ascending other
  · obtain ⟨-, new⟩ | ⟨old, held, same, -⟩ := mem_compose mem
    · rw [new]
      exact le
    · exact same ▸ h.issued other old held
  · obtain ⟨e, new⟩ | ⟨old, held, e, -⟩ := mem_compose mem
    · obtain ⟨e', -⟩ | ⟨old', held', e', -⟩ := mem_compose mem'
      · exact e.trans e'.symm
      · have := fresh other' old' held'
        rw [new] at same
        exact absurd (same.trans e') (Nat.ne_of_gt this)
    · obtain ⟨-, new⟩ | ⟨old', held', e', -⟩ := mem_compose mem'
      · have := fresh other old held
        rw [new] at same
        exact absurd (e.symm.trans same) (Nat.ne_of_lt this)
      · exact h.apart other other' old held old' held' (e.symm.trans (same.trans e'))
  · obtain ⟨le', each⟩ := h.waiting other held waits'
    refine ⟨le', fun peer' m mem same => ?_⟩
    obtain ⟨e, new⟩ | ⟨old, held', e, seq, refusal, -⟩ := mem_compose mem
    · have same' : token = other := by
        rw [new] at same
        exact same
      subst same'
      obtain rfl := Option.some.inj (waits'.symm.trans waits)
      exact ⟨e.trans person, by rw [new]; rfl⟩
    · obtain ⟨person, pending⟩ := each peer' old held' (e.symm.trans same)
      exact ⟨person, by rwa [Composed.pending, seq, refusal]⟩
  · obtain ⟨-, new⟩ | ⟨old, held, e, seq, refusal, accept, first⟩ := mem_compose mem
    · rw [new]
      exact ⟨nofun, nofun⟩
    · obtain ⟨tied, reply⟩ := h.fair other old held
      exact ⟨e ▸ seq ▸ tied, accept ▸ refusal ▸ seq ▸ first ▸ reply⟩

theorem Stood.compose (h : Stood dm) {body : String} {firstContact : Bool} {nowMs : Int} :
    Stood (dm.compose peer token body firstContact nowMs) := by
  refine h.of (fun _ => rfl) fun other m mem n seq => ?_
  obtain ⟨held, new, messages, -, seqs, -⟩ :=
    messages_compose dm peer token body firstContact nowMs other
  rw [messages]
  split <;> rename_i same
  · subst same
    have known : some n ∈ held.map (·.seq) := by
      rw [seqs, ← seq]
      exact List.mem_map_of_mem mem
    obtain ⟨m', mem', seq'⟩ := List.mem_map.1 known
    exact ⟨m', List.mem_append_left _ mem', seq'⟩
  · exact ⟨m, mem, seq⟩

end Daemonseed.Gui.DmKept
