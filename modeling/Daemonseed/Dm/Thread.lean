import Mathlib.Data.List.Perm.Basic
import Mathlib.Data.List.Perm.Subperm
import Mathlib.Data.List.Induction

/-! # The thread of a conversation

The messages of a conversation in the order they are shown: each direction's in the
order of its sequence numbers, the two directions interleaved by this side's clock. A
row is placed when it is heard of, whatever was heard of before it. -/
namespace Daemonseed.Dm.Thread

/-! ## Rows -/

inductive DmThreadRow
  | received (seq : Nat) (body : String) (sentAtMs receivedAtMs : Nat)
  | sent (seq : Nat) (body : Option String) (sentAtMs : Nat)
  deriving DecidableEq, Repr

namespace DmThreadRow

/-- This side wrote it. -/
def outgoing : DmThreadRow → Bool
  | received .. => false
  | sent .. => true

def seq : DmThreadRow → Nat
  | received seq .. => seq
  | sent seq .. => seq

/-- The time it is placed by, by this side's clock. -/
def orderMs : DmThreadRow → Nat
  | received _ _ _ receivedAtMs => receivedAtMs
  | sent _ _ sentAtMs => sentAtMs

def samePosition : DmThreadRow → DmThreadRow → Bool
  | received a .., received b .. => a = b
  | sent a .., sent b .. => a = b
  | _, _ => false

/-- What is kept of a row and the one it replaces: the body this side composed, and the earlier
of the times they are placed by. -/
def replacing : DmThreadRow → DmThreadRow → DmThreadRow
  | sent seq body sentAtMs, sent _ keptBody kept => sent seq (body.or keptBody) (min sentAtMs kept)
  | received seq body sentAtMs receivedAtMs, received _ _ _ kept =>
    let receivedAtMs := min receivedAtMs kept
    received seq body (min sentAtMs receivedAtMs) receivedAtMs
  | row, _ => row

end DmThreadRow

open DmThreadRow

/-- Where a row that is not held goes: behind the rows of its direction with a lower sequence,
before those with a higher one, and between them before the first that is placed later. -/
def conversationPosition (thread : List DmThreadRow) (row : DmThreadRow) : Nat :=
  let same (held : DmThreadRow) := held.outgoing == row.outgoing
  -- One behind the last of a lower sequence.
  let lo := thread.length - thread.reverse.findIdx fun held => same held && held.seq < row.seq
  let hi := lo + (thread.drop lo).findIdx fun held => same held && row.seq < held.seq
  lo + ((thread.take hi).drop lo).findIdx fun held => row.orderMs < held.orderMs

def place (thread : List DmThreadRow) (row : DmThreadRow) : List DmThreadRow :=
  thread.insertIdx (conversationPosition thread row) row

/-- Records a row: in the place of the one that stands for its message, or where a new one goes. -/
def record (thread : List DmThreadRow) (row : DmThreadRow) : List DmThreadRow :=
  (thread.find? (·.samePosition row)).elim (place thread row) fun held =>
    let index := thread.findIdx (·.samePosition row)
    let row := row.replacing held
    -- An earlier time can move it ahead of the other direction's.
    if row.orderMs < held.orderMs then place (thread.eraseIdx index) row
    else thread.set index row

/-! ## Rows and messages -/

variable {a b c row held : DmThreadRow} {thread front back : List DmThreadRow}

theorem samePosition_iff : a.samePosition b = true ↔ a.outgoing = b.outgoing ∧ a.seq = b.seq := by
  cases a <;> cases b <;> simp [samePosition, outgoing, seq]

/-- The message a row stands for. -/
def message (row : DmThreadRow) : Bool × Nat := (row.outgoing, row.seq)

theorem samePosition_message : a.samePosition b = true ↔ message a = message b := by
  rw [samePosition_iff, message, message, Prod.mk.injEq]

/-- `a` stands before `b` in any thread that holds both where they are of one direction. -/
def Before (a b : DmThreadRow) : Prop := a.outgoing = b.outgoing → a.seq < b.seq

/-- The rows of each direction ascend strictly. -/
def Ordered (thread : List DmThreadRow) : Prop := thread.Pairwise Before

theorem replacing_message (row held : DmThreadRow) : message (row.replacing held) = message row := by
  cases row <;> cases held <;> rfl

theorem Before.congr (h : Before a b) {a' b' : DmThreadRow} (ha : message a' = message a)
    (hb : message b' = message b) : Before a' b' := by
  obtain ⟨outA, seqA⟩ := Prod.mk.inj ha
  obtain ⟨outB, seqB⟩ := Prod.mk.inj hb
  unfold Before
  rw [outA, seqA, outB, seqB]
  exact h

theorem Before.message_ne (h : Before a b) : message a ≠ message b := by
  intro same
  obtain ⟨out, seq⟩ := Prod.mk.inj same
  exact absurd (h out) (by omega)

/-- The first that passes begins what follows the index found. -/
theorem findIdx_split {α : Type} (p : α → Bool) (l : List α) :
    ∃ front back, l = front ++ back ∧ l.findIdx p = front.length ∧
      (∀ x ∈ front, p x = false) ∧ ∀ x ∈ back.head?, p x = true := by
  induction l with
  | nil => exact ⟨[], [], rfl, rfl, by simp, by simp⟩
  | cons x l ih =>
    rw [List.findIdx_cons]
    cases found : p x with
    | true => exact ⟨[], x :: l, rfl, rfl, by simp, by simp [found]⟩
    | false =>
      obtain ⟨front, back, rfl, index, before, here⟩ := ih
      exact ⟨x :: front, back, rfl, by simp [index], List.forall_mem_cons.2 ⟨found, before⟩, here⟩

theorem insertIdx_length {α : Type} (front back : List α) (x : α) :
    (front ++ back).insertIdx front.length x = front ++ x :: back := by
  induction front with
  | nil => rfl
  | cons y front ih => rw [List.cons_append, List.length_cons, List.insertIdx_succ_cons, ih]; rfl

/-- What stands around a new row: those up to the last of its direction that comes before it,
those up to the first that comes behind, parted by their times, and the others. -/
structure Around (row : DmThreadRow) (low early late high : List DmThreadRow) : Prop where
  low : ∀ a ∈ low.getLast?, a.outgoing = row.outgoing ∧ a.seq < row.seq
  notLower : ∀ a ∈ early ++ late ++ high, a.outgoing = row.outgoing → row.seq ≤ a.seq
  notHigher : ∀ a ∈ early ++ late, a.outgoing = row.outgoing → a.seq ≤ row.seq
  early : ∀ a ∈ early, a.orderMs ≤ row.orderMs
  late : ∀ a ∈ late.head?, row.orderMs < a.orderMs
  high : ∀ a ∈ high.head?, a.outgoing = row.outgoing ∧ row.seq < a.seq

theorem place_around (thread : List DmThreadRow) (row : DmThreadRow) :
    ∃ low early late high, thread = low ++ (early ++ late ++ high) ∧
      place thread row = low ++ early ++ row :: (late ++ high) ∧ Around row low early late high := by
  obtain ⟨rest, low, split, last, notLower, lowLast⟩ := findIdx_split
    (fun held : DmThreadRow => held.outgoing == row.outgoing && held.seq < row.seq) thread.reverse
  obtain ⟨mid, high, restSplit, next, notHigher, highHead⟩ := findIdx_split
    (fun held : DmThreadRow => held.outgoing == row.outgoing && row.seq < held.seq) rest.reverse
  obtain ⟨early, late, rfl, first, earlyTimes, lateHead⟩ := findIdx_split
    (fun held : DmThreadRow => row.orderMs < held.orderMs) mid
  have whole : thread = low.reverse ++ (early ++ late ++ high) := by
    rw [← restSplit, ← List.reverse_append, ← split, List.reverse_reverse]
  have lo : thread.length - rest.length = low.reverse.length := by
    rw [← List.length_reverse, split, List.length_append, List.length_reverse]
    omega
  have index : conversationPosition thread row = (low.reverse ++ early).length := by
    unfold conversationPosition
    dsimp only
    rw [last, lo, whole, List.drop_left, ← restSplit, next, restSplit, ← List.append_assoc,
      ← List.length_append, List.take_left, List.drop_left, first, List.length_append]
  refine ⟨low.reverse, early, late, high, whole, ?_, ?_⟩
  · rw [place, index, whole, ← List.append_assoc, ← List.append_assoc, List.append_assoc _ late,
      insertIdx_length]
  · constructor
    · intro a held
      rw [List.getLast?_reverse] at held
      simpa using lowLast a held
    · intro a mem same
      have := notLower a (by rw [← List.mem_reverse, restSplit]; exact mem)
      simp only [same, beq_self_eq_true, Bool.true_and, decide_eq_false_iff_not] at this
      omega
    · intro a mem same
      have := notHigher a mem
      simp only [same, beq_self_eq_true, Bool.true_and, decide_eq_false_iff_not] at this
      omega
    · intro a mem
      simpa using earlyTimes a mem
    · intro a held
      simpa using lateHead a held
    · intro a held
      simpa using highHead a held

theorem pairwise_insert {α : Type} {R : α → α → Prop} {front back : List α} {x : α}
    (h : (front ++ back).Pairwise R) (before : ∀ a ∈ front, R a x) (behind : ∀ b ∈ back, R x b) :
    (front ++ x :: back).Pairwise R := by
  obtain ⟨hf, hb, across⟩ := List.pairwise_append.1 h
  refine List.pairwise_append.2 ⟨hf, List.pairwise_cons.2 ⟨behind, hb⟩, fun a ma => ?_⟩
  exact List.forall_mem_cons.2 ⟨before a ma, across a ma⟩

/-- What the last lets one conclude of those before it holds of all. -/
theorem forall_of_getLast {α : Type} {R : α → α → Prop} {l : List α} {P : α → Prop}
    (h : l.Pairwise R) (last : ∀ z ∈ l.getLast?, P z ∧ ∀ a ∈ l, R a z → P a) : ∀ a ∈ l, P a := by
  induction l using List.reverseRecOn with
  | nil => simp
  | append_singleton l z _ =>
    obtain ⟨here, before⟩ := last z (by simp)
    intro a mem
    obtain old | same := List.mem_append.1 mem
    · exact before a mem ((List.pairwise_append.1 h).2.2 a old z (List.mem_singleton_self z))
    · exact List.mem_singleton.1 same ▸ here

/-- And what the first lets one conclude of those behind it. -/
theorem forall_of_head {α : Type} {R : α → α → Prop} {l : List α} {P : α → Prop}
    (h : l.Pairwise R) (first : ∀ z ∈ l.head?, P z ∧ ∀ a ∈ l, R z a → P a) : ∀ a ∈ l, P a := by
  cases l with
  | nil => simp
  | cons z l =>
    obtain ⟨here, behind⟩ := first z rfl
    refine List.forall_mem_cons.2 ⟨here, fun a mem => ?_⟩
    exact behind a (List.mem_cons_of_mem _ mem) ((List.pairwise_cons.1 h).1 a mem)

theorem mem_place : a ∈ place thread row ↔ a = row ∨ a ∈ thread := by
  obtain ⟨low, early, late, high, whole, placed, -⟩ := place_around thread row
  rw [placed, whole]
  simp only [List.mem_append, List.mem_cons]
  tauto

theorem place_perm (thread : List DmThreadRow) (row : DmThreadRow) :
    (place thread row).Perm (row :: thread) := by
  obtain ⟨low, early, late, high, whole, placed, -⟩ := place_around thread row
  have parted : thread = (low ++ early) ++ (late ++ high) := by
    rw [whole]
    simp only [List.append_assoc]
  rw [placed, parted]
  exact List.perm_middle

/-- `row` stands for a message of its own. -/
def New (thread : List DmThreadRow) (row : DmThreadRow) : Prop :=
  ∀ a ∈ thread, message a ≠ message row

/-- A new row is placed between the rows of its direction it belongs between. -/
theorem ordered_place (h : Ordered thread) (new : New thread row) : Ordered (place thread row) := by
  obtain ⟨low, early, late, high, rfl, placed, around⟩ := place_around thread row
  obtain ⟨ordered, rest, -⟩ := List.pairwise_append.1 h
  obtain ⟨-, ordered', -⟩ := List.pairwise_append.1 rest
  have other : ∀ a ∈ early ++ late, a.outgoing ≠ row.outgoing := by
    intro a mem same
    have ge := around.notLower a (List.mem_append_left _ mem) same
    have le := around.notHigher a mem same
    exact new a (List.mem_append_right _ (List.mem_append_left _ mem))
      (Prod.ext same (Nat.le_antisymm le ge))
  have below : ∀ a ∈ low, Before a row := by
    refine forall_of_getLast ordered fun z held => ?_
    obtain ⟨same, lower⟩ := around.low z held
    exact ⟨fun _ => lower, fun a _ before out =>
      Nat.lt_trans (before (out.trans same.symm)) lower⟩
  have above : ∀ b ∈ high, Before row b := by
    refine forall_of_head ordered' fun z held => ?_
    obtain ⟨same, higher⟩ := around.high z held
    exact ⟨fun _ => higher, fun a _ before out =>
      Nat.lt_trans higher (before (same.trans out))⟩
  have parted : Ordered (low ++ early ++ (late ++ high)) := by
    simpa only [List.append_assoc] using h
  rw [placed]
  refine pairwise_insert parted (fun a mem => ?_) fun b mem => ?_
  · obtain mem | mem := List.mem_append.1 mem
    · exact below a mem
    · exact fun same => absurd same (other a (List.mem_append_left _ mem))
  · obtain mem | mem := List.mem_append.1 mem
    · exact fun same => absurd same.symm (other b (List.mem_append_right _ mem))
    · exact above b mem

/-! ## Recording -/

/-- A row of a new message is placed; any other is put where that of its message was, or placed
again where it now comes earlier. -/
theorem record_cases (thread : List DmThreadRow) (row : DmThreadRow) :
    New thread row ∧ record thread row = place thread row ∨
    ∃ front held back, thread = front ++ held :: back ∧ message held = message row ∧
      (record thread row = place (front ++ back) (row.replacing held) ∨
        record thread row = front ++ row.replacing held :: back) := by
  cases found : thread.find? (·.samePosition row) with
  | none =>
    refine .inl ⟨fun a mem same => ?_, by rw [record, found, Option.elim_none]⟩
    exact List.find?_eq_none.1 found a mem (samePosition_message.2 same)
  | some held =>
    obtain ⟨same, front, back, rfl, others⟩ := List.find?_eq_some_iff_append.1 found
    have index : (front ++ held :: back).findIdx (·.samePosition row) = front.length := by
      rw [List.findIdx_append, if_neg, List.findIdx_cons, same, cond_true, Nat.zero_add]
      · rw [List.findIdx_lt_length]
        rintro ⟨a, mem, passes⟩
        simpa [passes] using others a mem
    refine .inr ⟨front, held, back, rfl, samePosition_message.1 same, ?_⟩
    rw [record, found, Option.elim_some, index]
    dsimp only
    split
    · left
      rw [List.eraseIdx_append_of_length_le (Nat.le_refl _), Nat.sub_self]
      rfl
    · right
      rw [List.set_append_right _ _ (Nat.le_refl _), Nat.sub_self]
      rfl

theorem ordered_record (h : Ordered thread) : Ordered (record thread row) := by
  obtain ⟨new, e⟩ | ⟨front, held, back, rfl, same, e⟩ := record_cases thread row
  · exact e ▸ ordered_place h new
  have message' : message (row.replacing held) = message held :=
    (replacing_message row held).trans same.symm
  obtain ⟨front', rest, across⟩ := List.pairwise_append.1 h
  obtain ⟨behind, back'⟩ := List.pairwise_cons.1 rest
  have without : Ordered (front ++ back) :=
    List.pairwise_append.2 ⟨front', back', fun a ma b mb => across a ma b (List.mem_cons_of_mem _ mb)⟩
  have before : ∀ a ∈ front, Before a held := fun a mem => across a mem held List.mem_cons_self
  obtain e | e := e
  · rw [e]
    refine ordered_place without fun a mem => ?_
    rw [message']
    obtain mem | mem := List.mem_append.1 mem
    · exact (before a mem).message_ne
    · exact (behind a mem).message_ne.symm
  · rw [e]
    exact pairwise_insert without (fun a mem => (before a mem).congr rfl message')
      fun b mem => (behind b mem).congr message' rfl

theorem ordered_records {rows : List DmThreadRow} (h : Ordered thread) :
    Ordered (rows.foldl record thread) := by
  induction rows generalizing thread with
  | nil => exact h
  | cons row rows ih => exact ih (ordered_record h)

/-! ## Bodies -/

/-- The body of a message this side wrote is known. -/
def Known (thread : List DmThreadRow) (seq : Nat) (body : String) : Prop :=
  ∃ sentAtMs, sent seq (some body) sentAtMs ∈ thread

/-- What replaces a row whose body is known. -/
theorem replacing_known {n : Nat} {body : String} {time : Nat}
    (same : message (sent n (some body) time) = message row) :
    ∃ body' time', row.replacing (sent n (some body) time) = sent n (some body') time' ∧
      (body' = body ∨ ∃ sentAtMs, row = sent n (some body') sentAtMs) := by
  cases row with
  | received => simp [message, outgoing] at same
  | sent seq told sentAtMs =>
    obtain rfl : n = seq := (Prod.mk.inj same).2
    cases told with
    | none => exact ⟨body, _, rfl, .inl rfl⟩
    | some told => exact ⟨told, _, rfl, .inr ⟨sentAtMs, rfl⟩⟩

/-- A body that is known stays, and only one that is reported takes its place. -/
theorem known_record {n : Nat} {body : String} (known : Known thread n body) :
    ∃ body', Known (record thread row) n body' ∧
      (body' = body ∨ ∃ sentAtMs, row = sent n (some body') sentAtMs) := by
  obtain ⟨time, mem⟩ := known
  obtain ⟨-, e⟩ | ⟨front, held, back, rfl, same, e⟩ := record_cases thread row
  · exact ⟨body, ⟨time, e ▸ mem_place.2 (.inr mem)⟩, .inl rfl⟩
  have here : row.replacing held ∈ record (front ++ held :: back) row := by
    obtain e | e := e
    · exact e ▸ mem_place.2 (.inl rfl)
    · simp [e]
  have others : ∀ a ∈ front ++ back, a ∈ record (front ++ held :: back) row := by
    intro a mem
    obtain e | e := e
    · exact e ▸ mem_place.2 (.inr mem)
    · rw [e, List.mem_append, List.mem_cons]
      exact (List.mem_append.1 mem).imp_right .inr
  obtain mem | mem := List.mem_append.1 mem
  · exact ⟨body, ⟨time, others _ (List.mem_append_left _ mem)⟩, .inl rfl⟩
  obtain rfl | mem := List.mem_cons.1 mem
  · obtain ⟨body', time', e', told⟩ := replacing_known same
    exact ⟨body', ⟨time', e' ▸ here⟩, told⟩
  · exact ⟨body, ⟨time, others _ (List.mem_append_right _ mem)⟩, .inl rfl⟩

/-! ## Any order of reports -/

/-- The times do not decrease within a direction, and those of the two directions differ. -/
def Timely (rows : List DmThreadRow) : Prop :=
  ∀ a ∈ rows, ∀ b ∈ rows,
    (a.outgoing = b.outgoing → a.seq < b.seq → a.orderMs ≤ b.orderMs) ∧
      (a.outgoing ≠ b.outgoing → a.orderMs ≠ b.orderMs)

end Daemonseed.Dm.Thread
