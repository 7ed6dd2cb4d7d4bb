import Daemonseed.Dm.Requests

/-! # Messages that wait for a name

A message of a label that nothing has named is held back until something does,
and then stands in the thread of whoever it names. As many as 256 wait; what
makes room for the next is the one that has waited longest. -/
namespace Daemonseed.Dm.HeldBack
open Daemonseed.Dm.Thread Daemonseed.Dm.View Daemonseed.Dm.View.DmState Daemonseed.Dm.Threads
open Daemonseed.Lib.Maps

variable {I L : Type} [DecidableEq I] [DecidableEq L] {s s' s'' : DmState I L}

/-- What is held back is of labels that nothing names. -/
structure Waiting (s : DmState I L) : Prop where
  few : s.unmapped.length ≤ dmUnmappedCap
  unnamed : ∀ x ∈ s.unmapped, s.labels.lookup x.1 = none

/-- The message stands in the thread of `pk`. -/
def Stands (s : DmState I L) (pk : I) (row : DmThreadRow) : Prop :=
  message row ∈ (threadOf s pk).map message

/-- A message collected for a label is held back for it, or stands in a thread. -/
def Found (s : DmState I L) (x : L × DmThreadRow) : Prop := x ∈ s.unmapped ∨ ∃ pk, Stands s pk x.2

/-! ## Threads -/

variable {t t' : List DmThreadRow} {row : DmThreadRow}

theorem message_record (t : List DmThreadRow) (row : DmThreadRow) (m : Bool × Nat) :
    m ∈ (record t row).map message ↔ m = message row ∨ m ∈ t.map message := by
  have placed : ∀ t row, m ∈ (place t row).map message ↔ m = message row ∨ m ∈ t.map message := by
    intro t row
    rw [((place_perm t row).map message).mem_iff, List.map_cons, List.mem_cons]
  obtain ⟨-, e⟩ | ⟨front, held, back, rfl, same, e | e⟩ := record_cases t row
  · rw [e, placed]
  · rw [e, placed, replacing_message]
    simp only [List.map_append, List.map_cons, List.mem_append, List.mem_cons, same]
    tauto
  · rw [e]
    simp only [List.map_append, List.map_cons, List.mem_append, List.mem_cons, same,
      replacing_message]
    tauto

theorem message_records {rows : List DmThreadRow} {m : Bool × Nat} :
    m ∈ (rows.foldl record t).map message ↔ m ∈ rows.map message ∨ m ∈ t.map message := by
  induction rows generalizing t with
  | nil => simp
  | cons row rows ih =>
    rw [List.foldl_cons, ih, message_record, List.map_cons, List.mem_cons]
    tauto

theorem Stands.grows (h : Grows (fun _ _ => True) s s') (sound : Sound s) {pk : I}
    (stands : Stands s pk row) : Stands s' pk row := by
  obtain ⟨rows, e, -⟩ := ((h sound).2 pk).2
  rw [Stands, e]
  exact message_records.2 (.inr stands)

/-! ## What names no label -/

/-- What is named is as before, and what waits. -/
structure Beside (s s' : DmState I L) : Prop where
  labels : s'.labels = s.labels
  unmapped : s'.unmapped = s.unmapped

theorem Beside.refl (s : DmState I L) : Beside s s := ⟨rfl, rfl⟩

theorem Beside.trans (h : Beside s s') (h' : Beside s' s'') : Beside s s'' :=
  ⟨h'.labels.trans h.labels, h'.unmapped.trans h.unmapped⟩

/-- Nothing is lost: a thread only grows, and what was held back is found. -/
structure Carries (s s' : DmState I L) : Prop where
  grows : Grows (fun _ _ => True) s s'
  found : Sound s → ∀ x ∈ s.unmapped, Found s' x

theorem Carries.found_of (h : Carries s s') (sound : Sound s) {x : L × DmThreadRow}
    (found : Found s x) : Found s' x := by
  obtain held | ⟨pk, stands⟩ := found
  · exact h.found sound x held
  · exact .inr ⟨pk, stands.grows h.grows sound⟩

theorem Carries.trans (h : Carries s s') (h' : Carries s' s'') : Carries s s'' :=
  ⟨h.grows.trans h'.grows, fun sound x mem =>
    h'.found_of (h.grows sound).1 (h.found sound x mem)⟩

/-- Fewer wait, and fewer labels are named. -/
theorem Waiting.fewer (waiting : Waiting s) (unmapped : s'.unmapped.Sublist s.unmapped)
    (labels : ∀ x ∈ s'.unmapped, s.labels.lookup x.1 = none → s'.labels.lookup x.1 = none) :
    Waiting s' :=
  ⟨unmapped.length_le.trans waiting.few, fun x mem =>
    labels x mem (waiting.unnamed x (unmapped.subset mem))⟩

end Daemonseed.Dm.HeldBack
