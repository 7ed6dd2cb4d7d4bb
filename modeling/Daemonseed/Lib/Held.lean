import Mathlib.Data.List.Basic

/-! # What a history still holds

A history lists its events with the newest first. Some events set a value, and
others clear it where it is of the kind they are about. What is held is what
the newest event that sets has set, unless an event since has cleared it. -/
namespace Daemonseed.Lib.Held

variable {ε α : Type} (sets : ε → Bool) (value : ε → Option α) (clears : ε → α → Bool)

/-- What the newest event that sets has set and no event since has cleared. -/
def held (past : List ε) : Option α :=
  (past.find? sets).bind fun e =>
    (value e).filter fun a => !(past.takeWhile fun x => !sets x).any fun x => clears x a

variable {sets value clears} {e : ε} {past after before : List ε} {a : α}

@[simp] theorem held_nil : held sets value clears [] = none := rfl

theorem held_set (set : sets e = true) : held sets value clears (e :: past) = value e := by
  rw [held, List.find?_cons_of_pos set, List.takeWhile_cons_of_neg (by simp [set])]
  cases found : value e <;> simp [found, Option.filter]

theorem held_kept (kept : sets e = false) :
    held sets value clears (e :: past) =
      (held sets value clears past).filter fun a => !clears e a := by
  rw [held, held, List.find?_cons_of_neg (by simp [kept]), List.takeWhile_cons_of_pos (by simp [kept])]
  cases past.find? sets with
  | none => rfl
  | some x =>
    rw [Option.bind_some, Option.bind_some, Option.filter_filter]
    simp only [List.any_cons, Bool.not_or, Bool.and_comm]

/-- An event that neither sets nor clears changes nothing. -/
theorem held_idle (kept : sets e = false) (idle : ∀ a, clears e a = false) :
    held sets value clears (e :: past) = held sets value clears past := by
  rw [held_kept kept]
  cases held sets value clears past <;> simp [idle, Option.filter]

theorem held_eq_some :
    held sets value clears past = some a ↔ ∃ e, past.find? sets = some e ∧ value e = some a ∧
      ∀ x ∈ past.takeWhile (fun x => !sets x), clears x a = false := by
  simp [held, Option.bind_eq_some_iff, Option.filter_eq_some_iff]

/-- What is held was set after every event that would have cleared it. -/
theorem held_since (still : held sets value clears (after ++ e :: before) = some a)
    (cleared : clears e a = true) (kept : sets e = false) :
    ∃ x ∈ after, sets x = true ∧ value x = some a := by
  induction after with
  | nil =>
    rw [List.nil_append, held_kept kept, Option.filter_eq_some_iff] at still
    simp [cleared] at still
  | cons first rest ih =>
    rw [List.cons_append] at still
    cases set : sets first with
    | true =>
      rw [held_set set] at still
      exact ⟨first, List.mem_cons_self .., set, still⟩
    | false =>
      rw [held_kept set, Option.filter_eq_some_iff] at still
      obtain ⟨x, later, found⟩ := ih still.1
      exact ⟨x, List.mem_cons_of_mem _ later, found⟩

/-- Where the newest event that sets by one test sets by a narrower one as well,
both hold the same. -/
theorem held_narrower {narrow : ε → Bool} (sub : ∀ x, narrow x = true → sets x = true)
    (newest : ∀ x ∈ past.find? sets, narrow x = true) :
    held narrow value clears past = held sets value clears past := by
  induction past with
  | nil => rfl
  | cons first rest ih =>
    cases set : sets first with
    | true =>
      have hit : narrow first = true := newest first (by simp [set])
      rw [held_set set, held_set hit]
    | false =>
      have miss : narrow first = false := Bool.eq_false_iff.2 fun hit => by simp [sub _ hit] at set
      rw [held_kept set, held_kept miss, ih fun x found => newest x (by simpa [set] using found)]

/-- What a narrower test still holds, no event has cleared since the newest event
of the wider one. -/
theorem held_wider {β : Type} {narrow : ε → Bool} {value' : ε → Option β}
    {clears' : ε → β → Bool} {b : β} (sub : ∀ x, narrow x = true → sets x = true)
    (still : held narrow value clears past = some a)
    (clearing : ∀ x, clears' x b = true → clears x a = true)
    (newest : past.find? sets = some e) (set : value' e = some b) :
    held sets value' clears' past = some b := by
  induction past with
  | nil => simp at newest
  | cons first rest ih =>
    cases hit : sets first with
    | true =>
      obtain rfl : first = e := by simpa [hit] using newest
      rw [held_set hit, set]
    | false =>
      have miss : narrow first = false := Bool.eq_false_iff.2 fun hit' => by simp [sub _ hit'] at hit
      rw [held_kept miss, Option.filter_eq_some_iff] at still
      rw [held_kept hit, ih still.1 (by simpa [hit] using newest), Option.filter_eq_some_iff]
      refine ⟨rfl, ?_⟩
      cases cleared : clears' first b with
      | false => rfl
      | true => simp [clearing first cleared] at still

end Daemonseed.Lib.Held
