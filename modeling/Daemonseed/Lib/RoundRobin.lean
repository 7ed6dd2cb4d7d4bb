import Mathlib.Data.Finset.Max
import Mathlib.Order.Interval.Finset.Nat

/-! # Taking turns in a set that changes

One member of a set at a time, in the order of the members and round again, by the last
one taken alone. Between two turns of one member everything that was in the set all along
has had a turn, whatever joined and left. -/
namespace Daemonseed.Lib.RoundRobin

variable {α : Type} [LinearOrder α]

/-- A turn of a set after the last one: the next member above it, or, where none is, the
least. -/
inductive Turn (s : Finset α) (last : Option α) (x : α) : Prop
  | above (mem : x ∈ s) (past : ∀ l, last = some l → l < x)
      (next : ∀ y ∈ s, (∀ l, last = some l → l < y) → x ≤ y)
  | wraps (mem : x ∈ s) (least : ∀ y ∈ s, x ≤ y) (l : α) (was : last = some l)
      (top : ∀ y ∈ s, y ≤ l)

theorem Turn.mem {s : Finset α} {last : Option α} {x : α} (turn : Turn s last x) : x ∈ s := by
  cases turn with
  | above mem => exact mem
  | wraps mem => exact mem

/-- A run of turns: a turn of each set that is not empty, after the last one there was. -/
structure Turns (sets : Nat → Finset α) (last picks : Nat → Option α) : Prop where
  some_ : ∀ t x, picks t = some x → Turn (sets t) (last t) x ∧ last (t + 1) = some x
  none_ : ∀ t, picks t = none → sets t = ∅ ∧ last (t + 1) = last t

section

variable {sets : Nat → Finset α} {last picks : Nat → Option α}

theorem Turns.picks_of_mem (h : Turns sets last picks) {t : Nat} {y : α} (mem : y ∈ sets t) :
    ∃ x, picks t = some x := by
  cases pick : picks t with
  | none => exact absurd mem ((h.none_ t pick).1 ▸ Finset.notMem_empty y)
  | some x => exact ⟨x, rfl⟩

/-- The member is ahead of the last turn and before the first, on the way round. -/
def Ahead (first y : α) : Option α → Prop
  | none => False
  | some l => first < y ∧ first ≤ l ∧ l < y ∨ y < first ∧ (first ≤ l ∨ l < y)

/-- **One turn** goes no further than a member that is ahead. -/
theorem Ahead.turn {s : Finset α} {first x y : α} {last : Option α} (ahead : Ahead first y last)
    (mem : y ∈ s) (turn : Turn s last x) : x = y ∨ x ≠ first ∧ Ahead first y (some x) := by
  cases last with
  | none => exact ahead.elim
  | some l =>
    obtain ⟨up, ge, lt⟩ | ⟨down, side⟩ := ahead
    · -- the member is above both, so the turn is above the last and not past it
      cases turn with
      | above _ past next =>
        have le := next y mem fun l' same => by cases same; exact lt
        obtain same | less := le.eq_or_lt
        · exact .inl same
        · have later := ge.trans_lt (past l rfl)
          exact .inr ⟨later.ne', .inl ⟨up, later.le, less⟩⟩
      | wraps _ _ _ was top =>
        cases was
        exact absurd (top y mem) lt.not_ge
    · obtain ge | lt := side
      · cases turn with
        | above _ past =>
          have later := ge.trans_lt (past l rfl)
          exact .inr ⟨later.ne', .inr ⟨down, .inl later.le⟩⟩
        | wraps _ least =>
          obtain same | less := (least y mem).eq_or_lt
          · exact .inl same
          · exact .inr ⟨(less.trans down).ne, .inr ⟨down, .inr less⟩⟩
      · cases turn with
        | above _ past next =>
          have le := next y mem fun l' same => by cases same; exact lt
          obtain same | less := le.eq_or_lt
          · exact .inl same
          · exact .inr ⟨(less.trans down).ne, .inr ⟨down, .inr less⟩⟩
        | wraps _ _ _ was top =>
          cases was
          exact absurd (top y mem) lt.not_ge

/-- A member that is ahead stays ahead until its turn. -/
theorem Turns.ahead (h : Turns sets last picks) {first y : α} {i n : Nat}
    (start : Ahead first y (last i)) (mem : ∀ t, i ≤ t → t < i + n → y ∈ sets t)
    (unpicked : ∀ t, i ≤ t → t < i + n → picks t ≠ some y) :
    Ahead first y (last (i + n)) ∧ ∀ t, i ≤ t → t < i + n → picks t ≠ some first := by
  induction n with
  | zero => exact ⟨start, fun t le lt => absurd lt (Nat.not_lt.2 le)⟩
  | succ n ih =>
    obtain ⟨ahead, before⟩ := ih (fun t le lt => mem t le (by omega))
      fun t le lt => unpicked t le (by omega)
    have here := mem (i + n) (by omega) (by omega)
    obtain ⟨x, pick⟩ := h.picks_of_mem here
    obtain ⟨turn, next⟩ := h.some_ _ x pick
    obtain rfl | ⟨other, ahead⟩ := ahead.turn here turn
    · exact absurd pick (unpicked _ (by omega) (by omega))
    · refine ⟨by rw [← Nat.add_assoc, next]; exact ahead, fun t le lt => ?_⟩
      obtain earlier | rfl := Nat.lt_or_eq_of_le (Nat.lt_succ_iff.1 lt)
      · exact before t le earlier
      · exact fun again => other (Option.some.inj (pick.symm.trans again))

/-- **Between two turns of one member** everything that was there all along has had its
turn. -/
theorem Turns.between (h : Turns sets last picks) {i j : Nat} {x y : α} (lt : i < j)
    (first : picks i = some x) (second : picks j = some x)
    (mem : ∀ t, i ≤ t → t ≤ j → y ∈ sets t) : ∃ t, i ≤ t ∧ t ≤ j ∧ picks t = some y := by
  by_contra none_
  have unpicked (t : Nat) (le : i ≤ t) (le' : t ≤ j) : picks t ≠ some y := fun pick =>
    none_ ⟨t, le, le', pick⟩
  have apart : x ≠ y := fun same => unpicked i le_rfl lt.le (same ▸ first)
  have start : Ahead x y (last (i + 1)) := by
    rw [(h.some_ i x first).2]
    obtain below | above := apart.lt_or_gt
    · exact .inl ⟨below, le_rfl, below⟩
    · exact .inr ⟨above, .inl le_rfl⟩
  refine (h.ahead (n := j - i) start (fun t le lt => mem t (by omega) (by omega)) fun t le lt =>
    unpicked t (by omega) (by omega)).2 j (by omega) (by omega) second

/-- While a member waits for its turn, nothing has two. -/
theorem Turns.once (h : Turns sets last picks) {i n : Nat} {y : α}
    (mem : ∀ t, i < t → t ≤ i + n → y ∈ sets t)
    (unpicked : ∀ t, i < t → t ≤ i + n → picks t ≠ some y) :
    Set.InjOn picks (Finset.Ioc i (i + n)) := by
  intro a ha b hb same
  rw [Finset.coe_Ioc, Set.mem_Ioc] at ha hb
  have never {a b : Nat} (ha : i < a) (hb : b ≤ i + n) (lt : a < b) : picks a ≠ picks b := fun same => by
    obtain ⟨x, pick⟩ := h.picks_of_mem (mem a ha (by omega))
    obtain ⟨t, le, le', again⟩ := h.between lt pick (same ▸ pick) fun t le le' =>
      mem t (by omega) (by omega)
    exact unpicked t (by omega) (by omega) again
  obtain lt | rfl | gt := Nat.lt_trichotomy a b
  · exact absurd same (never ha.1 hb.2 lt)
  · rfl
  · exact absurd same.symm (never hb.1 ha.2 gt)

/-- **A member that stays has its turn** after no more turns than there are members. -/
theorem Turns.within (h : Turns sets last picks) {i n : Nat} {y : α}
    (mem : ∀ t, i < t → t ≤ i + n → y ∈ sets t)
    (few : ((Finset.Ioc i (i + n)).biUnion sets).card ≤ n) (some_ : 0 < n) :
    ∃ t, i < t ∧ t ≤ i + n ∧ picks t = some y := by
  by_contra none_
  have unpicked (t : Nat) (lt : i < t) (le : t ≤ i + n) : picks t ≠ some y := fun pick =>
    none_ ⟨t, lt, le, pick⟩
  let others := ((Finset.Ioc i (i + n)).biUnion sets).erase y
  have maps : ∀ t ∈ Finset.Ioc i (i + n), picks t ∈ others.image some := fun t ht => by
    obtain ⟨lt, le⟩ := Finset.mem_Ioc.1 ht
    obtain ⟨x, pick⟩ := h.picks_of_mem (mem t lt le)
    have other : x ≠ y := fun same => unpicked t lt le (same ▸ pick)
    refine pick ▸ Finset.mem_image_of_mem _ (Finset.mem_erase.2 ⟨other, ?_⟩)
    exact Finset.mem_biUnion.2 ⟨t, ht, (h.some_ t x pick).1.mem⟩
  have counted := Finset.card_le_card_of_injOn picks maps (h.once mem unpicked)
  rw [Finset.card_image_of_injective _ (Option.some_injective α), Nat.card_Ioc] at counted
  have there : y ∈ (Finset.Ioc i (i + n)).biUnion sets :=
    Finset.mem_biUnion.2 ⟨i + n, Finset.mem_Ioc.2 ⟨by omega, le_rfl⟩, mem _ (by omega) le_rfl⟩
  have fewer : others.card < _ := Finset.card_erase_lt_of_mem there
  omega

end

end Daemonseed.Lib.RoundRobin
