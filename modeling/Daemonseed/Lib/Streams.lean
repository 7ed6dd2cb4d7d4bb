import Daemonseed.Lib.Bytes

/-! # Reads that may be short

An open file answers one read after another, each with as much as it likes up to
the room there is. What a loop reads that fills its buffer, and what one reads
that goes on to the end, does not depend on how the answers are cut. -/
namespace Daemonseed.Lib.Streams
open Daemonseed.Lib.Bytes

variable {ε : Type}

/-- The answers left to the reads of a file: a read takes of the first as much as
it has room for. The file ends where no answer is left, or where one is empty. -/
abbrev Stream (ε : Type) := List (Except ε Octets)

/-- Reads until the room is filled or the file ends. -/
def readToFill : Nat → Stream ε → Except ε Octets × Stream ε
  | 0, s => (.ok [], s)
  | _ + 1, [] => (.ok [], [])
  | _ + 1, .error e :: rest => (.error e, rest)
  | room + 1, .ok answer :: rest =>
    if room + 1 < answer.length then
      (.ok (answer.take (room + 1)), .ok (answer.drop (room + 1)) :: rest)
    else if answer = [] then (.ok [], rest)
    else
      let more := readToFill (room + 1 - answer.length) rest
      (more.1.map (answer ++ ·), more.2)

/-- Reads on to the end of the file. -/
def readToEnd : Stream ε → Except ε Octets
  | [] => .ok []
  | .error e :: _ => .error e
  | .ok answer :: rest => if answer = [] then .ok [] else (readToEnd rest).map (answer ++ ·)

/-- The bytes of all answers. -/
def size (s : Stream ε) : Nat := (s.map fun answer => (answer.toOption.getD []).length).sum

variable {s rest : Stream ε} {room : Nat} {bytes : Octets} {e : ε}

theorem map_ok {α β : Type} {x : Except ε α} {f : α → β} {b : β} :
    x.map f = .ok b ↔ ∃ a, x = .ok a ∧ f a = b := by
  cases x <;> simp [Except.map]

theorem map_map {x : Except ε Octets} {front back : Octets} :
    (x.map (back ++ ·)).map (front ++ ·) = x.map (front ++ back ++ ·) := by
  cases x <;> simp [Except.map]

/-- **What a filled buffer leaves is the rest of the file**; one that was not
filled has read to the end. -/
theorem readToFill_ok (read : readToFill room s = (.ok bytes, rest)) :
    bytes.length ≤ room ∧
      (bytes.length = room → readToEnd s = (readToEnd rest).map (bytes ++ ·)) ∧
      (bytes.length < room → readToEnd s = .ok bytes) ∧ size rest + bytes.length ≤ size s := by
  have unread : (readToEnd s).map ([] ++ ·) = readToEnd s := by
    cases readToEnd s <;> simp [Except.map]
  induction room, s using readToFill.induct generalizing bytes rest with
  | case1 s =>
    obtain ⟨rfl, rfl⟩ : [] = bytes ∧ s = rest := by simpa [readToFill] using read
    exact ⟨Nat.le_refl _, fun _ => unread.symm, fun h => absurd h (by simp), by simp⟩
  | case2 room =>
    obtain ⟨rfl, rfl⟩ : [] = bytes ∧ [] = rest := by simpa [readToFill] using read
    exact ⟨Nat.zero_le _, fun h => absurd h (by simp), fun _ => rfl, by simp⟩
  | case3 room e rest' => simp [readToFill] at read
  | case4 room answer rest' long =>
    simp only [readToFill, if_pos long, Prod.mk.injEq, Except.ok.injEq] at read
    obtain ⟨rfl, rfl⟩ := read
    have some_ : answer.drop (room + 1) ≠ [] := by
      rw [ne_eq, List.drop_eq_nil_iff]
      omega
    have whole : answer ≠ [] := by
      rintro rfl
      simp at long
    have length : (answer.take (room + 1)).length = room + 1 := by
      rw [List.length_take]
      omega
    refine ⟨length.le, fun _ => ?_, fun short => absurd short (by omega), ?_⟩
    · simp only [readToEnd, if_neg some_, if_neg whole]
      rw [map_map, List.take_append_drop]
    · simp only [size, List.map_cons, List.sum_cons, Except.toOption, Option.getD_some, length,
        List.length_drop]
      omega
  | case5 room rest' long =>
    simp only [readToFill, if_neg long, if_true, Prod.mk.injEq, Except.ok.injEq] at read
    obtain ⟨rfl, rfl⟩ := read
    exact ⟨Nat.zero_le _, fun h => absurd h (by simp), fun _ => rfl, by simp [size, Except.toOption]⟩
  | case6 room answer rest' long some_ ih =>
    simp only [readToFill, if_neg long, if_neg some_, Prod.mk.injEq] at read
    obtain ⟨filled, left⟩ := read
    obtain ⟨more, read, rfl⟩ := map_ok.1 filled
    have unread' : (readToEnd rest').map ([] ++ ·) = readToEnd rest' := by
      cases readToEnd rest' <;> simp [Except.map]
    obtain ⟨le, full, short, less⟩ := ih (Prod.ext read left) unread'
    have within : answer.length ≤ room + 1 := by omega
    rw [List.length_append]
    refine ⟨by omega, fun all => ?_, fun few => ?_, ?_⟩
    · rw [readToEnd, if_neg some_, full (by omega), map_map]
    · rw [readToEnd, if_neg some_, short (by omega)]
      rfl
    · simp only [size, List.map_cons, List.sum_cons, Except.toOption, Option.getD_some] at less ⊢
      omega

/-- A read that fails fails the file. -/
theorem readToFill_error (read : (readToFill room s).1 = .error e) : readToEnd s = .error e := by
  induction room, s using readToFill.induct with
  | case1 s => simp [readToFill] at read
  | case2 room => simp [readToFill] at read
  | case3 room e' rest' =>
    obtain rfl : e' = e := by simpa [readToFill] using read
    rfl
  | case4 room answer rest' long => simp [readToFill, long] at read
  | case5 room rest' long => simp [readToFill] at read
  | case6 room answer rest' long some_ ih =>
    simp only [readToFill, if_neg long, if_neg some_] at read
    cases filled : (readToFill (room + 1 - answer.length) rest').1 with
    | ok more =>
      rw [filled] at read
      cases read
    | error e' =>
      rw [filled] at read
      cases read
      rw [readToEnd, if_neg some_, ih filled]
      rfl

/-- What is read of a file whose reads do not fail: as much as there is room for. -/
theorem readToFill_of_end (whole : readToEnd s = .ok bytes) (room : Nat) :
    ∃ rest, readToFill room s = (.ok (bytes.take room), rest) := by
  cases read : readToFill room s with
  | mk result rest =>
    cases result with
    | error e =>
      have failed := readToFill_error (show (readToFill room s).1 = .error e by rw [read])
      cases whole.symm.trans failed
    | ok filled =>
      obtain ⟨le, full, short, -⟩ := readToFill_ok read
      refine ⟨rest, ?_⟩
      rcases Nat.lt_or_eq_of_le le with fewer | all
      · obtain rfl := Except.ok.inj ((short fewer).symm.trans whole)
        rw [List.take_of_length_le le]
      · obtain ⟨more, -, rfl⟩ := map_ok.1 ((full all).symm.trans whole)
        rw [← all, List.take_left]

end Daemonseed.Lib.Streams
