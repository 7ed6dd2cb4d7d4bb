import Mathlib.Logic.Function.Basic

/-! # A folder of records whose accesses fail part of the way

A folder holds one record of each kind. A record is replaced in one stroke and
erased in two, a mark over its bytes and then its removal, so that an erasure
that stops in between is known for what it is. A section is a sequence of
accesses, each of which may fail before it does anything or after it did a part
of it, and which may stop after any of them. What a section keeps of a folder
is shown access by access. -/
namespace Daemonseed.Lib.Folders

variable {K : Type} {V : K → Type} {ε α β : Type}

/-- What is found under a record's name. -/
inductive Record (α : Type)
  | absent
  /-- Marked as erased, and not removed. -/
  | scrubbed
  | payload (value : α)
  | unreadable
  deriving DecidableEq

/-- The records of a folder, each of its own kind. -/
abbrev Folder (V : K → Type) := (k : K) → Record (V k)

/-- How one access goes. -/
inductive Went
  | done
  /-- It fails and has done nothing. -/
  | refused
  /-- A replacement fails once the new record is in place. -/
  | landed
  /-- An erasure fails inside its mark. -/
  | torn
  /-- An erasure fails between its mark and the removal. -/
  | scrubbed
  /-- An erasure fails once the record is removed. -/
  | removed
  deriving DecidableEq, Repr

/-- Why a section did not return. -/
inductive Halt (K ε : Type)
  | access (k : K)
  | refused (e : ε)
  | stopped
  deriving DecidableEq, Repr

/-- A sequence of accesses over a folder, told how each of them goes: it stops
where it is told no more. -/
def Section (V : K → Type) (ε α : Type) : Type :=
  Folder V → List Went → Except (Halt K ε) α × Folder V × List Went

namespace Section

instance : Monad (Section V ε) where
  pure a := fun D ws => (.ok a, D, ws)
  bind p k := fun D ws =>
    match p D ws with
    | (.ok a, D, ws) => k a D ws
    | (.error e, D, ws) => (.error e, D, ws)

/-- What the section returns. -/
def result (p : Section V ε α) (D : Folder V) (ws : List Went) : Except (Halt K ε) α := (p D ws).1

/-- The folder the section leaves. -/
def leaves (p : Section V ε α) (D : Folder V) (ws : List Went) : Folder V := (p D ws).2.1

def refuse (e : ε) : Section V ε α := fun D ws => (.error (.refused e), D, ws)

def fail (k : K) : Section V ε α := fun D ws => (.error (.access k), D, ws)

/-- A failure is a result; a stop is still one. -/
def attempt (p : Section V ε α) : Section V ε (Except (Halt K ε) α) := fun D ws =>
  match p D ws with
  | (.error .stopped, D, ws) => (.error .stopped, D, ws)
  | (r, D, ws) => (.ok r, D, ws)

def ofExcept : Except ε α → Section V ε α
  | .ok a => pure a
  | .error e => refuse e

variable [DecidableEq K]

/-- A record that reads: none, one marked as erased, or a payload. -/
def look (k : K) : Section V ε (Record (V k)) := fun D ws =>
  match ws with
  | [] => (.error .stopped, D, [])
  | .done :: ws =>
    match D k with
    | .unreadable => (.error (.access k), D, ws)
    | r => (.ok r, D, ws)
  | _ :: ws => (.error (.access k), D, ws)

/-- Whether an erasure of the record stopped; where it does not read, no. -/
def interrupted (k : K) : Section V ε Bool := fun D ws =>
  match ws with
  | [] => (.error .stopped, D, [])
  | .done :: ws =>
    match D k with
    | .scrubbed => (.ok true, D, ws)
    | _ => (.ok false, D, ws)
  | _ :: ws => (.ok false, D, ws)

/-- The new record may be in place where a failure is told. -/
def replace (k : K) (value : V k) : Section V ε Unit := fun D ws =>
  match ws with
  | [] => (.error .stopped, D, [])
  | .done :: ws => (.ok (), Function.update D k (.payload value), ws)
  | .landed :: ws => (.error (.access k), Function.update D k (.payload value), ws)
  | _ :: ws => (.error (.access k), D, ws)

end Section

/-- What a step of an erasure leaves of a record. -/
def Record.after : Went → Record α → Record α
  | .done, _ | .removed, _ | .torn, .absent | .scrubbed, .absent => .absent
  | .torn, .scrubbed | .scrubbed, _ => .scrubbed
  | .torn, _ => .unreadable
  | .refused, r | .landed, r => r

namespace Section

variable [DecidableEq K]

/-- Mark, then remove. -/
def erase (k : K) : Section V ε Unit := fun D ws =>
  match ws with
  | [] => (.error .stopped, D, [])
  | w :: ws =>
    (if w = .done then .ok () else .error (.access k), Function.update D k ((D k).after w), ws)

/-- A record whose erasure stopped is erased, and reads as none. -/
def readFinishing (k : K) : Section V ε (Option (V k)) := do
  match ← look k with
  | .payload value => return some value
  | .scrubbed =>
    erase k
    return none
  | _ => return none

end Section

/-! ## What a section keeps -/

section Keeping

variable {I P : Folder V → Prop} {Q : α → Folder V → Prop}

/-- From a folder where `I` and `P` hold the section leaves `I`, and `Q` where it returns. -/
def Keeps (I P : Folder V → Prop) (p : Section V ε α) (Q : α → Folder V → Prop) : Prop :=
  ∀ D ws, I D → P D → I (p.leaves D ws) ∧ ∀ a, p.result D ws = .ok a → Q a (p.leaves D ws)

theorem keeps_bind {p : Section V ε α} {k : α → Section V ε β} {R : β → Folder V → Prop}
    (first : Keeps I P p Q) (rest : ∀ a, Keeps I (Q a) (k a) R) : Keeps I P (p >>= k) R := by
  intro D ws hI hP
  obtain ⟨kept, returned⟩ := first D ws hI hP
  simp only [Section.leaves, Section.result, bind] at kept returned ⊢
  cases ran : p D ws with
  | mk r s =>
    rw [ran] at kept returned
    cases r with
    | ok a => exact rest a s.1 s.2 kept (returned a rfl)
    | error e => exact ⟨kept, fun _ h => by cases h⟩

theorem keeps_return {a : α} (h : ∀ D, I D → P D → Q a D) :
    Keeps I P (pure a : Section V ε α) Q :=
  fun D _ hI hP => ⟨hI, fun _ e => by cases e; exact h D hI hP⟩

theorem keeps_refuse {e : ε} : Keeps I P (Section.refuse e : Section V ε α) Q :=
  fun _ _ hI _ => ⟨hI, fun _ h => by cases h⟩

theorem keeps_ofExcept {x : Except ε α} :
    Keeps I P (Section.ofExcept x : Section V ε α) fun a D => x = .ok a ∧ P D := by
  cases x with
  | ok a => exact fun D ws hI hP => ⟨hI, fun _ h => by cases h; exact ⟨rfl, hP⟩⟩
  | error e => exact keeps_refuse

theorem keeps_fail {k : K} : Keeps I P (Section.fail k : Section V ε α) Q :=
  fun _ _ hI _ => ⟨hI, fun _ h => by cases h⟩

theorem keeps_attempt {p : Section V ε α} (h : Keeps I P p Q) :
    Keeps I P (Section.attempt p) fun r D => ∀ a, r = .ok a → Q a D := by
  intro D ws hI hP
  obtain ⟨kept, returned⟩ := h D ws hI hP
  unfold Section.attempt Section.leaves Section.result at *
  dsimp only
  split
  · rename_i ran
    rw [ran] at kept
    exact ⟨kept, fun _ h => by cases h⟩
  · rename_i r D' ws' _ ran
    rw [ran] at kept returned
    exact ⟨kept, fun _ e => by cases e; exact returned⟩

theorem keeps_interrupted {k : K} : Keeps I P (Section.interrupted k : Section V ε Bool)
    fun stopped D => (stopped = true → D k = .scrubbed) ∧ P D := by
  intro D ws hI hP
  unfold Section.interrupted Section.leaves Section.result
  dsimp only
  split
  · exact ⟨hI, fun _ h => by cases h⟩
  · split
    · rename_i scrubbed
      exact ⟨hI, fun _ h => by cases h; exact ⟨fun _ => scrubbed, hP⟩⟩
    · exact ⟨hI, fun _ h => by cases h; exact ⟨fun e => (by cases e), hP⟩⟩
  · exact ⟨hI, fun _ h => by cases h; exact ⟨fun e => (by cases e), hP⟩⟩

theorem Keeps.any {p : Section V ε α} {P' : Folder V → Prop} (h : Keeps I (fun _ => True) p Q) :
    Keeps I P' p Q := fun D ws hI _ => h D ws hI trivial

theorem Keeps.mono {p : Section V ε α} {P' : Folder V → Prop} {Q' : α → Folder V → Prop}
    (h : Keeps I P p Q) (pre : ∀ D, I D → P' D → P D) (post : ∀ a D, I D → Q a D → Q' a D) :
    Keeps I P' p Q' := fun D ws hI hP =>
  have ⟨kept, returned⟩ := h D ws hI (pre D hI hP)
  ⟨kept, fun a ha => post a _ kept (returned a ha)⟩

theorem keeps_look {k : K} : Keeps I P (Section.look k : Section V ε (Record (V k)))
    fun r D => D k = r ∧ r ≠ .unreadable ∧ P D := by
  intro D ws hI hP
  unfold Section.look Section.leaves Section.result
  dsimp only
  split
  · exact ⟨hI, fun _ h => by cases h⟩
  · split
    · exact ⟨hI, fun _ h => by cases h⟩
    · rename_i readable
      exact ⟨hI, fun _ h => by cases h; exact ⟨rfl, readable, hP⟩⟩
  · exact ⟨hI, fun _ h => by cases h⟩

variable [DecidableEq K]

theorem keeps_replace {k : K} {value : V k}
    (lands : ∀ D, I D → P D → I (Function.update D k (.payload value))) :
    Keeps I P (Section.replace k value : Section V ε Unit)
      fun _ D => D k = .payload value := by
  intro D ws hI hP
  unfold Section.replace Section.leaves Section.result
  dsimp only
  split
  · exact ⟨hI, fun _ h => by cases h⟩
  · exact ⟨lands D hI hP, fun _ _ => Function.update_self ..⟩
  · exact ⟨lands D hI hP, fun _ h => by cases h⟩
  · exact ⟨hI, fun _ h => by cases h⟩

/-- What the others held is held after an erasure. -/
theorem keeps_erase {k : K} {R : Folder V → Prop}
    (part : ∀ D w, I D → P D → I (Function.update D k ((D k).after w)))
    (frame : ∀ D, P D → R (Function.update D k .absent)) :
    Keeps I P (Section.erase k : Section V ε Unit) fun _ D => D k = .absent ∧ R D := by
  intro D ws hI hP
  unfold Section.erase Section.leaves Section.result
  dsimp only
  split
  · exact ⟨hI, fun _ h => by cases h⟩
  · rename_i w ws
    refine ⟨part D w hI hP, fun _ h => ?_⟩
    by_cases done : w = .done
    · subst done
      rw [show (D k).after .done = .absent by cases D k <;> rfl]
      exact ⟨Function.update_self .., frame D hP⟩
    · simp [done] at h

end Keeping

/-! ## What became of a folder -/

/-- What became of a record: what it was, none once its stopped erasure is over, a payload
that may be written, or anything but a payload where it may be erased. -/
inductive Turn (writes : α → Prop) (erases : Prop) (r : Record α) : Record α → Prop
  | same : Turn writes erases r r
  | finished (was : r = .scrubbed) : Turn writes erases r .absent
  | wrote {value : α} (may : writes value) : Turn writes erases r (.payload value)
  | erased (may : erases) {r' : Record α} (gone : ∀ value, r' ≠ .payload value) :
      Turn writes erases r r'

/-- A record of none, or of a payload. -/
def Record.ofOption : Option α → Record α
  | none => .absent
  | some value => .payload value

theorem Turn.payload {writes : α → Prop} {erases : Prop} {r : Record α} {value : α}
    (h : Turn writes erases r (.payload value)) : r = .payload value ∨ writes value := by
  cases h with
  | same => exact .inl rfl
  | wrote may => exact .inr may
  | erased _ gone => exact absurd rfl (gone value)

theorem Turn.kept {writes : α → Prop} {erases : Prop} {r : Record α} {value : α}
    (h : Turn writes erases (.payload value) r) (kept : ¬ erases) :
    r = .payload value ∨ ∃ value', writes value' ∧ r = .payload value' := by
  cases h with
  | same => exact .inl rfl
  | finished was => cases was
  | wrote may => exact .inr ⟨_, may, rfl⟩
  | erased may => exact absurd may kept

/-- Of a record that is neither written nor erased, a payload is what it was. -/
theorem Turn.still {writes : α → Prop} {erases : Prop} {r r' : Record α} {value : α}
    (h : Turn writes erases r r') (unwritten : ∀ value, ¬ writes value) (kept : ¬ erases) :
    r' = .payload value ↔ r = .payload value := by
  constructor
  · rintro rfl
    exact h.payload.resolve_right (unwritten value)
  · rintro rfl
    rcases h.kept kept with same | ⟨value', may, _⟩
    · exact same
    · exact absurd may (unwritten value')

/-- The records `writes` allows to be written, and `erases` to be erased, became of `D₀`. -/
def Turned (writes : (k : K) → V k → Prop) (erases : K → Prop) (D₀ D : Folder V) : Prop :=
  ∀ k, Turn (writes k) (erases k) (D₀ k) (D k)

section Turning

variable {writes : (k : K) → V k → Prop} {erases : K → Prop} {D₀ D : Folder V} {k : K}

theorem turned_refl (D : Folder V) : Turned writes erases D D := fun _ => .same

/-- Nothing was written and nothing erased: at most a stopped erasure is over. -/
abbrev Reads (D₀ D : Folder V) : Prop := Turned (fun _ _ => False) (fun _ => False) D₀ D

theorem Turned.of_reads (h : Reads D₀ D) : Turned writes erases D₀ D := by
  intro k
  have turn := h k
  generalize D k = r at turn ⊢
  cases turn with
  | same => exact .same
  | finished was => exact .finished was
  | wrote may => exact may.elim
  | erased may => exact may.elim

/-- A section that only reads, inside one that does more. -/
theorem Keeps.reading {p : Section V ε α} {P : Folder V → Prop} {Q : α → Folder V → Prop}
    (h : Keeps (Reads D₀) P p Q) : Keeps (Turned writes erases D₀) (fun D => Reads D₀ D ∧ P D) p
      fun a D => Reads D₀ D ∧ Q a D := fun D ws _ hP =>
  have ⟨kept, returned⟩ := h D ws hP.1 hP.2
  ⟨.of_reads kept, fun a ha => ⟨kept, returned a ha⟩⟩

variable [DecidableEq K]

theorem Turned.put (h : Turned writes erases D₀ D) {r : Record (V k)}
    (turn : Turn (writes k) (erases k) (D₀ k) r) : Turned writes erases D₀ (Function.update D k r) := by
  intro k'
  by_cases same : k' = k
  · subst same
    rwa [Function.update_self]
  · rw [Function.update_of_ne same]
    exact h k'

theorem Turned.write (h : Turned writes erases D₀ D) {value : V k} (may : writes k value) :
    Turned writes erases D₀ (Function.update D k (.payload value)) := h.put (.wrote may)

theorem Turned.finish (h : Turned writes erases D₀ D) (scrubbed : D k = .scrubbed) (w : Went) :
    Turned writes erases D₀ (Function.update D k ((D k).after w)) := by
  have turn := h k
  rw [scrubbed] at turn ⊢
  refine h.put ?_
  have finished : Turn (writes k) (erases k) (D₀ k) .absent := by
    generalize D₀ k = r at turn
    cases turn with
    | same => exact .finished rfl
    | erased may gone => exact .erased may fun _ h => by cases h
  cases w with
  | done | removed => exact finished
  | refused | landed | torn | scrubbed => exact turn

theorem Turned.erase (h : Turned writes erases D₀ D) (may : erases k) (w : Went) :
    Turned writes erases D₀ (Function.update D k ((D k).after w)) := by
  refine h.put ?_
  cases w with
  | refused | landed => exact h k
  | done | torn | scrubbed | removed =>
    exact .erased may fun value e => by cases r : D k <;> rw [r] at e <;> cases e

variable {P : Folder V → Prop}

/-- No record comes back with the removal of another. -/
theorem absent_update {k' : K} {D : Folder V} (h : D k = .absent) :
    Function.update D k' .absent k = .absent := by
  by_cases same : k = k'
  · subst same
    exact Function.update_self ..
  · rwa [Function.update_of_ne same]

omit [DecidableEq K] in
/-- What a section makes of the folder it is entered on. -/
theorem Keeps.turned {p : Section V ε α} {Q : α → Folder V → Prop}
    (h : Keeps (Turned writes erases D) (Reads D) p Q) (ws : List Went) :
    Turned writes erases D (p.leaves D ws) ∧
      ∀ a, p.result D ws = .ok a → Q a (p.leaves D ws) := h D ws (turned_refl D) (turned_refl D)

/-- A record is read, or found to be none after its erasure is over. -/
theorem keeps_readFinishing (frame : ∀ D, P D → P (Function.update D k .absent)) :
    Keeps (Turned writes erases D₀) P (Section.readFinishing k : Section V ε (Option (V k)))
      fun found D => D k = .ofOption found ∧ P D := by
  refine keeps_bind keeps_look fun r => ?_
  cases r with
  | payload value =>
    exact keeps_return fun D _ h => ⟨h.1, h.2.2⟩
  | scrubbed =>
    have erased : Keeps (Turned writes erases D₀) (fun D => D k = .scrubbed ∧ P D)
        (Section.erase k : Section V ε Unit) fun _ D => D k = .absent ∧ P D :=
      keeps_erase (fun D w h was => h.finish was.1 w) fun D h => frame D h.2
    refine keeps_bind (erased.mono (fun D _ h => ⟨h.1, h.2.2⟩) fun _ _ _ h => h) fun _ => ?_
    exact keeps_return fun D _ h => h
  | absent =>
    exact keeps_return fun D _ h => ⟨h.1, h.2.2⟩
  | unreadable => exact fun D ws _ h => absurd rfl h.2.1

end Turning

end Daemonseed.Lib.Folders
