import Mathlib.Data.List.Basic

/-! # Two ratchets with a window of two

The turn schedule of two parties, with nothing of it left but counts. Each
party mints turns and names, in each of them, the newest turn of the peer's
it has read; it keeps its newest turn, and the one before until a turn that
names the newest is read. A turn that names one no longer kept cannot be
read, and nothing after it either. Here: what the parties have to keep to
for that never to happen. -/
namespace Daemonseed.Dm.TurnGame

/-- One party. Turns are counted from 1, so 0 is no turn at all. -/
structure Side where
  /-- Turns minted, which is the number of the newest. -/
  minted : Nat
  /-- Whether the turn before the newest is still kept. -/
  older : Bool
  /-- Turns of the peer's read. -/
  read : Nat
  /-- The peer turn the newest own turn names. -/
  seen : Nat
  /-- What the turns the peer has not read yet name, oldest first. -/
  queue : List Nat
  deriving DecidableEq, Repr

namespace Side

/-- A turn of the peer's has been read that no own turn names. -/
def Due (x : Side) : Prop := x.seen < x.read

/-- Mint a turn, naming the newest turn read. -/
def start (x : Side) : Side where
  minted := x.minted + 1
  older := decide (0 < x.minted)
  read := x.read
  seen := x.read
  queue := x.queue ++ [x.read]

/-- The peer reads the oldest turn in flight. -/
def pop (x : Side) : Side := { x with queue := x.queue.tail }

/-- Read a turn that names `named`. -/
def take (y : Side) (named : Nat) : Side :=
  { y with read := y.read + 1, older := if named = y.minted then false else y.older }

/-- The turn `named` is kept. -/
def Keeps (y : Side) (named : Nat) : Prop :=
  named = y.minted ∨ y.older = true ∧ named + 1 = y.minted

end Side

/-- What the turns in flight to `y` may name: its newest, or the one before
it while `y` keeps it and owes no turn of its own. Two are in flight only
where the second is owed to nothing but a reset. -/
inductive Window (y : Side) : List Nat → Prop
  | empty : Window y []
  | newest : Window y [y.minted]
  | crossing (named : Nat) (before : named + 1 = y.minted) (older : y.older = true)
      (idle : ¬ y.Due) : Window y [named]
  | firsts (older : y.older = false) (read : y.read = 0) : Window y [y.minted, y.minted]
  | crossed (named : Nat) (before : named + 1 = y.minted) (older : y.older = true)
      (idle : ¬ y.Due) : Window y [named, y.minted]

/-- What holds of the turns `x` has in flight to `y`. -/
structure Link (x y : Side) : Prop where
  count : y.read + x.queue.length = x.minted
  seen_le : x.seen ≤ x.read
  last : ∀ a, x.queue.getLast? = some a → a = x.seen
  named : ∀ a ∈ x.queue, 0 < a ∧ a ≤ x.read
  window : Window y x.queue
  /-- The turn before the newest is gone only once the newest was read, the
  very first turn apart. -/
  acked : x.older = false → y.read = x.minted ∨ y.read = 0 ∧ x.minted = 1
  fresh : x.read = 0 → x.older = false

/-- The oldest turn in flight can be read. -/
theorem Link.keeps {x y : Side} (h : Link x y) {named : Nat} {rest : List Nat}
    (hq : x.queue = named :: rest) : y.Keeps named := by
  cases hq ▸ h.window with
  | newest => exact .inl rfl
  | crossing _ before older _ => exact .inr ⟨older, before⟩
  | firsts => exact .inl rfl
  | crossed _ before older _ => exact .inr ⟨older, before⟩

private theorem start_window {x y : Side} (h : Link x y) (k : Link y x) (hr : 0 < x.read)
    (may : x.Due ∨ x.older = false) : Window y (x.queue ++ [x.read]) := by
  have hx := h.count
  have hy := k.count
  have hack := h.acked
  unfold Side.Due at may
  generalize hq : x.queue = queue at *
  cases hq ▸ h.window with
  | empty =>
    generalize hk : y.queue = queue' at *
    cases hk ▸ k.window with
    | empty =>
      have : x.read = y.minted := by simpa using hy
      rw [this]
      exact .newest
    | newest =>
      have hseen : x.minted = y.seen := k.last _ (by simp [hk])
      refine .crossing x.read (by simpa using hy) ?_ ?_
      · by_contra hold
        rcases k.acked (by simpa using hold) with h' | h' <;> simp at hy <;> omega
      · unfold Side.Due
        simp at hx
        omega
    | crossing _ _ older idle => rcases may with m | m <;> simp_all [Side.Due]
    | firsts _ read => omega
    | crossed _ _ older idle => rcases may with m | m <;> simp_all [Side.Due]
  | newest =>
    have hseen : y.minted = x.seen := h.last _ (by simp [hq])
    have hle := h.seen_le
    have heq : x.read = y.minted := by omega
    rw [heq]
    rcases hack (may.resolve_left (by omega)) with h' | ⟨h', _⟩
    · simp at hx; omega
    · exact .firsts (k.fresh h') h'
  | crossing named before older idle =>
    have hseen : named = x.seen := h.last _ (by simp [hq])
    have hle := h.seen_le
    rcases may with due | hold
    · have heq : x.read = y.minted := by omega
      rw [heq]
      exact .crossed named before older idle
    · rcases hack hold with h' | ⟨h', _⟩
      · simp at hx; omega
      · simp [k.fresh h'] at older
  | firsts older read =>
    have hseen : y.minted = x.seen := h.last _ (by simp [hq])
    rcases hack (may.resolve_left (by omega)) with h' | h' <;> simp at hx <;> omega
  | crossed named before older idle =>
    have hseen : y.minted = x.seen := h.last _ (by simp [hq])
    rcases hack (may.resolve_left (by omega)) with h' | h' <;> simp at hx <;> omega

/-- **Minting keeps the links**, when the rule makes it due or when the own
turn before the newest is gone. -/
theorem start_links {x y : Side} (h : Link x y) (k : Link y x) (hr : 0 < x.read)
    (may : x.Due ∨ x.older = false) : Link x.start y ∧ Link y x.start := by
  constructor
  · refine ⟨?_, Nat.le_refl _, ?_, ?_, start_window h k hr may, ?_, ?_⟩
    · have := h.count
      simp only [Side.start, List.length_append, List.length_singleton]
      omega
    · intro a ha
      simpa [Side.start] using ha.symm
    · intro a ha
      simp only [Side.start, List.mem_append, List.mem_singleton] at ha
      rcases ha with ha | rfl
      · exact h.named a ha
      · exact ⟨hr, Nat.le_refl _⟩
    · intro hold
      have hz : x.minted = 0 := by simpa [Side.start] using hold
      have := h.count
      simp only [Side.start]
      omega
    · intro hz
      simp only [Side.start] at hz
      omega
  · refine ⟨k.count, k.seen_le, k.last, k.named, ?_, k.acked, k.fresh⟩
    have hn := k.named
    unfold Side.Due at may
    generalize hq : y.queue = queue at *
    cases hq ▸ k.window with
    | empty => exact .empty
    | newest =>
      have hpos := (hn x.minted (by simp)).1
      exact .crossing x.minted rfl (by simp [Side.start, hpos]) (by simp [Side.Due, Side.start])
    | crossing _ _ older idle => rcases may with m | m <;> simp_all [Side.Due]
    | firsts _ read => omega
    | crossed _ _ older idle => rcases may with m | m <;> simp_all [Side.Due]

/-- **Reading keeps the links.** -/
theorem take_links {x y : Side} (h : Link x y) (k : Link y x) {named : Nat} {rest : List Nat}
    (hq : x.queue = named :: rest) :
    Link x.pop (y.take named) ∧ Link (y.take named) x.pop := by
  have hcount := h.count
  have hle := h.named named (by simp [hq])
  rw [hq, List.length_cons] at hcount
  constructor
  · refine ⟨?_, h.seen_le, ?_, ?_, ?_, ?_, h.fresh⟩
    · simp only [Side.pop, Side.take, hq, List.tail_cons]
      omega
    · intro a ha
      refine h.last a ?_
      simp only [Side.pop, hq, List.tail_cons] at ha
      rw [hq, List.getLast?_cons, ha]
      rfl
    · intro a ha
      refine h.named a ?_
      simp only [Side.pop, hq, List.tail_cons] at ha
      simp [hq, ha]
    · simp only [Side.pop, hq, List.tail_cons]
      cases hq ▸ h.window with
      | newest | crossing => exact .empty
      | firsts | crossed => exact .newest
    · intro hold
      have := h.acked hold
      simp only [Side.take, Side.pop]
      omega
  · refine ⟨k.count, ?_, k.last, ?_, ?_, ?_, ?_⟩
    · have := k.seen_le
      simp only [Side.take]
      omega
    · intro a ha
      have := k.named a ha
      simp only [Side.take]
      omega
    · have hw : Window x y.queue := k.window
      cases hk : y.queue <;> rw [hk] at hw <;> simp only [Side.take, hk]
      · exact .empty
      · cases hw with
        | newest => exact .newest
        | crossing _ b o i => exact .crossing _ b o i
        | firsts o r => exact .firsts o r
        | crossed _ b o i => exact .crossed _ b o i
    · intro hold
      have hy := k.count
      simp only [Side.take] at hold
      split at hold
      · left
        simp only [Side.pop, Side.take]
        omega
      · exact k.acked hold
    · intro hz
      simp [Side.take] at hz

end Daemonseed.Dm.TurnGame
