import Mathlib.Data.List.Basic
import Mathlib.Data.List.Nodup
import Mathlib.Data.List.Perm.Basic

/-! # A bounded cache that drops what was used least recently

Values by key, and the keys in the order of their last use. The one value an
insertion can drop is that of the key at the front; and a key that as many
others were used after as the cache holds is gone. -/
namespace Daemonseed.Lib.Lru

variable {K V : Type}

/-- The values, and their keys from the least recently used on. -/
structure Recent (K V : Type) where
  cache : List (K × V)
  lru : List K

namespace Recent

def empty : Recent K V := ⟨[], []⟩

variable [DecidableEq K]

def lookup (c : Recent K V) (key : K) : Option V := c.cache.lookup key

/-- The key becomes the most recently used. -/
def touch (c : Recent K V) (key : K) : Recent K V :=
  if key ∈ c.lru then { c with lru := c.lru.erase key ++ [key] } else c

/-- The least recently used go until there is room for one more. -/
def evict (capacity : Nat) : List K → List (K × V) → Recent K V
  | [], cache => ⟨cache, []⟩
  | old :: rest, cache =>
    if capacity ≤ cache.length then evict capacity rest (cache.filter (·.1 ≠ old))
    else ⟨cache, old :: rest⟩

def insert (capacity : Nat) (c : Recent K V) (key : K) (value : V) : Recent K V :=
  let room := evict capacity c.lru c.cache
  ⟨(key, value) :: room.cache.filter (·.1 ≠ key), room.lru ++ [key]⟩

/-- A use of a key, which takes this value where it is not held. -/
def use (capacity : Nat) (c : Recent K V) (key : K) (value : V) : Recent K V :=
  if (c.lookup key).isSome then c.touch key else c.insert capacity key value

/-- The key a use would drop. -/
def drops (capacity : Nat) (c : Recent K V) (key : K) : Option K :=
  if c.lookup key = none ∧ capacity ≤ c.cache.length then c.lru.head? else none

/-- The keys are those of the values, each once, and there is room for them. -/
structure Sound (capacity : Nat) (c : Recent K V) : Prop where
  nodup : c.lru.Nodup
  keys : (c.cache.map Prod.fst).Perm c.lru
  room : c.cache.length ≤ capacity

variable {capacity : Nat} {c : Recent K V} {key other : K} {value : V}

omit [DecidableEq K] in
theorem Sound.empty : Sound capacity (empty : Recent K V) :=
  ⟨List.nodup_nil, .nil, Nat.zero_le _⟩

omit [DecidableEq K] in
theorem Sound.length (h : Sound capacity c) : c.lru.length = c.cache.length := by
  simpa using h.keys.length_eq.symm

theorem Sound.held (h : Sound capacity c) : (c.lookup key).isSome ↔ key ∈ c.lru := by
  rw [← h.keys.mem_iff, lookup, List.lookup_isSome_iff]
  constructor
  · rintro ⟨kv, hkv, heq⟩
    exact eq_of_beq heq ▸ List.mem_map_of_mem hkv
  · intro hkey
    obtain ⟨kv, hkv, rfl⟩ := List.mem_map.1 hkey
    exact ⟨kv, hkv, beq_self_eq_true _⟩

theorem Sound.absent (h : Sound capacity c) : c.lookup key = none ↔ key ∉ c.lru := by
  rw [← h.held, Option.not_isSome_iff_eq_none]

theorem lookup_touch : (c.touch key).lookup other = c.lookup other := by
  unfold touch
  split <;> rfl

theorem Sound.touch (h : Sound capacity c) : Sound capacity (c.touch key) := by
  unfold Recent.touch
  split
  · rename_i held
    have turned : (c.lru.erase key ++ [key]).Perm c.lru :=
      (List.perm_append_singleton _ _).trans (List.perm_cons_erase held).symm
    exact ⟨turned.nodup_iff.2 h.nodup, h.keys.trans turned.symm, h.room⟩
  · exact h

/-! ## Insertion -/

theorem lookup_cons_ne {l : List (K × V)} (ne : other ≠ key) :
    ((key, value) :: l).lookup other = l.lookup other := by
  rw [List.lookup_cons, beq_eq_false_iff_ne.2 ne]

theorem lookup_filter {l : List (K × V)} (ne : other ≠ key) :
    (l.filter (·.1 ≠ key)).lookup other = l.lookup other := by
  induction l with
  | nil => rfl
  | cons x l ih =>
    by_cases hx : x.1 = key
    · rw [List.filter_cons_of_neg (by simpa using hx), ih]
      exact (lookup_cons_ne (hx ▸ ne)).symm
    · rw [List.filter_cons_of_pos (by simpa using hx), List.lookup_cons, List.lookup_cons, ih]

/-- A full cache gives up the key at the front alone. -/
theorem Sound.evict_full {old : K} {rest : List K} (h : Sound capacity c)
    (front : c.lru = old :: rest) (full : capacity ≤ c.cache.length) :
    evict capacity c.lru c.cache = ⟨c.cache.filter (·.1 ≠ old), rest⟩ ∧
      ((c.cache.filter (·.1 ≠ old)).map Prod.fst).Perm rest := by
  have keys : ((c.cache.filter (·.1 ≠ old)).map Prod.fst).Perm rest := by
    have nodup := h.nodup
    have keys := h.keys
    rw [front] at nodup keys
    have others : rest.filter (· ≠ old) = rest := by
      refine List.filter_eq_self.2 fun k hk => ?_
      simpa using fun e : k = old => (List.nodup_cons.1 nodup).1 (e ▸ hk)
    have kept := keys.filter (· ≠ old)
    rw [List.filter_map, List.filter_cons_of_neg (by simp), others] at kept
    exact kept
  have shorter : (c.cache.filter (·.1 ≠ old)).length < capacity := by
    have := keys.length_eq
    have := h.length
    simp only [List.length_map, front, List.length_cons] at *
    have := h.room
    omega
  refine ⟨?_, keys⟩
  rw [front, evict, if_pos full]
  cases rest with
  | nil => rfl
  | cons next rest => rw [evict, if_neg (by omega)]

theorem evict_room (room : c.cache.length < capacity) : evict capacity c.lru c.cache = c := by
  obtain ⟨cache, lru⟩ := c
  cases lru with
  | nil => rfl
  | cons old rest => rw [evict, if_neg (Nat.not_le.2 room)]

/-- What a use leaves of the cache, without the key itself: all of it, or all but
the one it drops. -/
theorem Sound.evicted (h : Sound capacity c) (pos : 0 < capacity) (fresh : c.lookup key = none) :
    let room := evict capacity c.lru c.cache
    room.lru.Sublist c.lru ∧ (room.cache.map Prod.fst).Perm room.lru ∧
      room.cache.length < capacity ∧
        ∀ k, c.drops capacity key ≠ some k → room.lookup k = c.lookup k := by
  by_cases full : capacity ≤ c.cache.length
  · have long : 0 < c.lru.length := by have := h.length; omega
    obtain ⟨old, rest, front⟩ := List.exists_cons_of_length_pos long
    obtain ⟨eq, keys⟩ := h.evict_full front full
    simp only [eq]
    refine ⟨front ▸ List.sublist_cons_self _ _, keys, ?_, fun k hk => ?_⟩
    · have := keys.length_eq
      have := h.length
      have := h.room
      simp only [List.length_map, front, List.length_cons] at *
      omega
    · refine lookup_filter fun e => hk ?_
      rw [drops, if_pos ⟨fresh, full⟩, front, e]
      rfl
  · rw [evict_room (Nat.lt_of_not_le full)]
    exact ⟨.refl _, h.keys, Nat.lt_of_not_le full, fun _ _ => rfl⟩

theorem Sound.insert (h : Sound capacity c) (pos : 0 < capacity) (fresh : c.lookup key = none) :
    Sound capacity (c.insert capacity key value) := by
  obtain ⟨sub, keys, short, -⟩ := h.evicted pos fresh
  have gone : key ∉ (evict capacity c.lru c.cache).lru := fun hk => h.absent.1 fresh (sub.subset hk)
  have same : (evict capacity c.lru c.cache).cache.filter (·.1 ≠ key) =
      (evict capacity c.lru c.cache).cache := by
    refine List.filter_eq_self.2 fun x hx => ?_
    have := keys.mem_iff.1 (List.mem_map_of_mem hx)
    simpa using fun e : x.1 = key => gone (e ▸ this)
  refine ⟨?_, ?_, ?_⟩
  · exact List.nodup_append.2 ⟨h.nodup.sublist sub, by simp, by
      simpa using fun k hk (e : k = key) => gone (e ▸ hk)⟩
  · simp only [Recent.insert, same, List.map_cons]
    exact (keys.cons key).trans (List.perm_append_singleton _ _).symm
  · simp only [Recent.insert, same, List.length_cons]
    omega

@[simp] theorem lookup_insert_self : (c.insert capacity key value).lookup key = some value := by
  simp [Recent.insert, lookup]

theorem Sound.lookup_insert (h : Sound capacity c) (pos : 0 < capacity)
    (fresh : c.lookup key = none) (ne : other ≠ key) (stays : c.drops capacity key ≠ some other) :
    (c.insert capacity key value).lookup other = c.lookup other := by
  obtain ⟨-, -, -, same⟩ := h.evicted pos fresh
  rw [← same other stays, Recent.insert, lookup, lookup_cons_ne ne, lookup_filter ne, lookup]

/-! ## Uses -/

theorem Sound.use (h : Sound capacity c) (pos : 0 < capacity) :
    Sound capacity (c.use capacity key value) := by
  unfold Recent.use
  split
  · exact h.touch
  · rename_i fresh
    exact h.insert pos (Option.not_isSome_iff_eq_none.1 fresh)

/-- After a use the key is held: with the value it had, or the one brought. -/
theorem lookup_use_self :
    (c.use capacity key value).lookup key = some ((c.lookup key).getD value) := by
  unfold Recent.use
  cases held : c.lookup key with
  | some v => simpa using lookup_touch.trans held
  | none => simp

/-- A use changes nothing of another key, but for the one it drops. -/
theorem Sound.lookup_use (h : Sound capacity c) (pos : 0 < capacity) (ne : other ≠ key)
    (stays : c.drops capacity key ≠ some other) :
    (c.use capacity key value).lookup other = c.lookup other := by
  unfold Recent.use
  split
  · exact lookup_touch
  · rename_i fresh
    exact h.lookup_insert pos (Option.not_isSome_iff_eq_none.1 fresh) ne stays

/-- The key a use drops is gone. -/
theorem Sound.lookup_dropped (h : Sound capacity c) (pos : 0 < capacity)
    (dropped : c.drops capacity key = some other) :
    (c.use capacity key value).lookup other = none := by
  rw [(h.use pos).absent]
  unfold drops at dropped
  split at dropped
  · rename_i full
    obtain ⟨rest, front⟩ := List.head?_eq_some_iff.1 dropped
    have nodup := front ▸ h.nodup
    have apart : other ≠ key := fun e => h.absent.1 full.1 (front ▸ e ▸ List.mem_cons_self)
    rw [Recent.use, if_neg (by simp [full.1]), Recent.insert, (h.evict_full front full.2).1]
    simpa [apart] using (List.nodup_cons.1 nodup).1
  · cases dropped

/-- The keys used last stand at the back in the order of their use. -/
theorem Sound.use_suffix (h : Sound capacity c) {recent : List K}
    (back : recent <:+ c.lru) (new : key ∉ recent) (short : recent.length < capacity) :
    recent ++ [key] <:+ (c.use capacity key value).lru := by
  obtain ⟨front, hfront⟩ := back
  unfold Recent.use
  split
  · rename_i held
    have mem := h.held.1 held
    have inFront : key ∈ front := by
      rw [← hfront] at mem
      exact (List.mem_append.1 mem).resolve_right new
    rw [Recent.touch, if_pos mem, ← hfront, List.erase_append_left _ inFront]
    exact ⟨front.erase key, by simp⟩
  · rename_i fresh
    have fresh := Option.not_isSome_iff_eq_none.1 fresh
    simp only [Recent.insert]
    by_cases full : capacity ≤ c.cache.length
    · have long := h.length
      cases front with
      | nil =>
        simp only [List.nil_append] at hfront
        rw [← hfront] at long
        omega
      | cons old front =>
        rw [(h.evict_full hfront.symm full).1]
        exact ⟨front, by simp⟩
    · rw [evict_room (Nat.lt_of_not_le full), ← hfront]
      exact ⟨front, by simp⟩

/-- A list of uses. -/
def uses (capacity : Nat) (c : Recent K V) (made : List (K × V)) : Recent K V :=
  made.foldl (fun c kv => c.use capacity kv.1 kv.2) c

theorem Sound.uses_suffix (h : Sound capacity c) (pos : 0 < capacity) {recent : List K}
    {made : List (K × V)} (back : recent <:+ c.lru)
    (nodup : (recent ++ made.map Prod.fst).Nodup)
    (short : recent.length + made.length ≤ capacity) :
    Sound capacity (c.uses capacity made) ∧
      recent ++ made.map Prod.fst <:+ (c.uses capacity made).lru := by
  induction made generalizing c recent with
  | nil => exact ⟨h, by simpa [uses] using back⟩
  | cons kv made ih =>
    simp only [List.length_cons] at short
    rw [List.map_cons, List.append_cons] at nodup ⊢
    have new : kv.1 ∉ recent := by
      obtain ⟨-, -, apart⟩ := List.nodup_append.1 (List.nodup_append.1 nodup).1
      exact fun hk => apart _ hk _ List.mem_cons_self rfl
    exact ih (h.use pos) (h.use_suffix back new (by omega)) nodup (by
      simp only [List.length_append, List.length_singleton]
      omega)

/-- **What the others push out**: a key is gone once as many distinct others were
used as the cache holds. -/
theorem Sound.forgotten (h : Sound capacity c) (pos : 0 < capacity) {made : List (K × V)}
    (nodup : (made.map Prod.fst).Nodup) (many : made.length = capacity)
    (others : key ∉ made.map Prod.fst) : (c.uses capacity made).lookup key = none := by
  obtain ⟨sound, front, hfront⟩ := h.uses_suffix pos List.nil_suffix
    (by simpa using nodup) (by simp [many])
  have few := sound.length ▸ sound.room
  rw [← hfront] at few
  have none_before : front = [] := by
    simp only [List.nil_append, List.length_append, List.length_map, many] at few
    exact List.length_eq_zero_iff.1 (by omega)
  rw [sound.absent, ← hfront, none_before]
  simpa using others

end Recent

end Daemonseed.Lib.Lru
