import Daemonseed.Gui.Transcript
import Mathlib.Data.List.Nodup
import Mathlib.Order.Lattice
import Mathlib.Tactic.Order

/-! # What a call does to the rooms

A message comes into one room, a room on screen is seen, and the moments seen up to are
kept; every other room stays as it is. -/
namespace Daemonseed.Gui.Rooms
open Daemonseed.Lib.Maps Daemonseed.Lib.Runs Daemonseed.Gui.Transcript

/-! ## Stamps -/

theorem clamp_le (sent now : Int) (fresh : isStaleBacklog sent now = false) :
    clampOrderMs sent now = min sent (now + transcriptMaxClockSkew) := by
  have recent := of_decide_eq_false fresh
  unfold clampOrderMs
  simp only [transcriptMaxBacklogAge, transcriptMaxClockSkew] at *
  omega

/-! ## One room -/

section

variable {P : Type} {room : Room P} {sent : Sent} {msg m : Msg} {onScreen : Bool} {now : Int}

/-- In order, and each message once. -/
structure Sound (room : Room P) : Prop where
  order : room.messages.Pairwise (·.orderMs ≤ ·.orderMs)
  once : (room.messages.map Msg.toSent).Nodup

theorem sound_new (phrase : Option P) (ms : Int) : Sound (.new phrase ms : Room P) := ⟨.nil, .nil⟩

theorem insert_perm : (room.insert msg).messages.Perm (msg :: room.messages) := by
  refine List.perm_middle.trans (.cons _ ?_)
  rw [List.takeWhile_append_dropWhile]

theorem mem_insert : m ∈ (room.insert msg).messages ↔ m = msg ∨ m ∈ room.messages := by
  rw [insert_perm.mem_iff, List.mem_cons]

theorem holds_iff : room.holds sent = true ↔ sent ∈ room.messages.map Msg.toSent := by
  simp [Room.holds, List.mem_map]

theorem takeWhile_le (l : List Msg) (order : Int) :
    ∀ m ∈ l.takeWhile (·.orderMs ≤ order), m.orderMs ≤ order := by
  intro m hm
  simpa using List.mem_takeWhile_imp hm

theorem dropWhile_lt {l : List Msg} (ordered : l.Pairwise (·.orderMs ≤ ·.orderMs)) (order : Int) :
    ∀ m ∈ l.dropWhile (·.orderMs ≤ order), order < m.orderMs := by
  induction l with
  | nil => simp
  | cons a l ih =>
    obtain ⟨first, rest⟩ := List.pairwise_cons.1 ordered
    by_cases early : a.orderMs ≤ order
    · rw [List.dropWhile_cons_of_pos (by simpa using early)]
      exact ih rest
    · rw [List.dropWhile_cons_of_neg (by simpa using early)]
      intro m hm
      rcases List.mem_cons.1 hm with rfl | hm
      · omega
      · have := first m hm
        omega

theorem Sound.insert (h : Sound room) (msg : Msg) (fresh : room.holds msg.toSent = false) :
    Sound (room.insert msg) where
  order := by
    refine List.pairwise_append.2 ⟨h.order.sublist (List.takeWhile_sublist _),
      List.pairwise_cons.2 ⟨fun m hm => (dropWhile_lt h.order _ m hm).le,
        h.order.sublist (List.dropWhile_sublist _)⟩, fun a ha b hb => ?_⟩
    have before := takeWhile_le room.messages msg.orderMs a ha
    rcases List.mem_cons.1 hb with rfl | hb
    · exact before
    · exact before.trans (dropWhile_lt h.order _ b hb).le
  once := by
    rw [(insert_perm.map _).nodup_iff, List.map_cons, List.nodup_cons, ← holds_iff, fresh]
    exact ⟨Bool.false_ne_true, h.once⟩

theorem push_held (held : room.holds sent = true) :
    room.push sent onScreen now = (room, ⟨false, false⟩) := by
  simp [Room.push, held]

theorem push_shown (fresh : room.holds sent = false) :
    (room.push sent true now).1 =
      { room.insert ⟨sent, clampOrderMs sent.sentUnixMs now⟩ with
        highWaterMs := max room.highWaterMs (min (clampOrderMs sent.sentUnixMs now) now) } := by
  simp [Room.push, fresh, Room.insert]

/-- Whether a message is one to mark a room for. -/
def news (room : Room P) (sent : Sent) (now : Int) : Bool :=
  !sent.mine && decide (clampOrderMs sent.sentUnixMs now > room.highWaterMs)

theorem push_hidden (fresh : room.holds sent = false) :
    (room.push sent false now).1 =
      { room.insert ⟨sent, clampOrderMs sent.sentUnixMs now⟩ with
        unread := room.unread || news room sent now } := by
  have same : room.push sent false now = if news room sent now && !room.unread then
      ({ room.insert ⟨sent, clampOrderMs sent.sentUnixMs now⟩ with unread := true }, ⟨true, true⟩)
      else (room.insert ⟨sent, clampOrderMs sent.sentUnixMs now⟩, ⟨true, false⟩) := by
    simp [Room.push, fresh, news, Room.insert]
  rw [same]
  cases news room sent now with
  | false => simp [Room.insert]
  | true => cases marked : room.unread <;> simp [Room.insert, marked]

theorem sound_push (h : Sound room) : Sound (room.push sent onScreen now).1 := by
  cases held : room.holds sent with
  | true => rwa [push_held held]
  | false =>
    have inserted := h.insert ⟨sent, clampOrderMs sent.sentUnixMs now⟩ held
    cases onScreen with
    | true =>
      rw [push_shown held]
      exact ⟨inserted.order, inserted.once⟩
    | false =>
      rw [push_hidden held]
      exact ⟨inserted.order, inserted.once⟩

@[simp] theorem push_phrase : (room.push sent onScreen now).1.phrase = room.phrase := by
  cases held : room.holds sent with
  | true => rw [push_held held]
  | false => cases onScreen <;> simp [push_shown held, push_hidden held, Room.insert]

theorem mem_push : m ∈ (room.push sent onScreen now).1.messages ↔
    (room.holds sent = false ∧ m = ⟨sent, clampOrderMs sent.sentUnixMs now⟩) ∨
      m ∈ room.messages := by
  cases held : room.holds sent with
  | true => simp [push_held held]
  | false =>
    have same : (room.push sent onScreen now).1.messages =
        (room.insert ⟨sent, clampOrderMs sent.sentUnixMs now⟩).messages := by
      cases onScreen <;> simp [push_shown held, push_hidden held]
    rw [same, mem_insert]
    simp

theorem push_unread (marked : room.unread = true) :
    (room.push sent onScreen now).1.unread = true := by
  cases held : room.holds sent with
  | true => rwa [push_held held]
  | false => cases onScreen <;> simp [push_shown held, push_hidden held, Room.insert, marked]

theorem push_highWater : room.highWaterMs ≤ (room.push sent onScreen now).1.highWaterMs ∧
    ((room.push sent onScreen now).1.highWaterMs = room.highWaterMs ∨
      onScreen = true ∧ (room.push sent onScreen now).1.highWaterMs ≤ max room.highWaterMs now) := by
  cases held : room.holds sent with
  | true => simp [push_held held]
  | false =>
    cases onScreen with
    | true =>
      rw [push_shown held]
      exact ⟨le_max_left _ _, .inr ⟨rfl, max_le_max_left _ (min_le_right _ _)⟩⟩
    | false =>
      rw [push_hidden held]
      exact ⟨le_rfl, .inl rfl⟩

theorem seen_highWater : room.highWaterMs ≤ (room.seen now).highWaterMs ∧
    (room.seen now).highWaterMs ≤ max room.highWaterMs now := by
  unfold Room.seen
  cases room.messages.getLast? with
  | none => exact ⟨le_rfl, le_max_left _ _⟩
  | some latest => exact ⟨le_max_left _ _, max_le_max_left _ (min_le_right _ _)⟩

/-- A room on screen is seen up to each of its messages that is not ahead. -/
theorem seen_covers (h : Sound room) (hm : m ∈ room.messages) :
    min m.orderMs now ≤ (room.seen now).highWaterMs := by
  cases last : room.messages.getLast? with
  | none =>
    rw [List.getLast?_eq_none_iff.1 last] at hm
    cases hm
  | some latest =>
    obtain ⟨before, split⟩ := List.getLast?_eq_some_iff.1 last
    have newest : m.orderMs ≤ latest.orderMs := by
      have ordered := h.order
      rw [split] at ordered hm
      rcases List.mem_append.1 hm with hm | hm
      · exact (List.pairwise_append.1 ordered).2.2 m hm latest List.mem_cons_self
      · rw [List.mem_singleton.1 hm]
    simp only [Room.seen, last]
    exact (min_le_min_right _ newest).trans (le_max_right _ _)

end

/-! ## What a call does to the rooms -/

section

variable {P : Type} {w : World P} {call : Call P} {idx : Nat} {room room' : Room P}

/-- What a call within a session makes of a room. -/
inductive Moved (w : World P) (call : Call P) (after : GuiState P) (idx : Nat) (room : Room P) :
    Room P → Prop
  | same (quiet : ∀ sent, call = .message idx sent → isStaleBacklog sent.sentUnixMs w.clock = true)
      (still : after.onScreen idx = true → w.gui.onScreen idx = true) :
      Moved w call after idx room room
  | pushed (sent : Sent) (is : call = .message idx sent)
      (recent : isStaleBacklog sent.sentUnixMs w.clock = false)
      (still : after.onScreen idx = w.gui.onScreen idx) :
      Moved w call after idx room (room.push sent (w.gui.onScreen idx) w.clock).1
  | seen (shown : after.onScreen idx = true) (other : ∀ sent, call ≠ .message idx sent) :
      Moved w call after idx room (room.seen w.clock)

theorem Moved.phrase {after : GuiState P} (h : Moved w call after idx room room') :
    room'.phrase = room.phrase := by
  cases h with
  | same => rfl
  | pushed => exact push_phrase
  | seen => rfl

theorem Moved.sound {after : GuiState P} (h : Moved w call after idx room room')
    (sound : Sound room) : Sound room' := by
  cases h with
  | same => exact sound
  | pushed => exact sound_push sound
  | seen => exact ⟨sound.order, sound.once⟩

theorem Moved.keeps {after : GuiState P} (h : Moved w call after idx room room') {m : Msg}
    (hm : m ∈ room.messages) : m ∈ room'.messages := by
  cases h with
  | same => exact hm
  | pushed => exact mem_push.2 (.inr hm)
  | seen => exact hm

theorem Moved.highWater {after : GuiState P} (h : Moved w call after idx room room') :
    room.highWaterMs ≤ room'.highWaterMs := by
  cases h with
  | same => exact le_rfl
  | pushed => exact push_highWater.1
  | seen => exact seen_highWater.1

/-- A mark stays while the room is off screen. -/
theorem Moved.unread {after : GuiState P} (h : Moved w call after idx room room')
    (hidden : after.onScreen idx = false) (marked : room.unread = true) : room'.unread = true := by
  cases h with
  | same => exact marked
  | pushed => exact push_unread marked
  | seen shown =>
    rw [hidden] at shown
    cases shown

/-- A message that comes onto the screen, alone or with its room, is seen, unless it is
ahead. -/
theorem Moved.covers {after : GuiState P} (h : Moved w call after idx room room')
    (sound : Sound room) (shown : after.onScreen idx = true) {m : Msg} (hm : m ∈ room'.messages)
    (new : w.gui.onScreen idx = false ∨ m ∉ room.messages) :
    min m.orderMs w.clock ≤ room'.highWaterMs := by
  cases h with
  | same quiet still =>
    rcases new with hidden | absent
    · rw [still shown] at hidden
      cases hidden
    · exact absurd hm absent
  | pushed sent is recent still =>
    rw [still] at shown
    rw [shown] at hm ⊢ new
    have absent := new.resolve_left Bool.true_eq_false_eq_False
    obtain ⟨fresh, rfl⟩ := (mem_push.1 hm).resolve_right absent
    rw [push_shown fresh]
    exact le_max_right _ _
  | seen => exact seen_covers sound hm

theorem onScreen_active {g : GuiState P} (shown : g.onScreen idx = true) :
    idx = g.active ∧ g.chatOnScreen = true := by
  rw [GuiState.onScreen, Bool.and_eq_true, decide_eq_true_eq] at shown
  exact shown

theorem moved_mark {g : GuiState P} (shown : g.chatOnScreen = true)
    (other : ∀ i sent, call ≠ .message i sent)
    (held : (g.markActiveRoomSeen w.clock).circles[idx]? = some room') :
    ∃ room, g.circles[idx]? = some room ∧
      Moved w call (g.markActiveRoomSeen w.clock) idx room room' := by
  rw [GuiState.markActiveRoomSeen, List.getElem?_modify] at held
  by_cases is : g.active = idx
  · obtain ⟨room, found, rfl⟩ := Option.map_eq_some_iff.1 held
    rw [if_pos is]
    refine ⟨room, found, .seen ?_ (other idx)⟩
    rw [GuiState.onScreen, Bool.and_eq_true, decide_eq_true_eq]
    exact ⟨is.symm, shown⟩
  · obtain ⟨room, found, rfl⟩ := Option.map_eq_some_iff.1 held
    rw [if_neg is]
    exact ⟨room, found, .same (fun sent message => absurd message (other idx sent))
      fun on => absurd (onScreen_active on).1.symm is⟩

variable [DecidableEq P] {K : Type} [DecidableEq K] {deriveCotKey : P → Option K}

theorem moved (within : call ≠ .relaunch)
    (held : (w.called deriveCotKey call).gui.circles[idx]? = some room') :
    ∃ room, w.gui.circles[idx]? = some room ∧
      Moved w call (w.called deriveCotKey call).gui idx room room' := by
  have switched : ∀ target, (∀ i sent, call ≠ .message i sent) →
      (w.gui.switchTo target w.clock).circles[idx]? = some room' →
      ∃ room, w.gui.circles[idx]? = some room ∧
        Moved w call (w.gui.switchTo target w.clock) idx room room' := by
    intro target other held
    unfold GuiState.switchTo at held ⊢
    split at held
    · next inRange =>
      rw [if_pos inRange]
      exact moved_mark rfl other held
    · next outside =>
      rw [if_neg outside]
      exact ⟨room', held, .same (fun sent message => absurd message (other idx sent)) id⟩
  cases call with
  | relaunch => exact absurd rfl within
  | wait ms => exact ⟨room', held, .same nofun id⟩
  | selectDm => exact ⟨room', held, .same nofun fun on => by cases (onScreen_active on).2⟩
  | persistAllCircleSeen resealed => exact ⟨room', held, .same nofun id⟩
  | switchTo target => exact switched target nofun held
  | openRailSection s =>
    cases s with
    | chats => exact switched 0 nofun held
    | directMessages => exact ⟨room', held, .same nofun fun on => by cases (onScreen_active on).2⟩
  | toggleRailSection s =>
    have toggled : ∀ g : GuiState P, g.circles = w.gui.circles →
        (if g.chatOnScreen then g.markActiveRoomSeen w.clock else g).circles[idx]? = some room' →
        ∃ room, w.gui.circles[idx]? = some room ∧ Moved w (.toggleRailSection s)
          (if g.chatOnScreen then g.markActiveRoomSeen w.clock else g) idx room room' := by
      intro g rooms held
      by_cases shown : g.chatOnScreen = true
      · rw [if_pos shown] at held ⊢
        rw [← rooms]
        exact moved_mark shown nofun held
      · rw [if_neg shown] at held ⊢
        exact ⟨room', rooms ▸ held, .same nofun fun on => absurd (onScreen_active on).2 shown⟩
    cases s with
    | chats => exact toggled { w.gui with chatsOpen := !w.gui.chatsOpen } rfl held
    | directMessages => exact toggled w.gui rfl held
  | message i sent =>
    simp only [World.called, GuiState.onMessage] at held ⊢
    split at held
    · next stale =>
      rw [if_pos stale]
      exact ⟨room', held, .same (fun other is => by cases is; exact stale) id⟩
    · next recent =>
      rw [if_neg recent]
      simp only [GuiState.pushMessage] at held ⊢
      cases found : w.gui.circles[i]? with
      | none =>
        rw [found] at held
        refine ⟨room', held, .same (fun other is => ?_) id⟩
        injection is with same
        rw [same, show w.gui.circles[idx]? = some room' from held] at found
        cases found
      | some room =>
        simp only [found] at held ⊢
        by_cases same : i = idx
        · subst same
          obtain ⟨inside, -⟩ := List.getElem?_eq_some_iff.1 found
          rw [List.getElem?_set_self inside] at held
          cases held
          exact ⟨room, found, .pushed sent rfl (by simpa using recent) rfl⟩
        · rw [List.getElem?_set_ne same] at held
          exact ⟨room', held, .same (fun other is => by cases is; exact absurd rfl same) id⟩

variable (deriveCotKey) in
/-- A call within a session keeps the rooms where they are. -/
theorem moved_on (within : call ≠ .relaunch) (held : w.gui.circles[idx]? = some room) :
    ∃ room', (w.called deriveCotKey call).gui.circles[idx]? = some room' := by
  have switched : ∀ target, (w.gui.switchTo target w.clock).circles.length =
      w.gui.circles.length := by
    intro target
    unfold GuiState.switchTo GuiState.markActiveRoomSeen
    split
    · exact List.length_modify ..
    · rfl
  have toggled : ∀ g : GuiState P, (if g.chatOnScreen then g.markActiveRoomSeen w.clock
      else g).circles.length = g.circles.length := by
    intro g
    split
    · exact List.length_modify ..
    · rfl
  have same : (w.called deriveCotKey call).gui.circles.length = w.gui.circles.length := by
    cases call with
    | relaunch => exact absurd rfl within
    | wait | selectDm | persistAllCircleSeen => rfl
    | switchTo target => exact switched target
    | openRailSection s => cases s with
      | chats => exact switched 0
      | directMessages => rfl
    | toggleRailSection s => cases s with
      | chats => exact toggled { w.gui with chatsOpen := !w.gui.chatsOpen }
      | directMessages => exact toggled w.gui
    | message i sent =>
      simp only [World.called, GuiState.onMessage, GuiState.pushMessage]
      split
      · rfl
      · split
        · exact List.length_set
        · rfl
  obtain ⟨inside, -⟩ := List.getElem?_eq_some_iff.1 held
  exact ⟨_, List.getElem?_eq_getElem (same ▸ inside)⟩

/-! ## The marks that are kept -/

/-- The moment a circle's messages are kept as seen up to. -/
def seenMs (seeds : Seeds P) (phrase : P) : Int := (seeds.circleSeen.lookup phrase).getD 0

/-- The profile as unlocked is not behind its blob. -/
def Backed (profile : Profile P) : Prop :=
  ∀ phrase, seenMs profile.blob phrase ≤ seenMs profile.seeds phrase

/-- A mark put down raises what is kept of its circle, or nothing. -/
structure Raised (before after : Profile P) (to_ : P → Int → Prop) : Prop where
  backed : Backed after
  blob : ∀ phrase, seenMs before.blob phrase ≤ seenMs after.blob phrase
  seeds : ∀ phrase, seenMs after.seeds phrase = seenMs before.seeds phrase ∨
    to_ phrase (seenMs after.seeds phrase)

theorem persist_raised {profile : Profile P} (backed : Backed profile) (phrase : P) {ms : Int}
    (pos : 0 < ms) (resealed : Bool) :
    Raised profile (profile.persistCircleSeen phrase ms resealed)
      fun other v => other = phrase ∧ v = ms := by
  cases behind : (profile.seeds.circleSeen.lookup phrase).any (ms ≤ ·) with
  | true =>
    have same : profile.persistCircleSeen phrase ms resealed = profile := by
      simp [Profile.persistCircleSeen, Seeds.setCircleSeen, behind]
    rw [same]
    exact ⟨backed, fun _ => le_rfl, fun _ => .inl rfl⟩
  | false =>
    have set : profile.persistCircleSeen phrase ms resealed =
        ⟨{ profile.seeds with circleSeen := profile.seeds.circleSeen.insert phrase ms },
          if resealed then { profile.seeds with
            circleSeen := profile.seeds.circleSeen.insert phrase ms } else profile.blob⟩ := by
      simp [Profile.persistCircleSeen, Seeds.setCircleSeen, behind]
    rw [set]
    have lower : seenMs profile.seeds phrase ≤ ms := by
      unfold seenMs
      cases found : profile.seeds.circleSeen.lookup phrase with
      | none => exact pos.le
      | some v =>
        rw [found] at behind
        exact (not_le.1 (of_decide_eq_false behind)).le
    have raised : ∀ other, seenMs profile.seeds other ≤
        seenMs { profile.seeds with circleSeen := profile.seeds.circleSeen.insert phrase ms } other := by
      intro other
      by_cases same : other = phrase
      · subst same
        simpa [seenMs] using lower
      · simp [seenMs, AList.lookup_insert_ne same]
    refine ⟨fun other => ?_, fun other => ?_, fun other => ?_⟩
    · cases resealed
      · exact (backed other).trans (raised other)
      · exact le_rfl
    · cases resealed
      · exact le_rfl
      · exact (backed other).trans (raised other)
    · by_cases same : other = phrase
      · subst same
        exact .inr ⟨rfl, by simp [seenMs]⟩
      · exact .inl (by simp [seenMs, AList.lookup_insert_ne same])

theorem persistAll_raised (gui : GuiState P) {profile : Profile P} (backed : Backed profile)
    (resealed : P → Bool) :
    Raised profile (gui.persistAllCircleSeen profile resealed) fun phrase v =>
      ∃ room ∈ gui.circles, room.phrase = some phrase ∧ v = room.highWaterMs := by
  have every : ∀ marks : List (P × Int), (∀ mark ∈ marks, 0 < mark.2) → ∀ p, Backed p →
      Raised p (marks.foldl (fun p mark => p.persistCircleSeen mark.1 mark.2 (resealed mark.1)) p)
        fun phrase v => (phrase, v) ∈ marks := by
    intro marks
    induction marks with
    | nil => exact fun _ p backed => ⟨backed, fun _ => le_rfl, fun _ => .inl rfl⟩
    | cons mark marks ih =>
      intro pos p backed
      obtain ⟨here, rest⟩ := List.forall_mem_cons.1 pos
      have first := persist_raised backed mark.1 here (resealed mark.1)
      have last := ih rest _ first.backed
      refine ⟨last.backed, fun phrase => (first.blob phrase).trans (last.blob phrase),
        fun phrase => ?_⟩
      rcases last.seeds phrase with same | marked
      · rw [List.foldl_cons, same]
        exact (first.seeds phrase).imp id fun marked =>
          List.mem_cons.2 (.inl (Prod.ext marked.1 marked.2))
      · exact .inr (List.mem_cons_of_mem _ marked)
  have marks : ∀ mark ∈ gui.marks, 0 < mark.2 ∧
      ∃ room ∈ gui.circles, room.phrase = some mark.1 ∧ mark.2 = room.highWaterMs := by
    intro mark hm
    obtain ⟨listed, pos⟩ := List.mem_filter.1 hm
    obtain ⟨room, held, is⟩ := List.mem_filterMap.1 listed
    obtain ⟨phrase, has, rfl⟩ := Option.map_eq_some_iff.1 is
    exact ⟨of_decide_eq_true pos, room, held, has, rfl⟩
  have raised := every gui.marks (fun mark hm => (marks mark hm).1) profile backed
  exact ⟨raised.backed, raised.blob, fun phrase => (raised.seeds phrase).imp id fun hm =>
    (marks _ hm).2⟩

variable (deriveCotKey) in
/-- A session starts with empty rooms, seen up to the moments that were kept. -/
theorem start_rooms (seeds : Seeds P) :
    ∀ room ∈ (GuiState.start deriveCotKey seeds).circles,
      ∃ phrase, room = .new phrase (phrase.elim 0 (seenMs seeds)) := by
  have every : ∀ (phrases : List P) (rooms : List (Room P)),
      (∀ room ∈ rooms, ∃ phrase, room = .new phrase (phrase.elim 0 (seenMs seeds))) →
      ∀ room ∈ phrases.foldl (addCircle deriveCotKey seeds.circleSeen) rooms,
        ∃ phrase, room = .new phrase (phrase.elim 0 (seenMs seeds)) := by
    intro phrases
    induction phrases with
    | nil => exact fun _ rooms => rooms
    | cons phrase phrases ih =>
      refine fun rooms known => ih _ fun room held => ?_
      unfold addCircle at held
      split at held
      · exact known room held
      · split at held
        · exact known room held
        · rcases List.mem_append.1 held with old | new
          · exact known room old
          · exact ⟨some phrase, List.mem_singleton.1 new⟩
  refine every seeds.circles _ fun room held => ⟨none, ?_⟩
  exact List.mem_singleton.1 held

end

end Daemonseed.Gui.Rooms
