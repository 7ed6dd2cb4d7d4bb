import Daemonseed.Gui.Rooms

/-! # When a room is marked unread

Over the sessions of one profile: what the transcripts hold and in which order,
which messages mark their room, how long the mark stays, and which messages do
not mark it again. -/
namespace Daemonseed.Gui.Unread
open Daemonseed.Lib.Runs Daemonseed.Gui.Transcript Daemonseed.Gui.Rooms

variable {P : Type} [DecidableEq P] {K : Type} [DecidableEq K] {deriveCotKey : P → Option K}
  {w : World P} {call : Call P} {idx : Nat} {room room' : Room P}

/-- A message that came in at `at_`. -/
structure Came (clock : Int) (msg : Msg) (at_ : Int) : Prop where
  order : msg.orderMs = clampOrderMs msg.sentUnixMs at_
  recent : isStaleBacklog msg.sentUnixMs at_ = false
  past : at_ ≤ clock

theorem Came.order_le {clock at_ : Int} {msg : Msg} (h : Came clock msg at_) :
    msg.orderMs ≤ msg.sentUnixMs := by
  rw [h.order, clamp_le _ _ h.recent]
  exact min_le_left _ _

/-- A stamp inside the window orders its message. -/
theorem Came.order_eq {clock at_ : Int} {msg : Msg} (h : Came clock msg at_)
    (inside : msg.sentUnixMs ≤ at_ + transcriptMaxClockSkew) : msg.orderMs = msg.sentUnixMs := by
  rw [h.order, clamp_le _ _ h.recent, min_eq_left inside]

/-- What holds between two calls. -/
structure Kept (w : World P) : Prop where
  sound : ∀ room ∈ w.gui.circles, Sound room
  highWater : ∀ room ∈ w.gui.circles, room.highWaterMs ≤ w.shown room.phrase
  backed : Backed w.profile
  seeds : ∀ phrase, seenMs w.profile.seeds phrase ≤ w.shown (some phrase)
  since : ∀ key, 0 ≤ w.shown key
  past : ∀ key, w.shown key ≤ w.clock
  onScreen : ∀ idx room, w.gui.circles[idx]? = some room → w.gui.onScreen idx = true →
    w.shown room.phrase = w.clock
  arrived : ∀ a ∈ w.arrivals, Came w.clock a.2.1 a.2.2
  came : ∀ room ∈ w.gui.circles, ∀ m ∈ room.messages, ∃ at_, (room.phrase, m, at_) ∈ w.arrivals

/-- What holds before the room on screen is taken down as shown. -/
structure Almost (w : World P) : Prop where
  sound : ∀ room ∈ w.gui.circles, Sound room
  highWater : ∀ idx room, w.gui.circles[idx]? = some room →
    room.highWaterMs ≤ w.shown room.phrase ∨
      w.gui.onScreen idx = true ∧ room.highWaterMs ≤ (w.clock : Int)
  backed : Backed w.profile
  seeds : ∀ phrase, seenMs w.profile.seeds phrase ≤ w.shown (some phrase)
  since : ∀ key, 0 ≤ w.shown key
  past : ∀ key, w.shown key ≤ w.clock
  arrived : ∀ a ∈ w.arrivals, Came w.clock a.2.1 a.2.2
  came : ∀ room ∈ w.gui.circles, ∀ m ∈ room.messages, ∃ at_, (room.phrase, m, at_) ∈ w.arrivals

omit [DecidableEq P] in
theorem roomShown_of (found : w.gui.circles[idx]? = some room)
    (shown : w.gui.onScreen idx = true) : w.roomShown = some room.phrase := by
  obtain ⟨active, chat⟩ := onScreen_active shown
  rw [World.roomShown, if_pos chat, ← active, found]
  rfl

@[simp] theorem touched_gui : w.touched.gui = w.gui := by
  unfold World.touched
  split <;> rfl

@[simp] theorem touched_profile : w.touched.profile = w.profile := by
  unfold World.touched
  split <;> rfl

@[simp] theorem touched_clock : w.touched.clock = w.clock := by
  unfold World.touched
  split <;> rfl

@[simp] theorem touched_arrivals : w.touched.arrivals = w.arrivals := by
  unfold World.touched
  split <;> rfl

theorem touched_shown (key : Option P) : w.touched.shown key = w.clock ∧ w.roomShown = some key ∨
    w.touched.shown key = w.shown key ∧ w.roomShown ≠ some key := by
  unfold World.touched
  cases shown : w.roomShown with
  | none => exact .inr ⟨rfl, nofun⟩
  | some other =>
    by_cases same : key = other
    · subst same
      exact .inl ⟨Function.update_self .., rfl⟩
    · exact .inr ⟨Function.update_of_ne same .., fun is => same (Option.some.inj is).symm⟩

theorem Almost.touched (h : Almost w) : Kept w.touched := by
  have later : ∀ key, w.shown key ≤ w.touched.shown key ∧ w.touched.shown key ≤ w.clock := by
    intro key
    rcases touched_shown (w := w) key with ⟨now, -⟩ | ⟨same, -⟩
    · rw [now]
      exact ⟨h.past key, le_rfl⟩
    · rw [same]
      exact ⟨le_rfl, h.past key⟩
  have shown : ∀ idx room, w.gui.circles[idx]? = some room → w.gui.onScreen idx = true →
      w.touched.shown room.phrase = w.clock := by
    intro idx room found on
    rcases touched_shown (w := w) room.phrase with ⟨now, -⟩ | ⟨-, other⟩
    · exact now
    · exact absurd (roomShown_of found on) other
  refine ⟨?_, ?_, ?_, ?_, fun key => (h.since key).trans (later key).1, ?_, ?_, ?_, ?_⟩
  · rw [touched_gui]
    exact h.sound
  · rw [touched_gui]
    intro room held
    obtain ⟨idx, found⟩ := List.mem_iff_getElem?.1 held
    rcases h.highWater idx room found with le | ⟨on, le⟩
    · exact le.trans (later _).1
    · rw [shown idx room found on]
      exact le
  · rw [touched_profile]
    exact h.backed
  · rw [touched_profile]
    exact fun phrase => (h.seeds phrase).trans (later _).1
  · rw [touched_clock]
    exact fun key => (later key).2
  · rw [touched_gui, touched_clock]
    exact shown
  · rw [touched_arrivals, touched_clock]
    exact h.arrived
  · rw [touched_gui, touched_arrivals]
    exact h.came

/-! ## One call -/

theorem Came.later {clock clock' at_ : Int} {msg : Msg} (h : Came clock msg at_)
    (later : clock ≤ clock') : Came clock' msg at_ := ⟨h.order, h.recent, h.past.trans later⟩

omit [DecidableEq P] in
theorem arrives_came {a : Option P × Msg × Int} {sent : Sent} (h : w.arrives idx sent = some a) :
    Came w.clock a.2.1 a.2.2 := by
  unfold World.arrives at h
  split at h
  · cases h
  · next recent =>
    obtain ⟨room, -, new⟩ := Option.bind_eq_some_iff.1 h
    split at new
    · cases new
    · cases new
      exact ⟨rfl, by simpa using recent, le_rfl⟩

omit [DecidableEq P] in
/-- A message that comes into a room is taken down. -/
theorem arrives_of {sent : Sent} (found : w.gui.circles[idx]? = some room)
    (recent : isStaleBacklog sent.sentUnixMs w.clock = false) (fresh : room.holds sent = false) :
    w.arrives idx sent =
      some (room.phrase, Msg.mk sent (clampOrderMs sent.sentUnixMs w.clock), (w.clock : Int)) := by
  rw [World.arrives, if_neg (by simp [recent]), found, Option.bind_some, if_neg (by simp [fresh])]

theorem clock_le : w.clock ≤ (w.called deriveCotKey call).clock := by
  cases call with
  | wait ms => exact Nat.le_add_right _ _
  | _ => exact le_rfl

theorem arrivals_sub (within : call ≠ .relaunch) : w.arrivals ⊆ (w.called deriveCotKey call).arrivals := by
  cases call with
  | relaunch => exact absurd rfl within
  | message i sent => exact List.subset_append_right _ _
  | _ => exact fun _ => id

theorem moved_came (h : Moved w call (w.called deriveCotKey call).gui idx room room')
    (within : call ≠ .relaunch) (found : w.gui.circles[idx]? = some room) (kept : Kept w) {m : Msg}
    (hm : m ∈ room'.messages) :
    ∃ at_, (room'.phrase, m, at_) ∈ (w.called deriveCotKey call).arrivals := by
  rw [h.phrase]
  have old : m ∈ room.messages → ∃ at_, (room.phrase, m, at_) ∈ (w.called deriveCotKey call).arrivals :=
    fun held => (kept.came room (List.mem_of_getElem? found) m held).imp fun _ taken =>
      arrivals_sub within taken
  cases h with
  | same => exact old hm
  | seen => exact old hm
  | pushed sent is recent =>
    rcases mem_push.1 hm with ⟨fresh, rfl⟩ | held
    · refine ⟨w.clock, ?_⟩
      rw [is]
      refine List.mem_append_left _ ?_
      rw [arrives_of found recent fresh]
      exact List.mem_cons_self
    · exact old held

theorem moved_below (h : Moved w call (w.called deriveCotKey call).gui idx room room')
    (found : w.gui.circles[idx]? = some room) (kept : Kept w) :
    room'.highWaterMs ≤ w.shown room'.phrase ∨
      (w.called deriveCotKey call).gui.onScreen idx = true ∧ room'.highWaterMs ≤ (w.clock : Int) := by
  have below := kept.highWater room (List.mem_of_getElem? found)
  rw [h.phrase]
  cases h with
  | same => exact .inl below
  | pushed sent =>
    refine .inl ?_
    rcases push_highWater.2 with same | ⟨on, le⟩
    · rw [same]
      exact below
    · rw [kept.onScreen idx room found on] at below ⊢
      exact le.trans (max_le below le_rfl)
  | seen shown => exact .inr ⟨shown, seen_highWater.2.trans (max_le (below.trans (kept.past _)) le_rfl)⟩

theorem Kept.called (kept : Kept w) (call : Call P) : Almost (w.called deriveCotKey call) := by
  by_cases within : call = .relaunch
  · subst within
    have blob := fun phrase => (kept.backed phrase).trans (kept.seeds phrase)
    refine ⟨fun room held => ?_, fun idx room found => .inl ?_, fun _ => le_rfl, blob, kept.since,
      kept.past, by simp [World.called], fun room held m hm => ?_⟩
    · obtain ⟨phrase, rfl⟩ := start_rooms deriveCotKey _ room held
      exact sound_new _ _
    · obtain ⟨phrase, rfl⟩ := start_rooms deriveCotKey _ room (List.mem_of_getElem? found)
      cases phrase with
      | none => exact kept.since none
      | some phrase => exact blob phrase
    · obtain ⟨phrase, rfl⟩ := start_rooms deriveCotKey _ room held
      cases hm
  · have shown : (w.called deriveCotKey call).shown = w.shown := by
      cases call with
      | relaunch => exact absurd rfl within
      | _ => rfl
    have rooms : ∀ room' ∈ (w.called deriveCotKey call).gui.circles, ∃ idx room,
        w.gui.circles[idx]? = some room ∧
        Moved w call (w.called deriveCotKey call).gui idx room room' := fun room' held => by
      obtain ⟨idx, found⟩ := List.mem_iff_getElem?.1 held
      exact ⟨idx, moved within found⟩
    have profile : Backed (w.called deriveCotKey call).profile ∧
        ∀ phrase, seenMs (w.called deriveCotKey call).profile.seeds phrase ≤ w.shown (some phrase) := by
      cases call with
      | persistAllCircleSeen resealed =>
        have raised := persistAll_raised w.gui kept.backed resealed
        refine ⟨raised.backed, fun phrase => ?_⟩
        rcases raised.seeds phrase with same | ⟨room, held, has, is⟩
        · exact same.trans_le (kept.seeds phrase)
        · exact is.trans_le (has ▸ kept.highWater room held)
      | relaunch => exact absurd rfl within
      | _ => exact ⟨kept.backed, kept.seeds⟩
    have clock : (w.clock : Int) ≤ (w.called deriveCotKey call).clock := by exact_mod_cast clock_le
    refine ⟨fun room' held => ?_, fun idx room' found => ?_, profile.1, ?_, ?_, ?_, fun a ha => ?_,
      fun room' held m hm => ?_⟩
    · obtain ⟨idx, room, found, how⟩ := rooms room' held
      exact how.sound (kept.sound room (List.mem_of_getElem? found))
    · obtain ⟨room, before, how⟩ := moved within found
      rw [shown]
      exact (moved_below how before kept).imp id fun h => ⟨h.1, h.2.trans clock⟩
    · rw [shown]
      exact profile.2
    · rw [shown]
      exact kept.since
    · rw [shown]
      exact fun key => (kept.past key).trans clock
    · have old : a ∈ w.arrivals → Came (w.called deriveCotKey call).clock a.2.1 a.2.2 :=
        fun taken => (kept.arrived a taken).later clock
      cases call with
      | message i sent =>
        rcases List.mem_append.1 (show a ∈ (w.arrives i sent).toList ++ w.arrivals from ha) with
          new | taken
        · exact (arrives_came (Option.mem_toList.1 new)).later clock
        · exact old taken
      | relaunch => exact absurd rfl within
      | _ => exact old ha
    · obtain ⟨idx, room, found, how⟩ := rooms room' held
      exact moved_came how within found kept hm

variable (deriveCotKey) in
theorem Kept.step (kept : Kept w) (call : Call P) : Kept (w.step deriveCotKey call) :=
  (kept.called call).touched

variable (deriveCotKey) in
theorem start_kept (circles : List P) (clock : Nat) : Kept (World.start deriveCotKey circles clock) := by
  have rooms := start_rooms deriveCotKey (⟨circles, ∅⟩ : Seeds P)
  have unseen : ∀ phrase, seenMs (⟨circles, ∅⟩ : Seeds P) phrase = 0 := fun phrase => rfl
  refine Almost.touched ⟨fun room held => ?_, fun idx room found => .inl ?_, fun _ => le_rfl,
    fun _ => le_rfl, fun _ => le_rfl, fun _ => Int.natCast_nonneg _, by simp, fun room held m hm => ?_⟩
  · obtain ⟨phrase, rfl⟩ := rooms room held
    exact sound_new _ _
  · obtain ⟨phrase, rfl⟩ := rooms room (List.mem_of_getElem? found)
    cases phrase with
    | none => exact le_rfl
    | some phrase => exact (unseen phrase).le
  · obtain ⟨phrase, rfl⟩ := rooms room held
    cases hm

def run (deriveCotKey : P → Option K) (w : World P) (calls : List (Call P)) : World P :=
  calls.foldl (World.step deriveCotKey) w

variable (deriveCotKey) in
theorem Kept.run (kept : Kept w) (calls : List (Call P)) : Kept (Unread.run deriveCotKey w calls) := by
  induction calls generalizing w with
  | nil => exact kept
  | cons call rest ih => exact ih (kept.step deriveCotKey call)

theorem clock_run (calls : List (Call P)) : w.clock ≤ (run deriveCotKey w calls).clock := by
  induction calls generalizing w with
  | nil => exact le_rfl
  | cons call rest ih =>
    have here : w.clock ≤ (w.step deriveCotKey call).clock := by
      rw [World.step, touched_clock]
      exact clock_le
    exact here.trans ih

/-! ## Within a session -/

/-- The room keeps its messages and what was seen of it. -/
structure Later (room room' : Room P) : Prop where
  phrase : room'.phrase = room.phrase
  messages : room.messages ⊆ room'.messages
  highWater : room.highWaterMs ≤ room'.highWaterMs

variable (deriveCotKey) in
/-- A call of the session keeps a room in its place. -/
theorem later_step (within : call ≠ .relaunch) (found : w.gui.circles[idx]? = some room) :
    ∃ room', (w.step deriveCotKey call).gui.circles[idx]? = some room' ∧ Later room room' := by
  obtain ⟨room', after⟩ := moved_on deriveCotKey within found
  obtain ⟨before, held, how⟩ := moved within after
  obtain rfl : room = before := Option.some.inj (found.symm.trans held)
  rw [World.step, touched_gui]
  exact ⟨room', after, how.phrase, fun _ => how.keeps, how.highWater⟩

variable (deriveCotKey) in
theorem later_run {calls : List (Call P)} (within : .relaunch ∉ calls)
    (found : w.gui.circles[idx]? = some room) :
    ∃ room', (run deriveCotKey w calls).gui.circles[idx]? = some room' ∧ Later room room' := by
  induction calls generalizing w room with
  | nil => exact ⟨room, found, rfl, fun _ => id, le_rfl⟩
  | cons call rest ih =>
    obtain ⟨first, others⟩ := not_or.1 (mt List.mem_cons.2 within)
    obtain ⟨next, after, one⟩ := later_step deriveCotKey (Ne.symm first) found
    obtain ⟨last, finally_, more⟩ := ih others after
    exact ⟨last, finally_, more.phrase.trans one.phrase, fun _ held => more.messages (one.messages held),
      one.highWater.trans more.highWater⟩

/-- A message the room holds changes nothing. -/
theorem held_message (found : w.gui.circles[idx]? = some room) {m : Msg} (hm : m ∈ room.messages) :
    (w.step deriveCotKey (.message idx m.toSent)).gui = w.gui := by
  have held : room.holds m.toSent = true := holds_iff.2 (List.mem_map_of_mem hm)
  rw [World.step, touched_gui]
  simp only [World.called, GuiState.onMessage, GuiState.pushMessage, found, push_held held]
  split
  · rfl
  · obtain ⟨inside, same⟩ := List.getElem?_eq_some_iff.1 found
    rw [← same, List.set_getElem_self]

/-! ## The transcript -/

/-- A transcript holds each message once and stands in order; the messages whose
stamps were in the window when they came in stand in the order of their stamps. -/
structure InOrder (w : World P) (room : Room P) : Prop where
  once : (room.messages.map Msg.toSent).Nodup
  sorted : room.messages.Pairwise (·.orderMs ≤ ·.orderMs)
  arrived : ∀ m ∈ room.messages, ∃ at_, (room.phrase, m, at_) ∈ w.arrivals
  stamped : room.messages.Pairwise fun a b => ∀ ta tb, (room.phrase, a, ta) ∈ w.arrivals →
    (room.phrase, b, tb) ∈ w.arrivals → a.sentUnixMs ≤ ta + transcriptMaxClockSkew →
    b.sentUnixMs ≤ tb + transcriptMaxClockSkew → a.sentUnixMs ≤ b.sentUnixMs

theorem Kept.inOrder (kept : Kept w) (held : room ∈ w.gui.circles) : InOrder w room where
  once := (kept.sound room held).once
  sorted := (kept.sound room held).order
  arrived := kept.came room held
  stamped := by
    refine (kept.sound room held).order.imp fun before ta tb hta htb ina inb => ?_
    rw [← (kept.arrived _ hta).order_eq ina, ← (kept.arrived _ htb).order_eq inb]
    exact before

/-! ## The mark is raised -/

/-- News for a room off screen. -/
structure News (w : World P) (idx : Nat) (room : Room P) (sent : Sent) : Prop where
  found : w.gui.circles[idx]? = some room
  hidden : w.gui.onScreen idx = false
  theirs : sent.mine = false
  fresh : room.holds sent = false
  recent : isStaleBacklog sent.sentUnixMs w.clock = false
  later : w.shown room.phrase < sent.sentUnixMs

/-- A message behind the moment a room was shown last is ordered behind it. -/
theorem Kept.order_later (kept : Kept w) {sent : Sent} (news : News w idx room sent) :
    room.highWaterMs < clampOrderMs sent.sentUnixMs w.clock := by
  have below := kept.highWater room (List.mem_of_getElem? news.found)
  have past := kept.past room.phrase
  have later := news.later
  rw [clamp_le _ _ news.recent]
  refine lt_min (below.trans_lt later) ?_
  have skew : 0 < transcriptMaxClockSkew := by decide
  omega

variable (deriveCotKey) in
theorem Kept.raises (kept : Kept w) {sent : Sent} (news : News w idx room sent) :
    ∃ room', (w.step deriveCotKey (.message idx sent)).gui.circles[idx]? = some room' ∧
      room'.unread = true := by
  obtain ⟨inside, -⟩ := List.getElem?_eq_some_iff.1 news.found
  have order := kept.order_later news
  refine ⟨(room.push sent false w.clock).1, ?_, ?_⟩
  · rw [World.step, touched_gui]
    simp only [World.called, GuiState.onMessage, GuiState.pushMessage, news.recent, news.found,
      news.hidden]
    exact List.getElem?_set_self inside
  · rw [push_hidden news.fresh]
    simp [Rooms.news, news.theirs, order]

/-- A mark stays while its room is off screen in the session. -/
theorem unread_stays {calls : List (Call P)} (found : w.gui.circles[idx]? = some room)
    (marked : room.unread = true)
    (hidden : Trail.Along (World.step deriveCotKey) (fun w call => call ≠ .relaunch ∧
      (w.step deriveCotKey call).gui.onScreen idx = false) w calls) :
    ∃ room', (run deriveCotKey w calls).gui.circles[idx]? = some room' ∧ room'.unread = true := by
  induction calls generalizing w room with
  | nil => exact ⟨room, found, marked⟩
  | cons call rest ih =>
    obtain ⟨⟨within, off⟩, others⟩ := hidden
    obtain ⟨room', after⟩ := moved_on deriveCotKey within found
    obtain ⟨before, held, how⟩ := moved within after
    obtain rfl : room = before := Option.some.inj (found.symm.trans held)
    rw [World.step, touched_gui] at off
    refine ih (by rw [World.step, touched_gui]; exact after) (how.unread off marked) others

/-! ## The mark is not raised again -/

/-- In every room of the circle what was seen reaches to `ms`, and it is so kept. -/
structure SeenTo (w : World P) (phrase : P) (ms : Int) : Prop where
  rooms : ∀ room ∈ w.gui.circles, room.phrase = some phrase → ms ≤ room.highWaterMs
  blob : ms ≤ seenMs w.profile.blob phrase

theorem Kept.blob_step (kept : Kept w) (call : Call P) (phrase : P) :
    seenMs w.profile.blob phrase ≤ seenMs (w.step deriveCotKey call).profile.blob phrase := by
  rw [World.step, touched_profile]
  cases call with
  | persistAllCircleSeen resealed => exact (persistAll_raised w.gui kept.backed resealed).blob phrase
  | _ => exact le_rfl

variable (deriveCotKey) in
theorem Kept.blob_run (kept : Kept w) (calls : List (Call P)) (phrase : P) :
    seenMs w.profile.blob phrase ≤ seenMs (Unread.run deriveCotKey w calls).profile.blob phrase := by
  induction calls generalizing w with
  | nil => exact le_rfl
  | cons call rest ih => exact (kept.blob_step call phrase).trans (ih (kept.step deriveCotKey call))

variable (deriveCotKey) in
theorem relaunched {phrase : P} {ms : Int} (blob : ms ≤ seenMs w.profile.blob phrase) :
    SeenTo (w.step deriveCotKey .relaunch) phrase ms := by
  refine ⟨fun room held has => ?_, ?_⟩
  · rw [World.step, touched_gui] at held
    obtain ⟨key, rfl⟩ := start_rooms deriveCotKey _ room held
    obtain rfl : key = some phrase := has
    exact blob
  · rw [World.step, touched_profile]
    exact blob

theorem SeenTo.step {phrase : P} {ms : Int} (kept : Kept w) (h : SeenTo w phrase ms) (call : Call P) :
    SeenTo (w.step deriveCotKey call) phrase ms := by
  by_cases within : call = .relaunch
  · subst within
    exact relaunched deriveCotKey h.blob
  · refine ⟨fun room' held has => ?_, h.blob.trans (kept.blob_step call phrase)⟩
    rw [World.step, touched_gui] at held
    obtain ⟨idx, after⟩ := List.mem_iff_getElem?.1 held
    obtain ⟨room, found, how⟩ := moved within after
    exact (h.rooms room (List.mem_of_getElem? found) (how.phrase ▸ has)).trans how.highWater

variable (deriveCotKey) in
theorem SeenTo.run {phrase : P} {ms : Int} (kept : Kept w) (h : SeenTo w phrase ms)
    (calls : List (Call P)) : SeenTo (Unread.run deriveCotKey w calls) phrase ms := by
  induction calls generalizing w with
  | nil => exact h
  | cons call rest ih => exact ih (kept.step deriveCotKey call) (h.step kept call)

/-- A message whose stamp is seen to marks no room. -/
theorem seen_message (found : w.gui.circles[idx]? = some room) {sent : Sent}
    (seen : sent.sentUnixMs ≤ room.highWaterMs) :
    ∃ room', (w.step deriveCotKey (.message idx sent)).gui.circles[idx]? = some room' ∧
      room'.unread = room.unread := by
  have within : (Call.message idx sent : Call P) ≠ .relaunch := nofun
  obtain ⟨room', after⟩ := moved_on deriveCotKey within found
  obtain ⟨before, held, how⟩ := moved within after
  obtain rfl : room = before := Option.some.inj (found.symm.trans held)
  refine ⟨room', by rw [World.step, touched_gui]; exact after, ?_⟩
  cases how with
  | same => rfl
  | seen shown other => exact absurd rfl (other sent)
  | pushed other is recent =>
    cases is
    cases held : room.holds sent with
    | true => rw [push_held held]
    | false =>
      cases w.gui.onScreen idx with
      | true => rw [push_shown held]; rfl
      | false =>
        have order := (clamp_le _ _ recent).trans_le (min_le_left _ _)
        have old : ¬clampOrderMs sent.sentUnixMs w.clock > room.highWaterMs := by omega
        rw [push_hidden held]
        simp [Rooms.news, old]

/-! ## Every run -/

/-- A message comes onto the screen with the call, alone or with its room; its
stamp was in the window when it came in and is not ahead of the clock. -/
structure Looked (deriveCotKey : P → Option K) (w : World P) (call : Call P) (idx : Nat) (phrase : P)
    (m : Msg) : Prop where
  shown : (w.step deriveCotKey call).gui.onScreen idx = true
  held : ∃ room, (w.step deriveCotKey call).gui.circles[idx]? = some room ∧
    room.phrase = some phrase ∧ m ∈ room.messages
  new : w.gui.onScreen idx = false ∨ ∀ room, w.gui.circles[idx]? = some room → m ∉ room.messages
  inside : ∃ at_, (some phrase, m, at_) ∈ (w.step deriveCotKey call).arrivals ∧
    m.sentUnixMs ≤ at_ + transcriptMaxClockSkew
  past : m.sentUnixMs ≤ ((w.step deriveCotKey call).clock : Int)

/-- The moment the room is seen up to is written to the blob. -/
def Written (w after : World P) (idx : Nat) (phrase : P) : Prop :=
  ∀ room, w.gui.circles[idx]? = some room → room.highWaterMs ≤ seenMs after.profile.blob phrase

theorem Kept.looked (kept : Kept w) {phrase : P} {m : Msg}
    (look : Looked deriveCotKey w call idx phrase m) :
    ∃ room, (w.step deriveCotKey call).gui.circles[idx]? = some room ∧
      m.sentUnixMs ≤ room.highWaterMs := by
  obtain ⟨room', after, has, hm⟩ := look.held
  obtain ⟨at_, taken, inside⟩ := look.inside
  have order := ((kept.step deriveCotKey call).arrived _ taken).order_eq inside
  refine ⟨room', after, ?_⟩
  have within : call ≠ .relaunch := by
    rintro rfl
    rw [World.step, touched_gui] at after
    obtain ⟨key, rfl⟩ := start_rooms deriveCotKey _ room' (List.mem_of_getElem? after)
    cases hm
  have past := look.past
  have shown := look.shown
  rw [World.step, touched_gui] at after shown
  rw [World.step, touched_clock] at past
  obtain ⟨room, found, how⟩ := moved within after
  have new := look.new.imp id fun absent => absent room found
  have covered := how.covers (kept.sound room (List.mem_of_getElem? found)) shown hm new
  have still : (w.called deriveCotKey call).clock = w.clock := by
    cases call with
    | wait ms =>
      rcases look.new with hidden | absent
      · exact absurd (shown.symm.trans hidden) Bool.true_eq_false_eq_False
      · exact absurd hm (absent room' after)
    | _ => rfl
  rwa [order, min_eq_left (still ▸ past)] at covered

/-- Over the sessions of a profile, what holds of the state a run reaches and
of the calls that come after it. -/
structure Shown (deriveCotKey : P → Option K) (w : World P) : Prop where
  inOrder : ∀ room ∈ w.gui.circles, InOrder w room
  raised : ∀ idx room sent, News w idx room sent → ∀ later : List (Call P),
    Trail.Along (World.step deriveCotKey) (fun w call => call ≠ .relaunch ∧
      (w.step deriveCotKey call).gui.onScreen idx = false)
      (w.step deriveCotKey (.message idx sent)) later →
    ∃ room', (run deriveCotKey (w.step deriveCotKey (.message idx sent)) later).gui.circles[idx]? =
      some room' ∧ room'.unread = true
  held : ∀ idx room m, w.gui.circles[idx]? = some room → m ∈ room.messages →
    ∀ later : List (Call P), .relaunch ∉ later →
    ((run deriveCotKey w later).step deriveCotKey (.message idx m.toSent)).gui =
      (run deriveCotKey w later).gui
  seen : ∀ call idx phrase m, Looked deriveCotKey w call idx phrase m →
    ∀ mid : List (Call P), .relaunch ∉ mid → ∀ resealed,
    let before := run deriveCotKey (w.step deriveCotKey call) mid
    let after := before.step deriveCotKey (.persistAllCircleSeen resealed)
    Written before after idx phrase → ∀ later rest : List (Call P),
    let v := run deriveCotKey ((run deriveCotKey after later).step deriveCotKey .relaunch) rest
    ∀ i room, v.gui.circles[i]? = some room → room.phrase = some phrase →
    ∃ room', (v.step deriveCotKey (.message i m.toSent)).gui.circles[i]? = some room' ∧
      room'.unread = room.unread

theorem Kept.shown (kept : Kept w) : Shown deriveCotKey w where
  inOrder _ held := kept.inOrder held
  raised idx room sent news later hidden := by
    obtain ⟨room', found, marked⟩ := kept.raises deriveCotKey news
    exact unread_stays found marked hidden
  held idx room m found hm later within := by
    obtain ⟨room', after, same⟩ := later_run deriveCotKey within found
    exact held_message after (same.messages hm)
  seen call idx phrase m look mid within resealed := by
    intro before after written later rest v i room found has
    obtain ⟨room₁, after₁, seen⟩ := kept.looked look
    obtain ⟨room₂, after₂, same⟩ := later_run deriveCotKey within after₁
    have blob : m.sentUnixMs ≤ seenMs after.profile.blob phrase :=
      (seen.trans same.highWater).trans (written room₂ after₂)
    have kept₃ : Kept after := ((kept.step deriveCotKey call).run deriveCotKey mid).step deriveCotKey _
    have kept₄ := kept₃.run deriveCotKey later
    have all := (relaunched deriveCotKey
      (blob.trans (kept₃.blob_run deriveCotKey later phrase))).run deriveCotKey (kept₄.step deriveCotKey _) rest
    exact seen_message found (all.rooms room (List.mem_of_getElem? found) has)

/-- **What the rooms show.** Over the sessions of a profile: a transcript holds
each message once and in order; a message of another member that is new to its
room and stamped later than the room was on screen marks it, until it is on
screen again in the session; a message that a room holds is never taken again
in the session; and one that came onto the screen with a stamp in the window
and not ahead marks its circle's room in no later session once what was seen of
it was written. -/
theorem rooms_shown (deriveCotKey : P → Option K) (circles : List P) (clock : Nat)
    (calls : List (Call P)) :
    Shown deriveCotKey (run deriveCotKey (.start deriveCotKey circles clock) calls) :=
  ((start_kept deriveCotKey circles clock).run deriveCotKey calls).shown

/-! ## A stamp ahead of the clock -/

/-- A message of another member, a minute ahead of the clock. -/
def ahead : Sent := ⟨"ally", "hi", false, 100060000⟩

/-- It comes into a circle on screen, and the Lobby is shown then. -/
def lookedAway : World Nat :=
  run some (.start some [7] 100000000) [.switchTo 1, .message 1 ahead, .switchTo 0]

/-- The circle was on screen last before the message's stamp; the message is
delivered again to the circle off screen, and does not mark it. -/
theorem ahead_marks_nothing :
    lookedAway.gui.onScreen 1 = false ∧ ahead.mine = false ∧
    isStaleBacklog ahead.sentUnixMs lookedAway.clock = false ∧
    lookedAway.shown (some 7) < ahead.sentUnixMs ∧
    ((lookedAway.step some (.message 1 ahead)).gui.circles.map Room.unread) = [false, false] := by
  decide

end Daemonseed.Gui.Unread
