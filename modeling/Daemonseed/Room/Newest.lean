import Daemonseed.Room.Listed
import Daemonseed.Room.Provenance

/-! # Which of the routes received of a share is held

For one share the session holds the time of the announcement listed and the
route discovered. An older announcement leaves the first as it is and replaces
the second all the same, so the route held is the one received last. -/
namespace Daemonseed.Room.Newest
open Daemonseed.Lib.Bytes Daemonseed.Lib.Lines Daemonseed.Lib.Maps Daemonseed.Lib.Results
  Daemonseed.Room.Catalog Daemonseed.Room.Inbound
  Daemonseed.Room.Listed Daemonseed.Room.Presence Daemonseed.Room.Provenance
  Daemonseed.Room.RouteGuard Daemonseed.Room.Sealed Daemonseed.Room.Wire

variable {R : Type}

/-- An envelope that the owner of a share published for it: it opens under the key of the
room, its share id is bound to the owner and its route is signed by the owner. -/
structure Publication (P : Primitives) (roomKey owner : Octets) (shareId : String) where
  bytes : Octets
  env : DiscoveryEnvelope
  ann : ShareAnnouncement
  decodes : DiscoveryEnvelope.decode bytes = some env
  opens : openAnnouncement P roomKey env.sealedAnnouncement = .ok ann
  byOwner : ann.senderPubkey = owner
  ofShare : ann.shareId = shareId
  bound : shareBindingIsValid P.sha384 ann = true
  advertised : verifyRouteAdvert P ann.senderPubkey ann.shareId env.routeBlob env.routeSig = true

/-- The time listed and the route discovered. -/
abbrev Held := Option (Int × Octets)

namespace Publication

variable {P : Primitives} {roomKey owner : Octets} {shareId : String}

def sent (p : Publication P roomKey owner shareId) : Int := p.ann.sentUnixMs.toInt

def withdraws (p : Publication P roomKey owner shareId) : Bool := p.ann.withdraw

def blob (p : Publication P roomKey owner shareId) : Octets := p.env.routeBlob

/-- The route that the share is served over, by this publication. -/
def route (p : Publication P roomKey owner shareId) : Option Octets :=
  if p.withdraws then none else some p.blob

/-- The time and the route that this publication alone leaves. -/
def held (p : Publication P roomKey owner shareId) : Held :=
  if p.withdraws then none else some (p.sent, p.blob)

theorem held_route (p : Publication P roomKey owner shareId) : p.held.map Prod.snd = p.route := by
  unfold held route
  split <;> rfl

end Publication

/-! ## What the session holds of one share -/

variable {P : Primitives} {roomKey owner : Octets} {shareId : String} {shares : ShareState R}
variable {p : Publication P roomKey owner shareId} {now : Instant} {held : Held}

/-- A withdrawal older than what is listed changes nothing. -/
def Held.withdraw (at_ : Int) : Held → Held
  | none => none
  | some (sent, blob) => if at_ < sent then some (sent, blob) else none

/-- An announcement brings its route whatever its age. -/
def Held.announce (at_ : Int) (route : Octets) : Held → Held
  | none => some (at_, route)
  | some (sent, _) => some (max sent at_, route)

def Held.receive (held : Held) (p : Publication P roomKey owner shareId) : Held :=
  if p.withdraws then held.withdraw p.sent else held.announce p.sent p.blob

/-- The session lists the share for its owner and has discovered its route, or neither. -/
structure Holds (shares : ShareState R) (owner : Octets) (shareId : String) (held : Held) :
    Prop where
  listed : (shares.catalog.entries.lookup shareId).map (·.announcedUnixMs.toInt) = held.map Prod.fst
  owned : ∀ share, shares.catalog.entries.lookup shareId = some share → share.senderPubkey = owner
  discovered : (shares.discovered.lookup shareId).map (·.routeBlob) = held.map Prod.snd

/-- A client of the lobby that is not the owner. -/
structure Reads (shares : ShareState R) (roomKey owner : Octets) : Prop where
  joined : ∃ lobby, shares.lobby = some lobby ∧ lobby.roomKey = roomKey
  other : shares.isOwn owner = false

/-- The envelope taken in. -/
def receive (shares : ShareState R) (p : Publication P roomKey owner shareId) (now : Instant) :
    ShareState R :=
  (shares.applyDiscovery P now p.bytes).2.1

theorem receive_eq (reads : Reads shares roomKey owner) :
    receive shares p now =
      if p.withdraws then shares.foldWithdraw P p.ann now
      else shares.foldAdvert P p.ann p.blob now := by
  obtain ⟨lobby, joined, rfl⟩ := reads.joined
  have other : shares.isOwn p.ann.senderPubkey = false := by
    rw [p.byOwner]
    exact reads.other
  unfold receive ShareState.applyDiscovery
  simp only [joined, p.decodes, p.opens, other, p.bound, p.advertised, Bool.not_true,
    Bool.false_eq_true, if_false]
  show _ = if p.ann.withdraw = true then _ else _
  split <;> rfl

variable (now) in
theorem reads_receive (reads : Reads shares roomKey owner) :
    Reads (receive shares p now) roomKey owner := by
  have kept := (applyDiscovery_folds (P := P) shares now p.bytes).2.1
  refine ⟨by unfold receive; rw [kept]; exact reads.joined, ?_⟩
  rw [receive_eq reads]
  have other := reads.other
  simp only [ShareState.foldWithdraw, ShareState.foldAdvert, ShareState.supersede]
  split
  · split <;> exact other
  · split
    · split <;> exact other
    · exact other

/-! ## Announcements and withdrawals folded -/

variable {ann : ShareAnnouncement} {blob : Octets}

theorem foldAdvert_discovered_other {id : String} (ne : id ≠ ann.shareId) :
    (shares.foldAdvert P ann blob now).discovered.lookup id = shares.discovered.lookup id := by
  simp only [ShareState.foldAdvert, ShareState.supersede]
  split
  · split <;> exact AList.lookup_insert_ne ne
  · rfl

variable (shares now ann blob) in
/-- A share whose listing goes with its route has the route received last. -/
theorem foldAdvert_discovered
    (both : (shares.catalog.applyVerified P.sha384 ann now).1 = .unchanged →
      (shares.discovered.lookup ann.shareId).isSome) :
    ((shares.foldAdvert P ann blob now).discovered.lookup ann.shareId).map (·.routeBlob) =
      some blob := by
  simp only [ShareState.foldAdvert]
  split
  · split <;> simp [ShareState.supersede]
  · rename_i quiet
    simp only [not_or, not_not, Bool.not_eq_true] at quiet
    obtain ⟨d, found⟩ := Option.isSome_iff_exists.1 (both quiet.1)
    have same := quiet.2
    rw [found] at same ⊢
    simpa using same

theorem apply_added (bare : shares.catalog.entries.lookup ann.shareId = none)
    (announces : ann.withdraw = false) :
    (shares.catalog.apply ann now).1 = .added := by
  unfold ShareCatalog.apply
  rw [announces, bare]

variable (shares now) in
theorem apply_removed (withdraws : ann.withdraw = true) :
    (shares.catalog.apply ann now).1 = .removed ↔
      ∃ share, shares.catalog.entries.lookup ann.shareId = some share ∧
        ann.senderPubkey = share.senderPubkey ∧
        ¬ ann.sentUnixMs.toInt < share.announcedUnixMs.toInt := by
  unfold ShareCatalog.apply
  rw [withdraws]
  cases shares.catalog.entries.lookup ann.shareId with
  | none => simp
  | some share =>
    by_cases mine : ann.senderPubkey = share.senderPubkey
    · by_cases stale : ann.sentUnixMs.toInt < share.announcedUnixMs.toInt
      · simp [mine, stale]
      · simp [mine, stale, not_lt.1 stale]
    · simp [mine]

theorem foldWithdraw_discovered {id : String} :
    (shares.foldWithdraw P ann now).discovered.lookup id =
      if (shares.catalog.applyVerified P.sha384 ann now).1 = .removed ∧ id = ann.shareId then none
      else shares.discovered.lookup id := by
  simp only [ShareState.foldWithdraw]
  split
  · rename_i removed
    by_cases e : id = ann.shareId
    · subst e
      simp [AList.lookup_erase, removed]
    · rw [if_neg (fun h => e h.2)]
      exact AList.lookup_erase_ne e
  · rename_i kept
    rw [if_neg (fun h => kept h.1)]

/-! ## The step -/

variable (shares now) in
theorem applyVerified_bound (bound : shareBindingIsValid P.sha384 ann = true) :
    shares.catalog.applyVerified P.sha384 ann now = shares.catalog.apply ann now := by
  unfold ShareCatalog.applyVerified
  rw [if_pos bound]

variable (shares now) in
theorem listed_apply (bound : shareBindingIsValid P.sha384 ann = true) :
    ((shares.catalog.applyVerified P.sha384 ann now).2).entries.lookup ann.shareId =
      folded (shares.catalog.entries.lookup ann.shareId) ann now := by
  rw [applyVerified_bound _ _ bound]
  exact apply_own

variable (now) in
theorem holds_withdraw (bound : shareBindingIsValid P.sha384 ann = true)
    (withdraws : ann.withdraw = true) (holds : Holds shares ann.senderPubkey ann.shareId held) :
    Holds (shares.foldWithdraw P ann now) ann.senderPubkey ann.shareId
      (held.withdraw ann.sentUnixMs.toInt) := by
  have listing := listed_apply shares now bound
  have removed := apply_removed shares now withdraws
  rw [← applyVerified_bound _ _ bound] at removed
  obtain ⟨listed, owned, discovered⟩ := holds
  cases found : shares.catalog.entries.lookup ann.shareId with
  | none =>
    rw [found] at listed listing removed
    have kept : ¬ (shares.catalog.applyVerified P.sha384 ann now).1 = .removed := by
      intro h
      obtain ⟨share, e, -⟩ := removed.1 h
      cases e
    have none_ : held = none := by simpa using listed.symm
    subst none_
    refine ⟨?_, ?_, ?_⟩
    · rw [(foldWithdraw_catalog ann).1, listing]
      simp [folded, withdraws, Held.withdraw]
    · rw [(foldWithdraw_catalog ann).1, listing]
      simp [folded, withdraws]
    · rw [foldWithdraw_discovered, if_neg (fun h => kept h.1)]
      exact discovered
  | some share =>
    rw [found] at listed listing removed
    have mine := owned share found
    obtain ⟨⟨sent, blob⟩, rfl⟩ : ∃ x, held = some x := by
      cases held with
      | none => simp at listed
      | some x => exact ⟨x, rfl⟩
    have time : share.announcedUnixMs.toInt = sent := by simpa using listed
    by_cases stale : ann.sentUnixMs.toInt < sent
    · have kept : ¬ (shares.catalog.applyVerified P.sha384 ann now).1 = .removed := by
        intro h
        obtain ⟨share', e, -, fresh⟩ := removed.1 h
        cases e
        exact fresh (time ▸ stale)
      have same : folded (some share) ann now = some share := by
        simp [folded, time, stale]
      refine ⟨?_, ?_, ?_⟩
      · rw [(foldWithdraw_catalog ann).1, listing, same]
        simp [Held.withdraw, stale, time]
      · rw [(foldWithdraw_catalog ann).1, listing, same]
        intro share' e
        cases e
        exact mine
      · rw [foldWithdraw_discovered, if_neg (fun h => kept h.1), discovered]
        simp [Held.withdraw, stale]
    · have gone : (shares.catalog.applyVerified P.sha384 ann now).1 = .removed :=
        removed.2 ⟨share, rfl, mine.symm, time ▸ stale⟩
      have same : folded (some share) ann now = none := by
        simp [folded, time, stale, mine, withdraws]
      refine ⟨?_, ?_, ?_⟩
      · rw [(foldWithdraw_catalog ann).1, listing, same]
        simp [Held.withdraw, stale]
      · rw [(foldWithdraw_catalog ann).1, listing, same]
        simp
      · rw [foldWithdraw_discovered, if_pos ⟨gone, rfl⟩]
        simp [Held.withdraw, stale]

variable (now blob) in
theorem holds_announce (bound : shareBindingIsValid P.sha384 ann = true)
    (announces : ann.withdraw = false) (holds : Holds shares ann.senderPubkey ann.shareId held) :
    Holds (shares.foldAdvert P ann blob now) ann.senderPubkey ann.shareId
      (held.announce ann.sentUnixMs.toInt blob) := by
  have listing := listed_apply shares now bound
  obtain ⟨listed, owned, discovered⟩ := holds
  have both : (shares.catalog.applyVerified P.sha384 ann now).1 = .unchanged →
      (shares.discovered.lookup ann.shareId).isSome := by
    intro quiet
    rw [applyVerified_bound _ _ bound] at quiet
    cases held with
    | none =>
      have bare : shares.catalog.entries.lookup ann.shareId = none := by simpa using listed
      rw [apply_added bare announces] at quiet
      cases quiet
    | some x =>
      cases found : shares.discovered.lookup ann.shareId with
      | none =>
        rw [found] at discovered
        cases discovered
      | some d => rfl
  have route := foldAdvert_discovered _ _ _ blob both
  cases found : shares.catalog.entries.lookup ann.shareId with
  | none =>
    rw [found] at listed listing
    have none_ : held = none := by simpa using listed.symm
    subst none_
    refine ⟨?_, ?_, route⟩
    · rw [(foldAdvert_catalog ann blob).1, listing]
      simp [folded, announces, Held.announce, ShareAnnouncement.row]
    · rw [(foldAdvert_catalog ann blob).1, listing]
      intro share e
      have row : ShareAnnouncement.row ann now = share := by simpa [folded, announces] using e
      rw [← row]
      rfl
  | some share =>
    rw [found] at listed listing
    have mine := owned share found
    obtain ⟨⟨sent, old⟩, rfl⟩ : ∃ x, held = some x := by
      cases held with
      | none => simp at listed
      | some x => exact ⟨x, rfl⟩
    have time : share.announcedUnixMs.toInt = sent := by simpa using listed
    by_cases stale : ann.sentUnixMs.toInt < sent
    · have same : folded (some share) ann now = some share := by
        simp [folded, time, stale]
      refine ⟨?_, ?_, route⟩
      · rw [(foldAdvert_catalog ann blob).1, listing, same]
        simp [Held.announce, time, max_eq_left stale.le]
      · rw [(foldAdvert_catalog ann blob).1, listing, same]
        intro share' e
        cases e
        exact mine
    · have same : folded (some share) ann now =
          some { ShareAnnouncement.row ann now with shareId := share.shareId } := by
        simp [folded, time, stale, mine, announces]
      refine ⟨?_, ?_, route⟩
      · rw [(foldAdvert_catalog ann blob).1, listing, same]
        simp [Held.announce, ShareAnnouncement.row, max_eq_right (not_lt.1 stale)]
      · rw [(foldAdvert_catalog ann blob).1, listing, same]
        intro share' e
        cases e
        rfl

variable (now) in
/-- What the catalog lists and what is discovered follow what is held. -/
theorem holds_receive (reads : Reads shares roomKey owner) (holds : Holds shares owner shareId held) :
    Holds (receive shares p now) owner shareId (held.receive p) := by
  rw [receive_eq reads]
  unfold Held.receive
  have start : Holds shares p.ann.senderPubkey p.ann.shareId held := by
    rw [p.byOwner, p.ofShare]
    exact holds
  split
  · rename_i withdraws
    have next := holds_withdraw now p.bound withdraws start
    rwa [p.byOwner, p.ofShare] at next
  · rename_i announces
    have next := holds_announce now p.blob p.bound
      (by simpa [Publication.withdraws] using announces) start
    rwa [p.byOwner, p.ofShare] at next

variable (now) in
/-- The route of an announcement just received is held, whatever was received before it. -/
theorem receive_route (reads : Reads shares roomKey owner)
    (holds : Holds shares owner shareId held) (announces : p.withdraws = false) :
    ((receive shares p now).discovered.lookup shareId).map (·.routeBlob) = some p.blob := by
  rw [(holds_receive _ reads holds).discovered]
  unfold Held.receive
  rw [if_neg (by rw [announces]; exact Bool.false_ne_true)]
  cases held <;> rfl

/-! ## Every envelope received -/

section

variable (published : Nat → Publication P roomKey owner shareId)

/-- The envelopes received, each with its number among the publications and when it came. -/
def receiveAll (shares : ShareState R) (received : List (Nat × Instant)) : ShareState R :=
  received.foldl (fun shares r => receive shares (published r.1) r.2) shares

/-- The newest publication received, after one more. -/
def advance : Option Nat → Nat → Option Nat
  | none, i => some i
  | some n, i => some (max n i)

def newest (received : List (Nat × Instant)) : Option Nat :=
  received.foldl (fun n r => advance n r.1) none

/-- The route held is the one of the newest publication received, or none where that is a
withdrawal. -/
def HoldsNewest (newest : Option Nat) (shares : ShareState R) : Prop :=
  ∀ n, newest = some n →
    (shares.discovered.lookup shareId).map (·.routeBlob) = (published n).route

/-- An envelope at least as new as all before it, or an older one that says nothing else: an
announcement of the route held, a withdrawal too old to remove what is listed, or any
withdrawal of what is withdrawn. -/
def InTurn : Option Nat → Nat → Prop
  | none, _ => True
  | some n, i =>
    n ≤ i ∨
      if (published n).withdraws then (published i).withdraws = true
      else if (published i).withdraws then (published i).sent < (published n).sent
      else (published i).blob = (published n).blob

/-- Every envelope received in its turn. -/
def AllInTurn : Option Nat → List (Nat × Instant) → Prop
  | _, [] => True
  | n, r :: rest => InTurn published n r.1 ∧ AllInTurn (advance n r.1) rest

/-- What is held where the newest publication received decides it. -/
def expected : Option Nat → Held
  | none => none
  | some n => (published n).held

variable {published} {n : Option Nat} {i : Nat}

theorem holds_newest (holds : Holds shares owner shareId (expected published n)) :
    HoldsNewest published n shares := by
  rintro m rfl
  rw [holds.discovered]
  exact (published m).held_route

/-- The publications are stamped in the order they are made. -/
def Stamped (published : Nat → Publication P roomKey owner shareId) : Prop :=
  ∀ i j, i ≤ j → (published i).sent ≤ (published j).sent

/-- An envelope in its turn leaves what the newest publication decides. -/
theorem expected_receive (stamped : Stamped published) (turn : InTurn published n i) :
    (expected published n).receive (published i) = expected published (advance n i) := by
  cases n with
  | none =>
    show Held.receive none (published i) = (published i).held
    unfold Held.receive Publication.held
    split <;> rfl
  | some m =>
    show (published m).held.receive (published i) = expected published (some (max m i))
    unfold Held.receive Publication.held
    rcases le_total m i with le | le
    · -- at least as new as all before it
      have time := stamped m i le
      rw [max_eq_right le]
      show _ = if (published i).withdraws then none else some ((published i).sent, (published i).blob)
      split
      · split
        · rfl
        · exact if_neg (not_lt.2 time)
      · split
        · rfl
        · simp only [Held.announce, max_eq_right time]
    · have time := stamped i m le
      rw [max_eq_left le]
      show _ = if (published m).withdraws then none else some ((published m).sent, (published m).blob)
      rcases turn with le' | turn
      · cases le_antisymm le le'
        split
        · rfl
        · simp only [Held.announce, max_self]
      · split at turn
        · rename_i withdrawn
          rw [if_pos turn, if_pos withdrawn]
          rfl
        · rename_i announced
          rw [if_neg announced]
          split at turn
          · rename_i withdraws
            rw [if_pos withdraws]
            exact if_pos turn
          · rename_i announces
            rw [if_neg announces, turn]
            simp only [Held.announce, max_eq_left time]

/-- An envelope out of its turn leaves another route than the newest one. -/
theorem turn_of_receive (reads : Reads shares roomKey owner)
    (holds : Holds shares owner shareId (expected published n))
    (good : HoldsNewest published (advance n i) (receive shares (published i) now)) :
    InTurn published n i := by
  cases n with
  | none => trivial
  | some m =>
    rcases le_or_gt m i with le | lt
    · exact .inl le
    · refine .inr ?_
      have after := (holds_receive (p := published i) now reads holds).discovered
      rw [good m (by simp only [advance, max_eq_left lt.le])] at after
      change (published m).route =
        ((published m).held.receive (published i)).map Prod.snd at after
      unfold Publication.route Held.receive Publication.held at after
      split
      · rename_i withdrawn
        rw [if_pos withdrawn, if_pos withdrawn] at after
        by_contra announces
        rw [if_neg announces] at after
        cases after
      · rename_i announced
        rw [if_neg announced, if_neg announced] at after
        split
        · rename_i withdraws
          rw [if_pos withdraws] at after
          by_contra stale
          simp only [Held.withdraw, if_neg stale] at after
          cases after
        · rename_i announces
          rw [if_neg announces] at after
          simpa [Held.announce] using after.symm

/-- An older announcement received after a newer publication brings its own route. -/
theorem older_received {m : Nat} {t t' : Instant} (reads : Reads shares roomKey owner)
    (holds : Holds shares owner shareId none) (older : i < m)
    (announces : (published i).withdraws = false)
    (differs : (published m).route ≠ some (published i).blob) :
    ¬ HoldsNewest published (newest [(m, t), (i, t')])
      (receiveAll published shares [(m, t), (i, t')]) := by
  intro good
  have first := holds_receive (p := published m) t reads holds
  have last := receive_route t' (reads_receive _ reads) first announces
  have route := good m (congrArg some (max_eq_left older.le))
  exact differs (route.symm.trans last)

theorem receiveAll_newest (stamped : Stamped published) (received : List (Nat × Instant))
    (reads : Reads shares roomKey owner)
    (holds : Holds shares owner shareId (expected published n)) :
    (∀ before after, received = before ++ after →
      HoldsNewest published (before.foldl (fun n r => advance n r.1) n)
        (receiveAll published shares before)) ↔
      AllInTurn published n received := by
  induction received generalizing shares n with
  | nil =>
    refine iff_of_true ?_ trivial
    intro before after e
    obtain ⟨rfl, -⟩ := List.nil_eq_append_iff.1 e
    exact holds_newest holds
  | cons r rest ih =>
    constructor
    · intro good
      have turn : InTurn published n r.1 :=
        turn_of_receive reads holds (good [r] rest rfl)
      have holds := holds_receive (p := published r.1) r.2 reads holds
      rw [expected_receive stamped turn] at holds
      refine ⟨turn, (ih (reads_receive _ reads) holds).1 ?_⟩
      intro before after e
      exact good (r :: before) after (by rw [e]; rfl)
    · intro ⟨turn, turns⟩ before after e
      have next := holds_receive (p := published r.1) r.2 reads holds
      rw [expected_receive stamped turn] at next
      cases before with
      | nil => exact holds_newest holds
      | cons first before =>
        obtain ⟨rfl, rest_⟩ := List.cons.inj e
        exact (ih (reads_receive _ reads) next).2 turns before after rest_

end

/-! ## An announcement that the catalog finds stale -/

theorem apply_stale {share : DiscoveredShare} {ann : ShareAnnouncement}
    (listed : shares.catalog.entries.lookup ann.shareId = some share)
    (stale : ann.sentUnixMs.toInt < share.announcedUnixMs.toInt) :
    (shares.catalog.apply ann now).1 = .unchanged := by
  unfold ShareCatalog.apply
  rw [listed]
  cases ann.withdraw with
  | true => simp [stale]
  | false => simp [stale]

variable (now) in
theorem foldAdvert_stale {share : DiscoveredShare} {ann : ShareAnnouncement} (blob : Octets)
    (bound : shareBindingIsValid P.sha384 ann = true)
    (listed : shares.catalog.entries.lookup ann.shareId = some share)
    (stale : ann.sentUnixMs.toInt < share.announcedUnixMs.toInt) :
    ((shares.foldAdvert P ann blob now).discovered.lookup ann.shareId =
        shares.discovered.lookup ann.shareId ∧
      (shares.foldAdvert P ann blob now).parkedRetries.lookup ann.shareId =
        shares.parkedRetries.lookup ann.shareId) ↔
      ∀ d, shares.discovered.lookup ann.shareId = some d → d.routeBlob = blob := by
  have quiet : (shares.catalog.applyVerified P.sha384 ann now).1 = .unchanged := by
    rw [applyVerified_bound _ _ bound]
    exact apply_stale listed stale
  constructor
  · rintro ⟨same, -⟩ d found
    have route := foldAdvert_discovered (P := P) _ now _ blob
      (fun _ => Option.isSome_iff_exists.2 ⟨d, found⟩)
    rw [same, found] at route
    exact Option.some.inj route
  · intro same
    have kept : (shares.discovered.lookup ann.shareId).any (fun d => d.routeBlob ≠ blob) = false := by
      cases found : shares.discovered.lookup ann.shareId with
      | none => rfl
      | some d => simp [same d found]
    simp only [ShareState.foldAdvert, quiet, kept]
    exact ⟨rfl, rfl⟩

variable (now) in
theorem foldWithdraw_stale {share : DiscoveredShare} {ann : ShareAnnouncement}
    (bound : shareBindingIsValid P.sha384 ann = true)
    (listed : shares.catalog.entries.lookup ann.shareId = some share)
    (stale : ann.sentUnixMs.toInt < share.announcedUnixMs.toInt) :
    (shares.foldWithdraw P ann now).discovered = shares.discovered ∧
      (shares.foldWithdraw P ann now).parkedRetries = shares.parkedRetries := by
  have quiet : (shares.catalog.applyVerified P.sha384 ann now).1 = .unchanged := by
    rw [applyVerified_bound _ _ bound]
    exact apply_stale listed stale
  simp only [ShareState.foldWithdraw, quiet]
  exact ⟨rfl, rfl⟩

/-! ## The newest route -/

/-- **The route held is the one received last.** Of a share that is new to the client, after
every envelope received the route held is the one of the newest publication received if and
only if each envelope came in its turn. An announcement that the catalog finds stale leaves the
route, its generation and the parked retry as they are if and only if it brings the route held;
a stale withdrawal always does. -/
theorem newest_route_iff {P : Primitives} {roomKey owner : Octets} {shareId : String}
    (published : Nat → Publication P roomKey owner shareId) (stamped : Stamped published)
    (shares : ShareState R) (reads : Reads shares roomKey owner) :
    (shares.catalog.entries.lookup shareId = none → shares.discovered.lookup shareId = none →
      ∀ received, (∀ before after, received = before ++ after →
        HoldsNewest published (newest before) (receiveAll published shares before)) ↔
          AllInTurn published none received) ∧
    ∀ i now share, shares.catalog.entries.lookup shareId = some share →
      (published i).sent < share.announcedUnixMs.toInt →
        let after := receive shares (published i) now
        ((after.discovered.lookup shareId = shares.discovered.lookup shareId ∧
            after.parkedRetries.lookup shareId = shares.parkedRetries.lookup shareId) ↔
          (published i).withdraws = true ∨
            ∀ d, shares.discovered.lookup shareId = some d → d.routeBlob = (published i).blob) := by
  refine ⟨?_, ?_⟩
  · intro unlisted undiscovered received
    refine receiveAll_newest (n := none) stamped received reads ⟨?_, ?_, ?_⟩
    · rw [unlisted]
      rfl
    · intro share e
      rw [unlisted] at e
      cases e
    · rw [undiscovered]
      rfl
  · intro i now share listed stale
    rw [← (published i).ofShare] at listed
    show _ ∧ _ ↔ _
    rw [receive_eq reads]
    split
    · rename_i withdraws
      obtain ⟨route, retry⟩ := foldWithdraw_stale now (published i).bound listed stale
      rw [route, retry]
      exact iff_of_true ⟨rfl, rfl⟩ (.inl withdraws)
    · rename_i announces
      have kept := foldAdvert_stale now (published i).blob (published i).bound
        listed stale
      rw [(published i).ofShare] at kept
      rw [kept]
      exact ⟨.inr, fun h => h.resolve_left announces⟩

/-! ## An older envelope after the newest one -/

@[irreducible] def sharerKey : Octets := List.replicate pkLen 7

@[irreducible] def sharerSignature : Octets := List.replicate sigLen 9

theorem sharerKey_length : sharerKey.length = pkLen := by
  unfold sharerKey
  exact List.length_replicate

theorem sharerSignature_length : sharerSignature.length = sigLen := by
  unfold sharerSignature
  exact List.length_replicate

def sharedId : String := String.ofList (showHex (List.replicate 16 0xAB))

/-- The announcement of a share, first or a minute later. -/
def sharedAnn (later : Bool) : ShareAnnouncement where
  room := defaultRoom
  senderPubkey := sharerKey
  senderHandle := ""
  shareId := sharedId
  name := "films"
  rating := "PG"
  withdraw := false
  sentUnixMs := if later then 1700000060000 else 1700000000000
  signature := sharerSignature
  rootCommitment := List.replicate rootCommitmentLen 3

/-- The announcement in the wire schema. -/
def sharedEncoded (later : Bool) : Octets :=
  [0x0A, 5] ++ utf8 "lobby" ++ [0x12, 0xA0, 0x14] ++ sharerKey ++ [0x22, 32] ++ utf8 sharedId ++
    [0x2A, 5] ++ utf8 "films" ++ [0x32, 2] ++ utf8 "PG" ++
    [0x40] ++ (if later then [0xE0, 0xA4, 0x99, 0xFF, 0xBC, 0x31]
      else [0x80, 0xD0, 0x95, 0xFF, 0xBC, 0x31]) ++
    [0x4A, 0x93, 0x24] ++ sharerSignature ++ [0x52, 48] ++ List.replicate rootCommitmentLen 3

def sharedEnvelope (later : Bool) : DiscoveryEnvelope where
  sealedAnnouncement :=
    List.replicate nonceLen 0 ++ sharedEncoded later ++ List.replicate tagLen 0
  routeBlob := if later then [2] else [1]
  routeSig := sharerSignature

def sharedPrimitives : Primitives where
  gcmDecrypt _ _ _ ciphertext _ := .ok ciphertext
  verifySignature _ _ _ := true
  sha384 _ := List.replicate 48 0xAB
  decodeRoomMessage _ := none
  decodeHeartbeat _ := none
  decodeAnnouncement encoded :=
    if encoded = sharedEncoded true then some (sharedAnn true)
    else if encoded = sharedEncoded false then some (sharedAnn false) else none

def sharedRoomKey : Octets := List.replicate 32 1

theorem sharedEncoded_length (later : Bool) : (sharedEncoded later).length = 7334 := by
  have time : (if later then [0xE0, 0xA4, 0x99, 0xFF, 0xBC, 0x31]
      else [0x80, 0xD0, 0x95, 0xFF, 0xBC, 0x31] : Octets).length = 6 := by cases later <;> rfl
  have id : (utf8 sharedId).length = 32 := by decide
  have words : (utf8 "lobby").length = 5 ∧ (utf8 "films").length = 5 ∧ (utf8 "PG").length = 2 := by
    decide
  simp only [sharedEncoded, List.length_append, sharerKey_length, sharerSignature_length, time, id,
    words, List.length_replicate, List.length_cons, List.length_nil, pkLen, sigLen,
    rootCommitmentLen]

theorem sharedEncoded_ne : sharedEncoded false ≠ sharedEncoded true := by
  intro e
  unfold sharedEncoded at e
  simp only [List.append_assoc, List.append_cancel_left_eq] at e
  exact absurd e (by simp)

theorem sharedEncoded_decoded (later : Bool) :
    sharedPrimitives.decodeAnnouncement (sharedEncoded later) = some (sharedAnn later) := by
  cases later with
  | true => exact if_pos rfl
  | false => exact (if_neg sharedEncoded_ne).trans (if_pos rfl)

theorem sharedEnvelope_opens (later : Bool) :
    openAnnouncement sharedPrimitives sharedRoomKey (sharedEnvelope later).sealedAnnouncement =
      .ok (sharedAnn later) := by
  refine openAnnouncement_ok.2 ⟨?_, sharerKey_length, sharerSignature_length, rfl⟩
  have opened : openEnvelope sharedPrimitives sharedRoomKey shareAnnounceAad
      (sharedEnvelope later).sealedAnnouncement = .ok (sharedEncoded later) :=
    openEnvelope_append (by simp) (by simp)
  unfold carriedAnnouncement
  rw [opened]
  refine bind_ok.2 ⟨sharedEncoded later, rfl, ?_⟩
  rw [sharedEncoded_decoded]
  rfl

theorem sharedEnvelope_decodes (later : Bool) :
    DiscoveryEnvelope.decode (sharedEnvelope later).encode = some (sharedEnvelope later) := by
  refine DiscoveryEnvelope.decode_encode ?_ ?_ ?_
  · simp only [sharedEnvelope, List.length_append, List.length_replicate, sharedEncoded_length]
    decide
  · cases later <;> decide
  · show sharerSignature.length < 256 ^ 4
    rw [sharerSignature_length]
    decide

theorem sharedEnvelope_advertised (later : Bool) :
    verifyRouteAdvert sharedPrimitives sharerKey sharedId (sharedEnvelope later).routeBlob
      (sharedEnvelope later).routeSig = true := by
  show (sharerKey.length == pkLen && sharerSignature.length == sigLen && true) = true
  rw [sharerKey_length, sharerSignature_length]
  rfl

/-- What the sharer published, first and then again with another route. -/
def sharedPublication (later : Bool) :
    Publication sharedPrimitives sharedRoomKey sharerKey sharedId where
  bytes := (sharedEnvelope later).encode
  env := sharedEnvelope later
  ann := sharedAnn later
  decodes := sharedEnvelope_decodes later
  opens := sharedEnvelope_opens later
  byOwner := rfl
  ofShare := rfl
  bound := rfl
  advertised := sharedEnvelope_advertised later

def sharedPublished (i : Nat) : Publication sharedPrimitives sharedRoomKey sharerKey sharedId :=
  sharedPublication (i != 0)

def sharedShares : ShareState Nat :=
  { ShareState.new presenceTtl with lobby := some ⟨sharedRoomKey, .new presenceTtl⟩ }

theorem sharedShares_reads : Reads sharedShares sharedRoomKey sharerKey :=
  ⟨⟨_, rfl, rfl⟩, rfl⟩

theorem sharedPublished_stamped : Stamped sharedPublished := by
  intro i j le
  cases i with
  | zero =>
    cases j with
    | zero => exact le_refl _
    | succ j =>
      show (1700000000000 : Int64).toInt ≤ (1700000060000 : Int64).toInt
      decide
  | succ i =>
    cases j with
    | zero => omega
    | succ j => exact le_refl _

theorem sharedShares_holds : Holds sharedShares sharerKey sharedId none := by
  refine ⟨rfl, ?_, rfl⟩
  intro share e
  cases e

theorem sharedPublished_route : (sharedPublished 1).route = some [2] := rfl

theorem sharedPublished_blob : (sharedPublished 0).blob = [1] := rfl

/-- The second publication is received, then a copy of the first: the route of the first is
held. -/
theorem older_route_held :
    ¬ HoldsNewest sharedPublished (newest [(1, 0), (0, 1)])
      (receiveAll sharedPublished sharedShares [(1, 0), (0, 1)]) := by
  refine older_received sharedShares_reads sharedShares_holds Nat.one_pos rfl ?_
  rw [sharedPublished_route, sharedPublished_blob]
  simp

theorem newest_route_iff_once :
    HoldsNewest sharedPublished (newest [(0, 0)])
      (receiveAll sharedPublished sharedShares [(0, 0)]) :=
  ((newest_route_iff sharedPublished sharedPublished_stamped sharedShares sharedShares_reads).1
    rfl rfl [(0, 0)]).2 ⟨trivial, trivial⟩ [(0, 0)] [] rfl

end Daemonseed.Room.Newest
