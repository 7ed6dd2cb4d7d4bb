import Daemonseed.Room.Fetches
import Daemonseed.Room.Newest

/-! # When an imported route is released

The guard counts the browse fetches of a share and lets its routes go when none
is under way. It knows nothing of downloads, nor that one id may stand for the
routes of two shares. -/
namespace Daemonseed.Room.RouteUse
open Daemonseed.Lib.Bytes Daemonseed.Lib.Maps Daemonseed.Lib.Results Daemonseed.Room.Catalog Daemonseed.Room.Fetches
  Daemonseed.Room.Inbound Daemonseed.Room.Newest Daemonseed.Room.Presence
  Daemonseed.Room.RouteGuard Daemonseed.Room.Sealed Daemonseed.Room.Wire
open Daemonseed.Room.Listed (folded lookup_apply)

variable {R : Type}

/-! ## What the frames of the lobby give up -/

/-- A share listed has a route. -/
def Routed (shares : ShareState R) : Prop :=
  ∀ id, (shares.catalog.entries.lookup id).isSome → (shares.discovered.lookup id).isSome

/-- The share's route is replaced by another one, or the share is gone. -/
def Unroutes (shares shares' : ShareState R) (share : String) : Prop :=
  ∃ d, shares.discovered.lookup share = some d ∧
    ∀ d', shares'.discovered.lookup share = some d' → d'.routeBlob ≠ d.routeBlob

/-- What a step of the shares does at the guard: it gives up the routes of the idle shares
that lose theirs, and no other. -/
structure Settled (shares shares' : ShareState R) : Prop where
  kept : shares'.routeGuard.Kept
  routed : Routed shares'
  counts : ∀ share,
    (shares'.routeGuard.entry share).inFlight = (shares.routeGuard.entry share).inFlight
  released : ∀ r, r ∈ shares'.pendingRouteReleases ↔
    ∃ share, Unroutes shares shares' share ∧ r ∈ (shares.routeGuard.entry share).idleRoute
  once : ∀ [DecidableEq R] (r : R),
    shares'.pendingRouteReleases.count r + shares'.routeGuard.heldBy r ≤ shares.routeGuard.heldBy r

variable {P : Primitives} {shares shares' : ShareState R} {ann : ShareAnnouncement}
variable {blob : Octets} {now : Instant}

theorem not_unroutes (same : ∀ id, (shares'.discovered.lookup id).map (·.routeBlob) =
    (shares.discovered.lookup id).map (·.routeBlob)) (share : String) :
    ¬ Unroutes shares shares' share := by
  rintro ⟨d, found, other⟩
  have here := same share
  rw [found] at here
  obtain ⟨d', found', blob⟩ := Option.map_eq_some_iff.1 here
  exact other d' found' blob

/-- What leaves the guard and the routes alone gives up nothing. -/
theorem settled_quiet (kept : shares.routeGuard.Kept) (routed : Routed shares')
    (clear : shares.pendingRouteReleases = [])
    (guard : shares'.routeGuard = shares.routeGuard)
    (pending : shares'.pendingRouteReleases = shares.pendingRouteReleases)
    (same : ∀ id, (shares'.discovered.lookup id).map (·.routeBlob) =
      (shares.discovered.lookup id).map (·.routeBlob)) :
    Settled shares shares' where
  kept := guard ▸ kept
  routed := routed
  counts share := by rw [guard]
  released r := by
    rw [pending, clear]
    refine iff_of_false List.not_mem_nil ?_
    rintro ⟨share, unroutes, -⟩
    exact not_unroutes same share unroutes
  once r := by
    rw [pending, clear, guard]
    simp

theorem folded_isSome {listing : Option DiscoveredShare} (h : (folded listing ann now).isSome) :
    ann.withdraw = false ∨ listing.isSome := by
  cases listing with
  | none =>
    cases withdraw : ann.withdraw with
    | true => simp [folded, withdraw] at h
    | false => exact .inl rfl
  | some share => exact .inr rfl

theorem foldWithdraw_settled (kept : shares.routeGuard.Kept) (routed : Routed shares)
    (clear : shares.pendingRouteReleases = []) (bound : shareBindingIsValid P.sha384 ann = true)
    (withdraws : ann.withdraw = true) : Settled shares (shares.foldWithdraw P ann now) := by
  have listing : ∀ id, (shares.foldWithdraw P ann now).catalog.entries.lookup id =
      if id = ann.shareId then folded (shares.catalog.entries.lookup id) ann now
      else shares.catalog.entries.lookup id := by
    intro id
    rw [(Provenance.foldWithdraw_catalog ann).1, applyVerified_bound _ _ bound]
    exact lookup_apply
  by_cases removed : (shares.catalog.applyVerified P.sha384 ann now).1 = .removed
  · have gone := (apply_removed shares now withdraws).1
      (applyVerified_bound shares now bound ▸ removed)
    obtain ⟨share, listed, mine, fresh⟩ := gone
    obtain ⟨d, found⟩ := Option.isSome_iff_exists.1 (routed ann.shareId (by rw [listed]; rfl))
    obtain ⟨released, kept', counts, once⟩ := ImportedRouteGuard.withdrawn_spec ann.shareId kept
    have guard : (shares.foldWithdraw P ann now).routeGuard =
        (shares.routeGuard.noteShareWithdrawn ann.shareId).2 := by
      simp [ShareState.foldWithdraw, removed]
    have pending : (shares.foldWithdraw P ann now).pendingRouteReleases =
        (shares.routeGuard.noteShareWithdrawn ann.shareId).1.toList := by
      simp [ShareState.foldWithdraw, removed, clear]
    refine ⟨guard ▸ kept', ?_, fun share => by rw [guard]; exact counts share, ?_, ?_⟩
    · intro id some_
      rw [listing] at some_
      rw [foldWithdraw_discovered]
      split at some_
      · rename_i own
        subst own
        have none_ : folded (shares.catalog.entries.lookup ann.shareId) ann now = none := by
          rw [listed]
          simp [folded, mine, fresh, withdraws]
        rw [none_] at some_
        cases some_
      · rename_i ne
        rw [if_neg (fun h => ne h.2)]
        exact routed id some_
    · intro r
      rw [pending, released]
      constructor
      · intro mem
        refine ⟨ann.shareId, ⟨d, found, ?_⟩, mem⟩
        intro d' found'
        rw [foldWithdraw_discovered, if_pos ⟨removed, rfl⟩] at found'
        cases found'
      · rintro ⟨other, ⟨d', found', differs⟩, mem⟩
        by_cases own : other = ann.shareId
        · exact own ▸ mem
        · refine absurd rfl (differs d' ?_)
          rw [foldWithdraw_discovered, if_neg (fun h => own h.2)]
          exact found'
    · intro _ r
      rw [pending, guard]
      exact once r
  · have same : shares.foldWithdraw P ann now =
        { shares with catalog := (shares.catalog.applyVerified P.sha384 ann now).2 } := by
      simp [ShareState.foldWithdraw, removed]
    refine settled_quiet kept ?_ clear (by rw [same]) (by rw [same]) (by rw [same]; exact fun _ => rfl)
    intro id some_
    rw [listing] at some_
    rw [same]
    split at some_
    · rcases folded_isSome some_ with announces | some_
      · rw [withdraws] at announces
        cases announces
      · exact routed id some_
    · exact routed id some_

theorem apply_unchanged (listed : (shares.catalog.apply ann now).1 = .unchanged)
    (announces : ann.withdraw = false) : (shares.catalog.entries.lookup ann.shareId).isSome := by
  cases found : shares.catalog.entries.lookup ann.shareId with
  | none =>
    rw [apply_added found announces] at listed
    cases listed
  | some share => rfl

theorem foldAdvert_settled (kept : shares.routeGuard.Kept) (routed : Routed shares)
    (clear : shares.pendingRouteReleases = []) (bound : shareBindingIsValid P.sha384 ann = true)
    (announces : ann.withdraw = false) : Settled shares (shares.foldAdvert P ann blob now) := by
  have route := foldAdvert_discovered (P := P) shares now ann blob (fun quiet => routed _
      (apply_unchanged (applyVerified_bound shares now bound ▸ quiet) announces))
  have routed' : Routed (shares.foldAdvert P ann blob now) := by
    intro id some_
    by_cases own : id = ann.shareId
    · rw [own]
      obtain ⟨d, found, -⟩ := Option.map_eq_some_iff.1 route
      rw [found]
      rfl
    · rw [(Provenance.foldAdvert_catalog ann blob).1, applyVerified_bound _ _ bound, lookup_apply,
        if_neg own] at some_
      rw [foldAdvert_discovered_other own]
      exact routed id some_
  by_cases replaced : (shares.discovered.lookup ann.shareId).any (fun d => d.routeBlob ≠ blob) = true
  · obtain ⟨released, kept', counts, once⟩ :=
      ImportedRouteGuard.replaced_spec ann.shareId kept
    have guard : (shares.foldAdvert P ann blob now).routeGuard =
        (shares.routeGuard.noteAdvertReplaced ann.shareId).2 := by
      simp only [ShareState.foldAdvert, replaced, or_true, if_true]
      rfl
    have pending : (shares.foldAdvert P ann blob now).pendingRouteReleases =
        (shares.routeGuard.noteAdvertReplaced ann.shareId).1.toList := by
      simp only [ShareState.foldAdvert, replaced, or_true, if_true]
      show shares.pendingRouteReleases ++ _ = _
      rw [clear]
      rfl
    refine ⟨guard ▸ kept', routed', fun share => by rw [guard]; exact counts share, ?_, ?_⟩
    · intro r
      rw [pending, released]
      obtain ⟨d, found, other⟩ := (Option.any_eq_true _ _).1 replaced
      constructor
      · intro mem
        refine ⟨ann.shareId, ⟨d, found, ?_⟩, mem⟩
        intro d' found' same
        rw [found'] at route
        have blob_ : d'.routeBlob = blob := Option.some.inj route
        exact of_decide_eq_true other (same.symm.trans blob_)
      · rintro ⟨share, ⟨d', found', differs⟩, mem⟩
        by_cases own : share = ann.shareId
        · exact own ▸ mem
        · refine absurd rfl (differs d' ?_)
          rw [foldAdvert_discovered_other own]
          exact found'
    · intro _ r
      rw [pending, guard]
      exact once r
  · rw [Bool.not_eq_true] at replaced
    have guard : (shares.foldAdvert P ann blob now).routeGuard = shares.routeGuard ∧
        (shares.foldAdvert P ann blob now).pendingRouteReleases = shares.pendingRouteReleases := by
      simp only [ShareState.foldAdvert, replaced, Bool.false_eq_true, or_false, if_false]
      split <;> exact ⟨rfl, rfl⟩
    -- where there was a route before, it is the one announced
    have gained : ∀ share, ¬ Unroutes shares (shares.foldAdvert P ann blob now) share := by
      rintro share ⟨d, found, differs⟩
      by_cases own : share = ann.shareId
      · subst own
        obtain ⟨d', found', blob'⟩ := Option.map_eq_some_iff.1 route
        have same : d.routeBlob = blob := by
          rw [found] at replaced
          simpa using replaced
        exact differs d' found' (blob'.trans same.symm)
      · refine differs d ?_ rfl
        rw [foldAdvert_discovered_other own]
        exact found
    refine ⟨guard.1 ▸ kept, routed', fun share => by rw [guard.1], ?_, ?_⟩
    · intro r
      rw [guard.2, clear]
      refine iff_of_false List.not_mem_nil ?_
      rintro ⟨share, unroutes, -⟩
      exact gained share unroutes
    · intro _ r
      rw [guard.1, guard.2, clear]
      simp

/-! ## Any frame -/

variable {circles : List VeilidCircle} {nowUnixMs : Int} {bytes : Octets}

/-- What does not touch the shares. -/
theorem settled_same (kept : shares.routeGuard.Kept) (routed : Routed shares)
    (clear : shares.pendingRouteReleases = []) (catalog : shares'.catalog = shares.catalog)
    (discovered : shares'.discovered = shares.discovered)
    (guard : shares'.routeGuard = shares.routeGuard)
    (pending : shares'.pendingRouteReleases = shares.pendingRouteReleases) :
    Settled shares shares' := by
  refine settled_quiet kept ?_ clear guard pending (by rw [discovered]; exact fun _ => rfl)
  intro id some_
  rw [catalog] at some_
  rw [discovered]
  exact routed id some_

variable (now circles nowUnixMs bytes) in
theorem handleInbound_settled (kept : shares.routeGuard.Kept) (routed : Routed shares)
    (clear : shares.pendingRouteReleases = []) :
    Settled shares (shares.handleInbound P circles now nowUnixMs bytes).1 := by
  have quiet : Settled shares shares := settled_same kept routed clear rfl rfl rfl rfl
  unfold ShareState.handleInbound
  split
  · exact quiet
  · split
    · exact quiet
    · split
      · unfold ShareState.foldLobbyMessage
        split
        · exact quiet
        · split
          · exact settled_same kept routed clear rfl rfl rfl rfl
          · exact quiet
      · split
        · unfold ShareState.foldHeartbeat
          split
          · exact settled_same kept routed clear rfl rfl rfl rfl
          · exact quiet
        · unfold ShareState.applyDiscovery
          split
          · exact quiet
          · split
            · exact quiet
            · split
              · exact quiet
              · split
                · exact quiet
                · split
                  · exact quiet
                  · rename_i bound
                    simp only [Bool.not_eq_true', Bool.not_eq_false] at bound
                    split
                    · rename_i withdraws
                      exact foldWithdraw_settled kept routed clear bound withdraws
                    · rename_i announces
                      split
                      · exact quiet
                      · exact foldAdvert_settled kept routed clear bound
                          (by simpa using announces)

/-! ## The session -/

/-- The fetches of the share counted at the guard: those that run and those that ended and are
not folded yet. -/
def fetches (s : Session R) (share : String) : Nat :=
  s.browsing.countP (·.shareId = share) + s.outcomes.countP (·.shareId = share)

structure Inv (s : Session R) : Prop where
  kept : s.shares.routeGuard.Kept
  routed : Routed s.shares
  clear : s.shares.pendingRouteReleases = []
  counted : ∀ share, (s.shares.routeGuard.entry share).inFlight = fetches s share

/-- The import that folding an outcome records. -/
def recorded (s : Session R) (outcome : FetchOutcome R) : Option R :=
  if s.shares.current outcome then outcome.route else none

def recordedBy (s : Session R) : Act → Option R
  | .foldsFetch i _ => s.outcomes[i]?.bind (recorded s)
  | _ => none

variable (P) (routeOf : Octets → R)

/-- The guard gives up a route of the share: what its last fetch left to be given up, or the
route that the share loses while no fetch of it is under way. -/
inductive GivenUp (s : Session R) : Act → String → R → Prop
  | completed {i : Nat} {now : Instant} {outcome : FetchOutcome R} {r : R}
      (folds : s.outcomes[i]? = some outcome)
      (last : r ∈ (s.shares.routeGuard.entry outcome.shareId).givenUp (recorded s outcome)) :
      GivenUp s (.foldsFetch i now) outcome.shareId r
  | unrouted {circles : List VeilidCircle} {now : Instant} {nowUnixMs : Int} {bytes : Octets}
      {share : String} {r : R}
      (loses : Unroutes s.shares (s.shares.handleInbound P circles now nowUnixMs bytes).1 share)
      (idle : r ∈ (s.shares.routeGuard.entry share).idleRoute) :
      GivenUp s (.inbound circles now nowUnixMs bytes) share r

/-- What a turn does before its releases go out. -/
structure Turn (s : Session R) (a : Act) (s' : Session R) : Prop where
  kept : s'.shares.routeGuard.Kept
  routed : Routed s'.shares
  counted : ∀ share, (s'.shares.routeGuard.entry share).inFlight = fetches s' share
  released : ∀ r, r ∈ s'.shares.pendingRouteReleases ↔ ∃ share, GivenUp P s a share r
  once : ∀ [DecidableEq R] (r : R),
    s'.shares.pendingRouteReleases.count r + s'.shares.routeGuard.heldBy r ≤
      s.shares.routeGuard.heldBy r + (recordedBy s a).toList.count r

variable {P routeOf} {s s' : Session R} {a : Act}

/-- A turn that neither hears of the lobby nor folds a fetch. -/
theorem turn_quiet (kept : s'.shares.routeGuard.Kept) (routed : Routed s'.shares)
    (clear : s'.shares.pendingRouteReleases = [])
    (counted : ∀ share, (s'.shares.routeGuard.entry share).inFlight = fetches s' share)
    (held : ∀ [DecidableEq R] (r : R),
      s'.shares.routeGuard.heldBy r = s.shares.routeGuard.heldBy r)
    (none_ : ∀ share r, ¬ GivenUp P s a share r) : Turn P s a s' where
  kept := kept
  routed := routed
  counted := counted
  released r := by
    rw [clear]
    refine iff_of_false List.not_mem_nil ?_
    rintro ⟨share, up⟩
    exact none_ share r up
  once r := by
    rw [clear, held]
    simp

/-- A turn that leaves the guard alone. -/
theorem turn_same (inv : Inv s) (guard : s'.shares.routeGuard = s.shares.routeGuard)
    (routed : Routed s'.shares)
    (pending : s'.shares.pendingRouteReleases = s.shares.pendingRouteReleases)
    (counted : ∀ share, fetches s' share = fetches s share)
    (none_ : ∀ share r, ¬ GivenUp P s a share r) : Turn P s a s' :=
  turn_quiet (guard ▸ inv.kept) routed (pending.trans inv.clear)
    (fun share => by rw [guard, counted]; exact inv.counted share) (fun r => by rw [guard]) none_

theorem routed_discovered {shares shares' : ShareState R} (routed : Routed shares)
    (catalog : ∀ id, (shares'.catalog.entries.lookup id).isSome →
      (shares.catalog.entries.lookup id).isSome)
    (discovered : ∀ id, (shares.discovered.lookup id).isSome →
      (shares'.discovered.lookup id).isSome) : Routed shares' :=
  fun id listed => discovered id (routed id (catalog id listed))

theorem insert_isSome {id share : String} {d : DiscoveredRoute}
    {discovered : Map String DiscoveredRoute} (h : (discovered.lookup id).isSome) :
    ((discovered.insert share d).lookup id).isSome := by
  by_cases own : id = share
  · rw [own, AList.lookup_insert]
    rfl
  · rw [AList.lookup_insert_ne own]
    exact h

theorem markShareUnresolved_discovered {id share name : String}
    (h : (shares.discovered.lookup id).isSome) :
    ((shares.markShareUnresolved share name now).discovered.lookup id).isSome := by
  unfold ShareState.markShareUnresolved
  split
  · exact h
  · exact insert_isSome h

theorem clearShareUnresolved_discovered {id share : String}
    (h : (shares.discovered.lookup id).isSome) :
    ((shares.clearShareUnresolved share).discovered.lookup id).isSome := by
  simp only [ShareState.clearShareUnresolved]
  split
  · split
    · exact insert_isSome h
    · exact h
  · exact h

variable (shares now) in
/-- What an outcome's fold leaves besides the guard. -/
theorem markShareUnresolved_frame (share name : String) :
    (shares.markShareUnresolved share name now).routeGuard = shares.routeGuard ∧
      (shares.markShareUnresolved share name now).pendingRouteReleases =
        shares.pendingRouteReleases ∧
      (shares.markShareUnresolved share name now).catalog = shares.catalog := by
  unfold ShareState.markShareUnresolved
  split <;> exact ⟨rfl, rfl, rfl⟩

variable (shares now) in
theorem foldFetchOutcome_spec (outcome : FetchOutcome R) :
    let after := shares.foldFetchOutcome outcome now
    let finished := shares.routeGuard.noteFetchFinished outcome.shareId
      (if shares.current outcome then outcome.route else none)
    after.routeGuard = finished.2 ∧
      after.pendingRouteReleases = shares.pendingRouteReleases ++ finished.1 ∧
      (Routed shares → Routed after) := by
  unfold ShareState.foldFetchOutcome
  by_cases current : shares.current outcome = true
  · simp only [current, if_true]
    cases outcome with
    | manifest shareId name generation route =>
      refine ⟨rfl, rfl, fun routed => ?_⟩
      exact routed_discovered routed (fun _ => id) (fun _ => clearShareUnresolved_discovered)
    | manifestFailed shareId name generation route =>
      dsimp only
      obtain ⟨guard, pending, catalog⟩ :=
        markShareUnresolved_frame (shares.closeFetch shareId (some route)) now shareId name
      refine ⟨guard, pending, fun routed => routed_discovered routed (fun id h => ?_) (fun id h => ?_)⟩
      · rw [catalog] at h
        exact h
      · exact markShareUnresolved_discovered h
    | importFailed shareId name generation =>
      dsimp only
      obtain ⟨guard, pending, catalog⟩ :=
        markShareUnresolved_frame (shares.closeFetch shareId none) now shareId name
      refine ⟨guard, pending, fun routed => routed_discovered routed (fun id h => ?_) (fun id h => ?_)⟩
      · rw [catalog] at h
        exact h
      · exact markShareUnresolved_discovered h
  · simp only [current, Bool.false_eq_true, if_false]
    split <;> exact ⟨rfl, rfl, fun routed => routed⟩

theorem countP_eraseIdx {α : Type} {p : α → Bool} {l : List α} {i : Nat} {x : α}
    (h : l[i]? = some x) : (l.eraseIdx i).countP p + (if p x then 1 else 0) = l.countP p := by
  obtain ⟨lt, rfl⟩ := List.getElem?_eq_some_iff.1 h
  rw [← (List.getElem_cons_eraseIdx_perm lt).countP_eq, List.countP_cons]

/-! ## One turn -/

theorem routed_frame {shares shares' : ShareState R} (routed : Routed shares)
    (catalog : shares'.catalog = shares.catalog) (discovered : shares'.discovered = shares.discovered) :
    Routed shares' :=
  routed_discovered routed (fun id h => by rwa [catalog] at h) (fun id h => by rwa [discovered])

theorem fetchShare_turn (inv : Inv s) (shareId name : String) :
    Turn P s (.fetchShare shareId name) (s.spawnFetchShare shareId name) := by
  have none_ : ∀ share r, ¬ GivenUp P s (.fetchShare shareId name) share r := by
    intro share r up
    cases up
  unfold Session.spawnFetchShare
  split
  · exact turn_same inv rfl inv.routed rfl (fun _ => rfl) none_
  · rename_i transfer spawned
    obtain ⟨kept, counts, held⟩ := ImportedRouteGuard.started_spec shareId inv.kept
    have named : transfer.shareId = shareId := by
      unfold Session.transferOf at spawned
      split at spawned
      · cases spawned
      · split at spawned
        · cases spawned
        · obtain ⟨d, -, rfl⟩ := Option.map_eq_some_iff.1 spawned
          rfl
    refine turn_quiet kept (routed_frame inv.routed rfl rfl) inv.clear ?_ held none_
    intro share
    rw [counts share, inv.counted share]
    simp only [fetches, List.countP_append, List.countP_singleton, named, decide_eq_true_eq]
    by_cases own : share = shareId
    · rw [if_pos own, if_pos own.symm]
      omega
    · rw [if_neg own, if_neg (Ne.symm own)]
      omega

theorem confirmFetch_turn (inv : Inv s) (shareId name : String) :
    Turn P s (.confirmFetch shareId name) (s.spawnConfirmFetch shareId name) := by
  have none_ : ∀ share r, ¬ GivenUp P s (.confirmFetch shareId name) share r := by
    intro share r up
    cases up
  unfold Session.spawnConfirmFetch
  split <;> exact turn_same inv rfl inv.routed rfl (fun _ => rfl) none_

theorem importAt_countP {transfers : List (Transfer R)} {i : Nat} {share : String} :
    (Session.importAt routeOf transfers i).countP (·.shareId = share) =
      transfers.countP (·.shareId = share) := by
  unfold Session.importAt
  induction transfers generalizing i with
  | nil => simp
  | cons t transfers ih =>
    cases i with
    | zero => simp [List.countP_cons]
    | succ i => simp only [List.modify_succ_cons, List.countP_cons, ih]

/-- A task that ends hands its place to its outcome. -/
theorem browseEnd_turn (inv : Inv s) (i : Nat) {report : Transfer R → FetchOutcome R}
    (named : ∀ t, (report t).shareId = t.shareId)
    (none_ : ∀ share r, ¬ GivenUp P s a share r) : Turn P s a (s.browseEnd i report) := by
  unfold Session.browseEnd
  split
  · exact turn_same inv rfl inv.routed rfl (fun _ => rfl) none_
  · rename_i transfer running
    refine turn_same inv rfl inv.routed rfl ?_ none_
    intro share
    have count := countP_eraseIdx (p := (·.shareId = share)) running
    simp only [fetches, List.countP_append, List.countP_singleton, named]
    omega

theorem foldsFetch_turn (inv : Inv s) {i : Nat} {outcome : FetchOutcome R}
    (folds : s.outcomes[i]? = some outcome) :
    Turn P s (.foldsFetch i now)
      { s with
        shares := s.shares.foldFetchOutcome outcome now, outcomes := s.outcomes.eraseIdx i } := by
  have count (share : String) := countP_eraseIdx (p := (·.shareId = share)) folds
  have counted : 0 < (s.shares.routeGuard.entry outcome.shareId).inFlight := by
    rw [inv.counted]
    have own := count outcome.shareId
    simp only [decide_true, if_true] at own
    unfold fetches
    omega
  obtain ⟨released, kept, counts, once⟩ :=
    ImportedRouteGuard.finished_spec (recorded s outcome) inv.kept counted
  obtain ⟨guard, pending, routed⟩ := foldFetchOutcome_spec s.shares now outcome
  change _ = (s.shares.routeGuard.noteFetchFinished outcome.shareId (recorded s outcome)).2 at guard
  change _ = _ ++ (s.shares.routeGuard.noteFetchFinished outcome.shareId (recorded s outcome)).1
    at pending
  rw [inv.clear, List.nil_append] at pending
  refine ⟨guard ▸ kept, routed inv.routed, ?_, ?_, ?_⟩
  · intro share
    show ((s.shares.foldFetchOutcome outcome now).routeGuard.entry share).inFlight = _
    rw [guard, counts share, inv.counted share]
    have own := count share
    simp only [fetches]
    by_cases same : share = outcome.shareId
    · rw [if_pos same]
      rw [if_pos (by simpa using same.symm)] at own
      omega
    · rw [if_neg same]
      rw [if_neg (by simpa using Ne.symm same)] at own
      omega
  · intro r
    show r ∈ (s.shares.foldFetchOutcome outcome now).pendingRouteReleases ↔ _
    rw [pending, released]
    constructor
    · intro mem
      exact ⟨outcome.shareId, .completed folds mem⟩
    · rintro ⟨share, up⟩
      cases up with
      | completed folds' last =>
        cases folds.symm.trans folds'
        exact last
  · intro _ r
    show List.count r (s.shares.foldFetchOutcome outcome now).pendingRouteReleases +
      (s.shares.foldFetchOutcome outcome now).routeGuard.heldBy r ≤ _
    rw [pending, guard]
    have by_ : recordedBy s (.foldsFetch i now) = recorded s outcome := by
      simp only [recordedBy, folds, Option.bind_some]
    rw [by_]
    exact once r

theorem inbound_turn (inv : Inv s) :
    Turn P s (.inbound circles now nowUnixMs bytes)
      { s with shares := (s.shares.handleInbound P circles now nowUnixMs bytes).1 } := by
  obtain ⟨kept, routed, counts, released, once⟩ :=
    handleInbound_settled (P := P) now circles nowUnixMs bytes inv.kept inv.routed inv.clear
  refine ⟨kept, routed, fun share => (counts share).trans (inv.counted share), ?_, once⟩
  intro r
  refine (released r).trans ?_
  constructor
  · rintro ⟨share, loses, idle⟩
    exact ⟨share, .unrouted loses idle⟩
  · rintro ⟨share, up⟩
    cases up with
    | unrouted loses idle => exact ⟨share, loses, idle⟩

variable (shares now) in
theorem foldConfirmOutcome_frame (outcome : ConfirmOutcome) :
    (shares.foldConfirmOutcome outcome now).routeGuard = shares.routeGuard ∧
      (shares.foldConfirmOutcome outcome now).pendingRouteReleases = shares.pendingRouteReleases ∧
      (Routed shares → Routed (shares.foldConfirmOutcome outcome now)) := by
  cases outcome with
  | complete shareId =>
    exact ⟨rfl, rfl, fun routed =>
      routed_discovered routed (fun _ => id) (fun _ => clearShareUnresolved_discovered)⟩
  | routeFailed shareId name =>
    obtain ⟨guard, pending, catalog⟩ := markShareUnresolved_frame shares now shareId name
    refine ⟨guard, pending, fun routed => routed_discovered routed (fun id h => ?_) (fun id h => ?_)⟩
    · unfold ShareState.foldConfirmOutcome at h
      rw [catalog] at h
      exact h
    · exact markShareUnresolved_discovered h
  | integrityFailed shareId => exact ⟨rfl, rfl, id⟩
  | localFailed => exact ⟨rfl, rfl, id⟩

theorem pruneCatalog_routed (routed : Routed shares) : Routed (shares.pruneCatalog now) := by
  refine routed_discovered routed (fun id h => ?_) (fun _ h => h)
  have kept : (shares.pruneCatalog now).catalog.entries.lookup id =
      (shares.catalog.entries.lookup id).filter _ := Listed.lookup_keep
  rw [kept] at h
  cases found : shares.catalog.entries.lookup id with
  | none =>
    rw [found] at h
    cases h
  | some share => rfl

variable (routeOf) in
/-- **One turn.** Whatever the session does, the guard's counts stay those of the fetches, what
it gives up is what the turn makes it give up, and no import is given up twice. -/
theorem turn (inv : Inv s) (a : Act) : Turn P s a (s.act P routeOf a) := by
  cases a with
  | connects signing =>
    exact turn_same inv rfl (routed_frame inv.routed rfl rfl) rfl (fun _ => rfl)
      (fun _ _ up => by cases up)
  | joins roomKey =>
    exact turn_same inv rfl (routed_frame inv.routed rfl rfl) rfl (fun _ => rfl)
      (fun _ _ up => by cases up)
  | disconnects =>
    exact turn_same inv rfl inv.routed rfl (fun _ => rfl) (fun _ _ up => by cases up)
  | inbound circles now nowUnixMs bytes => exact inbound_turn inv
  | fetchShare shareId name => exact fetchShare_turn inv shareId name
  | confirmFetch shareId name => exact confirmFetch_turn inv shareId name
  | browseImports i =>
    refine turn_same inv rfl inv.routed rfl ?_ (fun _ _ up => by cases up)
    intro share
    simp only [fetches, Session.act, importAt_countP]
  | browseEnds i fetched =>
    refine browseEnd_turn inv i ?_ (fun _ _ up => by cases up)
    intro t
    unfold Session.runFetch
    split
    · rfl
    · split <;> rfl
  | browsePanics i => exact browseEnd_turn inv i (fun _ => rfl) (fun _ _ up => by cases up)
  | foldsFetch i now =>
    unfold Session.act
    dsimp only
    split
    · rename_i none_
      refine turn_same inv rfl inv.routed rfl (fun _ => rfl) ?_
      intro share r up
      cases up with
      | completed folds last =>
        rw [none_] at folds
        cases folds
    · rename_i outcome folds
      exact foldsFetch_turn inv folds
  | downloadImports i =>
    exact turn_same inv rfl inv.routed rfl (fun _ => rfl) (fun _ _ up => by cases up)
  | downloadEnds i outcome =>
    exact turn_same inv rfl inv.routed rfl (fun _ => rfl) (fun _ _ up => by cases up)
  | foldsConfirm i now =>
    unfold Session.act
    dsimp only
    split
    · exact turn_same inv rfl inv.routed rfl (fun _ => rfl) (fun _ _ up => by cases up)
    · rename_i outcome _
      obtain ⟨guard, pending, routed⟩ := foldConfirmOutcome_frame s.shares now
        outcome
      exact turn_same inv guard (routed inv.routed) pending (fun _ => rfl)
        (fun _ _ up => by cases up)
  | prunes now =>
    exact turn_same inv rfl (pruneCatalog_routed inv.routed) rfl (fun _ => rfl)
      (fun _ _ up => by cases up)
  | ticks now =>
    exact turn_same inv rfl (routed_frame inv.routed rfl rfl) rfl (fun _ => rfl)
      (fun _ _ up => by cases up)

theorem inv_step (inv : Inv s) (a : Act) : Inv (s.step P routeOf a).1 := by
  have after := turn (P := P) routeOf inv a
  exact ⟨after.kept, after.routed, rfl, after.counted⟩

theorem inv_new (ttl : Duration) : Inv (Session.new ttl : Session R) where
  kept share e held := by cases held
  routed id listed := by cases listed
  clear := rfl
  counted share := rfl

/-- The routes of a share are given up while no fetch of it runs. -/
theorem GivenUp.idle (inv : Inv s) {share : String} {r : R} (up : GivenUp P s a share r)
    {t : Transfer R} (running : t ∈ s.browsing) : t.shareId ≠ share := by
  intro own
  have runs : 0 < s.browsing.countP (·.shareId = share) :=
    List.countP_pos_iff.2 ⟨t, running, by simpa using own⟩
  cases up with
  | @completed i now outcome r folds last =>
    have count := countP_eraseIdx (p := (·.shareId = outcome.shareId)) folds
    simp only [decide_true, if_true] at count
    unfold GuardEntry.givenUp at last
    rw [inv.counted] at last
    unfold fetches at last
    rw [if_neg (by omega)] at last
    cases last
  | unrouted loses idle =>
    unfold GuardEntry.idleRoute at idle
    rw [inv.counted] at idle
    unfold fetches at idle
    rw [if_neg (by omega)] at idle
    cases idle

/-! ## Runs -/

section

variable (P) (routeOf)

/-- A session with the releases it has issued and the imports it has recorded. -/
structure Account (R : Type) where
  session : Session R
  released : List R
  imported : List R

def Account.take (self : Account R) (a : Act) : Account R where
  session := (self.session.step P routeOf a).1
  released := self.released ++ (self.session.step P routeOf a).2
  imported := self.imported ++ (recordedBy self.session a).toList

def run (acts : List Act) (ttl : Duration) : Account R :=
  acts.foldl (Account.take P routeOf) ⟨.new ttl, [], []⟩

/-- No release of the turn is of a route that a running task has imported. -/
def Harmless (s : Session R) (a : Act) : Prop :=
  ∀ r ∈ (s.step P routeOf a).2,
    ∀ t ∈ (s.step P routeOf a).1.browsing ++ (s.step P routeOf a).1.downloading,
      t.imported ≠ some r

/-- While the session is connected, no route is given up that a running download, or a running
fetch of another share, has imported. -/
def Spared (s : Session R) (a : Act) : Prop :=
  s.connected = true → ∀ share r, GivenUp P s a share r →
    (∀ t ∈ s.downloading, t.imported ≠ some r) ∧
      ∀ t ∈ s.browsing, t.shareId ≠ share → t.imported ≠ some r

end

variable (routeOf) in
theorem inv_run (acts : List Act) (ttl : Duration) : Inv (run P routeOf acts ttl).session := by
  unfold run
  induction acts using List.reverseRecOn with
  | nil => exact inv_new ttl
  | append_singleton acts a ih =>
    rw [List.foldl_append]
    exact inv_step ih a

theorem run_session (acts : List Act) (ttl : Duration) :
    (run P routeOf acts ttl).session = acts.foldl (fun s a => (s.step P routeOf a).1) (.new ttl) := by
  unfold run
  induction acts using List.reverseRecOn with
  | nil => rfl
  | append_singleton acts a ih =>
    rw [List.foldl_append, List.foldl_append, ← ih]
    rfl

variable (routeOf) in
/-- The turns that give something up leave the running tasks as they are. -/
theorem GivenUp.tasks {share : String} {r : R} (up : GivenUp P s a share r) :
    (s.act P routeOf a).browsing = s.browsing ∧ (s.act P routeOf a).downloading = s.downloading ∧
      (s.act P routeOf a).connected = s.connected := by
  cases up with
  | completed folds last =>
    unfold Session.act
    dsimp only
    rw [folds]
    exact ⟨rfl, rfl, rfl⟩
  | unrouted loses idle => exact ⟨rfl, rfl, rfl⟩

variable (routeOf) in
theorem step_released (inv : Inv s) (r : R) : r ∈ (s.step P routeOf a).2 ↔
    s.connected = true ∧ ∃ share, GivenUp P s a share r := by
  have released := (turn (P := P) routeOf inv a).released r
  unfold Session.step Session.drainRouteReleases
  dsimp only
  split
  · rename_i on
    rw [released]
    constructor
    · rintro ⟨share, up⟩
      exact ⟨(up.tasks routeOf).2.2 ▸ on, share, up⟩
    · exact fun h => h.2
  · rename_i off
    refine iff_of_false List.not_mem_nil ?_
    rintro ⟨on, share, up⟩
    exact off ((up.tasks routeOf).2.2.trans on)

theorem harmless_iff (inv : Inv s) : Harmless P routeOf s a ↔ Spared P s a := by
  constructor
  · intro harmless on share r up
    have issued := (step_released routeOf inv r).2 ⟨on, share, up⟩
    obtain ⟨browsing, downloading, -⟩ := up.tasks routeOf
    have spared := harmless r issued
    have tasks : (s.step P routeOf a).1.browsing ++ (s.step P routeOf a).1.downloading =
        s.browsing ++ s.downloading := by
      show (s.act P routeOf a).browsing ++ (s.act P routeOf a).downloading = _
      rw [browsing, downloading]
    rw [tasks] at spared
    exact ⟨fun t mem => spared t (List.mem_append_right _ mem),
      fun t mem _ => spared t (List.mem_append_left _ mem)⟩
  · intro spared r issued t mem
    obtain ⟨on, share, up⟩ := (step_released _ inv r).1 issued
    obtain ⟨browsing, downloading, -⟩ := up.tasks routeOf
    have tasks : (s.step P routeOf a).1.browsing ++ (s.step P routeOf a).1.downloading =
        s.browsing ++ s.downloading := by
      show (s.act P routeOf a).browsing ++ (s.act P routeOf a).downloading = _
      rw [browsing, downloading]
    rw [tasks] at mem
    obtain ⟨downloads, others⟩ := spared on share r up
    rcases List.mem_append.1 mem with mem | mem
    · exact others t mem (up.idle inv mem)
    · exact downloads t mem

/-! ## Imports recorded and released -/

theorem released_held [DecidableEq R] (acts : List Act) (ttl : Duration) (r : R) :
    (run P routeOf acts ttl).released.count r +
        (run P routeOf acts ttl).session.shares.routeGuard.heldBy r ≤
      (run P routeOf acts ttl).imported.count r := by
  induction acts using List.reverseRecOn with
  | nil => exact Nat.le_refl _
  | append_singleton acts a ih =>
    have inv := inv_run (P := P) routeOf acts ttl
    have once := (turn (P := P) routeOf inv a).once r
    have issued : ((run P routeOf acts ttl).session.step P routeOf a).2.count r ≤
        ((run P routeOf acts ttl).session.act P routeOf a).shares.pendingRouteReleases.count r := by
      unfold Session.step Session.drainRouteReleases
      dsimp only
      split
      · exact Nat.le_refl _
      · exact Nat.zero_le _
    have last : run P routeOf (acts ++ [a]) ttl = (run P routeOf acts ttl).take P routeOf a :=
      List.foldl_append
    rw [last]
    show (_ ++ ((run P routeOf acts ttl).session.step P routeOf a).2).count r +
      ((run P routeOf acts ttl).session.act P routeOf a).shares.routeGuard.heldBy r ≤
        (_ ++ (recordedBy (run P routeOf acts ttl).session a).toList).count r
    rw [List.count_append, List.count_append]
    omega

/-! ## No entry without cause -/

theorem entry_tracks (inv : Inv s) {share : String} {e : GuardEntry R}
    (held : s.shares.routeGuard.entries.lookup share = some e) :
    e.route.isSome ∨ (∃ t ∈ s.browsing, t.shareId = share) ∨
      ∃ outcome ∈ s.outcomes, outcome.shareId = share := by
  obtain ⟨same, sound⟩ := ImportedRouteGuard.entry_sound inv.kept held
  refine sound.tracks.imp_right ?_
  intro busy
  have count := inv.counted share
  rw [same] at count
  unfold fetches at count
  have some_ : 0 < s.browsing.countP (·.shareId = share) ∨
      0 < s.outcomes.countP (·.shareId = share) := by omega
  simpa [List.countP_pos_iff] using some_

/-- **The guard spares the browse fetches of the share.** After any run, the next turn releases
no route that a running task has imported if and only if no route is given up that a download,
or a fetch of another share, has imported. Over any run no import recorded is released twice,
and no entry is kept of a share with neither a route nor a fetch. -/
theorem released_under_transfer_iff [DecidableEq R] (P : Primitives) (routeOf : Octets → R)
    (ttl : Duration) (acts : List Act) :
    (∀ a, Harmless P routeOf (run P routeOf acts ttl).session a ↔
      Spared P (run P routeOf acts ttl).session a) ∧
    (∀ r, (run P routeOf acts ttl).released.count r ≤ (run P routeOf acts ttl).imported.count r) ∧
    ∀ share e,
      (run P routeOf acts ttl).session.shares.routeGuard.entries.lookup share = some e →
        e.route.isSome ∨ (∃ t ∈ (run P routeOf acts ttl).session.browsing, t.shareId = share) ∨
          ∃ outcome ∈ (run P routeOf acts ttl).session.outcomes, outcome.shareId = share := by
  refine ⟨fun a => harmless_iff (inv_run _ acts ttl), fun r => ?_, fun share e held => ?_⟩
  · exact Nat.le_trans (Nat.le_add_right _ _) (released_held acts ttl r)
  · exact entry_tracks (inv_run _ acts ttl) held

/-! ## An advert replaced under a download -/

section

variable {share name : String} {disc : DiscoveredRoute} {t : Instant}

/-- A connected session that has discovered the share and fetches nothing. -/
structure Ready (s : Session R) (share : String) (disc : DiscoveredRoute) : Prop where
  connected : s.connected = true
  joined : s.shares.lobby ≠ none
  found : s.shares.discovered.lookup share = some disc
  resolved : disc.unresolved = false
  unguarded : s.shares.routeGuard.entries.lookup share = none
  idle : s.browsing = [] ∧ s.outcomes = [] ∧ s.downloading = []

variable (P routeOf) in
/-- The share browsed, then a download of it that has imported its route. -/
def browseThenDownload (s : Session R) (share name : String) (t : Instant) : Session R :=
  [Act.fetchShare share name, .browseImports 0, .browseEnds 0 true, .foldsFetch 0 t,
    .confirmFetch share name, .downloadImports 0].foldl (fun s a => (s.step P routeOf a).1) s

variable (routeOf name) in
theorem browseThenDownload_holds (ready : Ready s share disc) :
    let after := browseThenDownload P routeOf s share name t
    after.connected = true ∧ after.shares.lobby = s.shares.lobby ∧
      after.shares.signing = s.shares.signing ∧
      after.shares.discovered.lookup share = some disc ∧
      after.shares.routeGuard.entry share = ⟨some (routeOf disc.routeBlob), 0, none, false⟩ ∧
      after.downloading =
        [⟨share, name, disc.generation, disc.routeBlob, some (routeOf disc.routeBlob)⟩] := by
  obtain ⟨connected, joined, found, resolved, unguarded, browsing, outcomes, downloading⟩ := ready
  have notIdle : (⟨some (routeOf disc.routeBlob), 0, none, false⟩ : GuardEntry R).isEmpty = false := rfl
  simp [browseThenDownload, Session.step, Session.act, Session.drainRouteReleases,
    Session.spawnFetchShare, Session.spawnConfirmFetch, Session.transferOf, Session.importAt,
    Session.browseEnd, Session.runFetch, ShareState.foldFetchOutcome, ShareState.current,
    ShareState.closeFetch, ShareState.clearShareUnresolved, FetchOutcome.shareId,
    FetchOutcome.generation, ImportedRouteGuard.noteFetchStarted,
    ImportedRouteGuard.noteFetchFinished, ImportedRouteGuard.set, ImportedRouteGuard.settle,
    ImportedRouteGuard.entry, GuardEntry.default, connected, joined, found, resolved, unguarded,
    browsing, outcomes, downloading, notIdle]

variable (shares blob now) in
/-- The first announcement of a share. -/
theorem foldAdvert_first (bound : shareBindingIsValid P.sha384 ann = true)
    (announces : ann.withdraw = false) (unlisted : shares.catalog.entries.lookup ann.shareId = none)
    (undiscovered : shares.discovered.lookup ann.shareId = none) :
    (shares.foldAdvert P ann blob now).discovered.lookup ann.shareId =
        some ⟨blob, ann.senderPubkey, shares.nextGeneration + 1, false⟩ ∧
      (shares.foldAdvert P ann blob now).routeGuard = shares.routeGuard ∧
      (shares.foldAdvert P ann blob now).lobby = shares.lobby := by
  have added : (shares.catalog.applyVerified P.sha384 ann now).1 = .added := by
    rw [applyVerified_bound _ _ bound]
    exact apply_added unlisted announces
  simp [ShareState.foldAdvert, added, undiscovered]

/-- A frame that opens as no message and as no beacon is tried as a share's. -/
theorem handleInbound_discovery {lobby : LobbyRendezvous} (joined : shares.lobby = some lobby)
    (chat : ∀ encoded, P.decodeRoomMessage encoded = none)
    (beacon : ∀ encoded, P.decodeHeartbeat encoded = none) :
    (shares.handleInbound P [] now nowUnixMs bytes).1 = (shares.applyDiscovery P now bytes).2.1 := by
  unfold ShareState.handleInbound
  rw [if_neg (by simp [ShareState.openedByCircle]), joined]
  dsimp only
  cases message : openRoomMessage P lobby.roomKey defaultRoom bytes with
  | ok msg =>
    unfold openRoomMessage openSignedRoomMessage at message
    obtain ⟨plaintext, -, message⟩ := bind_ok.1 message
    obtain ⟨found, decodes, -⟩ := bind_ok.1 message
    rw [chat plaintext] at decodes
    cases decodes
  | error e =>
    cases opened : openHeartbeat P lobby.roomKey bytes with
    | ok hb =>
      have carried := (openHeartbeat_ok.1 opened).1
      unfold carriedHeartbeat at carried
      obtain ⟨plaintext, -, carried⟩ := bind_ok.1 carried
      obtain ⟨encoded, -, decodes⟩ := bind_ok.1 carried
      rw [beacon encoded] at decodes
      cases decodes
    | error e' => rfl

variable {roomKey owner : Octets}

/-- Another route of a share, heard while a download runs over the one that was browsed. -/
theorem replaced_under_download (inv : Inv s) (p : Publication P roomKey owner share)
    (connected : s.connected = true) (reads : Reads s.shares roomKey owner)
    (chat : ∀ encoded, P.decodeRoomMessage encoded = none)
    (beacon : ∀ encoded, P.decodeHeartbeat encoded = none)
    (announces : p.ann.withdraw = false) {r : R} {download : Transfer R}
    (found : s.shares.discovered.lookup share = some disc) (other : disc.routeBlob ≠ p.blob)
    (browsed : s.shares.routeGuard.entry share = ⟨some r, 0, none, false⟩)
    (running : download ∈ s.downloading) (imported : download.imported = some r) :
    ¬ Harmless P routeOf s (.inbound [] now nowUnixMs p.bytes) := by
  intro harmless
  obtain ⟨lobby, joined, -⟩ := reads.joined
  have up : GivenUp P s (.inbound [] now nowUnixMs p.bytes) share r := by
    refine .unrouted ⟨disc, found, ?_⟩ ?_
    · intro d' found' same
      rw [handleInbound_discovery joined chat beacon] at found'
      change (receive s.shares p now).discovered.lookup share = some d' at found'
      rw [receive_eq reads, if_neg (by simp [Publication.withdraws, announces])] at found'
      have route := foldAdvert_discovered (P := P) s.shares now p.ann p.blob
        (fun _ => by rw [p.ofShare, found]; rfl)
      rw [p.ofShare, found'] at route
      exact other (same.symm.trans (Option.some.inj route))
    · rw [browsed]
      exact List.mem_singleton_self r
  exact ((harmless_iff inv).1 harmless connected share r up).1 download running imported

end

/-- A share's first route is heard by a session that has just joined. -/
def hears (P : Primitives) (routeOf : Octets → R) (roomKey bytes : Octets) (ttl : Duration) :
    Session R :=
  [Act.connects none, .joins roomKey, .inbound [] 0 0 bytes].foldl
    (fun s a => (s.step P routeOf a).1) (.new ttl)

theorem hears_ready {P : Primitives} (routeOf : Octets → R) {roomKey owner : Octets} {share : String}
    (ttl : Duration) (p : Publication P roomKey owner share)
    (chat : ∀ encoded, P.decodeRoomMessage encoded = none)
    (beacon : ∀ encoded, P.decodeHeartbeat encoded = none) (announces : p.ann.withdraw = false) :
    let s := hears P routeOf roomKey p.bytes ttl
    Ready s share ⟨p.blob, owner, 1, false⟩ ∧ Reads s.shares roomKey owner := by
  let start : ShareState R :=
    { ShareState.new ttl with lobby := some ⟨roomKey, .forRoom defaultRoom presenceTtl⟩ }
  have reads : Reads start roomKey owner := ⟨⟨_, rfl, rfl⟩, rfl⟩
  have taken : (start.handleInbound P [] 0 0 p.bytes).1 = start.foldAdvert P p.ann p.blob 0 := by
    rw [handleInbound_discovery rfl chat beacon]
    show receive start p 0 = _
    rw [receive_eq reads, if_neg (by simp [Publication.withdraws, announces])]
  have shares : (hears P routeOf roomKey p.bytes ttl).shares =
      { start.foldAdvert P p.ann p.blob 0 with pendingRouteReleases := [] } := by
    rw [← taken]
    rfl
  obtain ⟨found, guard, lobby⟩ := foldAdvert_first start p.blob 0
    p.bound announces rfl rfl
  rw [p.ofShare, p.byOwner] at found
  have after := reads_receive (p := p) 0 reads
  rw [receive_eq reads, if_neg (by simp [Publication.withdraws, announces])] at after
  refine ⟨⟨rfl, ?_, ?_, rfl, ?_, rfl, rfl, rfl⟩, ?_⟩
  · rw [shares]
    show (start.foldAdvert P p.ann p.blob 0).lobby ≠ none
    rw [lobby]
    exact Option.some_ne_none _
  · rw [shares]
    exact found
  · rw [shares]
    show (start.foldAdvert P p.ann p.blob 0).routeGuard.entries.lookup share = none
    rw [guard]
    rfl
  · rw [shares]
    exact ⟨after.joined, after.other⟩

/-- The session hears of a share, browses it and downloads it; then the share's next route is
heard, and the route the download runs over is released. -/
def sharedActs : List Act :=
  [.connects none, .joins sharedRoomKey, .inbound [] 0 0 (sharedPublication false).bytes,
    .fetchShare sharedId "films", .browseImports 0, .browseEnds 0 true, .foldsFetch 0 0,
    .confirmFetch sharedId "films", .downloadImports 0]

theorem released_under_download :
    ¬ Harmless sharedPrimitives id (run sharedPrimitives id sharedActs presenceTtl).session
      (.inbound [] 0 0 (sharedPublication true).bytes) := by
  have inv := inv_run (P := sharedPrimitives) id sharedActs presenceTtl
  have acts : (run sharedPrimitives id sharedActs presenceTtl).session =
      browseThenDownload sharedPrimitives id
        (hears sharedPrimitives id sharedRoomKey (sharedPublication false).bytes presenceTtl)
        sharedId "films" 0 := by
    rw [run_session]
    rfl
  obtain ⟨ready, reads⟩ := hears_ready id presenceTtl (sharedPublication false)
    (fun _ => rfl) (fun _ => rfl) rfl
  obtain ⟨connected, lobby, signing, found, browsed, running⟩ :=
    browseThenDownload_holds (P := sharedPrimitives) (t := 0) id "films" ready
  rw [acts] at inv ⊢
  refine replaced_under_download inv (sharedPublication true) connected ?_ (fun _ => rfl)
    (fun _ => rfl) rfl found ?_ browsed (running ▸ List.mem_singleton_self _) rfl
  · obtain ⟨joined, other⟩ := reads
    refine ⟨by rw [lobby]; exact joined, ?_⟩
    unfold ShareState.isOwn at other ⊢
    rw [signing]
    exact other
  · intro same
    have blobs : ([1] : Octets) = [2] := same
    cases blobs

end Daemonseed.Room.RouteUse
