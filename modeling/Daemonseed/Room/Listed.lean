import Daemonseed.Room.Catalog

/-! # How long a share stays listed

For each id the catalog is a listing of that id alone. While it is listed its
owner does not change and its stamp does not go back. A withdrawal leaves
nothing behind, so what is read of the share again lists it again, for as long
as it is read again in time. -/
namespace Daemonseed.Room.Listed
open Daemonseed.Lib.Bytes Daemonseed.Lib.Maps Daemonseed.Room.Presence Daemonseed.Room.Wire
open Daemonseed.Room.Catalog

/-! ## One id's listing -/

/-- What an announcement or a withdrawal of the id does to its listing. -/
def folded (listing : Option DiscoveredShare) (ann : ShareAnnouncement) (now : Instant) :
    Option DiscoveredShare :=
  match listing with
  | none => if ann.withdraw then none else some (ShareAnnouncement.row ann now)
  | some cur =>
    if ann.senderPubkey ≠ cur.senderPubkey ∨ ann.sentUnixMs.toInt < cur.announcedUnixMs.toInt then
      some cur
    else if ann.withdraw then none
    else some { ShareAnnouncement.row ann now with shareId := cur.shareId }

variable {catalog : ShareCatalog} {id other : String} {share : DiscoveredShare}
  {ann : ShareAnnouncement} {now : Instant} {sharer : Octets} {ids : List String}

theorem lookup_list : (catalog.list share).entries.lookup id =
    if id = share.shareId then some share else catalog.entries.lookup id := by
  split
  · rename_i e
    exact e ▸ AList.lookup_insert _
  · rename_i ne
    exact AList.lookup_insert_ne ne

theorem lookup_erase : (catalog.erase other).entries.lookup id =
    if id = other then none else catalog.entries.lookup id := by
  split
  · rename_i e
    exact e ▸ AList.lookup_erase ..
  · rename_i ne
    exact AList.lookup_erase_ne ne

theorem lookup_keep {test : String → DiscoveredShare → Bool} :
    (catalog.keep test).entries.lookup id = (catalog.entries.lookup id).filter (test id) :=
  Map.lookup_retain

theorem apply_other (ne : id ≠ ann.shareId) :
    (catalog.apply ann now).2.entries.lookup id = catalog.entries.lookup id := by
  unfold ShareCatalog.apply
  split
  · split
    · rfl
    · split
      · rfl
      · exact lookup_erase.trans (if_neg ne)
  · rfl
  · rename_i cur _ held
    have own := catalog.named _ _ held
    split
    · rfl
    · split
      · rfl
      · split <;> exact lookup_list.trans (if_neg (own ▸ ne))
  · exact lookup_list.trans (if_neg ne)

theorem apply_own : (catalog.apply ann now).2.entries.lookup ann.shareId =
    folded (catalog.entries.lookup ann.shareId) ann now := by
  unfold ShareCatalog.apply folded
  split
  · rename_i withdraw held
    rw [held]
    split
    · simp [*]
    · split
      · simp [*]
      · rw [lookup_erase]
        simp [*]
  · simp [*]
  · rename_i cur withdraw held
    have own := catalog.named _ _ held
    rw [held]
    split
    · simp [*]
    · rename_i mine
      split
      · simp [*]
      · rename_i fresh
        have mine : ann.senderPubkey = cur.senderPubkey := not_not.1 mine
        split
        · rename_i same
          obtain ⟨stamp, name, rating, handle⟩ := same
          simp [lookup_list, own, mine, withdraw, ShareAnnouncement.row, stamp, name, rating, handle]
        · simp [lookup_list, own, mine, fresh, withdraw, ShareAnnouncement.row]
  · rename_i withdraw held
    rw [held, lookup_list]
    simp [withdraw, ShareAnnouncement.row]

/-- An announcement changes the listing of its own id and no other. -/
theorem lookup_apply : (catalog.apply ann now).2.entries.lookup id =
    if id = ann.shareId then folded (catalog.entries.lookup id) ann now
    else catalog.entries.lookup id := by
  split
  · rename_i e
    exact e ▸ apply_own
  · rename_i ne
    exact apply_other ne

/-- The listing after the sharer's digest. -/
def reconciled (listing : Option DiscoveredShare) (sharer : Octets) (named : Bool) (now : Instant) :
    Option DiscoveredShare :=
  match listing with
  | none => none
  | some share =>
    if share.senderPubkey ≠ sharer then some share
    else if named then some { share with receivedAt := now }
    else none

theorem lookup_refresh : (ShareCatalog.refresh sharer now catalog other).entries.lookup id =
    (catalog.entries.lookup id).map fun share =>
      if id = other ∧ share.senderPubkey = sharer then { share with receivedAt := now }
      else share := by
  unfold ShareCatalog.refresh
  cases held : catalog.entries.lookup other with
  | none =>
    by_cases e : id = other
    · subst e
      simp [held]
    · simp [e]
  | some share =>
    have own := catalog.named _ _ held
    by_cases mine : share.senderPubkey = sharer
    · simp only [mine, if_true, lookup_list, own]
      by_cases e : id = other
      · subst e
        simp [held, mine, own]
      · simp [e]
    · simp only [mine, if_false]
      by_cases e : id = other
      · subst e
        simp [held, mine]
      · simp [e]

theorem lookup_refreshes :
    (ids.foldl (ShareCatalog.refresh sharer now) catalog).entries.lookup id =
      (catalog.entries.lookup id).map fun share =>
        if id ∈ ids ∧ share.senderPubkey = sharer then { share with receivedAt := now }
        else share := by
  induction ids generalizing catalog with
  | nil => simp
  | cons first rest ih =>
    rw [List.foldl_cons, ih, lookup_refresh, Option.map_map]
    congr 1
    funext share
    by_cases e : id = first <;> by_cases mine : share.senderPubkey = sharer <;> simp [e, mine]

theorem lookup_reconcile : (catalog.reconcileSharer sharer ids now).2.entries.lookup id =
    reconciled (catalog.entries.lookup id) sharer (ids.contains id) now := by
  show (ids.foldl (ShareCatalog.refresh sharer now) (catalog.keep _)).entries.lookup id = _
  rw [lookup_refreshes, lookup_keep]
  cases held : catalog.entries.lookup id with
  | none => rfl
  | some share =>
    by_cases mine : share.senderPubkey = sharer <;> by_cases mem : id ∈ ids <;>
      simp [reconciled, Option.filter_some, mine, mem]

/-! ## Any run -/

structure World where
  catalog : ShareCatalog
  now : Instant

inductive Act
  | passes (d : Duration)
  | announced (ann : ShareAnnouncement)
  | prunes
  | removes (id : String)
  | reconciles (sharer : Octets) (liveIds : List String)
  | prunesSharer (sharer : Octets)
  deriving DecidableEq

section

variable (sha384 : Octets → Octets)

def World.step (w : World) : Act → World
  | .passes d => { w with now := w.now + d }
  | .announced ann => { w with catalog := (w.catalog.applyVerified sha384 ann w.now).2 }
  | .prunes => { w with catalog := (w.catalog.prune w.now).2 }
  | .removes id => { w with catalog := (w.catalog.remove id).2 }
  | .reconciles sharer liveIds =>
    { w with catalog := (w.catalog.reconcileSharer sharer liveIds w.now).2 }
  | .prunesSharer sharer => { w with catalog := (w.catalog.pruneSharer sharer).2 }

def World.run (w : World) (acts : List Act) : World := acts.foldl (World.step sha384) w

end

def World.start (ttl : Duration) (now : Instant) : World := ⟨.new ttl, now⟩

def World.listing (w : World) (id : String) : Option DiscoveredShare := w.catalog.entries.lookup id

/-- One id's listing after a step. -/
def stepped (sha384 : Octets → Octets) (w : World) (id : String) (listing : Option DiscoveredShare) :
    Act → Option DiscoveredShare
  | .passes _ => listing
  | .announced ann =>
    if shareBindingIsValid sha384 ann ∧ id = ann.shareId then folded listing ann w.now else listing
  | .prunes => listing.filter fun share => w.now - share.receivedAt < w.catalog.ttl
  | .removes other => if id = other then none else listing
  | .reconciles sharer liveIds => reconciled listing sharer (liveIds.contains id) w.now
  | .prunesSharer sharer => listing.filter fun share => share.senderPubkey != sharer

variable {sha384 : Octets → Octets} {w w' : World} {act : Act} {acts : List Act}
  {share share' : DiscoveredShare} {owner : Octets}

/-- The catalog is one listing for each id. -/
theorem listing_step : (w.step sha384 act).listing id = stepped sha384 w id (w.listing id) act := by
  cases act with
  | passes d => rfl
  | announced ann =>
    show (w.catalog.applyVerified sha384 ann w.now).2.entries.lookup id =
      if shareBindingIsValid sha384 ann = true ∧ id = ann.shareId then
        folded (w.catalog.entries.lookup id) ann w.now
      else w.catalog.entries.lookup id
    unfold ShareCatalog.applyVerified
    by_cases bound : shareBindingIsValid sha384 ann = true
    · rw [if_pos bound, lookup_apply]
      simp only [bound, true_and]
    · rw [if_neg bound, if_neg fun h => bound h.1]
  | prunes => exact lookup_keep
  | removes other => exact lookup_erase
  | reconciles sharer liveIds => exact lookup_reconcile
  | prunesSharer sharer => exact lookup_keep

theorem run_snoc : w.run sha384 (acts ++ [act]) = (w.run sha384 acts).step sha384 act :=
  List.foldl_append

theorem run_append {rest : List Act} :
    w.run sha384 (acts ++ rest) = (w.run sha384 acts).run sha384 rest :=
  List.foldl_append

/-- The id's binding to a key. -/
def BoundTo (sha384 : Octets → Octets) (owner : Octets) (id : String) : Prop :=
  ∃ rootCommitment : Octets, rootCommitment.length = rootCommitmentLen ∧
    id = deriveShareIdV2 sha384 owner rootCommitment

theorem boundTo_valid (valid : shareBindingIsValid sha384 ann = true) :
    BoundTo sha384 ann.senderPubkey ann.shareId := by
  rw [shareBindingIsValid, Bool.and_eq_true, beq_iff_eq, beq_iff_eq] at valid
  exact ⟨ann.rootCommitment, valid.1, valid.2⟩

/-- What a step leaves listed was listed, for the same owner and no later, or
has just been announced. -/
theorem stepped_some (after : (w.step sha384 act).listing id = some share') :
    (∃ share, w.listing id = some share ∧ share'.senderPubkey = share.senderPubkey ∧
      share'.shareId = share.shareId ∧
      share.announcedUnixMs.toInt ≤ share'.announcedUnixMs.toInt) ∨
    w.listing id = none ∧ ∃ ann, act = .announced ann ∧ shareBindingIsValid sha384 ann = true ∧
      id = ann.shareId ∧ share' = ShareAnnouncement.row ann w.now := by
  rw [listing_step] at after
  cases act with
  | passes d => exact .inl ⟨share', after, rfl, rfl, le_refl _⟩
  | announced ann =>
    unfold stepped at after
    dsimp only at after
    split at after
    · rename_i own
      unfold folded at after
      split at after
      · rename_i absent
        split at after
        · cases after
        · exact .inr ⟨absent, ann, rfl, own.1, own.2, (Option.some.inj after).symm⟩
      · rename_i cur held
        split at after
        · cases after
          exact .inl ⟨_, held, rfl, rfl, le_refl _⟩
        · rename_i taken
          rw [not_or, not_not, not_lt] at taken
          split at after
          · cases after
          · cases after
            exact .inl ⟨cur, held, taken.1, rfl, taken.2⟩
    · exact .inl ⟨share', after, rfl, rfl, le_refl _⟩
  | prunes => exact .inl ⟨share', (Option.filter_eq_some_iff.1 after).1, rfl, rfl, le_refl _⟩
  | removes other =>
    unfold stepped at after
    dsimp only at after
    split at after
    · cases after
    · exact .inl ⟨share', after, rfl, rfl, le_refl _⟩
  | reconciles sharer liveIds =>
    unfold stepped reconciled at after
    dsimp only at after
    split at after
    · cases after
    · rename_i share held
      split at after
      · cases after
        exact .inl ⟨_, held, rfl, rfl, le_refl _⟩
      · split at after
        · cases after
          exact .inl ⟨share, held, rfl, rfl, le_refl _⟩
        · cases after
  | prunesSharer sharer =>
    exact .inl ⟨share', (Option.filter_eq_some_iff.1 after).1, rfl, rfl, le_refl _⟩

/-- Every id listed is bound to its owner's key. -/
theorem bound_run {ttl : Duration} (held : (World.run sha384 (.start ttl now) acts).listing id =
    some share) : BoundTo sha384 share.senderPubkey id := by
  induction acts using List.reverseRecOn generalizing share with
  | nil => cases held
  | append_singleton acts act ih =>
    rw [run_snoc] at held
    rcases stepped_some held with ⟨before, was, same, -, -⟩ | ⟨-, ann, -, valid, rfl, rfl⟩
    · exact same ▸ ih was
    · exact boundTo_valid valid

/-- While it is listed a share keeps its owner and its id, and its stamp does
not go back. -/
theorem listed_run (held : w.listing id = some share)
    (listed : ∀ first, first <+: acts → ((w.run sha384 first).listing id).isSome) :
    ∃ share', (w.run sha384 acts).listing id = some share' ∧
      share'.senderPubkey = share.senderPubkey ∧ share'.shareId = share.shareId ∧
      share.announcedUnixMs.toInt ≤ share'.announcedUnixMs.toInt := by
  induction acts using List.reverseRecOn with
  | nil => exact ⟨share, held, rfl, rfl, le_refl _⟩
  | append_singleton acts act ih =>
    obtain ⟨mid, was, owner, same, later⟩ := ih fun first le =>
      listed first (le.trans (List.prefix_append _ _))
    obtain ⟨share', now⟩ := Option.isSome_iff_exists.1 (listed _ List.prefix_rfl)
    refine ⟨share', now, ?_⟩
    rw [run_snoc] at now
    rcases stepped_some now with ⟨before, held, owner', same', later'⟩ | ⟨absent, -⟩
    · cases was.symm.trans held
      exact ⟨owner'.trans owner, same'.trans same, le_trans later later'⟩
    · cases was.symm.trans absent

/-- What another key signed changes no listing of the owner's. -/
theorem foreign_step (held : w.listing id = some share) (foreign : ann.senderPubkey ≠ share.senderPubkey) :
    (w.step sha384 (.announced ann)).listing id = some share := by
  rw [listing_step, held]
  unfold stepped folded
  simp [foreign]

/-! ## After a withdrawal -/

def World.Lists (w : World) (owner : Octets) (id : String) : Prop :=
  ∃ share, w.listing id = some share ∧ share.senderPubkey = owner

/-- The step hears of the owner's share: an announcement that is not stale, or a
digest that names the share while it is listed. -/
def Hears (sha384 : Octets → Octets) (owner : Octets) (id : String) (w : World) : Act → Prop
  | .announced ann =>
    shareBindingIsValid sha384 ann = true ∧ ann.shareId = id ∧ ann.senderPubkey = owner ∧
      ann.withdraw = false ∧ ∀ share, w.listing id = some share →
        share.senderPubkey = owner ∧ share.announcedUnixMs.toInt ≤ ann.sentUnixMs.toInt
  | .reconciles sharer liveIds => sharer = owner ∧ id ∈ liveIds ∧ w.Lists owner id
  | _ => False

/-- A share that is heard of is listed as received now. -/
theorem hears_step (hears : Hears sha384 owner id w act) :
    ∃ share, (w.step sha384 act).listing id = some share ∧ share.senderPubkey = owner ∧
      share.receivedAt = w.now := by
  cases act with
  | announced ann =>
    obtain ⟨valid, rfl, rfl, announces, fresh⟩ := hears
    refine ⟨{ ShareAnnouncement.row ann w.now with shareId := ann.shareId }, ?_, rfl, rfl⟩
    rw [listing_step]
    show (if _ then _ else _) = _
    rw [if_pos ⟨valid, rfl⟩]
    unfold folded
    cases held : w.listing ann.shareId with
    | none => simp [announces, ShareAnnouncement.row]
    | some cur =>
      obtain ⟨owner, le⟩ := fresh cur held
      have own := w.catalog.named _ _ held
      simp [owner, not_lt.2 le, announces, own]
  | reconciles sharer liveIds =>
    obtain ⟨rfl, named, share, held, owner⟩ := hears
    refine ⟨{ share with receivedAt := w.now }, ?_, owner, rfl⟩
    rw [listing_step, held]
    unfold stepped reconciled
    simp [owner, named]
  | passes => exact hears.elim
  | prunes => exact hears.elim
  | removes => exact hears.elim
  | prunesSharer => exact hears.elim

/-- What is listed after a step has just been heard of, or was received before. -/
theorem heard_or_kept (after : (w.step sha384 act).listing id = some share')
    (mine : share'.senderPubkey = owner) :
    (Hears sha384 owner id w act ∧ share'.receivedAt = w.now) ∨
    ∃ share, w.listing id = some share ∧ share.senderPubkey = owner ∧
      share'.receivedAt = share.receivedAt := by
  subst mine
  rw [listing_step] at after
  cases act with
  | passes d => exact .inr ⟨share', after, rfl, rfl⟩
  | announced ann =>
    unfold stepped at after
    dsimp only at after
    split at after
    · rename_i own
      obtain ⟨valid, rfl⟩ := own
      unfold folded at after
      split at after
      · rename_i absent
        split at after
        · cases after
        · rename_i announces
          cases after
          exact .inl ⟨⟨valid, rfl, rfl, by simpa using announces, by simp [absent]⟩, rfl⟩
      · rename_i cur held
        split at after
        · cases after
          exact .inr ⟨_, held, rfl, rfl⟩
        · rename_i taken
          rw [not_or, not_not, not_lt] at taken
          split at after
          · cases after
          · rename_i announces
            cases after
            refine .inl ⟨⟨valid, rfl, rfl, by simpa using announces, fun share held' => ?_⟩, rfl⟩
            cases held.symm.trans held'
            exact ⟨taken.1.symm, taken.2⟩
    · exact .inr ⟨share', after, rfl, rfl⟩
  | prunes => exact .inr ⟨share', (Option.filter_eq_some_iff.1 after).1, rfl, rfl⟩
  | removes other =>
    unfold stepped at after
    dsimp only at after
    split at after
    · cases after
    · exact .inr ⟨share', after, rfl, rfl⟩
  | reconciles sharer liveIds =>
    unfold stepped reconciled at after
    dsimp only at after
    split at after
    · cases after
    · rename_i share held
      split at after
      · cases after
        exact .inr ⟨_, held, rfl, rfl⟩
      · rename_i own
        split at after
        · rename_i named
          cases after
          have own : share.senderPubkey = sharer := not_not.1 own
          exact .inl ⟨⟨own.symm, by simpa using named, share, held, rfl⟩, rfl⟩
        · cases after
  | prunesSharer sharer => exact .inr ⟨share', (Option.filter_eq_some_iff.1 after).1, rfl, rfl⟩

/-- The share was heard of at `t`, and has stayed listed since. -/
def HeardAt (sha384 : Octets → Octets) (owner : Octets) (id : String) (w : World) (acts : List Act)
    (t : Instant) : Prop :=
  ∃ before act after, acts = before ++ act :: after ∧ t = (w.run sha384 before).now ∧
    Hears sha384 owner id (w.run sha384 before) act ∧
    ∀ first, first <+: after → (w.run sha384 (before ++ act :: first)).Lists owner id

theorem step_now : w.now ≤ (w.step sha384 act).now := by
  cases act with
  | passes d => exact Nat.le_add_right _ _
  | announced => exact le_refl _
  | prunes => exact le_refl _
  | removes => exact le_refl _
  | reconciles => exact le_refl _
  | prunesSharer => exact le_refl _

theorem run_now : w.now ≤ (w.run sha384 acts).now := by
  induction acts generalizing w with
  | nil => exact le_refl _
  | cons act rest ih => exact le_trans step_now ih

theorem refreshes_ttl :
    (ids.foldl (ShareCatalog.refresh sharer now) catalog).ttl = catalog.ttl := by
  induction ids generalizing catalog with
  | nil => rfl
  | cons first rest ih =>
    rw [List.foldl_cons, ih]
    unfold ShareCatalog.refresh
    split
    · split <;> rfl
    · rfl

theorem step_ttl : (w.step sha384 act).catalog.ttl = w.catalog.ttl := by
  cases act with
  | passes d => rfl
  | announced ann =>
    show (w.catalog.applyVerified sha384 ann w.now).2.ttl = _
    unfold ShareCatalog.applyVerified
    split
    · unfold ShareCatalog.apply
      split
      · split
        · rfl
        · split <;> rfl
      · rfl
      · split
        · rfl
        · split
          · rfl
          · split <;> rfl
      · rfl
    · rfl
  | prunes => rfl
  | removes => rfl
  | reconciles => exact refreshes_ttl
  | prunesSharer => rfl

theorem run_ttl : (w.run sha384 acts).catalog.ttl = w.catalog.ttl := by
  induction acts generalizing w with
  | nil => rfl
  | cons act rest ih => exact ih.trans step_ttl

/-- What a share not listed at first was last received at is when it was heard. -/
theorem received_heard (absent : ¬ w.Lists owner id)
    (held : (w.run sha384 acts).listing id = some share) (mine : share.senderPubkey = owner) :
    HeardAt sha384 owner id w acts share.receivedAt := by
  induction acts using List.reverseRecOn generalizing share with
  | nil => exact absurd ⟨share, held, mine⟩ absent
  | append_singleton acts act ih =>
    have now := held
    rw [run_snoc] at now
    rcases heard_or_kept now mine with ⟨hears, received⟩ | ⟨before, was, mine', received⟩
    · refine ⟨acts, act, [], rfl, received, hears, fun first le => ?_⟩
      rw [List.prefix_nil.1 le]
      exact ⟨share, held, mine⟩
    · obtain ⟨first, heard, after, rfl, at_, hears, listed⟩ := ih was mine'
      refine ⟨first, heard, after ++ [act], by simp, received.trans at_, hears, fun part le => ?_⟩
      rcases List.prefix_concat_iff.1 le with rfl | le
      · exact ⟨share, by simpa using held, mine⟩
      · exact listed part le

/-- A share heard of and listed since was received no earlier. -/
theorem heard_received {t : Instant} (heard : HeardAt sha384 owner id w acts t) :
    ∃ share, (w.run sha384 acts).listing id = some share ∧ share.senderPubkey = owner ∧
      t ≤ share.receivedAt := by
  obtain ⟨before, act, after, rfl, rfl, hears, listed⟩ := heard
  induction after using List.reverseRecOn with
  | nil =>
    obtain ⟨share, now, mine, received⟩ := hears_step hears
    exact ⟨share, run_snoc ▸ now, mine, received.symm.le⟩
  | append_singleton after last ih =>
    obtain ⟨share, was, mine, le⟩ := ih fun first pre =>
      listed first (pre.trans (List.prefix_append _ _))
    obtain ⟨share', now, mine'⟩ := listed _ List.prefix_rfl
    refine ⟨share', now, mine', ?_⟩
    rw [← List.cons_append, ← List.append_assoc, run_snoc] at now
    rcases heard_or_kept now mine' with ⟨-, received⟩ | ⟨share, held, -, received⟩
    · rw [received, run_append]
      exact run_now
    · cases was.symm.trans held
      rwa [received]

/-- A withdrawal that is taken unlists its share. -/
theorem withdrawn (removed : (w.catalog.applyVerified sha384 ann w.now).1 = .removed) :
    (w.step sha384 (.announced ann)).listing ann.shareId = none := by
  show (w.catalog.applyVerified sha384 ann w.now).2.entries.lookup ann.shareId = none
  unfold ShareCatalog.applyVerified ShareCatalog.apply at *
  split at removed
  · rename_i valid
    rw [if_pos valid]
    split at removed
    · split at removed
      · cases removed
      · split at removed
        · cases removed
        · simp [*, lookup_erase]
    · cases removed
    · split at removed
      · cases removed
      · split at removed
        · cases removed
        · split at removed <;> cases removed
    · cases removed
  · cases removed

theorem HeardAt.past {t : Instant} (heard : HeardAt sha384 owner id w acts t) :
    t ≤ (w.run sha384 acts).now := by
  obtain ⟨before, act, after, rfl, rfl, -⟩ := heard
  rw [run_append]
  exact run_now

theorem alive_of {t received now ttl : Nat} (past : t ≤ now) (le : t ≤ received)
    (early : ¬ t + ttl ≤ now) : now - received < ttl := by
  omega

theorem expired {received now ttl : Nat} (due : received + ttl ≤ now) : ¬ now - received < ttl := by
  omega

/-- A prune leaves the share where it was received within the time to live. -/
theorem prune_lists : (w.step sha384 .prunes).Lists owner id ↔
    ∃ share, w.listing id = some share ∧ share.senderPubkey = owner ∧
      w.now - share.receivedAt < w.catalog.ttl := by
  unfold World.Lists
  rw [listing_step]
  show (∃ share, Option.filter _ _ = some share ∧ _) ↔ _
  simp only [Option.filter_eq_some_iff, decide_eq_true_eq]
  exact exists_congr fun share => by tauto

/-- **What a listing keeps to.** A listed id is bound to its owner's key. While
it is listed it keeps its owner and its stamp does not go back, and what another
key signed leaves it as it is. After a withdrawal the catalog has taken, a prune
leaves the owner's share unlisted exactly when each announcement and each digest
that the catalog heard of it since, and since which it has stayed listed, is at
least the time to live ago; where its id is bound to no other key, nobody's. -/
theorem listed_by_owner (sha384 : Octets → Octets) (ttl : Duration) (now : Instant)
    (acts : List Act) (w : World) (ran : w = World.run sha384 (.start ttl now) acts) :
    (∀ id share, w.listing id = some share → BoundTo sha384 share.senderPubkey id) ∧
    (∀ id share later, w.listing id = some share →
      (∀ first, first <+: later → ((w.run sha384 first).listing id).isSome) →
      ∃ share', (w.run sha384 later).listing id = some share' ∧
        share'.senderPubkey = share.senderPubkey ∧ share'.shareId = share.shareId ∧
        share.announcedUnixMs.toInt ≤ share'.announcedUnixMs.toInt) ∧
    (∀ id share ann, w.listing id = some share → ann.senderPubkey ≠ share.senderPubkey →
      (w.step sha384 (.announced ann)).listing id = some share) ∧
    (∀ owner id, (∀ key, BoundTo sha384 key id → key = owner) → ¬ w.Lists owner id →
      w.listing id = none) ∧
    ∀ ann later w₁ w₂, ann.withdraw = true →
      (w.catalog.applyVerified sha384 ann w.now).1 = .removed →
      w₁ = w.step sha384 (.announced ann) → w₂ = w₁.run sha384 later →
      (¬ (w₂.step sha384 .prunes).Lists ann.senderPubkey ann.shareId ↔
        ∀ t, HeardAt sha384 ann.senderPubkey ann.shareId w₁ later t → t + ttl ≤ w₂.now) := by
  subst ran
  refine ⟨fun _ _ => bound_run, fun _ _ _ => listed_run, fun _ _ _ => foreign_step,
    fun owner id unique absent => ?_, ?_⟩
  · refine Option.eq_none_iff_forall_ne_some.2 fun share held => absent ⟨share, held, ?_⟩
    exact unique _ (bound_run held)
  · rintro ann later w₁ w₂ withdraws removed rfl rfl
    have gone : ((World.run sha384 (.start ttl now) acts).step sha384 (.announced ann)).listing
        ann.shareId = none := withdrawn removed
    have ttl_of : (((World.run sha384 (.start ttl now) acts).step sha384 (.announced ann)).run
        sha384 later).catalog.ttl = ttl := by
      rw [run_ttl, step_ttl, run_ttl]
      rfl
    rw [prune_lists, ttl_of]
    constructor
    · intro unlisted t heard
      obtain ⟨share, held, mine, le⟩ := heard_received heard
      by_contra early
      exact unlisted ⟨share, held, mine, alive_of heard.past le early⟩
    · rintro old ⟨share, held, mine, alive⟩
      have absent : ¬ ((World.run sha384 (.start ttl now) acts).step sha384
          (.announced ann)).Lists ann.senderPubkey ann.shareId := by
        rintro ⟨_, listed, -⟩
        cases gone.symm.trans listed
      exact expired (old _ (received_heard absent held mine)) alive

/-- A toy hash. -/
def noHash (_ : Octets) : Octets := []

def toyShare (withdraw : Bool) (sent : Int64) : ShareAnnouncement where
  room := "lobby"
  senderPubkey := [1]
  senderHandle := "a"
  shareId := ""
  name := "docs"
  rating := ""
  withdraw := withdraw
  sentUnixMs := sent
  signature := []
  rootCommitment := List.replicate rootCommitmentLen 0

/-- The share is withdrawn at once, its announcement is read again twice, and a
prune 601 seconds after the withdrawal leaves it listed. -/
theorem listed_after_withdrawal :
    let w := World.run noHash (.start (fromSecs 600) 0) [.announced (toyShare false 1)]
    (w.catalog.applyVerified noHash (toyShare true 2) w.now).1 = .removed ∧
    ((w.run noHash [.announced (toyShare true 2), .announced (toyShare false 1),
      .passes (fromSecs 500), .announced (toyShare false 1), .passes (fromSecs 101),
      .prunes]).listing "").isSome = true := by
  decide

/-- Read again only at once, it is gone with the prune. -/
theorem listed_by_owner_withdrawn :
    let w := World.run noHash (.start (fromSecs 600) 0) [.announced (toyShare false 1)]
    ¬ (((w.step noHash (.announced (toyShare true 2))).run noHash
      [.announced (toyShare false 1), .passes (fromSecs 601)]).step noHash .prunes).Lists [1] "" := by
  intro w
  have withdrawal := (listed_by_owner noHash (fromSecs 600) 0 [.announced (toyShare false 1)] w
    rfl).2.2.2.2 (toyShare true 2) [.announced (toyShare false 1), .passes (fromSecs 601)] _ _ rfl
    (by decide) rfl rfl
  refine withdrawal.2 fun t heard => ?_
  obtain ⟨before, act, after, split, rfl, hears, -⟩ := heard
  rcases before with - | ⟨first, - | ⟨second, rest⟩⟩
  · decide
  · cases split
    exact hears.elim
  · simp at split

end Daemonseed.Room.Listed
