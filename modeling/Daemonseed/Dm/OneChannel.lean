import Daemonseed.Dm.Generations
import Daemonseed.Dm.RecordInvariant

/-! # One channel for each conversation

Histories of one store: calls that run one after another, each as far as it
gets, scans of the drop and deletes. A record's channel is derived from the
correspondent and the generation; a request is accepted only where a scan
handed it on. -/
namespace Daemonseed.Dm.OneChannel
open Daemonseed.Dm.Primitives Daemonseed.Dm.Channel Daemonseed.Dm.Chain Daemonseed.Dm.Records
  Daemonseed.Dm.Store Daemonseed.Dm.Flows Daemonseed.Dm.Contact Daemonseed.Dm.Drop
  Daemonseed.Dm.Sections Daemonseed.Dm.Generations Daemonseed.Lib.Flows Daemonseed.Lib.Solo
  Daemonseed.Lib.Runs Daemonseed.Lib.Results

variable {B : Type} {C : Crypto B} {P : Platform B} {me : Me B}

/-! ## What a call and a scan leave -/

/-- The correspondent a call is about. -/
def peerOf (peer : B) : Call B → B
  | .firstContact identity _ _ => identity
  | .accept request _ _ => request.identity
  | _ => peer

theorem grants_mono {c : Call B} {heard : Answered B} {g : Nat} (h : grants c heard g)
    (x : (q : Query B) × Reply q) : grants c (heard ++ [x]) g := by
  cases c with
  | firstContact => exact List.mem_append_left _ h
  | accept => exact h
  | continueFirstContact | resumeFirstContact | refreshFirstContact | continueAcceptance
  | recogniseAcceptance | commitMessage | sendMessage | collectStep | publishCursor
  | takePeerCursor | deleteOutboxThrough | reset | markDeletePending => exact h

/-- The record that comes to be. -/
def born (i : B) (s t : B → Correspondence B) : Option (ConvState B) :=
  match (s i).conv with
  | none => (t i).conv
  | some _ => none

/-- The channel a record comes to be with. -/
def births (me : Me B) (i : B) (s t : B → Correspondence B) : List (ChannelOwner B) :=
  ((born i s t).map fun r => ⟨me.channelRoot, i, r.generation⟩).toList

theorem born_some {i : B} {s t : B → Correspondence B} {r : ConvState B} (e : born i s t = some r) :
    (s i).conv = none ∧ (t i).conv = some r := by
  unfold born at e
  split at e
  · rename_i absent
    exact ⟨absent, e⟩
  · cases e

theorem births_nodup (i : B) (s t : B → Correspondence B) : (births me i s t).Nodup := by
  unfold births
  cases born i s t with
  | none => exact List.nodup_nil
  | some r => exact List.nodup_singleton _

variable [DecidableEq B]

/-- What a store keeps where no record of these is created. -/
structure Kept (s t : B → Correspondence B) : Prop where
  kept : ∀ i r, (s i).conv = some r → ∃ r', (t i).conv = some r' ∧ r'.generation = r.generation
  none_ : ∀ i, (s i).conv = none → (t i).conv = none

/-- A call leaves every other correspondent's records, and creates one of its own only with a
generation it is granted. -/
theorem call_leads {peer : B} {rounds : Nat} {c : Call B} {s t : B → Correspondence B}
    {told : Answered B} {rest : StoreFlow B (Outcome B)}
    (run : Leads (focus (peerOf peer c) (c.flow C P me rounds)) s told rest t) :
    (∀ j, j ≠ peerOf peer c → t j = s j) ∧
    (∀ r, (s (peerOf peer c)).conv = some r →
      ∃ r', (t (peerOf peer c)).conv = some r' ∧ r'.generation = r.generation) ∧
    ∀ r, (s (peerOf peer c)).conv = none → (t (peerOf peer c)).conv = some r →
      grants c told r.generation := by
  have heeds : Heeds (Only (peerOf peer c) (Gains (grants c))) [] (focus (peerOf peer c)
      (c.flow C P me rounds)) := heeds_focus (bound_call c)
  refine Heeds.leads (J := fun heard u => (∀ j, j ≠ peerOf peer c → u j = s j) ∧
      (∀ r, (s (peerOf peer c)).conv = some r →
        ∃ r', (u (peerOf peer c)).conv = some r' ∧ r'.generation = r.generation) ∧
      ∀ r, (s (peerOf peer c)).conv = none → (u (peerOf peer c)).conv = some r →
        grants c heard r.generation)
    ?_ ?_ heeds run ⟨fun _ _ => rfl, fun r held => ⟨r, held, rfl⟩,
    fun r absent held => by cases absent.symm.trans held⟩
  · rintro heard u v ⟨others, kept, born⟩ ⟨gains, only⟩
    refine ⟨fun j ne => (only j ne).trans (others j ne), fun r held => ?_, fun r absent held => ?_⟩
    · obtain ⟨r', held', e⟩ := kept r held
      obtain ⟨r'', held'', e'⟩ := gains.kept r' held'
      exact ⟨r'', held'', e'.trans e⟩
    · cases before : (u (peerOf peer c)).conv with
      | none => exact gains.born r before held
      | some r₀ =>
        obtain ⟨r', held', e⟩ := gains.kept r₀ before
        cases held.symm.trans held'
        exact e ▸ born r₀ absent before
  · rintro heard x u ⟨others, kept, born⟩
    exact ⟨others, kept, fun r absent held => grants_mono (born r absent held) x⟩

theorem bound_settle {granted : Answered B → Nat → Prop} {heard : Answered B} {rounds : Nat}
    {identity : B} {hello : SealedHello B} {verified : Heard B} {secret : B} {slot : Nat} :
    Bound granted heard (settle C P me rounds identity hello verified secret slot) := by
  refine bound_then (bound_correspondenceFor _) fun known heard => ?_
  split
  · refine bound_then bound_load fun s heard => ?_
    split
    · exact bound_then bound_recogniseAcceptance fun _ _ => heeds_pure
    · split
      · exact bound_then (heeds_quiet (quiet_eraseDropSlot _ _)) fun _ _ => heeds_pure
      · exact heeds_pure
  · exact heeds_pure

/-- A section of a scan is one of some correspondent's, and creates no record. -/
def Scans (heard : Answered B) (s t : B → Correspondence B) : Prop :=
  ∃ i, Only i (Gains fun _ _ => False) heard s t

theorem heeds_collectSlot {rounds slot : Nat} {keys : AdvertKeys B} {isBlocked : B → Bool}
    {heard : Answered B} : Heeds Scans heard (collectSlot C P me rounds keys isBlocked slot) := by
  refine heeds_bind (heeds_quiet (Flow.quiet_call _)) fun read told => ?_
  split
  · exact heeds_pure
  · refine heeds_bind (heeds_quiet (Flow.quiet_call _)) fun found told => ?_
    split
    · exact heeds_pure
    · unfold settleVerified
      split
      · exact heeds_pure
      · refine heeds_bind (heeds_settled ?_) fun result told => ?_
        · exact Heeds.mono (fun _ _ _ only => ⟨_, only⟩) (heeds_focus bound_settle)
        · unfold settledAs
          split
          · exact heeds_pure
          · exact heeds_throw
          · exact heeds_pure

theorem scan_leads {rounds slot : Nat} {keys : AdvertKeys B} {isBlocked : B → Bool}
    {s t : B → Correspondence B} {told : Answered B} {rest : StoreFlow B (Option (Surfaced B))}
    (run : Leads (collectSlot C P me rounds keys isBlocked slot) s told rest t) : Kept s t := by
  have heeds : Heeds Scans [] (collectSlot C P me rounds keys isBlocked slot) := heeds_collectSlot
  refine Heeds.leads (J := fun _ u => Kept s u) ?_ (fun _ _ _ kept => kept) heeds run
    ⟨fun i r held => ⟨r, held, rfl⟩, fun _ absent => absent⟩
  rintro heard u v kept ⟨i, gains, only⟩
  constructor
  · intro j r held
    obtain ⟨r', held', e⟩ := kept.kept j r held
    by_cases same : j = i
    · subst same
      obtain ⟨r'', held'', e'⟩ := gains.kept r' held'
      exact ⟨r'', held'', e'.trans e⟩
    · exact ⟨r', (congrArg Correspondence.conv (only j same)).trans held', e⟩
  · intro j absent
    have before := kept.none_ j absent
    by_cases same : j = i
    · subst same
      cases after : (v j).conv with
      | none => rfl
      | some r => exact (gains.born r before after).elim
    · exact (congrArg Correspondence.conv (only j same)).trans before

/-! ## What a scan hands on -/

theorem yields_settle {heard : Answered B} {rounds : Nat} {identity : B} {hello : SealedHello B}
    {verified : Drop.Heard B} {secret : B} {slot : Nat} :
    Yields (fun _ r => ∀ surfaced request, r = .ok surfaced → surfaced.request = some request →
      request = contactRequest identity hello verified secret slot) heard
      (settle C P me rounds identity hello verified secret slot) := by
  have fails : ∀ e (heard : Answered B) (surfaced : Surfaced B) (request : ContactRequest B),
      (.error e : Except FlowError (Surfaced B)) = .ok surfaced → surfaced.request = some request →
        request = contactRequest identity hello verified secret slot := by
    intro e _ _ _ h
    cases h
  refine yields_bind fails fun known heard => ?_
  split
  · refine yields_bind fails fun s heard => ?_
    split
    · refine yields_bind fails fun acceptance heard surfaced request h asked => ?_
      cases h
      cases asked
    · split
      · refine yields_bind fails fun _ heard surfaced request h asked => ?_
        cases h
        cases asked
      · intro surfaced request h asked
        cases h
        exact (Option.some.inj asked).symm
  · intro surfaced request h asked
    cases h
    exact (Option.some.inj asked).symm

/-- What a scan read where it hands on a request. -/
structure HandedOn (C : Crypto B) (P : Platform B) (myPk : B) (keys : AdvertKeys B) (slot : Nat)
    (told : Answered B) (request : ContactRequest B) : Prop where
  opened : ∃ bytes hello decapsulated serial,
    ⟨.readDropSlot myPk slot, (.ok (some bytes) : Except RecordError (Option (Wire B)))⟩ ∈ told ∧
    openAgainstEither C P keys bytes myPk slot = some (hello, decapsulated, serial) ∧
    hello.lookupKey = request.lookupKey
  control : ∃ key control opening bound,
    ⟨.readChannel request.lookupKey controlSubkey,
      (.ok (some (.control key control)) : Except RecordError (Option (Wire B)))⟩ ∈ told ∧
    control.opening = some opening ∧ opening.verify C P myPk request.lookupKey bound = .ok () ∧
    request.identity = opening.writerIdentityPk ∧ request.generation = control.generation

theorem toOption_some {ε α : Type} {x : Except ε α} {a : α} : x.toOption = some a ↔ x = .ok a := by
  cases x <;> simp [Except.toOption]

theorem verifiedBy_some {myPk : B} {hello : SealedHello B} {decapsulated : B} {serial : Nat}
    {found : Except RecordError (Option (Wire B))} {verified : Drop.Heard B}
    (h : verifiedBy C P myPk hello decapsulated serial found = some verified) :
    ∃ key control bound, found = .ok (some (.control key control)) ∧
      control.opening = some verified.opening ∧
      verified.opening.verify C P myPk hello.lookupKey bound = .ok () ∧
      verified.generation = control.generation := by
  unfold verifiedBy at h
  split at h
  · rename_i bytes
    simp only [Option.bind_eq_bind, Option.bind_eq_some_iff] at h
    obtain ⟨control, opens, opening, has, bound, -, _, verifies, h⟩ := h
    cases h
    rw [toOption_some] at opens verifies
    cases bytes with
    | control key plaintext =>
      simp only [openControlWithKey] at opens
      split at opens
      · cases opens
        exact ⟨key, _, bound, rfl, has, verifies, rfl⟩
      · cases opens
    | slot | hello | advert | other => cases opens
  · cases h

/-- A scan hands on only what it read. -/
def Reads (C : Crypto B) (P : Platform B) (myPk : B) (keys : AdvertKeys B) (slot : Nat)
    (told : Answered B) (r : Except FlowError (Option (Surfaced B))) : Prop :=
  ∀ surfaced request, r = .ok (some surfaced) → surfaced.request = some request →
    HandedOn C P myPk keys slot told request

theorem yields_nothing {myPk : B} {keys : AdvertKeys B} {slot : Nat} {told : Answered B} :
    Yields (Reads C P myPk keys slot) told (pure none : StoreFlow B (Option (Surfaced B))) := by
  intro _ _ h
  cases h

theorem yields_settleVerified {rounds slot : Nat} {isBlocked : B → Bool} {hello : SealedHello B}
    {secret : B} {heard : Drop.Heard B} {told : Answered B} :
    Yields (fun later r => told <+: later ∧ ∀ surfaced request, r = .ok (some surfaced) →
      surfaced.request = some request →
      request = contactRequest heard.opening.writerIdentityPk hello heard secret slot) told
      (settleVerified C P me rounds isBlocked slot hello secret heard) := by
  unfold settleVerified
  split
  · refine ⟨List.prefix_rfl, fun surfaced request h asked => ?_⟩
    cases h
    cases asked
  · refine yields_then (yields_settled (yields_focus (yields_settle.extends List.prefix_rfl))) ?_ ?_
    · rintro e later ⟨_, eq, -⟩
      cases eq
    · rintro result later ⟨_, eq, before, settles⟩
      cases eq
      unfold settledAs
      split
      · refine ⟨before, fun surfaced request h asked => ?_⟩
        cases h
        exact settles _ request rfl asked
      · refine ⟨before, fun surfaced request h asked => ?_⟩
        cases h
      · refine ⟨before, fun surfaced request h asked => ?_⟩
        cases h
        cases asked

theorem openedIn_some {keys : AdvertKeys B} {myPk : B} {slot : Nat}
    {read : Except RecordError (Option (Wire B))} {opened : SealedHello B × B × Nat}
    (h : openedIn C P keys myPk slot read = some opened) :
    ∃ bytes, read = .ok (some bytes) ∧ openAgainstEither C P keys bytes myPk slot = some opened := by
  unfold openedIn at h
  split at h
  · exact ⟨_, rfl, h⟩
  · cases h

theorem yields_collectSlot {rounds slot : Nat} {keys : AdvertKeys B} {isBlocked : B → Bool} :
    Yields (Reads C P (P.publicKey me.signer) keys slot) []
      (collectSlot C P me rounds keys isBlocked slot) := by
  refine yields_call fun read => ?_
  split
  · exact yields_nothing
  · rename_i hello decapsulated serial found
    obtain ⟨bytes, rfl, opened⟩ := openedIn_some found
    refine yields_call fun answer => ?_
    split
    · exact yields_nothing
    · rename_i heard verified
      obtain ⟨key, control, bound, rfl, has, verifies, names⟩ := verifiedBy_some verified
      refine yields_settleVerified.mono fun told r h => ?_
      obtain ⟨before, settles⟩ := h
      intro surfaced request eq asked
      cases settles surfaced request eq asked
      refine ⟨⟨bytes, hello, decapsulated, serial, before.subset ?_, opened, rfl⟩,
        ⟨key, control, heard.opening, bound, before.subset ?_, has, verifies, rfl, names⟩⟩
      · simp
      · simp [contactRequest]

theorem scan_hands {rounds slot : Nat} {keys : AdvertKeys B} {isBlocked : B → Bool}
    {s t : B → Correspondence B} {told : Answered B} {surfaced : Surfaced B}
    {request : ContactRequest B}
    (run : Leads (collectSlot C P me rounds keys isBlocked slot) s told
      (.done (.ok (some surfaced))) t) (asked : surfaced.request = some request) :
    HandedOn C P (P.publicKey me.signer) keys slot told request :=
  yields_collectSlot.leads run surfaced request rfl asked

/-! ## Histories -/

/-- A store, the channels its records were ever created with, the requests scans handed on and
those that made a record, and the conversations deleted, by their generation. -/
structure History (B : Type) where
  store : B → Correspondence B
  created : List (ChannelOwner B)
  handedOn : List (ContactRequest B)
  answered : List (ContactRequest B)
  former : List (B × Nat)

inductive Op (B : Type)
  | call (peer : B) (c : Call B)
  | scan (keys : AdvertKeys B) (isBlocked : B → Bool) (slot : Nat)
  | deleteConv (peer : B)

/-- The request a call answers where a record comes to be. -/
def answers (i : B) (s t : B → Correspondence B) : Call B → List (ContactRequest B)
  | .accept request _ _ => ((born i s t).map fun _ => request).toList
  | _ => []

/-- The request a scan that went to its end handed on. -/
def requests : StoreFlow B (Option (Surfaced B)) → List (ContactRequest B)
  | .done (.ok (some surfaced)) => surfaced.request.toList
  | _ => []

def deaths (i : B) (s : B → Correspondence B) : List (B × Nat) :=
  ((s i).conv.map fun r => (i, r.generation)).toList

/-- Every control record that verifies is one of the channel its writer derived under the
generation it names. -/
def Honest (C : Crypto B) (P : Platform B) (me : Me B) (channelOf : B → Nat → B) (told : Answered B) :
    Prop :=
  ∀ lookupKey key control opening bound,
    ⟨.readChannel lookupKey controlSubkey,
      (.ok (some (.control key control)) : Except RecordError (Option (Wire B)))⟩ ∈ told →
    control.opening = some opening →
    opening.verify C P (P.publicKey me.signer) lookupKey bound = .ok () →
    lookupKey = channelOf opening.writerIdentityPk control.generation

/-- What is drawn was never drawn before. -/
def Fresh (h : History B) (told : Answered B) : Prop :=
  ∀ g, ⟨.generation, (some g : Option Nat)⟩ ∈ told → ∀ o ∈ h.created, o.generation ≠ g

/-- A call accepts only what a scan handed on. -/
def Accepts (h : History B) : Call B → Prop
  | .accept request _ _ => request ∈ h.handedOn
  | _ => True

/-- What one operation does, with what it is answered. -/
inductive Step (C : Crypto B) (P : Platform B) (me : Me B) (channelOf : B → Nat → B) :
    History B → Op B × Answered B → History B → Prop
  | call {h : History B} {peer : B} {c : Call B} {rounds : Nat} {told : Answered B}
    {rest : StoreFlow B (Outcome B)} {store : B → Correspondence B}
    (run : Leads (focus (peerOf peer c) (c.flow C P me rounds)) h.store told rest store)
    (accepts : Accepts h c) (fresh : Fresh h told) :
    Step C P me channelOf h (.call peer c, told)
      { h with
        store
        created := h.created ++ births me (peerOf peer c) h.store store
        answered := h.answered ++ answers (peerOf peer c) h.store store c }
  | scan {h : History B} {keys : AdvertKeys B} {isBlocked : B → Bool} {slot rounds : Nat}
    {told : Answered B} {rest : StoreFlow B (Option (Surfaced B))} {store : B → Correspondence B}
    (run : Leads (collectSlot C P me rounds keys isBlocked slot) h.store told rest store)
    (honest : Honest C P me channelOf told) :
    Step C P me channelOf h (.scan keys isBlocked slot, told)
      { h with store, handedOn := h.handedOn ++ requests rest }
  | deleteConv {h : History B} {peer : B} {told : Answered B} {rest : StoreFlow B Unit}
    {store : B → Correspondence B}
    (run : Leads (focus peer deleteConv) h.store told rest store) (gone : (store peer).conv = none) :
    Step C P me channelOf h (.deleteConv peer, told)
      { h with store, former := h.former ++ deaths peer h.store }

/-- No hello and no request that names the channel of a deleted conversation's correspondent is
taken up: none that a scan reads opens, and none is accepted. -/
def Sound (C : Crypto B) (P : Platform B) (me : Me B) (channelOf : B → Nat → B) (h : History B) :
    Op B × Answered B → Prop
  | (.call _ (.accept request _ _), _) => ∀ g, (request.identity, g) ∈ h.former →
    request.lookupKey ≠ channelOf request.identity g
  | (.scan keys _ slot, told) => ∀ bytes hello decapsulated serial,
    ⟨.readDropSlot (P.publicKey me.signer) slot,
      (.ok (some bytes) : Except RecordError (Option (Wire B)))⟩ ∈ told →
    openAgainstEither C P keys bytes (P.publicKey me.signer) slot = some (hello, decapsulated, serial) →
    ∀ i g, (i, g) ∈ h.former → hello.lookupKey ≠ channelOf i g
  | _ => True

/-- Every channel is of a record there is or of a deleted one, no two are one, and every request
names the channel its writer derived under the generation it names. -/
structure Inv (me : Me B) (channelOf : B → Nat → B) (h : History B) : Prop where
  live : ∀ o ∈ h.created, (o.peerIdentityPk, o.generation) ∈ h.former ∨
    ∃ r, (h.store o.peerIdentityPk).conv = some r ∧ r.generation = o.generation
  known : ∀ i r, (h.store i).conv = some r → ⟨me.channelRoot, i, r.generation⟩ ∈ h.created
  deleted : ∀ i g, (i, g) ∈ h.former → ⟨me.channelRoot, i, g⟩ ∈ h.created
  nodup : h.created.Nodup
  named : ∀ r ∈ h.handedOn, r.lookupKey = channelOf r.identity r.generation
  answered : ∀ r ∈ h.answered, r ∈ h.handedOn

variable {channelOf : B → Nat → B} {h h' : History B} {told : Answered B}

/-- A request a scan hands on names the channel its writer derived. -/
theorem requests_named {keys : AdvertKeys B} {isBlocked : B → Bool} {slot rounds : Nat}
    {s t : B → Correspondence B} {rest : StoreFlow B (Option (Surfaced B))}
    (run : Leads (collectSlot C P me rounds keys isBlocked slot) s told rest t)
    (honest : Honest C P me channelOf told) {r : ContactRequest B} (mem : r ∈ requests rest) :
    HandedOn C P (P.publicKey me.signer) keys slot told r ∧
      r.lookupKey = channelOf r.identity r.generation := by
  unfold requests at mem
  split at mem
  · have handed := scan_hands run (Option.mem_toList.1 mem)
    refine ⟨handed, ?_⟩
    obtain ⟨key, control, opening, bound, read, has, verifies, writer, generation⟩ := handed.control
    rw [writer, generation]
    exact honest _ key control opening bound read has verifies
  · cases mem

section Steps
variable {peer : B} {c : Call B} {rounds : Nat} {rest : StoreFlow B (Outcome B)}
  {store : B → Correspondence B}

omit [DecidableEq B] in
/-- A request that names no deleted conversation's channel names a new one, where there is no
record. -/
theorem request_new (inv : Inv me channelOf h) {request : ContactRequest B}
    (accepts : request ∈ h.handedOn)
    (sound : ∀ g, (request.identity, g) ∈ h.former →
      request.lookupKey ≠ channelOf request.identity g)
    (absent : (h.store request.identity).conv = none) :
    ⟨me.channelRoot, request.identity, request.generation⟩ ∉ h.created := by
  intro mem
  rcases inv.live _ mem with deleted | ⟨r, there, -⟩
  · exact sound request.generation deleted (inv.named request accepts)
  · cases absent.symm.trans there

/-- The channel a call gives a record is a new one, where the request it accepts names no deleted
conversation's. -/
theorem births_new (inv : Inv me channelOf h)
    (run : Leads (focus (peerOf peer c) (c.flow C P me rounds)) h.store told rest store)
    (accepts : Accepts h c) (fresh : Fresh h told) (sound : Sound C P me channelOf h (.call peer c, told))
    {o : ChannelOwner B} (birth : o ∈ births me (peerOf peer c) h.store store) : o ∉ h.created := by
  obtain ⟨r, came, rfl⟩ := Option.map_eq_some_iff.1 (Option.mem_toList.1 birth)
  obtain ⟨absent, held⟩ := born_some came
  have granted := (call_leads run).2.2 r absent held
  intro mem
  cases c with
  | firstContact => exact fresh r.generation granted _ mem rfl
  | accept request reply now =>
    have granted : r.generation = request.generation := granted
    rw [granted] at mem
    exact request_new inv accepts sound absent mem
  | continueFirstContact | resumeFirstContact | refreshFirstContact | continueAcceptance
  | recogniseAcceptance | commitMessage | sendMessage | collectStep | publishCursor
  | takePeerCursor | deleteOutboxThrough | reset | markDeletePending => exact granted.elim

theorem inv_call (inv : Inv me channelOf h)
    (run : Leads (focus (peerOf peer c) (c.flow C P me rounds)) h.store told rest store)
    (accepts : Accepts h c)
    (new : ∀ o ∈ births me (peerOf peer c) h.store store, o ∉ h.created) :
    Inv me channelOf
      { h with
        store
        created := h.created ++ births me (peerOf peer c) h.store store
        answered := h.answered ++ answers (peerOf peer c) h.store store c } := by
  obtain ⟨others, kept, -⟩ := call_leads run
  have birth {r : ConvState B} (absent : (h.store (peerOf peer c)).conv = none)
      (held : (store (peerOf peer c)).conv = some r) :
      ⟨me.channelRoot, peerOf peer c, r.generation⟩ ∈ births me (peerOf peer c) h.store store := by
    simp [births, born, absent, held]
  refine ⟨fun o mem => ?_, fun i r held => ?_, fun i g gone => ?_, ?_, inv.named, fun r mem => ?_⟩
  · rcases List.mem_append.1 mem with old | came
    · refine (inv.live o old).imp_right fun ⟨r, held, e⟩ => ?_
      by_cases same : o.peerIdentityPk = peerOf peer c
      · rw [same] at held ⊢
        obtain ⟨r', held', e'⟩ := kept r held
        exact ⟨r', held', e'.trans e⟩
      · exact ⟨r, (congrArg Correspondence.conv (others _ same)).trans held, e⟩
    · obtain ⟨r, comes, rfl⟩ := Option.map_eq_some_iff.1 (Option.mem_toList.1 came)
      exact .inr ⟨r, (born_some comes).2, rfl⟩
  · by_cases same : i = peerOf peer c
    · subst same
      cases before : (h.store (peerOf peer c)).conv with
      | none => exact List.mem_append_right _ (birth before held)
      | some r₀ =>
        obtain ⟨r', held', e⟩ := kept r₀ before
        cases held.symm.trans held'
        rw [e]
        exact List.mem_append_left _ (inv.known _ r₀ before)
    · have before := (congrArg Correspondence.conv (others i same)).symm.trans held
      exact List.mem_append_left _ (inv.known i r before)
  · exact List.mem_append_left _ (inv.deleted i g gone)
  · refine List.nodup_append.2 ⟨inv.nodup, births_nodup _ _ _, fun o old o' came e => ?_⟩
    exact new o' came (e ▸ old)
  · rcases List.mem_append.1 mem with old | came
    · exact inv.answered r old
    · cases c with
      | accept request reply now =>
        obtain ⟨_, -, rfl⟩ := Option.map_eq_some_iff.1 (Option.mem_toList.1 came)
        exact accepts
      | firstContact | continueFirstContact | resumeFirstContact | refreshFirstContact
      | continueAcceptance | recogniseAcceptance | commitMessage | sendMessage | collectStep
      | publishCursor | takePeerCursor | deleteOutboxThrough | reset | markDeletePending => cases came

theorem inv_scan (inv : Inv me channelOf h) {keys : AdvertKeys B} {isBlocked : B → Bool} {slot : Nat}
    {rest : StoreFlow B (Option (Surfaced B))}
    (run : Leads (collectSlot C P me rounds keys isBlocked slot) h.store told rest store)
    (honest : Honest C P me channelOf told) :
    Inv me channelOf { h with store, handedOn := h.handedOn ++ requests rest } := by
  have kept := scan_leads run
  refine ⟨fun o mem => ?_, fun i r held => ?_, inv.deleted, inv.nodup, fun r mem => ?_,
    fun r mem => List.mem_append_left _ (inv.answered r mem)⟩
  · refine (inv.live o mem).imp_right fun ⟨r, held, e⟩ => ?_
    obtain ⟨r', held', e'⟩ := kept.kept _ r held
    exact ⟨r', held', e'.trans e⟩
  · cases before : (h.store i).conv with
    | none => cases (kept.none_ i before).symm.trans held
    | some r₀ =>
      obtain ⟨r', held', e⟩ := kept.kept i r₀ before
      cases held.symm.trans held'
      rw [e]
      exact inv.known i r₀ before
  · rcases List.mem_append.1 mem with old | came
    · exact inv.named r old
    · exact (requests_named run honest came).2

theorem delete_leads {rest : StoreFlow B Unit}
    (run : Leads (focus peer deleteConv) h.store told rest store) :
    ∀ j, j ≠ peer → store j = h.store j := by
  have heeds : Heeds (Only peer fun _ _ _ => True) [] (focus peer (deleteConv : DmFlow B Unit)) :=
    heeds_focus ⟨fun _ => trivial, fun _ => trivial⟩
  refine Heeds.leads (J := fun _ u => ∀ j, j ≠ peer → u j = h.store j) ?_ ?_ heeds run fun _ _ => rfl
  · intro _ u v same only j ne
    exact (only.2 j ne).trans (same j ne)
  · intro _ _ u same
    exact same

theorem inv_delete (inv : Inv me channelOf h) {rest : StoreFlow B Unit}
    (run : Leads (focus peer deleteConv) h.store told rest store) (gone : (store peer).conv = none) :
    Inv me channelOf { h with store, former := h.former ++ deaths peer h.store } := by
  have others := delete_leads run
  refine ⟨fun o mem => ?_, fun i r held => ?_, fun i g mem => ?_, inv.nodup, inv.named, inv.answered⟩
  · rcases inv.live o mem with deleted | ⟨r, held, e⟩
    · exact .inl (List.mem_append_left _ deleted)
    · by_cases same : o.peerIdentityPk = peer
      · refine .inl (List.mem_append_right _ ?_)
        rw [same] at held
        simp [deaths, held, same, e]
      · exact .inr ⟨r, (congrArg Correspondence.conv (others _ same)).trans held, e⟩
  · by_cases same : i = peer
    · subst same
      cases gone.symm.trans held
    · exact inv.known i r ((congrArg Correspondence.conv (others i same)).symm.trans held)
  · rcases List.mem_append.1 mem with old | came
    · exact inv.deleted i g old
    · obtain ⟨r, held, e⟩ := Option.map_eq_some_iff.1 (Option.mem_toList.1 came)
      cases e
      exact inv.known peer r held

end Steps

theorem inv_step (inv : Inv me channelOf h) {a : Op B × Answered B} (sound : Sound C P me channelOf h a)
    (step : Step C P me channelOf h a h') : Inv me channelOf h' := by
  cases step with
  | call run accepts fresh =>
    exact inv_call inv run accepts fun _ birth => births_new inv run accepts fresh sound birth
  | scan run honest => exact inv_scan inv run honest
  | deleteConv run gone => exact inv_delete inv run gone

/-- A store that holds nothing. -/
def start : History B := ⟨fun _ => ⟨none, fun _ => none⟩, [], [], [], []⟩

omit [DecidableEq B] in
theorem start_inv : Inv me channelOf (start : History B) where
  live _ mem := by cases mem
  known _ _ held := by cases held
  deleted _ _ mem := by cases mem
  nodup := List.nodup_nil
  named _ mem := by cases mem
  answered _ mem := by cases mem

/-- An acceptance that makes a record of a request gives it the channel of a deleted conversation
where the request names that one's. -/
theorem accept_reuses (inv : Inv me channelOf h) (distinct : ∀ i, Function.Injective (channelOf i))
    {request : ContactRequest B} {reply : B} {now rounds : Nat} {rest : StoreFlow B (Outcome B)}
    {store : B → Correspondence B}
    (run : Leads (focus request.identity ((Call.accept request reply now).flow C P me rounds)) h.store
      told rest store) (accepts : request ∈ h.handedOn)
    (came : born request.identity h.store store ≠ none) :
    (h.created ++ births me request.identity h.store store).Nodup ↔
      ∀ g, (request.identity, g) ∈ h.former → request.lookupKey ≠ channelOf request.identity g := by
  obtain ⟨r, comes⟩ := Option.ne_none_iff_exists'.1 came
  obtain ⟨absent, held⟩ := born_some comes
  have leads : Leads (focus (peerOf request.identity (.accept request reply now))
      ((Call.accept request reply now).flow C P me rounds)) h.store told rest store := run
  have granted : r.generation = request.generation := (call_leads leads).2.2 r absent held
  have birth : births me request.identity h.store store =
      [⟨me.channelRoot, request.identity, request.generation⟩] := by
    simp [births, comes, granted]
  rw [birth]
  constructor
  · intro nodup g gone names
    have same : request.generation = g :=
      distinct request.identity ((inv.named request accepts).symm.trans names)
    exact (List.nodup_append.1 nodup).2.2 _ (inv.deleted _ g gone) _ (List.mem_singleton_self _)
      (same ▸ rfl)
  · intro sound
    refine List.nodup_append.2 ⟨inv.nodup, List.nodup_singleton _, fun o old o' new e => ?_⟩
    rw [e, List.mem_singleton.1 new] at old
    exact request_new inv accepts sound absent old

/-- In a history that takes up no hello and no request of a deleted conversation's correspondent's
channel, no two records are created with one channel, and no scan that takes up none hands on a
request naming a channel whose answered conversation was deleted. An acceptance that takes one up
and makes a record gives it a channel again. -/
theorem one_channel (distinct : ∀ i, Function.Injective (channelOf i)) {acts : List (Op B × Answered B)}
    (run : Trail (fun h a h' => Sound C P me channelOf h a ∧ Step C P me channelOf h a h') start acts h) :
    h.created.Nodup ∧
    (∀ keys isBlocked slot rounds told rest store,
      Leads (collectSlot C P me rounds keys isBlocked slot) h.store told rest store →
      Honest C P me channelOf told → Sound C P me channelOf h (.scan keys isBlocked slot, told) →
      ∀ request ∈ requests rest, ∀ old ∈ h.answered, (old.identity, old.generation) ∈ h.former →
        request.lookupKey ≠ old.lookupKey) ∧
    ∀ request reply now rounds told rest store, request ∈ h.handedOn →
      Leads (focus request.identity ((Call.accept request reply now).flow C P me rounds)) h.store
        told rest store →
      born request.identity h.store store ≠ none →
      ((h.created ++ births me request.identity h.store store).Nodup ↔
        ∀ g, (request.identity, g) ∈ h.former →
          request.lookupKey ≠ channelOf request.identity g) := by
  have inv : Inv me channelOf h := Trail.invariant (I := Inv me channelOf)
    (fun _ _ _ inv step => inv_step inv step.1 step.2) run start_inv
  refine ⟨inv.nodup, ?_, ?_⟩
  · intro keys isBlocked slot rounds told rest store leads honest sound request mem old was gone same
    obtain ⟨handed, -⟩ := requests_named leads honest mem
    obtain ⟨bytes, hello, decapsulated, serial, read, opened, names⟩ := handed.opened
    refine sound bytes hello decapsulated serial read opened old.identity old.generation gone ?_
    rw [names, same]
    exact inv.named old (inv.answered old was)
  · intro request reply now rounds told rest store accepts leads came
    exact accept_reuses inv distinct leads accepts came

/-! ## A hello read again -/

open Daemonseed.Dm.Symbolic
open Daemonseed.Dm.RecordInvariant (here there)

/-- The channel a correspondent derives under a generation. -/
def derived (identity : Term) (generation : Nat) : Term := .be64 generation identity

theorem derived_distinct (identity : Term) : Function.Injective (derived identity) := by
  intro g g' e
  cases e
  rfl

def hereKeys : AdvertKeys Term := ⟨⟨3, .dk (.rand 3) (.rand 4)⟩, none⟩

def thereHello : SealedHello Term where
  kemCt := .ct (.ek (.rand 3) (.rand 4)) (.rand 9)
  secret := .ss (.ek (.rand 3) (.rand 4)) (.rand 9)
  recipient := symbolicPlatform.publicKey here.signer
  lookupKey := derived there 7
  r := .rand 20
  original := none

def thereControl : Control Term where
  opening := some (ChannelOpening.build symbolic symbolicPlatform (.rand 200)
    (symbolicPlatform.publicKey here.signer) (derived there 7) (.ek (.rand 1) (.rand 2)) 3)
  collectedCursor := 0
  closed := false
  generation := 7

/-- A drop and a record store that hold one hello and its channel for good. -/
def network : (q : Query Term) → Option (Reply q)
  | .readDropSlot _ _ => some (.ok (some (.hello thereHello)) : Except RecordError (Option (Wire Term)))
  | .readChannel lookupKey _ =>
    some (.ok (if lookupKey = derived there 7 then
      some (.control (controlKey symbolic thereHello.secret) thereControl) else none) :
      Except RecordError (Option (Wire Term)))
  | .openChannel _ => some (.ok (.data 2) : Except RecordError Term)
  | .entropy => some (([some (.rand 11), some (.rand 12), some (.rand 13)], some (.data 14)) :
      List (Option Term) × Option Term)
  | _ => none

def thereRequest : ContactRequest Term where
  identity := there
  lookupKey := derived there 7
  firstRatchetPk := .ek (.rand 1) (.rand 2)
  slot := 0
  advertSerial := 3
  sharedSecret := thereHello.secret
  generation := 7

def thereAccept : Call Term := .accept thereRequest (.data 30) 0

def scanned (store : Term → Correspondence Term) :=
  follow network (collectSlot symbolic symbolicPlatform here 1 hereKeys (fun _ => false) 0) store

def accepted (store : Term → Correspondence Term) :=
  follow network (focus there (thereAccept.flow symbolic symbolicPlatform here 1)) store

def deleted (store : Term → Correspondence Term) :=
  follow network (focus there (deleteConv : DmFlow Term Unit)) store

theorem scanned_honest (store : Term → Correspondence Term) :
    Honest symbolic symbolicPlatform here derived (scanned store).1 := by
  intro lookupKey key control opening bound mem has _
  have read : network (.readChannel lookupKey controlSubkey) = _ := follow_told mem
  simp only [network] at read
  split at read
  · rename_i there_
    cases read
    cases has
    exact there_
  · cases read

theorem accepted_fresh (h : History Term) (store : Term → Correspondence Term) :
    Fresh h (accepted store).1 := by
  intro g mem
  have read : network .generation = _ := follow_told mem
  cases read

def afterScan (h : History Term) : History Term :=
  { h with
    store := (scanned h.store).2.2
    handedOn := h.handedOn ++ requests (scanned h.store).2.1 }

def afterAccept (h : History Term) : History Term :=
  { h with
    store := (accepted h.store).2.2
    created := h.created ++ births here there h.store (accepted h.store).2.2
    answered := h.answered ++ answers there h.store (accepted h.store).2.2 thereAccept }

def afterDelete (h : History Term) : History Term :=
  { h with store := (deleted h.store).2.2, former := h.former ++ deaths there h.store }

theorem step_scan (h : History Term) : Step symbolic symbolicPlatform here derived h
    (.scan hereKeys (fun _ => false) 0, (scanned h.store).1) (afterScan h) :=
  .scan (follow_leads network _ h.store) (scanned_honest h.store)

theorem step_accept {h : History Term} (accepts : thereRequest ∈ h.handedOn) :
    Step symbolic symbolicPlatform here derived h
      (.call there thereAccept, (accepted h.store).1) (afterAccept h) :=
  .call (follow_leads network _ h.store) accepts (accepted_fresh h h.store)

theorem step_delete {h : History Term} (gone : ((deleted h.store).2.2 there).conv = none) :
    Step symbolic symbolicPlatform here derived h
      (.deleteConv there, (deleted h.store).1) (afterDelete h) :=
  .deleteConv (follow_leads network _ h.store) gone

/-- The correspondent's hello, and its conversation. -/
def met : History Term := afterScan start

def talked : History Term := afterAccept met

def parted : History Term := afterDelete talked

theorem met_handedOn : thereRequest ∈ met.handedOn := by decide +kernel

theorem one_channel_talked : talked.created = [⟨here.channelRoot, there, 7⟩] ∧ talked.created.Nodup := by
  have run : Trail (fun h a h' => Sound symbolic symbolicPlatform here derived h a ∧
      Step symbolic symbolicPlatform here derived h a h') start
      [(.scan hereKeys (fun _ => false) 0, (scanned (start : History Term).store).1),
        (.call there thereAccept, (accepted met.store).1)] talked := by
    refine .cons ⟨?_, step_scan start⟩ (.cons ⟨?_, step_accept met_handedOn⟩ (.nil _))
    · intro _ _ _ _ _ _ i g mem
      cases mem
    · intro g mem
      cases mem
  exact ⟨by decide +kernel, (one_channel derived_distinct run).1⟩

/-- After the delete, the hello still in the drop is handed on again, and accepting it makes a
record with the channel of the deleted one. -/
theorem hello_read_again : ∃ acts, Trail (Step symbolic symbolicPlatform here derived) start acts parted ∧
    thereRequest ∈ parted.answered ∧ (thereRequest.identity, thereRequest.generation) ∈ parted.former ∧
    (∃ told rest store, Leads (collectSlot symbolic symbolicPlatform here 1 hereKeys (fun _ => false) 0)
        parted.store told rest store ∧
      Honest symbolic symbolicPlatform here derived told ∧ thereRequest ∈ requests rest) ∧
    ∃ acts h, Trail (Step symbolic symbolicPlatform here derived) parted acts h ∧
      h.created = [⟨here.channelRoot, there, 7⟩, ⟨here.channelRoot, there, 7⟩] := by
  have gone : ((deleted talked.store).2.2 there).conv = none := by decide +kernel
  have again : thereRequest ∈ (afterScan parted).handedOn := by decide +kernel
  refine ⟨_, .cons (step_scan start) (.cons (step_accept met_handedOn) (.cons (step_delete gone) (.nil _))),
    by decide +kernel, by decide +kernel, ⟨_, _, _, follow_leads network _ parted.store,
      scanned_honest parted.store, ?_⟩,
    _, afterAccept (afterScan parted), .cons (step_scan parted) (.cons (step_accept again) (.nil _)), ?_⟩
  · show thereRequest ∈ requests (scanned parted.store).2.1
    decide +kernel
  · decide +kernel

end Daemonseed.Dm.OneChannel
