import Daemonseed.Dm.OneChannel

/-! # What a scan surfaces is authentic and addressed

Whatever a drop and the channels hold, and whoever wrote it there: a hello is surfaced
under an identity only where that identity signed an opening to this one, for the channel
the hello names and under the serial it came under, and where the channel opens under the
secret the hello carries. -/
namespace Daemonseed.Dm.Surfacing
open Daemonseed.Dm.Primitives Daemonseed.Dm.Channel Daemonseed.Dm.Records Daemonseed.Dm.Store
  Daemonseed.Dm.Flows Daemonseed.Dm.Contact Daemonseed.Dm.Drop Daemonseed.Dm.Generations
  Daemonseed.Dm.OneChannel Daemonseed.Lib.Flows Daemonseed.Lib.Solo

variable {B : Type} [DecidableEq B] {C : Crypto B} {P : Platform B}

/-- A request, a start-over and an acceptance. -/
def surfacesContact : Surfaced B → Bool
  | .contactRequest _ | .startedOver _ | .accepted _ => true
  | _ => false

/-- What a scan surfaces of a verified hello. -/
inductive SurfacedOf (hello : SealedHello B) (heard : Heard B) (secret : B) (slot : Nat) :
    Surfaced B → Prop
  | contactRequest : SurfacedOf hello heard secret slot
      (.contactRequest (contactRequest heard.opening.writerIdentityPk hello heard secret slot))
  | startedOver : SurfacedOf hello heard secret slot
      (.startedOver (contactRequest heard.opening.writerIdentityPk hello heard secret slot))
  | accepted {a : Acceptance B} (names : a.lookupKey = hello.lookupKey) :
      SurfacedOf hello heard secret slot (.accepted a)

/-- What a scan was answered, and what it made of it. -/
structure Verified (C : Crypto B) (P : Platform B) (myPk : B) (keys : AdvertKeys B) (slot : Nat)
    (told : Answered B) (hello : SealedHello B) (decapsulated : B) (serial : Nat)
    (heard : Heard B) : Prop where
  opened : ∃ bytes,
    ⟨.readDropSlot myPk slot, (.ok (some bytes) : Except RecordError (Option (Wire B)))⟩ ∈ told ∧
    openAgainstEither C P keys bytes myPk slot = some (hello, decapsulated, serial)
  verified : ∃ found,
    ⟨.readChannel hello.lookupKey controlSubkey, found⟩ ∈ told ∧
    verifiedBy C P myPk hello decapsulated serial found = some heard

section

variable {me : Me B} {rounds slot : Nat} {keys : AdvertKeys B} {isBlocked : B → Bool}
  {hello : SealedHello B} {heard : Heard B} {secret : B} {told : Answered B}

theorem yields_recogniseAcceptance {lookupKey peerSecret : B} {peerCursor : Nat} :
    Yields (fun _ r => ∀ a, r = .ok a → a.lookupKey = lookupKey) told
      (recogniseAcceptance C P me rounds lookupKey peerCursor peerSecret slot) := by
  have fails : ∀ e (_ : Answered B) (a : Acceptance B),
      (.error e : Except FlowError (Acceptance B)) = .ok a → a.lookupKey = lookupKey := by
    intro e _ a h
    cases h
  refine yields_bind fails fun state _ => yields_bind fails fun _ _ => ?_
  refine yields_bind fails fun asLoaded _ => yields_bind fails fun ring _ => ?_
  refine yields_bind fails fun read _ => yields_bind fails fun _ _ => ?_
  refine yields_bind fails fun _ _ a h => ?_
  cases h
  rfl

theorem yields_surfaced : Yields (fun _ r => ∀ surfaced, r = .ok surfaced →
      surfacesContact surfaced = true → SurfacedOf hello heard secret slot surfaced) told
    (settle C P me rounds heard.opening.writerIdentityPk hello heard secret slot) := by
  have fails : ∀ e (_ : Answered B) (surfaced : Surfaced B),
      (.error e : Except FlowError (Surfaced B)) = .ok surfaced →
        surfacesContact surfaced = true → SurfacedOf hello heard secret slot surfaced := by
    intro e _ surfaced h
    cases h
  refine yields_bind fails fun known _ => ?_
  split
  · refine yields_bind fails fun state _ => ?_
    split
    · refine yields_then yields_recogniseAcceptance (fun e later _ => fails e later) fun a _ names => ?_
      intro surfaced h _
      cases h
      exact .accepted (names a rfl)
    · split
      · refine yields_bind fails fun _ _ surfaced h contact => ?_
        cases h
        cases contact
      · intro surfaced h _
        cases h
        exact .startedOver
  · intro surfaced h _
    cases h
    exact .contactRequest

theorem yields_settleVerified : Yields (fun _ r => ∀ surfaced, r = .ok (some surfaced) →
      surfacesContact surfaced = true → SurfacedOf hello heard secret slot surfaced) told
    (settleVerified C P me rounds isBlocked slot hello secret heard) := by
  unfold settleVerified
  split
  · intro surfaced h contact
    cases h
    cases contact
  · refine yields_then (yields_settled (yields_focus yields_surfaced)) ?_ ?_
    · rintro e later ⟨_, eq, -⟩
      cases eq
    · rintro result later ⟨_, eq, surfaces⟩
      cases eq
      unfold settledAs
      split
      · intro surfaced h contact
        cases h
        exact surfaces _ rfl contact
      · intro surfaced h
        cases h
      · intro surfaced h contact
        cases h
        cases contact

/-- What is settled is settled with the identity that signed the opening. -/
theorem heeds_settleVerified :
    Heeds (fun _ s t => ∀ j, j ≠ heard.opening.writerIdentityPk → t j = s j) told
      (settleVerified C P me rounds isBlocked slot hello secret heard) := by
  unfold settleVerified
  split
  · exact heeds_pure
  · refine heeds_bind (heeds_settled ?_) fun result told => ?_
    · have bound : Bound (fun _ _ => False) told
          (settle C P me rounds heard.opening.writerIdentityPk hello heard secret slot) := bound_settle
      exact (heeds_focus bound).mono fun _ _ _ only => only.2
    · unfold settledAs
      split
      · exact heeds_pure
      · exact heeds_throw
      · exact heeds_pure

theorem leads_call {σ Q ε α : Type} {A : Q → Type} {q : Q} {k : A q → Flow σ Q A ε α} {s t : σ}
    {told : Told A} {r : Except ε α} (run : Leads (Flow.call q >>= k) s told (.done r) t) :
    ∃ a later, told = ⟨q, a⟩ :: later ∧ Leads (k a) s later (.done r) t := by
  have asked : Leads (.ask q k) s told (.done r) t := run
  cases asked with
  | @asks _ _ a _ _ later _ rest => exact ⟨a, later, rfl, rest⟩

/-- A scan surfaces what one verified hello makes, and touches one correspondence. -/
theorem scan_surfaces {s t : B → Correspondence B} {surfaced : Surfaced B}
    (run : Leads (collectSlot C P me rounds keys isBlocked slot) s told
      (.done (.ok (some surfaced))) t) (contact : surfacesContact surfaced = true) :
    ∃ hello decapsulated serial heard,
      Verified C P (P.publicKey me.signer) keys slot told hello decapsulated serial heard ∧
      SurfacedOf hello heard (hello.original.getD decapsulated) slot surfaced ∧
      ∀ j, j ≠ heard.opening.writerIdentityPk → t j = s j := by
  unfold collectSlot at run
  obtain ⟨read, as, rfl, rest⟩ := leads_call run
  split at rest
  · cases rest
  · rename_i hello decapsulated serial found
    obtain ⟨bytes, rfl, opened⟩ := openedIn_some found
    unfold verifyOpened at rest
    obtain ⟨control, later, rfl, ended⟩ := leads_call rest
    split at ended
    · cases ended
    · rename_i heard verified
      refine ⟨hello, decapsulated, serial, heard,
        ⟨⟨bytes, by simp, opened⟩, control, by simp, verified⟩, ?_, ?_⟩
      · have yields : Yields _ ([] : Answered B) (settleVerified C P me rounds isBlocked slot hello
            (hello.original.getD decapsulated) heard) := yields_settleVerified
        exact yields.leads ended surfaced rfl contact
      · have heeds : Heeds _ ([] : Answered B) (settleVerified C P me rounds isBlocked slot hello
            (hello.original.getD decapsulated) heard) := heeds_settleVerified
        refine Heeds.leads (J := fun (_ : Answered B) (u : B → Correspondence B) =>
            ∀ j, j ≠ heard.opening.writerIdentityPk → u j = s j)
          ?_ (fun _ _ _ kept => kept) heeds ended fun _ _ => rfl
        exact fun _ u v kept step j ne => (step j ne).trans (kept j ne)

/-! ## What was read -/

theorem openAgainstEither_some {bytes : Wire B} {myPk decapsulated : B} {serial : Nat}
    (h : openAgainstEither C P keys bytes myPk slot = some (hello, decapsulated, serial)) :
    bytes = .hello hello ∧ keys.decapsulate C serial hello.kemCt = some decapsulated ∧
      hello.recipient = myPk ∧ dropSlotFor C P hello.r = slot := by
  unfold openAgainstEither at h
  split at h
  · rename_i hello'
    obtain ⟨serial', -, found⟩ := List.exists_of_findSome?_eq_some h
    obtain ⟨secret, selected, opened⟩ := Option.bind_eq_some_iff.1 found
    split at opened
    · rename_i opens
      cases opened
      simp only [openHello, Bool.and_eq_true, beq_iff_eq] at opens
      exact ⟨rfl, selected, opens.1.1.2, opens.2⟩
    · cases opened
  · cases h

theorem verifiedBy_spec {myPk decapsulated : B} {serial : Nat}
    {found : Except RecordError (Option (Wire B))}
    (h : verifiedBy C P myPk hello decapsulated serial found = some heard) : ∃ control,
      found = .ok (some (.control (controlKey C (hello.original.getD decapsulated)) control)) ∧
      control.opening = some heard.opening ∧ ∃ bound,
        openingSerial hello.original.isSome serial heard.opening = some bound ∧
        heard.opening.verify C P myPk hello.lookupKey bound = .ok () := by
  unfold verifiedBy at h
  split at h
  · rename_i bytes
    simp only [Option.bind_eq_bind, Option.bind_eq_some_iff] at h
    obtain ⟨control, opens, opening, has, bound, serial, _, verifies, h⟩ := h
    cases h
    rw [toOption_some] at opens verifies
    cases bytes with
    | control key plaintext =>
      simp only [openControlWithKey] at opens
      split at opens
      · rename_i same
        cases opens
        exact ⟨_, by rw [same], has, bound, serial, verifies⟩
      · cases opens
    | slot | hello | advert | other => cases opens
  · cases h

theorem verify_ok {opening : ChannelOpening B} {recipient lookupKey : B} {serial : Nat}
    (h : opening.verify C P recipient lookupKey serial = .ok ()) :
    P.verify opening.writerIdentityPk (openingSigningInput C opening.writerIdentityPk recipient
        lookupKey opening.firstRatchetPk serial) opening.signature = true ∧
      opening.advertSerial = serial := by
  unfold ChannelOpening.verify at h
  dsimp only at h
  split at h
  · cases h
  · rename_i verified
    split at h
    · cases h
    · rename_i named
      split at h
      · cases h
      · rename_i placed
        split at h
        · cases h
        · rename_i under
          obtain rfl := not_not.1 named
          obtain rfl := not_not.1 placed
          obtain rfl := not_not.1 under
          exact ⟨by simpa using verified, rfl⟩

omit [DecidableEq B] in
/-- The serial an opening names: the one its hello came under, or for a rewrite an earlier one. -/
theorem openingSerial_some {rewritten : Bool} {serial bound : Nat} {opening : ChannelOpening B}
    (h : openingSerial rewritten serial opening = some bound) (same : opening.advertSerial = bound) :
    if rewritten = true then opening.advertSerial < serial else opening.advertSerial = serial := by
  unfold openingSerial at h
  cases rewritten with
  | false =>
    cases h
    exact same
  | true =>
    simp only [Bool.not_true, Bool.false_eq_true, if_false] at h
    split at h
    · rename_i earlier
      exact earlier
    · cases h

end

/-! ## What an identity signed -/

/-- What is surfaced of a hello, and where it comes from. -/
structure Authentic (C : Crypto B) (P : Platform B) (honest : B → Prop)
    (signed : B → List (Piece B) → Prop) (myPk : B) (keys : AdvertKeys B) (slot : Nat)
    (told : Answered B) (surfaced : Surfaced B) (hello : SealedHello B) (heard : Heard B) :
    Prop where
  /-- The hello was in the slot, for this identity and this slot, under a key still held. -/
  read : ⟨.readDropSlot myPk slot,
    (.ok (some (.hello hello)) : Except RecordError (Option (Wire B)))⟩ ∈ told
  addressed : hello.recipient = myPk ∧ dropSlotFor C P hello.r = slot
  /-- The opening was in the channel the hello names, under the secret it carries. -/
  opened : ∃ decapsulated serial control,
    keys.decapsulate C serial hello.kemCt = some decapsulated ∧
    ⟨.readChannel hello.lookupKey controlSubkey, (.ok (some
      (.control (controlKey C (hello.original.getD decapsulated)) control)) :
        Except RecordError (Option (Wire B)))⟩ ∈ told ∧
    control.opening = some heard.opening ∧
    (if hello.original.isSome = true then heard.opening.advertSerial < serial
      else heard.opening.advertSerial = serial) ∧
    SurfacedOf hello heard (hello.original.getD decapsulated) slot surfaced
  /-- The identity signed it to this one, for that channel. -/
  signed : honest heard.opening.writerIdentityPk → signed heard.opening.writerIdentityPk
    (openingSigningInput C heard.opening.writerIdentityPk myPk hello.lookupKey
      heard.opening.firstRatchetPk heard.opening.advertSerial)

/-- **A surfaced contact is authentic and addressed**, whatever the drop and the channels hold;
and its hello opens in no other slot and for no one else. -/
theorem surfaced_authentic {honest : B → Prop} {signed : B → List (Piece B) → Prop}
    (unforgeable : ∀ pk message signature, honest pk → P.verify pk message signature = true →
      signed pk message) {me : Me B} {rounds slot : Nat} {keys : AdvertKeys B} {isBlocked : B → Bool}
    {told : Answered B} {s t : B → Correspondence B} {surfaced : Surfaced B}
    (run : Leads (collectSlot C P me rounds keys isBlocked slot) s told
      (.done (.ok (some surfaced))) t) (contact : surfacesContact surfaced = true) :
    ∃ hello heard, Authentic C P honest signed (P.publicKey me.signer) keys slot told surfaced
        hello heard ∧
      (∀ j, j ≠ heard.opening.writerIdentityPk → t j = s j) ∧
      ∀ keys' myPk' slot', (openAgainstEither C P keys' (.hello hello) myPk' slot').isSome = true →
        myPk' = P.publicKey me.signer ∧ slot' = slot := by
  obtain ⟨hello, decapsulated, serial, heard, verified, surfaces, kept⟩ := scan_surfaces run contact
  obtain ⟨bytes, read, opened⟩ := verified.opened
  obtain ⟨rfl, selected, recipient, picks⟩ := openAgainstEither_some opened
  obtain ⟨found, asked, verifies⟩ := verified.verified
  obtain ⟨control, rfl, has, bound, named, verifies⟩ := verifiedBy_spec verifies
  obtain ⟨holds, same⟩ := verify_ok verifies
  refine ⟨hello, heard, ⟨read, ⟨recipient, picks⟩,
    ⟨decapsulated, serial, control, selected, asked, has, openingSerial_some named same, surfaces⟩,
    fun sender => ?_⟩, kept, fun keys' myPk' slot' copied => ?_⟩
  · exact same ▸ unforgeable _ _ _ sender holds
  · obtain ⟨⟨hello', decapsulated', serial'⟩, copied⟩ := Option.isSome_iff_exists.1 copied
    obtain ⟨e, -, recipient', picks'⟩ := openAgainstEither_some copied
    cases e
    exact ⟨recipient'.symm.trans recipient, picks'.symm.trans picks⟩

/-! ## One contact -/

/-- Secrets made of a key and a ciphertext, and no sealing. -/
def openCrypto : Crypto Nat where
  label _ := 0
  hkdf _ _ _ := 0
  keygen d _ := (d, d)
  encapsulate pk m := (pk + m, m)
  decapsulate dk ct := dk + ct
  sealEnvelope _ _ _ body := body
  openEnvelope _ _ body := some body

/-- The identity 7 has signed one opening, to the identity 1. -/
def signedOnce : List (Piece Nat) := openingSigningInput openCrypto 7 1 4 5 0

def openPlatform : Platform Nat where
  length _ := 0
  zeros := 0
  u8 _ rest := rest
  u64 _ rest := rest
  takeU8 _ := none
  takeU64 _ := none
  sha384 _ := 0
  lastByte := id
  sign _ _ := 9
  publicKey := id
  verify pk message signature := decide (pk = 7 ∧ message = signedOnce ∧ signature = 9)

def firstHello : SealedHello Nat := ⟨3, 5, 1, 4, 0, none⟩

def firstOpening : ChannelOpening Nat := ⟨7, 1, 4, 5, 0, 9⟩

def noStore : Nat → Correspondence Nat := fun _ => ⟨none, fun _ => none⟩

/-- The slot holds the hello, and its channel the opening. -/
def firstAnswers : (q : Query Nat) → Option (Reply q)
  | .readDropSlot _ _ => some (.ok (some (.hello firstHello)))
  | .readChannel _ _ => some (.ok (some (.control 0 ⟨some firstOpening, 0, false, 6⟩)))
  | _ => none

def firstScan : StoreFlow Nat (Option (Surfaced Nat)) :=
  collectSlot openCrypto openPlatform ⟨1, 2⟩ 1 ⟨⟨0, 2⟩, none⟩ (fun _ => false) 0

/-- The request the identity 7 signed the opening of. -/
theorem surfaced_authentic_first : ∃ told t,
    Leads firstScan noStore told
      (.done (.ok (some (.contactRequest ⟨7, 4, 5, 0, 0, 5, 6⟩)))) t ∧
    ∃ hello heard, Authentic openCrypto openPlatform (fun _ => True)
      (fun pk message => pk = 7 ∧ message = signedOnce) 1 ⟨⟨0, 2⟩, none⟩ 0 told
      (.contactRequest ⟨7, 4, 5, 0, 0, 5, 6⟩) hello heard := by
  have run : Leads firstScan noStore (follow firstAnswers firstScan noStore).1
      (.done (.ok (some (.contactRequest ⟨7, 4, 5, 0, 0, 5, 6⟩))))
      (follow firstAnswers firstScan noStore).2.2 := follow_leads firstAnswers firstScan noStore
  refine ⟨_, _, run, ?_⟩
  have unforgeable : ∀ pk message signature, True →
      openPlatform.verify pk message signature = true → pk = 7 ∧ message = signedOnce := by
    intro pk message signature _ verified
    have held := of_decide_eq_true verified
    exact ⟨held.1, held.2.1⟩
  obtain ⟨hello, heard, authentic, -⟩ := surfaced_authentic unforgeable run rfl
  exact ⟨hello, heard, authentic⟩

end Daemonseed.Dm.Surfacing
