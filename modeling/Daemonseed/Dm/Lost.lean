import Daemonseed.Dm.Resets

/-! # A direction is read on, or it is lost for good

The next message of a direction is read while its reader keeps the turn it
names. A turn the reader has dropped does not come back: the direction stays at
that message, whatever is sealed, forced, delivered or restarted on either side. -/
namespace Daemonseed.Dm.Lost
open Daemonseed.Dm.Primitives Daemonseed.Dm.Channel Daemonseed.Dm.Chain Daemonseed.Dm.Session
open Daemonseed.Dm.Separation Daemonseed.Dm.Agreement Daemonseed.Dm.Resets Daemonseed.Dm.Symbolic
open Daemonseed.Lib.Runs

variable {B : Type} {C : Crypto B} {ss0 : B} {w w' : World B} {p : Role} {x : Sent B}

/-- The next message `p` is to read names a turn that `p` keeps no longer. -/
structure Gone (w : World B) (p : Role) (x : Sent B) : Prop where
  sent : x ∈ w.sent p.peer
  next : x.sealing.header.seq = (w.conv p).receiving.nextSeq
  turn : ¬ Kept (w.conv p) x.sealing

/-- What a side keeps of its own turns, and where it reads, decide what is gone. -/
theorem Gone.congr (gone : Gone w p x) (sent : x ∈ w'.sent p.peer)
    (next : (w'.conv p).receiving.nextSeq = (w.conv p).receiving.nextSeq)
    (turns : (w'.conv p).receiving.ownTurns = (w.conv p).receiving.ownTurns) : Gone w' p x := by
  refine ⟨sent, gone.next.trans next.symm, fun kept => gone.turn fun hm => ?_⟩
  have still := kept hm
  rwa [Receiving.ownTurn, turns] at still

/-- The turn a message names was minted before it. -/
theorem named_lt (h : ∀ p, Agreed C ss0 w p) (hx : x ∈ w.sent p.peer)
    (hm : x.sealing.minted.isSome) : x.sealing.header.m < (w.turns p).length := by
  have faithful := (h p.peer).back.faithful x hx
  obtain ⟨own, at_, names⟩ := faithful.names hm
  have named : x.sealing.header.m = own.m := by
    rw [faithful.m, names.m]
    rfl
  rw [named]
  exact (List.getElem?_eq_some_iff.mp at_).1

/-- A turn minted now is none that a message sent before names. -/
theorem Gone.seals (h : ∀ p, Agreed C ss0 w p) (gone : Gone w p x) {s : Sealing B}
    (made : Made C (w.conv p).sending.schedule s) : ¬ Kept ((w.conv p).sealed s) x.sealing := by
  intro kept
  refine gone.turn fun hm => ?_
  obtain ⟨t, ht⟩ := Option.isSome_iff_exists.mp (kept hm)
  obtain ⟨retained, named⟩ := ownTurn_retains ht
  have half := (h p).half.seals made
  have before : (w.turns p)[t.m]? = some t := by
    have at_ := half.retained retained
    rwa [List.getElem?_append_left (named ▸ named_lt h gone.sent hm)] at at_
  cases minted : s.minted with
  | none =>
    have receiving : ((w.conv p).sealed s).receiving = (w.conv p).receiving := by
      simp [Conversation.sealed, minted]
    rw [receiving] at ht
    simp [ht]
  | some turn =>
    have turns : ((w.conv p).sealed s).receiving.ownTurns =
        (some turn, (w.conv p).receiving.ownTurns.1) := by
      simp [Conversation.sealed, minted, Receiving.retain]
    have newest : t ≠ turn := by
      rintro rfl
      have last := half.newest
      rw [turns, minted, Option.toList_some, List.getLast?_concat] at last
      have at_ := half.numbered (w.turns p).length t (by simp [minted])
      have below := (List.getElem?_eq_some_iff.mp before).1
      omega
    rw [Retains, turns] at retained
    rcases retained with is | is
    · exact absurd (Option.some.inj is).symm newest
    · exact named ▸ retains_ownTurn (.inl is)

/-- **What is gone stays gone**, whatever happens next. -/
theorem next_gone (inj : HkdfInjective C) (h : ∀ p, Agreed C ss0 w p) {e : Event B}
    (genuine : e.Genuine C w) (gone : Gone w p x) : Gone (next C w e) p x := by
  generalize hw : next C w e = w'
  cases hw ▸ next_moves (C := C) w e with
  | stays e cursor =>
    rcases e.side.eq_or_peer p with rfl | rfl
    · exact gone.congr gone.sent (by simp) (by simp)
    · exact gone.congr gone.sent (by simp) (by simp)
  | forces q =>
    rcases q.eq_or_peer p with rfl | rfl
    · exact gone.congr gone.sent (by simp) (by simp)
    · exact gone.congr gone.sent (by simp) (by simp)
  | seals q body deviceId fill nonce s hs =>
    rcases q.eq_or_peer p with rfl | rfl
    · refine ⟨?_, ?_, ?_⟩
      · simpa using gone.sent
      · simpa [(sealed_receiving (w.conv p) s).2.1] using gone.next
      · simpa using gone.seals h (Conversation.prepare_made hs)
    · refine gone.congr ?_ (by simp) (by simp)
      have sent := gone.sent
      rw [Role.peer_peer] at sent ⊢
      rw [push_self]
      exact List.mem_append_left _ sent
  | opens q header ciphertext body r hseq hr hopen =>
    rcases q.eq_or_peer p with rfl | rfl
    · -- Only the next message opens, and only under the turn it names.
      obtain ⟨y, hy, rfl, -, -⟩ := opens_head inj h genuine hseq hr hopen
      have link := (h p.peer).back
      obtain rfl := Option.some.inj ((link.at_next gone.sent gone.next).symm.trans hy)
      exact absurd (link.kept hy hr) gone.turn
    · exact gone.congr gone.sent (by simp) (by simp)

/-- Nothing opens where the next message is gone. -/
theorem Gone.refuses (inj : HkdfInjective C) (h : ∀ p, Agreed C ss0 w p) (gone : Gone w p x)
    {header : MessageHeader B} {ciphertext body : B} (genuine : Genuine C w p header ciphertext) :
    ((w.conv p).openMessage C header ciphertext).1 ≠ .ok body := by
  intro opened
  have opened : ((w.conv p).receiving.openMessage C header ciphertext).1 = .ok body := opened
  obtain ⟨hseq, r, hr, hopen, -⟩ := openMessage_ok opened
  obtain ⟨y, hy, rfl, -, -⟩ := opens_head inj h genuine hseq hr hopen
  have link := (h p.peer).back
  obtain rfl := Option.some.inj ((link.at_next gone.sent gone.next).symm.trans hy)
  exact gone.turn (link.kept hy hr)

/-- **A direction is read on, or lost for good.** At any point of any run under
an envelope that cannot be forged, forced turns included, the next message of a
direction opens to its body where its reader keeps the turn it names. Where it
does not, no run from there opens anything of the direction again, and the
message is refused each time. -/
theorem read_on_or_lost (inj : HkdfInjective C) (kem : KemCorrect C) (aead : AeadCorrect C)
    {w₀ : World B} {es : List (Event B)} (start : Started C ss0 w₀)
    (run : Trail (GenuineSteps C) w₀ es w) (hx : x ∈ w.sent p.peer)
    (seq : x.sealing.header.seq = (w.conv p).receiving.nextSeq) :
    (Kept (w.conv p) x.sealing ∧
      ((w.conv p).openMessage C x.sealing.header x.ciphertext).1 = .ok x.body) ∨
    (¬ Kept (w.conv p) x.sealing ∧ ∀ es' w', Trail (GenuineSteps C) w es' w' →
      (w'.conv p).receiving.nextSeq = x.sealing.header.seq ∧
      ((w'.conv p).openMessage C x.sealing.header x.ciphertext).1 =
        .error (.secretGone x.sealing.header.m) ∧
      ∀ header ciphertext body, Genuine C w' p header ciphertext →
        ((w'.conv p).openMessage C header ciphertext).1 ≠ .ok body) := by
  have agreed := run_agreed inj kem start run
  by_cases kept : Kept (w.conv p) x.sealing
  · exact .inl ⟨kept, (Agreed.open_head kem aead agreed hx seq).1 kept⟩
  refine .inr ⟨kept, fun es' w' later => ?_⟩
  have all := later.invariant (I := fun v => (∀ p, Agreed C ss0 v p) ∧ Gone v p x) ?_
    ⟨agreed, hx, seq, kept⟩
  · obtain ⟨agreed', gone⟩ := all
    exact ⟨gone.next.symm, (Agreed.open_head kem aead agreed' gone.sent gone.next).2 gone.turn,
      fun _ _ _ => gone.refuses inj agreed'⟩
  · rintro v e _ ⟨before, gone⟩ ⟨genuine, rfl⟩
    exact ⟨next_agreed inj kem before genuine, next_gone inj before genuine gone⟩

/-- Where the turns cross, the acceptor's second message is never read, and
nothing after it. -/
theorem read_on_or_lost_crossing :
    ∃ x ∈ (playedTo crossing).sent .acceptor, ∀ es' w',
      Trail (GenuineSteps symbolic) (playedTo crossing) es' w' →
        (w'.conv .initiator).receiving.nextSeq = 1 ∧
        ∀ header ciphertext body, Genuine symbolic w' .initiator header ciphertext →
          ((w'.conv .initiator).openMessage symbolic header ciphertext).1 ≠ .ok body := by
  have run := playedTo_run crossing (by simp [crossing, Honest.sealing, Honest.delivering, Honest.forcing])
  have lost : ((playedTo crossing).sent .acceptor)[1]?.map (fun x =>
      (((playedTo crossing).conv .initiator).openMessage symbolic x.sealing.header
        x.ciphertext).1) = some (.error (.secretGone 0)) := rfl
  refine ⟨_, List.mem_of_getElem? (i := 1) rfl, fun es' w' later => ?_⟩
  rcases read_on_or_lost symbolic_hkdf symbolic_kem symbolic_aead hello_started run
    (p := .initiator) (List.mem_of_getElem? (i := 1) rfl) rfl with ⟨-, opened⟩ | ⟨-, after⟩
  · cases opened.symm.trans (Option.some.inj lost)
  · exact ⟨(after es' w' later).1, (after es' w' later).2.2⟩

end Daemonseed.Dm.Lost
