import Daemonseed.Dm.PushBytes
import Daemonseed.Lib.Maps
import Daemonseed.Lib.Runs

/-! # The inbound push queue

Offers from any number of senders, which are admitted under a lock, sent to the
queue outside it, and where the queue is full given back under the lock again; and
one receiver, which takes what changes were missed after each entry it takes. Every
step is one section of the lock or one operation of the queue. What is counted, what
is queued and what becomes of each watched change, in whatever order the steps come. -/
namespace Daemonseed.Dm.PushInbox
open Daemonseed.Lib.Bytes Daemonseed.Lib.Maps Daemonseed.Lib.Readers Daemonseed.Lib.Runs
open Daemonseed.Dm.RecordBytes (helloLookupKeyLen)
open Daemonseed.Dm.PushBytes (pushTag)

abbrev LookupKey := Field helloLookupKeyLen

/-- Entries the queue holds. -/
def pushQueue : Nat := 64

def pushPerChannel : Nat := 4

def pushAcceptances : Nat := 4

/-- Watched changes queued at most, over every channel. -/
def changesQueued : Nat := 16

def changesPerChannel : Nat := 4

/-- What reaches a runner from its push transport. -/
inductive PushInbound
  | call (id : Nat) (message : Octets) (received : Nat)
  | routesDied (routes : List String)
  | changed (lookupKey : LookupKey) (firstSubkey : Nat) (single dead : Bool)
      (value : Option (Nat × Octets))
  deriving DecidableEq

/-- What a queued entry is counted against. -/
inductive Charge
  | channel (key : LookupKey)
  | acceptance
  | change (key : LookupKey)
  deriving DecidableEq

def Charge.isChange : Charge → Bool
  | change _ => true
  | channel _ | acceptance => false

/-- The lookup key in front of the bytes. -/
def lookupKeyOf (bytes : Octets) : Option LookupKey :=
  if long : helloLookupKeyLen ≤ bytes.length then
    some ⟨bytes.take helloLookupKeyLen, List.length_take_of_le long⟩
  else none

/-- The kind and the channel that a call's bytes name. -/
def chargeOf (message : Octets) : Option Charge :=
  if pushTag.isPrefixOf message then
    match message.drop pushTag.length with
    | [] => none
    | kind :: rest =>
      if kind = 1 ∨ kind = 3 ∨ kind = 4 then (lookupKeyOf rest).map .channel
      else if kind = 2 then some .acceptance
      else none
  else none

/-- What an entry holds a place against while it is queued. -/
def PushInbound.charge : PushInbound → Option Charge
  | call _ message _ => chargeOf message
  | routesDied _ => none
  | changed lookupKey _ _ _ _ => some (.change lookupKey)

/-- The channel a watched change is on, and whether it reports the watch dead. -/
def PushInbound.change : PushInbound → Option (LookupKey × Bool)
  | changed lookupKey _ _ dead _ => some (lookupKey, dead)
  | call _ _ _ | routesDied _ => none

/-! ## Admission -/

/-- The admission state that the two ends of the queue share. -/
structure Admission where
  /-- The channels this side reads. -/
  known : List LookupKey := []
  queued : Map Charge Nat := ∅
  changes : Nat := 0
  /-- The channels with a change that was not queued, and whether one of those
  reported the watch dead. -/
  missed : Map LookupKey Bool := ∅
  shed : Nat := 0

namespace Admission

def cap : Charge → Nat
  | .channel _ => pushPerChannel
  | .acceptance => pushAcceptances
  | .change _ => changesPerChannel

def count (self : Admission) (charge : Charge) : Nat := (self.queued.lookup charge).getD 0

/-- A place where there is room for one. -/
def takePlace (self : Admission) (charge : Charge) : Admission × Bool :=
  if charge.isChange && decide (changesQueued ≤ self.changes) then (self, false)
  else if cap charge ≤ self.count charge then
    ({ self with queued := self.queued.insert charge (self.count charge) }, false)
  else
    ({ self with
        queued := self.queued.insert charge (self.count charge + 1)
        changes := if charge.isChange then self.changes + 1 else self.changes }, true)

def freePlace (self : Admission) (charge : Charge) : Admission :=
  { self with
    queued := match self.queued.lookup charge with
      | some queued => self.queued.insert charge (queued - 1)
      | none => self.queued
    changes := if charge.isChange then self.changes - 1 else self.changes }

def miss (self : Admission) (lookupKey : LookupKey) (dead : Bool) : Admission :=
  { self with
    missed := self.missed.insert lookupKey ((self.missed.lookup lookupKey).getD false || dead) }

end Admission

/-! ## The two ends -/

/-- An offer: its number among them all, what is offered, and the channels this
side read at the time. -/
structure Entry where
  id : Nat
  inbound : PushInbound
  known : List LookupKey
  deriving DecidableEq

/-- Whether it is a watched change. -/
def Entry.isChange (e : Entry) : Bool := e.inbound.change.isSome

/-- Where the receiver stands: at its next receive, with an entry whose place is
not free yet, or about to take what was missed. -/
inductive Phase
  | receiving
  | popped (e : Entry)
  | served
  deriving DecidableEq

/-- The queue with what its two ends are in the midst of, and besides, what became
of the changes offered. -/
structure Sys where
  admission : Admission := {}
  /-- Admitted and not sent yet. -/
  placed : List Entry := []
  queue : List Entry := []
  /-- Refused by a full queue and not given back yet. -/
  refused : List Entry := []
  receiver : Phase := .receiving
  next : Nat := 0
  offered : List Entry := []
  taken : List Entry := []
  unreported : List Entry := []
  reported : List Entry := []
  /-- The changes refused and not reported when the receiver came to wait on an
  empty queue. -/
  leftOver : List Entry := []

inductive Step
  /-- The first section of the lock of an offer. -/
  | offer (inbound : PushInbound)
  /-- Its send, which does not wait. -/
  | send (e : Entry)
  /-- The second section, of an offer whose send failed. -/
  | settle (e : Entry)
  | receive
  /-- A receive that does not wait, of a queue with nothing in it. -/
  | receiveNone
  | free
  | takeMissed
  | setKnown (known : List LookupKey)

namespace Sys

def offer (s : Sys) (inbound : PushInbound) : Sys :=
  let e : Entry := ⟨s.next, inbound, s.admission.known⟩
  let s := { s with next := s.next + 1, offered := if e.isChange then e :: s.offered else s.offered }
  match inbound with
  | .routesDied _ => { s with placed := e :: s.placed }
  | .changed lookupKey _ _ dead _ =>
    let (admission, admitted) := s.admission.takePlace (.change lookupKey)
    if admitted then { s with admission, placed := e :: s.placed }
    else { s with admission := admission.miss lookupKey dead, unreported := e :: s.unreported }
  | .call _ message _ =>
    match chargeOf message with
    | none => { s with admission.shed := s.admission.shed + 1 }
    | some (.change _) => { s with admission.shed := s.admission.shed + 1 }
    | some charge =>
      if (∃ key ∈ s.admission.known, charge = .channel key) ∨ charge = .acceptance then
        let (admission, admitted) := s.admission.takePlace charge
        if admitted then { s with admission, placed := e :: s.placed }
        else { s with admission := { admission with shed := admission.shed + 1 } }
      else { s with admission.shed := s.admission.shed + 1 }

def send (s : Sys) (e : Entry) : Sys :=
  if e ∈ s.placed then
    if s.queue.length < pushQueue then
      { s with placed := s.placed.erase e, queue := s.queue ++ [e] }
    else { s with placed := s.placed.erase e, refused := e :: s.refused }
  else s

/-- The place is given back, and a change is kept as missed. -/
def giveBack (admission : Admission) (inbound : PushInbound) : Admission :=
  match inbound.charge with
  | none => admission
  | some charge =>
    match inbound.change with
    | some (lookupKey, dead) => (admission.freePlace charge).miss lookupKey dead
    | none =>
      { admission.freePlace charge with shed := (admission.freePlace charge).shed + 1 }

def settle (s : Sys) (e : Entry) : Sys :=
  if e ∈ s.refused then
    { s with
      refused := s.refused.erase e, admission := giveBack s.admission e.inbound
      unreported := if e.isChange then e :: s.unreported else s.unreported }
  else s

def receive (s : Sys) : Sys :=
  match s.receiver, s.queue with
  | .receiving, e :: rest => { s with queue := rest, receiver := .popped e, taken := e :: s.taken }
  | _, _ => s

def receiveNone (s : Sys) : Sys :=
  match s.receiver, s.queue with
  | .receiving, [] => { s with receiver := .served }
  | _, _ => s

/-- The place of the entry taken is free again. -/
def free (s : Sys) : Sys :=
  match s.receiver with
  | .popped e =>
    { s with
      receiver := .served
      admission := (e.inbound.charge.map s.admission.freePlace).getD s.admission }
  | _ => s

def takeMissed (s : Sys) : Sys :=
  match s.receiver with
  | .served =>
    { s with
      receiver := .receiving, admission := { s.admission with missed := ∅ }, unreported := []
      reported := s.unreported ++ s.reported
      leftOver := (if s.queue = [] then s.refused.filter (·.isChange) else []) ++ s.leftOver }
  | _ => s

def step (s : Sys) : Step → Sys
  | .offer inbound => s.offer inbound
  | .send e => s.send e
  | .settle e => s.settle e
  | .receive => s.receive
  | .receiveNone => s.receiveNone
  | .free => s.free
  | .takeMissed => s.takeMissed
  | .setKnown known => { s with admission := { s.admission with known } }

/-- A queue from its start. -/
def run (steps : List Step) : Sys := steps.foldl step {}

/-- The entry taken whose place is not free yet. -/
def held (s : Sys) : List Entry :=
  match s.receiver with
  | .popped e => [e]
  | .receiving | .served => []

/-- The entries admitted and not taken, which hold the places counted. -/
def holding (s : Sys) : List Entry := s.placed ++ s.refused ++ s.queue ++ s.held

end Sys

/-! ## Places -/

theorem chargeOf_ne_change {message : Octets} {key : LookupKey} :
    chargeOf message ≠ some (.change key) := by
  unfold chargeOf
  split
  · split
    · exact nofun
    · split
      · rw [Ne, Option.map_eq_some_iff]
        rintro ⟨_, -, same⟩
        cases same
      · split <;> exact nofun
  · exact nofun

/-- Of what holds a place, the changes are what is counted against a change. -/
theorem Entry.isChange_iff {e : Entry} {c : Charge} (charged : e.inbound.charge = some c) :
    e.isChange = c.isChange := by
  unfold Entry.isChange
  cases inbound : e.inbound with
  | routesDied => simp [inbound, PushInbound.charge] at charged
  | changed key first single dead value =>
    obtain rfl : Charge.change key = c := by simpa [inbound, PushInbound.charge] using charged
    rfl
  | call id message received =>
    rw [inbound, PushInbound.charge] at charged
    cases c with
    | change key => exact absurd charged chargeOf_ne_change
    | channel => rfl
    | acceptance => rfl

theorem Entry.isChange_uncharged {e : Entry} (charged : e.inbound.charge = none) :
    e.isChange = false := by
  unfold Entry.isChange
  cases inbound : e.inbound with
  | routesDied => rfl
  | changed => simp [inbound, PushInbound.charge] at charged
  | call => rfl

namespace Admission

variable {a : Admission} {c c' : Charge} {key : LookupKey} {dead : Bool}

/-- The same places, missed changes and known channels. -/
structure Same (a a' : Admission) : Prop where
  count : ∀ c, a'.count c = a.count c
  changes : a'.changes = a.changes
  missed : a'.missed = a.missed
  known : a'.known = a.known

theorem Same.refl (a : Admission) : Same a a := ⟨fun _ => rfl, rfl, rfl, rfl⟩

theorem Same.shed {a a' : Admission} (h : Same a a') (n : Nat) : Same a { a' with shed := n } :=
  ⟨h.count, h.changes, h.missed, h.known⟩

theorem count_insert {n : Nat} (a : Admission) (c' : Charge) :
    ({ a with queued := a.queued.insert c n } : Admission).count c' =
      if c' = c then n else a.count c' := by
  unfold count
  split
  next same => rw [same, AList.lookup_insert]; rfl
  next differ => rw [AList.lookup_insert_ne differ]

/-- A place taken is one more, and there was room for it. -/
theorem takePlace_taken (taken : (a.takePlace c).2 = true) :
    (∀ c', (a.takePlace c).1.count c' = a.count c' + if c' = c then 1 else 0) ∧
      (a.takePlace c).1.changes = a.changes + (if c.isChange then 1 else 0) ∧
      a.count c < cap c ∧ (c.isChange = true → a.changes < changesQueued) ∧
      (a.takePlace c).1.missed = a.missed ∧ (a.takePlace c).1.known = a.known := by
  unfold takePlace at taken ⊢
  split at taken
  · cases taken
  next room =>
    rw [if_neg room]
    split at taken
    · cases taken
    next below =>
      rw [if_neg below]
      refine ⟨fun c' => ?_, ?_, Nat.not_le.1 below, fun isChange => ?_, rfl, rfl⟩
      · refine (count_insert _ c').trans ?_
        split
        next same => rw [same]
        · rfl
      · dsimp only
        split <;> rfl
      · simpa [isChange] using room

/-- Where there is no room nothing changes. -/
theorem takePlace_refused (refused : (a.takePlace c).2 = false) :
    Same a (a.takePlace c).1 ∧
      (cap c ≤ a.count c ∨ c.isChange = true ∧ changesQueued ≤ a.changes) := by
  unfold takePlace at refused ⊢
  split
  next full =>
    rw [Bool.and_eq_true, decide_eq_true_eq] at full
    exact ⟨.refl a, .inr full⟩
  next room =>
    rw [if_neg room] at refused
    split
    next full =>
      refine ⟨⟨fun c' => ?_, rfl, rfl, rfl⟩, .inl full⟩
      refine (count_insert _ c').trans ?_
      split
      next same => rw [same]
      · rfl
    next below => simp [below] at refused

theorem freePlace_count (c' : Charge) :
    (a.freePlace c).count c' = if c' = c then a.count c - 1 else a.count c' := by
  unfold freePlace
  cases found : a.queued.lookup c with
  | none =>
    show a.count c' = _
    by_cases same : c' = c
    · subst same
      simp [count, found]
    · rw [if_neg same]
  | some n =>
    refine (count_insert _ c').trans ?_
    split
    · simp [count, found]
    · rfl

theorem freePlace_changes :
    (a.freePlace c).changes = a.changes - if c.isChange then 1 else 0 := by
  unfold freePlace
  dsimp only
  split <;> rfl

theorem miss_lookup (key' : LookupKey) : (a.miss key dead).missed.lookup key' =
    if key' = key then some ((a.missed.lookup key).getD false || dead)
    else a.missed.lookup key' := by
  unfold miss
  dsimp only
  split
  next same => rw [same, AList.lookup_insert]
  next differ => rw [AList.lookup_insert_ne differ]

end Admission

/-- Places are counted for what holds them. -/
structure Balanced (a : Admission) (holding : List Entry) : Prop where
  count : ∀ c, a.count c = holding.countP fun e => decide (e.inbound.charge = some c)
  changes : a.changes = holding.countP (·.isChange)

namespace Balanced

variable {a a' : Admission} {l l' : List Entry} {e : Entry} {c : Charge}

theorem perm (h : Balanced a l) (same : l.Perm l') : Balanced a l' :=
  ⟨fun c => (h.count c).trans (same.countP_eq _), h.changes.trans (same.countP_eq _)⟩

theorem same (h : Balanced a l) (same : Admission.Same a a') : Balanced a' l :=
  ⟨fun c => (same.count c).trans (h.count c), same.changes.trans h.changes⟩

theorem uncharged (h : Balanced a l) (charged : e.inbound.charge = none) : Balanced a (e :: l) := by
  refine ⟨fun c => ?_, ?_⟩
  · rw [h.count, List.countP_cons_of_neg (by simp [charged])]
  · rw [h.changes, List.countP_cons_of_neg (by simp [Entry.isChange_uncharged charged])]

theorem uncharged_inv (h : Balanced a (e :: l)) (charged : e.inbound.charge = none) :
    Balanced a l := by
  refine ⟨fun c => ?_, ?_⟩
  · rw [h.count, List.countP_cons_of_neg (by simp [charged])]
  · rw [h.changes, List.countP_cons_of_neg (by simp [Entry.isChange_uncharged charged])]

theorem take (h : Balanced a l) (charged : e.inbound.charge = some c)
    (taken : (a.takePlace c).2 = true) : Balanced (a.takePlace c).1 (e :: l) := by
  obtain ⟨count, changes, -⟩ := Admission.takePlace_taken taken
  refine ⟨fun c' => ?_, ?_⟩
  · rw [count, h.count, List.countP_cons, charged]
    by_cases same : c' = c
    · simp [same]
    · simp [same, Ne.symm same]
  · rw [changes, h.changes, List.countP_cons, Entry.isChange_iff charged]

theorem release (h : Balanced a (e :: l)) (charged : e.inbound.charge = some c) :
    Balanced (a.freePlace c) l := by
  refine ⟨fun c' => ?_, ?_⟩
  · rw [Admission.freePlace_count]
    have before := h.count c'
    rw [List.countP_cons, charged] at before
    split
    next same =>
      subst same
      simp only [decide_true, if_true] at before
      omega
    next differ => simpa [Ne.symm differ] using before
  · have before := h.changes
    rw [List.countP_cons, Entry.isChange_iff charged] at before
    rw [Admission.freePlace_changes]
    omega

end Balanced

/-! ## What an offer comes to -/

namespace Sys

/-- An offer is admitted, shed, or refused and missed. -/
theorem offer_cases (s : Sys) (inbound : PushInbound) :
    let e : Entry := ⟨s.next, inbound, s.admission.known⟩
    let t : Sys := { s with
      next := s.next + 1, offered := if e.isChange then e :: s.offered else s.offered }
    (∃ a, s.offer inbound = { t with admission := a, placed := e :: s.placed } ∧
      (inbound.charge = none ∧ a = s.admission ∨
        ∃ c, inbound.charge = some c ∧ (s.admission.takePlace c).2 = true ∧
          a = (s.admission.takePlace c).1) ∧
      ∀ key, inbound.charge = some (.channel key) → key ∈ s.admission.known) ∨
    (e.isChange = false ∧ ∃ a, Admission.Same s.admission a ∧
      s.offer inbound = { t with admission := a }) ∨
    ∃ key dead, inbound.change = some (key, dead) ∧
      (s.admission.takePlace (.change key)).2 = false ∧
      s.offer inbound = { t with
        admission := (s.admission.takePlace (.change key)).1.miss key dead
        unreported := e :: s.unreported } := by
  dsimp only
  cases inbound with
  | routesDied routes =>
    exact .inl ⟨s.admission, rfl, .inl ⟨rfl, rfl⟩, fun key charged => by cases charged⟩
  | changed key first single dead value =>
    unfold offer
    cases admitted : (s.admission.takePlace (.change key)).2 with
    | true =>
      refine .inl ⟨(s.admission.takePlace (.change key)).1, ?_, .inr ⟨_, rfl, admitted, rfl⟩,
        fun key charged => by cases charged⟩
      simp [admitted]
    | false =>
      refine .inr (.inr ⟨key, dead, rfl, admitted, ?_⟩)
      simp [admitted]
  | call id message received =>
    unfold offer
    dsimp only
    cases charged : chargeOf message with
    | none => exact .inr (.inl ⟨rfl, _, .shed (.refl _) (s.admission.shed + 1), rfl⟩)
    | some c =>
      by_cases known : (∃ key ∈ s.admission.known, c = .channel key) ∨ c = .acceptance
      · cases admitted : (s.admission.takePlace c).2 with
        | true =>
          refine .inl ⟨(s.admission.takePlace c).1, ?_, .inr ⟨c, charged, admitted, rfl⟩, ?_⟩
          · cases c <;> simp_all
          · intro key named
            obtain rfl : c = .channel key := Option.some.inj (charged.symm.trans named)
            simpa using known
        | false =>
          refine .inr (.inl ⟨rfl, _, .shed (Admission.takePlace_refused admitted).1
            ((s.admission.takePlace c).1.shed + 1), ?_⟩)
          cases c <;> simp_all
      · refine .inr (.inl ⟨rfl, _, .shed (.refl _) (s.admission.shed + 1), ?_⟩)
        cases c <;> simp_all

end Sys

/-! ## What always holds -/

/-- A change on the channel, and one that reports its watch dead. -/
def Entry.on (key : LookupKey) (e : Entry) : Bool := e.inbound.change.any fun c => decide (c.1 = key)

def Entry.diedOn (key : LookupKey) (e : Entry) : Bool := decide (e.inbound.change = some (key, true))

/-- Places are counted and bounded, and none is held for a channel that this side
did not read at the offer. -/
structure Counted (s : Sys) : Prop where
  balanced : Balanced s.admission s.holding
  caps : ∀ c, s.admission.count c ≤ Admission.cap c
  changesCap : s.admission.changes ≤ changesQueued
  size : s.queue.length ≤ pushQueue
  known : ∀ e ∈ s.holding, ∀ key, e.inbound.charge = some (.channel key) → key ∈ e.known

/-- Where the entries offered can be. -/
def Sys.everywhere (s : Sys) : List Entry :=
  s.placed ++ s.refused ++ s.queue ++ s.taken ++ s.unreported ++ s.reported

/-- What is missed is the channels of the changes not reported, each dead where one
of its changes says so. -/
def Missing (a : Admission) (unreported : List Entry) : Prop :=
  ∀ key, a.missed.lookup key =
    if unreported.any (·.on key) then some (unreported.any (·.diedOn key)) else none

/-- Every change offered is in one place, once, and what is missed is what is not
reported. -/
structure Accounted (s : Sys) : Prop where
  accounts : s.offered.Perm (s.everywhere.filter (·.isChange))
  distinct : (s.offered.map Entry.id).Nodup
  below : ∀ e ∈ s.offered, e.id < s.next
  missed : Missing s.admission s.unreported

namespace Sys

variable {s : Sys} {e : Entry}

theorem send_sent (mem : e ∈ s.placed) (room : s.queue.length < pushQueue) :
    s.send e = { s with placed := s.placed.erase e, queue := s.queue ++ [e] } := by
  rw [send, if_pos mem, if_pos room]

theorem send_full (mem : e ∈ s.placed) (full : ¬s.queue.length < pushQueue) :
    s.send e = { s with placed := s.placed.erase e, refused := e :: s.refused } := by
  rw [send, if_pos mem, if_neg full]

theorem count_erase_of_mem {l : List Entry} (mem : e ∈ l) (x : Entry) :
    l.count x = (l.erase e).count x + if e = x then 1 else 0 := by
  rw [(List.perm_cons_erase mem).count_eq x, List.count_cons]
  simp

theorem holding_send : (s.send e).holding.Perm s.holding := by
  by_cases mem : e ∈ s.placed
  · refine List.perm_iff_count.2 fun x => ?_
    have moved := count_erase_of_mem mem x
    by_cases room : s.queue.length < pushQueue
    · rw [send_sent mem room]
      simp only [holding, held, List.count_append, List.count_singleton, moved, beq_iff_eq]
      omega
    · rw [send_full mem room]
      simp only [holding, held, List.count_append, List.count_cons, moved, beq_iff_eq]
      omega
  · rw [send, if_neg mem]

theorem everywhere_send : (s.send e).everywhere.Perm s.everywhere := by
  by_cases mem : e ∈ s.placed
  · refine List.perm_iff_count.2 fun x => ?_
    have moved := count_erase_of_mem mem x
    by_cases room : s.queue.length < pushQueue
    · rw [send_sent mem room]
      simp only [everywhere, List.count_append, List.count_singleton, moved, beq_iff_eq]
      omega
    · rw [send_full mem room]
      simp only [everywhere, List.count_append, List.count_cons, moved, beq_iff_eq]
      omega
  · rw [send, if_neg mem]

/-- The places of an offer that is given back are all the others'. -/
theorem holding_settle (mem : e ∈ s.refused) : s.holding.Perm (e :: (s.settle e).holding) := by
  refine List.perm_iff_count.2 fun x => ?_
  have moved := count_erase_of_mem mem x
  rw [settle, if_pos mem]
  simp only [holding, held, List.count_append, List.count_cons, moved, beq_iff_eq]
  omega

theorem everywhere_settle : ((s.settle e).everywhere.filter (·.isChange)).Perm
    (s.everywhere.filter (·.isChange)) := by
  by_cases mem : e ∈ s.refused
  · refine List.perm_iff_count.2 fun x => ?_
    have moved := count_erase_of_mem mem x
    rw [settle, if_pos mem]
    cases change : x.isChange with
    | true =>
      rw [List.count_filter change, List.count_filter change]
      simp only [everywhere, List.count_append, moved]
      by_cases same : e = x
      · subst same
        simp only [change, if_true, List.count_cons_self]
        omega
      · split
        · rw [List.count_cons_of_ne same]
          omega
        · omega
    | false =>
      rw [List.count_eq_zero.2 (by simp [change]), List.count_eq_zero.2 (by simp [change])]
  · rw [settle, if_neg mem]

end Sys

namespace Sys

variable {s : Sys} {e : Entry}

theorem holding_receive : s.receive.holding.Perm s.holding ∧
    s.receive.everywhere.Perm s.everywhere ∧ s.receive.admission = s.admission ∧
    s.receive.queue.length ≤ s.queue.length := by
  unfold receive
  cases receiver : s.receiver with
  | popped | served => exact ⟨.refl _, .refl _, rfl, le_rfl⟩
  | receiving =>
    cases queue : s.queue with
    | nil => exact ⟨.refl _, .refl _, rfl, by simp [queue]⟩
    | cons e rest =>
      refine ⟨List.perm_iff_count.2 fun x => ?_, List.perm_iff_count.2 fun x => ?_, rfl, by simp⟩
      · simp only [holding, held, receiver, queue, List.count_append, List.count_cons,
          List.count_nil]
        omega
      · simp only [everywhere, queue, List.count_append, List.count_cons]
        omega

theorem receiveNone_same : s.receiveNone.holding = s.holding ∧
    s.receiveNone.everywhere = s.everywhere ∧ s.receiveNone.admission = s.admission ∧
    s.receiveNone.queue = s.queue := by
  unfold receiveNone
  cases receiver : s.receiver with
  | popped | served => exact ⟨rfl, rfl, rfl, rfl⟩
  | receiving =>
    cases queue : s.queue with
    | nil => exact ⟨by simp [holding, held, receiver, queue], by simp [everywhere, queue], rfl, rfl⟩
    | cons => exact ⟨rfl, rfl, rfl, queue⟩

/-- What the receiver does with the place of the entry it took. -/
theorem free_cases : s.free = s ∨ ∃ e, s.receiver = .popped e ∧
    s.holding.Perm (e :: s.free.holding) ∧
    s.free = { s with
      receiver := .served
      admission := (e.inbound.charge.map s.admission.freePlace).getD s.admission } := by
  unfold free
  cases receiver : s.receiver with
  | receiving | served => exact .inl rfl
  | popped e =>
    refine .inr ⟨e, rfl, ?_, rfl⟩
    simp only [holding, held, receiver, List.append_nil]
    exact List.perm_append_singleton _ _

theorem takeMissed_same : s.takeMissed.holding = s.holding ∧
    s.takeMissed.everywhere.Perm s.everywhere ∧ s.takeMissed.queue = s.queue ∧
    Admission.Same s.admission { s.takeMissed.admission with missed := s.admission.missed } := by
  unfold takeMissed
  cases receiver : s.receiver with
  | popped | receiving => exact ⟨rfl, .refl _, rfl, .refl _⟩
  | served =>
    refine ⟨by simp [holding, held, receiver], ?_, rfl, fun _ => rfl, rfl, rfl, rfl⟩
    refine List.perm_iff_count.2 fun x => ?_
    simp only [everywhere, List.count_append, List.count_nil]
    omega

end Sys

/-! ## Places, over a run -/

/-- A miss moves no place. -/
theorem Balanced.missed {a : Admission} {l : List Entry} (h : Balanced a l) (key : LookupKey)
    (dead : Bool) : Balanced (a.miss key dead) l := ⟨h.count, h.changes⟩

theorem Balanced.giveBack {a : Admission} {l : List Entry} {e : Entry} (h : Balanced a (e :: l)) :
    Balanced (Sys.giveBack a e.inbound) l := by
  unfold Sys.giveBack
  split
  next charged => exact h.uncharged_inv charged
  next c charged =>
    have freed := h.release charged
    split
    · exact freed.missed _ _
    · exact ⟨freed.count, freed.changes⟩

theorem Balanced.freed {a : Admission} {l : List Entry} {e : Entry} (h : Balanced a (e :: l)) :
    Balanced ((e.inbound.charge.map a.freePlace).getD a) l := by
  cases charged : e.inbound.charge with
  | none => exact h.uncharged_inv charged
  | some c => exact h.release charged

namespace Counted

variable {s t : Sys}

/-- Fewer entries hold fewer places. -/
theorem less (h : Counted s) (balanced : Balanced t.admission t.holding)
    (sub : t.holding.Subperm s.holding) (size : t.queue.length ≤ pushQueue) : Counted t := by
  refine ⟨balanced, fun c => ?_, ?_, size, fun e mem => h.known e (sub.subset mem)⟩
  · rw [balanced.count]
    exact ((sub.countP_le _).trans_eq (h.balanced.count c).symm).trans (h.caps c)
  · rw [balanced.changes]
    exact ((sub.countP_le _).trans_eq h.balanced.changes.symm).trans h.changesCap

/-- What moves no place. -/
theorem moved (h : Counted s) (same : Admission.Same s.admission t.admission)
    (perm : t.holding.Perm s.holding) (size : t.queue.length ≤ pushQueue) : Counted t :=
  h.less ((h.balanced.same same).perm perm.symm) perm.subperm size

theorem offer (h : Counted s) (inbound : PushInbound) : Counted (s.offer inbound) := by
  obtain ⟨a, result, place, known⟩ | ⟨-, a, same, result⟩ | ⟨key, dead, -, refused, result⟩ :=
    s.offer_cases inbound
  · rw [result]
    have heldKnown : ∀ e ∈ (⟨s.next, inbound, s.admission.known⟩ : Entry) :: s.holding,
        ∀ key, e.inbound.charge = some (.channel key) → key ∈ e.known :=
      List.forall_mem_cons.2 ⟨known, h.known⟩
    obtain ⟨charged, rfl⟩ | ⟨c, charged, taken, rfl⟩ := place
    · exact ⟨h.balanced.uncharged charged, h.caps, h.changesCap, h.size, heldKnown⟩
    · obtain ⟨count, changes, below, changesBelow, -, -⟩ := Admission.takePlace_taken taken
      refine ⟨h.balanced.take charged taken, fun c' => ?_, ?_, h.size, heldKnown⟩
      · dsimp only
        rw [count]
        split
        next same => subst same; exact below
        · exact h.caps c'
      · dsimp only
        rw [changes]
        split
        next isChange => exact changesBelow isChange
        · exact h.changesCap
  · rw [result]
    exact h.moved same (.refl _) h.size
  · rw [result]
    have same := (Admission.takePlace_refused refused).1
    exact h.less ((h.balanced.same same).missed key dead) (List.Subperm.refl _) h.size

theorem send (h : Counted s) (e : Entry) : Counted (s.send e) := by
  have perm := Sys.holding_send (s := s) (e := e)
  by_cases mem : e ∈ s.placed
  · by_cases room : s.queue.length < pushQueue
    · rw [Sys.send_sent mem room] at perm ⊢
      refine h.moved (.refl _) perm ?_
      simpa using room
    · rw [Sys.send_full mem room] at perm ⊢
      exact h.moved (.refl _) perm h.size
  · rw [Sys.send, if_neg mem]
    exact h

theorem settle (h : Counted s) (e : Entry) : Counted (s.settle e) := by
  by_cases mem : e ∈ s.refused
  · have perm := Sys.holding_settle mem
    have balanced := (h.balanced.perm perm).giveBack
    have sub := (List.sublist_cons_self e _).subperm.trans perm.symm.subperm
    rw [Sys.settle, if_pos mem] at sub balanced ⊢
    exact h.less balanced sub h.size
  · rw [Sys.settle, if_neg mem]
    exact h

theorem free (h : Counted s) : Counted s.free := by
  obtain same | ⟨e, -, perm, freed⟩ := s.free_cases
  · rwa [same]
  · have balanced := (h.balanced.perm perm).freed
    have sub := (List.sublist_cons_self e _).subperm.trans perm.symm.subperm
    rw [freed] at sub balanced ⊢
    exact h.less balanced sub h.size

theorem takeMissed (h : Counted s) : Counted s.takeMissed := by
  obtain ⟨held, -, queue, same⟩ := s.takeMissed_same
  have balanced := h.balanced.same same
  exact h.less (held ▸ ⟨balanced.count, balanced.changes⟩) (held ▸ List.Subperm.refl _)
    (queue ▸ h.size)

theorem step (h : Counted s) (label : Step) : Counted (s.step label) := by
  cases label with
  | offer inbound => exact h.offer inbound
  | send e => exact h.send e
  | settle e => exact h.settle e
  | receive =>
    obtain ⟨perm, -, same, size⟩ := s.holding_receive
    exact h.moved (same ▸ .refl _) perm (size.trans h.size)
  | receiveNone =>
    obtain ⟨held, -, same, queue⟩ := s.receiveNone_same
    exact h.moved (same ▸ .refl _) (held ▸ .refl _) (queue ▸ h.size)
  | free => exact h.free
  | takeMissed => exact h.takeMissed
  | setKnown known => exact h.less ⟨h.balanced.count, h.balanced.changes⟩ (List.Subperm.refl _) h.size

theorem start : Counted {} :=
  ⟨⟨fun _ => rfl, rfl⟩, fun _ => Nat.zero_le _, Nat.zero_le _, Nat.zero_le _, nofun⟩

theorem run (steps : List Step) : Counted (Sys.run steps) :=
  List.foldlRecOn steps Sys.step start fun _ h label _ => h.step label

end Counted

/-! ## What becomes of a change, over a run -/

theorem Missing.same {a a' : Admission} {l : List Entry} (h : Missing a l)
    (same : a'.missed = a.missed) : Missing a' l := by
  unfold Missing
  rwa [same]

/-- A change missed is one more that is not reported. -/
theorem Missing.miss {a : Admission} {l : List Entry} {e : Entry} {key : LookupKey} {dead : Bool}
    (h : Missing a l) (change : e.inbound.change = some (key, dead)) :
    Missing (a.miss key dead) (e :: l) := by
  intro key'
  rw [Admission.miss_lookup, List.any_cons, List.any_cons]
  by_cases same : key' = key
  · subst same
    rw [if_pos rfl, h]
    have onKey : e.on key' = true := by simp [Entry.on, change]
    have died : e.diedOn key' = dead := by simp [Entry.diedOn, change]
    rw [onKey, died, Bool.true_or, if_pos rfl]
    by_cases any : l.any (·.on key')
    · rw [if_pos any, Option.getD_some, Bool.or_comm]
    · have none : l.any (·.diedOn key') = false := by
        refine Bool.eq_false_iff.2 fun diedOn => any ?_
        obtain ⟨d, mem, died⟩ := List.any_eq_true.1 diedOn
        have reports : d.inbound.change = some (key', true) := by simpa [Entry.diedOn] using died
        exact List.any_eq_true.2 ⟨d, mem, by simp [Entry.on, reports]⟩
      rw [if_neg any, none, Option.getD_none, Bool.or_comm]
  · have onKey : e.on key' = false := by simp [Entry.on, change, Ne.symm same]
    have died : e.diedOn key' = false := by simp [Entry.diedOn, change, Ne.symm same]
    rw [if_neg same, h, onKey, died, Bool.false_or, Bool.false_or]

theorem missed_freed {a : Admission} (charge : Option Charge) :
    ((charge.map a.freePlace).getD a).missed = a.missed := by
  cases charge <;> rfl

theorem Missing.giveBack {a : Admission} {l : List Entry} {e : Entry} (h : Missing a l) :
    Missing (Sys.giveBack a e.inbound) (if e.isChange then e :: l else l) := by
  unfold Sys.giveBack Entry.isChange
  cases inbound : e.inbound with
  | routesDied => exact h
  | changed key first single dead value =>
    exact Missing.miss (e := e) (h.same rfl) (by rw [inbound]; rfl)
  | call id message received =>
    dsimp only [PushInbound.charge, PushInbound.change]
    cases chargeOf message with
    | none => exact h
    | some c => exact h.same rfl

namespace Accounted

variable {s t : Sys}

/-- What offers nothing and reports nothing. -/
theorem moved (h : Accounted s) (offered : t.offered = s.offered) (next : t.next = s.next)
    (perm : (t.everywhere.filter (·.isChange)).Perm (s.everywhere.filter (·.isChange)))
    (missed : Missing t.admission t.unreported) : Accounted t := by
  refine ⟨?_, ?_, ?_, missed⟩
  · rw [offered]
    exact h.accounts.trans perm.symm
  · rw [offered]
    exact h.distinct
  · rw [offered, next]
    exact h.below

/-- What offers one entry more, which is `e`. -/
theorem offering {e : Entry} (h : Accounted s) (id : e.id = s.next)
    (offered : t.offered = if e.isChange then e :: s.offered else s.offered)
    (next : t.next = s.next + 1)
    (perm : (t.everywhere.filter (·.isChange)).Perm ((e :: s.everywhere).filter (·.isChange)))
    (missed : Missing t.admission t.unreported) : Accounted t := by
  have later : ∀ d ∈ s.offered, d.id < t.next := fun d mem => by
    have := h.below d mem
    omega
  rw [List.filter_cons] at perm
  split at offered
  next isChange =>
    rw [if_pos isChange] at perm
    refine ⟨?_, ?_, ?_, missed⟩
    · rw [offered]
      exact (h.accounts.cons e).trans perm.symm
    · rw [offered, List.map_cons, List.nodup_cons, id]
      refine ⟨fun mem => ?_, h.distinct⟩
      obtain ⟨d, mem, same⟩ := List.mem_map.1 mem
      exact absurd same (h.below d mem).ne
    · rw [offered, List.forall_mem_cons]
      exact ⟨by omega, later⟩
  next other =>
    rw [if_neg other] at perm
    refine ⟨?_, ?_, ?_, missed⟩
    · rw [offered]
      exact h.accounts.trans perm.symm
    · rw [offered]
      exact h.distinct
    · rw [offered]
      exact later

theorem offer (h : Accounted s) (inbound : PushInbound) : Accounted (s.offer inbound) := by
  obtain ⟨a, result, place, -⟩ | ⟨other, a, same, result⟩ | ⟨key, dead, change, refused, result⟩ :=
    s.offer_cases inbound
  · have missed : a.missed = s.admission.missed := by
      obtain ⟨-, rfl⟩ | ⟨c, -, taken, rfl⟩ := place
      · rfl
      · exact (Admission.takePlace_taken taken).2.2.2.2.1
    rw [result]
    exact h.offering rfl rfl rfl (.refl _) (h.missed.same missed)
  · rw [result]
    refine h.offering (e := ⟨s.next, inbound, s.admission.known⟩) rfl rfl rfl ?_
      (h.missed.same same.missed)
    rw [List.filter_cons_of_neg (by rw [other]; exact nofun)]
    exact .refl _
  · rw [result]
    have same := (Admission.takePlace_refused refused).1.missed
    refine h.offering (e := ⟨s.next, inbound, s.admission.known⟩) rfl rfl rfl ?_
      ((h.missed.same same).miss change)
    refine (List.perm_iff_count.2 fun x => ?_).filter _
    simp only [Sys.everywhere, List.count_append, List.count_cons]
    omega

theorem settle (h : Accounted s) (e : Entry) : Accounted (s.settle e) := by
  have perm := Sys.everywhere_settle (s := s) (e := e)
  by_cases mem : e ∈ s.refused
  · rw [Sys.settle, if_pos mem] at perm ⊢
    exact h.moved rfl rfl perm h.missed.giveBack
  · rw [Sys.settle, if_neg mem]
    exact h

theorem send (h : Accounted s) (e : Entry) : Accounted (s.send e) := by
  have perm := (Sys.everywhere_send (s := s) (e := e)).filter (·.isChange)
  unfold Sys.send at perm ⊢
  split at perm
  next mem =>
    rw [if_pos mem]
    split at perm
    next room =>
      rw [if_pos room]
      exact h.moved rfl rfl perm h.missed
    next full =>
      rw [if_neg full]
      exact h.moved rfl rfl perm h.missed
  next out =>
    rw [if_neg out]
    exact h

theorem takeMissed (h : Accounted s) : Accounted s.takeMissed := by
  have perm := s.takeMissed_same.2.1.filter (·.isChange)
  unfold Sys.takeMissed at perm ⊢
  cases receiver : s.receiver with
  | popped | receiving => exact h
  | served =>
    rw [receiver] at perm
    exact h.moved rfl rfl perm fun key => AList.lookup_empty key

theorem step (h : Accounted s) (label : Step) : Accounted (s.step label) := by
  cases label with
  | offer inbound => exact h.offer inbound
  | send e => exact h.send e
  | settle e => exact h.settle e
  | receive =>
    have perm := s.holding_receive.2.1.filter (·.isChange)
    show Accounted s.receive
    unfold Sys.receive at perm ⊢
    split at perm
    · exact h.moved rfl rfl perm h.missed
    · exact h
  | receiveNone =>
    show Accounted s.receiveNone
    unfold Sys.receiveNone
    split
    · exact h.moved rfl rfl (.refl _) h.missed
    · exact h
  | free =>
    show Accounted s.free
    unfold Sys.free
    split
    · exact h.moved rfl rfl (.refl _) (h.missed.same (missed_freed _))
    · exact h
  | takeMissed => exact h.takeMissed
  | setKnown known => exact h.moved rfl rfl (.refl _) (h.missed.same rfl)

theorem start : Accounted {} :=
  ⟨.refl _, .nil, nofun, fun key => AList.lookup_empty key⟩

theorem run (steps : List Step) : Accounted (Sys.run steps) :=
  List.foldlRecOn steps Sys.step start fun _ h label _ => h.step label

end Accounted

/-! ## What is left over -/

/-- The condition on a step: what was missed is not taken, to wait on an empty queue,
between a change's send to a full queue and the section that keeps it as missed. -/
def Meets (s : Sys) (label : Step) : Prop :=
  label = .takeMissed → s.receiver = .served → s.queue = [] → ∀ e ∈ s.refused, e.isChange = false

theorem Sys.offer_leftOver (s : Sys) (inbound : PushInbound) :
    (s.offer inbound).leftOver = s.leftOver := by
  obtain ⟨a, result, -⟩ | ⟨-, a, -, result⟩ | ⟨key, dead, -, -, result⟩ := s.offer_cases inbound <;>
    rw [result]

theorem Sys.leftOver_step (s : Sys) (label : Step) :
    (s.step label).leftOver = [] ↔ s.leftOver = [] ∧ Meets s label := by
  have other (differs : label ≠ .takeMissed) (same : (s.step label).leftOver = s.leftOver) :
      (s.step label).leftOver = [] ↔ s.leftOver = [] ∧ Meets s label := by
    rw [same]
    exact (and_iff_left fun taking => absurd taking differs).symm
  cases label with
  | offer inbound => exact other nofun (s.offer_leftOver inbound)
  | send e =>
    refine other nofun ?_
    simp only [step, send]
    split
    · split <;> rfl
    · rfl
  | settle e =>
    refine other nofun ?_
    simp only [step, settle]
    split <;> rfl
  | receive =>
    refine other nofun ?_
    simp only [step, receive]
    split <;> rfl
  | receiveNone =>
    refine other nofun ?_
    simp only [step, receiveNone]
    split <;> rfl
  | free =>
    refine other nofun ?_
    simp only [step, free]
    split <;> rfl
  | setKnown known => exact other nofun rfl
  | takeMissed =>
    simp only [step, takeMissed]
    cases receiver : s.receiver with
    | popped | receiving => exact (and_iff_left fun _ served => by rw [receiver] at served; cases served).symm
    | served =>
      rw [List.append_eq_nil_iff, and_comm]
      refine and_congr_right fun _ => ?_
      unfold Meets
      rw [receiver]
      by_cases empty : s.queue = []
      · simp [empty]
      · simp [empty]

/-- A receiver that waits on an empty queue has left no change behind: whatever is
not reported is on a channel with more to come. -/
structure Heard (s : Sys) : Prop where
  refused : s.receiver = .receiving → s.queue = [] → ∀ e ∈ s.refused, e.isChange = false
  coming : s.receiver = .receiving → s.queue = [] → s.unreported ≠ [] →
    ∃ e ∈ s.placed, e.isChange = true

namespace Heard

variable {s : Sys}

/-- A receiver that does not wait on an empty queue. -/
theorem busy {t : Sys} (busy : t.receiver = .receiving → t.queue ≠ []) : Heard t :=
  ⟨fun receiving empty => absurd empty (busy receiving),
    fun receiving empty => absurd empty (busy receiving)⟩

theorem offer (h : Heard s) (counted : Counted s) (inbound : PushInbound) :
    Heard (s.offer inbound) := by
  obtain ⟨a, result, -⟩ | ⟨-, a, -, result⟩ | ⟨key, dead, -, refused, result⟩ :=
    s.offer_cases inbound
  · rw [result]
    refine ⟨h.refused, fun receiving empty missed => ?_⟩
    obtain ⟨e, mem, isChange⟩ := h.coming receiving empty missed
    exact ⟨e, List.mem_cons_of_mem _ mem, isChange⟩
  · rw [result]
    exact ⟨h.refused, h.coming⟩
  · rw [result]
    refine ⟨h.refused, fun receiving empty _ => ?_⟩
    -- The change found no room, so a change is held: with nothing queued, it is one to be sent.
    have room : ∃ e ∈ s.holding, e.isChange = true := by
      obtain full | ⟨-, full⟩ := (Admission.takePlace_refused refused).2
      · rw [counted.balanced.count] at full
        obtain ⟨e, mem, charged⟩ := List.countP_pos_iff.1
          (lt_of_lt_of_le (show 0 < changesPerChannel by decide) full)
        exact ⟨e, mem, by rw [Entry.isChange_iff (of_decide_eq_true charged)]; rfl⟩
      · rw [counted.balanced.changes] at full
        exact List.countP_pos_iff.1 (lt_of_lt_of_le (show 0 < changesQueued by decide) full)
    obtain ⟨e, mem, isChange⟩ := room
    have receiving : s.receiver = .receiving := receiving
    have empty : s.queue = [] := empty
    simp only [Sys.holding, Sys.held, receiving, empty, List.append_nil, List.mem_append] at mem
    obtain mem | mem := mem
    · exact ⟨e, mem, isChange⟩
    · rw [h.refused receiving empty e mem] at isChange
      cases isChange

theorem send (h : Heard s) (e : Entry) : Heard (s.send e) := by
  unfold Sys.send
  split
  · split
    · exact busy fun _ => by simp
    next full => exact busy fun _ empty => full (by rw [show s.queue = [] from empty]; decide)
  · exact h

theorem settle (h : Heard s) (e : Entry) : Heard (s.settle e) := by
  unfold Sys.settle
  split
  next mem =>
    refine ⟨fun receiving empty d still => h.refused receiving empty d (List.mem_of_mem_erase still),
      fun receiving empty missed => ?_⟩
    have other := h.refused receiving empty e mem
    refine h.coming receiving empty fun none => missed ?_
    dsimp only
    rw [other]
    exact none
  · exact h

theorem step (h : Heard s) (counted : Counted s) (label : Step) (meets : Meets s label) :
    Heard (s.step label) := by
  cases label with
  | offer inbound => exact h.offer counted inbound
  | send e => exact h.send e
  | settle e => exact h.settle e
  | receive =>
    show Heard s.receive
    unfold Sys.receive
    split
    · exact busy nofun
    · exact h
  | receiveNone =>
    show Heard s.receiveNone
    unfold Sys.receiveNone
    split
    · exact busy nofun
    · exact h
  | free =>
    show Heard s.free
    unfold Sys.free
    split
    · exact busy nofun
    · exact h
  | takeMissed =>
    show Heard s.takeMissed
    unfold Sys.takeMissed
    split
    next served =>
      exact ⟨fun _ empty => meets rfl served empty, fun _ _ missed => absurd rfl missed⟩
    · exact h
  | setKnown known => exact ⟨h.refused, h.coming⟩

end Heard

/-- **The inbound queue.** Whatever the order of the steps: places are counted for the
entries admitted and not taken, within every cap, and no call is held whose channel
was not read at its offer; every change offered is in one place, once, those taken and
those reported among them, and what is next reported is the channels of the rest with
their deaths; and no change is left over when the receiver comes to wait just where
every step meets the condition, which leaves none unheard. -/
theorem changes_heard (steps : List Step) :
    Counted (Sys.run steps) ∧ Accounted (Sys.run steps) ∧
      ((Sys.run steps).leftOver = [] ↔ Trail.Along Sys.step Meets {} steps) ∧
      (Trail.Along Sys.step Meets {} steps → Heard (Sys.run steps)) := by
  refine ⟨.run steps, .run steps, ?_, fun meets => ?_⟩
  · exact (Trail.along_iff (I := fun s : Sys => s.leftOver = []) Sys.leftOver_step {} steps).trans
      (and_iff_right rfl)
  · have start : Counted {} ∧ Heard {} := ⟨.start, fun _ _ => nofun, fun _ _ none => absurd rfl none⟩
    exact (Trail.along_keeps (I := fun s => Counted s ∧ Heard s)
      (fun s label h meets => ⟨h.1.step label, h.2.step h.1 label meets⟩) start meets).2

/-- A full queue of route deaths, a change that its send refuses, the queue served to
its end, and only then the section that keeps the change as missed. -/
def lateMiss (change : PushInbound) : List Step :=
  (List.range pushQueue).flatMap
      (fun i => [.offer (.routesDied []), .send ⟨i, .routesDied [], []⟩]) ++
    [.offer change, .send ⟨pushQueue, change, []⟩] ++
    (List.replicate pushQueue [.receive, .free, .takeMissed]).flatten ++
    [.settle ⟨pushQueue, change, []⟩]

/-- The death of a watch. -/
def watchDied : PushInbound := .changed ⟨List.replicate helloLookupKeyLen 0, rfl⟩ 0 false true none

/-- The receiver took what was missed after every entry, and waits on an empty queue
with a death neither reported nor about to be. -/
theorem death_unheard :
    (Sys.run (lateMiss watchDied)).receiver = .receiving ∧
      (Sys.run (lateMiss watchDied)).queue = [] ∧ (Sys.run (lateMiss watchDied)).placed = [] ∧
      (Sys.run (lateMiss watchDied)).refused = [] ∧
      (Sys.run (lateMiss watchDied)).unreported = [⟨pushQueue, watchDied, []⟩] ∧
      (Sys.run (lateMiss watchDied)).leftOver = [⟨pushQueue, watchDied, []⟩] := by
  decide +kernel

end Daemonseed.Dm.PushInbox
