import Mathlib
import Daemonseed.Dm.Routes

/-! # What the order of the takes leaves

A correspondent's reaches arrive by push, drop scan, control read and launch in
any order and any number of times. The serial left is always the highest. The
route left is the newest reach's where it names one a take can keep; where it
names none, what it found kept stays. -/
namespace Daemonseed.Dm.RouteOrder
open Daemonseed.Lib.Bytes Daemonseed.Lib.Stamped Daemonseed.Dm.Store Daemonseed.Dm.Routes

variable {sha384 : Octets → Option Octets} {issued : U64 → Reach}

/-- The takes of the reaches issued at the serials of `order`, one after the
other, each of which stands. -/
inductive Takes (sha384 : Octets → Option Octets) (issued : U64 → Reach) :
    List U64 → Correspondent → Correspondent → Prop
  | nil (c : Correspondent) : Takes sha384 issued [] c c
  | cons {serial : U64} {order : List U64} {c c' : Correspondent} {applied : ReachApplied}
      (faults : Faults)
      (stands : (takeReach sha384 faults serial (issued serial) c).1 = .ok applied)
      (rest : Takes sha384 issued order (takeReach sha384 faults serial (issued serial) c).2 c') :
      Takes sha384 issued (serial :: order) c c'

/-- The routes a take can keep, by the serial they were issued at. -/
def routes (issued : U64 → Reach) (serial : U64) : Option Octets := (issued serial).usableRoute

/-- A run of takes is the same run of offers to the register. -/
theorem Takes.register {order : List U64} {c c' : Correspondent}
    (h : Takes sha384 issued order c c') :
    c'.register = c.register.offers (routes issued) order := by
  induction h with
  | nil c => rfl
  | cons faults stands rest ih => rw [ih, Register.offers_cons, takeReach_ok stands, routes]

theorem Takes.split {before after : List U64} {c c' : Correspondent}
    (h : Takes sha384 issued (before ++ after) c c') :
    ∃ held, Takes sha384 issued before c held ∧ Takes sha384 issued after held c' := by
  induction before generalizing c with
  | nil => exact ⟨c, .nil c, h⟩
  | cons s before ih =>
    cases h with
    | cons faults stands rest =>
      obtain ⟨held, hbefore, hafter⟩ := ih rest
      exact ⟨held, .cons faults stands hbefore, hafter⟩

/-- A list is parted at the first place of one of its members. -/
theorem first_place {s : U64} {order : List U64} (h : s ∈ order) :
    ∃ before after, order = before ++ s :: after ∧ s ∉ before := by
  induction order with
  | nil => cases h
  | cons t order ih =>
    by_cases hts : t = s
    · exact ⟨[], order, by rw [hts, List.nil_append], List.not_mem_nil⟩
    · obtain ⟨before, after, rfl, hbefore⟩ := ih ((List.mem_cons.mp h).resolve_left (Ne.symm hts))
      exact ⟨t :: before, after, rfl, by simp [Ne.symm hts, hbefore]⟩

/-- What one order leaves, told from its newest reach. -/
theorem Takes.left {order : List U64} {c c' : Correspondent}
    (h : Takes sha384 issued order c c') :
    let newest := order.foldl max c.register.stamp
    c'.register.stamp = newest ∧
      (newest = c.register.stamp → c'.register.value =
        if newest ∈ order then c.register.value.or (issued newest).usableRoute
        else c.register.value) ∧
      (∀ route, c.register.stamp < newest → (issued newest).usableRoute = some route →
        c'.register.value = some route) ∧
      (c.register.stamp < newest → (issued newest).usableRoute = none →
        ∃ before after held, order = before ++ newest :: after ∧ newest ∉ before ∧
          Takes sha384 issued before c held ∧ c'.register.value = held.register.value) := by
  intro newest
  have hall : ∀ s ∈ order, s ≤ newest := fun _ => le_foldl_max
  refine ⟨by rw [h.register, Register.offers_stamp], ?_, ?_, ?_⟩
  · intro hstart
    rw [h.register, Register.offers_old (by rwa [hstart] at hall), hstart]
    split <;> rfl
  · intro route habove (hroute : routes issued newest = some route)
    have hmem : newest ∈ order := (foldl_max_mem _ _).resolve_left (ne_of_gt habove)
    rw [h.register, Register.offers_newest hroute hmem hall habove]
  · intro habove (hnone : routes issued newest = none)
    have hmem : newest ∈ order := (foldl_max_mem _ _).resolve_left (ne_of_gt habove)
    obtain ⟨before, after, hparts, hfirst⟩ := first_place hmem
    rw [hparts] at h hall
    obtain ⟨held, hbefore, -⟩ := h.split
    refine ⟨before, after, held, hparts, hfirst, hbefore, ?_⟩
    rw [h.register, Register.offers_newest_none hnone
      (fun s hs => lt_of_le_of_ne (hall s (List.mem_append_left _ hs)) fun e => hfirst (e ▸ hs))
      (fun s hs => hall s (List.mem_append_right _ (List.mem_cons_of_mem _ hs))) habove,
      hbefore.register]

/-- A correspondent whose records read takes any reach where nothing is refused. -/
theorem takeReach_taken (sha384 : Octets → Option Octets) {serial : U64} {reach : Reach} {c : Correspondent}
    {state : ConvState Octets} (hconv : c.conv = .payload state)
    (hstate : decodeConv state = .ok state) (hroute : c.route ≠ .unreadable) :
    ∃ applied, (takeReach sha384 ⟨false, false, false⟩ serial reach c).1 = .ok applied ∧
      (takeReach sha384 ⟨false, false, false⟩ serial reach c).2.conv = .payload state ∧
      (takeReach sha384 ⟨false, false, false⟩ serial reach c).2.route ≠ .unreadable := by
  obtain ⟨conv, handle, route⟩ := c
  obtain rfl : conv = .payload state := hconv
  simp only [takeReach, readConv, readFinishingDelete, hstate]
  obtain ⟨held, c₁, hread, hconv₁, hroute₁⟩ : ∃ held c₁,
      readRouteRecord ⟨false, false, false⟩ ⟨.payload state, handle, route⟩ = (.ok held, c₁) ∧
        c₁.conv = .payload state ∧ c₁.route ≠ .unreadable := by
    cases route with
    | unreadable => exact absurd rfl hroute
    | _ => exact ⟨_, _, rfl, rfl, by simp⟩
  rw [hread]
  dsimp only
  obtain ⟨take, c₂, hland, hconv₂, hroute₂⟩ : ∃ take c₂,
      landRoute ⟨false, false, false⟩ serial reach.usableRoute held c₁ = (.ok take, c₂) ∧
        c₂.conv = .payload state ∧ c₂.route ≠ .unreadable := by
    unfold landRoute
    split
    · exact ⟨_, _, rfl, hconv₁, hroute₁⟩
    · split
      · split
        · exact ⟨_, _, rfl, hconv₁, by simp⟩
        · exact ⟨_, _, rfl, hconv₁, hroute₁⟩
      · exact ⟨_, _, rfl, hconv₁, by simp⟩
  rw [hland]
  dsimp only
  have frame := keepHandle_frame ⟨false, false, false⟩ (if take.applied then
    reach.verifiedHandle sha384 state.peerIdentityPk else none) c₂
  split <;>
    (rename_i eq; rw [eq] at frame
     exact ⟨_, rfl, frame.2.trans hconv₂, fun e => hroute₂ (frame.1.symm.trans e)⟩)

theorem takes_exist (sha384 : Octets → Option Octets) (issued : U64 → Reach) (order : List U64) {c : Correspondent} {state : ConvState Octets}
    (hconv : c.conv = .payload state) (hstate : decodeConv state = .ok state)
    (hroute : c.route ≠ .unreadable) : ∃ c', Takes sha384 issued order c c' := by
  induction order generalizing c with
  | nil => exact ⟨c, .nil c⟩
  | cons serial order ih =>
    obtain ⟨applied, stands, hconv', hroute'⟩ :=
      takeReach_taken sha384 hconv hstate hroute
    obtain ⟨c', rest⟩ := ih hconv' hroute'
    exact ⟨c', .cons _ stands rest⟩

/-- Whatever the order and the repetitions, the serial left is the highest; the
route left is the same where the newest reach is not above the serial applied at
the start or names a route a take can keep; where it names none, the route kept
when it was first taken stays. A reach below the serial applied changes
nothing. -/
theorem reaches_settle {order₁ order₂ : List U64} {c c₁ c₂ : Correspondent}
    (same : ∀ s, s ∈ order₁ ↔ s ∈ order₂) (takes₁ : Takes sha384 issued order₁ c c₁)
    (takes₂ : Takes sha384 issued order₂ c c₂) :
    let newest := order₁.foldl max c.register.stamp
    (c₁.register.stamp = newest ∧ c₂.register.stamp = newest) ∧
      (newest = c.register.stamp → c₁.register = c₂.register ∧ c₁.register.value =
        if newest ∈ order₁ then c.register.value.or (issued newest).usableRoute
        else c.register.value) ∧
      (∀ route, c.register.stamp < newest → (issued newest).usableRoute = some route →
        c₁.register.value = some route ∧ c₂.register.value = some route) ∧
      (c.register.stamp < newest → (issued newest).usableRoute = none →
        ∃ before after held, order₁ = before ++ newest :: after ∧ newest ∉ before ∧
          Takes sha384 issued before c held ∧ c₁.register.value = held.register.value) ∧
      ∀ faults serial reach, ∀ late : Correspondent, serial < late.register.stamp →
        (takeReach sha384 faults serial reach late).2.route = late.route ∧
          (takeReach sha384 faults serial reach late).2.handle = late.handle := by
  intro newest
  obtain ⟨stamp₁, old₁, named₁, unnamed₁⟩ := takes₁.left
  have hsame : order₂.foldl max c.register.stamp = newest := (foldl_max_congr same).symm
  obtain ⟨stamp₂, old₂, named₂, -⟩ := takes₂.left
  rw [hsame] at stamp₂ old₂ named₂
  refine ⟨⟨stamp₁, stamp₂⟩, ?_, ?_, unnamed₁, fun _ _ _ _ => takeReach_older⟩
  · intro hstart
    have hvalue : c₁.register.value = c₂.register.value := by
      rw [old₁ hstart, old₂ hstart]
      exact if_congr (same _) rfl rfl
    refine ⟨?_, old₁ hstart⟩
    calc c₁.register = ⟨c₁.register.value, c₁.register.stamp⟩ := rfl
      _ = ⟨c₂.register.value, c₂.register.stamp⟩ := by rw [hvalue, stamp₁, stamp₂]
      _ = c₂.register := rfl
  · intro route habove hroute
    exact ⟨named₁ route habove hroute, named₂ route habove hroute⟩

/-- A conversation established with both halves of its schedule at rest. -/
def established : ConvState Octets where
  peerIdentityPk := [1]
  outgoingLookupKey := [2]
  incomingLookupKey := [3]
  generation := 0
  conversation :=
    { sending := ⟨[4], none, 0, none, 1, 0, none, none, none, false⟩
      receiving := ⟨[5], none, 0, 0, (none, none), none⟩ }
  sendSeq := 1
  peerCollected := 0
  myCollected := 0
  cursorPublished := 0
  awaitingAcceptance := false
  acceptancePending := false
  outstandingHello := none
  ownHelloSecret := none
  ownHelloKemCt := none
  ownControlKey := none
  peerControlKey := none
  peerAdvertSerial := none
  ownOpening := none
  deletePending := false

def met : Correspondent := ⟨.payload established, .absent, .absent⟩

/-- A reach with a route, and after it one with none. -/
def thenNone (serial : U64) : Reach := ⟨if serial.val = 1 then some [7] else none, none⟩

/-- A reach with a route each time. -/
def renewed (serial : U64) : Reach := ⟨some [UInt8.ofNat serial.val], none⟩

theorem reaches_settle_renewed : ∃ c₁ c₂, Takes (fun _ => none) renewed [1, 2] met c₁ ∧
    Takes (fun _ => none) renewed [2, 1, 2] met c₂ ∧ c₁.register.stamp = 2 ∧
    c₁.register.value = some [2] ∧ c₂.register.value = some [2] := by
  obtain ⟨c₁, takes₁⟩ := takes_exist (fun _ => none) renewed [1, 2] (c := met) rfl
    (by decide) nofun
  obtain ⟨c₂, takes₂⟩ := takes_exist (fun _ => none) renewed [2, 1, 2] (c := met) rfl
    (by decide) nofun
  have settled := reaches_settle (by simp) takes₁ takes₂
  obtain ⟨value₁, value₂⟩ := settled.2.2.1 [2] (by decide) (by decide)
  exact ⟨c₁, c₂, takes₁, takes₂, settled.1.1, value₁, value₂⟩

/-- The newer reach names no route, and leaves the older one's where that was
taken first. -/
theorem routeless_reach_by_order : ∃ c₁ c₂, Takes (fun _ => none) thenNone [1, 2] met c₁ ∧
    Takes (fun _ => none) thenNone [2, 1] met c₂ ∧ c₁.register = ⟨some [7], 2⟩ ∧
    c₂.register = ⟨none, 2⟩ := by
  obtain ⟨c₁, takes₁⟩ := takes_exist (fun _ => none) thenNone [1, 2] (c := met) rfl
    (by decide) nofun
  obtain ⟨c₂, takes₂⟩ := takes_exist (fun _ => none) thenNone [2, 1] (c := met) rfl
    (by decide) nofun
  exact ⟨c₁, c₂, takes₁, takes₂, by rw [takes₁.register]; decide, by rw [takes₂.register]; decide⟩

end Daemonseed.Dm.RouteOrder
