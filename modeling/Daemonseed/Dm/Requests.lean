import Daemonseed.Dm.Threads

/-! # The requests of a view

One request for each identity, 256 of them at most and none of somebody who is
hidden. A request leaves the view by what is meant to take it away, and by
nothing else. -/
namespace Daemonseed.Dm.Requests
open Daemonseed.Dm.View Daemonseed.Dm.View.DmState Daemonseed.Dm.Threads Daemonseed.Lib.Maps

variable {I L : Type} [DecidableEq I] [DecidableEq L] {s s' s'' : DmState I L}

/-- Requests of `sender` are not shown. -/
def Hidden (s : DmState I L) (sender : I) : Prop :=
  sender ∈ s.declined ∨ sender ∈ s.blocked ∨ sender ∈ s.blocking

/-- Whose a request is, and since when it is held. -/
def who (r : DmContactRequest I) : I × Int := (r.sender, r.heldAtMs)

structure Tidy (s : DmState I L) : Prop where
  distinct : (s.requests.map (·.sender)).Nodup
  few : s.requests.length ≤ dmRequestCap
  welcome : ∀ r ∈ s.requests, ¬ Hidden s r.sender

/-! ## What leaves the requests alone -/

/-- The requests are those of before, and who is hidden. -/
structure Apart (s s' : DmState I L) : Prop where
  requests : s'.requests = s.requests
  declined : s'.declined = s.declined
  blocked : s'.blocked = s.blocked
  blocking : s'.blocking = s.blocking

theorem Apart.refl (s : DmState I L) : Apart s s := ⟨rfl, rfl, rfl, rfl⟩

theorem Apart.trans (h : Apart s s') (h' : Apart s' s'') : Apart s s'' :=
  ⟨h'.requests.trans h.requests, h'.declined.trans h.declined, h'.blocked.trans h.blocked,
    h'.blocking.trans h.blocking⟩

theorem Apart.hidden (h : Apart s s') {sender : I} : Hidden s' sender ↔ Hidden s sender := by
  rw [Hidden, h.declined, h.blocked, h.blocking, Hidden]

theorem Apart.tidy (h : Apart s s') (tidy : Tidy s) : Tidy s' := by
  refine ⟨h.requests ▸ tidy.distinct, h.requests ▸ tidy.few, fun r mem now => ?_⟩
  exact tidy.welcome r (h.requests ▸ mem) (h.hidden.1 now)

/-- One request left for each of some of them, with who is hidden as it was or fewer. -/
theorem Tidy.filter (tidy : Tidy s) {p : DmContactRequest I → Bool}
    (requests : s'.requests.map who = (s.requests.filter p).map who)
    (hidden : ∀ r ∈ s.requests, p r = true → Hidden s' r.sender → Hidden s r.sender) :
    Tidy s' := by
  have senders : s'.requests.map (·.sender) = (s.requests.filter p).map (·.sender) := by
    have firsts := congrArg (List.map Prod.fst) requests
    simpa [List.map_map, Function.comp_def, who] using firsts
  refine ⟨?_, ?_, fun r mem => ?_⟩
  · rw [senders]
    exact tidy.distinct.sublist (List.filter_sublist.map _)
  · have lengths := congrArg List.length requests
    rw [List.length_map, List.length_map] at lengths
    rw [lengths]
    exact (List.length_filter_le _ _).trans tidy.few
  · have named : r.sender ∈ (s.requests.filter p).map (·.sender) :=
      senders ▸ List.mem_map_of_mem mem
    obtain ⟨old, held, same⟩ := List.mem_map.1 named
    obtain ⟨held, kept⟩ := List.mem_filter.1 held
    exact fun now => tidy.welcome old held (hidden old held kept (same ▸ now))

/-- An answered acceptance takes its request away, and any other of its sender's that did not start
over. -/
def awaits (command : Option (DmOutstanding I)) (r : DmContactRequest I) : Bool :=
  match command with
  | some (.accept request sender _) => r.request ≠ request && (r.startedOver || r.sender ≠ sender)
  | _ => true

/-- A roster takes away the requests of those it names, apart from those that started over. -/
def unlisted (pks : List I) (r : DmContactRequest I) : Bool := r.startedOver || r.sender ∉ pks

/-- `r` is still held, as it was or told of anew. -/
def Still (s : DmState I L) (r : DmContactRequest I) : Prop := who r ∈ s.requests.map who

end Daemonseed.Dm.Requests
