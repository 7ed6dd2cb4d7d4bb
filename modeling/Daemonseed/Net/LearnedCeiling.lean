import Daemonseed.Net.RouteBudget
import Mathlib.Data.List.Induction

/-! # The learned ceiling of a sharer

What a session of any length keeps of the windows and of the ceilings its
sharers taught it. A ceiling is kept twice, in the registry and in each live
window; a death lowers the registry's and the dying route's. -/
namespace Daemonseed.Net.LearnedCeiling
open Daemonseed.Net.RouteBudget

/-! ## One window -/

/-- A window within its bounds. -/
structure Fits (w : RouteWindow) : Prop where
  floor : wFloor ≤ w.width
  width : w.width ≤ w.ceiling
  ceiling : w.ceiling ≤ wCeil

theorem fits_new (ceiling : Nat) : Fits (.new ceiling) := by
  simp only [RouteWindow.new, wFloor, wCeil]
  constructor <;> simp only [wFloor, wCeil] <;> omega

/-- Half the width it died at, and no less than the floor. -/
theorem Fits.learnt {w : RouteWindow} (h : Fits w) : w.learnt = max (w.width / 2) wFloor := by
  obtain ⟨floor, width, -⟩ := h
  simp only [RouteWindow.learnt]
  omega

/-- What one observation does to a window. -/
inductive Observed (w : RouteWindow) : FragmentOutcome → Option Nat → RouteWindow → Prop
  | dies (alive : w.collapsed = false) :
      Observed w .failed (some w.learnt)
        { width := min wFloor w.learnt, ceiling := w.learnt, healthySinceIncrease := 0
          recentBreaches := [], collapsed := true }
  | dead (collapsed : w.collapsed = true) :
      Observed w .failed none { w with healthySinceIncrease := 0, recentBreaches := [] }
  | narrows (overThreshold : Bool) :
      Observed w (.completed overThreshold) none
        { w with width := max (w.width / 2) wFloor, healthySinceIncrease := 0
                 recentBreaches := [] }
  | widens (room : w.width < w.ceiling) (paid : w.width ≤ w.healthySinceIncrease + 1)
      (ring : List Bool) :
      Observed w (.completed false) none
        { w with width := w.width + 1, collapsed := false, healthySinceIncrease := 0
                 recentBreaches := ring }
  | stays (overThreshold : Bool) (healthy : Nat) (ring : List Bool)
      (counted : healthy ≤ w.healthySinceIncrease + if overThreshold then 0 else 1) :
      Observed w (.completed overThreshold) none
        { w with healthySinceIncrease := healthy, recentBreaches := ring }

theorem observe_observed (w : RouteWindow) (o : FragmentOutcome) :
    Observed w o (w.observe o).1 (w.observe o).2 := by
  cases o with
  | failed =>
    simp only [RouteWindow.observe, RouteWindow.fails]
    cases h : w.collapsed with
    | true =>
      simp only [if_true]
      exact h ▸ .dead h
    | false =>
      simp only [Bool.false_eq_true, if_false]
      exact .dies h
  | completed overThreshold =>
    simp only [RouteWindow.observe, RouteWindow.completes]
    split
    · exact .narrows overThreshold
    · cases overThreshold with
      | true => exact .stays true w.healthySinceIncrease _ (by simp)
      | false =>
        simp only [Bool.false_eq_true, if_false, RouteWindow.climbs]
        split
        · split
          · exact .widens ‹_› ‹_› _
          · exact .stays false 0 _ (by simp)
        · exact .stays false (w.healthySinceIncrease + 1) _ (by simp)

theorem Fits.observe {w w' : RouteWindow} {o : FragmentOutcome} {learned : Option Nat}
    (h : Fits w) (obs : Observed w o learned w') : Fits w' := by
  have learnt := h.learnt
  obtain ⟨floor, width, ceiling⟩ := h
  cases obs <;> constructor <;> simp only [wFloor, wCeil] at * <;> omega

/-- The window's own ceiling only comes down. -/
theorem Observed.ceiling_le {w w' : RouteWindow} {o : FragmentOutcome} {learned : Option Nat}
    (obs : Observed w o learned w') : w'.ceiling ≤ w.ceiling := by
  cases obs with
  | dies => exact Nat.min_le_right _ _
  | _ => exact Nat.le_refl _

/-! ## What a session keeps -/

variable {R : Type} [DecidableEq R] {d : Nat}

theorem session_snoc (ops : List (BudgetOp R)) (op : BudgetOp R) :
    session d (ops ++ [op]) = (session d ops).apply d op := by simp [session]

theorem session_append (ops more : List (BudgetOp R)) :
    session d (ops ++ more) = more.foldl (BudgetState.apply d) (session d ops) := by simp [session]

/-- Every window and every learned ceiling of a registry is within its
bounds. -/
structure Bounded (st : BudgetState R) : Prop where
  fits : ∀ r acct, st.routes r = some acct → Fits acct.window
  recorded : ∀ s c, st.ceilings s = some c → wFloor ≤ c ∧ c ≤ wCeil

/-- What one operation does to the learned ceilings. -/
theorem apply_ceilings (st : BudgetState R) (op : BudgetOp R) :
    (st.apply d op).ceilings = st.ceilings ∨
      ∃ r acct, op = .observe r .failed ∧ st.routes r = some acct ∧
        acct.window.collapsed = false ∧
        (st.apply d op).ceilings = Function.update st.ceilings acct.sharer
          (some (min ((st.ceilings acct.sharer).getD wCeil) acct.window.learnt)) := by
  cases op with
  | lease r s => exact .inl rfl
  | acquire r =>
    simp only [BudgetState.apply]
    split <;> exact .inl rfl
  | observe r o =>
    simp only [BudgetState.apply, BudgetState.observe]
    cases h : st.routes r with
    | none => exact .inl rfl
    | some acct =>
      have obs := observe_observed acct.window o
      dsimp only
      generalize (acct.window.observe o).1 = learned at obs ⊢
      generalize (acct.window.observe o).2 = window at obs ⊢
      cases obs with
      | dies alive => exact .inr ⟨r, acct, rfl, h, alive, rfl⟩
      | _ => exact .inl rfl
  | dropPermit r => exact .inl rfl
  | dropLease r =>
    simp only [BudgetState.apply, BudgetState.dropLease]
    split
    · exact .inl rfl
    · split <;> exact .inl rfl

theorem Bounded.apply {st : BudgetState R} (h : Bounded st) (op : BudgetOp R) :
    Bounded (st.apply d op) where
  fits r acct hr := by
    have became := apply_becomes st d op r
    rw [hr] at became
    generalize hs : st.routes r = before at became
    cases became with
    | counts _ acct => exact h.fits r acct hs
    | opens sharer => exact fits_new _
    | leased sharer acct => exact h.fits r acct hs
    | observed o acct => exact (h.fits r acct hs).observe (observe_observed _ _)
  recorded s c hc := by
    rcases apply_ceilings (d := d) st op with same | ⟨r, acct, -, hr, -, rec⟩
    · exact h.recorded s c (same ▸ hc)
    · rw [rec] at hc
      by_cases hs : s = acct.sharer
      · subst hs
        have fits := h.fits r acct hr
        have learnt := fits.learnt
        have floor := fits.floor
        have ceiling := fits.ceiling
        have width := fits.width
        rw [Function.update_self, Option.some.injEq] at hc
        cases hold : st.ceilings acct.sharer with
        | none =>
          simp only [hold, Option.getD_none, wFloor, wCeil] at *
          omega
        | some old =>
          have := h.recorded _ _ hold
          simp only [hold, Option.getD_some, wFloor, wCeil] at *
          omega
      · rw [Function.update_of_ne hs] at hc
        exact h.recorded s c hc

theorem session_bounded (ops : List (BudgetOp R)) : Bounded (session d ops) := by
  induction ops using List.reverseRecOn with
  | nil => exact ⟨fun _ _ h => absurd h nofun, fun _ _ h => absurd h nofun⟩
  | append_singleton ops op ih =>
    rw [session_snoc]
    exact ih.apply op

/-- A learned ceiling never rises, and is never forgotten. -/
theorem ceilings_apply {st : BudgetState R} {s : SharerKey} {c : Nat}
    (h : st.ceilings s = some c) (op : BudgetOp R) :
    ∃ c' ≤ c, (st.apply d op).ceilings s = some c' := by
  rcases apply_ceilings (d := d) st op with same | ⟨r, acct, -, -, -, rec⟩
  · exact ⟨c, Nat.le_refl c, same ▸ h⟩
  · rw [rec]
    by_cases hs : s = acct.sharer
    · subst hs
      rw [Function.update_self, h]
      exact ⟨_, Nat.min_le_left _ _, rfl⟩
    · rw [Function.update_of_ne hs]
      exact ⟨c, Nat.le_refl c, h⟩

theorem ceilings_session {ops : List (BudgetOp R)} {s : SharerKey} {c : Nat}
    (h : (session d ops).ceilings s = some c) (more : List (BudgetOp R)) :
    ∃ c' ≤ c, (session d (ops ++ more)).ceilings s = some c' := by
  induction more using List.reverseRecOn with
  | nil => exact ⟨c, Nat.le_refl c, by rwa [List.append_nil]⟩
  | append_singleton more op ih =>
    obtain ⟨c', hc', h'⟩ := ih
    obtain ⟨c'', hc'', h''⟩ := ceilings_apply (d := d) h' op
    refine ⟨c'', Nat.le_trans hc'' hc', ?_⟩
    rwa [← List.append_assoc, session_snoc]

/-! ## The climb -/

/-- The width of a route that is leased. -/
def widthOf (st : BudgetState R) (r : R) : Option Nat := (st.routes r).map (·.window.width)

/-- A clean completion of this route. -/
def clean (r : R) (op : BudgetOp R) : Bool := op = .observe r (.completed false)

/-- What one operation does to a window that lives through it: it widens by
one, out of a full count, or it keeps its width and counts, or it starts
counting anew. -/
theorem apply_climbs {st : BudgetState R} {op : BudgetOp R} {r : R} {acct acct' : RouteAccount}
    (h : st.routes r = some acct) (h' : (st.apply d op).routes r = some acct') :
    (clean r op = true ∧ acct'.window.width = acct.window.width + 1 ∧
        acct.window.width ≤ acct.window.healthySinceIncrease + 1 ∧
        acct'.window.healthySinceIncrease = 0) ∨
      (acct'.window.width = acct.window.width ∧ acct'.window.healthySinceIncrease ≤
        acct.window.healthySinceIncrease + if clean r op then 1 else 0) ∨
      ((Fits acct.window → acct'.window.width ≤ acct.window.width) ∧
        acct'.window.healthySinceIncrease = 0) := by
  have became := apply_becomes st d op r
  rw [h, h'] at became
  cases became with
  | counts => exact .inr (.inl ⟨rfl, Nat.le_add_right _ _⟩)
  | leased => exact .inr (.inl ⟨rfl, Nat.le_add_right _ _⟩)
  | observed o =>
    have obs := observe_observed acct.window o
    generalize (acct.window.observe o).1 = learned at obs
    generalize (acct.window.observe o).2 = window at obs
    cases obs with
    | dies =>
      refine .inr (.inr ⟨fun fits => ?_, rfl⟩)
      have := fits.floor
      exact Nat.le_trans (Nat.min_le_left _ _) this
    | dead => exact .inr (.inl ⟨rfl, Nat.zero_le _⟩)
    | narrows =>
      refine .inr (.inr ⟨fun fits => ?_, rfl⟩)
      have := fits.floor
      simp only [wFloor] at *
      omega
    | widens room paid => exact .inl ⟨by simp [clean], rfl, paid, rfl⟩
    | stays overThreshold healthy ring counted =>
      refine .inr (.inl ⟨rfl, ?_⟩)
      cases overThreshold <;> simpa [clean] using counted

/-- What the count of `w` has been counted over: clean completions of this
route, with its width standing throughout. -/
def Counted (d : Nat) (ops : List (BudgetOp R)) (r : R) (w : RouteWindow) : Prop :=
  ∃ pre mid, ops = pre ++ mid ∧
    (∀ n ≤ mid.length, widthOf (session d (pre ++ mid.take n)) r = some w.width) ∧
    w.healthySinceIncrease ≤ mid.countP (clean r)

theorem counted_anew {ops : List (BudgetOp R)} {r : R} {acct : RouteAccount}
    (h : (session d ops).routes r = some acct) (zero : acct.window.healthySinceIncrease = 0) :
    Counted d ops r acct.window :=
  ⟨ops, [], by simp, by simp [widthOf, h], by omega⟩

theorem session_counted {ops : List (BudgetOp R)} {r : R} {acct : RouteAccount}
    (h : (session d ops).routes r = some acct) : Counted d ops r acct.window := by
  induction ops using List.reverseRecOn generalizing acct with
  | nil => exact absurd h nofun
  | append_singleton ops op ih =>
    have after := h
    rw [session_snoc] at after
    cases hb : (session d ops).routes r with
    | none =>
      refine counted_anew h ?_
      have became := apply_becomes (session d ops) d op r
      rw [hb, after] at became
      cases became
      rfl
    | some before =>
      rcases apply_climbs hb after with ⟨-, -, -, zero⟩ | ⟨same, counted⟩ | ⟨-, zero⟩
      · exact counted_anew h zero
      · obtain ⟨pre, mid, rfl, widths, healthy⟩ := ih hb
        refine ⟨pre, mid ++ [op], by simp, fun n hn => ?_, ?_⟩
        · rcases Nat.lt_or_ge mid.length n with long | short
          · have : (mid ++ [op]).take n = mid ++ [op] := List.take_of_length_le (by simp; omega)
            rw [this, ← List.append_assoc]
            simp only [widthOf, h, Option.map_some]
          · rw [List.take_append_of_le_length short, same]
            exact widths n short
        · rw [List.countP_append, List.countP_singleton]
          omega
      · exact counted_anew h zero

/-- **A width grows by one, out of a full width of clean completions** since
it last changed. -/
theorem climb_is_paid {ops : List (BudgetOp R)} {op : BudgetOp R} {r : R} {w w' : Nat}
    (h : widthOf (session d ops) r = some w) (h' : widthOf (session d (ops ++ [op])) r = some w')
    (wider : w < w') :
    w' = w + 1 ∧ ∃ pre mid, ops = pre ++ mid ∧
      (∀ n ≤ mid.length, widthOf (session d (pre ++ mid.take n)) r = some w) ∧
      w ≤ (mid ++ [op]).countP (clean r) := by
  obtain ⟨acct, hb, rfl⟩ := Option.map_eq_some_iff.1 h
  obtain ⟨acct', ha, rfl⟩ := Option.map_eq_some_iff.1 h'
  rw [session_snoc] at ha
  rcases apply_climbs hb ha with ⟨isClean, widened, paid, -⟩ | ⟨same, -⟩ | ⟨narrower, -⟩
  · obtain ⟨pre, mid, hops, widths, healthy⟩ := session_counted hb
    refine ⟨widened, pre, mid, hops, widths, ?_⟩
    rw [List.countP_append, List.countP_singleton, if_pos isClean]
    omega
  · omega
  · have := narrower ((session_bounded ops).fits r acct hb)
    omega

/-! ## One death -/

/-- The route stays leased through these operations, and none widens it. -/
def NoWider (d : Nat) (r : R) : BudgetState R → List (BudgetOp R) → Prop
  | _, [] => True
  | st, op :: ops =>
    (∃ w w', widthOf st r = some w ∧ widthOf (st.apply d op) r = some w' ∧ w' ≤ w) ∧
      NoWider d r (st.apply d op) ops

/-- The window of a route is still in the death it collapsed in. -/
def Collapsed (st : BudgetState R) (r : R) : Prop :=
  ∃ acct, st.routes r = some acct ∧ acct.window.collapsed = true

theorem Collapsed.apply {st : BudgetState R} {r : R} {op : BudgetOp R} (h : Collapsed st r)
    (lives : ∃ w w', widthOf st r = some w ∧ widthOf (st.apply d op) r = some w' ∧ w' ≤ w) :
    Collapsed (st.apply d op) r := by
  obtain ⟨acct, hb, collapsed⟩ := h
  obtain ⟨w, w', hw, hw', le⟩ := lives
  obtain ⟨acct', ha, rfl⟩ := Option.map_eq_some_iff.1 hw'
  obtain rfl : acct.window.width = w := by simpa [widthOf, hb] using hw
  refine ⟨acct', ha, ?_⟩
  have became := apply_becomes st d op r
  rw [hb, ha] at became
  cases became with
  | counts => exact collapsed
  | leased => exact collapsed
  | observed o =>
    have obs := observe_observed acct.window o
    generalize (acct.window.observe o).1 = learned at obs
    generalize (acct.window.observe o).2 = window at obs le
    cases obs with
    | widens => exact absurd le (Nat.not_succ_le_self _)
    | dies => rfl
    | _ => exact collapsed

theorem Collapsed.through {st : BudgetState R} {r : R} {ops : List (BudgetOp R)}
    (h : Collapsed st r) (lives : NoWider d r st ops) :
    Collapsed (ops.foldl (BudgetState.apply d) st) r := by
  induction ops generalizing st with
  | nil => exact h
  | cons op ops ih => exact ih (h.apply lives.1) lives.2

/-- What a failure teaches of a window that is not in a death yet. -/
theorem failed_ceilings {st : BudgetState R} (bounded : Bounded st) {r : R} {acct : RouteAccount}
    (h : st.routes r = some acct) (s : SharerKey) :
    (st.observe r .failed).ceilings s = st.ceilings s ∨
      s = acct.sharer ∧ (st.observe r .failed).ceilings s =
        some (min ((st.ceilings s).getD wCeil) (max (acct.window.width / 2) wFloor)) := by
  rcases apply_ceilings (d := 0) st (.observe r .failed) with
    same | ⟨r', acct', ho, hr, -, rec⟩
  · exact .inl (congrFun same s)
  · cases ho
    rw [h, Option.some.injEq] at hr
    subst hr
    rw [(bounded.fits r acct h).learnt] at rec
    change (st.observe r .failed).ceilings = _ at rec
    rw [rec]
    by_cases hs : s = acct.sharer
    · subst hs
      exact .inr ⟨rfl, Function.update_self _ _ _⟩
    · exact .inl (Function.update_of_ne hs _ _)

/-- A window in a death learns nothing more of it. -/
theorem Collapsed.failed {st : BudgetState R} {r : R} (h : Collapsed st r) :
    (st.observe r .failed).ceilings = st.ceilings ∧
      ((st.observe r .failed).routes r).map (·.window.ceiling) =
        (st.routes r).map (·.window.ceiling) := by
  obtain ⟨acct, hr, collapsed⟩ := h
  simp [BudgetState.observe, hr, RouteWindow.observe, RouteWindow.fails, collapsed,
    BudgetState.record]

theorem failed_collapsed {st : BudgetState R} {r : R} {acct : RouteAccount}
    (h : st.routes r = some acct) : Collapsed (st.observe r .failed) r := by
  refine ⟨{ acct with window := (acct.window.observe .failed).2 }, ?_, ?_⟩
  · simp [BudgetState.observe, h]
  · cases hc : acct.window.collapsed <;> simp [RouteWindow.observe, RouteWindow.fails, hc]

/-! ## Every route of a sharer -/

/-- No live window of a sharer's has a ceiling above the one it taught. -/
def Shared (st : BudgetState R) : Prop :=
  ∀ r acct c, st.routes r = some acct → st.ceilings acct.sharer = some c →
    acct.window.ceiling ≤ c

/-- What an operation finds when it keeps a sharer's ceiling over all of its
routes: a death that teaches a ceiling finds no other live route of the sharer
with a higher one, and a live route is leased for no sharer that taught a
lower one. -/
def Finds (st : BudgetState R) : BudgetOp R → Prop
  | .observe r .failed =>
    ∀ acct, st.routes r = some acct → acct.window.collapsed = false →
      ∀ r' acct', r' ≠ r → st.routes r' = some acct' → acct'.sharer = acct.sharer →
        acct'.window.ceiling ≤ max (acct.window.width / 2) wFloor
  | .lease r s =>
    ∀ acct c, st.routes r = some acct → st.ceilings s = some c → acct.window.ceiling ≤ c
  | _ => True

/-- Every operation of a session finds what it should. -/
def EachFinds (d : Nat) (ops : List (BudgetOp R)) : Prop :=
  ∀ pre op post, ops = pre ++ op :: post → Finds (session d pre) op

/-- An observation leaves every account its sharer, and raises no window's
ceiling. -/
theorem observe_account {st : BudgetState R} {dying r : R} {o : FragmentOutcome}
    {acct' : RouteAccount} (h : (st.observe dying o).routes r = some acct') :
    ∃ acct, st.routes r = some acct ∧ acct'.sharer = acct.sharer ∧
      acct'.window.ceiling ≤ acct.window.ceiling := by
  have became := apply_becomes st 0 (.observe dying o) r
  rw [BudgetState.apply, h] at became
  generalize hr : st.routes r = before at became
  cases became with
  | counts _ acct => exact ⟨acct, rfl, rfl, Nat.le_refl _⟩
  | observed _ acct => exact ⟨acct, rfl, rfl, (observe_observed acct.window o).ceiling_le⟩

/-- The window that died has the ceiling it taught. -/
theorem died_ceiling {st : BudgetState R} {r : R} {dead acct' : RouteAccount}
    (hd : st.routes r = some dead) (alive : dead.window.collapsed = false)
    (h : (st.observe r .failed).routes r = some acct') :
    acct'.window.ceiling = dead.window.learnt := by
  simp only [BudgetState.observe, hd, record_routes, put_routes_self, Option.some.injEq] at h
  rw [← h]
  simp [RouteWindow.observe, RouteWindow.fails, alive, RouteWindow.learnt]

/-- The death of one route keeps its sharer's ceiling over the others. -/
theorem Shared.death {st : BudgetState R} (h : Shared st) (bounded : Bounded st) {r : R}
    {dead : RouteAccount} (hd : st.routes r = some dead) (alive : dead.window.collapsed = false)
    (finds : Finds st (.observe r .failed))
    (rec : (st.observe r .failed).ceilings = Function.update st.ceilings dead.sharer
      (some (min ((st.ceilings dead.sharer).getD wCeil) dead.window.learnt))) :
    Shared (st.observe r .failed) := by
  intro r' acct' c hr' hc
  obtain ⟨acct, hr, sharer, ceiling⟩ := observe_account hr'
  rw [rec, sharer] at hc
  by_cases hs : acct.sharer = dead.sharer
  · have taught : acct'.window.ceiling ≤ dead.window.learnt := by
      by_cases hself : r' = r
      · subst hself
        exact Nat.le_of_eq (died_ceiling hd alive hr')
      · rw [(bounded.fits r dead hd).learnt]
        exact Nat.le_trans ceiling (finds dead hd alive r' acct hself hr hs)
    rw [hs, Function.update_self, Option.some.injEq] at hc
    rw [← hc]
    refine Nat.le_min.2 ⟨?_, taught⟩
    cases hold : st.ceilings dead.sharer with
    | none => exact Nat.le_trans ceiling (bounded.fits r' acct hr).ceiling
    | some old => exact Nat.le_trans ceiling (h r' acct old hr (hs ▸ hold))
  · rw [Function.update_of_ne hs] at hc
    exact Nat.le_trans ceiling (h r' acct c hr hc)

theorem Shared.apply {st : BudgetState R} (h : Shared st) (bounded : Bounded st)
    {op : BudgetOp R} (finds : Finds st op) : Shared (st.apply d op) := by
  rcases apply_ceilings (d := d) st op with same | ⟨dying, dead, rfl, hd, alive, rec⟩
  · intro r acct' c hr' hc
    rw [same] at hc
    have became := apply_becomes st d op r
    rw [hr'] at became
    generalize hr : st.routes r = before at became
    cases became with
    | counts _ acct => exact h r acct c hr hc
    | opens sharer =>
      -- a fresh window takes the sharer's ceiling
      have recorded := bounded.recorded sharer c hc
      change st.ceilings sharer = some c at hc
      simp only [BudgetState.fresh, RouteWindow.new, hc, Option.getD_some]
      omega
    | leased sharer acct => exact finds acct c hr hc
    | observed o acct =>
      exact Nat.le_trans (observe_observed acct.window o).ceiling_le (h r acct c hr hc)
  · exact h.death bounded hd alive finds rec

theorem session_shared {ops : List (BudgetOp R)} (finds : EachFinds d ops) :
    Shared (session d ops) := by
  induction ops using List.reverseRecOn with
  | nil => exact fun _ _ _ h => absurd h nofun
  | append_singleton ops op ih =>
    rw [session_snoc]
    exact (ih fun pre op' post h => finds pre op' (post ++ [op]) (by simp [h])).apply
      (session_bounded ops) (finds ops op [] rfl)

/-! ## The session as a whole -/

/-- What a session promises of the ceilings its sharers teach it. -/
structure Protects (d : Nat) (ops : List (BudgetOp R)) : Prop where
  /-- A learned ceiling never rises. -/
  falls : ∀ pre post s c, ops = pre ++ post → (session d pre).ceilings s = some c →
    ∃ c' ≤ c, (session d ops).ceilings s = some c'
  bounded : ∀ r w, widthOf (session d ops) r = some w → wFloor ≤ w ∧ w ≤ wCeil
  /-- A width grows by one, out of a full width of clean completions since it
  last changed. -/
  climbs : ∀ pre op post r w w', ops = pre ++ op :: post → widthOf (session d pre) r = some w →
    widthOf (session d (pre ++ [op])) r = some w' → w < w' →
      w' = w + 1 ∧ ∃ before mid, pre = before ++ mid ∧
        (∀ n ≤ mid.length, widthOf (session d (before ++ mid.take n)) r = some w) ∧
        w ≤ (mid ++ [op]).countP (clean r)
  /-- The first failure of a death lowers its sharer's ceiling at most, to half
  the width it died at. -/
  teaches : ∀ pre post r acct s, ops = pre ++ .observe r .failed :: post →
    (session d pre).routes r = some acct →
      (session d (pre ++ [.observe r .failed])).ceilings s = (session d pre).ceilings s ∨
        s = acct.sharer ∧ (session d (pre ++ [.observe r .failed])).ceilings s =
          some (min (((session d pre).ceilings s).getD wCeil) (max (acct.window.width / 2) wFloor))
  /-- Later failures lower no ceiling until the route has widened. -/
  once : ∀ pre mid post r,
    ops = pre ++ .observe r .failed :: mid ++ .observe r .failed :: post →
      NoWider d r (session d pre) (.observe r .failed :: mid) →
        (session d (pre ++ .observe r .failed :: mid ++ [.observe r .failed])).ceilings =
            (session d (pre ++ .observe r .failed :: mid)).ceilings ∧
          ((session d (pre ++ .observe r .failed :: mid ++ [.observe r .failed])).routes r).map
              (·.window.ceiling) =
            ((session d (pre ++ .observe r .failed :: mid)).routes r).map (·.window.ceiling)
  /-- A ceiling recorded bounds every route of its sharer from then on. -/
  shared : ∀ pre post r acct c, ops = pre ++ post →
    (session d pre).ceilings acct.sharer = some c → (session d ops).routes r = some acct →
      acct.window.width ≤ c

/-- **The learned ceiling protects every route of a sharer**, in every session
in which a death finds no sibling of the dying route open wider than it
teaches. -/
theorem ceiling_protects {ops : List (BudgetOp R)} (finds : EachFinds d ops) :
    Protects d ops where
  falls pre post s c hops hc := hops ▸ ceilings_session hc post
  bounded r w hw := by
    obtain ⟨acct, hr, rfl⟩ := Option.map_eq_some_iff.1 hw
    have fits := (session_bounded ops).fits r acct hr
    exact ⟨fits.floor, Nat.le_trans fits.width fits.ceiling⟩
  climbs pre op post r w w' _ hw hw' wider := climb_is_paid hw hw' wider
  teaches pre post r acct s _ hr := by
    rw [session_snoc]
    exact failed_ceilings (session_bounded pre) hr s
  once pre mid post r _ lives := by
    obtain ⟨⟨w, w', hw, -, -⟩, later⟩ := lives
    obtain ⟨acct, hr, -⟩ := Option.map_eq_some_iff.1 hw
    have collapsed : Collapsed (session d (pre ++ .observe r .failed :: mid)) r := by
      rw [session_append]
      exact (failed_collapsed hr).through later
    rw [session_snoc]
    exact collapsed.failed
  shared pre post r acct c hops hc hr := by
    obtain ⟨c', hc', h'⟩ := ceilings_session hc post
    rw [← hops] at h'
    have fits := (session_bounded ops).fits r acct hr
    exact Nat.le_trans fits.width (Nat.le_trans (session_shared finds r acct c' hr h') hc')

/-- Where fresh windows start with no room to climb, as in production, no
window has any. -/
structure AtFloor (st : BudgetState R) : Prop where
  window : ∀ r acct, st.routes r = some acct → acct.window.ceiling ≤ wFloor
  recorded : ∀ s c, st.ceilings s = some c → c ≤ wFloor

theorem AtFloor.apply {st : BudgetState R} (h : AtFloor st) (floor : d ≤ wFloor)
    (op : BudgetOp R) : AtFloor (st.apply d op) where
  window r acct' hr' := by
    have became := apply_becomes st d op r
    rw [hr'] at became
    generalize hr : st.routes r = before at became
    cases became with
    | counts _ acct => exact h.window r acct hr
    | opens sharer =>
      have start : (st.ceilings sharer).getD d ≤ wFloor := by
        cases hc : st.ceilings sharer with
        | none => exact floor
        | some c => exact h.recorded sharer c hc
      simp only [BudgetState.fresh, RouteWindow.new]
      omega
    | leased sharer acct => exact h.window r acct hr
    | observed o acct =>
      exact Nat.le_trans (observe_observed acct.window o).ceiling_le (h.window r acct hr)
  recorded s c hc := by
    rcases apply_ceilings (d := d) st op with same | ⟨r, acct, -, hr, -, rec⟩
    · exact h.recorded s c (same ▸ hc)
    · rw [rec] at hc
      by_cases hs : s = acct.sharer
      · subst hs
        rw [Function.update_self, Option.some.injEq] at hc
        have := h.window r acct hr
        simp only [RouteWindow.learnt] at hc
        omega
      · rw [Function.update_of_ne hs] at hc
        exact h.recorded s c hc

theorem session_atFloor (floor : d ≤ wFloor) (ops : List (BudgetOp R)) :
    AtFloor (session d ops) := by
  induction ops using List.reverseRecOn with
  | nil => exact ⟨fun _ _ h => absurd h nofun, fun _ _ h => absurd h nofun⟩
  | append_singleton ops op ih =>
    rw [session_snoc]
    exact ih.apply floor op

/-- The production default meets the condition in every session. -/
theorem eachFinds_atFloor (floor : d ≤ wFloor) (ops : List (BudgetOp R)) : EachFinds d ops := by
  intro pre op post _
  have at_ := session_atFloor floor pre
  have bounded := session_bounded (d := d) pre
  match op with
  | .observe r .failed =>
    intro acct _ _ r' acct' _ hr' _
    exact Nat.le_trans (at_.window r' acct' hr') (Nat.le_max_right _ _)
  | .observe r (.completed _) => trivial
  | .lease r s =>
    exact fun acct c hr hc => Nat.le_trans (at_.window r acct hr) (bounded.recorded s c hc).1
  | .acquire r => trivial
  | .dropPermit r => trivial
  | .dropLease r => trivial

/-- Two routes of one sharer, and one of them dies. -/
def siblings : SharerKey := ⟨[7]⟩

theorem ceiling_protects_production :
    Protects defaultRouteCeil [.lease true siblings, .lease false siblings,
      .observe true .failed] :=
  ceiling_protects (eachFinds_atFloor (Nat.le_refl _) _)

/-- One route climbs to the top, its sibling part of the way, and the first
dies. -/
def siblingDies : List (BudgetOp Bool) :=
  [.lease true siblings, .lease false siblings] ++
    List.replicate 27 (.observe true (.completed false)) ++
    List.replicate 5 (.observe false (.completed false)) ++ [.observe true .failed]

/-- The sibling goes on past the ceiling its sharer taught. -/
theorem sibling_widens_past_ceiling :
    ∃ pre post op s c w w', (session (R := Bool) wCeil pre).ceilings s = some c ∧
      (∀ acct, (session wCeil (pre ++ post)).routes false = some acct → acct.sharer = s) ∧
      widthOf (session wCeil (pre ++ post)) false = some w ∧
      widthOf (session wCeil (pre ++ post ++ [op])) false = some w' ∧ w < w' ∧ c < w' := by
  refine ⟨siblingDies, List.replicate 3 (.observe false (.completed false)),
    .observe false (.completed false), siblings, 4, 4, 5, by decide +kernel, fun acct h => ?_,
    by decide +kernel, by decide +kernel, by decide, by decide⟩
  have sharer : ((session wCeil (siblingDies ++
      List.replicate 3 (.observe false (.completed false)))).routes false).map (·.sharer) =
      some siblings := by decide +kernel
  rw [h, Option.map_some, Option.some.injEq] at sharer
  exact sharer

end Daemonseed.Net.LearnedCeiling
