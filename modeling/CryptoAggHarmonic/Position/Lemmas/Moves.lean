import CryptoAggHarmonic.Position.Lemmas.Stops
import Mathlib.Data.List.Chain

/-!
# The actions of a run: stop moves and closed sizes

A consumer places orders from the actions alone. `NeverLoosens` is the law for their `move_stop`s, and
`ladder` with `partials` says which `close_partial`s a run may emit.
-/

namespace CryptoAggHarmonic.Position

open Oriented

variable {s s' s₀ : PositionState} {bar : Bar} {bars : List Bar} {acts acts' : List Action}

/-! ## Stop moves -/

def movedStops (acts : List Action) : List ℚ :=
  acts.filterMap fun
    | .moveStop newStop _ => some newStop
    | _ => none

/-- The stop in force after the actions, when `cur` is in force before them. -/
def lastStop (cur : ℚ) (acts : List Action) : ℚ := (movedStops acts).getLastD cur

/-- No `move_stop` gives ground against the stop in force, which is `cur` at first. -/
def NeverLoosens (up : Bool) (cur : ℚ) (acts : List Action) : Prop :=
  (cur :: movedStops acts).IsChain (Le up)

instance (up : Bool) (cur : ℚ) (acts : List Action) : Decidable (NeverLoosens up cur acts) := by
  unfold NeverLoosens; infer_instance

@[simp] theorem movedStops_nil : movedStops [] = [] := rfl

@[simp] theorem movedStops_append : movedStops (acts ++ acts') = movedStops acts ++ movedStops acts' :=
  List.filterMap_append

@[simp] theorem movedStops_closePartial {p : ℚ} {r : String} :
    movedStops (.closePartial p r :: acts) = movedStops acts := rfl

@[simp] theorem movedStops_closeAll {r : String} : movedStops (.closeAll r :: acts) = movedStops acts := rfl

@[simp] theorem movedStops_hold {r : String} : movedStops (.hold r :: acts) = movedStops acts := rfl

theorem movedStops_orHold : movedStops (orHold acts) = movedStops acts := by
  cases acts <;> rfl

theorem lastStop_append {cur : ℚ} : lastStop cur (acts ++ acts') = lastStop (lastStop cur acts) acts' := by
  unfold lastStop
  rw [movedStops_append]
  cases h : movedStops acts' with
  | nil => simp
  | cons x xs => simp [List.getLastD_eq_getLast?, List.getLast?_append]

/-- A chain through two lists is one through each, the second from where the first ends. -/
theorem isChain_cons_append {α : Type*} {R : α → α → Prop} {a : α} {l m : List α} :
    (a :: (l ++ m)).IsChain R ↔ (a :: l).IsChain R ∧ (l.getLastD a :: m).IsChain R := by
  induction l generalizing a with
  | nil => simp
  | cons b l ih =>
      have hlast : (b :: l).getLastD a = l.getLastD b := by cases l <;> rfl
      simp only [List.cons_append, List.isChain_cons_cons, ih, hlast, and_assoc]

theorem NeverLoosens.append_iff {up : Bool} {cur : ℚ} : NeverLoosens up cur (acts ++ acts') ↔
    NeverLoosens up cur acts ∧ NeverLoosens up (lastStop cur acts) acts' := by
  simp only [NeverLoosens, movedStops_append, lastStop, isChain_cons_append]

theorem lastStop_moveIf {cur stop : ℚ} {r : String} : lastStop cur (moveIf cur stop r) = stop := by
  unfold moveIf
  split
  · rfl
  · rename_i h
    exact (not_not.mp h).symm

theorem NeverLoosens.moveIf_iff {up : Bool} {cur stop : ℚ} {r : String} :
    NeverLoosens up cur (moveIf cur stop r) ↔ Le up cur stop := by
  unfold moveIf
  split
  · simp [NeverLoosens, movedStops]
  · rename_i h
    rw [not_not.mp h]
    simp [NeverLoosens, Le.refl]

theorem lastStop_ratchetActions {e : ℚ} :
    lastStop s.currentStop (ratchetActions s e) = (s.ratchet e).currentStop := by
  unfold ratchetActions
  split
  · rename_i h
    exact (sup_eq_right h.le).symm
  · rename_i h
    exact (sup_eq_left (not_lt.mp h)).symm

theorem NeverLoosens.ratchetActions (s : PositionState) (e : ℚ) :
    NeverLoosens s.bullish s.currentStop (ratchetActions s e) := by
  unfold Position.ratchetActions
  split
  · rename_i h
    simpa [NeverLoosens, movedStops] using h.le
  · simp [NeverLoosens]

/-- TP2 fires on this bar while the chandelier has already carried the stop past TP1. -/
structure LoosensOn (s : PositionState) (bar : Bar) : Prop where
  isOpen : s.closed = false
  tp1_hit : s.tp1Hit = true
  tp2_not : s.tp2Hit = false
  past_tp1 : Lt s.bullish s.tp1 s.currentStop
  not_stopped : Lt s.bullish s.currentStop (bar.adverse s.bullish)
  not_timedOut : ¬ s.tick.TimedOut
  reaches : s.Reaches bar s.tp2

/-- In a climb only TP2 can give ground: it moves the stop to TP1 from wherever the chandelier left it. -/
theorem Climb.neverLoosens_iff (hc : Climb bar s acts s') (h : Live s) (ho : Ordered s)
    (hcur : s.tp1Hit = false → Le s.bullish s.currentStop s.entryPrice) :
    NeverLoosens s.bullish s.currentStop acts ↔
      ¬ (s.tp1Hit = true ∧ s.tp2Hit = false ∧ Lt s.bullish s.tp1 s.currentStop ∧ s.Reaches bar s.tp2) := by
  induction hc with
  | @rest s hr =>
      constructor
      · rintro - ⟨h1, h2, -, hr2⟩
        exact hr (by simpa [PositionState.nextTp, h1, h2] using hr2)
      · intro _
        simp [NeverLoosens]
  | @tp1 s s' acts hs h1 _ hcl ih =>
      have h2 := h.tp2_not h1
      have ih' := ih (h.fire_tp1 h1) ⟨ho.stop_entry, ho.entry_tp1, ho.tp1_tp2, ho.tp2_tp3⟩
        (fun hcon => by cases hcon)
      have hgood : NeverLoosens s.bullish s.entryPrice acts := by
        refine ih'.mpr ?_
        rintro ⟨-, -, hlt, -⟩
        exact Oriented.not_lt.mpr ho.entry_tp1 hlt
      have hchain : NeverLoosens s.bullish s.currentStop
          (moveIf s.currentStop s.entryPrice TpName.tp1.afterReason ++ acts) := by
        rw [NeverLoosens.append_iff, NeverLoosens.moveIf_iff, lastStop_moveIf]
        exact ⟨hcur h1, hgood⟩
      constructor
      · rintro - ⟨h1', -⟩
        exact absurd (h1.symm.trans h1') (by simp)
      · exact fun _ => hchain
  | @tp2 s s' acts hs h1 h2 hr hcl ih =>
      have ih' := ih (h.fire_tp2 h1) ⟨ho.stop_entry, ho.entry_tp1, ho.tp1_tp2, ho.tp2_tp3⟩
        (fun hcon => absurd (h1.symm.trans hcon) (by simp))
      have hgood : NeverLoosens s.bullish s.tp1 acts := by
        refine ih'.mpr ?_
        rintro ⟨-, hcon, -⟩
        cases hcon
      have hsplit : NeverLoosens s.bullish s.currentStop
          (moveIf s.currentStop s.tp1 TpName.tp2.afterReason ++ acts) ↔ Le s.bullish s.currentStop s.tp1 := by
        rw [NeverLoosens.append_iff, NeverLoosens.moveIf_iff, lastStop_moveIf]
        exact and_iff_left hgood
      rw [← Oriented.not_lt] at hsplit
      refine Iff.trans hsplit (not_congr ?_)
      constructor
      · exact fun hlt => ⟨h1, h2, hlt, hr⟩
      · rintro ⟨-, -, hlt, -⟩
        exact hlt
  | tp3 h2 _ =>
      constructor
      · rintro - ⟨-, h2', -⟩
        exact absurd (h2.symm.trans h2') (by simp)
      · intro _
        simp [NeverLoosens]

theorem lastStop_rung {cur p stop : ℚ} {r r' : String} :
    lastStop cur (.closePartial p r :: (moveIf cur stop r' ++ acts)) = lastStop stop acts := by
  show lastStop cur (moveIf cur stop r' ++ acts) = _
  rw [lastStop_append, lastStop_moveIf]

theorem Climb.lastStop (hc : Climb bar s acts s') : lastStop s.currentStop acts = s'.currentStop := by
  induction hc with
  | rest _ => rfl
  | tp1 hs _ _ _ ih => exact lastStop_rung.trans ih
  | tp2 hs _ _ _ _ ih => exact lastStop_rung.trans ih
  | tp3 _ _ => rfl

/-- The stop in force for a consumer of the actions is the stop of the state. -/
theorem BarStep.lastStop (hstep : BarStep s bar s' acts) : lastStop s.currentStop acts = s'.currentStop := by
  cases hstep with
  | stopped _ => rfl
  | timedOut _ _ => rfl
  | finished _ _ hc _ => exact hc.lastStop
  | trailed _ _ hc _ _ _ =>
      rw [Position.lastStop, movedStops_orHold, ← Position.lastStop, lastStop_append,
        show s.currentStop = s.tick.currentStop from rfl, hc.lastStop]
      have hup := hc.sameTrade.bullish
      exact lastStop_ratchetActions
  | waited _ _ _ _ => rfl

/-- **The stop moves of one bar.** -/
theorem BarStep.neverLoosens_iff (hstep : BarStep s bar s' acts) (h : Live s) (ho : Ordered s)
    (hcur : s.tp1Hit = false → Le s.bullish s.currentStop s.entryPrice) :
    NeverLoosens s.bullish s.currentStop acts ↔ ¬ LoosensOn s bar := by
  cases hstep with
  | stopped hs =>
      exact ⟨fun _ hl => Oriented.not_lt.mpr hs hl.not_stopped, fun _ => by simp [NeverLoosens]⟩
  | timedOut _ ht => exact ⟨fun _ hl => hl.not_timedOut ht, fun _ => by simp [NeverLoosens]⟩
  | finished hs ht hc _ =>
      refine Iff.trans (hc.neverLoosens_iff h.tick ⟨ho.stop_entry, ho.entry_tp1, ho.tp1_tp2, ho.tp2_tp3⟩ hcur)
        (not_congr ?_)
      exact ⟨fun ⟨h1, h2, hlt, hr⟩ => ⟨h.isOpen, h1, h2, hlt, hs, ht, hr⟩,
        fun hl => ⟨hl.tp1_hit, hl.tp2_not, hl.past_tp1, hl.reaches⟩⟩
  | @trailed s₁ as e hs ht hc _ _ _ =>
      have hup : s₁.bullish = s.bullish := hc.sameTrade.bullish
      have hratchet : NeverLoosens s.bullish (Position.lastStop s.currentStop as)
          (Position.ratchetActions s₁ (sup s.bullish e (bar.favourable s.bullish))) := by
        rw [show s.currentStop = s.tick.currentStop from rfl, hc.lastStop, ← hup]
        exact NeverLoosens.ratchetActions _ _
      rw [NeverLoosens, movedStops_orHold, ← NeverLoosens, NeverLoosens.append_iff, and_iff_left hratchet]
      refine Iff.trans (hc.neverLoosens_iff h.tick ⟨ho.stop_entry, ho.entry_tp1, ho.tp1_tp2, ho.tp2_tp3⟩ hcur)
        (not_congr ?_)
      exact ⟨fun ⟨h1, h2, hlt, hr⟩ => ⟨h.isOpen, h1, h2, hlt, hs, ht, hr⟩,
        fun hl => ⟨hl.tp1_hit, hl.tp2_not, hl.past_tp1, hl.reaches⟩⟩
  | waited _ _ h1 _ =>
      exact ⟨fun _ hl => absurd (h1.symm.trans hl.tp1_hit) (by simp), fun _ => by simp [NeverLoosens]⟩

/-! ## Closed sizes -/

def partials (acts : List Action) : List (ℚ × String) :=
  acts.filterMap fun
    | .closePartial p r => some (p, r)
    | _ => none

def closedFraction (acts : List Action) : ℚ := ((partials acts).map Prod.fst).sum

def isCloseAll : Action → Bool
  | .closeAll _ => true
  | _ => false

def ladder : List (ℚ × String) :=
  [(1 / 2, TpName.tp1.hitReason), (3 / 10, TpName.tp2.hitReason), (1 / 5, TpName.tp3.hitReason)]

def PositionState.rungs (s : PositionState) : ℕ := if s.tp2Hit then 2 else if s.tp1Hit then 1 else 0

theorem rungs_fire_tp1 (h2 : s.tp2Hit = false) {stop size : ℚ} {hs : 0 ≤ size ∧ size ≤ 1} :
    (s.fire .tp1 bar stop size hs).rungs = 1 := by
  simp [PositionState.rungs, PositionState.fire, PositionState.markHit, PositionState.setSizeRemaining,
    PositionState.setCurrentStop, h2]

@[simp] theorem partials_append : partials (acts ++ acts') = partials acts ++ partials acts' :=
  List.filterMap_append

@[simp] theorem partials_closePartial {p : ℚ} {r : String} :
    partials (.closePartial p r :: acts) = (p, r) :: partials acts := rfl

@[simp] theorem closedFraction_append :
    closedFraction (acts ++ acts') = closedFraction acts + closedFraction acts' := by
  simp [closedFraction]

theorem partials_moveIf {cur stop : ℚ} {r : String} : partials (moveIf cur stop r) = [] := by
  unfold moveIf; split <;> rfl

theorem partials_ratchetActions {e : ℚ} : partials (ratchetActions s e) = [] := by
  unfold ratchetActions; split <;> rfl

theorem partials_orHold : partials (orHold acts) = partials acts := by cases acts <;> rfl

theorem any_closeAll_moveIf {cur stop : ℚ} {r : String} : (moveIf cur stop r).any isCloseAll = false := by
  unfold moveIf; split <;> rfl

theorem any_closeAll_ratchetActions {e : ℚ} : (ratchetActions s e).any isCloseAll = false := by
  unfold ratchetActions; split <;> rfl

theorem any_closeAll_orHold (h : acts.any isCloseAll = false) : (orHold acts).any isCloseAll = false := by
  cases acts with
  | nil => rfl
  | cons a as => exact h

theorem sum_take_ladder (h : Live s) : ((ladder.take s.rungs).map Prod.fst).sum = 1 - s.sizeRemaining := by
  rw [h.size]
  cases h2 : s.tp2Hit <;> cases h1 : s.tp1Hit <;>
    simp [ladder, PositionState.rungs, PositionState.ladderSize, h1, h2] <;> norm_num

/-- The rungs taken by a climb that ends live continue the ladder, and nothing is closed whole. -/
theorem Climb.partials_live (hc : Climb bar s acts s') (h : Live s) (h' : Live s') :
    ladder.take s.rungs ++ partials acts = ladder.take s'.rungs ∧ acts.any isCloseAll = false := by
  induction hc with
  | rest _ => exact ⟨List.append_nil _, rfl⟩
  | @tp1 s s' acts hs h1 _ hcl ih =>
      have h2 := h.tp2_not h1
      obtain ⟨ih1, ih2⟩ := ih (h.fire_tp1 h1) h'
      rw [rungs_fire_tp1 h2] at ih1
      have h0 : s.rungs = 0 := by simp [PositionState.rungs, h1, h2]
      refine ⟨?_, ?_⟩
      · simpa [h0, partials_moveIf, ladder] using ih1
      · simp [isCloseAll, any_closeAll_moveIf, ih2]
  | @tp2 s s' acts hs h1 h2 _ hcl ih =>
      obtain ⟨ih1, ih2⟩ := ih (h.fire_tp2 h1) h'
      have hr : (s.fire .tp2 bar s.tp1 (1 / 5) hs).rungs = 2 := rfl
      rw [hr] at ih1
      have h0 : s.rungs = 1 := by simp [PositionState.rungs, h1, h2]
      refine ⟨?_, ?_⟩
      · simpa [h0, partials_moveIf, ladder] using ih1
      · simp [isCloseAll, any_closeAll_moveIf, ih2]
  | tp3 _ _ => exact absurd h'.isOpen (by simp [PositionState.close])

/-- A climb that closes the position completes the ladder and ends with the one `close_all`. -/
theorem Climb.partials_closed (hc : Climb bar s acts s') (h : Live s) (h' : s'.closed = true) :
    ladder.take s.rungs ++ partials acts = ladder ∧
      ∃ pre r, acts = pre ++ [.closeAll r] ∧ pre.any isCloseAll = false := by
  induction hc with
  | rest _ => rw [h.isOpen] at h'; cases h'
  | @tp1 s s' acts hs h1 _ hcl ih =>
      have h2 := h.tp2_not h1
      obtain ⟨ih1, pre, r, rfl, ih2⟩ := ih (h.fire_tp1 h1) h'
      rw [rungs_fire_tp1 h2] at ih1
      have h0 : s.rungs = 0 := by simp [PositionState.rungs, h1, h2]
      refine ⟨?_, .closePartial (1 / 2) TpName.tp1.hitReason ::
        (moveIf s.currentStop s.entryPrice TpName.tp1.afterReason ++ pre), r, ?_, ?_⟩
      · simpa [h0, partials_moveIf, ladder] using ih1
      · simp only [List.cons_append, List.append_assoc]
      · simp [isCloseAll, any_closeAll_moveIf, ih2]
  | @tp2 s s' acts hs h1 h2 _ hcl ih =>
      obtain ⟨ih1, pre, r, rfl, ih2⟩ := ih (h.fire_tp2 h1) h'
      have hr : (s.fire .tp2 bar s.tp1 (1 / 5) hs).rungs = 2 := rfl
      rw [hr] at ih1
      have h0 : s.rungs = 1 := by simp [PositionState.rungs, h1, h2]
      refine ⟨?_, .closePartial (3 / 10) TpName.tp2.hitReason ::
        (moveIf s.currentStop s.tp1 TpName.tp2.afterReason ++ pre), r, ?_, ?_⟩
      · simpa [h0, partials_moveIf, ladder] using ih1
      · simp only [List.cons_append, List.append_assoc]
      · simp [isCloseAll, any_closeAll_moveIf, ih2]
  | @tp3 s h2 _ =>
      have h0 : s.rungs = 2 := by simp [PositionState.rungs, h2]
      exact ⟨by rw [h0]; rfl, [.closePartial (1 / 5) TpName.tp3.hitReason], _, rfl, rfl⟩

end CryptoAggHarmonic.Position
