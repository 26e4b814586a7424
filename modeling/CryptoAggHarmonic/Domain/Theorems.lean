import Mathlib.Tactic.FieldSimp
import Mathlib.Tactic.Ring
import CryptoAggHarmonic.Domain.Signals
import CryptoAggHarmonic.Domain.Validation

/-!
# What widens a stop

The override of `compute_stop` against the multiplier chain it shares, and the trap score against the multiplier that
reads it.
-/

namespace CryptoAggHarmonic.Domain

open Config Rounding

variable {t : TuningConstants} {c : Candidate} {atr b : ℚ} {level : String}

/-! ## The override -/

/-- The arguments that the override is to silence. -/
structure ChainArgs where
  trapMultiplier : ℚ
  regime : Regime
  grade : Option Grade

def ChainArgs.options (m : ChainArgs) (b : ℚ) (swingAnchor entry : Option ℚ) : StopOptions where
  swingAnchor := swingAnchor
  entry := entry
  trapMultiplier := m.trapMultiplier
  regime := m.regime
  grade := m.grade
  stopBufferAtr := some b

/-- `trap × regime × grade` -/
def ChainArgs.product (m : ChainArgs) : ℚ :=
  max 1 m.trapMultiplier * m.regime.stopMultiplier * (m.grade.map Grade.stopMultiplier).getD 1

/-- No factor of the chain deviates from 1. -/
structure ChainArgs.Neutral (m : ChainArgs) : Prop where
  trap : m.trapMultiplier ≤ 1
  regime : m.regime.stopMultiplier = 1
  grade : (m.grade.map Grade.stopMultiplier).getD 1 = 1

/-- The stop that is `b × atr` away from the structural anchor. -/
def overrideStop (t : TuningConstants) (c : Candidate) (atr b : ℚ) (level : String) (swingAnchor entry : Option ℚ) :
    ℚ :=
  let anchor := stopAnchor t c (StopLevel.resolve level) { swingAnchor, entry }
  roundTo 8 (if c.bullish then anchor - b * atr else anchor + b * atr)

/-- On every geometry two calls that differ only in the chain return the stop of the override. -/
def OverrideHolds (t : TuningConstants) (b : ℚ) (m m' : ChainArgs) : Prop :=
  ∀ c atr level swingAnchor entry r r', computeStop t c atr level (m.options b swingAnchor entry) = .ok r →
    computeStop t c atr level (m'.options b swingAnchor entry) = .ok r' →
      r.1 = overrideStop t c atr b level swingAnchor entry ∧ r'.1 = r.1

theorem Regime.one_le (r : Regime) : 1 ≤ r.stopMultiplier := by
  cases r <;> simp only [Regime.stopMultiplier] <;> norm_num

theorem Grade.one_le (g : Option Grade) : 1 ≤ (g.map Grade.stopMultiplier).getD 1 := by
  cases g with
  | none => exact le_refl 1
  | some g => cases g <;> simp only [Option.map_some, Option.getD_some, Grade.stopMultiplier] <;> norm_num

theorem ChainArgs.one_le (m : ChainArgs) : 1 ≤ m.product :=
  one_le_mul_of_one_le_of_one_le (one_le_mul_of_one_le_of_one_le (le_max_left _ _) m.regime.one_le)
    (Grade.one_le m.grade)

theorem ChainArgs.product_eq_one_iff (m : ChainArgs) : m.product = 1 ↔ m.Neutral := by
  have htrap : (1 : ℚ) ≤ max 1 m.trapMultiplier := le_max_left _ _
  have hregime := m.regime.one_le
  have hgrade := Grade.one_le m.grade
  have htwo : 1 ≤ max 1 m.trapMultiplier * m.regime.stopMultiplier := one_le_mul_of_one_le_of_one_le htrap hregime
  constructor
  · intro h
    unfold ChainArgs.product at h
    have hg : (m.grade.map Grade.stopMultiplier).getD 1 = 1 := by nlinarith
    rw [hg, mul_one] at h
    have hr : m.regime.stopMultiplier = 1 := by nlinarith
    rw [hr, mul_one] at h
    exact ⟨max_eq_left_iff.mp h, hr, hg⟩
  · intro h
    rw [ChainArgs.product, h.regime, h.grade, max_eq_left h.trap, mul_one, mul_one]

/-- What is left of the override after the chain and the clamp. -/
theorem effective_eq_iff (m : ChainArgs) :
    min (b * m.product) MAX_STOP_BUFFER_MULT = b ↔ b = 0 ∨ b = 2 ∨ (b < 2 ∧ m.Neutral) := by
  have hm := m.one_le
  rw [← m.product_eq_one_iff]
  unfold MAX_STOP_BUFFER_MULT
  constructor
  · intro h
    rcases min_choice (b * m.product) 2 with hmin | hmin
    · rw [hmin] at h
      by_cases hb : b = 0
      · exact Or.inl hb
      · have hone : m.product = 1 := mul_left_cancel₀ hb (by rw [h, mul_one])
        have hle : b ≤ 2 := by
          rw [← h, ← hmin]
          exact min_le_right _ _
        rcases hle.lt_or_eq with hlt | heq
        · exact Or.inr (Or.inr ⟨hlt, hone⟩)
        · exact Or.inr (Or.inl heq)
    · rw [hmin] at h
      exact Or.inr (Or.inl h.symm)
  · rintro (rfl | rfl | ⟨hlt, hone⟩)
    · norm_num
    · exact min_eq_right (by linarith)
    · rw [hone, mul_one]
      exact min_eq_left hlt.le

theorem stopAnchor_options (m : ChainArgs) (swingAnchor entry : Option ℚ) (level : StopLevel) :
    stopAnchor t c level (m.options b swingAnchor entry) = stopAnchor t c level { swingAnchor, entry } := rfl

theorem stopBuffer_options (m : ChainArgs) (swingAnchor entry : Option ℚ) (level : StopLevel) :
    stopBuffer t level atr (m.options b swingAnchor entry) = min (b * m.product) MAX_STOP_BUFFER_MULT * atr := by
  simp only [stopBuffer, stopBase, ChainArgs.options, trapM, gradeM, Option.getD_some, ChainArgs.product, mul_assoc]

theorem computeStop_override (m : ChainArgs) {swingAnchor entry : Option ℚ} {r : ℚ × String × ℚ}
    (heq : min (b * m.product) MAX_STOP_BUFFER_MULT = b)
    (h : computeStop t c atr level (m.options b swingAnchor entry) = .ok r) :
    r.1 = overrideStop t c atr b level swingAnchor entry := by
  obtain ⟨-, rfl⟩ := computeStop_eq_ok.mp h
  simp only [computeStopBody, rawStop, stopBuffer_options, stopAnchor_options, heq, overrideStop]

/-! ### A candidate that shows the difference -/

/-- A long candidate with every price at `p`. -/
def flatCandidate (p : ℚ) : Candidate where
  family := "XABCD"
  name := "gartley"
  bullish := true
  formed := true
  points := [p, p, p]
  completionMin := p
  completionMax := p
  points_length := le_refl 3

theorem stopAnchor_flat (p : ℚ) (level : StopLevel) : stopAnchor t (flatCandidate p) level {} = p := by
  cases level <;>
    simp [stopAnchor, structuralAnchor, swingAdjusted, flatCandidate, Candidate.przLow, Candidate.xPrice]

theorem computeStop_flat (m : ChainArgs) {p : ℚ} (hatr : 0 < atr) (hp : 2 * atr + 1 ≤ p) :
    computeStop t (flatCandidate p) atr "standard" (m.options b none none) =
      .ok (computeStopBody t (flatCandidate p) atr "standard" (m.options b none none)) := by
  have hbuffer : min (b * m.product) MAX_STOP_BUFFER_MULT * atr ≤ 2 * atr := by
    gcongr
    exact min_le_right _ _
  refine computeStop_eq_ok.mpr ⟨⟨hatr, ?_, ?_, ?_, ?_⟩, rfl⟩
  · simp only [flatCandidate, Candidate.przLow, Candidate.przHigh, min_self, max_self]
    constructor <;> linarith
  · intro q hq
    simp only [flatCandidate, List.mem_cons, List.not_mem_nil, or_false, or_self] at hq
    linarith
  · rw [rawStop, stopBuffer_options, stopAnchor_options, stopAnchor_flat]
    simp only [flatCandidate, ↓reduceIte]
    have : (1 : ℚ) / 2 / 10 ^ 8 < 1 := by norm_num
    linarith
  · rw [stopAnchor_options, stopAnchor_flat]
    have : (1 : ℚ) / 2 / 10 ^ 8 < 1 := by norm_num
    linarith

/-- With the ATR large enough the clamped chain is a whole unit off. -/
theorem effective_of_override (m : ChainArgs)
    (h : ∀ atr p r, computeStop t (flatCandidate p) atr "standard" (m.options b none none) = .ok r → 0 < atr →
      2 * atr + 1 ≤ p → r.1 = overrideStop t (flatCandidate p) atr b "standard" none none) :
    min (b * m.product) MAX_STOP_BUFFER_MULT = b := by
  by_contra hne
  have hgap : min (b * m.product) MAX_STOP_BUFFER_MULT - b ≠ 0 := sub_ne_zero.mpr hne
  have hatr : 0 < 1 / |min (b * m.product) MAX_STOP_BUFFER_MULT - b| := by positivity
  have hunit : |min (b * m.product) MAX_STOP_BUFFER_MULT * (1 / |min (b * m.product) MAX_STOP_BUFFER_MULT - b|) -
      b * (1 / |min (b * m.product) MAX_STOP_BUFFER_MULT - b|)| = 1 := by
    rw [← sub_mul, abs_mul, abs_of_pos hatr, mul_one_div_cancel (abs_ne_zero.mpr hgap)]
  generalize hA : 1 / |min (b * m.product) MAX_STOP_BUFFER_MULT - b| = A at hatr hunit
  have hstop := h A (2 * A + 1) _ (computeStop_flat m hatr (le_refl _)) hatr (le_refl _)
  simp only [computeStopBody, overrideStop, rawStop, stopBuffer_options, stopAnchor_options, stopAnchor_flat] at hstop
  simp only [flatCandidate, ↓reduceIte] at hstop
  have hsmall : (1 : ℚ) / 10 ^ 8 < 1 := by norm_num
  rcases (abs_eq zero_le_one).mp hunit with hpos | hneg
  · exact absurd hstop (roundTo_lt_roundTo (d := 8) (by linarith)).ne
  · exact absurd hstop (roundTo_lt_roundTo (d := 8) (by linarith)).ne'

/-- **The override holds against the chain** exactly when it is 0 or 2, or below 2 with every factor of both chains 1:
the chain multiplies it like a level's buffer and the clamp cuts it off. -/
theorem override_holds_iff (t : TuningConstants) (b : ℚ) (m m' : ChainArgs) :
    OverrideHolds t b m m' ↔ b = 0 ∨ b = 2 ∨ (b < 2 ∧ m.Neutral ∧ m'.Neutral) := by
  have hboth : (b = 0 ∨ b = 2 ∨ (b < 2 ∧ m.Neutral ∧ m'.Neutral)) ↔
      min (b * m.product) MAX_STOP_BUFFER_MULT = b ∧ min (b * m'.product) MAX_STOP_BUFFER_MULT = b := by
    rw [effective_eq_iff, effective_eq_iff]
    tauto
  rw [hboth]
  constructor
  · intro h
    constructor
    · refine effective_of_override (t := t) m fun atr p r hr hatr hp => ?_
      exact (h _ _ _ _ _ _ _ hr (computeStop_flat m' hatr hp)).1
    · refine effective_of_override (t := t) m' fun atr p r hr hatr hp => ?_
      obtain ⟨hfirst, hsecond⟩ := h _ _ _ _ _ _ _ (computeStop_flat m hatr hp) hr
      rw [hsecond, hfirst]
  · rintro ⟨hm, hm'⟩ c atr level swingAnchor entry r r' hr hr'
    have hfirst := computeStop_override m hm hr
    exact ⟨hfirst, (computeStop_override m' hm' hr').trans hfirst.symm⟩

/-- An override of one ATR below 100, alone and with a trap multiplier of 2. -/
theorem override_widened : ¬ OverrideHolds TUNING 1 ⟨1, .normal, none⟩ ⟨2, .normal, none⟩ := by
  intro h
  have := (h (flatCandidate 100) 1 "standard" none none (99, "X/PRZ invalidation - 1.00*ATR", 100)
    (98, "X/PRZ invalidation - 1.00*ATR", 100) (by decide +kernel) (by decide +kernel)).2
  norm_num at this

/-! ## The trap score -/

/-- The penalties of `quant_trap_risk`. The two for false breakouts are the degrees of one. -/
inductive TrapSign
  | falseBreakWarn
  | falseBreakPenalty
  | stopHunts
  | volClimax
  deriving DecidableEq

def Fires (d : List Candle) : TrapSign → Prop
  | .falseBreakWarn => falseBreakRate d > FALSE_BREAK_WARN
  | .falseBreakPenalty => falseBreakRate d > FALSE_BREAK_PENALTY
  | .stopHunts => stopHuntRate d > STOP_HUNT_PENALTY
  | .volClimax => volClimaxRate d > VOL_CLIMAX_PENALTY

/-- A call of `quant_trap_risk` that sees at least 15 bars and does not veto. -/
structure TrapCall where
  df : Frame
  przLow : ℚ
  przHigh : ℚ
  bullish : Bool
  lookback : ℕ
  length : 15 ≤ (tailN lookback df.rows).length
  passed : (quantTrapRisk df przLow przHigh bullish lookback).2.1 = false

namespace TrapCall

def bars (call : TrapCall) : List Candle := tailN call.lookback call.df.rows

def score (call : TrapCall) : ℤ := (quantTrapRisk call.df call.przLow call.przHigh call.bullish call.lookback).1

/-- What the second pass of `score_candidate` multiplies the stop by. -/
def multiplier (call : TrapCall) : Except PyError ℚ := trapStopMultiplier call.score

end TrapCall

/-- Evidence widens: more of it scores and multiplies no less, any of it scores above neutral, and all three kinds of it
multiply by more than 1. -/
structure Widens (a b : TrapCall) : Prop where
  mono : (∀ sign, Fires a.bars sign → Fires b.bars sign) →
    a.score ≤ b.score ∧ ∃ x y, a.multiplier = .ok x ∧ b.multiplier = .ok y ∧ x ≤ y
  above : (∃ sign, Fires b.bars sign) → 50 < b.score
  wider : Fires b.bars .falseBreakWarn → Fires b.bars .stopHunts → Fires b.bars .volClimax →
    ∃ y, b.multiplier = .ok y ∧ 1 < y

/-- What the penalties take off. -/
def penalty (d : List Candle) : ℤ :=
  (if falseBreakRate d > FALSE_BREAK_PENALTY then 20 else if falseBreakRate d > FALSE_BREAK_WARN then 8 else 0) +
    (if stopHuntRate d > STOP_HUNT_PENALTY then 15 else 0) + if volClimaxRate d > VOL_CLIMAX_PENALTY then 15 else 0

theorem penalty_eq_zero_iff {d : List Candle} : penalty d = 0 ↔ ∀ sign, ¬ Fires d sign := by
  constructor
  · intro h sign hfires
    unfold penalty at h
    cases sign <;> simp only [Fires] at hfires <;> split_ifs at h <;> omega
  · intro h
    have hwarn := h .falseBreakWarn
    have hpenalty := h .falseBreakPenalty
    have hhunts := h .stopHunts
    have hclimax := h .volClimax
    simp only [Fires] at hwarn hpenalty hhunts hclimax
    simp [penalty, hwarn, hpenalty, hhunts, hclimax]

theorem penalty_nonneg {d : List Candle} : 0 ≤ penalty d := by
  unfold penalty
  split_ifs <;> omega

/-- **The score of a call that does not veto** is the neutral one less its penalties, and no less than 10. -/
theorem TrapCall.score_eq (call : TrapCall) : call.score = max 10 (50 - penalty call.bars) := by
  have hlength := call.length
  have hpassed := call.passed
  have hpenalty := penalty_nonneg (d := call.bars)
  have hveto : ¬ falseBreakRate call.bars > FALSE_BREAK_VETO := by
    intro hveto
    simp only [TrapCall.bars] at hveto
    simp [quantTrapRisk, not_lt.mpr hlength, hveto] at hpassed
  simp only [TrapCall.bars] at hveto hpenalty ⊢
  simp only [TrapCall.score, quantTrapRisk, not_lt.mpr hlength, hveto, ↓reduceIte]
  unfold penalty at hpenalty ⊢
  split_ifs at hpenalty ⊢ <;> simp only <;> omega

/-- The multiplier is flat up to 60, and no score gets above 50. -/
theorem TrapCall.multiplier_eq (call : TrapCall) : call.multiplier = .ok 1 := by
  have hpenalty := penalty_nonneg (d := call.bars)
  have hscore := call.score_eq
  have hlow : 10 ≤ call.score ∧ call.score ≤ 50 := by omega
  have hbody : trapStopMultiplierBody call.score = 1 := if_pos (by omega)
  simp only [TrapCall.multiplier, trapStopMultiplier, require_bind_eq_ok, pure_eq_ok, hbody]
  exact ⟨⟨by omega, by omega⟩, ⟨le_refl 1, by norm_num⟩, trivial⟩

/-- **Trap evidence widens the stop** only where there is none: a penalty lowers the score, and the multiplier rises
with the score. -/
theorem trap_widens_iff (a b : TrapCall) : Widens a b ↔ ∀ sign, ¬ Fires b.bars sign := by
  constructor
  · intro h sign hfires
    have habove := h.above ⟨sign, hfires⟩
    have hscore := b.score_eq
    have hpenalty := penalty_nonneg (d := b.bars)
    omega
  · intro h
    refine ⟨fun hfewer => ⟨?_, 1, 1, a.multiplier_eq, b.multiplier_eq, le_refl 1⟩, ?_, fun hwarn => absurd hwarn (h _)⟩
    · have ha := penalty_eq_zero_iff.mpr fun sign hfires => h sign (hfewer sign hfires)
      have hb := penalty_eq_zero_iff.mpr h
      rw [a.score_eq, b.score_eq, ha, hb]
    · rintro ⟨sign, hfires⟩
      exact absurd hfires (h sign)

/-- A quiet bar, and one that dips below the last five lows and closes back, on thrice the volume. -/
def quietBar : Candle := ⟨100, 101, 99, 100, 1, 0, 0, 0⟩

def trapBar : Candle := ⟨99, 199 / 2, 97, 496 / 5, 3, 0, 0, 0⟩

/-- 15 bars on which all three penalties fire. -/
def trapFrame : Frame where
  rows := List.replicate 6 quietBar ++ [trapBar] ++ List.replicate 5 quietBar ++ [trapBar] ++ List.replicate 2 quietBar

def trapCall : TrapCall where
  df := trapFrame
  przLow := 50
  przHigh := 51
  bullish := true
  lookback := 60
  length := by decide
  passed := by decide +kernel

/-- All three penalties bring the score down to 10 and leave the multiplier at 1. -/
theorem trapCall_not_widened : (Fires trapCall.bars .falseBreakWarn ∧ Fires trapCall.bars .stopHunts ∧
    Fires trapCall.bars .volClimax) ∧ trapCall.score = 10 ∧ ¬ Widens trapCall trapCall := by
  have hfires : Fires trapCall.bars .falseBreakWarn ∧ Fires trapCall.bars .stopHunts ∧
      Fires trapCall.bars .volClimax := by
    simp only [Fires]
    decide +kernel
  have hscore : trapCall.score = 10 := by decide +kernel
  refine ⟨hfires, hscore, fun h => ?_⟩
  have := h.above ⟨_, hfires.1⟩
  omega

end CryptoAggHarmonic.Domain
