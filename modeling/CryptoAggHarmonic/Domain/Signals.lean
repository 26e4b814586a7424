import CryptoAggHarmonic.Config.Tuning
import CryptoAggHarmonic.Python.Text
import Mathlib.Tactic.Linarith

/-!
# Trading-signal math

`app/domain/signals.py`. What the source reads through `get_tuning()` is the argument `t`. A function with
contracts is a `Body` without them and the checked function around it, which checks them in the order of the
source.
-/

namespace CryptoAggHarmonic.Domain

open Config Rounding

inductive Direction
  | long
  | short
  deriving DecidableEq, Repr

inductive PrzState
  | approaching
  | inPrz
  | confirmed
  | swept
  deriving DecidableEq, Repr

inductive StopLevel
  | conservative
  | standard
  | aggressive
  deriving DecidableEq, Repr

inductive Regime
  | normal
  | moderateQuant
  | highQuant
  deriving DecidableEq, Repr

/-- `cRef` is the reference grade `C(参考)`. -/
inductive Grade
  | a
  | b
  | c
  | cRef
  deriving DecidableEq, Repr

inductive Trend
  | bullish
  | bearish
  | unknown
  deriving DecidableEq, Repr

def StopLevel.str : StopLevel → String
  | .conservative => "conservative"
  | .standard => "standard"
  | .aggressive => "aggressive"

/-- The level a text names; `STOP_LOSS_LEVELS` has no others. -/
def StopLevel.parse (level : String) : Option StopLevel :=
  [StopLevel.conservative, .standard, .aggressive].find? fun l => l.str == level

/-- `compute_stop` reads a level it does not know as the standard one. -/
def StopLevel.resolve (level : String) : StopLevel := (StopLevel.parse level).getD .standard

def Trend.str : Trend → String
  | .bullish => "bullish"
  | .bearish => "bearish"
  | .unknown => "unknown"

/-- `REGIME_STOP_MULTIPLIER.get(regime, 1.0)` -/
def Regime.stopMultiplier : Regime → ℚ
  | .normal => 1
  | .moderateQuant => 1
  | .highQuant => 3 / 2

def Grade.stopMultiplier : Grade → ℚ
  | .a => 1
  | .b => 1
  | .c => 13 / 10
  | .cRef => 3 / 2

def MAX_STOP_BUFFER_MULT : ℚ := 2

/-! ## Value objects -/

/-- A candidate as `extract_candidates` emits it: it has at least three points. -/
structure Candidate where
  family : String
  name : String
  bullish : Bool
  formed : Bool
  points : List ℚ
  completionMin : ℚ
  completionMax : ℚ
  times : List ℤ := []
  indices : List ℤ := []
  points_length : 3 ≤ points.length
  deriving DecidableEq

namespace Candidate

def direction (c : Candidate) : Direction := if c.bullish then .long else .short

def xPrice (c : Candidate) : ℚ := c.points.get ⟨0, lt_of_lt_of_le (by decide) c.points_length⟩

/-- A is the second point of an XABCD pattern and the first of the families without X. -/
def aPrice (c : Candidate) : ℚ :=
  if c.family = "XABCD" then c.points.get ⟨1, lt_of_lt_of_le (by decide) c.points_length⟩
  else c.points.get ⟨0, lt_of_lt_of_le (by decide) c.points_length⟩

def przLow (c : Candidate) : ℚ := min c.completionMin c.completionMax

def przHigh (c : Candidate) : ℚ := max c.completionMin c.completionMax

end Candidate

structure SignalTarget where
  label : String
  price : ℚ
  fibBasis : String
  closePct : ℤ
  moveStopTo : String
  deriving DecidableEq, Repr

structure Signal where
  status : PrzState
  grade : Grade
  direction : Direction
  patternName : String
  family : String
  formed : Bool
  entryZone : ℚ × ℚ
  entryReference : ℚ
  stopLoss : ℚ
  stopBasis : String
  stopLevel : String
  invalidationPoint : ℚ
  targets : List SignalTarget
  netRrTp1 : ℚ
  netRrTp2 : ℚ
  confluenceScore : ℤ
  confluence : List (String × ℚ) := []
  htfTrend : Trend := .unknown
  reasoning : String := ""
  sharpe : Option ℚ := none
  regime : Regime := .normal
  positionMultiplier : Option ℚ := none
  stabilityScore : Option ℕ := none
  trapScore : Option ℤ := none
  tradable : Bool := true
  macroAdvice : Option String := none
  barsSinceC : Option ℤ := none
  stale : Bool := false
  breachedStop : Bool := false
  pastTp2 : Bool := false
  widthPct : Option ℚ := none
  deriving DecidableEq, Repr

/-! ## PRZ state machine -/

def przState (price przLow przHigh : ℚ) (swept : Bool) : PrzState :=
  if swept then .swept
  else if przLow ≤ price ∧ price ≤ przHigh then .inPrz
  else .approaching

/-- A wick beyond the PRZ with the close back inside it. -/
def isSwept (low high close przLow przHigh : ℚ) : Bool :=
  let piercedBelow : Bool := low < przLow && przLow ≤ close && close ≤ przHigh
  let piercedAbove : Bool := high > przHigh && przHigh ≥ close && close ≥ przLow
  piercedBelow || piercedAbove

/-! ## Stop loss -/

structure StopOptions where
  swingAnchor : Option ℚ := none
  entry : Option ℚ := none
  trapMultiplier : ℚ := 1
  regime : Regime := .normal
  grade : Option Grade := none
  stopBufferAtr : Option ℚ := none

/-- The chain of factors that deviate from 1, for `stop_basis`. -/
def chainSuffix (trapM regimeM gradeM : ℚ) (stopBufferAtr : Option ℚ) : String :=
  if stopBufferAtr.isSome then ""
  else
    let parts := (if trapM ≠ 1 then ["trap×" ++ fmtFixed 2 trapM] else []) ++
      (if regimeM ≠ 1 then ["regime×" ++ fmtFixed 2 regimeM] else []) ++
      (if gradeM ≠ 1 then ["grade×" ++ fmtFixed 2 gradeM] else [])
    if parts.isEmpty then "" else " · " ++ " · ".intercalate parts

/-- `base`: the override, or the level's buffer; the checks of the constants give every level one. -/
def stopBase (t : TuningConstants) (level : StopLevel) (o : StopOptions) : ℚ :=
  o.stopBufferAtr.getD ((t.atrStopBuffer.get? level.str).getD 0)

def trapM (o : StopOptions) : ℚ := max 1 o.trapMultiplier

def gradeM (o : StopOptions) : ℚ := (o.grade.map Grade.stopMultiplier).getD 1

/-- `buffer`: the clamped multiplier chain times the ATR. -/
def stopBuffer (t : TuningConstants) (level : StopLevel) (atr : ℚ) (o : StopOptions) : ℚ :=
  min (stopBase t level o * trapM o * o.regime.stopMultiplier * gradeM o) MAX_STOP_BUFFER_MULT * atr

/-- The structural anchor and the head of its `stop_basis`. -/
def structuralAnchor (t : TuningConstants) (c : Candidate) (level : StopLevel) : ℚ × String :=
  let extended := t.extendedPatterns.contains c.name.toLower
  let outer := if c.bullish then c.przLow else c.przHigh
  let structure' := if c.bullish then min c.xPrice c.przLow else max c.xPrice c.przHigh
  match level with
  | .conservative => (outer, "PRZ外 invalidation ")
  | .aggressive => (structure', "X点 invalidation ")
  | .standard => (if extended then outer else structure', "X/PRZ invalidation ")

/-- The swing takes over when it is on the right side of the entry and tighter than the structure. -/
def swingAdjusted (c : Candidate) (anchor : ℚ) (o : StopOptions) : ℚ × String :=
  match o.swingAnchor, o.entry with
  | some swing, some entry =>
      let takes : Bool := if c.bullish then swing < entry && swing > 0 && swing > anchor
        else swing > entry && swing > 0 && swing < anchor
      if takes then (swing, " + swing") else (anchor, "")
  | _, _ => (anchor, "")

def stopAnchor (t : TuningConstants) (c : Candidate) (level : StopLevel) (o : StopOptions) : ℚ :=
  (swingAdjusted c (structuralAnchor t c level).1 o).1

def rawStop (t : TuningConstants) (c : Candidate) (atr : ℚ) (level : StopLevel) (o : StopOptions) : ℚ :=
  if c.bullish then stopAnchor t c level o - stopBuffer t level atr o
  else stopAnchor t c level o + stopBuffer t level atr o

def stopBasis (t : TuningConstants) (c : Candidate) (level : StopLevel) (o : StopOptions) : String :=
  let (anchor, head) := structuralAnchor t c level
  let sign := if c.bullish then "- " else "+ "
  let label := fmtFixed 2 (stopBase t level o) ++ "*ATR"
  head ++ sign ++ label ++ chainSuffix (trapM o) o.regime.stopMultiplier (gradeM o) o.stopBufferAtr ++
    (swingAdjusted c anchor o).2

def computeStopBody (t : TuningConstants) (c : Candidate) (atr : ℚ) (level : String) (o : StopOptions) :
    ℚ × String × ℚ :=
  let level := StopLevel.resolve level
  (roundTo 8 (rawStop t c atr level o), stopBasis t c level o, roundTo 8 (stopAnchor t c level o))

def computeStop (t : TuningConstants) (c : Candidate) (atr : ℚ) (level : String) (o : StopOptions) :
    Except PyError (ℚ × String × ℚ) := do
  require (atr > 0) "ATR must be positive; compute_stop is undefined for zero volatility"
  require (c.przLow > 0 ∧ c.przHigh > 0) "PRZ bounds must be positive; degenerate candidates are filtered upstream"
  require (∀ p ∈ c.points, p > 0) "Pattern pivot prices must all be positive"
  let result := computeStopBody t c atr level o
  require (result.1 > 0) "Returned stop price must be positive"
  require (result.2.2 > 0) "Returned invalidation point must be positive"
  require (result.2.1.length > 0) "stop_basis must be a non-empty human-readable string"
  return result

/-! ## Take profits -/

/-- The ladder on the A-D leg, with the entry standing in for D. -/
def computeTargets (t : TuningConstants) (c : Candidate) (entry : ℚ) : List SignalTarget :=
  let span := |c.aPrice - entry|
  let price (fib : ℚ) : ℚ := roundTo 8 (if c.bullish then entry + fib * span else entry - fib * span)
  [⟨"TP1", price t.fibTp1, "AD 38.2% retrace", t.tpClosePcts.1, "breakeven"⟩,
    ⟨"TP2", price t.fibTp2, "AD 61.8% retrace", t.tpClosePcts.2.1, "tp1"⟩,
    ⟨"TP3", price t.fibTp3, "AD 127.2% extension", t.tpClosePcts.2.2, "trail 1*ATR"⟩]

/-! ## Net risk/reward -/

def roundTripCost (t : TuningConstants) (entry : ℚ) (feeRate slippageRate : Option ℚ) : ℚ :=
  2 * (feeRate.getD t.feeRate + slippageRate.getD t.slippageRate) * entry

def netRrBody (t : TuningConstants) (entry stop target : ℚ) (feeRate slippageRate : Option ℚ) : Option ℚ :=
  let risk := |entry - stop|
  if risk ≤ 0 ∨ entry ≤ 0 then none
  else
    let cost := roundTripCost t entry feeRate slippageRate
    let reward := |target - entry| - cost
    let netRisk := risk + cost
    if reward ≤ 0 ∨ netRisk ≤ 0 then none else some (roundTo 4 (reward / netRisk))

def netRr (t : TuningConstants) (entry stop target : ℚ) (feeRate slippageRate : Option ℚ) :
    Except PyError (Option ℚ) := do
  require (entry > 0) "Entry price must be positive for risk/reward math"
  require (stop > 0) "Stop price must be positive"
  require (target > 0) "Target price must be positive"
  require (∀ x ∈ feeRate, x ≥ 0) "fee_rate must be non-negative"
  require (∀ x ∈ slippageRate, x ≥ 0) "slippage_rate must be non-negative"
  let result := netRrBody t entry stop target feeRate slippageRate
  require (∀ rr ∈ result, rr > 0) "net_rr returns None for degenerate geometry, otherwise a positive ratio"
  return result

/-! ## Grading -/

def gradeBody (score : ℚ) (rrTp1 rrTp2 : Option ℚ) (htfAligned htfCounter : Bool) (aMin : ℚ)
    (widthPct : Option ℚ) : Option Grade :=
  match rrTp1, rrTp2 with
  | some rr1, some rr2 =>
      let reference : Option Grade := if score ≥ 45 then some .cRef else none
      if ∃ w ∈ widthPct, w ≥ 4 / 100 then reference
      else if htfCounter then reference
      else if rr1 < 1 ∨ rr2 < 3 / 2 then reference
      else if score ≥ aMin ∧ rr2 ≥ 2 ∧ htfAligned then some .a
      else if score ≥ 60 then some .b
      else reference
  | _, _ => none

/-- Its postcondition only names the grades `gradeBody` can give. -/
def grade (score : ℚ) (rrTp1 rrTp2 : Option ℚ) (htfAligned htfCounter : Bool) (aMin : ℚ)
    (widthPct : Option ℚ) : Except PyError (Option Grade) := do
  require (0 ≤ score ∧ score ≤ 100) "score must be a 0-100 confluence value"
  require (0 < aMin ∧ aMin ≤ 100) "a_min must be in (0, 100]"
  require (¬ (htfAligned ∧ htfCounter)) "Aligned and counter cannot both be True"
  let result := gradeBody score rrTp1 rrTp2 htfAligned htfCounter aMin widthPct
  require (∀ g ∈ result, g = .a ∨ g = .b ∨ g = .cRef) "grade() returns None or one of A / B / C(参考)"
  return result

/-! ## Reasoning -/

def reasoningFromSignal (s : Signal) : String :=
  let direction := if s.direction = .long then "做多" else "做空"
  let formed := if s.formed then "formed" else "forming"
  let lines :=
    ["方向：" ++ direction ++ "（" ++ s.patternName ++ " · " ++ s.family ++ " · " ++ formed ++ "）",
      "入场区：" ++ fmtFixed 2 s.entryZone.1 ++ " – " ++ fmtFixed 2 s.entryZone.2 ++ "（参考 " ++
        fmtFixed 2 s.entryReference ++ "）",
      "止损：" ++ fmtFixed 2 s.stopLoss ++ "（" ++ s.stopBasis ++ "，失效点 " ++
        fmtFixed 2 s.invalidationPoint ++ "）"]
  let tps := s.targets.map fun t =>
    t.label ++ " " ++ fmtFixed 2 t.price ++ "（" ++ t.fibBasis ++ "，平 " ++ toString t.closePct ++ "%）"
  let lines := if s.targets.isEmpty then lines else lines ++ ["止盈：" ++ " / ".intercalate tps]
  "\n".intercalate (lines ++
    ["净盈亏比：TP1 " ++ fmtFloat4 s.netRrTp1 ++ "R / TP2 " ++ fmtFloat4 s.netRrTp2 ++ "R",
      "高周期趋势：" ++ s.htfTrend.str])

/-!
# The signal of the translators

`app/domain/signal_schemas.py`: what a candidate hands to the exchange-specific translators.
-/

inductive Mode
  | pattern
  | indicator
  | regime
  /-- Any other text. -/
  | unknown (mode : String)
  deriving DecidableEq, Repr

structure HarmonicSignal where
  patternType : String
  entryPrice : Option ℚ := none
  exitPrice : Option ℚ := none
  stopLoss : Option ℚ := none
  zrpcPrice : Option ℚ := none
  confidence : ℚ := 0
  regime : Option String := none
  instrument : String := "BTC-USDT"
  deriving DecidableEq, Repr

end CryptoAggHarmonic.Domain

/-!
# What the contracts of the signal math ask for

For each function with contracts, when it returns and what it returns.
-/

namespace CryptoAggHarmonic.Domain

open Config Rounding

variable {t : TuningConstants} {c : Candidate} {atr : ℚ} {level : String} {o : StopOptions}

/-! ## compute_stop -/

/-- The contracts of `compute_stop` on the inputs: a price of at most half of `1e-8` rounds to zero. -/
structure StopContracts (t : TuningConstants) (c : Candidate) (atr : ℚ) (level : String) (o : StopOptions) :
    Prop where
  atr_pos : 0 < atr
  prz_pos : 0 < c.przLow ∧ 0 < c.przHigh
  points_pos : ∀ p ∈ c.points, 0 < p
  stop_pos : 1 / 2 / 10 ^ 8 < rawStop t c atr (StopLevel.resolve level) o
  anchor_pos : 1 / 2 / 10 ^ 8 < stopAnchor t c (StopLevel.resolve level) o

theorem stopBasis_length_pos {level : StopLevel} : 0 < (stopBasis t c level o).length := by
  have hhead : 0 < (structuralAnchor t c level).2.length := by
    cases level <;> simp only [structuralAnchor] <;> decide
  simp only [stopBasis, String.length_append]
  omega

theorem computeStop_eq_ok {r : ℚ × String × ℚ} : computeStop t c atr level o = .ok r ↔
    StopContracts t c atr level o ∧ computeStopBody t c atr level o = r := by
  simp only [computeStop, require_bind_eq_ok, pure_eq_ok, Except.ok.injEq, computeStopBody, gt_iff_lt,
    roundTo_pos, stopBasis_length_pos, true_and]
  constructor
  · rintro ⟨h1, h2, h3, h4, h5, hr⟩
    exact ⟨⟨h1, h2, h3, h4, h5⟩, hr⟩
  · rintro ⟨h, hr⟩
    exact ⟨h.atr_pos, h.prz_pos, h.points_pos, h.stop_pos, h.anchor_pos, hr⟩

theorem StopContracts.body_pos (h : StopContracts t c atr level o) : 0 < (computeStopBody t c atr level o).1 :=
  roundTo_pos.mpr h.stop_pos

/-! ## net_rr -/

/-- The contracts of `net_rr` without explicit rates; a ratio of at most half of `1e-4` rounds to zero. -/
structure RrContracts (t : TuningConstants) (entry stop target : ℚ) : Prop where
  entry_pos : 0 < entry
  stop_pos : 0 < stop
  target_pos : 0 < target
  ratio_pos : ∀ rr ∈ netRrBody t entry stop target none none, 0 < rr

theorem netRr_eq_ok {entry stop target : ℚ} {r : Option ℚ} : netRr t entry stop target none none = .ok r ↔
    RrContracts t entry stop target ∧ netRrBody t entry stop target none none = r := by
  simp only [netRr, require_bind_eq_ok, pure_eq_ok, Except.ok.injEq, gt_iff_lt]
  constructor
  · rintro ⟨h1, h2, h3, -, -, h4, hr⟩
    exact ⟨⟨h1, h2, h3, h4⟩, hr⟩
  · rintro ⟨h, hr⟩
    exact ⟨h.entry_pos, h.stop_pos, h.target_pos, by simp, by simp, h.ratio_pos, hr⟩

/-- What a round trip from `entry` to `target` earns against the risk to `stop`, both net of cost. -/
structure Affords (t : TuningConstants) (entry stop target ratio : ℚ) : Prop where
  risk_pos : 0 < |entry - stop|
  reward_pos : 0 < |target - entry| - roundTripCost t entry none none
  netRisk_pos : 0 < |entry - stop| + roundTripCost t entry none none
  ratio_le : ratio * (|entry - stop| + roundTripCost t entry none none) ≤
    |target - entry| - roundTripCost t entry none none

theorem netRrBody_eq_some {entry stop target rr : ℚ} (hentry : 0 < entry) :
    netRrBody t entry stop target none none = some rr ↔
      0 < |entry - stop| ∧ 0 < |target - entry| - roundTripCost t entry none none ∧
      0 < |entry - stop| + roundTripCost t entry none none ∧
      roundTo 4 ((|target - entry| - roundTripCost t entry none none) /
        (|entry - stop| + roundTripCost t entry none none)) = rr := by
  unfold netRrBody
  simp only
  split_ifs with h1 h2
  · have : ¬ 0 < |entry - stop| := by
      rcases h1 with h | h
      · exact not_lt.mpr h
      · exact absurd hentry (not_lt.mpr h)
    simp [this]
  · push Not at h1
    rcases h2 with h | h
    · simp [not_lt.mpr h]
    · simp [not_lt.mpr h]
  · push Not at h1 h2
    simp [h1.1, h2.1, h2.2]

/-- A ratio of at most `0.00005` rounds to zero. -/
theorem netRrBody_pos_iff {entry stop target : ℚ} (hentry : 0 < entry) :
    (∀ rr ∈ netRrBody t entry stop target none none, 0 < rr) ↔
      (0 < |entry - stop| → 0 < |target - entry| - roundTripCost t entry none none →
        0 < |entry - stop| + roundTripCost t entry none none →
        (|entry - stop| + roundTripCost t entry none none) / 20000 <
          |target - entry| - roundTripCost t entry none none) := by
  have hcut : ∀ reward netRisk : ℚ, 0 < netRisk →
      (0 < roundTo 4 (reward / netRisk) ↔ netRisk / 20000 < reward) := by
    intro reward netRisk hpos
    rw [roundTo_pos, lt_div_iff₀ hpos]
    norm_num [div_eq_inv_mul]
  constructor
  · intro h h1 h2 h3
    exact (hcut _ _ h3).mp (h _ ((netRrBody_eq_some hentry).mpr ⟨h1, h2, h3, rfl⟩))
  · intro h rr hrr
    obtain ⟨h1, h2, h3, rfl⟩ := (netRrBody_eq_some hentry).mp hrr
    exact (hcut _ _ h3).mpr (h h1 h2 h3)

/-- A ratio whose last of four digits is even is reached from half a unit below it on. -/
theorem le_netRrBody_iff {entry stop target : ℚ} (hentry : 0 < entry) {k : ℤ} (hk : Even k) (hpos : 0 < k) :
    (k : ℚ) / 10 ^ 4 ≤ (netRrBody t entry stop target none none).getD 0 ↔
      Affords t entry stop target ((k - 1 / 2) / 10 ^ 4) := by
  have hk0 : (0 : ℚ) < k / 10 ^ 4 := by positivity
  constructor
  · intro h
    cases hb : netRrBody t entry stop target none none with
    | none =>
        rw [hb] at h
        exact absurd hk0 (not_lt.mpr h)
    | some rr =>
        obtain ⟨h1, h2, h3, hr⟩ := (netRrBody_eq_some hentry).mp hb
        rw [hb, Option.getD_some, ← hr, le_roundTo_of_even hk, le_div_iff₀ h3] at h
        exact ⟨h1, h2, h3, h⟩
  · intro h
    have hb := (netRrBody_eq_some hentry).mpr ⟨h.risk_pos, h.reward_pos, h.netRisk_pos, rfl⟩
    rw [hb, Option.getD_some, le_roundTo_of_even hk, le_div_iff₀ h.netRisk_pos]
    exact h.ratio_le

/-! ## grade -/

section Grade

variable {score aMin : ℚ} {rr1 rr2 width : Option ℚ} {aligned counter : Bool} {g : Grade}

theorem gradeBody_mem (h : gradeBody score rr1 rr2 aligned counter aMin width = some g) :
    g = .a ∨ g = .b ∨ g = .cRef := by
  revert h
  unfold gradeBody
  cases rr1 <;> cases rr2 <;> simp only [reduceCtorEq, false_implies]
  split_ifs <;> simp_all

theorem grade_eq_ok {r : Option Grade} (hs : 0 ≤ score ∧ score ≤ 100) (hac : ¬ (aligned = true ∧ counter = true)) :
    grade score rr1 rr2 aligned counter aMin width = .ok r ↔
      (0 < aMin ∧ aMin ≤ 100) ∧ gradeBody score rr1 rr2 aligned counter aMin width = r := by
  simp only [grade, require_bind_eq_ok, pure_eq_ok, Except.ok.injEq]
  constructor
  · rintro ⟨-, h, -, -, hr⟩
    exact ⟨h, hr⟩
  · rintro ⟨h, hr⟩
    exact ⟨hs, h, hac, fun g hg => gradeBody_mem hg, hr⟩

end Grade

end CryptoAggHarmonic.Domain
