import Mathlib.Algebra.Order.Field.Rat
import Mathlib.Algebra.BigOperators.Group.List.Basic
import CryptoAggHarmonic.Python.Basic

/-!
# Tuning constants

`app/config/tuning.py`: the bundle of tunables with the checks of `__post_init__`, and the process state behind
`get_tuning`. Numbers are exact rationals; the texts of `checks` leave out the values the source renders.
-/

namespace CryptoAggHarmonic

/-- A dict with string keys, in insertion order. -/
structure Dict (α : Type) where
  entries : List (String × α)
  nodup : (entries.map Prod.fst).Nodup
  deriving DecidableEq

namespace Dict

variable {α : Type}

def keys (d : Dict α) : List String := d.entries.map Prod.fst

def values (d : Dict α) : List α := d.entries.map Prod.snd

def get? (d : Dict α) (key : String) : Option α := d.entries.lookup key

/-- Equality of dicts, which ignores the order of insertion. -/
def Same (a b : Dict α) : Prop := ∀ key, a.get? key = b.get? key

end Dict

namespace Config

/-- The fields of `TuningConstants`, before `__post_init__` has looked at them. -/
structure TuningFields where
  -- C1 Geometry
  fibTp1 : ℚ
  fibTp2 : ℚ
  fibTp3 : ℚ
  extendedPatterns : List String
  htfRule : Dict String
  atrStopBuffer : Dict ℚ
  atrPrzSweep : ℚ
  tpClosePcts : ℤ × ℤ × ℤ
  feeRate : ℚ
  slippageRate : ℚ
  -- C2 Discipline
  maxDAgeBars : ℤ
  maxPrzDistanceAtr : ℚ
  maxFormingPrzWidthAtr : ℚ
  authenticityHalve : ℤ
  authenticityVeto : ℤ
  adverseSharpeThreshold : ℚ
  regimeModerate : ℤ
  regimeHigh : ℤ
  targetAtrPct : ℚ
  defaultTtlBars : ℤ
  -- C3 Confluence
  fundingConfluenceDefault : ℤ
  confluenceWeights : Dict ℚ
  aGradeMin : ℤ
  aGradeMinHighQuant : ℤ
  highQuantPositionMult : ℚ
  patternBaseScore : Dict ℤ
  stabilityWindow : ℤ
  minCandles : ℤ
  -- C5 Windows
  atrWindow : ℤ
  atrLongWindow : ℤ
  rsiWindow : ℤ
  volumeMaWindow : ℤ
  swingLookback : ℤ
  quantTrapLookback : ℤ
  volumeAuthenticityWindow : ℤ
  quantRegimeWindow : ℤ
  perBarSharpeWindow : ℤ
  -- C4 Macro
  slopeTrendUp : ℚ
  slopeTrendDown : ℚ
  multTrendingAligned : ℚ
  multRangingAligned : ℚ
  multTrendingInverse : ℚ
  multRangingInverse : ℚ
  multExtremeInverse : ℚ
  multDataShort : ℚ
  extremeDeviationPct : ℚ
  minDailyBars : ℤ
  deriving DecidableEq

def requiredExtendedFamilies : List String :=
  ["butterfly", "deep butterfly", "crab", "deep crab", "shark", "deep shark"]

def requiredPatternFamilies : List String := ["gartley", "bat", "butterfly", "crab", "deep crab", "shark"]

def requiredConfluenceKeys : List String := ["price_action", "htf_trend", "rsi", "structure", "macd", "funding"]

def requiredStopLossLevels : List String := ["conservative", "standard", "aggressive"]

def requiredHtfKeys : List String := ["15m", "1h", "4h", "1d", "1w"]

namespace TuningFields

/-- The fields that must be positive, in the order they are checked. -/
def intFields (f : TuningFields) : List ℤ :=
  [f.maxDAgeBars, f.defaultTtlBars, f.atrWindow, f.atrLongWindow, f.rsiWindow, f.volumeMaWindow,
    f.swingLookback, f.stabilityWindow, f.minCandles, f.minDailyBars, f.quantTrapLookback,
    f.volumeAuthenticityWindow, f.quantRegimeWindow, f.perBarSharpeWindow, f.authenticityHalve,
    f.authenticityVeto, f.regimeModerate, f.regimeHigh, f.aGradeMin, f.aGradeMinHighQuant]

/-- The checks of `__post_init__`, in order, each with the text of its `ValueError`. -/
def checks (f : TuningFields) : List (Bool × String) :=
  let subset (xs ys : List String) : Bool := xs.all ys.contains
  let inverseMax := max f.multTrendingInverse f.multRangingInverse
  let inverseMin := min f.multTrendingInverse f.multRangingInverse
  let hard : List (Bool × String) :=
    [(f.fibTp1 < f.fibTp2 && f.fibTp2 < f.fibTp3, "fib_tp ordering violated"),
      (f.tpClosePcts.1 + f.tpClosePcts.2.1 + f.tpClosePcts.2.2 == 100, "tp_close_pcts must sum to 100"),
      (f.authenticityVeto < f.authenticityHalve, "authenticity_veto must be < authenticity_halve"),
      (f.regimeModerate < f.regimeHigh, "regime_moderate must be < regime_high"),
      (|f.confluenceWeights.values.sum - 100| ≤ 1 / 1000000, "confluence_weights must sum to 100"),
      (subset requiredConfluenceKeys f.confluenceWeights.keys, "confluence_weights missing keys"),
      (subset requiredExtendedFamilies f.extendedPatterns, "extended_patterns missing required families"),
      (subset requiredStopLossLevels f.atrStopBuffer.keys, "atr_stop_buffer missing levels"),
      ((f.atrStopBuffer.get? "standard").all fun std => 1 / 5 ≤ std && std ≤ 1 / 2,
        "atr_stop_buffer['standard'] out of bounds [0.2, 0.5]"),
      (subset requiredHtfKeys f.htfRule.keys, "htf_rule missing intervals"),
      (subset requiredPatternFamilies f.patternBaseScore.keys, "pattern_base_score missing families"),
      (inverseMax ≤ f.multExtremeInverse, "mult_extreme_inverse must be >= max(inverse bands)"),
      (inverseMin ≤ f.multTrendingAligned, "mult_trending_aligned must be >= min(inverse bands)"),
      (inverseMin ≤ f.multRangingAligned, "mult_ranging_aligned must be >= min(inverse bands)"),
      (1 / 2 ≤ f.multDataShort && f.multDataShort ≤ 1, "mult_data_short must lie in [0.5, 1.0]"),
      (f.multExtremeInverse ≤ 3 / 2, "mult_extreme_inverse violates risk-parity product ceiling")]
  hard ++ f.intFields.map (fun v => (decide (0 < v), "window/grade field must be > 0")) ++
  [(decide (f.atrWindow ≤ f.atrLongWindow), "atr_long_window must be >= atr_window")]

def defaults : TuningFields where
  fibTp1 := 382 / 1000
  fibTp2 := 618 / 1000
  fibTp3 := 1272 / 1000
  extendedPatterns := requiredExtendedFamilies
  htfRule := ⟨[("15m", "1h"), ("1h", "4h"), ("4h", "1D"), ("1d", "1W"), ("1w", "1ME")], by decide⟩
  atrStopBuffer := ⟨[("conservative", 1), ("standard", 3 / 10), ("aggressive", 1 / 4)], by decide⟩
  atrPrzSweep := 3 / 10
  tpClosePcts := (50, 30, 20)
  feeRate := 1 / 1000
  slippageRate := 5 / 10000
  maxDAgeBars := 20
  maxPrzDistanceAtr := 3
  maxFormingPrzWidthAtr := 1
  authenticityHalve := 40
  authenticityVeto := 25
  adverseSharpeThreshold := 1
  regimeModerate := 35
  regimeHigh := 60
  targetAtrPct := 5 / 2
  defaultTtlBars := 40
  fundingConfluenceDefault := 5
  confluenceWeights :=
    ⟨[("price_action", 25), ("htf_trend", 25), ("rsi", 15), ("structure", 15), ("macd", 10), ("funding", 10)],
      by decide⟩
  aGradeMin := 70
  aGradeMinHighQuant := 85
  highQuantPositionMult := 6 / 10
  patternBaseScore :=
    ⟨[("gartley", 5), ("bat", 2), ("butterfly", 0), ("crab", -3), ("deep crab", -5), ("shark", -8)],
      by decide⟩
  stabilityWindow := 5
  minCandles := 60
  atrWindow := 14
  atrLongWindow := 100
  rsiWindow := 14
  volumeMaWindow := 20
  swingLookback := 60
  quantTrapLookback := 60
  volumeAuthenticityWindow := 60
  quantRegimeWindow := 100
  perBarSharpeWindow := 20
  slopeTrendUp := 1 / 2
  slopeTrendDown := -1 / 2
  multTrendingAligned := 1
  multRangingAligned := 1
  multTrendingInverse := 6 / 10
  multRangingInverse := 1 / 2
  multExtremeInverse := 12 / 10
  multDataShort := 8 / 10
  extremeDeviationPct := 20
  minDailyBars := 210

end TuningFields

/-- A constructed bundle: `__post_init__` has passed. -/
structure TuningConstants extends TuningFields where
  checked : ∀ c ∈ toTuningFields.checks, c.1 = true
  deriving DecidableEq

/-- The constructor, which raises at the first check that fails. -/
def TuningFields.construct (f : TuningFields) : Except PyError TuningConstants :=
  if h : ∀ c ∈ f.checks, c.1 = true then .ok ⟨f, h⟩
  else .error (.valueError (((f.checks.find? fun c => !c.1).map Prod.snd).getD ""))

def TUNING : TuningConstants := ⟨TuningFields.defaults, by decide +kernel⟩

/-- `from_dict(d)`: the entries of `d` written over the defaults. An entry is given by what it writes. -/
def fromDict (d : List (TuningFields → TuningFields)) : Except PyError TuningConstants :=
  TuningFields.construct (d.foldl (fun f write => write f) TuningFields.defaults)

/-! ## The process state behind `get_tuning` -/

/-- `_applied_tuning` and `_tuning_context`, the innermost scope first. -/
structure TuningState where
  applied : Option TuningConstants := none
  context : List TuningConstants := []

def TuningState.getTuning (st : TuningState) : TuningConstants :=
  match st.context with
  | t :: _ => t
  | [] => st.applied.getD TUNING

def TuningState.applyTuning (st : TuningState) (t : TuningConstants) : TuningState :=
  { st with applied := some t }

def TuningState.enter (st : TuningState) (t : TuningConstants) : TuningState :=
  { st with context := t :: st.context }

def TuningState.exit (st : TuningState) : TuningState := { st with context := st.context.tail }

@[simp] theorem getTuning_enter (st : TuningState) (t : TuningConstants) : (st.enter t).getTuning = t := rfl

@[simp] theorem exit_enter (st : TuningState) (t : TuningConstants) : (st.enter t).exit = st := rfl

/-! ## What the checks give -/

theorem TuningConstants.int_pos (t : TuningConstants) (v : ℤ) (hv : v ∈ t.intFields) : 0 < v := by
  have hmem : (decide (0 < v), "window/grade field must be > 0") ∈ t.checks :=
    List.mem_append_left _ (List.mem_append_right _ (List.mem_map.mpr ⟨v, hv, rfl⟩))
  simpa using t.checked _ hmem

end Config

end CryptoAggHarmonic
