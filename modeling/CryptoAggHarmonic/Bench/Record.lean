import CryptoAggHarmonic.Domain.Signals
import CryptoAggHarmonic.Python.Float
import Mathlib.Data.String.Basic
import CryptoAggHarmonic.Lib.Groups
import CryptoAggHarmonic.Lib.HalfEven

/-!
# The row of the bench dataset

`bench/dataset/signal_record.py`, and the row of the report that `bench/report/csv_writer.py` makes of it.
-/

namespace CryptoAggHarmonic.Bench

open Domain

inductive Outcome
  | tp3
  | tp2
  | tp1
  | breakeven
  | stoploss
  | expired
  | incomplete
  deriving DecidableEq, Repr

def Outcome.text : Outcome → String
  | .tp3 => "tp3"
  | .tp2 => "tp2"
  | .tp1 => "tp1"
  | .breakeven => "breakeven"
  | .stoploss => "stoploss"
  | .expired => "expired"
  | .incomplete => "incomplete"

def directionText : Direction → String
  | .long => "long"
  | .short => "short"

/-- The prices may be missing where a caller checks for it. -/
structure SignalRecord where
  signalId : String
  runId : String := ""
  paramsSha : String := ""
  timestamp : String := ""
  split : Option String := none
  patternType : String := ""
  patternFamily : String
  direction : Direction
  entryPrice : Option ℚ
  stopPrice : Option ℚ
  tp1 : Option ℚ
  atrAtEntry : ℚ
  outcome : Option Outcome := none
  netRr : Option ℚ := none
  barsHeld : Option ℕ := none
  mae : Option ℚ := none
  mfe : Option ℚ := none
  maeAtrRatio : Option ℚ := none
  mfeAtrRatio : Option ℚ := none
  callbackDepth : Option ℚ := none
  callbackBars : Option ℕ := none
  callbackVolumeRatio : Option ℚ := none
  hitStopBeforeTp : Option Bool := none
  stopZoneTouches : Option ℕ := none
  priceEfficiency : Option ℚ := none
  weakValidity : Bool := false
  stage1Score : Option ℚ := none
  stage3Score : Option ℚ := none
  stage4aScore : Option ℚ := none
  stage4bScore : Option ℚ := none
  signalScore : Option ℚ := none
  configScore : Option ℚ := none
  benchTotal : Option ℚ := none
  /-- An attribute that is no field of the dataclass: it is there once it has been set. -/
  rMultiple : Option (Option ℚ) := none
  deriving DecidableEq, Repr

/-! ## The row of the report -/

def CSV_COLUMNS : List String :=
  ["signal_id", "run_id", "params_sha", "timestamp", "split", "horizon_bars", "pattern", "direction", "entry_price",
    "stop_price", "tp1", "stage1_score", "stage3_score", "stage4a_score", "stage4b_score", "signal_score",
    "config_score", "bench_total", "outcome", "r_multiple", "bars_held", "weak_validity", "mae", "mfe",
    "mae_atr_ratio", "mfe_atr_ratio", "callback_depth", "callback_bars", "callback_volume_ratio",
    "hit_stop_before_tp", "stop_zone_touches", "price_efficiency", "extra_a", "extra_b", "extra_c", "extra_d",
    "extra_e", "extra_f", "extra_g", "extra_h", "extra_i", "extra_j", "extra_k", "extra_l", "extra_m"]

/-- `_COL_TO_ATTR.get(col, col)` -/
def attrOf (col : String) : Option String :=
  if col = "pattern" then some "pattern_type"
  else if col = "r_multiple" then some "net_rr"
  else if col = "horizon_bars" then none
  else some col

def number (x : Option ℚ) : PyValue := x.elim .none fun x => .float (.finite x)

def count (n : Option ℕ) : PyValue := n.elim .none fun n => .int n

/-- `getattr(rec, attr)` for the columns that the record has. -/
def SignalRecord.attr (rec : SignalRecord) : String → Option PyValue
  | "signal_id" => some (.str rec.signalId)
  | "run_id" => some (.str rec.runId)
  | "params_sha" => some (.str rec.paramsSha)
  | "timestamp" => some (.str rec.timestamp)
  | "split" => some (rec.split.elim .none .str)
  | "pattern_type" => some (.str rec.patternType)
  | "direction" => some (.str (directionText rec.direction))
  | "entry_price" => some (number rec.entryPrice)
  | "stop_price" => some (number rec.stopPrice)
  | "tp1" => some (number rec.tp1)
  | "stage1_score" => some (number rec.stage1Score)
  | "stage3_score" => some (number rec.stage3Score)
  | "stage4a_score" => some (number rec.stage4aScore)
  | "stage4b_score" => some (number rec.stage4bScore)
  | "signal_score" => some (number rec.signalScore)
  | "config_score" => some (number rec.configScore)
  | "bench_total" => some (number rec.benchTotal)
  | "outcome" => some (rec.outcome.elim .none fun o => .str o.text)
  | "net_rr" => some (number rec.netRr)
  | "bars_held" => some (count rec.barsHeld)
  | "weak_validity" => some (.bool rec.weakValidity)
  | "mae" => some (number rec.mae)
  | "mfe" => some (number rec.mfe)
  | "mae_atr_ratio" => some (number rec.maeAtrRatio)
  | "mfe_atr_ratio" => some (number rec.mfeAtrRatio)
  | "callback_depth" => some (number rec.callbackDepth)
  | "callback_bars" => some (count rec.callbackBars)
  | "callback_volume_ratio" => some (number rec.callbackVolumeRatio)
  | "hit_stop_before_tp" => some (rec.hitStopBeforeTp.elim .none .bool)
  | "stop_zone_touches" => some (count rec.stopZoneTouches)
  | "price_efficiency" => some (number rec.priceEfficiency)
  | _ => none

/-- A cell of `record_to_row(rec)`. -/
def cellOf (rec : SignalRecord) (col : String) : PyValue :=
  match attrOf col with
  | none => .none
  | some attr => (rec.attr attr).getD .none

def recordToRow (rec : SignalRecord) : List (String × PyValue) := CSV_COLUMNS.map fun col => (col, cellOf rec col)

end CryptoAggHarmonic.Bench

/-!
# From the scores of the signals to the score of a configuration

`bench/scoring/aggregator.py`: the score of each signal, of each pattern family, and of all together.
-/

namespace CryptoAggHarmonic.Bench

open Rounding

def MAX_STAGE1 : ℚ := 12

def MAX_STAGE3 : ℚ := 50

def MAX_STAGE4A : ℚ := 20

def MAX_STAGE4B : ℚ := 10

def W_STAGE1 : ℚ := 20

def W_STAGE3 : ℚ := 50

def W_STAGE4A : ℚ := 20

def W_STAGE4B : ℚ := 10

def W_SIGNAL : ℚ := 0.6

def W_CONFIG : ℚ := 0.4

def WEAK_VALIDITY_THRESHOLD : ℚ := 4

def WEAK_VALIDITY_MULTIPLIER : ℚ := 0.5

def W_PATTERN_AVG_SCORE : ℚ := 0.40

def W_PATTERN_WIN_RATE : ℚ := 0.25

def W_PATTERN_AVG_RR : ℚ := 0.20

def W_PATTERN_SAMPLE_BONUS : ℚ := 0.15

def RR_REFERENCE : ℚ := 5

def SAMPLE_REFERENCE : ℚ := 100

def MIN_SAMPLES_PER_PATTERN : ℕ := 10

def LOW_SAMPLE_PENALTY : ℚ := 0.9

/-! ## Level 1 -/

/-- The first score is there and under the threshold. -/
def SignalRecord.weak (rec : SignalRecord) : Bool := rec.stage1Score.any (· < WEAK_VALIDITY_THRESHOLD)

def SignalRecord.score (rec : SignalRecord) : ℚ :=
  let s1 := rec.stage1Score.getD 0 / MAX_STAGE1 * W_STAGE1
  let s3 := rec.stage3Score.getD 0 / MAX_STAGE3 * W_STAGE3
  let s4a := rec.stage4aScore.getD 0 / MAX_STAGE4A * W_STAGE4A
  let s4b := rec.stage4bScore.getD 0 / MAX_STAGE4B * W_STAGE4B
  let raw := s1 + s3 + s4a + s4b
  roundTo 4 (if rec.weak then raw * WEAK_VALIDITY_MULTIPLIER else raw)

/-- `signal_score(rec)`, the record after it. -/
def signalScore (rec : SignalRecord) : SignalRecord :=
  { rec with weakValidity := rec.weak, signalScore := some rec.score }

/-! ## Level 2 -/

structure PatternScore where
  patternFamily : String
  signalCount : ℕ
  winRate : ℚ
  avgSignalScore : ℚ
  avgRrWinning : ℚ
  patternScore : ℚ
  deriving DecidableEq, Repr

def SignalRecord.wins (rec : SignalRecord) : Bool :=
  rec.outcome = some .tp1 ∨ rec.outcome = some .tp2 ∨ rec.outcome = some .tp3

def SignalRecord.loses (rec : SignalRecord) : Bool := rec.outcome = some .stoploss

/-- `sum(xs) / len(xs) if xs else 0.0` -/
def meanOrZero (xs : List ℚ) : ℚ := if xs.isEmpty then 0 else xs.sum / xs.length

def winningRrs (recs : List SignalRecord) : List ℚ := (recs.filter SignalRecord.wins).filterMap SignalRecord.netRr

def patternStats (patternFamily : String) (recs : List SignalRecord) : PatternScore :=
  let n := recs.length
  let wins := (recs.filter SignalRecord.wins).length
  let losses := (recs.filter SignalRecord.loses).length
  let decided := wins + losses
  let winRate : ℚ := if decided > 0 then wins / decided else 0
  let avgScore := meanOrZero (recs.filterMap SignalRecord.signalScore)
  let avgRrWin := meanOrZero (winningRrs recs)
  let patternScore := avgScore * W_PATTERN_AVG_SCORE + winRate * 100 * W_PATTERN_WIN_RATE +
    min (avgRrWin / RR_REFERENCE) 1 * 100 * W_PATTERN_AVG_RR +
    min (n / SAMPLE_REFERENCE) 1 * 100 * W_PATTERN_SAMPLE_BONUS
  { patternFamily := patternFamily
    signalCount := n
    winRate := roundTo 4 winRate
    avgSignalScore := roundTo 4 avgScore
    avgRrWinning := roundTo 4 avgRrWin
    patternScore := roundTo 4 patternScore }

/-- `sorted(_group_by_pattern(recs).items())`, each with its scores. -/
def patternScores (recs : List SignalRecord) : List PatternScore :=
  (Groups.sortedGroups SignalRecord.patternFamily recs).map fun g => patternStats g.1 g.2

def configScoreWithPatterns (recs : List SignalRecord) : Option ℚ × Bool × List PatternScore :=
  if recs.isEmpty then (none, false, [])
  else
    let scores := patternScores recs
    let totalN := (scores.map PatternScore.signalCount).sum
    let weighted := (scores.map fun p => p.patternScore * (p.signalCount : ℚ)).sum / (totalN : ℚ)
    let lowConf := scores.any fun p => p.signalCount < MIN_SAMPLES_PER_PATTERN
    (some (roundTo 4 (if lowConf then weighted * LOW_SAMPLE_PENALTY else weighted)), lowConf, scores)

/-! ## Level 3 -/

def benchTotal (signal : ℚ) (config : Option ℚ) : ℚ :=
  match config with
  | none => roundTo 4 signal
  | some config => roundTo 4 (W_SIGNAL * signal + W_CONFIG * config)

structure AggregatorResult where
  signalScore : ℚ := 0
  configScore : Option ℚ := none
  benchTotal : ℚ := 0
  weakValidity : Bool := false
  lowConfidence : Bool := false
  nSignals : ℕ := 0
  nPatterns : ℕ := 0
  patternScores : List PatternScore := []
  deriving DecidableEq, Repr

/-- The result, and the records after it. The score of the signals is read from the first record. -/
def aggregate (records : List SignalRecord) : AggregatorResult × List SignalRecord :=
  if records.isEmpty then ({}, [])
  else
    let records := records.map signalScore
    let weakCount := (records.filter SignalRecord.weakValidity).length
    let (cfg, lowConf, scores) := configScoreWithPatterns records
    let first := (records.head?.bind SignalRecord.signalScore).getD 0
    let total := benchTotal first cfg
    ({ signalScore := first
       configScore := cfg
       benchTotal := total
       weakValidity := weakCount > 0
       lowConfidence := lowConf
       nSignals := records.length
       nPatterns := scores.length
       patternScores := scores },
      records.map fun rec => { rec with configScore := cfg, benchTotal := some total })

/-- Every order of the records gives the same result, and the same two scores to every record. -/
def OrderIndependent (records : List SignalRecord) : Prop :=
  ∀ reordered, records.Perm reordered → (aggregate reordered).1 = (aggregate records).1 ∧
    ∀ rec ∈ (aggregate records).2, ∀ rec' ∈ (aggregate reordered).2,
      rec'.configScore = rec.configScore ∧ rec'.benchTotal = rec.benchTotal

end CryptoAggHarmonic.Bench
