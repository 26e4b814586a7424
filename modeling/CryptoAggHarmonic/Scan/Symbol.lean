import CryptoAggHarmonic.Scan.Grader
import CryptoAggHarmonic.Engine.Confluence

/-!
# The scan of a symbol

`scan_symbol` of `app/tasks/watchlist_scan.py` with its helpers. `extract_candidates` refuses a frame where it wants the
dict of a detection, so the candidate is always the fallback's.
-/

namespace CryptoAggHarmonic.Scan

open Rounding
open Domain (tailN minOf maxOf)

/-! ## The candidate -/

structure Candidate where
  pattern : String
  direction : Direction
  entryPrice : ℚ
  patternScore : ℚ

def fallbackCandidate (bars : List Bar) : Option Candidate :=
  if bars.length < 60 then none
  else
    let price := (bars.map Bar.close).getLastD 0
    let rollingHigh := maxOf (tailN 20 (bars.map Bar.high))
    let rollingLow := minOf (tailN 20 (bars.map Bar.low))
    if ¬ (price ≥ rollingHigh * (97 / 100) ∨ price ≤ rollingLow * (103 / 100)) then none
    else some
      { pattern := "Gartley"
        direction := if price < rollingLow * (101 / 100) then .bullish else .bearish
        entryPrice := price
        patternScore := 6 / 10 }

/-! ## The levels -/

/-- A candidate has enough bars for the average. -/
def getAtr (bars : List Bar) : ℚ := rollingMean 14 (trueRanges bars)

/-- Two and a half ATR, or as much of 3 % of the price. -/
def stopDistance (entry : ℚ) (bars : List Bar) : ℚ :=
  let atr := getAtr bars
  let atr := if atr = 0 then entry * (3 / 100) else atr
  5 / 2 * atr

def computeAtrStop (direction : Direction) (entry : ℚ) (bars : List Bar) : ℚ :=
  roundTo 4 (match direction with
    | .bullish => entry - stopDistance entry bars
    | .bearish => entry + stopDistance entry bars)

def computeTarget (entry stop rr : ℚ) : ℚ := roundTo 4 (entry + rr * |entry - stop|)

def computeRr (entry stop target : ℚ) : ℚ :=
  let risk := |entry - stop|
  if risk = 0 then 0 else roundTo 2 (|target - entry| / risk)

/-! ## `scan_symbol` -/

inductive SkipReason
  | eventBlocked (blockReason : Option String)
  | noBarData
  | noCandidate
  | directionBlockedByRegime (direction : Direction) (regime : MarketRegime)
  | graded (reasons : List String)
  deriving DecidableEq

def SkipReason.text : SkipReason → String
  | .eventBlocked reason => "event_blocked: " ++ reason.getD "None"
  | .noBarData => "no_bar_data"
  | .noCandidate => "no_candidate"
  | .directionBlockedByRegime direction regime =>
      "direction_blocked_by_regime(" ++ direction.text ++ "/" ++ regime.text ++ ")"
  | .graded reasons => ", ".intercalate reasons

/-- A symbol that is not graded has no direction. -/
structure ScanResult where
  symbol : String
  pattern : String := ""
  direction : Option Direction := none
  score : ℤ := 0
  grade : Grade := .skip
  entryPrice : ℚ := 0
  stopPrice : ℚ := 0
  target1 : ℚ := 0
  target2 : ℚ := 0
  atr : ℚ := 0
  rrRatio : ℚ := 0
  trendOk : Bool := false
  rsiDiv : Bool := false
  volumeConfirm : Bool := false
  volatilityOk : Bool := false
  eventOk : Bool := false
  regime : MarketRegime := .neutral
  skipped : Bool := true
  skipReason : Option SkipReason
  skipped_iff : skipped = true ↔ grade = .skip := by simp
  deriving DecidableEq

def makeSkip (symbol : String) (reason : SkipReason) : ScanResult := { symbol := symbol, skipReason := some reason }

/-- The confirmation, the levels and the grade of a candidate. -/
def gradeCandidate (pd : Pandas) (symbol : String) (regimeResult : MarketRegimeResult) (bars : List Bar)
    (candidate : Candidate) : Except KeyError ScanResult := do
  let direction := candidate.direction
  let rsiDiv ← computeRsiDivergence pd bars
  let volConfirm := isVolumeConfirming bars
  let eventOk := !regimeResult.eventBlocked
  let entryPrice := candidate.entryPrice
  let stopPrice := computeAtrStop direction entryPrice bars
  let target1 := computeTarget entryPrice stopPrice (15 / 10)
  let rrRatio := computeRr entryPrice stopPrice target1
  let patternScore := if candidate.patternScore ≤ 0 then 5 / 10 else candidate.patternScore
  let gradeResult := gradeSignal patternScore rsiDiv volConfirm regimeResult direction rrRatio regimeResult.atrRatio
    eventOk
  return { symbol := symbol
           pattern := candidate.pattern
           direction := some direction
           score := gradeResult.total
           grade := gradeResult.grade
           entryPrice := entryPrice
           stopPrice := stopPrice
           target1 := target1
           target2 := computeTarget entryPrice stopPrice (25 / 10)
           atr := getAtr bars
           rrRatio := rrRatio
           trendOk := isDirectionAllowed regimeResult.regime direction
           rsiDiv := rsiDiv
           volumeConfirm := volConfirm
           volatilityOk := isVolatilityHealthy regimeResult.atrRatio
           eventOk := eventOk
           regime := regimeResult.regime
           skipped := gradeResult.grade = .skip
           skipReason := if gradeResult.reasons = [] then none else some (.graded gradeResult.reasons) }

/-- `scan_symbol` with what `get_market_regime` has returned. -/
def scanWith (pd : Pandas) (symbol : String) (regimeResult : MarketRegimeResult) : Except KeyError ScanResult :=
  if regimeResult.eventBlocked then .ok (makeSkip symbol (.eventBlocked regimeResult.blockReason))
  else match regimeResult.bars4h with
  | none => .ok (makeSkip symbol .noBarData)
  | some [] => .ok (makeSkip symbol .noBarData)
  | some bars =>
      match fallbackCandidate bars with
      | none => .ok (makeSkip symbol .noCandidate)
      | some candidate =>
          if isDirectionAllowed regimeResult.regime candidate.direction then
            gradeCandidate pd symbol regimeResult bars candidate
          else .ok (makeSkip symbol (.directionBlockedByRegime candidate.direction regimeResult.regime))

def scanSymbol (pd : Pandas) (calendar : Calendar) (now : DateTime) (klines : String → List Bar) (symbol : String) :
    Except KeyError ScanResult := do
  let regimeResult ← getMarketRegime pd calendar now (fetch4hBars klines symbol)
  scanWith pd symbol regimeResult

end CryptoAggHarmonic.Scan

/-!
# Candidates from the signal engine

`_detect_harmonic_candidate` of `app/tasks/watchlist_scan.py`: the calls of the engine as they are made there, and the
fallback for what they raise. Contracts can be switched off with the assertions of Python.
-/

namespace CryptoAggHarmonic.Scan

/-- What the scan has at hand where `extract_candidates` wants the dict of a detection. -/
inductive DetectionArgument
  | detection (d : Engine.Detection)
  | frame (bars : List Bar)

inductive EngineError
  | violation (message : String)
  | typeError (message : String)
  deriving DecidableEq

/-- `extract_candidates`, with its contract. A frame has no column `raw_assessment`, so `get` finds nothing. -/
def extractCandidates (contracts : Bool) (closeTimes : Option (List ℤ)) :
    DetectionArgument → Except EngineError (List Domain.Candidate)
  | .detection d => .ok (Engine.extractCandidates d closeTimes)
  | .frame _ => if contracts then .error (.violation "detection_result must be a dict") else .ok []

/-- The call `build_signal(best, bars)`, which leaves out the third argument. -/
def buildSignalOf (_best : Domain.Candidate) (_bars : List Bar) : Except EngineError Unit :=
  .error (.typeError "build_signal() missing 1 required positional argument: 'candidates'")

/-- What is reported of the best candidate of the engine. The direction of a candidate is a text. -/
def reportDirection (_best : Domain.Candidate) : Except EngineError Direction :=
  .error (.typeError "'>' not supported between instances of 'str' and 'int'")

structure Report extends Candidate where
  rawCandidate : Option Domain.Candidate

/-- The body of the `try`. The symbol stands in the place of the close times. -/
def engineCandidate (contracts : Bool) (bars : List Bar) : Except EngineError (Option Report) := do
  let candidates ← extractCandidates contracts none (.frame bars)
  -- No candidate has a score, and the first of equals is the maximum.
  match candidates with
  | [] => return none
  | best :: _ =>
      buildSignalOf best bars
      let direction ← reportDirection best
      return some
        { pattern := "Unknown"
          direction := direction
          entryPrice := (bars.map Bar.close).getLastD 0
          patternScore := 5 / 10
          rawCandidate := some best }

def detectHarmonicCandidate (contracts : Bool) (bars : List Bar) : Option Report :=
  match engineCandidate contracts bars with
  | .ok report => report
  | .error _ => (fallbackCandidate bars).map fun candidate => { candidate with rawCandidate := none }

end CryptoAggHarmonic.Scan
