import Mathlib.Data.List.Sort
import Mathlib.Order.WithBot
import CryptoAggHarmonic.Lib.KeepBest
import CryptoAggHarmonic.Engine.SignalEngine
import CryptoAggHarmonic.Engine.Confluence
import CryptoAggHarmonic.Backtest.Engine

/-!
# The walk-forward library

`scripts/backtest_harmonic_lib.py`, and `grid_search_weights` of `app/services/signal_engine.py`. The state of the
process is explicit: the tuning stack and the names of the validation module that the library patches. The pattern
search, a library outside the source, is the parameter `detect`.
-/

namespace CryptoAggHarmonic.WalkForward

open Config Domain Engine Backtest

/-! ## Process state -/

/-- The names of `app/domain/validation.py` that `_maybe_relax_filters` rebinds. -/
structure ValidationModule where
  maxPrzDistanceAtr : ℚ := TUNING.maxPrzDistanceAtr
  maxDAgeBars : ℚ := TUNING.maxDAgeBars
  rejectionReason : RejectionFn := .live
  deriving DecidableEq, Repr

/-- `reads` is not in the source: it records the constants `get_tuning()` returns during each run of
`build_signal`. -/
structure Process where
  tuning : TuningState := {}
  validation : ValidationModule := {}
  reads : List TuningConstants := []

abbrev Detect := Frame → String → String → Detection

def runBuildSignal (num : Numeric) (p : Process) (df : Frame) (interval : String) (candidates : List Candidate)
    (divergences : Option Divergences) : Except PyError (Option Signal) × Process :=
  let t := p.tuning.getTuning
  (buildSignal num t p.validation.rejectionReason df interval candidates divergences none "standard" none,
    { p with reads := p.reads ++ [t] })

/-! ## Filters -/

/-- `_maybe_relax_filters(True)`: the module as it was, and the process with the filters relaxed. -/
def relaxFilters (p : Process) : Except PyError (ValidationModule × Process) := do
  let relaxed ← fromDict [fun f => { f with minCandles := 30 }]
  return (p.validation, { p with
    tuning := p.tuning.enter relaxed
    validation := { maxPrzDistanceAtr := 1000000000, maxDAgeBars := 1000000000, rejectionReason := .noop } })

def restoreFilters (saved : ValidationModule) (p : Process) : Process :=
  { p with tuning := p.tuning.exit, validation := saved }

/-! ## Steps 1 to 3: detect, extract, build -/

/-- A contract violation drops the signal; anything else goes on. -/
def dropViolation : Except PyError (Option Signal) → Except PyError (Option Signal)
  | .error (.violation _) => .ok none
  | r => r

/-- The window in the order of its index when its close times are not increasing. -/
def sortedWindow (window : Frame) : Frame :=
  if (window.rows.map Candle.closeTime).Pairwise (· ≤ ·) then window
  else window.withRows (window.rows.insertionSort fun a b => a.index ≤ b.index)

def windowCandidates (window : Frame) (detection : Detection) : List Candidate :=
  if !detection.hasPatterns && detection.rawAssessment.isNone then []
  else extractCandidates detection (some ((sortedWindow window).rows.map Candle.closeTime))

/-- `extract_signal`; the candidates are empty as well where the source returns before extracting them. -/
def extractSignal (num : Numeric) (p : Process) (window : Frame) (interval : String) (detection : Detection)
    (relax : Bool) : Except PyError (Option Signal) × Process :=
  let candidates := windowCandidates window detection
  let df := sortedWindow window
  if candidates = [] then (.ok none, p)
  else if relax then
    match relaxFilters p with
    | .error e => (.error e, p)
    | .ok (saved, p) =>
        let (result, p) := runBuildSignal num p df interval candidates detection.divergences
        (dropViolation result, restoreFilters saved p)
  else
    let (result, p) := runBuildSignal num p df interval candidates detection.divergences
    (dropViolation result, p)

/-! ## Step 4: forward simulation -/

inductive ForwardOutcome
  | traded (result : TradeResult)
  | skipped
  deriving DecidableEq, Repr

structure ForwardResult where
  result : ForwardOutcome
  rMultiple : ℚ
  exitTime : Option ℤ
  barsHeld : Option ℤ
  deriving DecidableEq, Repr

def skippedResult : ForwardResult := ⟨.skipped, 0, none, none⟩

def directionStr : Direction → String
  | .long => "long"
  | .short => "short"

/-- `entry_price`, or `current_price`, or the signal's own reference. -/
def usedEntry (signal : Signal) (currentPrice entryPrice : Option ℚ) : ℚ :=
  entryPrice.getD (currentPrice.getD signal.entryReference)

def simulateOne (forwardDf : Frame) (signal : Option Signal) (currentPrice entryPrice targetPrice : Option ℚ) :
    ForwardResult :=
  match signal with
  | none => skippedResult
  | some signal =>
      let direction : Direction := if directionStr signal.direction = "bullish" then .long else .short
      let entry := usedEntry signal currentPrice entryPrice
      let target := targetPrice.getD (match signal.targets with
        | tp1 :: _ => tp1.price
        | [] => entry * (if direction = .long then 101 / 100 else 99 / 100))
      if ¬ ValidLevels direction entry signal.stopLoss target then skippedResult
      else
        match simulateTrades forwardDf direction entry signal.stopLoss target none with
        | .error _ => skippedResult
        | .ok [] => skippedResult
        | .ok (t :: _) =>
            { result := .traded t.result
              rMultiple := t.rMultiple
              exitTime := t.exitTime
              -- whole days between the two timestamps
              barsHeld := match t.exitTime, t.entryTime with
                | some exit, some entry => some ((exit - entry).tdiv 86400)
                | _, _ => none }

/-! ## Step 5: walk-forward -/

inductive EntryMode
  | market
  | prz
  deriving DecidableEq, Repr

inductive TimeOffset
  | close
  | nextOpen
  deriving DecidableEq, Repr

structure BacktestSignalRecord where
  stepIndex : ℤ
  signalTime : ℤ
  direction : Direction
  grade : Grade
  patternName : String
  family : String
  formed : Bool
  entryPrice : ℚ
  stopLoss : ℚ
  tp1 : Option ℚ
  rr1 : ℚ
  entryReference : ℚ
  entryZone : ℚ × ℚ
  horizon : ℕ
  result : ForwardOutcome
  rMultiple : ℚ
  exitTime : Option ℤ
  barsHeld : Option ℤ
  deriving DecidableEq, Repr

/-- The arguments of `walk_forward` that shape its windows and records. -/
structure WalkOptions where
  window : ℕ
  step : ℕ
  horizon : ℕ
  signalTimeOffset : TimeOffset := .close
  entryMode : EntryMode := .market
  minGrade : Option Grade := none

def minGradeRank : Grade → ℕ
  | .a => 3
  | .b => 2
  | .cRef => 1
  | .c => 0

def passesMinGrade (o : WalkOptions) (signal : Signal) : Bool :=
  o.minGrade.all fun g => minGradeRank g ≤ minGradeRank signal.grade

/-- The window that ends before row `stop`, and the bars it is evaluated on. -/
def windowOf (df : Frame) (o : WalkOptions) (stop : ℕ) : Frame := df.withRows (slice (stop - o.window) stop df.rows)

def forwardOf (df : Frame) (o : WalkOptions) (stop : ℕ) : Frame :=
  df.withRows (slice stop (stop + o.horizon + 1) df.rows)

/-- The label of the row at `end_idx = stop - 1`, or of the next one. -/
def signalTimeOf (df : Frame) (o : WalkOptions) (stop : ℕ) : ℤ :=
  let label (i : ℕ) : ℤ := (df.rows.getD i default).index
  match o.signalTimeOffset with
  | .close => label (stop - 1)
  | .nextOpen => if stop < df.len then label stop else label (stop - 1)

def recordOf (df : Frame) (o : WalkOptions) (stop : ℕ) (signal : Signal) : BacktestSignalRecord :=
  let currentPrice := (windowOf df o stop).last.close
  let result := simulateOne (forwardOf df o stop) (some signal) (some currentPrice)
    (if o.entryMode = .prz then some signal.entryReference else none) none
  { stepIndex := (stop : ℤ) - 1
    signalTime := signalTimeOf df o stop
    direction := signal.direction
    grade := signal.grade
    patternName := signal.patternName
    family := signal.family
    formed := signal.formed
    entryPrice := currentPrice
    stopLoss := signal.stopLoss
    tp1 := signal.targets.head?.map SignalTarget.price
    rr1 := signal.netRrTp1
    entryReference := signal.entryReference
    entryZone := signal.entryZone
    horizon := o.horizon
    result := result.result
    rMultiple := result.rMultiple
    exitTime := result.exitTime
    barsHeld := result.barsHeld }

/-- `end_idx + 1` for each `end_idx` of `range(window - 1, n - horizon, step)`. -/
def stops (n : ℕ) (o : WalkOptions) : List ℕ :=
  List.range' o.window ((n - o.horizon + 1 - o.window + o.step - 1) / o.step) o.step

def walkSteps (num : Numeric) (detect : Detect) (df : Frame) (symbol interval : String) (o : WalkOptions) :
    List ℕ → Process → Except PyError (List BacktestSignalRecord) × Process
  | [], p => (.ok [], p)
  | stop :: rest, p =>
      let window := windowOf df o stop
      match extractSignal num p window interval (detect window symbol interval) true with
      | (.error e, p) => (.error e, p)
      | (.ok signal, p) =>
          let new := match signal with
            | some s => if passesMinGrade o s then [recordOf df o stop s] else []
            | none => []
          match walkSteps num detect df symbol interval o rest p with
          | (.error e, p) => (.error e, p)
          | (.ok records, p) => (.ok (new ++ records), p)

def walkForward (num : Numeric) (detect : Detect) (p : Process) (df : Frame) (symbol interval : String)
    (o : WalkOptions) : Except PyError (List BacktestSignalRecord) × Process :=
  if df.len < o.window + o.horizon + 1 then (.ok [], p)
  else if o.step = 0 then (.error (.valueError "range() arg 3 must not be zero"), p)
  else walkSteps num detect df symbol interval o (stops df.len o) p

/-! ## Weight grid search -/

structure GridOutcome where
  weights : Dict ℚ
  winRate : ℚ
  avgR : ℚ
  n : ℕ
  deriving DecidableEq

def outcomeOf (weights : Dict ℚ) (records : List BacktestSignalRecord) : GridOutcome :=
  let wins := (records.filter (·.result = .traded .win)).length
  let losses := (records.filter (·.result = .traded .loss)).length
  let n := wins + losses
  { weights := weights
    winRate := if n = 0 then 0 else wins / n
    avgR := if n = 0 then 0 else (records.map (·.rMultiple)).sum / n
    n := n }

/-- The arguments of `grid_search_weights` other than the combinations. -/
structure GridOptions where
  symbol : String
  interval : String
  window : ℕ := 240
  step : ℕ := 24
  horizon : ℕ := 24

/-- `dataclasses.replace(TUNING, confluence_weights=weights)`, before its checks. -/
def replaceWeights (weights : Dict ℚ) : TuningFields := { TUNING.toTuningFields with confluenceWeights := weights }

/-- `_eval`: one combination, inside its `TuningScope`. -/
def evalWeights (num : Numeric) (detect : Detect) (df : Frame) (o : GridOptions) (weights : Dict ℚ) (p : Process) :
    Except PyError GridOutcome × Process :=
  match (replaceWeights weights).construct with
  | .error e => (.error e, p)
  | .ok tuned =>
      let (records, p) := walkForward num detect { p with tuning := p.tuning.enter tuned } df o.symbol o.interval
        { window := o.window, step := o.step, horizon := o.horizon }
      (records.map (outcomeOf weights), { p with tuning := p.tuning.exit })

def evalAll (num : Numeric) (detect : Detect) (df : Frame) (o : GridOptions) :
    List (Dict ℚ) → Process → Except PyError (List GridOutcome) × Process
  | [], p => (.ok [], p)
  | w :: ws, p =>
      match evalWeights num detect df o w p with
      | (.error e, p) => (.error e, p)
      | (.ok outcome, p) =>
          match evalAll num detect df o ws p with
          | (.error e, p) => (.error e, p)
          | (.ok outcomes, p) => (.ok (outcome :: outcomes), p)

def bestOutcome (outcomes : List GridOutcome) : Option GridOutcome :=
  FirstMax.firstMax (fun o => ((o.winRate * (4 / 10) + o.avgR * (6 / 10) : ℚ) : WithBot ℚ)) ⊥
    (outcomes.filter fun o => 5 ≤ o.n)

/-- Best weights and results. Without a trusted outcome the first combination is the best; with no combination at
all the source raises. -/
def gridSearchWeights (num : Numeric) (detect : Detect) (p : Process) (df : Frame) (candidates : List (Dict ℚ))
    (o : GridOptions) : Except PyError (Dict ℚ × List GridOutcome) × Process :=
  match evalAll num detect df o candidates p with
  | (.error e, p) => (.error e, p)
  | (.ok outcomes, p) =>
      match bestOutcome outcomes, candidates with
      | some best, _ => (.ok (best.weights, outcomes), p)
      | none, first :: _ => (.ok (first, outcomes), p)
      | none, [] => (.error .indexError, p)

end CryptoAggHarmonic.WalkForward
