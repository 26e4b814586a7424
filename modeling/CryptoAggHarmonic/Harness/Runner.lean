import CryptoAggHarmonic.Engine.SignalEngine
import CryptoAggHarmonic.Harness.Discipline

/-!
# The group runner of the fitness harness

`.scratch/backtest/run_backtest_v3.py`: the daily closes, the simulated trade, and `run_symbol_group` on the fresh
patterns it is given.
-/

namespace CryptoAggHarmonic.Harness

open Config Domain Engine

/-- The 4h bars as `load_4h` gives them: bars that hold no data are left out. -/
structure Frame4h where
  rows : List Candle
  slots : ∀ c ∈ rows, 14400 ∣ c.dts
  increasing : rows.Pairwise fun a b => a.dts < b.dts

def Frame4h.frame (df4 : Frame4h) : Frame := ⟨df4.rows, true, true⟩

/-! ## Daily closes -/

/-- The label of the day of a bar. -/
def dayOf (row : Candle) : ℤ := row.dts / 86400 * 86400

/-- A later close of the same day takes the place of the one before. -/
def addClose (daily : List (ℤ × ℚ)) (row : Candle) : List (ℤ × ℚ) :=
  if daily.getLast?.any fun d => d.1 = dayOf row then daily.dropLast ++ [(dayOf row, row.close)]
  else daily ++ [(dayOf row, row.close)]

/-- `to_daily_close` -/
def toDailyClose (rows : List Candle) : List (ℤ × ℚ) := rows.foldl addClose []

/-- `daily_close.iloc[: daily_close.index.searchsorted(dts) + 1]` -/
def dailyUpTo (daily : List (ℤ × ℚ)) (dts : ℤ) : List ℚ :=
  (daily.take ((daily.filter fun d => d.1 < dts).length + 1)).map Prod.snd

/-! ## The simulated trade -/

inductive ExitReason
  | endOfData
  | degenerateRisk
  | stopLoss
  | tp1
  | tp2
  deriving DecidableEq, Repr

inductive Group
  | control
  | strict
  | experimental
  deriving DecidableEq, Repr

structure Trade where
  symbol : String
  pattern : String
  family : String
  direction : Direction
  entryBar : ℕ
  entryPrice : ℚ
  stopLoss : ℚ
  tp1 : Option ℚ
  tp2 : Option ℚ
  exitBar : ℕ
  exitPrice : ℚ
  exitReason : ExitReason
  rMultiple : ℚ
  barsHeld : ℤ
  grade : Grade
  widthPct : ℚ
  macroSizeMult : ℚ := 1
  macroRegime : String := "unknown"
  disciplinePassed : Bool := true
  group : Option Group := none
  deriving DecidableEq

/-- What the loop over the bars looks for. -/
structure ExitLevels where
  long : Bool
  entry : ℚ
  stop : ℚ
  tp1 : Option ℚ
  tp2 : Option ℚ

def ExitLevels.risk (lv : ExitLevels) : ℚ := |lv.entry - lv.stop|

/-- The R multiple of a price. -/
def ExitLevels.rAt (lv : ExitLevels) (price : ℚ) : ℚ :=
  (if lv.long then price - lv.entry else lv.entry - price) / lv.risk

def ExitLevels.reached (lv : ExitLevels) (row : Candle) (price : ℚ) : Bool :=
  if lv.long then row.high ≥ price else row.low ≤ price

/-- What one bar closes at: the stop comes first, then the targets in their order. -/
def ExitLevels.exitOn (lv : ExitLevels) (row : Candle) : Option (ℚ × ExitReason × ℚ) :=
  if if lv.long then row.low ≤ lv.stop else row.high ≥ lv.stop then some (lv.stop, .stopLoss, -1)
  else
    let target (price : Option ℚ) (reason : ExitReason) : Option (ℚ × ExitReason × ℚ) :=
      (price.filter (lv.reached row)).map fun price => (price, reason, lv.rAt price)
    (target lv.tp1 .tp1).or (target lv.tp2 .tp2)

/-- The first bar from `i` on that closes the trade. -/
def ExitLevels.firstExit (lv : ExitLevels) (i : ℕ) : List Candle → Option (ℕ × ℚ × ExitReason × ℚ)
  | [] => none
  | row :: rows =>
      match lv.exitOn row with
      | some exit => some (i, exit)
      | none => lv.firstExit (i + 1) rows

def MAX_HOLD_BARS : ℕ := 100

def exitLevels (signal : Signal) : ExitLevels :=
  let tp1 := (signal.targets.map SignalTarget.price)[0]?
  { long := signal.direction = .long
    entry := signal.entryReference
    stop := signal.stopLoss
    tp1 := tp1
    tp2 := ((signal.targets.map SignalTarget.price)[1]?).or tp1 }

/-- The trade of a signal with its exit. -/
def closedTrade (symbol : String) (signal : Signal) (entryBar exitBar : ℕ) (exitPrice : ℚ) (reason : ExitReason)
    (r : ℚ) : Trade where
  symbol := symbol
  pattern := signal.patternName
  family := signal.family
  direction := signal.direction
  entryBar := entryBar
  entryPrice := (exitLevels signal).entry
  stopLoss := (exitLevels signal).stop
  tp1 := (exitLevels signal).tp1
  tp2 := (exitLevels signal).tp2
  exitBar := exitBar
  exitPrice := exitPrice
  exitReason := reason
  rMultiple := r
  barsHeld := exitBar - entryBar
  grade := signal.grade
  widthPct := signal.widthPct.getD 0

/-- `_simulate_trade` -/
def simulateTrade (symbol : String) (df : Frame) (entryBar : ℕ) (signal : Signal) : Trade :=
  let lv := exitLevels signal
  let endBar := min (entryBar + MAX_HOLD_BARS) (df.len - 1)
  if lv.risk ≤ 0 then closedTrade symbol signal entryBar entryBar lv.entry .degenerateRisk 0
  else
    match lv.firstExit (entryBar + 1) (slice (entryBar + 1) (endBar + 1) df.rows) with
    | some (exitBar, exitPrice, reason, r) => closedTrade symbol signal entryBar exitBar exitPrice reason r
    | none =>
        let last := df.closes.getD endBar 0
        closedTrade symbol signal entryBar endBar last .endOfData (lv.rAt last)

/-! ## The signal -/

abbrev GradeFn := ℚ → Option ℚ → Option ℚ → Bool → Bool → ℚ → Option ℚ → Except PyError (Option Grade)

/-- `_backtest_grade`, which the harness puts in the place of `grade`. -/
def backtestGrade : GradeFn := fun score rrTp1 rrTp2 _htfAligned htfCounter _aMin widthPct =>
  match rrTp1, rrTp2 with
  | some rr1, some rr2 =>
      let reference : Option Grade := if score ≥ 15 then some .cRef else none
      if ∃ w ∈ widthPct, w ≥ 4 / 100 then .ok reference
      else if htfCounter then .ok reference
      else if rr1 < 1 ∨ rr2 < 3 / 2 then .ok reference
      else if score ≥ 60 then .ok (some .b)
      else .ok (if score ≥ 30 then some .cRef else none)
  | _, _ => .ok none

/-- `score_candidate` with another function bound to the name `grade`. -/
def scoreCandidateWith (grade : GradeFn) (t : TuningConstants) (ctx : ScoreContext) (c : Candidate)
    (stopLevel : String) : Except PyError (Option Signal) := do
  require ((StopLevel.parse stopLevel).isSome = true)
    "stop_level must be one of conservative/standard/aggressive"
  require (ctx.atr > 0) "ctx.atr must be positive (set by _prepare_score_context)"
  if volumeGate t ctx c then
    return none
  let (status, entry) := entryOf ctx c
  let (stop, _, _) ← computeStop t c ctx.atr stopLevel (firstStopOptions ctx c)
  let (trapScore, trapVeto, _) := trapRisk ctx c
  if trapVeto then
    return none
  if adverseMomentumVeto c.direction ctx.sharpe t.adverseSharpeThreshold then
    return none
  let targets := computeTargets t c entry
  if ¬ directionInvariantOk c.direction entry stop (targets.map SignalTarget.price) then
    return none
  let rr1 ← netRr t entry stop (targetPrice targets 0) none none
  let rr2 ← netRr t entry stop (targetPrice targets 1) none none
  let (total, factors) ← confluenceScore t ctx.df c ctx.atr ctx.rsi ctx.trend ctx.divergences ctx.paScale
    ctx.momentum
  let score := clampedScore t c total
  match ← grade score rr1 rr2 (htfAligned ctx c) (htfCounter ctx c) ctx.aMin (some (widthPct c)) with
  | none => return none
  | some g =>
      let trapM ← trapStopMultiplier trapScore
      let (stop, basis, invalidation) ← computeStop t c ctx.atr stopLevel (finalStopOptions ctx c trapM g)
      let rr1 ← netRr t entry stop (targetPrice targets 0) none none
      let rr2 ← netRr t entry stop (targetPrice targets 1) none none
      let signal : Signal := {
        status := status
        grade := g
        direction := c.direction
        patternName := c.name
        family := c.family
        formed := c.formed
        entryZone := (c.przLow, c.przHigh)
        entryReference := Rounding.roundTo 8 entry
        stopLoss := stop
        stopBasis := basis
        stopLevel := stopLevel
        invalidationPoint := invalidation
        targets := targets
        netRrTp1 := rr1.getD 0
        netRrTp2 := rr2.getD 0
        confluenceScore := Rounding.halfEven score
        confluence := factors
        htfTrend := ctx.trend
        sharpe := some (clampSharpe ctx.sharpe)
        regime := ctx.regime
        positionMultiplier := some ctx.positionMult
        trapScore := some trapScore
        tradable := decide (g ≠ .cRef)
        widthPct := some (Rounding.roundTo 4 (widthPct c)) }
      return some { signal with reasoning := reasoningFromSignal signal }

theorem scoreCandidateWith_grade : scoreCandidateWith grade = scoreCandidate := rfl

/-- `build_signal` with another function bound to the name `grade`. -/
def buildSignalWith (grade : GradeFn) (num : Numeric) (t : TuningConstants) (fn : RejectionFn) (df : Frame)
    (interval : String) (candidates : List Candidate) (divergences : Option Divergences)
    (detector : Option StabilityDetector) (stopLevel : String) (stopBufferAtr : Option ℚ) :
    Except PyError (Option Signal) := do
  require (interval.length > 0) "interval must be a non-empty string"
  require ((StopLevel.parse stopLevel).isSome = true)
    "stop_level must be one of conservative/standard/aggressive"
  if (df.len : ℤ) < t.minCandles ∨ candidates = [] then
    return none
  match ← prepareScoreContext num t df interval divergences stopBufferAtr with
  | none => return none
  | some ctx =>
      let (valid, _) ← filterCandidates (fn.apply t ctx) candidates
      let scored ← scoreAll (fun c => scoreCandidateWith grade t ctx c stopLevel) valid
      return applyStability t df (rankSignals scored) detector

theorem buildSignalWith_grade : buildSignalWith grade = buildSignal := rfl

/-! ## The runner -/

section

variable (num : Numeric) (t : TuningConstants) (symbol : String) (group : Group)

/-- `df4.iloc[: anchor + 1].reset_index(drop=True)` -/
def subFrame (rows : List Candle) (anchor : ℕ) : Frame :=
  ⟨(rows.take (anchor + 1)).mapIdx fun i row => { row with index := i }, true, true⟩

/-- The signal on the bars up to the anchor; an exception is no signal. -/
def signalAt (rows : List Candle) (anchor : ℕ) (cand : Candidate) : Option Signal :=
  (buildSignalWith backtestGrade num t .live (subFrame rows anchor) "4h" [cand] none none "standard" none).toOption.join

/-- Whether the group takes a pattern with this verdict. -/
def accepts (cand : Candidate) (verdict : DisciplineResult) : Bool :=
  if group = .strict ∨ group = .experimental then
    if cand.formed then !verdict.metrics.pastTp2 else verdict.passed
  else true

/-- What the runner makes of one pattern. -/
def patternTrade (df4 : Frame4h) (anchor : ℕ) (cand : Candidate) : Except PyError (Option Trade) :=
  match signalAt num t df4.rows anchor cand with
  | none => .ok none
  | some signal =>
      match df4.rows[anchor + 1]? with
      | none => .ok none
      | some entryRow => do
          let verdict ← evaluate t df4.frame cand entryRow.close
          let overlay := compute t (dailyUpTo (toDailyClose df4.rows) entryRow.dts)
            (if cand.bullish then .long else .short)
          return if accepts group cand verdict then
            some { simulateTrade symbol df4.frame (anchor + 1) signal with
              disciplinePassed := verdict.passed
              macroSizeMult := if group = .experimental then overlay.sizeMult else 1
              macroRegime := overlay.macroDir
              group := some group }
          else none

/-- `run_symbol_group` -/
def runSymbolGroup (df4 : Frame4h) (fresh : List (ℕ × Candidate)) : Except PyError (List Trade) := do
  let trades ← fresh.mapM fun p => patternTrade num t symbol group df4 p.1 p.2
  return trades.reduceOption

end

end CryptoAggHarmonic.Harness
