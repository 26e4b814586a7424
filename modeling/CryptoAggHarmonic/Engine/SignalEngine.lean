import Mathlib.Data.Prod.Lex
import CryptoAggHarmonic.Engine.Confluence

/-!
# The signal engine

`app/services/signal_engine.py`, second half: the score context, the scoring of one candidate, the ranking, the
stability check and `build_signal`.
-/

namespace CryptoAggHarmonic.Engine

open Config Domain Rounding

def clampSharpe : ExtRat → ℚ
  | .negInf => -10
  | .val x => roundTo 4 (max (-10) (min 10 x))
  | .posInf => 10

/-- The recent swing extreme, over a window of about eight ATRs of travel. -/
def computeSwingAnchor (df : Frame) (atr : ℚ) (bullish : Bool) (_entry : ℚ) : Option ℚ :=
  if atr ≤ 0 ∨ df.len < 20 then none
  else
    let barRange := maxOf (tailN 60 df.highs) - minOf (tailN 60 df.lows)
    if barRange ≤ 0 then none
    else
      let lookback := min (max 20 (min 120 ⌊8 * atr / barRange * 60⌋)).toNat df.len
      some (if bullish then minOf (tailN lookback df.lows) else maxOf (tailN lookback df.highs))

/-! ## Score context -/

structure ScoreContext where
  df : Frame
  atr : ℚ
  rsi : ℚ
  trend : Trend
  sharpe : ExtRat
  regime : Regime
  aMin : ℚ
  paScale : ℚ
  positionMult : ℚ
  price : ℚ
  last : Candle
  divergences : Divergences
  volumeAuthenticity : ℤ := 50
  stopBufferAtr : Option ℚ := none
  rsiSeries : List (Option ℚ) := []
  macdLine : ℚ := 0
  macdSignal : ℚ := 0
  macdHistogram : ℚ := 0
  macdHistogramPrev : ℚ := 0

def ScoreContext.momentum (ctx : ScoreContext) : Momentum where
  rsiSeries := ctx.rsiSeries
  macdLine := ctx.macdLine
  macdHistogram := ctx.macdHistogram
  macdHistogramPrev := ctx.macdHistogramPrev

def prepareScoreContext (num : Numeric) (t : TuningConstants) (df : Frame) (interval : String)
    (divergences : Option Divergences) (stopBufferAtr : Option ℚ) : Except PyError (Option ScoreContext) := do
  let auth := volumeAuthenticity df TUNING.volumeAuthenticityWindow.toNat
  let paScale : ℚ := if auth < t.authenticityHalve then 1 / 2 else 1
  let atr ← computeAtr t df
  if atr ≤ 0 then
    return none
  let closes := df.closes
  let rsi := computeRsi t closes
  let trend ← htfTrend num t df interval
  let sharpe := perBarSharpe num closes t.perBarSharpeWindow.toNat
  let (_, regime) := quantRegime num t df TUNING.quantRegimeWindow.toNat
  let aMin : ℤ := if regime = .highQuant then t.aGradeMinHighQuant else t.aGradeMin
  let regimeMult := if regime = .highQuant then t.highQuantPositionMult else 1
  let price := df.last.close
  let histogram := macdHistogramSeries closes
  return some {
    df := df
    atr := atr
    rsi := rsi
    trend := trend
    sharpe := sharpe
    regime := regime
    aMin := aMin
    paScale := paScale
    positionMult := roundTo 4 (volatilityMultiplier atr price t.targetAtrPct * regimeMult)
    price := price
    last := df.last
    divergences := divergences.getD ⟨[], List.nodup_nil⟩
    volumeAuthenticity := auth
    stopBufferAtr := stopBufferAtr
    rsiSeries := rsiSeries t closes
    macdLine := (macdLineSeries closes).getLastD 0
    macdSignal := (macdSignalSeries closes).getLastD 0
    macdHistogram := histogram.getLastD 0
    macdHistogramPrev := if histogram.length ≥ 2 then histogram.dropLast.getLastD 0 else 0 }

/-! ## One candidate -/

/-- Status of the PRZ and the entry price that goes with it. -/
def entryOf (ctx : ScoreContext) (c : Candidate) : PrzState × ℚ :=
  let swept := isSwept ctx.last.low ctx.last.high ctx.price c.przLow c.przHigh
  let status := przState ctx.price c.przLow c.przHigh swept
  let status := if (status = .inPrz ∨ status = .swept) ∧ isReversalCandle ctx.last c.bullish then .confirmed
    else status
  (status, if status ≠ .approaching then ctx.price else if c.bullish then c.przHigh else c.przLow)

def htfAligned (ctx : ScoreContext) (c : Candidate) : Bool :=
  c.bullish && ctx.trend = .bullish || !c.bullish && ctx.trend = .bearish

def htfCounter (ctx : ScoreContext) (c : Candidate) : Bool :=
  c.bullish && ctx.trend = .bearish || !c.bullish && ctx.trend = .bullish

def widthPct (c : Candidate) : ℚ := if c.przMid > 0 then (c.przHigh - c.przLow) / c.przMid else 0

/-- The volume gate: formed patterns face `authenticity_veto`, forming ones `authenticity_halve`. -/
def volumeGate (t : TuningConstants) (ctx : ScoreContext) (c : Candidate) : Bool :=
  decide (ctx.volumeAuthenticity < if c.formed then t.authenticityVeto else t.authenticityHalve)

/-- The confluence total with the pattern bump, clamped to the range `grade` accepts. -/
def clampedScore (t : TuningConstants) (c : Candidate) (total : ℚ) : ℚ :=
  max 0 (min 100 (total + patternBaseScore t c.name))

def firstStopOptions (ctx : ScoreContext) (c : Candidate) : StopOptions where
  swingAnchor := computeSwingAnchor ctx.df ctx.atr c.bullish (entryOf ctx c).2
  entry := some (entryOf ctx c).2

def finalStopOptions (ctx : ScoreContext) (c : Candidate) (trapM : ℚ) (g : Grade) : StopOptions where
  swingAnchor := computeSwingAnchor ctx.df ctx.atr c.bullish (entryOf ctx c).2
  entry := some (entryOf ctx c).2
  trapMultiplier := trapM
  regime := ctx.regime
  grade := some g
  stopBufferAtr := ctx.stopBufferAtr

/-- The call of `quant_trap_risk`, with its default lookback. -/
def trapRisk (ctx : ScoreContext) (c : Candidate) : ℤ × Bool × List String :=
  quantTrapRisk ctx.df c.przLow c.przHigh c.bullish TUNING.quantTrapLookback.toNat

def targetPrice (targets : List SignalTarget) (i : ℕ) : ℚ := (targets.map SignalTarget.price).getD i 0

def scoreCandidate (t : TuningConstants) (ctx : ScoreContext) (c : Candidate) (stopLevel : String) :
    Except PyError (Option Signal) := do
  require ((StopLevel.parse stopLevel).isSome = true)
    "stop_level must be one of conservative/standard/aggressive"
  require (ctx.atr > 0) "ctx.atr must be positive (set by _prepare_score_context)"
  if volumeGate t ctx c then
    return none
  let (status, entry) := entryOf ctx c
  let (stop, _, _) ← computeStop t c ctx.atr stopLevel (firstStopOptions ctx c)
  let (trapScore, trapVeto, _) := trapRisk ctx c
  if trapVeto then
    return none
  if adverseMomentumVeto c.direction ctx.sharpe t.adverseSharpeThreshold then
    return none
  let targets := computeTargets t c entry
  if ¬ directionInvariantOk c.direction entry stop (targets.map SignalTarget.price) then
    return none
  let rr1 ← netRr t entry stop (targetPrice targets 0) none none
  let rr2 ← netRr t entry stop (targetPrice targets 1) none none
  let (total, factors) ← confluenceScore t ctx.df c ctx.atr ctx.rsi ctx.trend ctx.divergences ctx.paScale
    ctx.momentum
  let score := clampedScore t c total
  match ← grade score rr1 rr2 (htfAligned ctx c) (htfCounter ctx c) ctx.aMin (some (widthPct c)) with
  | none => return none
  | some g =>
      let trapM ← trapStopMultiplier trapScore
      -- Second pass: the full multiplier chain, and the ratios of the stop it gives.
      let (stop, basis, invalidation) ← computeStop t c ctx.atr stopLevel (finalStopOptions ctx c trapM g)
      let rr1 ← netRr t entry stop (targetPrice targets 0) none none
      let rr2 ← netRr t entry stop (targetPrice targets 1) none none
      let signal : Signal := {
        status := status
        grade := g
        direction := c.direction
        patternName := c.name
        family := c.family
        formed := c.formed
        entryZone := (c.przLow, c.przHigh)
        entryReference := roundTo 8 entry
        stopLoss := stop
        stopBasis := basis
        stopLevel := stopLevel
        invalidationPoint := invalidation
        targets := targets
        netRrTp1 := rr1.getD 0
        netRrTp2 := rr2.getD 0
        confluenceScore := halfEven score
        confluence := factors
        htfTrend := ctx.trend
        sharpe := some (clampSharpe ctx.sharpe)
        regime := ctx.regime
        positionMultiplier := some ctx.positionMult
        trapScore := some trapScore
        tradable := decide (g ≠ .cRef)
        widthPct := some (roundTo 4 (widthPct c)) }
      return some { signal with reasoning := reasoningFromSignal signal }

/-! ## Ranking and stability -/

def gradeRank : Grade → ℤ
  | .a => 3
  | .b => 2
  | .c => 1
  | .cRef => 0

def rankOf (s : Signal) : ℤ ×ₗ ℤ ×ₗ Bool := toLex (gradeRank s.grade, toLex (s.confluenceScore, s.formed))

def rankStep (best : Option Signal × (ℤ ×ₗ ℤ ×ₗ Bool)) (s : Signal) : Option Signal × (ℤ ×ₗ ℤ ×ₗ Bool) :=
  if rankOf s > best.2 then (some s, rankOf s) else best

def rankSignals (signals : List Signal) : Option Signal :=
  (signals.foldl rankStep (none, toLex (-1, toLex (-1, false)))).1

abbrev StabilityDetector := Frame → Except PyError (Option String)

/-- Re-detect on two shifted windows; a detector that raises has found nothing in either. -/
def applyStability (t : TuningConstants) (df : Frame) (best : Option Signal) (detector : Option StabilityDetector) :
    Option Signal :=
  match best, detector with
  | some s, some detect =>
      if s.grade ≠ .a ∧ s.grade ≠ .b then some s
      else
        let stab := t.stabilityWindow.toNat
        let (sub1, sub2) := match detect (df.withRows (df.rows.take (df.len - stab))) with
          | .error _ => (none, none)
          | .ok sub1 =>
              match detect (df.withRows (df.rows.drop stab)) with
              | .error _ => (none, none)
              | .ok sub2 => (sub1, sub2)
        let (score, suspect) := stabilityVerdict (some s.patternName) sub1 sub2
        if suspect then none else some { s with stabilityScore := some score }
  | best, _ => best

/-! ## build_signal -/

def scoreAll (score : Candidate → Except PyError (Option Signal)) :
    List Candidate → Except PyError (List Signal)
  | [] => .ok []
  | c :: cs => do
      let signal ← score c
      let scored ← scoreAll score cs
      return signal.toList ++ scored

/-- What the name `rejection_reason` of the validation module is bound to. -/
inductive RejectionFn
  | live
  | noop
  deriving DecidableEq, Repr

def RejectionFn.apply (fn : RejectionFn) (t : TuningConstants) (ctx : ScoreContext) (c : Candidate) :
    Except PyError (Option RejectReason) :=
  match fn with
  | .live => rejectionReason t c ctx.price ctx.atr ctx.df.closeTimes
  | .noop => .ok none

def buildSignal (num : Numeric) (t : TuningConstants) (fn : RejectionFn) (df : Frame) (interval : String)
    (candidates : List Candidate) (divergences : Option Divergences) (detector : Option StabilityDetector)
    (stopLevel : String) (stopBufferAtr : Option ℚ) : Except PyError (Option Signal) := do
  require (interval.length > 0) "interval must be a non-empty string"
  require ((StopLevel.parse stopLevel).isSome = true)
    "stop_level must be one of conservative/standard/aggressive"
  if (df.len : ℤ) < t.minCandles ∨ candidates = [] then
    return none
  match ← prepareScoreContext num t df interval divergences stopBufferAtr with
  | none => return none
  | some ctx =>
      let (valid, _) ← filterCandidates (fn.apply t ctx) candidates
      let scored ← scoreAll (fun c => scoreCandidate t ctx c stopLevel) valid
      return applyStability t df (rankSignals scored) detector

end CryptoAggHarmonic.Engine
