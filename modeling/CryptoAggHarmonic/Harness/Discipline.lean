import CryptoAggHarmonic.Domain.Frame
import CryptoAggHarmonic.Domain.Validation
import CryptoAggHarmonic.Domain.Signals

/-!
# The discipline filters

`app/services/discipline_filters.py`. A frame always has its OHLCV columns and no NaN.
-/

namespace CryptoAggHarmonic.Harness

open Config Domain

structure CandidateMetrics where
  barsSinceC : ℤ
  stale : Bool
  breachedStop : Bool
  pastTp2 : Bool
  inPrz : Bool
  distPct : ℚ
  liquiditySweep : Bool
  deriving DecidableEq

structure DisciplineResult where
  passed : Bool
  metrics : CandidateMetrics
  deriving DecidableEq

/-- `_bars_since` -/
def barsSince (cIdx totalBars : ℤ) : ℤ := if cIdx < 0 then 0 else max 0 (totalBars - 1 - cIdx)

/-- Part of the bar is in the PRZ. -/
def touches (przLow przHigh : ℚ) (row : Candle) : Bool := row.high ≥ przLow && row.low ≤ przHigh

/-- `_prz_was_touched`: both directions ask the same. -/
def przWasTouched (after : List Candle) (przLow przHigh : ℚ) : Bool := after.any (touches przLow przHigh)

/-- `_past_tp2` -/
def pastTp2 (t : TuningConstants) (currentPrice : ℚ) (c : Candidate) : Bool :=
  if c.przMid ≤ 0 then false
  else
    let tp2Price := ((computeTargets t c c.przMid).map SignalTarget.price).getD 1 0
    if c.bullish then currentPrice > tp2Price else currentPrice < tp2Price

/-- The last but one of a list. -/
def beforeLast (xs : List ℤ) : Option ℤ := if xs.length ≥ 2 then xs.dropLast.getLast? else none

/-- The index of C: from the indices, or else from the times, or else 0. -/
def cIndex (c : Candidate) : ℤ := ((beforeLast c.indices).or (beforeLast c.times)).getD 0

/-- `df.iloc[start:]`, where a negative start counts from the end. -/
def ilocFrom (start : ℤ) (rows : List Candle) : List Candle :=
  rows.drop (if start < 0 then rows.length + start else start).toNat

def LIQUIDITY_SWEEP_MULT : ℚ := 3

/-- `_liquidity_sweep` -/
def liquiditySweep (df : Frame) (c : Candidate) : Bool :=
  if c.indices.length < 2 then false
  else
    let dIdx := c.indices.getLastD 0
    if dIdx ≤ 0 ∨ dIdx ≥ df.len then false
    else
      let window := slice (dIdx - 20).toNat dIdx.toNat df.volumes
      if mean window ≤ 0 then false
      else df.volumes.getD dIdx.toNat 0 > mean window * LIQUIDITY_SWEEP_MULT

/-- `_dist_pct` -/
def distPct (currentPrice : ℚ) (c : Candidate) : ℚ :=
  let lo := c.przLow
  let hi := c.przHigh
  if currentPrice ≤ 0 ∨ lo ≤ 0 ∨ hi ≤ 0 then 0
  else if lo ≤ currentPrice ∧ currentPrice ≤ hi then 0
  else if c.bullish then
    if currentPrice > hi then (currentPrice / hi - 1) * 100 else (lo / currentPrice - 1) * 100
  else if currentPrice < lo then (lo / currentPrice - 1) * 100
  else (currentPrice / hi - 1) * 100

/-- The bars after C: whether one of them was in the PRZ. -/
def breached (df : Frame) (c : Candidate) : Bool :=
  let after := if cIndex c + 1 < df.len then ilocFrom (cIndex c + 1) df.rows else []
  przWasTouched after c.przLow c.przHigh

def evaluate (t : TuningConstants) (df : Frame) (c : Candidate) (currentPrice : ℚ) :
    Except PyError DisciplineResult := do
  let maxTtl := t.defaultTtlBars
  require (df.len > 0) "df must not be empty"
  require (c.przLow > 0 ∧ c.przHigh > 0) "candidate PRZ bounds must be positive"
  require (currentPrice > 0) "current_price must be positive"
  require (maxTtl ≥ 0) "max_ttl must be non-negative"
  let barsSinceC := barsSince (cIndex c) df.len
  return {
    passed := !breached df c && !pastTp2 t currentPrice c
    metrics := {
      barsSinceC := barsSinceC
      stale := decide (barsSinceC > maxTtl)
      breachedStop := breached df c
      pastTp2 := pastTp2 t currentPrice c
      inPrz := decide (c.przLow ≤ currentPrice ∧ currentPrice ≤ c.przHigh)
      distPct := distPct currentPrice c
      liquiditySweep := liquiditySweep df c } }

/-- `evaluate` with the arguments that a caller may leave out: the TTL, and the index of C. -/
def evaluateAt (t : TuningConstants) (df : Frame) (c : Candidate) (currentPrice : ℚ) (maxTtl cIdx : Option ℤ) :
    Except PyError DisciplineResult := do
  let maxTtl := maxTtl.getD t.defaultTtlBars
  require (df.len > 0) "df must not be empty"
  require (c.przLow > 0 ∧ c.przHigh > 0) "candidate PRZ bounds must be positive"
  require (currentPrice > 0) "current_price must be positive"
  require (maxTtl ≥ 0) "max_ttl must be non-negative"
  let cIdx := cIdx.getD (cIndex c)
  let barsSinceC := barsSince cIdx df.len
  let after := if cIdx + 1 < df.len then ilocFrom (cIdx + 1) df.rows else []
  let breached := przWasTouched after c.przLow c.przHigh
  return {
    passed := !breached && !pastTp2 t currentPrice c
    metrics := {
      barsSinceC := barsSinceC
      stale := decide (barsSinceC > maxTtl)
      breachedStop := breached
      pastTp2 := pastTp2 t currentPrice c
      inPrz := decide (c.przLow ≤ currentPrice ∧ currentPrice ≤ c.przHigh)
      distPct := distPct currentPrice c
      liquiditySweep := liquiditySweep df c } }

theorem evaluateAt_none (t : TuningConstants) (df : Frame) (c : Candidate) (currentPrice : ℚ) :
    evaluateAt t df c currentPrice none none = evaluate t df c currentPrice := rfl

/-!
# The macro bias

`compute` of `app/services/macro_bias.py`: the daily closes against their EMA200.
-/

open Rounding

structure MacroOverlay where
  sizeMult : ℚ := 1
  advice : String := ""
  macroDir : String := "unknown"
  signalVsMacro : String := "unknown"
  deviationPct : ℚ := 0
  ema200Slope20d : ℚ := 0
  deriving DecidableEq

/-- `daily_close.ewm(span=200, adjust=False).mean().iloc[-1]` -/
def ema200 (daily : List ℚ) : ℚ := (ewmSpan 200 daily).getLastD 0

def priceAboveEma (daily : List ℚ) : Bool := daily.getLastD 0 > ema200 daily

def deviationPct (daily : List ℚ) : ℚ :=
  if ema200 daily > 0 then (daily.getLastD 0 / ema200 daily - 1) * 100 else 0

/-- The slope of the EMA200 over 20 days. -/
def slopePct (daily : List ℚ) : ℚ :=
  let ema := ewmSpan 200 daily
  let before := ema.getD (ema.length - 21) 0
  if ema.length ≥ 21 ∧ before > 0 then (ema200 daily / before - 1) * 100 else 0

def dataShort (t : TuningConstants) : MacroOverlay where
  sizeMult := t.multDataShort
  advice := "日线数据不足(<" ++ toString t.minDailyBars ++ "根),建议减仓 " ++ fmtPercent t.multDataShort
  macroDir := "数据不足"
  signalVsMacro := "未知"

def BULL : String := "牛市(价>EMA200)"

def BEAR : String := "熊市(价<EMA200)"

/-- The multiplier, the advice and how the signal lies to the market. -/
def bands (t : TuningConstants) (daily : List ℚ) (longSignal : Bool) : ℚ × String × String :=
  let trendingUp := decide (slopePct daily ≥ t.slopeTrendUp)
  let trendingDown := decide (slopePct daily ≤ t.slopeTrendDown)
  let ranging := !(trendingUp || trendingDown)
  let aligned := longSignal && priceAboveEma daily || !longSignal && !priceAboveEma daily
  let extreme := decide (|deviationPct daily| > t.extremeDeviationPct)
  if extreme && !aligned then
    (t.multExtremeInverse, "极端位逆势信号:反转概率高(回测84%胜率区),可正常/加仓 " ++ fmtFixed 1 t.multExtremeInverse ++
      "x 但 TP 必须分批走", "逆势+极端")
  else if aligned && !ranging then (t.multTrendingAligned, "顺势信号(趋势市):可拿波段,尾仓看趋势延伸", "顺势")
  else if aligned && ranging then (t.multRangingAligned, "顺势信号(震荡市):仓位正常,关注区间上下沿", "顺势")
  else if !aligned && trendingUp && longSignal then
    (t.multTrendingInverse, "逆势信号(上升趋势回踩):仓位6折,到 TP 就走、移动止损贴身", "逆势")
  else if !aligned && trendingDown && !longSignal then
    (t.multTrendingInverse, "逆势信号(下降趋势反弹):仓位6折,到 TP 就走、移动止损贴身", "逆势")
  else (t.multRangingInverse, "震荡市逆势信号:反弹/回调单,仓位5折,到 TP 必须走", "逆势")

/-- `compute`, for a direction that its contract takes. -/
def compute (t : TuningConstants) (daily : List ℚ) (direction : Direction) : MacroOverlay :=
  if (daily.length : ℤ) < t.minDailyBars then dataShort t
  else
    let (sizeMult, advice, vsMacro) := bands t daily (direction = .long)
    { sizeMult := sizeMult
      advice := advice
      macroDir := if priceAboveEma daily then BULL else BEAR
      signalVsMacro := vsMacro
      deviationPct := roundTo 1 (deviationPct daily)
      ema200Slope20d := roundTo 1 (slopePct daily) }

end CryptoAggHarmonic.Harness
