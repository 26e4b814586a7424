import CryptoAggHarmonic.RsiTrend.Signals
import CryptoAggHarmonic.Python.Text

/-!
# The trading plan of the RSI strategy

`app/domain/rsi_trend_plan.py`, and `current_state_core`: the overview of the market, the decision in four layers, the
targets and the size of the position.
-/

namespace CryptoAggHarmonic.RsiPlan

open Rounding RsiTrend
open Domain (Direction)

def DEVIATION_WATCH_PCT : ℚ := 15

def FRESH_BARS : ℕ := 3

def STALE_BARS : ℕ := 12

def QUALITY_HARD_FLOOR : ℚ := 50

def ATR_LOW_PCT : ℚ := 8 / 10

def ATR_HIGH_PCT : ℚ := 3

def VOLATILITY_SIZE_REDUCTION : ℚ := 1 / 2

def WU_UNIT : ℚ := 10000

/-! ## The last bar -/

inductive Trend
  | bullish
  | bearish
  | neutral
  deriving DecidableEq, Repr

def Trend.text : Trend → String
  | .bullish => "bullish"
  | .bearish => "bearish"
  | .neutral => "neutral"

structure CurrentState where
  time : String
  close : ℚ
  ema200 : ℚ
  ema50 : ℚ
  rsi : Option ℚ
  atr : Option ℚ
  trend : Trend
  deviationPct : ℚ
  entangled : Bool

/-- `current_state_core` of the last row. -/
def stateOf (row : IndicatorRow) : CurrentState where
  time := row.row.time
  close := row.row.close
  ema200 := row.ema200
  ema50 := row.ema50
  rsi := row.rsi.value
  atr := some row.atr
  trend := if row.row.close > row.ema200 then .bullish else if row.row.close < row.ema200 then .bearish else .neutral
  deviationPct := if row.ema200 = 0 then 0 else (row.row.close - row.ema200) / row.ema200 * 100
  entangled := |row.row.close - row.ema200| < 1 / 2 * row.atr

def currentStateCore (df : List Row) : Option CurrentState :=
  if df.length ≤ WARMUP_BARS then none else (computeIndicators df).getLast?.map stateOf

/-! ## Overview -/

inductive VolatilityRegime
  | low
  | normal
  | high
  deriving DecidableEq, Repr

def VolatilityRegime.text : VolatilityRegime → String
  | .low => "low"
  | .normal => "normal"
  | .high => "high"

structure MarketOverview where
  trend : Trend := .neutral
  trendStrength : ℚ := 0
  close : ℚ := 0
  ema200 : ℚ := 0
  ema50 : ℚ := 0
  deviationPct : ℚ := 0
  rsi : Option ℚ := none
  atr : Option ℚ := none
  atrPct : Option ℚ := none
  volatilityRegime : VolatilityRegime := .normal
  entangled : Bool := false
  notes : List String := []

def computeTrendStrength (close ema200 ema50 : ℚ) (atr : Option ℚ) : ℚ :=
  if ema200 ≤ 0 ∨ close ≤ 0 then 0
  else
    let alignment : ℚ := if close > ema50 ∧ ema50 > ema200 ∨ close < ema50 ∧ ema50 < ema200 then 1 / 2 else 0
    let deviation := min |(close - ema200) / ema200| (1 / 10)
    let strength := deviation / (1 / 10) * (1 / 2)
    let strength := if atr.any fun atr => atr ≠ 0 ∧ |close - ema200| < 1 / 2 * atr then strength * (4 / 10) else strength
    roundTo 2 (min (alignment + strength) 1)

def volatilityRegime (atr : Option ℚ) (close : ℚ) : VolatilityRegime :=
  match atr with
  | none => .normal
  | some atr =>
      if close ≤ 0 then .normal
      else if atr / close * 100 < ATR_LOW_PCT then .low
      else if atr / close * 100 > ATR_HIGH_PCT then .high
      else .normal

def overviewNotes (trend : Trend) (deviationPct : ℚ) (entangled : Bool) : List String :=
  (match trend with
    | .bullish => ["价格站上 EMA200，趋势多头"]
    | .bearish => ["价格站下 EMA200，趋势空头"]
    | .neutral => ["价格紧贴 EMA200，趋势方向不明"]) ++
  (if |deviationPct| > 10 then ["偏离 EMA200 超过 " ++ fmtFixed 0 |deviationPct| ++ "%，追高风险加剧"] else []) ++
  (if entangled then ["EMA50 与 EMA200 缠绕，横盘震荡特征明显"] else [])

def buildMarketOverview (state : Option CurrentState) : MarketOverview :=
  match state with
  | none => {}
  | some state =>
      { trend := state.trend
        trendStrength := computeTrendStrength state.close state.ema200 state.ema50 state.atr
        close := state.close
        ema200 := state.ema200
        ema50 := state.ema50
        deviationPct := state.deviationPct
        rsi := state.rsi
        atr := state.atr
        atrPct := state.atr.bind fun atr =>
          if atr ≠ 0 ∧ state.close ≠ 0 then some (roundTo 2 (atr / state.close * 100)) else none
        volatilityRegime := volatilityRegime state.atr state.close
        entangled := state.entangled
        notes := overviewNotes state.trend state.deviationPct state.entangled }

/-! ## Decision -/

inductive Action
  | trade
  | watch
  | noTrade
  deriving DecidableEq, Repr

def Action.text : Action → String
  | .trade => "trade"
  | .watch => "watch"
  | .noTrade => "no_trade"

structure Decision where
  action : Action := .noTrade
  direction : Option Direction := none
  confidence : ℚ := 0
  reasons : List String := []
  warnings : List String := []
  watchFor : Option String := none

def directionText : Direction → String
  | .long => "long"
  | .short => "short"

def computeConfidence (trendStrength qualityScore : ℚ) (signalAgeBars : ℕ) : ℚ :=
  let qs := qualityScore / 100
  let freshness : ℚ := max 0 (1 - signalAgeBars / (STALE_BARS * 2))
  let conf := 35 / 100 * trendStrength + 30 / 100 * qs + 20 / 100 * (7 / 10) + 15 / 100 * freshness
  min (max conf 0) 1

/-- L1: the direction of the trend, or what is decided without a signal. -/
def trendFilter (overview : MarketOverview) : Except Decision Direction :=
  match overview.trend with
  | .neutral => .error
      { action := .watch, reasons := ["趋势中性 (neutral)，等待方向确认"], watchFor := "等待价格明确突破 EMA200 上方或下方" }
  | trend =>
      let direction := if trend = .bullish then Direction.long else .short
      if |overview.deviationPct| ≥ DEVIATION_WATCH_PCT then .error
        { action := .watch, direction := some direction
          reasons := ["偏离 EMA200 " ++ fmtFixed 0 overview.deviationPct ++ "%，追高风险"]
          watchFor := "等待回调至 EMA200 附近（当前偏离 " ++ fmtFixed 1 overview.deviationPct ++ "%）" }
      else if overview.entangled then .error
        { action := .watch, direction := some direction, reasons := ["EMA50/200 缠绕，方向不明朗"]
          watchFor := "等待 EMA50 与 EMA200 重新展开（不再缠绕）" }
      else .ok direction

def tradeReasons (direction : Direction) (qualityScore : ℚ) : List String :=
  match direction with
  | .long => ["信号质量分 " ++ fmtFixed 0 qualityScore ++ "，通过质量过滤", "RSI 穿越触发超卖反转信号",
      "价格位于 EMA200 上方，顺势做多"]
  | .short => ["信号质量分 " ++ fmtFixed 0 qualityScore ++ "，通过质量过滤", "RSI 穿越触发超买反转信号",
      "价格位于 EMA200 下方，顺势做空"]

def evaluateDecision (overview : MarketOverview) (latestSignal : Option Signal) (qualityScore : ℚ)
    (signalAgeBars : ℕ) : Decision :=
  match trendFilter overview with
  | .error decision => decision
  | .ok direction =>
      -- L2: momentum
      match latestSignal with
      | none =>
          { reasons := ["最近 " ++ toString STALE_BARS ++ " 根K线内无符合条件的入场信号"]
            watchFor := "等待 RSI 进入超卖/回调区并形成顺势穿越信号" }
      | some signal =>
          if signal.direction ≠ direction then
            { reasons := ["最新信号方向(" ++ directionText signal.direction ++ ")与趋势方向(" ++ overview.trend.text ++
                ")冲突"] }
          else if signalAgeBars > STALE_BARS then
            { action := .watch, direction := some direction
              reasons := ["最新信号已过去 " ++ toString signalAgeBars ++ " 根K线，已陈旧"], watchFor := "等待新的 RSI 穿越信号" }
          -- L3: quality
          else if qualityScore < QUALITY_HARD_FLOOR then
            { reasons := ["质量分 " ++ fmtFixed 0 qualityScore ++ " 低于硬性阈值 50.0"] }
          else
            { action := .trade
              direction := some direction
              confidence := roundTo 2 (computeConfidence overview.trendStrength qualityScore signalAgeBars)
              reasons := tradeReasons direction qualityScore
              warnings :=
                (if signalAgeBars > FRESH_BARS then
                  ["信号距今 " ++ toString signalAgeBars ++ " 根K线，价格可能已走出预期范围"] else []) ++
                -- L4: a high regime has an ATR
                (if overview.volatilityRegime = .high then
                  ["ATR 占价格 " ++ fmtFixed 1 (overview.atrPct.getD 0) ++ "%，波动率偏高，建议仓位减半"] else []) }

/-! ## Targets and size -/

structure Target where
  level : String
  price : ℚ
  rr : ℚ
  weight : ℚ
  deriving DecidableEq

def sign : Direction → ℚ
  | .long => 1
  | .short => -1

def computeTargets (entry stop : ℚ) (direction : Direction) : List Target :=
  let risk := |entry - stop|
  if risk ≤ 0 then []
  else [⟨"tp1", roundTo 8 (entry + sign direction * risk * 1), 1, 5 / 10⟩,
    ⟨"tp2", roundTo 8 (entry + sign direction * risk * 2), 2, 3 / 10⟩,
    ⟨"tp3", roundTo 8 (entry + sign direction * risk * (35 / 10)), 35 / 10, 2 / 10⟩]

inductive RiskAppetite
  | conservative
  | balanced
  | aggressive
  deriving DecidableEq

/-- `RISK_BY_APPETITE` -/
def RiskAppetite.riskPct : RiskAppetite → ℚ
  | .conservative => 5 / 1000
  | .balanced => 10 / 1000
  | .aggressive => 15 / 1000

structure PositionPlan where
  riskPerTradePct : Option ℚ := none
  totalCapitalWu : Option ℚ := none
  riskAmountWu : Option ℚ := none
  positionSizeWu : Option ℚ := none
  positionSizeU : Option ℚ := none
  sizingNote : String := ""
  configured : Bool := false
  deriving DecidableEq

structure ZeroDivisionError where
  message : String := "float division by zero"
  deriving DecidableEq

def computePosition (entry stop totalCapitalWu : ℚ) (riskAppetite : RiskAppetite) (regime : VolatilityRegime) :
    Except ZeroDivisionError PositionPlan :=
  let riskPct := riskAppetite.riskPct
  let riskAmountWu := totalCapitalWu * riskPct
  if entry = 0 then .error {}
  else
    let riskPerUnit := |entry - stop| / entry
    if riskPerUnit ≤ 0 then .ok { riskPerTradePct := some riskPct }
    else
      let sizeWu := riskAmountWu / riskPerUnit
      let (sizeWu, note) :=
        if regime = .high then (sizeWu * VOLATILITY_SIZE_REDUCTION, "波动率偏高，已按 0.5 系数减仓") else (sizeWu, "")
      .ok
        { riskPerTradePct := some (roundTo 2 (riskPct * 100))
          totalCapitalWu := some totalCapitalWu
          riskAmountWu := some (roundTo 2 riskAmountWu)
          positionSizeWu := some (roundTo 2 sizeWu)
          positionSizeU := some (roundTo 4 (sizeWu / WU_UNIT))
          sizingNote := note
          configured := true }

structure HistorySummary where
  signalsCount : ℕ
  longs : Option ℕ := none
  shorts : Option ℕ := none
  avgQuality : Option ℚ := none
  note : String

def buildHistorySummary (signals : List Signal) : HistorySummary :=
  let n := signals.length
  if n = 0 then { signalsCount := 0, note := "最近数据中无历史信号" }
  else
    let longs := (signals.filter fun s => s.direction = .long).length
    { signalsCount := n
      longs := some longs
      shorts := some (n - longs)
      avgQuality := some (roundTo 1 ((signals.map Signal.qualityScore).sum / n))
      note := if n < 20 then "⚠️ 历史信号取自与当前分析相同的 K 线窗口——不构成未来预测。"
        else "近 500 根K线检测到 " ++ toString n ++ " 个交易信号" }

end CryptoAggHarmonic.RsiPlan
