import CryptoAggHarmonic.RsiPlan.Plan

/-!
# The plan service

`app/services/rsi_trend_plan_service.py`: `build_plan` for one request, with the insights that the process has cached.
What the market data service, the profiles table, the LLM and `json.loads` give is part of the input. The texts of the
answer that carry no decision (the invalidation, the time stop) are left out.
-/

namespace CryptoAggHarmonic.RsiPlan

open Rounding RsiTrend
open Domain (Direction)

inductive Interval
  | h1
  | h4
  | d1
  | w1
  deriving DecidableEq

def Interval.text : Interval → String
  | .h1 => "1h"
  | .h4 => "4h"
  | .d1 => "1d"
  | .w1 => "1w"

structure ScanRequest where
  symbol : String
  interval : Interval
  settings : ScanSettings

/-- What `build_plan` raises. -/
inductive PlanError
  | marketDataUnavailable (message : String)
  | invalidParams (message : String)
  | typeError (error : TypeError)
  | zeroDivision (error : ZeroDivisionError)
  /-- The answer of the LLM is JSON, but no object. -/
  | notAnObject
  deriving DecidableEq

/-! ## The scan -/

structure ScanCore where
  df : List Row
  state : Option CurrentState
  signals : List Signal

def scanCore (req : ScanRequest) (df : List Row) : Except PlanError ScanCore :=
  if df = [] then
    .error (.marketDataUnavailable ("无法获取 " ++ req.symbol ++ " " ++ req.interval.text ++ " 行情数据"))
  else if df.length ≤ WARMUP_BARS then
    .error (.invalidParams (req.symbol ++ " 可用K线不足（" ++ toString df.length ++ " 根），EMA200 策略至少需要 " ++
      toString (WARMUP_BARS + 1) ++ " 根"))
  else
    match detectSignalsCore req.settings df with
    | .error e => .error (.typeError e)
    | .ok signals => .ok { df, state := currentStateCore df, signals }

/-! ## The position of the user -/

/-- `position_config` of a profile; a value that is missing or `null` counts as 0. -/
structure PositionConfigDict where
  totalCapitalWu : Option ℚ
  emergencyRatio : Option ℚ
  altcoinMaxRatio : Option ℚ

def deriveAppetite (posCfg : PositionConfigDict) : RiskAppetite :=
  if posCfg.emergencyRatio.getD 0 ≥ 4 / 10 then .conservative
  else if posCfg.altcoinMaxRatio.getD 0 ≥ 2 / 10 then .aggressive
  else .balanced

def loadPosition (cfg : Option PositionConfigDict) (entry stop : ℚ) (regime : VolatilityRegime) :
    Except ZeroDivisionError PositionPlan :=
  match cfg with
  | none => .ok { sizingNote := "用户未配置仓位管理，前往仓位页面设置后自动计算" }
  | some posCfg =>
      let totalCapital := posCfg.totalCapitalWu.getD 0
      if totalCapital ≤ 0 then .ok { sizingNote := "总资金未设置或为 0" }
      else computePosition entry stop totalCapital (deriveAppetite posCfg) regime

/-! ## The plan -/

structure Plan where
  entry : ℚ
  stop : ℚ
  distanceAtr : ℚ
  targets : List Target
  riskReward : ℚ
  position : PositionPlan

/-- The age of a signal, in bars. -/
def signalAge (core : ScanCore) (signal : Signal) : ℕ := core.df.length - 1 - signal.index

/-- The decision on the most recent signal. -/
def decide (core : ScanCore) : Decision :=
  match core.signals.getLast? with
  | none => evaluateDecision (buildMarketOverview core.state) none 0 999
  | some best => evaluateDecision (buildMarketOverview core.state) (some best) best.qualityScore (signalAge core best)

def planOf (cfg : Option PositionConfigDict) (regime : VolatilityRegime) (direction : Direction) (signal : Signal) :
    Except PlanError Plan :=
  let targets := computeTargets signal.entryPrice signal.stopLoss direction
  -- `latest_signal.get("atr", 1.0) or 1.0`
  let atr := if signal.atr = 0 then 1 else signal.atr
  match loadPosition cfg signal.entryPrice signal.stopLoss regime with
  | .error e => .error (.zeroDivision e)
  | .ok position => .ok
      { entry := signal.entryPrice
        stop := signal.stopLoss
        distanceAtr := roundTo 2 (|signal.entryPrice - signal.stopLoss| / atr)
        targets := targets
        riskReward := roundTo 2 (targets.map fun t => t.rr * t.weight).sum
        position := position }

/-- The plan, when the decision is to trade. -/
def planFor (cfg : Option PositionConfigDict) (core : ScanCore) : Except PlanError (Option Plan) :=
  match (decide core).action, (decide core).direction, core.signals.getLast? with
  | .trade, some direction, some signal =>
      (planOf cfg (buildMarketOverview core.state).volatilityRegime direction signal).map some
  | _, _, _ => .ok none

/-! ## The insight -/

/-- What `json.loads` makes of a text. -/
inductive Loaded
  | invalid
  | object (summary riskNote : Option String)
  | other

structure Insight where
  summary : String
  riskNote : String
  cached : Bool
  deriving DecidableEq

/-- The services around, as the process sees them. -/
structure Outside where
  /-- Python's text of a float -/
  repr : ℚ → String
  loads : String → Loaded
  complete : String → Option String

def optionText (repr : ℚ → String) : Option ℚ → String
  | none => "None"
  | some x => repr x

def buildAiPrompt (repr : ℚ → String) (overview : MarketOverview) (decision : Decision) (plan : Option Plan) : String :=
  let market := ["你是一个加密货币交易分析师。根据以下 RSI 趋势策略数据，用中文给出简短解读。",
    "趋势：" ++ overview.trend.text ++ "，偏离EMA200：" ++ repr overview.deviationPct ++ "%，RSI：" ++
      optionText repr overview.rsi,
    "波动率：" ++ overview.volatilityRegime.text ++ "（ATR%=" ++ optionText repr overview.atrPct ++ "）",
    "决策：" ++ decision.action.text ++ "，方向：" ++ (decision.direction.map directionText).getD "无" ++ "，置信度：" ++
      fmtPercent decision.confidence]
  let trade := match plan with
    | none => []
    | some p =>
        ["入场：" ++ repr p.entry ++ "，止损：" ++ repr p.stop ++ "，TP1：" ++
          optionText repr (p.targets.head?.map Target.price)] ++
        if p.position.configured then ["建议仓位：" ++ optionText repr p.position.positionSizeU ++ " U"] else []
  "\n".intercalate (market ++ trade ++ ["只输出 JSON：\x7b\"summary\":\"≤120字\", \"risk_note\":\"≤80字\"\x7d"])

def parseAiResponse (loads : String → Loaded) (text : String) : Except PlanError (Option Insight) :=
  match loads text with
  | .invalid => .ok (some ⟨String.ofList (text.toList.take 240), "", false⟩)
  | .object none _ => .ok none
  | .object (some summary) riskNote => .ok (some ⟨summary, riskNote.getD "", false⟩)
  | .other => .error .notAnObject

/-- `_AI_CACHE` -/
abbrev AiCache := List (String × Insight)

def AiCache.get? (cache : AiCache) (key : String) : Option Insight := (cache.find? fun e => e.1 = key).map Prod.snd

/-- `getattr(req, "_last_bar_ts", "")`: no request has the attribute. -/
def lastBarTs (_req : ScanRequest) : String := ""

def cacheKey (req : ScanRequest) : String := req.symbol ++ ":" ++ req.interval.text ++ ":" ++ lastBarTs req

def aiInsight (out : Outside) (cache : AiCache) (req : ScanRequest) (prompt : String) :
    AiCache × Except PlanError (Option Insight) :=
  match cache.get? (cacheKey req) with
  | some cached => (cache, .ok (some { cached with cached := true }))
  | none =>
      match out.complete prompt with
      | none => (cache, .ok none)
      | some text =>
          match parseAiResponse out.loads text with
          | .ok (some result) => ((cacheKey req, result) :: cache, .ok (some result))
          | result => (cache, result)

/-- Nothing is asked for without a prompt. -/
def insightFor (out : Outside) (cache : AiCache) (req : ScanRequest) :
    Option String → AiCache × Except PlanError (Option Insight)
  | none => (cache, .ok none)
  | some prompt => aiInsight out cache req prompt

/-! ## `build_plan` -/

structure PlanCall where
  req : ScanRequest
  userId : String
  /-- The candles at the time of the call. -/
  df : List Row
  /-- The position configs that are stored at the time of the call. -/
  profiles : String → Option PositionConfigDict

structure TradingPlan where
  marketOverview : MarketOverview
  decision : Decision
  plan : Option Plan
  history : HistorySummary
  aiInsight : Option Insight

/-- What the insight of a call is asked for with, when the decision is to trade or to watch. -/
def promptOf (repr : ℚ → String) (core : ScanCore) (plan : Option Plan) : Option String :=
  if (decide core).action = .noTrade then none
  else some (buildAiPrompt repr (buildMarketOverview core.state) (decide core) plan)

def buildPlan (out : Outside) (cache : AiCache) (call : PlanCall) : AiCache × Except PlanError TradingPlan :=
  match scanCore call.req call.df with
  | .error e => (cache, .error e)
  | .ok core =>
      match planFor (call.profiles call.userId) core with
      | .error e => (cache, .error e)
      | .ok plan =>
          (insightFor out cache call.req (promptOf out.repr core plan)).map id fun insight =>
            insight.map fun aiInsight =>
              { marketOverview := buildMarketOverview core.state
                decision := decide core
                plan := plan
                history := buildHistorySummary core.signals
                aiInsight := aiInsight }

end CryptoAggHarmonic.RsiPlan
