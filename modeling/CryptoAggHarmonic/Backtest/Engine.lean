import CryptoAggHarmonic.Python.Basic
import CryptoAggHarmonic.Domain.Frame
import CryptoAggHarmonic.Domain.Signals
import Mathlib.Algebra.Order.Group.Unbundled.Abs
import Mathlib.Order.WithBot

/-!
# The event-driven backtest engine

`app/services/vibe/backtest_engine.py`. A frame always has its OHLC columns; the label of a row is its timestamp.
-/

namespace CryptoAggHarmonic.Backtest

open Domain

inductive TradeResult
  | win
  | loss
  | scratch
  deriving DecidableEq, Repr

structure Trade where
  direction : Direction
  entryPrice : ℚ
  stopLoss : ℚ
  targetPrice : ℚ
  exitPrice : ℚ
  result : TradeResult
  rMultiple : ℚ := 0
  entryTime : Option ℤ := none
  exitTime : Option ℤ := none
  feesPaid : ℚ := 0
  slippagePaid : ℚ := 0
  fundingPaid : ℚ := 0
  notionalRisk : ℚ := 0
  deriving DecidableEq, Repr

structure BacktestConfig where
  feeBps : ℚ := 0
  slippageBps : ℚ := 0
  fundingBpsPer8h : ℚ := 0
  leverage : ℤ := 1
  barHours : ℚ := 1
  deriving DecidableEq, Repr

structure Levels where
  direction : Direction
  entryPrice : ℚ
  effEntry : ℚ
  effStop : ℚ
  effTarget : ℚ
  deriving DecidableEq, Repr

/-- The worse side of every fill. -/
def levelsOf (direction : Direction) (entryPrice stopLoss targetPrice slip : ℚ) : Levels where
  direction := direction
  entryPrice := entryPrice
  effEntry := if direction = .long then entryPrice * (1 + slip) else entryPrice * (1 - slip)
  effStop := if direction = .long then stopLoss * (1 - slip) else stopLoss * (1 + slip)
  effTarget := if direction = .long then targetPrice * (1 - slip) else targetPrice * (1 + slip)

structure Costs where
  fee : ℚ
  fundingPerBar : ℚ
  deriving DecidableEq, Repr

def BacktestConfig.slip (cfg : BacktestConfig) : ℚ := cfg.slippageBps / 10000

def BacktestConfig.costs (cfg : BacktestConfig) : Costs where
  fee := cfg.feeBps / 10000
  fundingPerBar := cfg.fundingBpsPer8h / 10000 * (cfg.barHours / 8)

/-- Exit price and result of one candle, if it touches a level: the closer one, and on a tie the stop. -/
def resolveExit (direction : Direction) (low high entryPrice stopLoss targetPrice : ℚ) :
    Option (ℚ × TradeResult) :=
  match direction with
  | .long =>
      let stopHit : Bool := low ≤ stopLoss
      let targetHit : Bool := high ≥ targetPrice
      if !stopHit && !targetHit then none
      else if stopHit && targetHit then
        if entryPrice - stopLoss ≤ targetPrice - entryPrice then some (stopLoss, .loss) else some (targetPrice, .win)
      else if stopHit then some (stopLoss, .loss)
      else some (targetPrice, .win)
  | .short =>
      let stopHit : Bool := high ≥ stopLoss
      let targetHit : Bool := low ≤ targetPrice
      if !stopHit && !targetHit then none
      else if stopHit && targetHit then
        if stopLoss - entryPrice ≤ entryPrice - targetPrice then some (stopLoss, .loss) else some (targetPrice, .win)
      else if stopHit then some (stopLoss, .loss)
      else some (targetPrice, .win)

def Levels.exitOn (lv : Levels) (row : Candle) : Option (ℚ × TradeResult) :=
  resolveExit lv.direction row.low row.high lv.effEntry lv.effStop lv.effTarget

def Levels.touchedBy (lv : Levels) (row : Candle) : Bool := row.low ≤ lv.entryPrice && lv.entryPrice ≤ row.high

/-- `_close_trade`, with the closure's `bars_in_trade`. -/
def closeTrade (c : Costs) (barsInTrade : ℕ) (t : Trade) (exitPrice : ℚ) (result : TradeResult) (exitTime : ℤ) :
    Trade :=
  let fundingPaid := c.fundingPerBar * barsInTrade * exitPrice
  let feesPaid := c.fee * (t.entryPrice + exitPrice)
  let risk := |t.entryPrice - t.stopLoss|
  let reward := |exitPrice - t.entryPrice|
  let netR := reward / risk - (feesPaid + fundingPaid) / risk
  { t with
    exitPrice := exitPrice
    result := result
    exitTime := some exitTime
    fundingPaid := fundingPaid
    feesPaid := feesPaid
    slippagePaid := 0
    notionalRisk := risk
    rMultiple := if risk ≤ 0 then 0 else if result = .loss then -|netR| else netR }

/-- The variables of the loop; a position is open when there is a trade. -/
structure SimState where
  trades : List Trade := []
  trade : Option Trade := none
  lastTimestamp : Option ℤ := none
  lastClose : ℚ := 0
  barsInTrade : ℕ := 0

def openTrade (lv : Levels) (timestamp : ℤ) : Trade where
  direction := lv.direction
  entryPrice := lv.effEntry
  stopLoss := lv.effStop
  targetPrice := lv.effTarget
  exitPrice := 0
  result := .scratch
  entryTime := some timestamp

def stepRow (lv : Levels) (c : Costs) (s : SimState) (row : Candle) : SimState :=
  let s := { s with lastTimestamp := some row.index, lastClose := row.close }
  match s.trade with
  | none =>
      if lv.touchedBy row then
        let trade := openTrade lv row.index
        match lv.exitOn row with
        | some (exitPrice, result) =>
            { s with trades := s.trades ++ [closeTrade c 0 trade exitPrice result row.index], barsInTrade := 0 }
        | none => { s with trade := some trade, barsInTrade := 1 }
      else s
  | some trade =>
      let s := { s with barsInTrade := s.barsInTrade + 1 }
      match lv.exitOn row with
      | some (exitPrice, result) =>
          { s with
            trades := s.trades ++ [closeTrade c s.barsInTrade trade exitPrice result row.index]
            trade := none }
      | none => s

/-- A trade still open at the end is a scratch at the last close. -/
def scratchTrade (c : Costs) (s : SimState) (t : Trade) (timestamp : ℤ) : Trade :=
  let fundingPaid := c.fundingPerBar * s.barsInTrade * s.lastClose
  let feesPaid := c.fee * (t.entryPrice + s.lastClose)
  let risk := |t.entryPrice - t.stopLoss|
  { t with
    exitPrice := s.lastClose
    result := .scratch
    exitTime := some timestamp
    fundingPaid := fundingPaid
    feesPaid := feesPaid
    notionalRisk := risk
    rMultiple := if risk > 0 then 0 - (feesPaid + fundingPaid) / risk else t.rMultiple }

def finish (c : Costs) (s : SimState) : List Trade :=
  match s.trade, s.lastTimestamp with
  | some t, some timestamp => s.trades ++ [scratchTrade c s t timestamp]
  | _, _ => s.trades

def ValidLevels (direction : Direction) (entryPrice stopLoss targetPrice : ℚ) : Prop :=
  match direction with
  | .long => stopLoss < entryPrice ∧ entryPrice < targetPrice
  | .short => entryPrice < stopLoss ∧ targetPrice < entryPrice

instance (direction : Direction) (entryPrice stopLoss targetPrice : ℚ) :
    Decidable (ValidLevels direction entryPrice stopLoss targetPrice) := by
  unfold ValidLevels; cases direction <;> infer_instance

def levelsError : Direction → PyError
  | .long => .valueError "Long trade requires stop < entry < target"
  | .short => .valueError "Short trade requires stop > entry > target"

def simulateTrades (df : Frame) (direction : Direction) (entryPrice stopLoss targetPrice : ℚ)
    (config : Option BacktestConfig) : Except PyError (List Trade) :=
  if df.rows = [] then .ok []
  else if ¬ ValidLevels direction entryPrice stopLoss targetPrice then .error (levelsError direction)
  else
    let cfg := config.getD {}
    if cfg.leverage < 1 then .error (.valueError "leverage must be a positive integer")
    else
      let lv := levelsOf direction entryPrice stopLoss targetPrice cfg.slip
      .ok (finish cfg.costs (df.rows.foldl (stepRow lv cfg.costs) {}))

/-!
# Metrics of simulated trades

`compute_metrics` of `app/services/vibe/backtest_engine.py`.
-/

structure BacktestSummary where
  totalSignals : ℕ := 0
  winCount : ℕ := 0
  lossCount : ℕ := 0
  scratchCount : ℕ := 0
  winRate : ℚ := 0
  avgRr : ℚ := 0
  /-- Infinite without a loss. -/
  profitFactor : WithTop ℚ := 0
  maxDrawdown : ℚ := 0
  totalR : ℚ := 0
  trades : List Trade := []
  configUsed : Option BacktestConfig := none
  totalFees : ℚ := 0
  totalSlippage : ℚ := 0
  totalFunding : ℚ := 0
  isLowSample : Bool := false
  minTradesRequired : ℤ := 30

def countOf (trades : List Trade) (result : TradeResult) : ℕ := (trades.filter (·.result = result)).length

/-- One trade on the equity curve: the equity, its peak and the deepest drawdown. -/
def drawdownStep (acc : ℚ × ℚ × ℚ) (r : ℚ) : ℚ × ℚ × ℚ :=
  let (equity, peak, maxDd) := acc
  let equity := equity + r
  let peak := max peak equity
  let dd := peak - equity
  (equity, peak, if dd > maxDd then dd else maxDd)

/-- `sum(wins) / sum(losses)`; no result is a `ZeroDivisionError`. -/
def profitFactor (trades : List Trade) : Option (WithTop ℚ) :=
  let wins := (trades.filter (·.result = .win)).map Trade.rMultiple
  let losses := (trades.filter (·.result = .loss)).map fun t => |t.rMultiple|
  if losses = [] then some ⊤
  else if losses.sum = 0 then none
  else some ((wins.sum / losses.sum : ℚ) : WithTop ℚ)

/-- `compute_metrics`; no result is a `ZeroDivisionError`. -/
def computeMetrics (trades : List Trade) (config : Option BacktestConfig) (minTrades : ℤ) : Option BacktestSummary :=
  let summary : BacktestSummary :=
    { trades := trades
      configUsed := config
      isLowSample := decide ((trades.length : ℤ) < minTrades)
      minTradesRequired := minTrades }
  if trades = [] then some summary
  else do
    let n := trades.length
    let rs := trades.map Trade.rMultiple
    let factor ← profitFactor trades
    return { summary with
      totalSignals := n
      winCount := countOf trades .win
      lossCount := countOf trades .loss
      scratchCount := countOf trades .scratch
      winRate := countOf trades .win / n
      avgRr := rs.sum / n
      totalR := rs.sum
      totalFees := (trades.map Trade.feesPaid).sum
      totalSlippage := (trades.map Trade.slippagePaid).sum
      totalFunding := (trades.map Trade.fundingPaid).sum
      profitFactor := factor
      maxDrawdown := (rs.foldl drawdownStep (0, 0, 0)).2.2 }

end CryptoAggHarmonic.Backtest
