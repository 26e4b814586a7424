import CryptoAggHarmonic.Lib.Steps
import CryptoAggHarmonic.Domain.Signals

/-!
# The backtest of the trend-RSI strategy

`app/domain/rsi_trend_backtest.py`: one trade from its signal bar to its exit. A bar is a row of the indicator frame;
`none` is a NaN, and `time` is what `bar_time` gives for the row.
-/

namespace CryptoAggHarmonic.RsiTrend

open Domain

def OVERSOLD : ℚ := 30

def OVERBOUGHT : ℚ := 70

structure Bar where
  high : ℚ
  low : ℚ
  close : ℚ
  ema200 : Option ℚ
  ema50 : Option ℚ
  rsi : Option ℚ
  atr : Option ℚ
  time : String := ""
  deriving DecidableEq, Repr

/-- The columns `exit_ema` may name. -/
inductive ExitEma
  | ema200
  | ema50
  deriving DecidableEq, Repr

def Bar.column (bar : Bar) : ExitEma → Option ℚ
  | .ema200 => bar.ema200
  | .ema50 => bar.ema50

/-- The fields of a `StrategySignal` that the simulation reads. -/
structure StrategySignal where
  direction : Direction
  entryPrice : ℚ
  stopLoss : ℚ
  targetPrice : ℚ
  time : String := ""
  index : ℕ
  deriving DecidableEq, Repr

inductive ExitReason
  | stopLoss
  | target
  | partialTarget
  | rsiExtreme
  | trendFlip
  | endOfData
  | ttl
  deriving DecidableEq, Repr

/-- `fraction` is of the original position, `rMultiple` is weighted with it. -/
structure PartialExit where
  fraction : ℚ
  price : ℚ
  rMultiple : ℚ
  reason : ExitReason
  time : String
  deriving DecidableEq, Repr

structure StrategyTrade where
  direction : Direction
  entryPrice : ℚ
  entryTime : String
  stopLoss : ℚ
  targetPrice : ℚ
  exitPrice : ℚ
  exitTime : String
  exitReason : ExitReason
  rMultiple : ℚ
  barsHeld : ℤ
  partials : List PartialExit
  deriving DecidableEq, Repr

structure Settings where
  partialMode : Bool := false
  trailingStop : Bool := false
  exitEma : ExitEma := .ema200
  ttlBars : ℤ := 0
  deriving DecidableEq, Repr

def rMultiple (direction : Direction) (entry initialStop price : ℚ) : ℚ :=
  let risk := |entry - initialStop|
  if risk ≤ 0 then 0
  else match direction with
    | .long => (price - entry) / risk
    | .short => (entry - price) / risk

def StrategySignal.r (signal : StrategySignal) (price : ℚ) : ℚ :=
  rMultiple signal.direction signal.entryPrice signal.stopLoss price

/-! ## The state of an open trade -/

structure TradeState where
  remaining : ℚ := 1
  realizedR : ℚ := 0
  stop : ℚ
  t1Done : Bool := false
  rsiDone : Bool := false
  trailingActive : Bool := false
  partials : List PartialExit := []
  exitPrice : ℚ
  exitTime : String
  exitReason : ExitReason := .endOfData
  exitIndex : ℕ
  deriving DecidableEq, Repr

def TradeState.start (signal : StrategySignal) : TradeState where
  stop := signal.stopLoss
  exitPrice := signal.entryPrice
  exitTime := signal.time
  exitIndex := signal.index

def TradeState.closeAll (st : TradeState) (signal : StrategySignal) (price : ℚ) (reason : ExitReason) (i : ℕ)
    (time : String) : TradeState :=
  { st with
    exitPrice := price
    exitReason := reason
    realizedR := st.realizedR + st.remaining * signal.r price
    remaining := 0
    exitIndex := i
    exitTime := time }

def TradeState.reduce (st : TradeState) (signal : StrategySignal) (price : ℚ) (reason : ExitReason)
    (time : String) : TradeState :=
  let half := st.remaining * (1 / 2)
  let r := signal.r price
  { st with
    realizedR := st.realizedR + half * r
    partials := st.partials ++ [⟨half, price, half * r, reason, time⟩]
    remaining := st.remaining - half }

/-! ## One bar -/

def stopHit (direction : Direction) (bar : Bar) (stop : ℚ) : Bool :=
  match direction with
  | .long => bar.low ≤ stop
  | .short => bar.high ≥ stop

def targetHit (direction : Direction) (bar : Bar) (target : ℚ) : Bool :=
  match direction with
  | .long => bar.high ≥ target
  | .short => bar.low ≤ target

/-- The first target in partial mode: half is closed and the stop goes to breakeven. -/
def takeTarget (o : Settings) (signal : StrategySignal) (bar : Bar) (st : TradeState) : TradeState :=
  { st.reduce signal signal.targetPrice .partialTarget bar.time with
    t1Done := true
    stop := signal.entryPrice
    trailingActive := o.trailingStop }

def rsiExtreme (direction : Direction) (bar : Bar) : Bool :=
  match direction with
  | .long => bar.rsi.any (· > OVERBOUGHT)
  | .short => bar.rsi.any (· < OVERSOLD)

def reduceOnRsi (o : Settings) (signal : StrategySignal) (bar : Bar) (st : TradeState) : TradeState :=
  if o.partialMode && st.t1Done && !st.rsiDone && rsiExtreme signal.direction bar then
    { st.reduce signal bar.close .rsiExtreme bar.time with rsiDone := true }
  else st

/-- The stop follows the close at one ATR, and only forward. -/
def trail (signal : StrategySignal) (bar : Bar) (st : TradeState) : TradeState :=
  match st.trailingActive, bar.atr with
  | true, some atr =>
      match signal.direction with
      | .long => if bar.close - atr > st.stop then { st with stop := bar.close - atr } else st
      | .short => if bar.close + atr < st.stop then { st with stop := bar.close + atr } else st
  | _, _ => st

def flipped (o : Settings) (direction : Direction) (bar : Bar) : Bool :=
  match direction with
  | .long => (bar.column o.exitEma).any (bar.close < ·)
  | .short => (bar.column o.exitEma).any (bar.close > ·)

def firstTargetHit (signal : StrategySignal) (bar : Bar) (st : TradeState) : Bool :=
  targetHit signal.direction bar signal.targetPrice && !st.t1Done

/-- What the bar does to a trade it closes neither at the stop nor at the target: steps 2, 3 and 3b. -/
def manage (o : Settings) (signal : StrategySignal) (bar : Bar) (st : TradeState) : TradeState :=
  let st := if firstTargetHit signal bar st then takeTarget o signal bar st else st
  trail signal bar (reduceOnRsi o signal bar st)

/-- One turn of the loop. On the signal bar itself only the stop counts. -/
def stepBar (o : Settings) (signal : StrategySignal) (st : TradeState) (x : Bar × ℕ) : ForInStep TradeState :=
  let (bar, i) := x
  if stopHit signal.direction bar st.stop then .done (st.closeAll signal st.stop .stopLoss i bar.time)
  else if i > signal.index then
    if firstTargetHit signal bar st && !o.partialMode then
      .done (st.closeAll signal signal.targetPrice .target i bar.time)
    else
      let st := manage o signal bar st
      if flipped o signal.direction bar then .done (st.closeAll signal bar.close .trendFlip i bar.time)
      else if 0 < o.ttlBars ∧ o.ttlBars ≤ (i : ℤ) - signal.index then
        .done (st.closeAll signal bar.close .ttl i bar.time)
      else .yield st
  else .yield st

/-! ## The trade -/

def tradeOf (signal : StrategySignal) (st : TradeState) : StrategyTrade where
  direction := signal.direction
  entryPrice := signal.entryPrice
  entryTime := signal.time
  stopLoss := signal.stopLoss
  targetPrice := signal.targetPrice
  exitPrice := st.exitPrice
  exitTime := st.exitTime
  exitReason := st.exitReason
  rMultiple := st.realizedR
  barsHeld := (st.exitIndex : ℤ) - signal.index
  partials := st.partials

/-- The bars from the signal on, with their positions. -/
def barsFrom (data : List Bar) (index : ℕ) : List (Bar × ℕ) := data.zipIdx.drop index

def simulateOne (o : Settings) (data : List Bar) (signal : StrategySignal) : Except PyError StrategyTrade :=
  let st := Loops.run (stepBar o signal) (TradeState.start signal) (barsFrom data signal.index)
  if st.remaining > 0 then
    match data.getLast? with
    | none => .error .indexError
    | some last =>
        .ok (tradeOf signal (st.closeAll signal last.close .endOfData (data.length - 1) last.time))
  else .ok (tradeOf signal st)

end CryptoAggHarmonic.RsiTrend
