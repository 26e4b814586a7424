import CryptoAggHarmonic.Domain.Frame
import CryptoAggHarmonic.RsiTrend.Backtest

/-!
# Signal detection of the trend-RSI strategy

`app/domain/strategy_core.py`: the indicator columns and the scan for entry signals, and `run_backtest` of
`app/domain/rsi_trend_backtest.py`, which trades the signals one at a time.
-/

namespace CryptoAggHarmonic.RsiTrend

open Domain

def RSI_WINDOW : ℕ := 14

def ATR_WINDOW : ℕ := 14

def EMA_TREND_SPAN : ℕ := 200

def EMA_FAST_SPAN : ℕ := 50

def PULLBACK_OVERSOLD : ℚ := 40

def PULLBACK_OVERBOUGHT : ℚ := 60

def REWARD_RISK : ℚ := 2

def WARMUP_BARS : ℕ := EMA_TREND_SPAN

/-- A row of the candle frame; `time` is what `_bar_time` gives for it. -/
structure Row where
  openPrice : ℚ
  high : ℚ
  low : ℚ
  close : ℚ
  time : String := ""
  deriving DecidableEq, Repr

/-! ## Indicators -/

/-- A cell of the RSI column, which holds `pd.NA` where neither a gain nor a loss has been seen. -/
inductive Cell
  | num (x : ℚ)
  | nan
  | na
  deriving DecidableEq, Repr

/-- The number in the cell, when `pd.isna` is false. -/
def Cell.value : Cell → Option ℚ
  | .num x => some x
  | .nan => none
  | .na => none

def emaSeries (closes : List ℚ) (span : ℕ) : List ℚ := ewmSpan span closes

/-- `100 - 100 / (1 + gain / loss)` with a zero loss replaced by `pd.NA`, and 100 where there are only gains. -/
def rsiCell (gain loss : ℚ) : Cell :=
  if loss = 0 then if gain > 0 then .num 100 else .na else .num (100 - 100 / (1 + gain / loss))

/-- The averages of the gains and losses of a list of changes, put together. -/
def rsiOfChanges (window : ℕ) (delta : List ℚ) : List Cell :=
  List.zipWith rsiCell (ewm (1 / window) (delta.map (max · 0))) (ewm (1 / window) (delta.map fun d => -min d 0))

/-- The first row has no change, so neither gain nor loss. -/
def rsiSeries (closes : List ℚ) (window : ℕ := RSI_WINDOW) : List Cell :=
  match closes with
  | [] => []
  | _ :: _ => .nan :: rsiOfChanges window (diffs closes)

def trueRange (cur prev : Row) : ℚ :=
  max (max (cur.high - cur.low) |cur.high - prev.close|) |cur.low - prev.close|

/-- The first row has no previous close, and the maximum skips what is NaN. -/
def trueRanges : List Row → List ℚ
  | [] => []
  | row :: rows => (row.high - row.low) :: List.zipWith trueRange rows (row :: rows)

def atrSeries (df : List Row) (window : ℕ := ATR_WINDOW) : List ℚ := ewm (1 / window) (trueRanges df)

/-- `rsi.shift(1)` -/
def shiftRsi : List Cell → List Cell
  | [] => []
  | cell :: cells => .nan :: List.zipWith (fun _ prev => prev) cells (cell :: cells)

structure IndicatorRow where
  row : Row
  ema200 : ℚ
  ema50 : ℚ
  rsi : Cell
  rsiPrev : Cell
  atr : ℚ
  deriving DecidableEq, Repr

/-- `out[name] = column` -/
def assign {α β : Type} (rows : List (α → β)) (column : List α) : List β :=
  List.zipWith (fun row x => row x) rows column

def computeIndicators (df : List Row) : List IndicatorRow :=
  let closes := df.map Row.close
  let rsi := rsiSeries closes
  let out := df.map IndicatorRow.mk
  let out := assign out (emaSeries closes EMA_TREND_SPAN)
  let out := assign out (emaSeries closes EMA_FAST_SPAN)
  let out := assign out rsi
  let out := assign out (shiftRsi rsi)
  assign out (atrSeries df)

/-! ## Quality -/

/-- The side of `x` against `y` that the direction asks for. -/
def favours (direction : Direction) (x y : ℚ) : Bool :=
  match direction with
  | .long => x > y
  | .short => x < y

def signalQuality (direction : Direction) (close ema200 ema50 rsi rsiPrev atr openPrice : ℚ) : ℚ :=
  if atr ≤ 0 then 0
  else
    let displacement := |close - ema200| / atr
    let trendScore := min displacement 10 / 10 * 40
    let ema50Score := if favours direction close ema50 then 20 else 0
    let rsiMomentum := |rsi - rsiPrev|
    let rsiScore := min rsiMomentum 20 / 20 * 25
    let colorScore := if favours direction close openPrice then 15 else 0
    min (trendScore + ema50Score + rsiScore + colorScore) 100

/-! ## Signals -/

structure Signal where
  direction : Direction
  entryPrice : ℚ
  stopLoss : ℚ
  targetPrice : ℚ
  atr : ℚ
  rsi : ℚ
  rsiPrev : ℚ
  qualityScore : ℚ
  time : String
  index : ℕ
  deriving DecidableEq, Repr

/-- What `float(pd.NA)` raises. -/
structure TypeError where
  message : String := "float() argument must be a string or a real number, not 'NAType'"
  deriving DecidableEq, Repr

structure ScanSettings where
  useEma50 : Bool := false
  requireCandleColor : Bool := false
  atrMult : ℚ := 1
  rsiZone : String := "extreme"
  rewardRisk : ℚ := REWARD_RISK
  minQualityScore : ℚ := 0
  shortRsiMin : ℚ := 65
  deriving DecidableEq, Repr

/-- `RSI_ZONES.get(rsi_zone, RSI_ZONES["extreme"])` -/
def rsiZone (zone : String) : ℚ × ℚ :=
  if zone = "pullback" then (PULLBACK_OVERSOLD, PULLBACK_OVERBOUGHT) else (OVERSOLD, OVERBOUGHT)

/-- The two filters on the entry bar that the caller may switch on. -/
def entryFilters (o : ScanSettings) (direction : Direction) (row : IndicatorRow) : Bool :=
  (!o.useEma50 || favours direction row.row.close row.ema50) &&
    (!o.requireCandleColor || favours direction row.row.close row.row.openPrice)

def longEntry (o : ScanSettings) (row : IndicatorRow) (rsiNow rsiPrev : ℚ) (i : ℕ) : Option Signal :=
  let close := row.row.close
  let stop := row.row.low - o.atrMult * row.atr
  let risk := close - stop
  if !entryFilters o .long row then none
  else if risk ≤ 0 then none
  else some
    { direction := .long, entryPrice := close, stopLoss := stop, targetPrice := close + o.rewardRisk * risk
      atr := row.atr, rsi := rsiNow, rsiPrev := rsiPrev
      qualityScore := signalQuality .long close row.ema200 row.ema50 rsiNow rsiPrev row.atr row.row.openPrice
      time := row.row.time, index := i }

def shortEntry (o : ScanSettings) (row : IndicatorRow) (rsiNow rsiPrev : ℚ) (i : ℕ) : Option Signal :=
  let close := row.row.close
  let stop := row.row.high + o.atrMult * row.atr
  let risk := stop - close
  if !entryFilters o .short row then none
  else if o.shortRsiMin > 0 ∧ rsiPrev < o.shortRsiMin then none
  else if risk ≤ 0 then none
  else some
    { direction := .short, entryPrice := close, stopLoss := stop, targetPrice := close - o.rewardRisk * risk
      atr := row.atr, rsi := rsiNow, rsiPrev := rsiPrev
      qualityScore := signalQuality .short close row.ema200 row.ema50 rsiNow rsiPrev row.atr row.row.openPrice
      time := row.row.time, index := i }

/-- One turn of the scan. The ATR is a number on every row. -/
def detectAt (o : ScanSettings) (row : IndicatorRow) (i : ℕ) : Except TypeError (Option Signal) :=
  match row.rsi, row.rsiPrev.value with
  | .na, _ => .error {}
  | .nan, _ => .ok none
  | .num _, none => .ok none
  | .num rsiNow, some rsiPrev =>
      let (oversold, overbought) := rsiZone o.rsiZone
      let crossedUp := rsiPrev ≤ oversold ∧ rsiNow > oversold
      let crossedDown := rsiPrev ≥ overbought ∧ rsiNow < overbought
      .ok (if crossedUp ∧ row.row.close > row.ema200 then longEntry o row rsiNow rsiPrev i
        else if crossedDown ∧ row.row.close < row.ema200 then shortEntry o row rsiNow rsiPrev i
        else none)

/-- The loop over the rows, and the filter on the quality of what it finds. -/
def scan (o : ScanSettings) (rows : List (IndicatorRow × ℕ)) : Except TypeError (List Signal) := do
  let minQs := max 0 (min o.minQualityScore 100)
  let found ← rows.mapM fun x => detectAt o x.1 x.2
  return found.reduceOption.filter fun s => s.qualityScore ≥ minQs

def detectSignalsCore (o : ScanSettings) (df : List Row) : Except TypeError (List Signal) :=
  if df.length ≤ WARMUP_BARS then .ok []
  else scan o ((computeIndicators df).zipIdx.drop WARMUP_BARS)

/-! ## The backtest of all signals -/

/-- The columns of the enriched frame that the simulation reads. -/
def IndicatorRow.bar (row : IndicatorRow) : Bar where
  high := row.row.high
  low := row.row.low
  close := row.row.close
  ema200 := some row.ema200
  ema50 := some row.ema50
  rsi := row.rsi.value
  atr := some row.atr
  time := row.row.time

structure BacktestResult where
  totalSignals : ℕ
  tradesCount : ℕ
  winCount : ℕ
  lossCount : ℕ
  scratchCount : ℕ
  winRate : ℚ
  avgR : ℚ
  totalR : ℚ
  /-- `none` without a win or a loss, infinite without a loss. -/
  profitFactor : Option (WithTop ℚ)
  maxDrawdownR : ℚ
  avgBarsHeld : ℚ
  trades : List StrategyTrade

/-- The loop over the signals: a signal that fires while a trade is open is skipped. Each trade is kept with the
signal it comes from. -/
def takeTrades (o : Settings) (data : List Bar) : ℤ → List StrategySignal →
    Except PyError (List (StrategySignal × StrategyTrade))
  | _, [] => .ok []
  | openUntil, signal :: signals =>
      if (signal.index : ℤ) ≤ openUntil then takeTrades o data openUntil signals
      else do
        let trade ← simulateOne o data signal
        let rest ← takeTrades o data (signal.index + trade.barsHeld) signals
        return (signal, trade) :: rest

/-- One trade on the cumulative-R curve: the curve, its peak and the deepest fall from a peak. -/
def drawdownStep (acc : ℚ × ℚ × ℚ) (r : ℚ) : ℚ × ℚ × ℚ :=
  let (cumulative, peak, maxDd) := acc
  let cumulative := cumulative + r
  let peak := max peak cumulative
  (cumulative, peak, max maxDd (peak - cumulative))

def aggregate (totalSignals : ℕ) (trades : List StrategyTrade) : BacktestResult :=
  let rs := trades.map StrategyTrade.rMultiple
  let wins := rs.filter (· > 0)
  let losses := rs.filter (· < 0)
  let n := trades.length
  let grossWin := wins.sum
  let grossLoss := |losses.sum|
  { totalSignals := totalSignals
    tradesCount := n
    winCount := wins.length
    lossCount := losses.length
    scratchCount := (rs.filter (· = 0)).length
    winRate := if n = 0 then 0 else wins.length / n
    avgR := if n = 0 then 0 else rs.sum / n
    totalR := rs.sum
    profitFactor := if grossLoss > 0 then some ((grossWin / grossLoss : ℚ) : WithTop ℚ)
      else if grossWin = 0 then none else some ⊤
    maxDrawdownR := (rs.foldl drawdownStep (0, 0, 0)).2.2
    avgBarsHeld := if n = 0 then 0 else (trades.map StrategyTrade.barsHeld).sum / n
    trades := trades }

def enrich (df : List Row) : List Bar := (computeIndicators df).map IndicatorRow.bar

def runBacktest (o : Settings) (df : List Row) (signals : List StrategySignal) : Except PyError BacktestResult := do
  let taken ← takeTrades o (enrich df) (-1) signals
  return aggregate signals.length (taken.map Prod.snd)

/-- What the simulation reads of a signal. -/
def Signal.strategySignal (s : Signal) : StrategySignal where
  direction := s.direction
  entryPrice := s.entryPrice
  stopLoss := s.stopLoss
  targetPrice := s.targetPrice
  time := s.time
  index := s.index

def detectSignals (o : ScanSettings) (df : List Row) : Except TypeError (List StrategySignal) :=
  (detectSignalsCore o df).map (List.map Signal.strategySignal)

end CryptoAggHarmonic.RsiTrend
