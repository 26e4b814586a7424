import CryptoAggHarmonic.Domain.Frame
import CryptoAggHarmonic.Python.Float
import CryptoAggHarmonic.Python.Text

/-!
# Market regime

`app/services/market_regime.py`: the trend, the volatility and the economic calendar around a symbol. The candles that
the exchange sends, the calendar table and the clock are part of the input.
-/

namespace CryptoAggHarmonic.Scan

open Domain (mean tailN minOf maxOf diffs ewm ewmSpan)

def EMA_PERIOD : ℕ := 72

def ATR_SHORT : ℕ := 14

def ATR_LONG : ℕ := 20

def SLOPE_UP_THRESHOLD : ℚ := 5 / 10000

def SLOPE_DOWN_THRESHOLD : ℚ := -5 / 10000

def ATR_UPPER_BOUND : ℚ := 2

def ATR_LOWER_BOUND : ℚ := 1 / 2

/-! ## Series -/

structure KeyError where
  key : ℤ
  deriving DecidableEq

/-- What pandas makes of `series[i]` for a number `i`, on a series with the index 0, 1, 2, ...; `none` where it raises. -/
structure Pandas where
  item : {α : Type} → List α → ℤ → Option α

def Pandas.getItem {α : Type} (pd : Pandas) (series : List α) (i : ℤ) : Except KeyError α :=
  match pd.item series i with
  | none => .error ⟨i⟩
  | some x => .ok x

/-- The labels of the index: there is none below 0. -/
def Pandas.byLabel : Pandas where
  item := fun series i => if 0 ≤ i then series[i.toNat]? else none

/-- As in a list, from the end below 0. -/
def Pandas.byPosition : Pandas where
  item := fun series i =>
    if 0 ≤ i then series[i.toNat]? else if i + series.length < 0 then none else series[(i + series.length).toNat]?

structure Bar where
  openPrice : ℚ
  high : ℚ
  low : ℚ
  close : ℚ
  volume : ℚ
  deriving DecidableEq, Repr

def trueRange (bar prev : Bar) : ℚ := max (max (bar.high - bar.low) |bar.high - prev.close|) |bar.low - prev.close|

/-- The first row has no close before it, and the maximum skips what is NaN. -/
def trueRanges : List Bar → List ℚ
  | [] => []
  | bar :: bars => (bar.high - bar.low) :: List.zipWith trueRange bars (bar :: bars)

/-- `rolling(window).mean().iloc[-1]` of a series with at least that many rows. -/
def rollingMean (window : ℕ) (series : List ℚ) : ℚ := mean (tailN window series)

/-! ## The calendar -/

structure DateTime where
  date : ℤ
  hour : ℕ
  deriving DecidableEq

/-- `now_utc.replace(hour=(now_utc.hour + h) % 24)` for the next hours: the date stays. -/
def nextHours (now : DateTime) : List DateTime :=
  (List.range 3).map fun h => { now with hour := (now.hour + h) % 24 }

def datesToCheck (now : DateTime) : List ℤ := ((nextHours now).map DateTime.date).dedup

structure CalendarRow where
  eventDate : ℤ
  eventName : String
  impact : Option String
  deriving DecidableEq

/-- The table `economic_calendar` as the query meets it. -/
inductive Calendar
  | noClient
  | failing
  | table (rows : List CalendarRow)
  deriving DecidableEq

def highImpact (rows : List CalendarRow) (dates : List ℤ) : List CalendarRow :=
  rows.filter fun row => row.eventDate ∈ dates ∧ row.impact = some "high"

/-- `_get_builtin_calendar` -/
def builtinCalendar : List (ℤ × String) := []

def builtinEvent (now : DateTime) : Option String :=
  (List.range 3).findSome? fun ahead =>
    let day := now.date + ahead
    if day ∈ datesToCheck now then (builtinCalendar.find? fun e => e.1 = day).map Prod.snd else none

def builtinClear (now : DateTime) : Bool × Option String :=
  match builtinEvent now with
  | some event => (false, some ("macro_event: " ++ event))
  | none => (true, none)

/-- Whether the next hours are clear of events, and what is in the way. -/
def isEventClear (calendar : Calendar) (now : DateTime) : Bool × Option String :=
  match calendar with
  | .noClient => builtinClear now
  | .failing => builtinClear now
  | .table rows =>
      let data := highImpact rows (datesToCheck now)
      if data = [] then builtinClear now
      else (false, some ("high_impact_events: " ++ ", ".intercalate (data.map CalendarRow.eventName)))

/-! ## The regime -/

inductive MarketRegime
  | bullMarket
  | bearMarket
  | neutral
  deriving DecidableEq, Repr

def MarketRegime.text : MarketRegime → String
  | .bullMarket => "bull_market"
  | .bearMarket => "bear_market"
  | .neutral => "neutral"

structure MarketRegimeResult where
  regime : MarketRegime
  emaSlope : PyFloat
  atrRatio : ℚ
  eventBlocked : Bool
  blockReason : Option String
  bars4h : Option (List Bar)
  deriving DecidableEq

def isUpper (c : Char) : Bool := 'A' ≤ c && c ≤ 'Z'

/-- `^[A-Z]{2,10}USDT?$`, where `$` also stands before a line break at the end. -/
def validSymbol (symbol : String) : Bool :=
  let s := symbol.toList
  let s := if s.getLast? = some '\n' then s.dropLast else s
  ["USD", "USDT"].any fun quote =>
    quote.toList.isSuffixOf s && s.all isUpper && decide (2 + quote.length ≤ s.length ∧ s.length ≤ 10 + quote.length)

/-- `klines` is what the exchange answers, without rows where the call fails. -/
def fetch4hBars (klines : String → List Bar) (symbol : String) : List Bar :=
  if validSymbol symbol then klines symbol else []

def classify (slope : PyFloat) : MarketRegime :=
  if slope.gt (.finite SLOPE_UP_THRESHOLD) then .bullMarket
  else if (PyFloat.finite SLOPE_DOWN_THRESHOLD).gt slope then .bearMarket
  else .neutral

def getMarketRegime (pd : Pandas) (calendar : Calendar) (now : DateTime) (bars : List Bar) :
    Except KeyError MarketRegimeResult :=
  if bars.length < EMA_PERIOD + 2 then
    .ok { regime := .neutral, emaSlope := .finite 0, atrRatio := 1, eventBlocked := false
          blockReason := some "insufficient_data", bars4h := none }
  else do
    let ema := ewmSpan EMA_PERIOD (bars.map Bar.close)
    let last ← pd.getItem ema (-1)
    let prev ← pd.getItem ema (-2)
    let slope := npDiv (last - prev) prev
    let trs := trueRanges bars
    let atr14 := rollingMean ATR_SHORT trs
    let atr20Mean := rollingMean ATR_LONG trs
    let (eventBlocked, blockReason) := isEventClear calendar now
    return { regime := classify slope
             emaSlope := slope
             atrRatio := if atr20Mean > 0 then atr14 / atr20Mean else 1
             eventBlocked := eventBlocked
             blockReason := blockReason
             bars4h := some bars }

def isVolatilityHealthy (atrRatio : ℚ) : Bool := ATR_LOWER_BOUND ≤ atrRatio ∧ atrRatio ≤ ATR_UPPER_BOUND

inductive Direction
  | bullish
  | bearish
  deriving DecidableEq, Repr

def Direction.text : Direction → String
  | .bullish => "bullish"
  | .bearish => "bearish"

def isDirectionAllowed : MarketRegime → Direction → Bool
  | .neutral, _ => true
  | .bullMarket, .bullish => true
  | .bearMarket, .bearish => true
  | _, _ => false

/-! ## Confirmation -/

/-- `_compute_rsi`; the first row has no change. -/
def computeRsi (prices : List ℚ) (period : ℕ) : List PyFloat :=
  match prices with
  | [] => []
  | _ :: _ =>
      let deltas := diffs prices
      let gain := ewm (1 / period) (deltas.map (max · 0))
      let loss := ewm (1 / period) (deltas.map fun d => -min d 0)
      .nan :: List.zipWith (fun gain loss =>
        let rs := gain / if loss = 0 then 1 / 10 ^ 10 else loss
        .finite (100 - 100 / (1 + rs))) gain loss

def RSI_LOOKBACK : ℕ := 14

def computeRsiDivergence (pd : Pandas) (bars : List Bar) : Except KeyError Bool :=
  let lookback := RSI_LOOKBACK
  if bars.length < lookback + 5 then .ok false
  else do
    let prices := bars.map Bar.close
    let rsiVals := computeRsi prices lookback
    -- an array, which goes by position, while the RSI is a series
    let recentPrice := (pySlice prices (-2) (-1)).headD 0
    let priorPrices := pySlice prices (-(lookback + 1)) (-(lookback / 2))
    let priorRsi := pySlice rsiVals (-(lookback + 1)) rsiVals.length
    let recentRsi ← pd.getItem rsiVals (-2)
    let priorRsiLo := (pyMin priorRsi).getD .nan
    let priorRsiHi := (pyMax priorRsi).getD .nan
    return (recentPrice < minOf priorPrices && recentRsi.gt priorRsiLo) ||
      (recentPrice > maxOf priorPrices && priorRsiHi.gt recentRsi)

def isVolumeConfirming (bars : List Bar) : Bool :=
  if bars.length < 10 then true
  else
    let vol := bars.map Bar.volume
    let avgVol := mean (pySlice vol (-10) (-1))
    vol.getLastD 0 ≥ avgVol * (11 / 10)

/-!
# Signal grader

`app/services/signal_grader.py`.
-/

def MIN_SCORE_STRONG : ℤ := 80

def MIN_SCORE_MEDIUM : ℤ := 60

def MIN_RR_RATIO : ℚ := 3 / 2

def PATTERN_SCORE_MAX : ℤ := 40

def CONF_RSI_DIVERGENCE : ℤ := 10

def CONF_VOLUME : ℤ := 10

def CONTEXT_TREND : ℤ := 15

def CONTEXT_ATR : ℤ := 8

def CONTEXT_EVENT : ℤ := 7

inductive Grade
  | strong
  | medium
  | skip
  deriving DecidableEq, Repr

structure GradeResult where
  total : ℤ
  patternScore : ℤ
  confirmScore : ℤ
  contextScore : ℤ
  grade : Grade
  reasons : List String
  passesRr : Bool
  deriving DecidableEq

def directionMatchesRegime (direction : Direction) (regime : MarketRegime) : Bool :=
  (direction = .bullish && regime = .bullMarket) || (direction = .bearish && regime = .bearMarket)

/-- What one check adds to the score, and what it says otherwise. -/
def check (ok : Bool) (points : ℤ) (reason : String) : ℤ × List String := if ok then (points, []) else (0, [reason])

def trendContext (direction : Direction) (regime : MarketRegime) : ℤ × List String :=
  match regime with
  | .neutral => (0, [])
  | regime =>
      if directionMatchesRegime direction regime then (CONTEXT_TREND, [])
      else (CONTEXT_TREND / 3, ["direction_regime_conflict(" ++ direction.text ++ "/" ++ regime.text ++ ")"])

def gradeOf (total : ℤ) : Grade :=
  if total ≥ MIN_SCORE_STRONG then .strong else if total ≥ MIN_SCORE_MEDIUM then .medium else .skip

/-- The score of the pattern is positive, so `int` rounds it down. -/
def gradeSignal (patternScore : ℚ) (rsiDivergence volumeConfirm : Bool) (regimeResult : MarketRegimeResult)
    (direction : Direction) (rrRatio atrRatio : ℚ) (eventClear : Bool) : GradeResult :=
  let pat := ⌊patternScore * PATTERN_SCORE_MAX⌋
  let patternReasons := if (pat : ℚ) < PATTERN_SCORE_MAX * (7 / 10)
    then ["pattern_incomplete(" ++ toString pat ++ "/" ++ toString PATTERN_SCORE_MAX ++ ")"] else []
  let rsi := check rsiDivergence CONF_RSI_DIVERGENCE "no_rsi_divergence"
  let volume := check volumeConfirm CONF_VOLUME "no_volume_confirm"
  let conf := rsi.1 + volume.1
  let trend := trendContext direction regimeResult.regime
  let atr := check (1 / 2 ≤ atrRatio ∧ atrRatio ≤ 2) CONTEXT_ATR ("atr_unhealthy(" ++ fmtFixed 1 atrRatio ++ "x)")
  let event := check eventClear CONTEXT_EVENT "event_blackout"
  let ctx := trend.1 + atr.1 + event.1
  let passesRr := decide (rrRatio ≥ MIN_RR_RATIO)
  let total := min (pat + conf + ctx) 100
  let rrReasons := if passesRr then [] else ["rr_too_low(" ++ fmtFixed 1 rrRatio ++ "<1.5)"]
  let total := if passesRr then total else max (total - 20) 0
  { total := total
    patternScore := pat
    confirmScore := conf
    contextScore := ctx
    grade := gradeOf total
    reasons := patternReasons ++ rsi.2 ++ volume.2 ++ trend.2 ++ atr.2 ++ event.2 ++ rrReasons
    passesRr := passesRr }

end CryptoAggHarmonic.Scan
