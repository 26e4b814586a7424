import CryptoAggHarmonic.Infra.KlineCache

/-!
# Historical windows

`fetch_historical_data`: the bridge first, then Binance page by page, or what `fetch_market_data` has of Yahoo.
-/

namespace CryptoAggHarmonic.Infra

open Analyze PyOs

inductive HistoryError
  | unsupportedInterval
  | unsupportedMarket
  | bridgeUnavailable
  | bridgeFailed
  | keyError (column : String)
  /-- A request failed, with the status of the answer where there was one. -/
  | http (status : Option ℕ)
  | apiFailed
  | noData
  deriving DecidableEq

/-! ## Binance -/

structure Kline where
  openTime : ℤ
  openPrice : PyFloat
  high : PyFloat
  low : PyFloat
  close : PyFloat
  volume : PyFloat
  closeTime : ℤ
  deriving DecidableEq

/-- `_to_dataframe` for one row: the close time in seconds, also as a timestamp. -/
def Kline.toRow (k : Kline) : Row where
  openPrice := k.openPrice
  high := k.high
  low := k.low
  close := k.close
  volume := k.volume
  closeTime := k.closeTime / 1000
  dts := k.closeTime / 1000 * 1000000000

/-- The candles of a pair at an exchange, and which requests of the call still fail after their retries. -/
structure Venue where
  klines : List Kline
  failure : ℕ → Option (Option ℕ)

/-- The newest `limit` candles that open at `endTime` at the latest. -/
def Venue.page (v : Venue) (limit : ℕ) (endTime : Option ℤ) : List Kline :=
  (v.klines.filter fun k => endTime.all (k.openTime ≤ ·)).rtake limit

/-- `MAX_CANDLES` -/
def maxCandles : ℕ := 1000

/-- The loop of `_fetch_paginated`. The first argument bounds the requests, `i` counts them. -/
def paginate (v : Venue) (startTime : Option ℤ) (numCandles : ℕ) :
    ℕ → ℕ → Option ℤ → List Kline → Except HistoryError (List Kline)
  | 0, _, _, collected => .ok collected
  | n + 1, i, endTime, collected =>
      if collected.length < numCandles then
        let batchSize := min (numCandles - collected.length) maxCandles
        match v.failure i with
        | some status => .error (.http status)
        | none =>
            -- An empty answer stays empty.
            match (v.page batchSize endTime).filter fun k => startTime.all (· ≤ k.openTime) with
            | [] => .ok collected
            | first :: batch =>
                let collected := first :: batch ++ collected
                if (first :: batch).length < batchSize then .ok collected
                else if startTime.any (first.openTime - 1 < ·) then .ok collected
                else paginate v startTime numCandles n (i + 1) (some (first.openTime - 1)) collected
      else .ok collected

def fetchPaginated (v : Venue) (startTime endTime : Option ℤ) (numCandles : ℕ) : Except HistoryError (List Kline) :=
  paginate v startTime numCandles numCandles 0 endTime []

/-- The requests of `DirectBinanceCandleData.get_candles`: a second venue stands in where the first is geo-blocked. -/
def fetchRows (com us : Venue) (defaultBase : Bool) (numCandles : ℕ) (startTime endTime : Option ℤ) :
    Except HistoryError (List Kline) :=
  match fetchPaginated com startTime endTime numCandles with
  | .ok rows => .ok rows
  | .error e =>
      if e = .http (some 451) ∧ defaultBase then fetchPaginated us startTime endTime numCandles
      else .error .apiFailed

def getCandles (com us : Venue) (defaultBase : Bool) (numCandles : ℕ) (startTime endTime : Option ℤ) :
    Except HistoryError Frame :=
  match fetchRows com us defaultBase numCandles startTime endTime with
  | .error e => .error e
  | .ok [] => .error .noData
  | .ok rows => .ok (.ofRows ((rows.rtake numCandles).map Kline.toRow))

/-! ## TradingView -/

structure TvCandle where
  openTime : ℤ
  openPrice : PyFloat
  high : PyFloat
  low : PyFloat
  close : PyFloat
  volume : PyFloat
  closeTime : ℤ

/-- A row of `fetch_candles`: the open time becomes the timestamp and is dropped. -/
def TvCandle.toRow (k : TvCandle) : Row where
  openPrice := k.openPrice
  high := k.high
  low := k.low
  close := k.close
  volume := k.volume
  closeTime := k.closeTime
  dts := k.openTime * 1000000

/-! ## The window -/

/-- `_INTERVAL_MS` -/
def intervalMs : Text → Option ℤ
  | ['1', '5', 'm'] => some (15 * 60 * 1000)
  | ['1', 'h'] => some (60 * 60 * 1000)
  | ['4', 'h'] => some (4 * 60 * 60 * 1000)
  | ['1', 'd'] => some (24 * 60 * 60 * 1000)
  | ['1', 'w'] => some (7 * 24 * 60 * 60 * 1000)
  | _ => none

/-- A datetime is its microseconds since the epoch. -/
def toMs (dt : ℤ) : ℤ := dt.tdiv 1000

def daysUs (days : ℤ) : ℤ := days * (24 * 60 * 60 * 1000000)

/-- How many candles fit between two times. -/
def estimatedCandles (startMs endMs msPerCandle : ℤ) : ℕ := (max ((endMs - startMs) / msPerCandle) 1 + 1).toNat

/-- Everything outside: the exchanges, the bridge, `fetch_market_data` and the clock. -/
structure World where
  upper : Text → Text
  binanceCom : Text → Text → Venue
  binanceUs : Text → Text → Venue
  /-- An exchange lists the candles of an interval by their opening, no closer than the interval is long. -/
  spaced : ∀ symbol interval ms, intervalMs interval = some ms →
    (binanceCom symbol interval).klines.Pairwise (fun a b => a.openTime + ms ≤ b.openTime) ∧
      (binanceUs symbol interval).klines.Pairwise (fun a b => a.openTime + ms ≤ b.openTime)
  /-- `BASE_URL` is the default one. -/
  defaultBase : Bool
  tradingviewEnabled : Bool
  /-- The two probes of a call. -/
  bridgeHealthy : Bool
  bridgeStillHealthy : Bool
  /-- `fetch_candles(symbol, interval, limit, market, to)` up to its frame; nothing where it raises. -/
  bridgeCandles : Text → Text → ℕ → Text → ℤ → Option (List TvCandle)
  marketData : Request → Answer
  now : ℤ

variable (w : World)

def fetchCandles (symbol interval : Text) (limit : ℕ) (market : Text) (toSeconds : ℤ) :
    Except HistoryError Frame :=
  match w.bridgeCandles symbol interval (min limit 5000) market toSeconds with
  | none => .error .bridgeFailed
  | some [] => .error .bridgeFailed
  | some candles => .ok (.ofRows (candles.map TvCandle.toRow))

/-- `cell >= bound` -/
def Cell.atLeast (bound : ℤ) : Cell → Bool
  | .int n => bound ≤ n
  | _ => false

def fetchTradingviewRange (symbol interval : Text) (start stop : ℤ) (market : Text) : Except HistoryError Frame := do
  if !(w.tradingviewEnabled && w.bridgeStillHealthy) then throw .bridgeUnavailable
  match intervalMs interval with
  | none => throw .unsupportedInterval
  | some msPerCandle =>
      let limit := min (estimatedCandles (toMs start) (toMs stop) msPerCandle + 10) 5000
      let df ← fetchCandles w symbol interval limit market (toMs stop / 1000)
      match df.column? "open_time" with
      | none => throw (.keyError "open_time")
      | some times =>
          let kept := (df.data.zip times).filter fun row => row.2.atLeast (toMs start)
          if kept.isEmpty then throw .noData else return { df with data := kept.map Prod.fst }

/-- The fetcher stops at 50 000 candles. -/
def candleCap : ℕ := 50000

def fetchBinanceRange (symbol interval : Text) (start stop : ℤ) : Except HistoryError Frame :=
  match intervalMs interval with
  | none => .error .unsupportedInterval
  | some msPerCandle =>
      let numCandles := min (estimatedCandles (toMs start) (toMs stop) msPerCandle) candleCap
      getCandles (w.binanceCom (w.upper symbol) interval) (w.binanceUs (w.upper symbol) interval) w.defaultBase
        numCandles (some (toMs start)) (some (toMs stop))

/-- `Interval(interval)` -/
def parseInterval (interval : Text) : Option Interval :=
  [Interval.m1, .m5, .m15, .h1, .h4, .d1, .w1].find? fun i => intervalValue i = interval

def candlesPerDay : Interval → ℕ
  | .m15 => 96
  | .h1 => 24
  | .h4 => 6
  | .d1 => 1
  | .w1 => 1
  | _ => 24

/-- Yahoo knows no dates: the newest candles, a fifth more than the days hold. -/
def fetchYahooRecent (symbol : Text) (interval : Interval) (lookbackDays : ℕ) : Except HistoryError Frame :=
  let request : Request :=
    { series := { market := .yahoo, symbol, interval }, candles := lookbackDays * candlesPerDay interval * 12 / 10 }
  match w.marketData request with
  | .unavailable => .error .apiFailed
  | .cached _ df => if df.data.isEmpty then .error .noData else .ok df
  | .fetched _ df => if df.data.isEmpty then .error .noData else .ok df

/-- What the market has without the bridge. -/
def fetchFallback (market symbol interval : Text) (lookbackDays : ℕ) (start stop : ℤ) : Except HistoryError Frame :=
  if market = marketValue .binance then fetchBinanceRange w symbol interval start stop
  else if market = marketValue .yahoo then
    match parseInterval interval with
    | some i => fetchYahooRecent w symbol i lookbackDays
    | none => .error .unsupportedInterval
  else .error .unsupportedMarket

/-- `stop` is the argument `end`. -/
def fetchHistoricalData (market symbol interval : Text) (lookbackDays : ℕ) (stop : Option ℤ) :
    Except HistoryError Frame :=
  let stop := stop.getD w.now
  let start := stop - daysUs lookbackDays
  if w.tradingviewEnabled && w.bridgeHealthy then
    match fetchTradingviewRange w symbol interval start stop market with
    | .ok df => .ok df
    | .error _ => fetchFallback w market symbol interval lookbackDays start stop
  else fetchFallback w market symbol interval lookbackDays start stop

end CryptoAggHarmonic.Infra
