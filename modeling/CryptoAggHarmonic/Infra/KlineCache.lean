import CryptoAggHarmonic.Python.Files
import Mathlib.Data.Rat.Defs
import Mathlib.Data.NNRat.Defs
import CryptoAggHarmonic.Analyze.Records
import CryptoAggHarmonic.Python.Float
import Mathlib.Data.List.DropRight

/-!
# Frames of candles

A dataframe as its column names and its rows of cells, and the feeds the adapters ask: what has closed at a time, and
the candle that is still forming. The index of a frame is made from its column `dts` and left out.
-/

namespace CryptoAggHarmonic.Infra

open Analyze PyOs

inductive Cell
  | float (x : PyFloat)
  | int (n : ℤ)
  /-- A timestamp, in nanoseconds. -/
  | time (ns : ℤ)
  | text (s : Text)
  deriving DecidableEq

structure Frame where
  columns : List String
  data : List (List Cell)
  deriving DecidableEq

/-- `COLUMNS` -/
def candleColumns : List String := ["open", "high", "low", "close", "volume", "close_time", "dts"]

structure Row where
  openPrice : PyFloat
  high : PyFloat
  low : PyFloat
  close : PyFloat
  volume : PyFloat
  closeTime : ℤ
  dts : ℤ
  deriving DecidableEq

def Row.cells (r : Row) : List Cell :=
  [.float r.openPrice, .float r.high, .float r.low, .float r.close, .float r.volume, .int r.closeTime, .time r.dts]

def Frame.ofRows (rows : List Row) : Frame := { columns := candleColumns, data := rows.map Row.cells }

/-- `df[name]`; nothing where it raises a `KeyError`. -/
def Frame.column? (df : Frame) (name : String) : Option (List Cell) :=
  if name ∈ df.columns then some (df.data.filterMap fun row => row[df.columns.idxOf name]?) else none

def marketValue : Market → Text
  | .binance => "binance".toList
  | .futures => "futures".toList
  | .yahoo => "yahoo".toList

def intervalValue : Interval → Text
  | .m1 => "1m".toList
  | .m5 => "5m".toList
  | .m15 => "15m".toList
  | .h1 => "1h".toList
  | .h4 => "4h".toList
  | .d1 => "1d".toList
  | .w1 => "1w".toList

structure Series where
  market : Market
  symbol : Text
  interval : Interval
  deriving DecidableEq

structure Request where
  series : Series
  candles : ℕ
  deriving DecidableEq

/-! ## Feeds -/

/-- What a source knows at a time. A candle that has closed stays as it is, a forming one stays until it closes. -/
structure Feed where
  closed : Series → ℚ → List Row
  forming : Series → ℚ → Option Row
  grows : ∀ s t t', t ≤ t' → closed s t <+: closed s t'
  lasts : ∀ s t t', t ≤ t' → closed s t = closed s t' → (forming s t).isSome → (forming s t').isSome

namespace Feed

/-- The newest `n` candles, the forming one among them. -/
def newest (f : Feed) (s : Series) (n : ℕ) (t : ℚ) : List Row := (f.closed s t ++ (f.forming s t).toList).rtake n

/-- Those of them that have closed. -/
def due (f : Feed) (s : Series) (n : ℕ) (t : ℚ) : List Row :=
  (f.closed s t).rtake (n - (f.forming s t).toList.length)

end Feed

/-- Where a frame comes from: the bridge to TradingView, or the Binance and Yahoo adapters. -/
inductive Provider
  | tradingview
  | legacy
  deriving DecidableEq

/-- How many candles are asked for: `num_candles or 500` of the bridge, which gives 5000 at most, `num_candles or 1000`
of the others. -/
def Provider.limit : Provider → ℕ → ℕ
  | .tradingview, n => min (if n = 0 then 500 else n) 5000
  | .legacy, n => if n = 0 then 1000 else n

end CryptoAggHarmonic.Infra

/-!
# The cache in memory

`MemoryCache`: an ordered dict of values with the time they expire at, the least recently used first.
-/

namespace CryptoAggHarmonic.Infra

open PyOs

structure MemoryCache (β : Type) where
  maxSize : ℕ
  ttlSeconds : ℤ
  data : List (Text × ℚ × β)

namespace MemoryCache

variable {β : Type}

def get (c : MemoryCache β) (now : ℚ) (key : Text) : MemoryCache β × Option β :=
  match c.data.find? fun item => item.1 = key with
  | none => (c, none)
  | some (_, expiresAt, value) =>
      let others := c.data.filter fun item => item.1 ≠ key
      if now > expiresAt then ({ c with data := others }, none)
      else ({ c with data := others ++ [(key, expiresAt, value)] }, some value)

def set (c : MemoryCache β) (now : ℚ) (key : Text) (value : β) : MemoryCache β :=
  let data := c.data.filter (fun item => item.1 ≠ key) ++ [(key, now + c.ttlSeconds, value)]
  -- The oldest items beyond the capacity go.
  { c with data := data.drop (data.length - c.maxSize) }

def delete (c : MemoryCache β) (key : Text) : MemoryCache β × Bool :=
  if c.data.any fun item => item.1 = key then ({ c with data := c.data.filter fun item => item.1 ≠ key }, true)
  else (c, false)

def clear (c : MemoryCache β) : MemoryCache β := { c with data := [] }

/-- `__init__` -/
def new (maxSize ttlSeconds : ℤ) : Except String (MemoryCache β) :=
  if maxSize ≤ 0 then .error "max_size must be positive"
  else .ok { maxSize := maxSize.toNat, ttlSeconds, data := [] }

inductive Op (β : Type)
  | set (key : Text) (value : β)
  | get (key : Text)
  | delete (key : Text)
  | clear

/-- An operation, at the time the clock shows. -/
def step (c : MemoryCache β) (o : ℚ × Op β) : MemoryCache β :=
  match o.2 with
  | .set key value => c.set o.1 key value
  | .get key => (c.get o.1 key).1
  | .delete key => (c.delete key).1
  | .clear => c.clear

end MemoryCache

end CryptoAggHarmonic.Infra

/-!
# The K-line cache

Frames under a key made of the parameters of the request, in Redis or in memory, and `fetch_market_data` over it. The
hash in a key is kept as what it is taken of.
-/

namespace CryptoAggHarmonic.Infra

open Analyze PyOs

/-! ## Frames as JSON -/

/-- The texts of timestamps: pandas reads back what `isoformat` writes. -/
structure TimeText where
  iso : ℤ → Text
  parse : Text → Option ℤ
  parse_iso : ∀ ns, parse (iso ns) = some ns
  /-- `str(cell)` -/
  str : Cell → Text

structure Payload where
  data : List (List Cell)
  columns : List String
  dts : Option (List Text)
  deriving DecidableEq

namespace TimeText

variable (tt : TimeText)

/-- `json.dumps` with `default=str`: a timestamp becomes a text, every other cell stays. -/
def jsonCell : Cell → Cell
  | .time ns => .text (tt.str (.time ns))
  | c => c

/-- `x.isoformat() if hasattr(x, 'isoformat') else str(x)` -/
def isoCell : Cell → Text
  | .time ns => tt.iso ns
  | c => tt.str c

def encode (df : Frame) : Payload where
  data := df.data.map (·.map tt.jsonCell)
  columns := df.columns
  dts := (df.column? "dts").map (·.map tt.isoCell)

/-- `df["dts"] = cells`, in the place of the column or behind the others. -/
def setDts (df : Frame) (cells : List Cell) : Frame :=
  if "dts" ∈ df.columns then
    { df with data := List.zipWith (fun row c => row.set (df.columns.idxOf "dts") c) df.data cells }
  else { columns := df.columns ++ ["dts"], data := List.zipWith (fun row c => row ++ [c]) df.data cells }

/-- What `get` makes of a payload; nothing where it fails to decode. -/
def decode (p : Payload) : Option Frame :=
  if p.data.all fun row => row.length = p.columns.length then
    match p.dts with
    | none => some { columns := p.columns, data := p.data }
    | some texts =>
        match texts.mapM tt.parse with
        | none => none
        | some times =>
            if times.length = p.data.length then
              some (setDts { columns := p.columns, data := p.data } (times.map .time))
            else none
  else none

end TimeText

/-! ## The cache -/

structure KLineMeta where
  source : Provider
  exchange : Market
  fetchedAt : ℚ
  deriving DecidableEq

structure Entry where
  df : Payload
  info : KLineMeta
  deriving DecidableEq

/-- What `make_key` hashes: `"|".join(str(v) for v in (market, symbol, interval, limit))`. -/
def makeKey (r : Request) : Text :=
  marketValue r.series.market ++ '|' :: (r.series.symbol ++ '|' ::
    (intervalValue r.series.interval ++ '|' :: Nat.toDigits 10 r.candles))

section

variable {β : Type}

inductive Backend (β : Type)
  | redis (data : List (Text × ℚ × β))
  | memory (cache : MemoryCache β)

structure KLineCache (β : Type) where
  enabled : Bool
  ttlSeconds : ℤ
  backend : Backend β

/-- A fresh cache; without Redis it falls back to 256 entries in memory. -/
def KLineCache.new (enabled : Bool) (ttlSeconds : ℤ) (hasRedis : Bool) : KLineCache β where
  enabled := enabled
  ttlSeconds := ttlSeconds
  backend := if hasRedis then .redis [] else .memory { maxSize := 256, ttlSeconds, data := [] }

/-- `_get_raw`; `answers`: Redis raises nothing. -/
def Backend.getRaw (b : Backend β) (answers : Bool) (now : ℚ) (key : Text) : Backend β × Option β :=
  match b with
  | .redis data =>
      let live := (data.find? fun item => item.1 = key).bind fun item => if now < item.2.1 then some item.2.2 else none
      (.redis data, if answers then live else none)
  | .memory cache => (.memory (cache.get now key).1, (cache.get now key).2)

/-- `_set_raw`; Redis refuses a time to live that is not positive. -/
def Backend.setRaw (b : Backend β) (answers : Bool) (ttlSeconds : ℤ) (now : ℚ) (key : Text) (e : β) : Backend β :=
  match b with
  | .redis data =>
      if answers ∧ 0 < ttlSeconds then
        .redis (data.filter (fun item => item.1 ≠ key) ++ [(key, now + ttlSeconds, e)])
      else .redis data
  | .memory cache => .memory (cache.set now key e)

def KLineCache.get (c : KLineCache β) (answers : Bool) (now : ℚ) (key : Text) : KLineCache β × Option β :=
  if c.enabled then
    ({ c with backend := (c.backend.getRaw answers now key).1 }, (c.backend.getRaw answers now key).2)
  else (c, none)

def KLineCache.set (c : KLineCache β) (answers : Bool) (now : ℚ) (key : Text) (e : β) : KLineCache β :=
  if c.enabled then { c with backend := c.backend.setRaw answers c.ttlSeconds now key e } else c

end

/-! ## `fetch_market_data` -/

/-- A call, the time since the one before it, and what it meets. -/
structure Call where
  request : Request
  forceRefresh : Bool
  wait : ℚ≥0
  redisReads : Bool
  redisWrites : Bool
  /-- TradingView is enabled and the bridge is healthy. -/
  bridgeUp : Bool
  tradingviewAnswers : Bool
  legacyAnswers : Bool

inductive Answer
  | cached (info : KLineMeta) (df : Frame)
  | fetched (source : Provider) (df : Frame)
  /-- `MARKET_DATA_UNAVAILABLE` -/
  | unavailable
  deriving DecidableEq

structure State where
  now : ℚ
  cache : KLineCache Entry

variable (tt : TimeText) (feed : Provider → Feed)

def fetchFrom (p : Provider) (r : Request) (now : ℚ) : Frame :=
  .ofRows ((feed p).newest r.series (p.limit r.candles) now)

def entryOf (p : Provider) (r : Request) (now : ℚ) : Entry where
  df := tt.encode (fetchFrom feed p r now)
  info := { source := p, exchange := r.series.market, fetchedAt := now }

/-- The sources in their order; the first that answers is stored. -/
def provider? (c : Call) : Option Provider :=
  if c.bridgeUp ∧ c.tradingviewAnswers then some .tradingview
  else if c.legacyAnswers then some .legacy
  else none

/-- "Fetch from source": what comes is stored. -/
def fetchSources (cache : KLineCache Entry) (now : ℚ) (c : Call) : State × Answer :=
  match provider? c with
  | some p =>
      ({ now, cache := cache.set c.redisWrites now (makeKey c.request) (entryOf tt feed p c.request now) },
        .fetched p (fetchFrom feed p c.request now))
  | none => ({ now, cache }, .unavailable)

/-- "Try cache first (unless force_refresh)" -/
def lookUp (s : State) (c : Call) : KLineCache Entry × Option Entry :=
  if c.forceRefresh then (s.cache, none) else s.cache.get c.redisReads (s.now + c.wait) (makeKey c.request)

def fetchMarketData (s : State) (c : Call) : State × Answer :=
  let now := s.now + c.wait
  let (cache, found) := lookUp s c
  match found.bind fun e => (tt.decode e.df).map fun df => (e.info, df) with
  | some (info, df) => ({ now, cache }, .cached info df)
  | none => fetchSources tt feed cache now c

end CryptoAggHarmonic.Infra
