import CryptoAggHarmonic.Python.Float
import CryptoAggHarmonic.RsiTrend.Signals

/-!
# The freqtrade adapter of the trend-RSI strategy

`app/strategies/trend_rsi_strategy.py`: the entry rule of `detect_signals_core` a second time, as masks over the
columns of the frame. The indicator columns are given, as a library computes them.
-/

namespace CryptoAggHarmonic.RsiTrend

open Domain

/-- The choices of `buy_rsi_zone`. -/
inductive RsiZone
  | extreme
  | pullback
  deriving DecidableEq, Repr

def RsiZone.name : RsiZone → String
  | .extreme => "extreme"
  | .pullback => "pullback"

/-- `_RSI_ZONES` -/
def RsiZone.bounds : RsiZone → ℚ × ℚ
  | .extreme => (30, 70)
  | .pullback => (40, 60)

structure AdapterSettings where
  buyAtrMult : ℚ := 1
  buyRsiZone : RsiZone := .extreme
  buyShortRsiMin : ℚ := 65
  sellUseEma50 : Bool := false
  requireCandleColor : Bool := false
  deriving DecidableEq, Repr

/-- A row of the frame after `populate_indicators`. -/
structure AdapterRow where
  cells : IndicatorRow
  volume : ℚ
  atrPct : PyFloat
  atrMinPct : ℚ
  oversold : ℚ
  overbought : ℚ
  rsiCrossUp : Bool
  rsiCrossDown : Bool
  deriving DecidableEq, Repr

/-- A comparison of a column with a number, false in the rows without a number. -/
def Cell.test (cell : Cell) (p : ℚ → Bool) : Bool := cell.value.any p

/-- What is added to one row. -/
def adapterRow (p : AdapterSettings) (row : IndicatorRow) (volume : ℚ) : AdapterRow :=
  let (oversold, overbought) := p.buyRsiZone.bounds
  { cells := row
    volume := volume
    atrPct := npDiv row.atr row.row.close
    atrMinPct := 0.005 * p.buyAtrMult
    oversold := oversold
    overbought := overbought
    rsiCrossUp := row.rsiPrev.test (· ≤ oversold) && row.rsi.test (· > oversold)
    rsiCrossDown := row.rsiPrev.test (· ≥ overbought) && row.rsi.test (· < overbought) }

def populateIndicators (p : AdapterSettings) (df : List (IndicatorRow × ℚ)) : List AdapterRow :=
  df.map fun (row, volume) => adapterRow p row volume

def longCond (p : AdapterSettings) (atrMinPct : ℚ) (row : AdapterRow) : Bool :=
  decide (row.cells.row.close > row.cells.ema200) && row.rsiCrossUp && row.atrPct.ge (.finite atrMinPct) &&
    (!p.sellUseEma50 || decide (row.cells.row.close > row.cells.ema50)) &&
    (!p.requireCandleColor || decide (row.cells.row.close > row.cells.row.openPrice)) && decide (row.volume > 0)

/-- The short side does not look at the colour of the candle. -/
def shortCond (p : AdapterSettings) (atrMinPct : ℚ) (row : AdapterRow) : Bool :=
  decide (row.cells.row.close < row.cells.ema200) && row.rsiCrossDown && row.atrPct.ge (.finite atrMinPct) &&
    (!p.sellUseEma50 || decide (row.cells.row.close < row.cells.ema50)) &&
    row.cells.rsiPrev.test (· ≥ p.buyShortRsiMin) && decide (row.volume > 0)

/-- The columns `enter_long`, `enter_short` and `enter_tag` of a row. -/
structure EntryFlags where
  enterLong : Bool
  enterShort : Bool
  enterTag : Option String
  deriving DecidableEq, Repr

/-- The flag of the side. -/
def EntryFlags.enters (flags : EntryFlags) : Direction → Bool
  | .long => flags.enterLong
  | .short => flags.enterShort

/-- Four writes under a mask: the tag of the short side is written last. -/
def entryFlags (p : AdapterSettings) (atrMinPct : ℚ) (row : AdapterRow) : EntryFlags where
  enterLong := longCond p atrMinPct row
  enterShort := shortCond p atrMinPct row
  enterTag := if shortCond p atrMinPct row then some "rsi_short"
    else if longCond p atrMinPct row then some "rsi_long" else none

/-- The volatility floor is read from the first row. -/
def populateEntryTrend (p : AdapterSettings) (df : List AdapterRow) : List EntryFlags :=
  df.map (entryFlags p ((df.head?.map AdapterRow.atrMinPct).getD 0))

/-! ## The two sides on one frame -/

/-- The parameters of the scan that go by the same names, without a floor on the quality. -/
def AdapterSettings.scanSettings (p : AdapterSettings) (rewardRisk : ℚ) : ScanSettings where
  useEma50 := p.sellUseEma50
  requireCandleColor := p.requireCandleColor
  atrMult := p.buyAtrMult
  rsiZone := p.buyRsiZone.name
  rewardRisk := rewardRisk
  shortRsiMin := p.buyShortRsiMin

/-- The rows of the scan, with the volume of each. -/
def adapterEntries (p : AdapterSettings) (candles : List (Row × ℚ)) : List EntryFlags :=
  populateEntryTrend p (populateIndicators p ((computeIndicators (candles.map Prod.fst)).zip (candles.map Prod.snd)))

def EntersAt (entries : List EntryFlags) (direction : Direction) (i : ℕ) : Prop :=
  ∃ flags, entries[i]? = some flags ∧ flags.enters direction = true

/-- The scan returns, and a signal of the direction is on bar `i`. -/
def EmitsAt (o : ScanSettings) (df : List Row) (direction : Direction) (i : ℕ) : Prop :=
  ∃ signals, detectSignalsCore o df = .ok signals ∧ ∃ s ∈ signals, s.direction = direction ∧ s.index = i

/-- The adapter enters exactly where the scan has a signal. -/
def SameBars (p : AdapterSettings) (rewardRisk : ℚ) (candles : List (Row × ℚ)) : Prop :=
  ∀ direction i, EntersAt (adapterEntries p candles) direction i ↔
    WARMUP_BARS ≤ i ∧ EmitsAt (p.scanSettings rewardRisk) (candles.map Prod.fst) direction i

end CryptoAggHarmonic.RsiTrend
