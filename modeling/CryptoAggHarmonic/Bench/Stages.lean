import CryptoAggHarmonic.Backtest.Engine
import CryptoAggHarmonic.Bench.Record
import CryptoAggHarmonic.Lib.HalfEven

/-!
# The backtest of one signal

`bench/pipeline/stage2_backtest.py` and `bench/pipeline/trade_metrics.py`: the engine on the forward frame, and what is
measured on the bars of the trade.
-/

namespace CryptoAggHarmonic.Bench

open Domain Backtest

inductive Raised
  | error (e : PyError)
  /-- `int(mask)`, where a label of the index is not unique. -/
  | typeError
  deriving DecidableEq, Repr

def valueError {α : Type} (message : String) : Except Raised α := .error (.error (.valueError message))

/-! ## The metrics of a trade -/

/-- The variables of the walk over the bars. -/
structure Walk where
  maePrice : ℚ := 0
  mfePrice : ℚ := 0
  maeBarIndex : Option ℕ := none
  stopZoneTouches : ℕ := 0
  hitStop : Bool := false
  hitTarget : Bool := false
  deriving DecidableEq, Repr

structure TradeMetrics where
  mae : ℚ
  mfe : ℚ
  maeAtrRatio : ℚ
  mfeAtrRatio : ℚ
  callbackDepth : ℚ
  callbackBars : ℕ
  callbackVolumeRatio : Option ℚ
  hitStopBeforeTp : Bool
  stopZoneTouches : ℕ
  deriving DecidableEq, Repr

/-- `_stop_zone` -/
def stopZone (stopPrice atr zoneAtr : ℚ) : ℚ × ℚ := (stopPrice - atr * zoneAtr, stopPrice + atr * zoneAtr)

def walkBar (direction : Direction) (entryPrice stopPrice targetPrice : ℚ) (zone : ℚ × ℚ) (w : Walk)
    (x : Candle × ℕ) : Walk :=
  let (row, i) := x
  let barMae := match direction with
    | .long => max (entryPrice - row.low) 0
    | .short => max (row.high - entryPrice) 0
  let barMfe := match direction with
    | .long => max (row.high - entryPrice) 0
    | .short => max (entryPrice - row.low) 0
  let stopHit := match direction with
    | .long => decide (row.low ≤ stopPrice)
    | .short => decide (row.high ≥ stopPrice)
  let targetHit := match direction with
    | .long => decide (row.high ≥ targetPrice)
    | .short => decide (row.low ≤ targetPrice)
  let inStopZone := decide (row.low ≤ zone.2 ∧ row.high ≥ zone.1)
  { maePrice := if barMae > w.maePrice then barMae else w.maePrice
    mfePrice := if barMfe > w.mfePrice then barMfe else w.mfePrice
    maeBarIndex := if barMae > w.maePrice then some i else w.maeBarIndex
    stopZoneTouches := if inStopZone then w.stopZoneTouches + 1 else w.stopZoneTouches
    hitStop := w.hitStop || stopHit && !w.hitTarget
    hitTarget := w.hitTarget || targetHit }

/-- `_callback_volume_ratio` -/
def callbackVolumeRatio (rows : List Candle) (maeBarIndex : Option ℕ) : Option ℚ :=
  match maeBarIndex with
  | none => none
  | some 0 => none
  | some (k + 1) =>
      let volumes := rows.map Candle.volume
      let preMean := mean (volumes.take (k + 1))
      if preMean ≤ 0 then none else some (mean (volumes.take (k + 2)) / preMean)

def computeTradeMetrics (rows : List Candle) (entryPrice stopPrice targetPrice : ℚ) (direction : Direction)
    (atrAtEntry : ℚ) : Except Raised TradeMetrics :=
  if rows.isEmpty then valueError "DataFrame is empty"
  else if entryPrice ≤ 0 ∨ stopPrice ≤ 0 ∨ targetPrice ≤ 0 then valueError "prices must be positive"
  else if atrAtEntry ≤ 0 then valueError "atr_at_entry must be positive"
  else if direction = .long ∧ ¬ (stopPrice < entryPrice ∧ entryPrice < targetPrice) then
    valueError "Long requires stop < entry < target"
  else if direction = .short ∧ ¬ (stopPrice > entryPrice ∧ entryPrice > targetPrice) then
    valueError "Short requires stop > entry > target"
  else
    let w := rows.zipIdx.foldl
      (walkBar direction entryPrice stopPrice targetPrice (stopZone stopPrice atrAtEntry 0.1)) {}
    .ok
      { mae := w.maePrice
        mfe := w.mfePrice
        maeAtrRatio := w.maePrice / atrAtEntry
        mfeAtrRatio := w.mfePrice / atrAtEntry
        callbackDepth := w.maePrice / atrAtEntry
        callbackBars := w.maeBarIndex.elim 0 (· + 1)
        callbackVolumeRatio := callbackVolumeRatio rows w.maeBarIndex
        hitStopBeforeTp := w.hitStop && !w.hitTarget
        stopZoneTouches := w.stopZoneTouches }

def findTpBar (rows : List Candle) (direction : Direction) (targetPrice : ℚ) : Option ℕ :=
  rows.findIdx? fun row => match direction with
    | .long => decide (row.high ≥ targetPrice)
    | .short => decide (row.low ≤ targetPrice)

def priceEfficiencyFor (outcome : Outcome) (tpBarIndex : Option ℕ) (totalBarsHeld : ℕ) : ℚ :=
  match outcome with
  | .tp3 | .tp2 | .tp1 =>
      match tpBarIndex with
      | none => 0
      | some bar => if totalBarsHeld = 0 then 0 else min (bar / totalBarsHeld) 1
  | _ => 0

/-- The write-back leaves out what is `None`. -/
def writeMetrics (rec : SignalRecord) (m : TradeMetrics) : SignalRecord :=
  { rec with
    mae := some m.mae
    mfe := some m.mfe
    maeAtrRatio := some m.maeAtrRatio
    mfeAtrRatio := some m.mfeAtrRatio
    callbackDepth := some m.callbackDepth
    callbackBars := some m.callbackBars
    callbackVolumeRatio := m.callbackVolumeRatio.or rec.callbackVolumeRatio
    hitStopBeforeTp := some m.hitStopBeforeTp
    stopZoneTouches := some m.stopZoneTouches }

/-- The prices have been looked at by the caller. -/
def applyTradeMetrics (rec : SignalRecord) (rows : List Candle) (entryPrice stopPrice tp1 : ℚ) :
    Except Raised SignalRecord := do
  let m ← computeTradeMetrics rows entryPrice stopPrice tp1 rec.direction rec.atrAtEntry
  return { writeMetrics rec m with
    priceEfficiency := match rec.outcome, rec.barsHeld with
      | some outcome, some (held + 1) =>
          some (priceEfficiencyFor outcome (findTpBar rows rec.direction tp1) (held + 1))
      | _, _ => none }

/-! ## The stage -/

/-- `_row_position`. Of a label that stands more than once, a sorted index gives the first position. -/
def rowPosition (df : Frame) (ts : Option ℤ) : Except Raised (Option ℕ) :=
  match ts with
  | none => .ok none
  | some ts =>
      let labels := df.rows.map Candle.index
      if ts ∉ labels then .ok none
      else if labels.count ts = 1 ∨ labels.Pairwise (· ≤ ·) then .ok (some (labels.idxOf ts))
      else .error .typeError

def outcomeOf (rMultiple : ℚ) : Outcome :=
  if rMultiple > 0 then .tp1 else if rMultiple = 0 then .breakeven else .stoploss

/-- The record with what the trade comes to, and with its metrics over the bars it was held. -/
def fillTrade (rec : SignalRecord) (forwardDf : Frame) (target entryPrice stopPrice : ℚ) (trade : Trade) :
    Except Raised SignalRecord := do
  match ← rowPosition forwardDf trade.entryTime, ← rowPosition forwardDf trade.exitTime with
  | some entryPos, some exitPos =>
      if exitPos < entryPos then valueError "could not resolve entry/exit positions"
      else
        applyTradeMetrics
          { rec with
            tp1 := rec.tp1.or (some target)
            outcome := some (outcomeOf trade.rMultiple)
            rMultiple := some (some trade.rMultiple)
            barsHeld := some (exitPos - entryPos + 1) }
          (slice entryPos (exitPos + 1) forwardDf.rows) entryPrice stopPrice (rec.tp1.getD target)
  | _, _ => valueError "could not resolve entry/exit positions"

/-- The record after a run without a trade. -/
def SignalRecord.cleared (rec : SignalRecord) (target : ℚ) : SignalRecord :=
  { rec with tp1 := rec.tp1.or (some target), outcome := none, rMultiple := some none, barsHeld := none }

/-- The first of the trades goes into the record. -/
def fillRecord (rec : SignalRecord) (forwardDf : Frame) (target entryPrice stopPrice : ℚ) :
    List Trade → Except Raised (SignalRecord × Option Trade)
  | [] => .ok (rec.cleared target, none)
  | trade :: _ => do
      let filled ← fillTrade rec forwardDf target entryPrice stopPrice trade
      return (filled, some trade)

def stage2Backtest (rec : SignalRecord) (forwardDf : Frame) (tp1 : Option ℚ) :
    Except Raised (SignalRecord × Option Trade) :=
  match tp1.or rec.tp1, rec.entryPrice, rec.stopPrice with
  | none, _, _ => valueError "rec.tp1 is None and no explicit tp1 provided"
  | some target, some entryPrice, some stopPrice => do
      let trades ← (simulateTrades forwardDf rec.direction entryPrice stopPrice target none).mapError .error
      fillRecord rec forwardDf target entryPrice stopPrice trades
  | _, _, _ => valueError "rec.entry_price / rec.stop_price must be set"

/-!
# The score of the outcome

`bench/pipeline/stage3_outcome.py`, and what the second stage is to hand on to it.
-/

open Rounding

def resultSubscore : Outcome → ℚ
  | .tp3 => 25
  | .tp2 => 20
  | .tp1 => 15
  | .breakeven => 8
  | .stoploss => 0
  | .expired => 0
  | .incomplete => 0

def rrSubscore (netRr : Option ℚ) : ℚ :=
  match netRr with
  | none => 0
  | some r => if r ≥ 3 then 10 else if r ≥ 2 then 7 else if r ≥ 1 then 4 else if r ≥ 0.5 then 2 else 0

def efficiencySubscore (rec : SignalRecord) : ℚ :=
  match rec.priceEfficiency with
  | none => 0
  | some pe => if pe ≥ 0.8 then 10 else if pe ≥ 0.5 then 6 else if pe ≥ 0.3 then 3 else 1

def stopHitPenalty (rec : SignalRecord) : ℚ := if rec.hitStopBeforeTp = some true then -5 else 0

/-- The sub-score of the R multiple that goes into the score of the record. -/
def SignalRecord.rrScore (rec : SignalRecord) : ℚ := rrSubscore rec.netRr

/-- `stage3_score(rec)`, the record after it. -/
def stage3Score (rec : SignalRecord) : SignalRecord :=
  match rec.outcome with
  | none => { rec with stage3Score := some 0 }
  | some outcome =>
      { rec with
        stage3Score :=
          some (roundTo 4 (resultSubscore outcome + rec.rrScore + efficiencySubscore rec + stopHitPenalty rec)) }

/-! ## What the second stage hands on -/

/-- The R multiple of the trade is the one of the sub-score, of the average over the winners and of the report. -/
structure UsesR (rec : SignalRecord) (trade : Trade) : Prop where
  subscore : rec.rrScore = rrSubscore (some trade.rMultiple)
  average : winningRrs [rec] = if rec.wins then [trade.rMultiple] else []
  column : cellOf rec "r_multiple" = number (some trade.rMultiple)

/-- The record before its second stage: nothing of what the stages on the trade fill in. -/
def SignalRecord.fresh (rec : SignalRecord) : SignalRecord :=
  { rec with
    outcome := none, netRr := none, barsHeld := none, mae := none, mfe := none, maeAtrRatio := none
    mfeAtrRatio := none, callbackDepth := none, callbackBars := none, callbackVolumeRatio := none
    hitStopBeforeTp := none, stopZoneTouches := none, priceEfficiency := none, rMultiple := none }

/-- What one run hands on: the R multiple of its trade, and nothing that was in the record before. -/
structure HandsOn (rec : SignalRecord) (forwardDf : Frame) (tp1 : Option ℚ) (rec' : SignalRecord)
    (trade : Option Trade) : Prop where
  usesR : ∀ t, trade = some t → UsesR rec' t
  asFresh : stage2Backtest rec.fresh forwardDf tp1 = .ok (rec', trade)

/-- Trades in different buckets of the R multiple are told apart by the sub-score. -/
def Distinguishes (rec₁ rec₂ : SignalRecord) (trade₁ trade₂ : Option Trade) : Prop :=
  ∀ t₁ t₂, trade₁ = some t₁ → trade₂ = some t₂ → rrSubscore (some t₁.rMultiple) ≠ rrSubscore (some t₂.rMultiple) →
    rec₁.rrScore ≠ rec₂.rrScore

/-! ## The condition -/

/-- No bar of the frame holds the entry price. -/
def Untouched (rec : SignalRecord) (forwardDf : Frame) : Prop :=
  ∀ entry, rec.entryPrice = some entry → ∀ row ∈ forwardDf.rows, ¬ (row.low ≤ entry ∧ entry ≤ row.high)

/-- No R multiple and no metric of an earlier trade is in the record. -/
def Unmeasured (rec : SignalRecord) : Prop :=
  rec.netRr = none ∧ rec.mae = none ∧ rec.mfe = none ∧ rec.maeAtrRatio = none ∧ rec.mfeAtrRatio = none ∧
    rec.callbackDepth = none ∧ rec.callbackBars = none ∧ rec.callbackVolumeRatio = none ∧
    rec.hitStopBeforeTp = none ∧ rec.stopZoneTouches = none ∧ rec.priceEfficiency = none

end CryptoAggHarmonic.Bench
