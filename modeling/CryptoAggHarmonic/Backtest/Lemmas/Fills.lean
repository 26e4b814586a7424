import CryptoAggHarmonic.Backtest.Engine

/-!
# The fills of a price path

`fills` walks the candles without any cost: when a trade opens, when and where it closes, how long it is held.
`simulate_trades` is the fills with each one charged: costs never move a fill.
-/

namespace CryptoAggHarmonic.Backtest

open Domain

variable {lv : Levels} {c : Costs} {rows : List Candle} {row : Candle}

structure Fill where
  entryTime : ℤ
  exitTime : ℤ
  exitPrice : ℚ
  result : TradeResult
  bars : ℕ
  deriving DecidableEq, Repr

/-- An open position: since when, for how many bars, and the last bar seen. -/
structure OpenPosition where
  entryTime : ℤ
  bars : ℕ
  last : Candle

def fillsFrom (lv : Levels) : Option OpenPosition → List Candle → List Fill
  | none, [] => []
  | some p, [] => [⟨p.entryTime, p.last.index, p.last.close, .scratch, p.bars⟩]
  | none, row :: rows =>
      if lv.touchedBy row then
        match lv.exitOn row with
        | some (exitPrice, result) => ⟨row.index, row.index, exitPrice, result, 0⟩ :: fillsFrom lv none rows
        | none => fillsFrom lv (some ⟨row.index, 1, row⟩) rows
      else fillsFrom lv none rows
  | some p, row :: rows =>
      match lv.exitOn row with
      | some (exitPrice, result) =>
          ⟨p.entryTime, row.index, exitPrice, result, p.bars + 1⟩ :: fillsFrom lv none rows
      | none => fillsFrom lv (some ⟨p.entryTime, p.bars + 1, row⟩) rows

attribute [local simp] fillsFrom

def fills (lv : Levels) (rows : List Candle) : List Fill := fillsFrom lv none rows

/-! ## Charging a fill -/

/-- Fees of both sides and the funding of the bars held, in price. -/
def Fill.cost (f : Fill) (lv : Levels) (c : Costs) : ℚ :=
  c.fee * (lv.effEntry + f.exitPrice) + c.fundingPerBar * f.bars * f.exitPrice

def Levels.risk (lv : Levels) : ℚ := |lv.effEntry - lv.effStop|

def Fill.rMultiple (f : Fill) (lv : Levels) (c : Costs) : ℚ :=
  let netR := |f.exitPrice - lv.effEntry| / lv.risk - f.cost lv c / lv.risk
  if lv.risk ≤ 0 then 0
  else match f.result with
    | .win => netR
    | .loss => -|netR|
    | .scratch => 0 - f.cost lv c / lv.risk

def Fill.charge (f : Fill) (lv : Levels) (c : Costs) : Trade where
  direction := lv.direction
  entryPrice := lv.effEntry
  stopLoss := lv.effStop
  targetPrice := lv.effTarget
  exitPrice := f.exitPrice
  result := f.result
  rMultiple := f.rMultiple lv c
  entryTime := some f.entryTime
  exitTime := some f.exitTime
  feesPaid := c.fee * (lv.effEntry + f.exitPrice)
  fundingPaid := c.fundingPerBar * f.bars * f.exitPrice
  notionalRisk := lv.risk

/-! ## The loop is the fills, charged -/

theorem resolveExit_result {d : Direction} {low high e s tp x : ℚ} {r : TradeResult}
    (h : resolveExit d low high e s tp = some (x, r)) : (x = s ∧ r = .loss) ∨ (x = tp ∧ r = .win) := by
  unfold resolveExit at h
  cases d <;> simp only at h <;> split_ifs at h <;> cases h <;> simp

theorem closeTrade_openTrade {f : Fill} (hr : f.result ≠ .scratch) :
    closeTrade c f.bars (openTrade lv f.entryTime) f.exitPrice f.result f.exitTime = f.charge lv c := by
  unfold closeTrade openTrade Fill.charge Fill.rMultiple Fill.cost Levels.risk
  cases h : f.result with
  | win => simp
  | loss => simp
  | scratch => exact absurd h hr

structure Holds (lv : Levels) (s : SimState) (p : Option OpenPosition) : Prop where
  closed : p = none → s.trade = none
  isOpen : ∀ q, p = some q → s.trade = some (openTrade lv q.entryTime) ∧ s.barsInTrade = q.bars ∧
    s.lastTimestamp = some q.last.index ∧ s.lastClose = q.last.close

theorem finish_holds {s : SimState} {p : Option OpenPosition} (h : Holds lv s p) :
    finish c s = s.trades ++ (fillsFrom lv p []).map fun f => f.charge lv c := by
  cases p with
  | none => simp [finish, h.closed rfl]
  | some q =>
      obtain ⟨ht, hb, hl, hc⟩ := h.isOpen q rfl
      simp only [finish, ht, hl, fillsFrom, List.map_cons, List.map_nil]
      congr 2
      unfold scratchTrade openTrade Fill.charge Fill.rMultiple Fill.cost Levels.risk
      simp only [hb, hc]
      congr 1
      split_ifs with h1 h2 h2
      · exact absurd h1 (not_lt.mpr h2)
      · rfl
      · rfl
      · exact absurd (not_lt.mp h1) h2

/-- **One candle**: the loop and the walk over the fills stay in step. -/
theorem stepRow_holds {s : SimState} {p : Option OpenPosition} (h : Holds lv s p) (row : Candle) :
    ∃ p' done, Holds lv (stepRow lv c s row) p' ∧
      (stepRow lv c s row).trades = s.trades ++ done.map (fun f => f.charge lv c) ∧
      ∀ rows, fillsFrom lv p (row :: rows) = done ++ fillsFrom lv p' rows := by
  cases p with
  | none =>
      have ht := h.closed rfl
      cases htouch : lv.touchedBy row with
      | false =>
          refine ⟨none, [], ⟨fun _ => ?_, by simp⟩, ?_, fun rows => ?_⟩
          · simp [stepRow, ht, htouch]
          · simp [stepRow, ht, htouch]
          · simp [htouch]
      | true =>
          cases hexit : lv.exitOn row with
          | none =>
              refine ⟨some ⟨row.index, 1, row⟩, [], ⟨by simp, ?_⟩, ?_, fun rows => ?_⟩
              · rintro q ⟨⟩
                simp [stepRow, ht, htouch, hexit]
              · simp [stepRow, ht, htouch, hexit]
              · simp [htouch, hexit]
          | some xr =>
              obtain ⟨x, r⟩ := xr
              have hr : r ≠ .scratch := by
                rcases resolveExit_result hexit with ⟨-, rfl⟩ | ⟨-, rfl⟩ <;> simp
              refine ⟨none, [⟨row.index, row.index, x, r, 0⟩], ⟨fun _ => ?_, by simp⟩, ?_, fun rows => ?_⟩
              · simp [stepRow, ht, htouch, hexit]
              · simp only [stepRow, ht, htouch, hexit, ↓reduceIte, List.map_cons, List.map_nil]
                rw [← closeTrade_openTrade hr]
              · simp [htouch, hexit]
  | some q =>
      obtain ⟨ht, hb, -, -⟩ := h.isOpen q rfl
      cases hexit : lv.exitOn row with
      | none =>
          refine ⟨some ⟨q.entryTime, q.bars + 1, row⟩, [], ⟨by simp, ?_⟩, ?_, fun rows => ?_⟩
          · rintro q' ⟨⟩
            simp [stepRow, ht, hexit, hb]
          · simp [stepRow, ht, hexit]
          · simp [hexit]
      | some xr =>
          obtain ⟨x, r⟩ := xr
          have hr : r ≠ .scratch := by
            rcases resolveExit_result hexit with ⟨-, rfl⟩ | ⟨-, rfl⟩ <;> simp
          refine ⟨none, [⟨q.entryTime, row.index, x, r, q.bars + 1⟩], ⟨fun _ => ?_, by simp⟩, ?_, fun rows => ?_⟩
          · simp [stepRow, ht, hexit]
          · simp only [stepRow, ht, hexit, hb, List.map_cons, List.map_nil]
            rw [← closeTrade_openTrade hr]
          · simp [hexit]

theorem foldl_stepRow {s : SimState} {p : Option OpenPosition} (h : Holds lv s p) :
    finish c (rows.foldl (stepRow lv c) s) = s.trades ++ (fillsFrom lv p rows).map fun f => f.charge lv c := by
  induction rows generalizing s p with
  | nil => exact finish_holds h
  | cons row rows ih =>
      obtain ⟨p', done, h', htrades, hfills⟩ := stepRow_holds (c := c) h row
      rw [List.foldl_cons, ih h', htrades, hfills, List.map_append, List.append_assoc]

/-- **The loop is the fills, charged.** -/
theorem finish_foldl_stepRow :
    finish c (rows.foldl (stepRow lv c) {}) = (fills lv rows).map fun f => f.charge lv c := by
  have h : Holds lv {} none := ⟨fun _ => rfl, by simp⟩
  exact foldl_stepRow h

/-! ## The run as fills -/

section

variable {df : Frame} {direction : Direction} {entryPrice stopLoss targetPrice : ℚ} {config : Option BacktestConfig}
  {trades : List Trade}

theorem simulateTrades_of_valid (hlevels : ValidLevels direction entryPrice stopLoss targetPrice)
    (hleverage : 1 ≤ (config.getD {}).leverage) :
    simulateTrades df direction entryPrice stopLoss targetPrice config =
      .ok ((fills (levelsOf direction entryPrice stopLoss targetPrice (config.getD {}).slip) df.rows).map
        fun f => f.charge (levelsOf direction entryPrice stopLoss targetPrice (config.getD {}).slip)
          (config.getD {}).costs) := by
  unfold simulateTrades
  by_cases hempty : df.rows = []
  · simp [hempty, fills]
  · simp only [hempty, ↓reduceIte, hlevels, not_true_eq_false, not_lt.mpr hleverage, finish_foldl_stepRow]

theorem simulateTrades_eq_ok
    (h : simulateTrades df direction entryPrice stopLoss targetPrice config = .ok trades) :
    trades = (fills (levelsOf direction entryPrice stopLoss targetPrice (config.getD {}).slip) df.rows).map
      fun f => f.charge (levelsOf direction entryPrice stopLoss targetPrice (config.getD {}).slip)
        (config.getD {}).costs := by
  unfold simulateTrades at h
  split_ifs at h with hempty hlevels
  · cases h
    simp [hempty, fills]
  · simp only at h
    split_ifs at h
    cases h
    exact finish_foldl_stepRow

end

/-! ## A path without a fill -/

theorem fillsFrom_some_ne_nil (p : OpenPosition) : fillsFrom lv (some p) rows ≠ [] := by
  induction rows generalizing p with
  | nil => simp
  | cons row rows ih =>
      unfold fillsFrom
      split
      · simp
      · exact ih _

theorem fills_eq_nil : fills lv rows = [] ↔ ∀ row ∈ rows, lv.touchedBy row = false := by
  unfold fills
  induction rows with
  | nil => simp
  | cons row rows ih =>
      unfold fillsFrom
      cases htouch : lv.touchedBy row with
      | false => simp [ih, htouch]
      | true =>
          simp only [↓reduceIte, List.forall_mem_cons, htouch, Bool.true_eq_false, false_and, iff_false]
          split
          · simp
          · exact fillsFrom_some_ne_nil _

end CryptoAggHarmonic.Backtest
