import Mathlib.Tactic.Linarith
import Mathlib.Tactic.Positivity
import Mathlib.Algebra.Order.AbsoluteValue.Basic
import Mathlib.Algebra.Order.Ring.Abs
import CryptoAggHarmonic.Backtest.Lemmas.Slippage

/-!
# What a simulated backtest reports

The trades and metrics of a run without costs, what slippage does to the levels, and two runs over the same candles,
the second with higher fees or funding.
-/

namespace CryptoAggHarmonic.Backtest

open Domain

variable {df : Frame} {direction : Direction} {entryPrice stopLoss targetPrice : ℚ} {cfg cfg₁ cfg₂ : BacktestConfig}
  {lv : Levels} {c₁ c₂ : Costs} {f : Fill} {trades trades₁ trades₂ : List Trade}

/-! ## Without costs -/

/-- A trade is open from the row at the first position to the row at the second. -/
def OpenOver (rows : List Candle) (t : Trade) (span : ℕ × ℕ) : Prop :=
  span.1 ≤ span.2 ∧ (rows[span.1]?).map Candle.index = t.entryTime ∧ (rows[span.2]?).map Candle.index = t.exitTime ∧
    span.2 < rows.length

theorem openOver_of_inOrder {rows : List Candle} (h : InOrder 0 rows.length [f]) :
    OpenOver rows ((f.relabel (timeAt rows)).charge lv c₁) (f.entryTime.toNat, f.exitTime.toNat) := by
  obtain ⟨hlo, hle, hhi⟩ := h.within f List.mem_cons_self
  have hentry : f.entryTime.toNat < rows.length := by omega
  have hexit : f.exitTime.toNat < rows.length := by omega
  refine ⟨by simp only; omega, ?_, ?_, hexit⟩
  · simp [Fill.charge, Fill.relabel, timeAt, List.getElem?_eq_getElem hentry]
  · simp [Fill.charge, Fill.relabel, timeAt, List.getElem?_eq_getElem hexit]

theorem exists_spans {rows : List Candle} {fs : List Fill} (h : InOrder 0 rows.length fs) : ∃ spans,
    List.Forall₂ (OpenOver rows) (fs.map fun f => (f.relabel (timeAt rows)).charge lv c₁) spans ∧
      spans.Pairwise fun a b => a.2 < b.1 := by
  refine ⟨fs.map fun f => (f.entryTime.toNat, f.exitTime.toNat), ?_, ?_⟩
  · rw [List.forall₂_map_left_iff, List.forall₂_map_right_iff, List.forall₂_same]
    intro f hf
    exact openOver_of_inOrder ⟨by simpa using h.within f hf, List.pairwise_singleton _ _⟩
  · rw [List.pairwise_map]
    refine h.disjoint.imp_of_mem fun ha hb hlt => ?_
    have := h.within _ ha
    omega

/-- Increasing timestamps keep the order of the positions. -/
theorem chronological_of_inOrder {rows : List Candle} {fs : List Fill} (h : InOrder 0 rows.length fs)
    (hrows : rows.Pairwise fun a b => a.index < b.index) :
    (fs.map fun f => (f.relabel (timeAt rows)).charge lv c₁).Pairwise fun a b =>
      ∀ x ∈ a.exitTime, ∀ y ∈ b.entryTime, x < y := by
  rw [List.pairwise_map]
  refine h.disjoint.imp_of_mem fun {a b} ha hb hlt => ?_
  obtain ⟨hlo, hle, hhi⟩ := h.within a ha
  obtain ⟨-, hle', hhi'⟩ := h.within b hb
  have hexit : a.exitTime.toNat < rows.length := by omega
  have hentry : b.entryTime.toNat < rows.length := by omega
  rintro x ⟨⟩ y ⟨⟩
  show timeAt rows a.exitTime < timeAt rows b.entryTime
  simp only [timeAt, List.getD_eq_getElem?_getD, List.getElem?_eq_getElem hexit, List.getElem?_eq_getElem hentry,
    Option.getD_some]
  exact List.pairwise_iff_getElem.mp hrows _ _ hexit hentry (by omega)

theorem costs_default : BacktestConfig.costs {} = ⟨0, 0⟩ := by decide +kernel

/-- Without costs a loss is one risk unit, a win the distance of the target in risk units, a scratch nothing. -/
theorem Fill.rMultiple_default (hlevels : ValidLevels direction entryPrice stopLoss targetPrice)
    (hloss : f.result = .loss → f.exitPrice = stopLoss) (hwin : f.result = .win → f.exitPrice = targetPrice) :
    f.rMultiple (levelsOf direction entryPrice stopLoss targetPrice 0) ⟨0, 0⟩ = match f.result with
      | .loss => -1
      | .win => |targetPrice - entryPrice| / |entryPrice - stopLoss|
      | .scratch => 0 := by
  have hrisk : 0 < |entryPrice - stopLoss| := by
    rw [abs_pos, sub_ne_zero]
    cases direction with
    | long => exact hlevels.1.ne'
    | short => exact hlevels.1.ne
  simp only [Fill.rMultiple, Fill.cost, Levels.risk, levelsOf, add_zero, sub_zero, mul_one, ite_self, zero_mul,
    zero_div, not_le.mpr hrisk, ↓reduceIte]
  cases hr : f.result with
  | win => simp [hwin hr]
  | scratch => rfl
  | loss =>
      simp only [hloss hr, abs_sub_comm stopLoss entryPrice, div_self hrisk.ne', abs_one]

/-- **The default configuration.** The trades lie one after the other, a loss is one R, a win is the reward ratio, only
the last trade may be a scratch, and the metrics are those of these trades. On a frame with increasing timestamps each
trade has ended before the next begins. -/
theorem default_trades (df : Frame) (direction : Direction) (entryPrice stopLoss targetPrice : ℚ)
    (config : Option BacktestConfig) (minTrades : ℤ)
    (hlevels : ValidLevels direction entryPrice stopLoss targetPrice) : ∃ trades summary,
    simulateTrades df direction entryPrice stopLoss targetPrice none = .ok trades ∧
      computeMetrics trades config minTrades = some summary ∧
      (∃ spans, List.Forall₂ (OpenOver df.rows) trades spans ∧ spans.Pairwise fun a b => a.2 < b.1) ∧
      ((df.rows.Pairwise fun a b => a.index < b.index) →
        trades.Pairwise fun a b => ∀ x ∈ a.exitTime, ∀ y ∈ b.entryTime, x < y) ∧
      (∀ t ∈ trades, t.rMultiple = match t.result with
        | .loss => -1
        | .win => |targetPrice - entryPrice| / |entryPrice - stopLoss|
        | .scratch => 0) ∧
      (∀ t ∈ trades.dropLast, t.result ≠ .scratch) ∧ Measures trades summary := by
  have hrun : simulateTrades df direction entryPrice stopLoss targetPrice none = _ :=
    simulateTrades_of_valid hlevels (by decide)
  have hslip : BacktestConfig.slip (Option.getD none {}) = 0 := by decide +kernel
  have hcosts : BacktestConfig.costs (Option.getD none {}) = ⟨0, 0⟩ := costs_default
  rw [hslip, hcosts] at hrun
  have hprices := fillsFrom_exitPrice (levelsOf direction entryPrice stopLoss targetPrice 0) none df.rows
  have hr : ∀ t ∈ (fills (levelsOf direction entryPrice stopLoss targetPrice 0) df.rows).map fun f =>
      f.charge (levelsOf direction entryPrice stopLoss targetPrice 0) ⟨0, 0⟩, t.rMultiple = match t.result with
        | .loss => -1
        | .win => |targetPrice - entryPrice| / |entryPrice - stopLoss|
        | .scratch => 0 := by
    intro t ht
    obtain ⟨f, hf, rfl⟩ := List.mem_map.mp ht
    obtain ⟨hloss, hwin⟩ := hprices f hf
    refine Fill.rMultiple_default hlevels (fun h => ?_) fun h => ?_
    · rw [hloss h]
      simp [levelsOf]
    · rw [hwin h]
      simp [levelsOf]
  obtain ⟨summary, hsummary, hmeasures⟩ := computeMetrics_measures config minTrades fun t ht hloss => by
    rw [hr t ht, hloss]
    norm_num
  refine ⟨_, summary, hrun, hsummary, ?_, fun hrows => ?_, hr, ?_, hmeasures⟩
  · rw [fills_eq_numbered, List.map_map]
    exact exists_spans (fills_inOrder df.rows)
  · rw [fills_eq_numbered, List.map_map]
    exact chronological_of_inOrder (fills_inOrder df.rows) hrows
  · rw [← List.map_dropLast]
    intro t ht
    obtain ⟨f, hf, rfl⟩ := List.mem_map.mp ht
    exact fillsFrom_scratch f hf

/-- A long from 100 that is stopped at once, and another that is still open at the end. -/
def stoppedThenOpen : Frame where
  rows := [⟨100, 101, 98, 99, 1, 0, 0, 0⟩, ⟨99, 101, 99, 100, 1, 60, 60, 60⟩, ⟨100, 101, 100, 101, 1, 120, 120, 120⟩]

theorem stoppedThenOpen_trades : ∃ trades summary,
    simulateTrades stoppedThenOpen .long 100 98 104 none = .ok trades ∧ computeMetrics trades none 30 = some summary ∧
      trades.map Trade.result = [.loss, .scratch] ∧
      (trades.Pairwise fun a b => ∀ x ∈ a.exitTime, ∀ y ∈ b.entryTime, x < y) ∧ Measures trades summary := by
  obtain ⟨trades, summary, hrun, hsummary, -, htimes, -, -, hmeasures⟩ :=
    default_trades stoppedThenOpen .long 100 98 104 none 30 (by decide)
  have hresults : (simulateTrades stoppedThenOpen .long 100 98 104 none).map (List.map Trade.result) =
      .ok [.loss, .scratch] := by decide +kernel
  rw [hrun] at hresults
  exact ⟨trades, summary, hrun, hsummary, Except.ok.inj hresults, htimes (by decide), hmeasures⟩

/-! ## Slippage -/

/-- The frame with the positions of its rows as timestamps. -/
def byPosition (df : Frame) : Frame := df.withRows (numbered 0 df.rows)

def Trade.relabel (g : ℤ → ℤ) (t : Trade) : Trade :=
  { t with entryTime := t.entryTime.map g, exitTime := t.exitTime.map g }

theorem charge_relabel (g : ℤ → ℤ) : (f.relabel g).charge lv c₁ = (f.charge lv c₁).relabel g := rfl

/-- Timestamps are only copied into the trades. -/
theorem simulateTrades_byPosition (config : Option BacktestConfig) :
    simulateTrades df direction entryPrice stopLoss targetPrice config =
      (simulateTrades (byPosition df) direction entryPrice stopLoss targetPrice config).map
        (List.map (Trade.relabel (timeAt df.rows))) := by
  have hempty : (byPosition df).rows = [] ↔ df.rows = [] := by
    rw [← List.length_eq_zero_iff, ← List.length_eq_zero_iff]
    simp [byPosition, Frame.withRows]
  unfold simulateTrades
  simp only [hempty, finish_foldl_stepRow]
  split_ifs
  · rfl
  · rfl
  · rw [fills_eq_numbered df.rows, Except.map, List.map_map, List.map_map]
    rfl
  · rfl

/-- A trade of the numbered frame is no better than the quoted levels allow: the target of a win is reached from its
entry on and its exit is a profit, and every bar of the trade that reaches the stop alone is the loss it ends with. -/
def Trade.Pessimistic (direction : Direction) (stopLoss targetPrice : ℚ) (rows : List Candle) (t : Trade) : Prop :=
  (t.result = .win →
    (∃ later ∈ rows.drop (t.entryTime.getD 0).toNat, reachesTarget direction later targetPrice = true) ∧
      profitable direction t.exitPrice t.entryPrice = true) ∧
  ∀ (i : ℕ) (row : Candle), rows[i]? = some row → StopOnly direction stopLoss targetPrice row →
    (∀ a ∈ t.entryTime, a ≤ i) → (∀ b ∈ t.exitTime, i ≤ b) → t.result = .loss ∧ t.exitTime = some (i : ℤ)

theorem pessimistic_charge {rows : List Candle} :
    (f.charge lv c₁).Pessimistic lv.direction stopLoss targetPrice rows ↔
      f.Pessimistic lv stopLoss targetPrice rows := by
  simp [Trade.Pessimistic, Fill.Pessimistic, Fill.charge]

/-- **Slippage.** The trades are pessimistic about the quoted levels exactly when every bar on which a position is open
or opens is fair to them. -/
theorem slippage_pessimistic_iff (df : Frame) (direction : Direction) (entryPrice stopLoss targetPrice : ℚ)
    (cfg : BacktestConfig) (trades : List Trade)
    (h : simulateTrades df direction entryPrice stopLoss targetPrice (some cfg) = .ok trades) : ∃ placed,
    simulateTrades (byPosition df) direction entryPrice stopLoss targetPrice (some cfg) = .ok placed ∧
      trades = placed.map (Trade.relabel (timeAt df.rows)) ∧
      ((∀ t ∈ placed, t.Pessimistic direction stopLoss targetPrice df.rows) ↔
        Steps.Along (Walk.step (levelsOf direction entryPrice stopLoss targetPrice cfg.slip))
          (FairBar (levelsOf direction entryPrice stopLoss targetPrice cfg.slip) stopLoss targetPrice df.rows)
          ⟨none, 0⟩ df.rows) := by
  rw [simulateTrades_byPosition] at h
  cases hplaced : simulateTrades (byPosition df) direction entryPrice stopLoss targetPrice (some cfg) with
  | error e =>
      rw [hplaced] at h
      cases h
  | ok placed =>
      rw [hplaced] at h
      cases h
      refine ⟨placed, rfl, rfl, ?_⟩
      have hfills := simulateTrades_eq_ok hplaced
      have hdrop : df.rows.drop 0 = df.rows := rfl
      have hall := pessimistic_fillsFrom_iff (levelsOf direction entryPrice stopLoss targetPrice cfg.slip) stopLoss
        targetPrice (p := none) hdrop (by simp [Standing])
      simp only [Option.not_mem_none, false_implies, implies_true, true_and, Option.map_none, Nat.cast_zero] at hall
      rw [← hall, hfills]
      simp only [Option.getD_some, List.forall_mem_map]
      exact forall₂_congr fun f _ => pessimistic_charge

/-- A long from 100 and a bar that goes on to 103. -/
def throughTarget : Frame where
  rows := [⟨100, 101, 199 / 2, 100, 1, 0, 0, 0⟩, ⟨100, 103, 100, 102, 1, 60, 60, 60⟩]

/-- With ten basis points of slippage the win at the slipped target of 102 is one at 102 as well. -/
theorem throughTarget_pessimistic : ∃ placed,
    simulateTrades (byPosition throughTarget) .long 100 99 102 (some { slippageBps := 10 }) = .ok placed ∧
      placed.map Trade.result = [.win] ∧ ∀ t ∈ placed, t.Pessimistic .long 99 102 throughTarget.rows := by
  obtain ⟨trades, htrades⟩ : ∃ trades,
      simulateTrades throughTarget .long 100 99 102 (some { slippageBps := 10 }) = .ok trades := ⟨_, rfl⟩
  obtain ⟨placed, hplaced, -, hiff⟩ :=
    slippage_pessimistic_iff throughTarget .long 100 99 102 { slippageBps := 10 } trades htrades
  have hresults : (simulateTrades (byPosition throughTarget) .long 100 99 102 (some { slippageBps := 10 })).map
      (List.map Trade.result) = .ok [.win] := by decide +kernel
  rw [hplaced] at hresults
  exact ⟨placed, hplaced, Except.ok.inj hresults, hiff.mpr (by decide +kernel)⟩

/-- A bar that ends short of 102 but beyond the target that slippage has moved to 101.898. -/
def nearMiss : Frame where
  rows := [⟨100, 2039 / 20, 199 / 2, 101, 1, 0, 0, 0⟩]

theorem nearMiss_wins : ∃ placed,
    simulateTrades (byPosition nearMiss) .long 100 99 102 (some { slippageBps := 10 }) = .ok placed ∧
      ¬ ∀ t ∈ placed, t.Pessimistic .long 99 102 nearMiss.rows := by
  obtain ⟨placed, hplaced⟩ : ∃ placed,
      simulateTrades (byPosition nearMiss) .long 100 99 102 (some { slippageBps := 10 }) = .ok placed := ⟨_, rfl⟩
  refine ⟨placed, hplaced, fun hall => ?_⟩
  have hresults : (simulateTrades (byPosition nearMiss) .long 100 99 102 (some { slippageBps := 10 })).map
      (List.map Trade.result) = .ok [.win] := by decide +kernel
  rw [hplaced] at hresults
  obtain ⟨t, rest, rfl, hwin, -⟩ := List.map_eq_cons_iff.mp (Except.ok.inj hresults)
  obtain ⟨later, hmem, hreached⟩ := ((hall t List.mem_cons_self).1 hwin).1
  obtain rfl := List.mem_singleton.mp (List.mem_of_mem_drop hmem)
  exact absurd hreached (by decide +kernel)

/-! ## Two configurations -/

/-- The record of a trade without what it was charged. -/
def Trade.uncharged (t : Trade) : Trade :=
  { t with rMultiple := 0, feesPaid := 0, slippagePaid := 0, fundingPaid := 0 }

/-- The second configuration differs from the first in higher fees or funding. -/
structure Costlier (cfg₁ cfg₂ : BacktestConfig) : Prop where
  slippage : cfg₂.slippageBps = cfg₁.slippageBps
  leverage : cfg₂.leverage = cfg₁.leverage
  barHours : cfg₂.barHours = cfg₁.barHours
  fee : 0 ≤ cfg₁.feeBps ∧ cfg₁.feeBps ≤ cfg₂.feeBps
  funding : 0 ≤ cfg₁.fundingBpsPer8h ∧ cfg₁.fundingBpsPer8h ≤ cfg₂.fundingBpsPer8h

def NeverImproves (trades₁ trades₂ : List Trade) : Prop :=
  List.Forall₂ (fun a b => b.rMultiple ≤ a.rMultiple) trades₁ trades₂

/-! ## One fill -/

/-- What the two costs of a fill must satisfy. A loss is booked as `-|1 - cost / risk|`: it gets worse with the cost
only from one risk unit on. -/
def CostBites (lv : Levels) (c₁ c₂ : Costs) (f : Fill) : Prop :=
  0 < lv.risk → match f.result with
    | .loss => 0 ≤ (f.cost lv c₂ - f.cost lv c₁) * (f.cost lv c₁ + f.cost lv c₂ - 2 * |f.exitPrice - lv.effEntry|)
    | _ => f.cost lv c₁ ≤ f.cost lv c₂

theorem abs_sub_le_abs_sub_iff {g x y : ℚ} : |g - x| ≤ |g - y| ↔ 0 ≤ (y - x) * (x + y - 2 * g) := by
  rw [← sq_le_sq]
  constructor <;> intro h <;> nlinarith

theorem Fill.rMultiple_le_iff : f.rMultiple lv c₂ ≤ f.rMultiple lv c₁ ↔ CostBites lv c₁ c₂ f := by
  have hnn : 0 ≤ lv.risk := abs_nonneg _
  rcases hnn.eq_or_lt with h0 | hpos
  · simp [Fill.rMultiple, CostBites, ← h0]
  · have hnot : ¬ lv.risk ≤ 0 := not_le.mpr hpos
    cases hr : f.result with
    | win =>
        simp only [Fill.rMultiple, CostBites, hr, hnot, ↓reduceIte, hpos, forall_const, sub_le_sub_iff_left]
        exact div_le_div_iff_of_pos_right hpos
    | scratch =>
        simp only [Fill.rMultiple, CostBites, hr, hnot, ↓reduceIte, hpos, forall_const, sub_le_sub_iff_left]
        exact div_le_div_iff_of_pos_right hpos
    | loss =>
        simp only [Fill.rMultiple, CostBites, hr, hnot, ↓reduceIte, hpos, forall_const, neg_le_neg_iff, ← sub_div,
          abs_div, abs_of_pos hpos]
        rw [div_le_div_iff_of_pos_right hpos, abs_sub_le_abs_sub_iff]

/-! ## Two runs -/

/-- **Costs and R-multiples.** Higher costs leave the fills as they are, and no trade improves exactly when the cost of
every fill of the price path bites. -/
theorem costs_never_improve_iff (df : Frame) (direction : Direction) (entryPrice stopLoss targetPrice : ℚ)
    (cfg₁ cfg₂ : BacktestConfig) (trades₁ trades₂ : List Trade) (hcfg : Costlier cfg₁ cfg₂)
    (h₁ : simulateTrades df direction entryPrice stopLoss targetPrice (some cfg₁) = .ok trades₁)
    (h₂ : simulateTrades df direction entryPrice stopLoss targetPrice (some cfg₂) = .ok trades₂) :
    trades₂.map Trade.uncharged = trades₁.map Trade.uncharged ∧
      (NeverImproves trades₁ trades₂ ↔
        ∀ f ∈ fills (levelsOf direction entryPrice stopLoss targetPrice cfg₁.slip) df.rows,
          CostBites (levelsOf direction entryPrice stopLoss targetPrice cfg₁.slip) cfg₁.costs cfg₂.costs f) := by
  have hslip : cfg₂.slip = cfg₁.slip := by rw [BacktestConfig.slip, BacktestConfig.slip, hcfg.slippage]
  have e₁ := simulateTrades_eq_ok h₁
  have e₂ := simulateTrades_eq_ok h₂
  simp only [Option.getD_some] at e₁ e₂
  rw [hslip] at e₂
  subst e₁ e₂
  refine ⟨by simp [List.map_map, Function.comp_def, Trade.uncharged, Fill.charge], ?_⟩
  rw [NeverImproves, List.forall₂_map_left_iff, List.forall₂_map_right_iff, List.forall₂_same]
  exact forall₂_congr fun f _ => Fill.rMultiple_le_iff

/-! ## Positive prices -/

theorem Fill.cost_mono (hentry : 0 ≤ lv.effEntry) (hexit : 0 ≤ f.exitPrice) (hfee : c₁.fee ≤ c₂.fee)
    (hfunding : c₁.fundingPerBar ≤ c₂.fundingPerBar) : f.cost lv c₁ ≤ f.cost lv c₂ := by
  have hbars : (0 : ℚ) ≤ f.bars := Nat.cast_nonneg _
  unfold Fill.cost
  gcongr

theorem Costlier.costs_le (h : Costlier cfg₁ cfg₂) (hbar : 0 ≤ cfg₁.barHours) :
    cfg₁.costs.fee ≤ cfg₂.costs.fee ∧ cfg₁.costs.fundingPerBar ≤ cfg₂.costs.fundingPerBar := by
  have hfee := h.fee.2
  have hfunding := h.funding.2
  simp only [BacktestConfig.costs, h.barHours]
  constructor <;> gcongr

/-- At positive prices only a loss can improve, and it does when the two costs differ and sum to less than twice the
risk. -/
theorem costBites_iff_of_pos (h : Costlier cfg₁ cfg₂) (hbar : 0 ≤ cfg₁.barHours) (hentry : 0 ≤ lv.effEntry)
    (hexit : 0 ≤ f.exitPrice) : CostBites lv cfg₁.costs cfg₂.costs f ↔
      (0 < lv.risk → f.result = .loss → f.cost lv cfg₁.costs = f.cost lv cfg₂.costs ∨
        2 * |f.exitPrice - lv.effEntry| ≤ f.cost lv cfg₁.costs + f.cost lv cfg₂.costs) := by
  obtain ⟨hfee, hfunding⟩ := h.costs_le hbar
  have hle : f.cost lv cfg₁.costs ≤ f.cost lv cfg₂.costs := Fill.cost_mono hentry hexit hfee hfunding
  unfold CostBites
  refine forall_congr' fun hpos => ?_
  cases f.result with
  | win => simp [hle]
  | scratch => simp [hle]
  | loss =>
      simp only [forall_const]
      rcases hle.eq_or_lt with heq | hlt
      · simp [heq]
      · rw [mul_nonneg_iff_of_pos_left (sub_pos.mpr hlt), sub_nonneg]
        simp [hlt.ne]

/-! ## A stopped trade -/

def stoppedPath : Frame where
  rows := [⟨100, 201 / 2, 197 / 2, 99, 1, 0, 0, 0⟩]

/-- The long from 100 with its stop at 99, under a fee. -/
def stoppedAt (feeBps : ℚ) : Except PyError (List Trade) :=
  simulateTrades stoppedPath .long 100 99 102 (some { feeBps := feeBps })

theorem stopped_rMultiple {feeBps r : ℚ} {trades : List Trade} (h : stoppedAt feeBps = .ok trades)
    (hr : (stoppedAt feeBps).map (List.map Trade.rMultiple) = .ok [r]) : trades.map Trade.rMultiple = [r] := by
  rw [h] at hr
  exact Except.ok.inj hr

/-- Fees of 1% and then 2% a side take the loss from -0.99 R to -2.98 R. -/
theorem stopped_costs_bite : ∃ trades₁ trades₂, stoppedAt 100 = .ok trades₁ ∧ stoppedAt 200 = .ok trades₂ ∧
    NeverImproves trades₁ trades₂ := by
  have hcfg : Costlier { feeBps := 100 } { feeBps := 200 } := by constructor <;> decide
  obtain ⟨trades₁, h₁⟩ : ∃ trades, stoppedAt 100 = .ok trades := ⟨_, rfl⟩
  obtain ⟨trades₂, h₂⟩ : ∃ trades, stoppedAt 200 = .ok trades := ⟨_, rfl⟩
  refine ⟨trades₁, trades₂, h₁, h₂, (costs_never_improve_iff _ _ _ _ _ _ _ _ _ hcfg h₁ h₂).2.mpr ?_⟩
  have hfills : fills (levelsOf .long 100 99 102 (BacktestConfig.slip { feeBps := 100 })) stoppedPath.rows =
      [⟨0, 0, 99, .loss, 0⟩] := by decide +kernel
  rw [hfills]
  intro f hf
  rw [List.mem_singleton.mp hf]
  simp only [CostBites]
  decide +kernel

/-- With no fee the loss is -1 R, with 4 basis points a side it is -0.9204 R. -/
theorem stopped_costs_improve : ¬ ∀ (df : Frame) (direction : Direction) (entryPrice stopLoss targetPrice : ℚ)
    (cfg₁ cfg₂ : BacktestConfig) (trades₁ trades₂ : List Trade), Costlier cfg₁ cfg₂ →
    simulateTrades df direction entryPrice stopLoss targetPrice (some cfg₁) = .ok trades₁ →
    simulateTrades df direction entryPrice stopLoss targetPrice (some cfg₂) = .ok trades₂ →
    trades₂.map Trade.uncharged = trades₁.map Trade.uncharged ∧ NeverImproves trades₁ trades₂ := by
  intro h
  have hcfg : Costlier { feeBps := 0 } { feeBps := 4 } := by constructor <;> decide
  obtain ⟨trades₁, h₁⟩ : ∃ trades, stoppedAt 0 = .ok trades := ⟨_, rfl⟩
  obtain ⟨trades₂, h₂⟩ : ∃ trades, stoppedAt 4 = .ok trades := ⟨_, rfl⟩
  have hnever := (h _ _ _ _ _ _ _ trades₁ trades₂ hcfg h₁ h₂).2
  have hr₁ : trades₁.map Trade.rMultiple = [-1] := stopped_rMultiple h₁ (by decide +kernel)
  have hr₂ : trades₂.map Trade.rMultiple = [-(9204 / 10000)] := stopped_rMultiple h₂ (by decide +kernel)
  rw [NeverImproves, ← List.forall₂_map_left_iff (f := Trade.rMultiple) (R := fun x b => Trade.rMultiple b ≤ x),
    ← List.forall₂_map_right_iff (f := Trade.rMultiple) (R := fun x y => y ≤ x), hr₁, hr₂] at hnever
  simp only [List.forall₂_cons] at hnever
  exact absurd hnever.1 (by decide +kernel)

end CryptoAggHarmonic.Backtest
