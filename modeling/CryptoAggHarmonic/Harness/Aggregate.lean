import CryptoAggHarmonic.Harness.Runner
import CryptoAggHarmonic.Lib.Groups
import CryptoAggHarmonic.Lib.KeepBest

/-!
# The metrics of the harness

`aggregate`, `fitness` and the pooling of the symbols in `main`, of `.scratch/backtest/run_backtest_v3.py`. Numbers are
exact; the square root and the logarithm of the `math` module are parameters.
-/

namespace CryptoAggHarmonic.Harness

open Domain Groups

structure PyMath where
  sqrt : ℚ → ℚ
  log : ℚ → ℚ

/-! ## Ratios -/

def meanOf (rs : List ℚ) : ℚ := rs.sum / rs.length

/-- `_sharpe` -/
def sharpe (math : PyMath) (rs : List ℚ) : Option ℚ :=
  if rs.length < 3 then none
  else
    let var : ℚ := (rs.map fun r => (r - meanOf rs) ^ 2).sum / (rs.length - 1)
    if var ≤ 1 / 10 ^ 12 then none else some (meanOf rs / math.sqrt var)

/-- `_sortino` -/
def sortino (math : PyMath) (rs : List ℚ) : Option ℚ :=
  if rs.length < 3 then none
  else
    let downside := rs.filter (· < 0)
    if downside = [] then none
    else
      let var : ℚ := (downside.map fun r => r * r).sum / downside.length
      if var ≤ 1 / 10 ^ 12 then none else some (meanOf rs / math.sqrt var)

/-- The loop over the results that carries their sum, its peak and the deepest fall below a peak. -/
def maxDrawdown (rs : List ℚ) : ℚ := (rs.foldl Drawdown.step (0, 0, 0)).2.2

/-- `_calmar` -/
def calmar (rs : List ℚ) : Option ℚ :=
  if rs = [] then none
  else if maxDrawdown rs ≤ 1 / 10 ^ 9 then none
  else some (rs.sum / maxDrawdown rs)

/-- `_profit_factor` -/
def profitFactor (rs : List ℚ) : Option ℚ :=
  let wins := (rs.filter (· > 0)).sum
  let losses := |(rs.filter (· < 0)).sum|
  if losses ≤ 1 / 10 ^ 9 then none else some (wins / losses)

/-! ## Aggregation -/

structure GradeBucket where
  n : ℕ := 0
  totalR : ℚ := 0
  wins : ℕ := 0
  deriving DecidableEq

def GradeBucket.add (b : GradeBucket) (t : Trade) : GradeBucket :=
  { n := b.n + 1
    totalR := b.totalR + t.rMultiple
    wins := if t.rMultiple > 0 then b.wins + 1 else b.wins }

/-- A bucket of `by_regime` while the trades are counted. -/
structure RegimeBucket where
  n : ℕ := 0
  totalR : ℚ := 0
  wins : ℕ := 0
  rs : List ℚ := []

def RegimeBucket.add (b : RegimeBucket) (t : Trade) : RegimeBucket :=
  { n := b.n + 1
    totalR := b.totalR + t.rMultiple
    rs := b.rs ++ [t.rMultiple]
    wins := if t.rMultiple > 0 then b.wins + 1 else b.wins }

structure RegimeStats where
  n : ℕ
  totalR : ℚ
  wins : ℕ
  sharpe : Option ℚ
  winRate : ℚ
  deriving DecidableEq

def RegimeBucket.stats (math : PyMath) (b : RegimeBucket) : RegimeStats :=
  { n := b.n
    totalR := b.totalR
    wins := b.wins
    sharpe := Harness.sharpe math b.rs
    winRate := if b.n > 0 then b.wins / b.n else 0 }

/-- `t.macro_regime or "unknown"` -/
def regimeOf (t : Trade) : String := if t.macroRegime = "" then "unknown" else t.macroRegime

/-- The metrics of a list of trades; the defaults are `_empty_metrics`. -/
structure AggregateMetrics where
  tradesCount : ℕ := 0
  winCount : ℕ := 0
  lossCount : ℕ := 0
  scratchCount : ℕ := 0
  winRate : ℚ := 0
  avgR : ℚ := 0
  totalR : ℚ := 0
  totalWeightedR : ℚ := 0
  sharpe : Option ℚ := none
  sortino : Option ℚ := none
  calmar : Option ℚ := none
  profitFactor : Option ℚ := none
  maxDdR : ℚ := 0
  avgBarsHeld : ℚ := 0
  byGrade : List (Grade × GradeBucket) := []
  byExitReason : List (ExitReason × ℕ) := []
  byRegime : List (String × RegimeStats) := []
  deriving DecidableEq

def aggregate (math : PyMath) (trades : List Trade) : AggregateMetrics :=
  if trades = [] then {}
  else
    let rs := trades.map Trade.rMultiple
    { tradesCount := trades.length
      winCount := trades.countP (·.rMultiple > 0)
      lossCount := trades.countP (·.rMultiple < 0)
      scratchCount := trades.countP (·.rMultiple = 0)
      winRate := trades.countP (·.rMultiple > 0) / trades.length
      avgR := rs.sum / trades.length
      totalR := rs.sum
      totalWeightedR := (trades.map fun t => t.rMultiple * t.macroSizeMult).sum
      sharpe := Harness.sharpe math rs
      sortino := Harness.sortino math rs
      calmar := Harness.calmar rs
      profitFactor := Harness.profitFactor rs
      maxDdR := maxDrawdown rs
      avgBarsHeld := (trades.map fun t => (t.barsHeld : ℚ)).sum / trades.length
      byGrade := collect Trade.grade GradeBucket.add {} trades
      byExitReason := collect Trade.exitReason (fun n _ => n + 1) 0 trades
      byRegime := (collect regimeOf RegimeBucket.add {} trades).map fun b => (b.1, b.2.stats math) }

/-- The least Sharpe of the regimes with three trades; one that is missing counts as zero. -/
def worstRegime (metrics : AggregateMetrics) : ℚ :=
  (((metrics.byRegime.map Prod.snd).filter (·.n ≥ 3)).map fun b => b.sharpe.getD 0).min?.getD 0

def fitness (math : PyMath) (metrics : AggregateMetrics) : ℚ :=
  if metrics.tradesCount < 10 then -1000000
  else
    metrics.sharpe.getD 0 + 1 / 2 * metrics.calmar.getD 0 + 3 / 10 * metrics.profitFactor.getD 0 -
      max 0 (-worstRegime metrics) + 5 / 100 * math.log (max metrics.tradesCount 1)

/-! ## Pooling -/

/-- What `main` has of one symbol: its bars, and the trades of each group. -/
structure SymbolRun where
  rows : List Candle
  trades : Group → List Trade

/-- `all_trades[group].extend(trades)` for every group. -/
def extendAll (allTrades : Group → List Trade) (run : SymbolRun) : Group → List Trade :=
  fun group => allTrades group ++ run.trades group

/-- `all_trades` when the symbols were processed in this order. -/
def pooled (runs : List SymbolRun) : Group → List Trade := runs.foldl extendAll fun _ => []

/-- `__aggregate__` -/
def aggAll (math : PyMath) (runs : List SymbolRun) (group : Group) : AggregateMetrics :=
  aggregate math (pooled runs group)

/-- When a trade was closed. -/
def exitTime (rows : List Candle) (t : Trade) : ℤ := (rows.getD t.exitBar default).dts

/-- The trades of all symbols in the order in which they were closed. -/
def byExit (runs : List SymbolRun) (group : Group) : List Trade :=
  ((runs.flatMap fun run => (run.trades group).map fun t => (exitTime run.rows t, t)).insertionSort
    fun a b => a.1 ≤ b.1).map Prod.snd

end CryptoAggHarmonic.Harness

/-!
# Metrics and the order of the trades

Every metric but the drawdown, and the Calmar ratio that is divided by it, is a sum, a count or a table of sums: it does
not see the order of the trades.
-/

namespace CryptoAggHarmonic.Harness

open Domain Groups

variable {math : PyMath} {rs qs : List ℚ} {xs ys : List Trade} {a b : AggregateMetrics}

theorem meanOf_perm (h : rs.Perm qs) : meanOf rs = meanOf qs := by rw [meanOf, meanOf, h.sum_eq, h.length_eq]

theorem sharpe_perm (h : rs.Perm qs) : sharpe math rs = sharpe math qs := by
  have hvar : (rs.map fun r => (r - meanOf rs) ^ 2).sum = (qs.map fun r => (r - meanOf qs) ^ 2).sum := by
    rw [meanOf_perm h]
    exact (h.map _).sum_eq
  unfold sharpe
  rw [hvar, meanOf_perm h, h.length_eq]

theorem sortino_perm (h : rs.Perm qs) : sortino math rs = sortino math qs := by
  have hdown := h.filter (fun r => decide (r < 0))
  have hempty : rs.filter (· < 0) = [] ↔ qs.filter (· < 0) = [] := by
    rw [← List.length_eq_zero_iff, ← List.length_eq_zero_iff, hdown.length_eq]
  unfold sortino
  simp only [hempty, (hdown.map _).sum_eq, hdown.length_eq, meanOf_perm h, h.length_eq]

theorem profitFactor_perm (h : rs.Perm qs) : profitFactor rs = profitFactor qs := by
  unfold profitFactor
  rw [(h.filter _).sum_eq, (h.filter _).sum_eq]

/-! ## Tables -/

theorem regimeBucket_foldl (b : RegimeBucket) : xs.foldl RegimeBucket.add b =
    { n := b.n + xs.length
      totalR := b.totalR + (xs.map Trade.rMultiple).sum
      wins := b.wins + xs.countP (·.rMultiple > 0)
      rs := b.rs ++ xs.map Trade.rMultiple } := by
  induction xs generalizing b with
  | nil => simp
  | cons t xs ih =>
      rw [List.foldl_cons, ih]
      by_cases h : t.rMultiple > 0 <;> simp [RegimeBucket.add, h, add_assoc, add_comm, add_left_comm]

theorem stats_perm (h : xs.Perm ys) :
    (xs.foldl RegimeBucket.add {}).stats math = (ys.foldl RegimeBucket.add {}).stats math := by
  simp only [regimeBucket_foldl, RegimeBucket.stats, List.nil_append, h.length_eq, (h.map _).sum_eq, h.countP_eq,
    sharpe_perm (h.map Trade.rMultiple)]

theorem gradeBucket_perm (h : xs.Perm ys) (b : GradeBucket) :
    xs.foldl GradeBucket.add b = ys.foldl GradeBucket.add b := by
  refine h.foldl_eq' (fun t _ u _ b => ?_) b
  by_cases ht : t.rMultiple > 0 <;> by_cases hu : u.rMultiple > 0 <;>
    simp [GradeBucket.add, ht, hu, add_right_comm]

theorem byRegime_perm (h : xs.Perm ys) :
    ((collect regimeOf RegimeBucket.add {} xs).map fun b => (b.1, b.2.stats math)).Perm
      ((collect regimeOf RegimeBucket.add {} ys).map fun b => (b.1, b.2.stats math)) :=
  collect_perm (fun _ _ h => stats_perm h) h

theorem byGrade_perm (h : xs.Perm ys) : (collect Trade.grade GradeBucket.add {} xs).Perm
    (collect Trade.grade GradeBucket.add {} ys) := by
  simpa using collect_perm (f := fun b => b) (fun _ _ h => gradeBucket_perm h {}) h

theorem byExitReason_perm (h : xs.Perm ys) : (collect Trade.exitReason (fun n _ => n + 1) 0 xs).Perm
    (collect Trade.exitReason (fun n _ => n + 1) 0 ys) := by
  simpa using collect_perm (f := fun n => n) (fun _ _ h => h.foldl_eq' (fun _ _ _ _ _ => rfl) 0) h

/-! ## The metrics as a whole -/

def AggregateMetrics.scalars (a : AggregateMetrics) : AggregateMetrics :=
  { a with byGrade := [], byExitReason := [], byRegime := [] }

/-- The same metrics, up to the order of the tables. -/
structure AggregateMetrics.Same (a b : AggregateMetrics) : Prop where
  scalars : a.scalars = b.scalars
  byGrade : a.byGrade.Perm b.byGrade
  byExitReason : a.byExitReason.Perm b.byExitReason
  byRegime : a.byRegime.Perm b.byRegime

theorem calmar_perm (h : rs.Perm qs) (hdd : maxDrawdown rs = maxDrawdown qs) : calmar rs = calmar qs := by
  have hempty : rs = [] ↔ qs = [] := by
    rw [← List.length_eq_zero_iff, ← List.length_eq_zero_iff, h.length_eq]
  unfold calmar
  simp only [hempty, hdd, h.sum_eq]

theorem aggregate_of_ne_nil (h : xs ≠ []) : aggregate math xs =
    { tradesCount := xs.length
      winCount := xs.countP (·.rMultiple > 0)
      lossCount := xs.countP (·.rMultiple < 0)
      scratchCount := xs.countP (·.rMultiple = 0)
      winRate := xs.countP (·.rMultiple > 0) / xs.length
      avgR := (xs.map Trade.rMultiple).sum / xs.length
      totalR := (xs.map Trade.rMultiple).sum
      totalWeightedR := (xs.map fun t => t.rMultiple * t.macroSizeMult).sum
      sharpe := sharpe math (xs.map Trade.rMultiple)
      sortino := sortino math (xs.map Trade.rMultiple)
      calmar := calmar (xs.map Trade.rMultiple)
      profitFactor := profitFactor (xs.map Trade.rMultiple)
      maxDdR := maxDrawdown (xs.map Trade.rMultiple)
      avgBarsHeld := (xs.map fun t => (t.barsHeld : ℚ)).sum / xs.length
      byGrade := collect Trade.grade GradeBucket.add {} xs
      byExitReason := collect Trade.exitReason (fun n _ => n + 1) 0 xs
      byRegime := (collect regimeOf RegimeBucket.add {} xs).map fun b => (b.1, b.2.stats math) } := if_neg h

/-- **The order of the trades** is seen in the drawdown only. -/
theorem aggregate_same_iff (h : xs.Perm ys) : (aggregate math xs).Same (aggregate math ys) ↔
    maxDrawdown (xs.map Trade.rMultiple) = maxDrawdown (ys.map Trade.rMultiple) := by
  by_cases hx : xs = []
  · subst hx
    rw [h.nil_eq]
    exact iff_of_true ⟨rfl, .refl _, .refl _, .refl _⟩ rfl
  · have hy : ys ≠ [] := fun hy => hx (List.perm_nil.mp (hy ▸ h))
    have hr := h.map Trade.rMultiple
    rw [aggregate_of_ne_nil hx, aggregate_of_ne_nil hy]
    constructor
    · intro hsame
      exact congrArg AggregateMetrics.maxDdR hsame.scalars
    · intro hdd
      refine ⟨?_, byGrade_perm h, byExitReason_perm h, byRegime_perm h⟩
      simp only [AggregateMetrics.scalars, h.length_eq, h.countP_eq, hr.sum_eq, (h.map _).sum_eq, sharpe_perm hr,
        sortino_perm hr, profitFactor_perm hr, calmar_perm hr hdd, hdd]

theorem min?_perm (h : rs.Perm qs) : rs.min? = qs.min? := by
  cases hmin : qs.min? with
  | none =>
      rw [List.min?_eq_none_iff] at hmin ⊢
      exact List.perm_nil.mp (hmin ▸ h)
  | some x =>
      rw [List.min?_eq_some_iff] at hmin ⊢
      exact ⟨h.mem_iff.mpr hmin.1, fun y hy => hmin.2 y (h.mem_iff.mp hy)⟩

theorem worstRegime_same (h : a.Same b) : worstRegime a = worstRegime b := by
  unfold worstRegime
  rw [min?_perm (((h.byRegime.map Prod.snd).filter _).map _)]

theorem fitness_same (h : a.Same b) : fitness math a = fitness math b := by
  have hcount : a.tradesCount = b.tradesCount := by
    simpa [AggregateMetrics.scalars] using congrArg AggregateMetrics.tradesCount h.scalars
  have hsharpe : a.sharpe = b.sharpe := by
    simpa [AggregateMetrics.scalars] using congrArg AggregateMetrics.sharpe h.scalars
  have hcalmar : a.calmar = b.calmar := by
    simpa [AggregateMetrics.scalars] using congrArg AggregateMetrics.calmar h.scalars
  have hfactor : a.profitFactor = b.profitFactor := by
    simpa [AggregateMetrics.scalars] using congrArg AggregateMetrics.profitFactor h.scalars
  unfold fitness
  rw [hcount, hsharpe, hcalmar, hfactor, worstRegime_same h]

/-! ## Pooling -/

theorem pooled_eq (runs : List SymbolRun) (group : Group) : pooled runs group = runs.flatMap (·.trades group) := by
  have hfold : ∀ all : Group → List Trade,
      runs.foldl extendAll all group = all group ++ runs.flatMap (·.trades group) := by
    induction runs with
    | nil => simp
    | cons run runs ih =>
        intro all
        rw [List.foldl_cons, ih, List.flatMap_cons, extendAll, List.append_assoc]
  exact hfold _

theorem pooled_perm_byExit (runs : List SymbolRun) (group : Group) :
    (pooled runs group).Perm (byExit runs group) := by
  have hsort := (List.perm_insertionSort (fun a b : ℤ × Trade => a.1 ≤ b.1)
    (runs.flatMap fun run => (run.trades group).map fun t => (exitTime run.rows t, t))).map Prod.snd
  have hsnd : (runs.flatMap fun run => (run.trades group).map fun t => (exitTime run.rows t, t)).map Prod.snd =
      pooled runs group := by
    rw [pooled_eq, List.map_flatMap]
    simp [Function.comp_def]
  rw [hsnd] at hsort
  exact hsort.symm

theorem pooled_perm {order runs : List SymbolRun} (h : order.Perm runs) (group : Group) :
    (pooled order group).Perm (pooled runs group) := by
  rw [pooled_eq, pooled_eq]
  exact h.flatMap_right _

end CryptoAggHarmonic.Harness
