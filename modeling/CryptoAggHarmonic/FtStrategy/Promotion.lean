import CryptoAggHarmonic.Python.Text
import CryptoAggHarmonic.Loop.Pareto

/-!
# The promotion gate

`check_promotion_v3`: nine items, each with what was observed and what is asked for. Bools and integers among the
observed values are the floats they equal.
-/

namespace CryptoAggHarmonic.FtStrategy

def drawdownMultiplier : ℚ := 2

def crashClosureWindowDays : ℕ := 7

def reasoningMinLength : ℕ := 10

structure PerTimerangeResult where
  regime : String
  sharpe : PyFloat
  maxDd : PyFloat
  calmar : PyFloat
  deriving DecidableEq

structure PromotionCandidate where
  strategyId : String
  version : ℕ
  sharpe : PyFloat
  maxDd : PyFloat
  calmar : PyFloat
  winRate : PyFloat
  profitPct : PyFloat
  trades : ℤ
  perTimerange : List PerTimerangeResult
  hasFinalReport : Bool
  openCrashInWindowDays : ℕ
  shadowObserved : Bool
  deriving DecidableEq

structure PromotionContext where
  baselineDrawdown : ℚ
  profitFloor : ℚ
  minPositionSize : ℤ
  robustSharpeMin : ℚ
  robustCalmarMin : ℚ
  /-- The shapes (sharpe, calmar, -max_dd, win_rate) of earlier keeps. -/
  priorKeepShapes : List (PyFloat × PyFloat × PyFloat × PyFloat)

def PromotionContext.default : PromotionContext where
  baselineDrawdown := 156 / 1000
  profitFloor := 5 / 100
  minPositionSize := 30
  robustSharpeMin := 0
  robustCalmarMin := 1
  priorKeepShapes := []

structure PromotionCheckItem where
  label : String
  passed : Bool
  observed : Option PyFloat
  threshold : Option PyFloat
  note : String
  deriving DecidableEq

structure PromotionResult where
  ok : Bool
  items : List PromotionCheckItem
  hardBlockers : List String
  deriving DecidableEq

/-- Some prior keep is at least as good on every coordinate and better on one. -/
def paretoDominated (candidate : PyFloat × PyFloat × PyFloat × PyFloat)
    (priors : List (PyFloat × PyFloat × PyFloat × PyFloat)) : Bool :=
  priors.any fun prior => Loop.allGe prior candidate && Loop.anyGt prior candidate

/-- The worst value across the regimes, held against its floor. -/
def robustMin (label metric : String) (values : List PyFloat) (floor : ℚ) : PromotionCheckItem :=
  match pyMin values with
  | some least => {
      label := label
      passed := least.ge (.finite floor)
      observed := some (least.round 4)
      threshold := some (.finite floor)
      note := "min(per_timerange." ++ metric ++ ") across " ++ toString values.length ++ " regime(s)" }
  | none => {
      label := label
      passed := false
      observed := none
      threshold := some (.finite floor)
      note := "no per_timerange rows; cannot evaluate" }

def robustSharpeItem (c : PromotionCandidate) (ctx : PromotionContext) : PromotionCheckItem :=
  robustMin "robust_sharpe_min" "sharpe" (c.perTimerange.map PerTimerangeResult.sharpe) ctx.robustSharpeMin

def robustCalmarItem (c : PromotionCandidate) (ctx : PromotionContext) : PromotionCheckItem :=
  robustMin "robust_calmar_min" "calmar" (c.perTimerange.map PerTimerangeResult.calmar) ctx.robustCalmarMin

def maxDrawdownItem (c : PromotionCandidate) (ctx : PromotionContext) : PromotionCheckItem where
  label := "max_drawdown"
  passed := (PyFloat.finite (drawdownMultiplier * ctx.baselineDrawdown)).ge c.maxDd
  observed := some (c.maxDd.round 4)
  threshold := some ((PyFloat.finite (drawdownMultiplier * ctx.baselineDrawdown)).round 4)
  note := "<= 2.0 × baseline=" ++ fmtFixed 4 ctx.baselineDrawdown

def profitFloorItem (c : PromotionCandidate) (ctx : PromotionContext) : PromotionCheckItem where
  label := "profit_floor"
  passed := c.profitPct.ge (.finite ctx.profitFloor)
  observed := some (c.profitPct.round 4)
  threshold := some (.finite ctx.profitFloor)
  note := "Auto-Quant V1 v0.4.1 (vol-target degeneracy guard)"

def minPositionSizeItem (c : PromotionCandidate) (ctx : PromotionContext) : PromotionCheckItem where
  label := "min_position_size"
  passed := decide (c.trades ≥ ctx.minPositionSize)
  observed := some (.finite c.trades)
  threshold := some (.finite ctx.minPositionSize)
  note := "trades >= " ++ toString ctx.minPositionSize

def notParetoDominatedItem (c : PromotionCandidate) (ctx : PromotionContext) : PromotionCheckItem where
  label := "not_pareto_dominated"
  passed := !paretoDominated (c.sharpe, c.calmar, c.maxDd.neg, c.winRate) ctx.priorKeepShapes
  observed := none
  threshold := none
  note := "checked against " ++ toString ctx.priorKeepShapes.length ++ " prior KEEP shape(s)"

def shadowObservedItem (c : PromotionCandidate) : PromotionCheckItem where
  label := "shadow_observed"
  passed := c.shadowObserved
  observed := some (.finite (if c.shadowObserved then 1 else 0))
  threshold := none
  note := "requires 7-day shadow dry-run vs live diff ([ftstrategy-shadow-01] durable-fact + event_log.shadow_end)"

def reportReferencedItem (c : PromotionCandidate) : PromotionCheckItem where
  label := "report_referenced"
  passed := c.hasFinalReport
  observed := none
  threshold := none
  note := "requires ft_strategy_reports.authoring_state='final'"

def noOpenCrashItem (c : PromotionCandidate) : PromotionCheckItem where
  label := "no_open_crash_in_window"
  passed := decide (c.openCrashInWindowDays = 0)
  observed := some (.finite c.openCrashInWindowDays)
  threshold := some (.finite 0)
  note := "closed within last " ++ toString crashClosureWindowDays ++ " days"

def checkPromotionV3 (c : PromotionCandidate) (ctx : PromotionContext) : PromotionResult :=
  let items := [robustSharpeItem c ctx, robustCalmarItem c ctx, maxDrawdownItem c ctx, profitFloorItem c ctx,
    minPositionSizeItem c ctx, notParetoDominatedItem c ctx, shadowObservedItem c, reportReferencedItem c,
    noOpenCrashItem c]
  let failing := items.filter fun i => !i.passed
  { ok := failing.isEmpty
    items := items
    hardBlockers := failing.map PromotionCheckItem.label }

theorem checkPromotionV3_ok {c : PromotionCandidate} {ctx : PromotionContext} :
    (checkPromotionV3 c ctx).ok ↔ ∀ i ∈ (checkPromotionV3 c ctx).items, i.passed := by
  simp [checkPromotionV3, List.isEmpty_iff, List.filter_eq_nil_iff]

theorem evidence_of_ok {c : PromotionCandidate} {ctx : PromotionContext} (h : (checkPromotionV3 c ctx).ok) :
    c.perTimerange ≠ [] ∧ c.hasFinalReport ∧ c.shadowObserved := by
  rw [checkPromotionV3_ok] at h
  refine ⟨?_, ?_, ?_⟩
  · rintro hempty
    have := h (robustSharpeItem c ctx) (by simp [checkPromotionV3])
    simp [robustSharpeItem, robustMin, hempty, pyMin] at this
  · simpa [reportReferencedItem] using h (reportReferencedItem c) (by simp [checkPromotionV3])
  · simpa [shadowObservedItem] using h (shadowObservedItem c) (by simp [checkPromotionV3])

end CryptoAggHarmonic.FtStrategy
