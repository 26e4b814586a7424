import Mathlib.Tactic.Linarith
import Mathlib.Tactic.Positivity
import CryptoAggHarmonic.Engine.SignalEngine

/-!
# The score context of a frame

When `_prepare_score_context` returns, and what its values satisfy.
-/

namespace CryptoAggHarmonic.Engine

open Config Domain Rounding

variable {t : TuningConstants} {ctx : ScoreContext} {num : Numeric} {df : Frame} {interval : String}
  {divergences : Option Divergences} {override : Option ℚ}

/-! ## RSI -/

theorem ewm_nonneg {α : ℚ} (h0 : 0 ≤ α) (h1 : α ≤ 1) {xs : List ℚ} (h : ∀ x ∈ xs, 0 ≤ x) :
    ∀ y ∈ ewm α xs, 0 ≤ y := by
  cases xs with
  | nil => simp [ewm]
  | cons x xs =>
      have hx := h x (by simp)
      have hxs : ∀ z ∈ xs, 0 ≤ z := fun z hz => h z (List.mem_cons_of_mem _ hz)
      clear h
      simp only [ewm]
      induction xs generalizing x with
      | nil => simpa using hx
      | cons z zs ih =>
          have hz := hxs z (by simp)
          have hnext : 0 ≤ (1 - α) * x + α * z := by
            have : 0 ≤ 1 - α := by linarith
            positivity
          intro y hy
          rw [List.scanl_cons] at hy
          rcases List.mem_cons.mp hy with rfl | hy
          · exact hx
          · exact ih _ hnext (fun w hw => hxs w (List.mem_cons_of_mem _ hw)) y hy

theorem one_div_window_mem (window : ℕ) : 0 ≤ (1 : ℚ) / window ∧ (1 : ℚ) / window ≤ 1 := by
  refine ⟨by positivity, ?_⟩
  rcases Nat.eq_zero_or_pos window with rfl | hpos
  · simp
  · have : (1 : ℚ) ≤ window := by exact_mod_cast hpos
    exact (div_le_one (by linarith)).mpr this

theorem avgGain_nonneg {window : ℕ} {closes : List ℚ} : ∀ y ∈ avgGain window closes, 0 ≤ y := by
  obtain ⟨h0, h1⟩ := one_div_window_mem window
  exact ewm_nonneg h0 h1 (by simp)

theorem avgLoss_nonneg {window : ℕ} {closes : List ℚ} : ∀ y ∈ avgLoss window closes, 0 ≤ y := by
  obtain ⟨h0, h1⟩ := one_div_window_mem window
  exact ewm_nonneg h0 h1 (by simp)

theorem rsiOf_mem {gain loss r : ℚ} (hg : 0 ≤ gain) (hl : 0 ≤ loss) (h : rsiOf gain loss = some r) :
    0 ≤ r ∧ r ≤ 100 := by
  unfold rsiOf at h
  split_ifs at h with h0
  cases h
  have hrs : 0 ≤ gain / loss := div_nonneg hg hl
  have hpos : 0 < 1 + gain / loss := by linarith
  have hle : 100 / (1 + gain / loss) ≤ 100 := div_le_self (by norm_num) (by linarith)
  have hnn : 0 ≤ 100 / (1 + gain / loss) := by positivity
  constructor <;> linarith

theorem computeRsi_mem {closes : List ℚ} : 0 ≤ computeRsi t closes ∧ computeRsi t closes ≤ 100 := by
  unfold computeRsi
  simp only
  split
  · rename_i gain loss hgain hloss
    cases hr : rsiOf gain loss with
    | none => simp only [Option.getD_none]; split_ifs <;> norm_num
    | some r =>
        exact rsiOf_mem (avgGain_nonneg _ (List.mem_of_getLast? hgain))
          (avgLoss_nonneg _ (List.mem_of_getLast? hloss)) hr
  · norm_num

/-! ## The context -/

theorem returns_computeAtr : Returns (computeAtr t df) ↔ df.len ≥ 2 := by
  have hwindow : t.atrWindow.toNat ≥ 1 := by
    have := t.int_pos t.atrWindow (by simp [TuningFields.intFields])
    omega
  simp only [computeAtr, returns_require_bind, hwindow, true_and]
  refine and_iff_left ?_
  split_ifs <;> simp

theorem returns_htfTrend (h : interval.length > 0) : Returns (htfTrend num t df interval) := by
  simp only [htfTrend, returns_require_bind, h, true_and]
  split <;> simp

theorem returns_prepareScoreContext (h : interval.length > 0) :
    Returns (prepareScoreContext num t df interval divergences override) ↔ df.len ≥ 2 := by
  obtain ⟨trend, htrend⟩ : Returns (htfTrend num t df interval) := returns_htfTrend h
  rw [← returns_computeAtr (t := t)]
  simp only [prepareScoreContext, returns_bind, htrend]
  constructor
  · rintro ⟨atr, hatr, -⟩
    exact ⟨atr, hatr⟩
  · rintro ⟨atr, hatr⟩
    refine ⟨atr, hatr, ?_⟩
    by_cases h0 : atr ≤ 0
    · simp only [h0, ↓reduceIte]
      exact returns_ok
    · simp only [h0, ↓reduceIte, ok_bind]
      exact returns_ok

/-- The context has a positive ATR and what `confluence_score` and `grade` ask of it, except the upper bound on
`a_min`, which no check of the constants gives. -/
theorem prepareScoreContext_spec
    (h : prepareScoreContext num t df interval divergences override = .ok (some ctx)) :
    0 < ctx.atr ∧ (0 ≤ ctx.rsi ∧ ctx.rsi ≤ 100) ∧ (0 ≤ ctx.paScale ∧ ctx.paScale ≤ 2) ∧ 0 < ctx.aMin := by
  simp only [prepareScoreContext, bind_eq_ok] at h
  obtain ⟨atr, -, h⟩ := h
  by_cases hatr : atr ≤ 0
  · simp [hatr] at h
  · simp only [hatr, ↓reduceIte, bind_eq_ok] at h
    obtain ⟨trend, -, h⟩ := h
    cases h
    refine ⟨not_le.mp hatr, computeRsi_mem, ?_, ?_⟩
    · show 0 ≤ (if _ then (1 / 2 : ℚ) else 1) ∧ (if _ then (1 / 2 : ℚ) else 1) ≤ 2
      split_ifs <;> norm_num
    · show (0 : ℚ) < ((if _ then t.aGradeMinHighQuant else t.aGradeMin : ℤ) : ℚ)
      have h1 := t.int_pos t.aGradeMin (by simp [TuningFields.intFields])
      have h2 := t.int_pos t.aGradeMinHighQuant (by simp [TuningFields.intFields])
      split_ifs
      · exact_mod_cast h2
      · exact_mod_cast h1

end CryptoAggHarmonic.Engine

/-!
# What `build_signal` raises

Nothing but contract violations, function by function.
-/

namespace CryptoAggHarmonic.Engine

open Config Domain

variable {num : Numeric} {t : TuningConstants} {ctx : ScoreContext} {c : Candidate} {df : Frame}
  {interval level : String} {divergences : Option Divergences} {override : Option ℚ}

theorem onlyViolates_computeStop {atr : ℚ} {o : StopOptions} : OnlyViolates (computeStop t c atr level o) := by
  simp [computeStop]

theorem onlyViolates_netRr {entry stop target : ℚ} {fee slippage : Option ℚ} :
    OnlyViolates (netRr t entry stop target fee slippage) := by
  simp [netRr]

theorem onlyViolates_confluenceScore {atr rsi paScale : ℚ} {trend : Trend} {divs : Divergences} {m : Momentum} :
    OnlyViolates (confluenceScore t df c atr rsi trend divs paScale m) := by
  simp [confluenceScore]

theorem onlyViolates_grade {score aMin : ℚ} {rr1 rr2 width : Option ℚ} {aligned counter : Bool} :
    OnlyViolates (Domain.grade score rr1 rr2 aligned counter aMin width) := by
  simp [Domain.grade]

theorem onlyViolates_trapStopMultiplier {s : ℤ} : OnlyViolates (trapStopMultiplier s) := by
  simp [trapStopMultiplier]

theorem onlyViolates_prepareScoreContext :
    OnlyViolates (prepareScoreContext num t df interval divergences override) := by
  unfold prepareScoreContext
  refine OnlyViolates.bind ?_ fun atr => OnlyViolates.ite (by simp) (OnlyViolates.bind ?_ fun _ => by simp)
  · simp only [computeAtr, onlyViolates_require_bind]
    exact fun _ _ => OnlyViolates.ite (by simp) (by simp)
  · simp only [htfTrend, onlyViolates_require_bind]
    intro _
    split <;> simp

theorem onlyViolates_rejectionReason {price atr : ℚ} {closeTimes : Option (List ℤ)} :
    OnlyViolates (rejectionReason t c price atr closeTimes) := by
  have hplayed : OnlyViolates (if tradePlayedOut t c price then pure (some RejectReason.completed) else pure none) :=
    OnlyViolates.ite (by simp) (by simp)
  unfold rejectionReason
  split
  · simp
  · exact OnlyViolates.ite
      (OnlyViolates.bind onlyViolates_computeStop fun _ => OnlyViolates.ite (by simp) hplayed) hplayed

theorem onlyViolates_scoreCandidate : OnlyViolates (scoreCandidate t ctx c level) := by
  simp only [scoreCandidate, onlyViolates_require_bind]
  intro _ _
  refine OnlyViolates.ite (by simp) (OnlyViolates.bind onlyViolates_computeStop fun _ => ?_)
  -- The three vetoes, then the ratios and the grade.
  refine OnlyViolates.ite (by simp) (OnlyViolates.ite (by simp) (OnlyViolates.ite (by simp) ?_))
  refine OnlyViolates.bind onlyViolates_netRr fun _ => OnlyViolates.bind onlyViolates_netRr fun _ =>
    OnlyViolates.bind onlyViolates_confluenceScore fun _ => OnlyViolates.bind onlyViolates_grade fun g => ?_
  cases g with
  | none => simp
  | some g =>
      exact OnlyViolates.bind onlyViolates_trapStopMultiplier fun _ =>
        OnlyViolates.bind onlyViolates_computeStop fun _ => OnlyViolates.bind onlyViolates_netRr fun _ =>
        OnlyViolates.bind onlyViolates_netRr fun _ => by simp

theorem onlyViolates_filterCandidates {reject : Candidate → Except PyError (Option RejectReason)}
    (h : ∀ c, OnlyViolates (reject c)) (cs : List Candidate) : OnlyViolates (filterCandidates reject cs) := by
  induction cs with
  | nil => simp [filterCandidates]
  | cons c cs ih =>
      refine OnlyViolates.bind (h c) fun reason => OnlyViolates.bind ih fun _ => ?_
      cases reason <;> simp

theorem onlyViolates_scoreAll {score : Candidate → Except PyError (Option Signal)}
    (h : ∀ c, OnlyViolates (score c)) (cs : List Candidate) : OnlyViolates (scoreAll score cs) := by
  induction cs with
  | nil => simp [scoreAll]
  | cons c cs ih => exact OnlyViolates.bind (h c) fun _ => OnlyViolates.bind ih fun _ => by simp

theorem onlyViolates_apply {fn : RejectionFn} : OnlyViolates (fn.apply t ctx c) := by
  cases fn with
  | live => exact onlyViolates_rejectionReason
  | noop => simp [RejectionFn.apply]

/-- **`build_signal` raises nothing but contract violations.** -/
theorem onlyViolates_buildSignal {fn : RejectionFn} {cs : List Candidate} {detector : Option StabilityDetector} :
    OnlyViolates (buildSignal num t fn df interval cs divergences detector level override) := by
  simp only [buildSignal, onlyViolates_require_bind]
  intro _ _
  refine OnlyViolates.ite (by simp) (OnlyViolates.bind onlyViolates_prepareScoreContext fun octx => ?_)
  cases octx with
  | none => simp
  | some ctx =>
      exact OnlyViolates.bind (onlyViolates_filterCandidates (fun _ => onlyViolates_apply) _) fun _ =>
        OnlyViolates.bind (onlyViolates_scoreAll (fun _ => onlyViolates_scoreCandidate) _) fun _ => by simp

end CryptoAggHarmonic.Engine
