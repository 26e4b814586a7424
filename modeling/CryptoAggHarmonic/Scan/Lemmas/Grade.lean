import Mathlib.Tactic.Linarith
import CryptoAggHarmonic.Scan.Grader
import CryptoAggHarmonic.Scan.Symbol

/-!
# Evidence and its grade

What the pieces of evidence on a signal are worth, and what a more favourable piece does to the total.
-/

namespace CryptoAggHarmonic.Scan

/-- What `grade_signal` is given. -/
structure Evidence where
  patternScore : ℚ
  rsiDivergence : Bool
  volumeConfirm : Bool
  regimeResult : MarketRegimeResult
  direction : Direction
  rrRatio : ℚ
  atrRatio : ℚ
  eventClear : Bool
  normalised : 0 ≤ patternScore ∧ patternScore ≤ 1

namespace Evidence

def graded (e : Evidence) : GradeResult :=
  gradeSignal e.patternScore e.rsiDivergence e.volumeConfirm e.regimeResult e.direction e.rrRatio e.atrRatio
    e.eventClear

inductive Alignment
  | conflicting
  | neutral
  | matching
  deriving DecidableEq

def Alignment.rank : Alignment → ℕ
  | .conflicting => 0
  | .neutral => 1
  | .matching => 2

/-- The direction against the trend of the market. -/
def alignment (e : Evidence) : Alignment :=
  match e.direction, e.regimeResult.regime with
  | _, .neutral => .neutral
  | .bullish, .bullMarket => .matching
  | .bearish, .bearMarket => .matching
  | _, _ => .conflicting

/-- One piece of the evidence turns more favourable. -/
inductive Strengthens : Evidence → Evidence → Prop
  | patternScore (e : Evidence) {score : ℚ} (h : e.patternScore ≤ score) (hscore : 0 ≤ score ∧ score ≤ 1) :
      Strengthens e { e with patternScore := score, normalised := hscore }
  | rsiDivergence (e : Evidence) : Strengthens e { e with rsiDivergence := true }
  | volumeConfirm (e : Evidence) : Strengthens e { e with volumeConfirm := true }
  | eventClear (e : Evidence) : Strengthens e { e with eventClear := true }
  | rrRatio (e : Evidence) {ratio : ℚ} (h : e.rrRatio ≤ ratio) : Strengthens e { e with rrRatio := ratio }
  | trend (e : Evidence) {regimeResult : MarketRegimeResult} {direction : Direction}
      (h : e.alignment.rank ≤ ({ e with regimeResult, direction } : Evidence).alignment.rank) :
      Strengthens e { e with regimeResult, direction }

/-! ## The points -/

def trendPoints : Alignment → ℤ
  | .conflicting => CONTEXT_TREND / 3
  | .neutral => 0
  | .matching => CONTEXT_TREND

/-- What the evidence is worth before the gate on the ratio. -/
def points (e : Evidence) : ℤ :=
  ⌊e.patternScore * PATTERN_SCORE_MAX⌋ + ((if e.rsiDivergence then CONF_RSI_DIVERGENCE else 0) +
    if e.volumeConfirm then CONF_VOLUME else 0) +
  (trendPoints e.alignment + (if 1 / 2 ≤ e.atrRatio ∧ e.atrRatio ≤ 2 then CONTEXT_ATR else 0) +
    if e.eventClear then CONTEXT_EVENT else 0)

theorem check_points (ok : Bool) (points : ℤ) (reason : String) :
    (check ok points reason).1 = if ok then points else 0 := by
  cases ok <;> rfl

theorem trendContext_points (e : Evidence) :
    (trendContext e.direction e.regimeResult.regime).1 = trendPoints e.alignment := by
  unfold alignment
  cases e.direction <;> cases e.regimeResult.regime <;> rfl

theorem pattern_bounds (e : Evidence) :
    0 ≤ ⌊e.patternScore * PATTERN_SCORE_MAX⌋ ∧ ⌊e.patternScore * PATTERN_SCORE_MAX⌋ ≤ 40 := by
  obtain ⟨hnonneg, hle⟩ := e.normalised
  have hmax : (PATTERN_SCORE_MAX : ℚ) = 40 := by norm_num [PATTERN_SCORE_MAX]
  rw [hmax]
  constructor
  · exact Int.floor_nonneg.mpr (by linarith)
  · have hfloor : (⌊e.patternScore * 40⌋ : ℚ) ≤ 40 := (Int.floor_le _).trans (by linarith)
    exact_mod_cast hfloor

theorem points_bounds (e : Evidence) : 0 ≤ e.points ∧ e.points ≤ 90 := by
  have hpattern := e.pattern_bounds
  have htrend : 0 ≤ trendPoints e.alignment ∧ trendPoints e.alignment ≤ 15 := by
    cases e.alignment <;> decide
  unfold points CONF_RSI_DIVERGENCE CONF_VOLUME CONTEXT_ATR CONTEXT_EVENT
  constructor <;> split_ifs <;> omega

theorem graded_total (e : Evidence) :
    e.graded.total = if MIN_RR_RATIO ≤ e.rrRatio then e.points else max (e.points - 20) 0 := by
  have hcap : min e.points 100 = e.points := min_eq_left (e.points_bounds.2.trans (by norm_num))
  unfold graded gradeSignal
  simp only [check_points, trendContext_points, decide_eq_true_eq]
  change (if MIN_RR_RATIO ≤ e.rrRatio then min e.points 100 else max (min e.points 100 - 20) 0) = _
  rw [hcap]

theorem graded_grade (e : Evidence) : e.graded.grade = gradeOf e.graded.total := rfl

/-! ## The grade -/

def gradeRank : Grade → ℕ
  | .skip => 0
  | .medium => 1
  | .strong => 2

theorem gradeRank_mono {total total' : ℤ} (h : total ≤ total') :
    gradeRank (gradeOf total) ≤ gradeRank (gradeOf total') := by
  unfold gradeOf MIN_SCORE_STRONG MIN_SCORE_MEDIUM
  split_ifs <;> first | omega | decide

theorem gradeOf_eq_skip_iff {total : ℤ} : gradeOf total = .skip ↔ total < 60 := by
  unfold gradeOf MIN_SCORE_STRONG MIN_SCORE_MEDIUM
  split_ifs <;> simp <;> omega

theorem graded_bounds (e : Evidence) : 0 ≤ e.graded.total ∧ e.graded.total ≤ 100 := by
  have hpoints := e.points_bounds
  rw [graded_total]
  split_ifs <;> omega

/-- A low ratio costs twenty points, which is not enough for evidence that is worth eighty. -/
theorem low_ratio_skipped_iff {e : Evidence} (h : e.rrRatio < MIN_RR_RATIO) : e.graded.grade = .skip ↔ e.points < 80 := by
  rw [graded_grade, gradeOf_eq_skip_iff, graded_total, if_neg (not_le.mpr h)]
  omega

/-! ## A more favourable piece -/

variable {e e' : Evidence}

/-- A direction against the market has partial credit, and one in a neutral market has none. -/
def LosesCredit (e e' : Evidence) : Prop := e.alignment = .conflicting ∧ e'.alignment = .neutral

theorem Strengthens.rrRatio_le (h : e.Strengthens e') : e.rrRatio ≤ e'.rrRatio := by
  cases h with
  | rrRatio h => exact h
  | _ => exact le_rfl

theorem trendPoints_mono (h : e.alignment.rank ≤ e'.alignment.rank) (hcredit : ¬ LosesCredit e e') :
    trendPoints e.alignment ≤ trendPoints e'.alignment := by
  unfold LosesCredit at hcredit
  revert h hcredit
  cases e.alignment <;> cases e'.alignment <;> decide

theorem bonus_le (b : Bool) {n : ℤ} (hn : 0 ≤ n) : (if b then n else 0) ≤ n := by
  cases b
  · exact hn
  · exact le_rfl

theorem Strengthens.points_le (h : e.Strengthens e') (hcredit : ¬ LosesCredit e e') : e.points ≤ e'.points := by
  cases h with
  | patternScore h _ =>
      have hfloor := Int.floor_le_floor (mul_le_mul_of_nonneg_right h
        (by norm_num [PATTERN_SCORE_MAX] : (0 : ℚ) ≤ PATTERN_SCORE_MAX))
      unfold points
      dsimp only [alignment] at hfloor ⊢
      omega
  | rsiDivergence =>
      have hbonus := bonus_le e.rsiDivergence (by decide : 0 ≤ CONF_RSI_DIVERGENCE)
      unfold points
      rw [if_pos (rfl : ({ e with rsiDivergence := true } : Evidence).rsiDivergence = true)]
      dsimp only [alignment]
      omega
  | volumeConfirm =>
      have hbonus := bonus_le e.volumeConfirm (by decide : 0 ≤ CONF_VOLUME)
      unfold points
      rw [if_pos (rfl : ({ e with volumeConfirm := true } : Evidence).volumeConfirm = true)]
      dsimp only [alignment]
      omega
  | eventClear =>
      have hbonus := bonus_le e.eventClear (by decide : 0 ≤ CONTEXT_EVENT)
      unfold points
      rw [if_pos (rfl : ({ e with eventClear := true } : Evidence).eventClear = true)]
      dsimp only [alignment]
      omega
  | rrRatio h => exact le_rfl
  | trend h =>
      have htrend := trendPoints_mono h hcredit
      unfold points
      dsimp only at htrend ⊢
      omega

theorem LosesCredit.points_eq (hcredit : LosesCredit e e') (h : e.Strengthens e') :
    e'.rrRatio = e.rrRatio ∧ e'.points = e.points - 5 := by
  obtain ⟨hconflicting, hneutral⟩ := hcredit
  cases h with
  | trend h =>
      refine ⟨rfl, ?_⟩
      unfold points
      rw [hconflicting, hneutral]
      change _ + (0 + _ + _) = _ + (5 + _ + _) - 5
      dsimp only
      omega
  | patternScore h _ => exact absurd (hconflicting.symm.trans hneutral) (by decide)
  | rsiDivergence => exact absurd (hconflicting.symm.trans hneutral) (by decide)
  | volumeConfirm => exact absurd (hconflicting.symm.trans hneutral) (by decide)
  | eventClear => exact absurd (hconflicting.symm.trans hneutral) (by decide)
  | rrRatio h => exact absurd (hconflicting.symm.trans hneutral) (by decide)

/-- The total sinks only where the credit is lost, and there unless the low ratio has taken everything already. -/
theorem Strengthens.total_le_iff (h : e.Strengthens e') :
    e.graded.total ≤ e'.graded.total ↔ ¬ (LosesCredit e e' ∧ ( MIN_RR_RATIO ≤ e.rrRatio ∨ 20 < e.points)) := by
  have hnonneg := e.points_bounds.1
  rw [graded_total, graded_total]
  by_cases hcredit : LosesCredit e e'
  · obtain ⟨hratio, hpoints⟩ := hcredit.points_eq h
    rw [hratio, hpoints]
    split_ifs with hpasses
    · simp only [hcredit, hpasses, true_or, and_self, not_true_eq_false, iff_false]
      omega
    · simp only [hcredit, hpasses, false_or, true_and]
      omega
  · have hpoints := h.points_le hcredit
    have hratio := h.rrRatio_le
    simp only [hcredit, false_and, not_false_eq_true, iff_true]
    split_ifs with hpasses hpasses'
    · exact hpoints
    · exact absurd (hpasses.trans hratio) hpasses'
    · omega
    · omega

end Evidence

end CryptoAggHarmonic.Scan

/-!
# The levels of a scan on the grid of prices

Stop and targets are rounded to ten-thousandths. Counted in these, the stop is an integer, and the targets are rounded
to integers.
-/

namespace CryptoAggHarmonic.Scan

open Rounding

/-! ## Targets on a grid -/

section

variable {x k : ℚ}

/-- Both targets of a trade from `x` with the stop `k` below, rounded: they are in order and the nearer one is at one and
a half, as far as two digits show it. -/
theorem targets_on_grid (hk : 0 < k) :
    (x < halfEven (x + 3 / 2 * k) ∧ halfEven (x + 3 / 2 * k) < halfEven (x + 5 / 2 * k) ∧
        roundTo 2 (|halfEven (x + 3 / 2 * k) - x| / k) = 3 / 2) ↔
      |halfEven (x + 3 / 2 * k) - (x + 3 / 2 * k)| ≤ k / 200 ∧
        (k < 1 → halfEven (x + 3 / 2 * k) ≠ halfEven (x + 5 / 2 * k)) := by
  have hratio : ∀ t : ℚ, x < t →
      (roundTo 2 (|t - x| / k) = 3 / 2 ↔ |t - (x + 3 / 2 * k)| ≤ k / 200) := by
    intro t ht
    have hround : roundTo 2 (|t - x| / k) = 3 / 2 ↔ halfEven ((t - x) / k * 10 ^ 2) = 150 := by
      rw [roundTo, abs_of_pos (sub_pos.mpr ht), div_eq_iff (by norm_num)]
      norm_num
      norm_cast
    rw [hround, halfEven_eq_iff_of_even (by decide), abs_le, div_mul_eq_mul_div, le_div_iff₀ hk, div_le_iff₀ hk]
    push_cast
    constructor
    · rintro ⟨hlow, hhigh⟩
      constructor <;> linarith
    · rintro ⟨hlow, hhigh⟩
      constructor <;> linarith
  constructor
  · rintro ⟨hahead, hlt, hrr⟩
    exact ⟨(hratio _ hahead).mp hrr, fun _ => hlt.ne⟩
  · rintro ⟨hnear, hapart⟩
    have hbounds := abs_le.mp hnear
    have hahead : x < halfEven (x + 3 / 2 * k) := by linarith [hbounds.1]
    refine ⟨hahead, ?_, (hratio _ hahead).mpr hnear⟩
    rcases lt_or_ge k 1 with hsmall | hlarge
    · exact lt_of_le_of_ne (halfEven_mono (by linarith)) (hapart hsmall)
    · have hnext := le_halfEven_add (x := x + 5 / 2 * k)
      have hlt : (halfEven (x + 3 / 2 * k) : ℚ) < halfEven (x + 5 / 2 * k) := by linarith [hbounds.2]
      exact_mod_cast hlt

end

/-! ## The levels -/

structure Levels where
  stop : ℚ
  target1 : ℚ
  target2 : ℚ
  rr : ℚ

def levels (direction : Direction) (entry : ℚ) (bars : List Bar) : Levels :=
  let stop := computeAtrStop direction entry bars
  let target1 := computeTarget entry stop (15 / 10)
  { stop := stop
    target1 := target1
    target2 := computeTarget entry stop (25 / 10)
    rr := computeRr entry stop target1 }

def ScanResult.levels (result : ScanResult) : Levels :=
  ⟨result.stopPrice, result.target1, result.target2, result.rrRatio⟩

def Ordered (direction : Direction) (entry : ℚ) (l : Levels) : Prop :=
  match direction with
  | .bullish => l.stop < entry ∧ entry < l.target1 ∧ l.target1 < l.target2
  | .bearish => entry < l.stop ∧ l.target1 < entry ∧ l.target2 < l.target1 ∧ 0 < l.target2

/-- A trade in the direction, with one and a half times its risk to the first target. -/
structure FormsTrade (direction : Direction) (entry : ℚ) (l : Levels) : Prop where
  ordered : Ordered direction entry l
  ratio : l.rr = roundTo 2 (|l.target1 - entry| / |entry - l.stop|)
  reward : l.rr = 3 / 2

/-- The distance from the entry to the rounded stop, in ten-thousandths. -/
def stopSteps (entry distance : ℚ) : ℚ := entry * 10 ^ 4 - halfEven ((entry - distance) * 10 ^ 4)

/-- The grid of ten-thousandths shows the trade: the stop stays below the entry, the first target is within a
two-hundredth of the risk of the grid, and where the risk is less than a step the second target is rounded elsewhere. -/
structure Resolves (entry distance : ℚ) : Prop where
  stop_below : 0 < stopSteps entry distance
  target_near : |halfEven (entry * 10 ^ 4 + 3 / 2 * stopSteps entry distance) -
    (entry * 10 ^ 4 + 3 / 2 * stopSteps entry distance)| ≤ stopSteps entry distance / 200
  apart : stopSteps entry distance < 1 → halfEven (entry * 10 ^ 4 + 3 / 2 * stopSteps entry distance) ≠
    halfEven (entry * 10 ^ 4 + 5 / 2 * stopSteps entry distance)

theorem computeTarget_eq {entry stop rr k : ℚ} (hk : entry - stop = k / 10 ^ 4) (hpos : 0 < k) :
    computeTarget entry stop rr = halfEven (entry * 10 ^ 4 + rr * k) / 10 ^ 4 := by
  have hrisk : |entry - stop| = k / 10 ^ 4 := by rw [hk, abs_of_pos (by positivity)]
  rw [computeTarget, roundTo, hrisk]
  congr 3
  ring

theorem resolves_iff {entry distance : ℚ} (hpos : 0 < stopSteps entry distance) :
    Resolves entry distance ↔
      |halfEven (entry * 10 ^ 4 + 3 / 2 * stopSteps entry distance) -
        (entry * 10 ^ 4 + 3 / 2 * stopSteps entry distance)| ≤ stopSteps entry distance / 200 ∧
      (stopSteps entry distance < 1 → halfEven (entry * 10 ^ 4 + 3 / 2 * stopSteps entry distance) ≠
        halfEven (entry * 10 ^ 4 + 5 / 2 * stopSteps entry distance)) :=
  ⟨fun h => ⟨h.target_near, h.apart⟩, fun h => ⟨hpos, h.1, h.2⟩⟩

theorem bullish_steps (entry : ℚ) (bars : List Bar) :
    entry - computeAtrStop .bullish entry bars = stopSteps entry (stopDistance entry bars) / 10 ^ 4 := by
  rw [computeAtrStop, roundTo, stopSteps, sub_div, mul_div_assoc, div_self (by norm_num), mul_one]

theorem bullish_forms_trade_iff (entry : ℚ) (bars : List Bar) :
    FormsTrade .bullish entry (levels .bullish entry bars) ↔ Resolves entry (stopDistance entry bars) := by
  have hsteps := bullish_steps entry bars
  rcases lt_or_ge 0 (stopSteps entry (stopDistance entry bars)) with hpos | hneg
  · rw [resolves_iff hpos, ← targets_on_grid hpos]
    generalize stopSteps entry (stopDistance entry bars) = k at hsteps hpos
    have hstop : computeAtrStop .bullish entry bars < entry := by
      rw [← sub_pos, hsteps]
      positivity
    have hrisk : |entry - computeAtrStop .bullish entry bars| = k / 10 ^ 4 := by
      rw [hsteps, abs_of_pos (by positivity)]
    have htarget1 : (levels .bullish entry bars).target1 = halfEven (entry * 10 ^ 4 + 3 / 2 * k) / 10 ^ 4 :=
      (computeTarget_eq hsteps hpos).trans (by norm_num)
    have htarget2 : (levels .bullish entry bars).target2 = halfEven (entry * 10 ^ 4 + 5 / 2 * k) / 10 ^ 4 :=
      (computeTarget_eq hsteps hpos).trans (by norm_num)
    have hreward : |(levels .bullish entry bars).target1 - entry| / |entry - computeAtrStop .bullish entry bars| =
        |halfEven (entry * 10 ^ 4 + 3 / 2 * k) - entry * 10 ^ 4| / k := by
      have hdistance : (levels .bullish entry bars).target1 - entry =
          (halfEven (entry * 10 ^ 4 + 3 / 2 * k) - entry * 10 ^ 4) / 10 ^ 4 := by
        rw [htarget1, sub_div, mul_div_assoc, div_self (by norm_num), mul_one]
      rw [hdistance, hrisk, abs_div, abs_of_pos (by norm_num : (0 : ℚ) < 10 ^ 4)]
      field_simp
    have hrr : (levels .bullish entry bars).rr =
        roundTo 2 (|(levels .bullish entry bars).target1 - entry| / |entry - computeAtrStop .bullish entry bars|) :=
      if_neg (by rw [hrisk]; positivity)
    have hahead : entry < (levels .bullish entry bars).target1 ↔
        entry * 10 ^ 4 < halfEven (entry * 10 ^ 4 + 3 / 2 * k) := by
      rw [htarget1, lt_div_iff₀ (by norm_num)]
    have hnext : (levels .bullish entry bars).target1 < (levels .bullish entry bars).target2 ↔
        halfEven (entry * 10 ^ 4 + 3 / 2 * k) < halfEven (entry * 10 ^ 4 + 5 / 2 * k) := by
      rw [htarget1, htarget2, div_lt_div_iff_of_pos_right (by norm_num), Int.cast_lt]
    rw [← hahead, ← hnext, ← hreward, ← hrr]
    exact ⟨fun h => ⟨h.ordered.2.1, h.ordered.2.2, h.reward⟩, fun h => ⟨⟨hstop, h.1, h.2.1⟩, hrr, h.2.2⟩⟩
  · refine iff_of_false (fun h => ?_) fun h => absurd h.stop_below (not_lt.mpr hneg)
    have hstop : 0 < entry - computeAtrStop .bullish entry bars := sub_pos.mpr h.ordered.1
    rw [hsteps] at hstop
    exact absurd hstop (not_lt.mpr (div_nonpos_of_nonpos_of_nonneg hneg (by norm_num)))

/-- A bearish target is at the stop or beyond it. -/
theorem bearish_not_ordered (entry : ℚ) (bars : List Bar) : ¬ Ordered .bearish entry (levels .bearish entry bars) := by
  rintro ⟨hstop, htarget, -⟩
  have hgrid : roundTo 4 (levels .bearish entry bars).stop = (levels .bearish entry bars).stop := roundTo_roundTo
  have hbeyond : (levels .bearish entry bars).stop ≤
      entry + 15 / 10 * |entry - (levels .bearish entry bars).stop| := by
    rw [abs_of_neg (sub_neg.mpr hstop)]
    linarith
  have hround : (levels .bearish entry bars).stop ≤ (levels .bearish entry bars).target1 := by
    rw [← hgrid]
    exact le_roundTo_of_roundTo_le (hgrid.le.trans hbeyond)
  linarith

/-! ## What a scan returns -/

/-- A graded candidate. -/
structure Graded (bars : List Bar) (candidate : Candidate) (result : ScanResult) : Prop where
  direction : result.direction = some candidate.direction
  entry : result.entryPrice = candidate.entryPrice
  levels : result.levels = levels candidate.direction result.entryPrice bars
  skip_reason : ∀ reason, result.skipReason = some reason → ∃ reasons, reason = .graded reasons

section

variable {pd : Pandas} {symbol : String} {regimeResult : MarketRegimeResult} {result : ScanResult} {bars : List Bar}
  {candidate : Candidate}

theorem gradeCandidate_eq_ok (h : gradeCandidate pd symbol regimeResult bars candidate = .ok result) :
    Graded bars candidate result := by
  unfold gradeCandidate at h
  cases hrsi : computeRsiDivergence pd bars with
  | error e => simp [hrsi, bind, Except.bind] at h
  | ok rsiDiv =>
      simp only [hrsi, bind, Except.bind, pure, Except.pure, Except.ok.injEq] at h
      subst h
      refine ⟨rfl, rfl, rfl, fun reason hreason => ?_⟩
      exact ⟨_, (Option.some.inj (Option.ite_none_left_eq_some.mp hreason).2).symm⟩

/-- What `scan_symbol` can come to: a skip for an event, another skip, a graded candidate. -/
theorem scanWith_cases (h : scanWith pd symbol regimeResult = .ok result) :
    (regimeResult.eventBlocked = true ∧ result = makeSkip symbol (.eventBlocked regimeResult.blockReason)) ∨
    (∃ reason, regimeResult.eventBlocked = false ∧ (∀ block, reason ≠ .eventBlocked block) ∧
      result = makeSkip symbol reason) ∨
    ∃ bars candidate, regimeResult.eventBlocked = false ∧ regimeResult.bars4h = some bars ∧
      gradeCandidate pd symbol regimeResult bars candidate = .ok result := by
  unfold scanWith at h
  cases hblocked : regimeResult.eventBlocked with
  | true =>
      rw [if_pos hblocked, Except.ok.injEq] at h
      exact Or.inl ⟨rfl, h.symm⟩
  | false =>
      rw [if_neg (by rw [hblocked]; exact Bool.false_ne_true)] at h
      right
      split at h
      · exact Or.inl ⟨.noBarData, rfl, by simp, (Except.ok.inj h).symm⟩
      · exact Or.inl ⟨.noBarData, rfl, by simp, (Except.ok.inj h).symm⟩
      · rename_i bars _ hbars
        split at h
        · exact Or.inl ⟨.noCandidate, rfl, by simp, (Except.ok.inj h).symm⟩
        · rename_i candidate _
          split_ifs at h
          · exact Or.inr ⟨bars, candidate, rfl, hbars, h⟩
          · exact Or.inl ⟨_, rfl, by simp, (Except.ok.inj h).symm⟩

end

end CryptoAggHarmonic.Scan
