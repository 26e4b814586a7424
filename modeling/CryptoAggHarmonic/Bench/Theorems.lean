import CryptoAggHarmonic.Bench.Dataset
import CryptoAggHarmonic.Bench.Confidence
import CryptoAggHarmonic.Bench.Lemmas.Metrics
import CryptoAggHarmonic.Bench.Lemmas.Stages

/-!
# Properties of the bench

When the score of a configuration does not depend on the order of its records, when the stages after the backtest see the
R multiple of the trade and nothing of an earlier run, what is measured on a trade, the ranges of the scores, the
confidence in a win rate, and the split of the dataset.
-/

namespace CryptoAggHarmonic.Bench

open Domain Backtest Rounding

/-! ## The order of the records -/

theorem signalScore_of_mem {records : List SignalRecord} {rec : SignalRecord} (h : OrderIndependent records)
    (hrec : rec ∈ records) : (aggregate records).1.signalScore = rec.score := by
  obtain ⟨before, after, rfl⟩ := List.append_of_mem hrec
  rw [← (h (rec :: (before ++ after)) List.perm_middle).1, aggregate_cons]
  rfl

/-- A gartley with all marks in the first stage and these in the third. -/
def scoredRecord (stage3 : ℚ) : SignalRecord where
  signalId := "sid"
  patternFamily := "gartley"
  direction := .long
  entryPrice := some 100
  stopPrice := some 95
  tp1 := some 110
  atrAtEntry := 2
  stage1Score := some 12
  stage3Score := some stage3
  stage4aScore := some 20
  stage4bScore := some 10

theorem cellOf_rMultiple (rec : SignalRecord) : cellOf rec "r_multiple" = number rec.netRr := by
  have hattr : attrOf "r_multiple" = some "net_rr" := by decide
  rw [cellOf, hattr]
  rfl

/-- A run hands on what it is to hand on exactly when there is no trade and nothing to hand on. -/
theorem handsOn_iff {rec rec' : SignalRecord} {df : Frame} {tp1 : Option ℚ} {trade : Option Trade}
    (h : stage2Backtest rec df tp1 = .ok (rec', trade)) :
    HandsOn rec df tp1 rec' trade ↔ Untouched rec df ∧ Unmeasured rec := by
  rcases stage2_cases h with ⟨huntouched, rfl, -⟩ | ⟨htouched, ⟨t, rfl⟩, -⟩
  · obtain ⟨target, rfl, hfresh⟩ := stage2_fresh h
    constructor
    · rintro ⟨-, hrerun⟩
      rw [hfresh, Except.ok.injEq, Prod.mk.injEq] at hrerun
      exact ⟨huntouched, (cleared_fresh_iff target).mp hrerun.1⟩
    · rintro ⟨-, hunmeasured⟩
      refine ⟨by simp, ?_⟩
      rw [hfresh, (cleared_fresh_iff target).mpr hunmeasured]
  · simp only [htouched, false_and, iff_false]
    rintro ⟨husesR, hrerun⟩
    -- nothing sets the attribute that the later stages read
    have hnone : rec'.netRr = none := by
      rcases stage2_cases hrerun with ⟨-, -, target, -, rfl⟩ | ⟨-, -, hkept⟩
      · rfl
      · exact hkept
    have hcolumn := (husesR t rfl).column
    rw [cellOf_rMultiple, hnone] at hcolumn
    cases hcolumn

/-- **Handing on**: two runs of the second stage hand on their R multiples, tell different ones apart and leave nothing
of an earlier run exactly when neither has a trade and the record has no measurements. -/
theorem stage2_handsOn_iff (rec : SignalRecord) (df₁ df₂ : Frame) (tp1 : Option ℚ) (rec₁ rec₂ : SignalRecord)
    (trade₁ trade₂ : Option Trade) (h₁ : stage2Backtest rec df₁ tp1 = .ok (rec₁, trade₁))
    (h₂ : stage2Backtest rec df₂ tp1 = .ok (rec₂, trade₂)) :
    (HandsOn rec df₁ tp1 rec₁ trade₁ ∧ HandsOn rec df₂ tp1 rec₂ trade₂ ∧ Distinguishes rec₁ rec₂ trade₁ trade₂) ↔
      Untouched rec df₁ ∧ Untouched rec df₂ ∧ Unmeasured rec := by
  rw [handsOn_iff h₁, handsOn_iff h₂]
  constructor
  · rintro ⟨⟨hfirst, hunmeasured⟩, ⟨hsecond, -⟩, -⟩
    exact ⟨hfirst, hsecond, hunmeasured⟩
  · rintro ⟨hfirst, hsecond, hunmeasured⟩
    refine ⟨⟨hfirst, hunmeasured⟩, ⟨hsecond, hunmeasured⟩, fun t _ htrade => ?_⟩
    rcases stage2_cases h₁ with ⟨-, hnone, -⟩ | ⟨htouched, -⟩
    · rw [hnone] at htrade
      cases htrade
    · exact absurd hfirst htouched

/-- A long from 100 with its stop at 95 and its target at 110, not traded yet. -/
def freshSignal : SignalRecord where
  signalId := "sid"
  patternFamily := "gartley"
  direction := .long
  entryPrice := some 100
  stopPrice := some 95
  tp1 := some 110
  atrAtEntry := 2

def hourly (bars : List (ℚ × ℚ × ℚ)) : Frame where
  rows := bars.zipIdx.map fun (bar, i) =>
    { openPrice := bar.2.2, high := bar.1, low := bar.2.1, close := bar.2.2, volume := 1, index := i }

/-- A market that stays over the entry. -/
theorem untouched_handsOn : Distinguishes (freshSignal.cleared 110) (freshSignal.cleared 110) none none ∧
    HandsOn freshSignal (hourly [(102, 101, 101)]) none (freshSignal.cleared 110) none := by
  have hrun : stage2Backtest freshSignal (hourly [(102, 101, 101)]) none = .ok (freshSignal.cleared 110, none) := by
    decide
  have huntouched : Untouched freshSignal (hourly [(102, 101, 101)]) := by
    intro entry hentry
    cases hentry
    decide
  obtain ⟨hfirst, -, hdistinguishes⟩ := (stage2_handsOn_iff freshSignal _ _ none _ _ none none hrun hrun).mpr
    ⟨huntouched, huntouched, by simp [Unmeasured, freshSignal]⟩
  exact ⟨hdistinguishes, hfirst⟩

/-- The trade earns twice its risk, and the third stage gives no mark for it. -/
theorem target_unseen : ∃ rec trade, stage2Backtest freshSignal (hourly [(102, 99, 100), (110, 99, 109)]) none =
      .ok (rec, some trade) ∧ trade.rMultiple = 2 ∧ rec.rrScore = 0 ∧ rrSubscore (some 2) = 7 ∧ ¬ UsesR rec trade := by
  have hrun : (stage2Backtest freshSignal (hourly [(102, 99, 100), (110, 99, 109)]) none).toOption.map
      (fun x => (x.1.rrScore, x.2.map Trade.rMultiple)) = some (0, some 2) := by decide +kernel
  cases h : stage2Backtest freshSignal (hourly [(102, 99, 100), (110, 99, 109)]) none with
  | error e =>
      rw [h] at hrun
      cases hrun
  | ok x =>
      obtain ⟨rec, trade⟩ := x
      rw [h] at hrun
      obtain ⟨hscore, htrade⟩ := Prod.mk.inj (Option.some.inj hrun)
      obtain ⟨t, rfl, hr⟩ := Option.map_eq_some_iff.mp htrade
      have hseven : rrSubscore (some 2) = 7 := by decide
      refine ⟨rec, t, rfl, hr, hscore, hseven, fun huses => ?_⟩
      have hsubscore := huses.subscore
      rw [hr, hseven] at hsubscore
      simp only at hscore
      rw [hscore] at hsubscore
      norm_num at hsubscore

/-! ## What is measured -/

section

variable {direction : Direction} {entryPrice stopPrice targetPrice atrAtEntry : ℚ} {rows : List Candle}

/-- The metrics of a trade over the bars it was held. Where the target is reached only in bars after the first one that
reaches the stop, nothing is said of `hit_stop_before_tp`. -/
structure Measures (rows : List Candle) (entryPrice stopPrice targetPrice : ℚ) (direction : Direction)
    (m : TradeMetrics) : Prop where
  mae : IsGreatest {x | ∃ row ∈ rows, adverseExcursion direction entryPrice row = x} m.mae
  mfe : IsGreatest {x | ∃ row ∈ rows, favourableExcursion direction entryPrice row = x} m.mfe
  callbackBars : m.callbackBars =
    if m.mae = 0 then 0 else (rows.map (adverseExcursion direction entryPrice)).idxOf m.mae + 1
  stopped : (∃ row ∈ rows, reachesStop direction stopPrice row = true) →
    (∀ row ∈ rows, reachesTarget direction targetPrice row = false) → m.hitStopBeforeTp = true
  notStopped : (∀ row ∈ rows, reachesStop direction stopPrice row = false) → m.hitStopBeforeTp = false
  targetFirst : ∀ before row after, rows = before ++ row :: after → reachesTarget direction targetPrice row = true →
    (∀ r ∈ before, reachesStop direction stopPrice r = false) → m.hitStopBeforeTp = false

/-- The place of the first touch of the target, counted from 0, as a share of the bars held. -/
structure Efficient (rows : List Candle) (targetPrice : ℚ) (direction : Direction) (held : ℕ)
    (efficiency : Option ℚ) : Prop where
  touched : ∀ before row after, rows = before ++ row :: after → reachesTarget direction targetPrice row = true →
    (∀ r ∈ before, reachesTarget direction targetPrice r = false) → efficiency = some ((before.length : ℚ) / held)
  untouched : (∀ row ∈ rows, reachesTarget direction targetPrice row = false) → efficiency = some 0
  range : ∃ e ∈ Set.Ico (0 : ℚ) 1, efficiency = some e

theorem measures_of_levels (hrows : rows ≠ []) (hlevels : ValidLevels direction entryPrice stopPrice targetPrice)
    (hatr : 0 < atrAtEntry) :
    ∃ m, computeTradeMetrics rows entryPrice stopPrice targetPrice direction atrAtEntry = .ok m ∧
      Measures rows entryPrice stopPrice targetPrice direction m := by
  obtain ⟨m, hm, hmae, hmfe, hbars, hstop⟩ := computeTradeMetrics_eq hrows hlevels hatr
  refine ⟨m, hm, ?_, ?_, ?_, fun hhit hnone => ?_, fun hnone => ?_, fun before row after hsplit htarget hbefore => ?_⟩
  · exact hmae ▸ isGreatest_excursions hrows adverseExcursion_nonneg
  · exact hmfe ▸ isGreatest_excursions hrows favourableExcursion_nonneg
  · rw [hbars, Peak.place_peak, ← hmae]
    split_ifs <;> rfl
  · obtain ⟨row, hrow, hreach⟩ := hhit
    obtain ⟨before, after, rfl⟩ := List.append_of_mem hrow
    refine hstop.mpr ⟨⟨before, row, after, rfl, hreach, fun r hr => hnone r (List.mem_append_left _ hr)⟩, ?_⟩
    exact List.any_eq_false.mpr fun r hr => by simp [hnone r hr]
  · rw [← Bool.not_eq_true, hstop]
    rintro ⟨⟨before, row, after, rfl, hreach, -⟩, -⟩
    rw [hnone row (by simp)] at hreach
    cases hreach
  · rw [← Bool.not_eq_true, hstop]
    rintro ⟨-, hnone⟩
    have hrow := List.any_eq_false.mp hnone row (by simp [hsplit])
    exact hrow htarget

theorem efficient_of_findTpBar {outcome : Outcome} {held : ℕ} (hwins : outcome = .tp1 ∨ outcome = .tp2 ∨ outcome = .tp3)
    (hpos : 0 < held) (hheld : rows.length ≤ held) :
    Efficient rows targetPrice direction held
      (some (priceEfficiencyFor outcome (findTpBar rows direction targetPrice) held)) := by
  have hq : (0 : ℚ) < held := by exact_mod_cast hpos
  have hnone : ∀ bar, priceEfficiencyFor outcome bar held = bar.elim 0 fun bar => min ((bar : ℚ) / held) 1 := by
    intro bar
    rcases hwins with rfl | rfl | rfl <;> cases bar <;> simp [priceEfficiencyFor, hpos.ne']
  have hsome : ∀ bar, findTpBar rows direction targetPrice = some bar → (bar : ℚ) / held ∈ Set.Ico (0 : ℚ) 1 := by
    intro bar hbar
    have hlt : bar < rows.length := (List.findIdx?_eq_some_iff_getElem.mp hbar).1
    have hlt' : (bar : ℚ) < held := by exact_mod_cast hlt.trans_le hheld
    exact ⟨by positivity, (div_lt_one hq).mpr hlt'⟩
  have hfind : findTpBar rows direction targetPrice = rows.findIdx? (reachesTarget direction targetPrice) := rfl
  refine ⟨fun before row after hsplit htarget hbefore => ?_, fun hall => ?_, ?_⟩
  · have hbar : findTpBar rows direction targetPrice = some before.length := by
      rw [hfind, hsplit, List.findIdx?_append, List.findIdx?_eq_none_iff.mpr hbefore, List.findIdx?_cons, htarget]
      simp
    rw [hnone, hbar, Option.elim_some, min_eq_left (hsome _ hbar).2.le]
  · rw [hnone, hfind, List.findIdx?_eq_none_iff.mpr hall, Option.elim_none]
  · rw [hnone]
    cases hbar : findTpBar rows direction targetPrice with
    | none => exact ⟨0, by norm_num, rfl⟩
    | some bar => exact ⟨_, hsome bar hbar, by rw [Option.elim_some, min_eq_left (hsome bar hbar).2.le]⟩

/-- **The metrics** of a trade, and of its record when it has won. -/
theorem metrics_match (rows : List Candle) (entryPrice stopPrice targetPrice atrAtEntry : ℚ) (direction : Direction)
    (hrows : rows ≠ []) (hlevels : ValidLevels direction entryPrice stopPrice targetPrice) (hatr : 0 < atrAtEntry) :
    ∃ m, computeTradeMetrics rows entryPrice stopPrice targetPrice direction atrAtEntry = .ok m ∧
      Measures rows entryPrice stopPrice targetPrice direction m ∧
      ∀ (rec : SignalRecord) (held : ℕ), rec.direction = direction → rec.atrAtEntry = atrAtEntry → rec.wins = true →
        rec.barsHeld = some held → rows.length ≤ held →
          ∃ efficiency, applyTradeMetrics rec rows entryPrice stopPrice targetPrice =
              .ok { writeMetrics rec m with priceEfficiency := efficiency } ∧
            Efficient rows targetPrice direction held efficiency := by
  obtain ⟨m, hm, hmeasures⟩ := measures_of_levels hrows hlevels hatr
  refine ⟨m, hm, hmeasures, fun rec held hdirection hrecAtr hwins hbarsHeld hheld => ?_⟩
  have hpos : 0 < held := (List.length_pos_iff.mpr hrows).trans_le hheld
  obtain ⟨n, rfl⟩ := Nat.exists_eq_add_one_of_ne_zero hpos.ne'
  have happly : ∀ outcome, rec.outcome = some outcome →
      applyTradeMetrics rec rows entryPrice stopPrice targetPrice = .ok { writeMetrics rec m with
        priceEfficiency := some (priceEfficiencyFor outcome (findTpBar rows direction targetPrice) (n + 1)) } := by
    intro outcome houtcome
    simp only [applyTradeMetrics, hdirection, hrecAtr, hm, houtcome, hbarsHeld]
    rfl
  rw [SignalRecord.wins, decide_eq_true_eq] at hwins
  rcases hwins with hwon | hwon | hwon
  · exact ⟨_, happly _ hwon, efficient_of_findTpBar (by simp) hpos hheld⟩
  · exact ⟨_, happly _ hwon, efficient_of_findTpBar (by simp) hpos hheld⟩
  · exact ⟨_, happly _ hwon, efficient_of_findTpBar (by simp) hpos hheld⟩

/-- A long from 100, stopped at 95 on its second bar. -/
theorem stopped_measured : ∃ m, computeTradeMetrics (hourly [(102, 99, 100), (101, 94, 95)]).rows 100 95 110 .long 2 =
      .ok m ∧ Measures (hourly [(102, 99, 100), (101, 94, 95)]).rows 100 95 110 .long m := by
  obtain ⟨m, hm, hmeasures, -⟩ := metrics_match (hourly [(102, 99, 100), (101, 94, 95)]).rows 100 95 110 2 .long
    (by decide) ⟨by norm_num, by norm_num, by simp⟩ (by norm_num)
  exact ⟨m, hm, hmeasures⟩

/-- One bar reaches the stop and the target. -/
theorem bothHit_not_stopFirst : ¬ ∀ rows entryPrice stopPrice targetPrice atrAtEntry direction m,
    computeTradeMetrics rows entryPrice stopPrice targetPrice direction atrAtEntry = .ok m →
      (m.hitStopBeforeTp = true ↔ StopFirst direction stopPrice targetPrice rows) := by
  intro h
  have hbar := h (hourly [(110, 95, 110)]).rows 100 95 110 2 .long _ rfl
  exact absurd (hbar.mpr ⟨[], _, [], rfl, by decide +kernel, by simp⟩) (by decide +kernel)

end

/-! ## The ranges of the scores -/

/-- **Ranges**: only the penalty for a stop takes a score below zero, and nothing above its maximum. -/
theorem scores_in_range (records : List SignalRecord) (h : ∀ rec ∈ records, Produced rec) :
    (∀ rec ∈ records, InRange rec ∧
      (rec.hitStopBeforeTp ≠ some true → ∀ s ∈ (stage3Score rec).stage3Score, 0 ≤ s) ∧
      rec.score ∈ Set.Icc (-5 : ℚ) 100 ∧ (0 ≤ rec.stage3Score.getD 0 → 0 ≤ rec.score)) ∧
    (records ≠ [] → ∃ c, (configScoreWithPatterns records).1 = some c ∧ ConfigInRange records c ∧
      ∀ signal ∈ Set.Icc (-5 : ℚ) 100, benchTotal signal (some c) ≤ 100 ∧
        (-2 ≤ c → -4 ≤ benchTotal signal (some c)) ∧ (0 ≤ signal → 0 ≤ c → 0 ≤ benchTotal signal (some c))) := by
  refine ⟨fun rec hrec => ?_, fun hne => ?_⟩
  · have hrange := (h rec hrec).inRange
    refine ⟨hrange, fun hkept s hs => ?_, hrange.score, fun hstage3 => ?_⟩
    · have hpenalty : ((0 : ℤ) : ℚ) ≤ stopHitPenalty rec := by simp [stopHitPenalty, hkept]
      exact_mod_cast (stage3Score_mem le_rfl hpenalty s hs).1
    · exact_mod_cast (score_mem (m := 0) hrange le_rfl (by exact_mod_cast hstage3)).1
  · obtain ⟨c, hc, hle, hge⟩ := config_bounds hne
    have hsignals : ∀ rec ∈ records, ∀ s ∈ rec.signalScore, s ∈ Set.Icc (-5 : ℚ) 100 :=
      fun rec hrec => (h rec hrec).inRange.signal
    have hhigh := hle fun rec hrec s hs => (hsignals rec hrec s hs).2
    refine ⟨c, hc, ⟨hhigh, fun hwinners => ?_, fun hwinners hnonneg => ?_⟩, fun signal hsignal => ⟨?_, ?_, ?_⟩⟩
    · exact_mod_cast hge (-2) (by norm_num) hwinners fun rec hrec s hs => by
        push_cast
        linarith [(hsignals rec hrec s hs).1]
    · exact_mod_cast hge 0 le_rfl hwinners fun rec hrec s hs => by simpa using hnonneg rec hrec s hs
    · refine roundTo_le_intCast (n := 100) ?_
      norm_num [W_SIGNAL, W_CONFIG]
      linarith [hsignal.2]
    · intro hconfig
      refine le_trans (by norm_num) (intCast_le_roundTo (m := -4) ?_)
      norm_num [W_SIGNAL, W_CONFIG]
      linarith [hsignal.1]
    · intro hsignal₀ hconfig
      refine le_trans (by norm_num) (intCast_le_roundTo (m := 0) ?_)
      norm_num [W_SIGNAL, W_CONFIG]
      linarith

theorem freshSignal_produced (rec : SignalRecord) (hrun : Relation.ReflTransGen Scores freshSignal rec) :
    Produced rec := ⟨freshSignal, rfl, rfl, rfl, rfl, rfl, hrun⟩

theorem freshSignal_inRange : InRange (stage3Score freshSignal) :=
  ((scores_in_range [stage3Score freshSignal] (by
    simpa using freshSignal_produced _ (.single (.stage3 freshSignal)))).1 _ List.mem_cons_self).1

/-- The trade is stopped out on its second bar. -/
theorem penalty_below_zero : ¬ ∀ rec, Produced rec → ∀ s ∈ rec.stage3Score, 0 ≤ s := by
  intro h
  have hrun : ((stage2Backtest freshSignal (hourly [(102, 99, 100), (101, 94, 95)]) none).toOption.map fun x =>
      (stage3Score x.1).stage3Score) = some (some (-4)) := by decide +kernel
  cases hstage2 : stage2Backtest freshSignal (hourly [(102, 99, 100), (101, 94, 95)]) none with
  | error e =>
      rw [hstage2] at hrun
      cases hrun
  | ok x =>
      obtain ⟨rec, trade⟩ := x
      rw [hstage2] at hrun
      have hproduced := freshSignal_produced _ ((Relation.ReflTransGen.single (.stage2 hstage2)).tail (.stage3 rec))
      have hnonneg := h _ hproduced (-4) (Option.some.inj hrun)
      norm_num at hnonneg

/-! ## Confidence -/

/-- **The Wilson interval** holds the share, is mirrored, and grows with the wins; so does the confidence. -/
theorem wilsonCi_monotone (n : ℤ) (alpha : ℚ) (hn : 0 < n) (hz : ∃ z, zForAlpha alpha = .ok z) :
    (∀ s, 0 ≤ s → s ≤ n → ∃ lower upper, wilsonCi s n alpha = .ok (lower, upper) ∧
      0 ≤ lower ∧ lower ≤ s / n ∧ (s / n : ℝ) ≤ upper ∧ upper ≤ 1 ∧
      wilsonCi (n - s) n alpha = .ok (1 - upper, 1 - lower)) ∧
    (∀ s t, 0 ≤ s → s ≤ t → t ≤ n → ∃ lower upper lower' upper', wilsonCi s n alpha = .ok (lower, upper) ∧
      wilsonCi t n alpha = .ok (lower', upper') ∧ lower ≤ lower' ∧ upper ≤ upper') ∧
    ∀ before after limits losing winning, isWin losing = false → isWin winning = true →
      lowConfidence (before ++ losing :: after) limits = .ok false →
      lowConfidence (before ++ winning :: after) limits = .ok false := by
  obtain ⟨z, hz⟩ := hz
  have hc : 0 ≤ width z n := width_nonneg hn
  refine ⟨?_, ?_, ?_⟩
  · intro s hs hsn
    have hp : (0 : ℝ) ≤ s / n := share_nonneg hn hs
    have hp' : (s / n : ℝ) ≤ 1 := share_le_one hn hsn
    refine ⟨_, _, wilsonCi_eq hn hs hsn hz, lowerRoot_nonneg hc hp, lowerRoot_le hc hp hp', le_upperRoot hc hp hp',
      upperRoot_le_one hc hp', ?_⟩
    rw [wilsonCi_eq hn (by omega) (by omega) hz, share_mirror hn, upperRoot_eq hc, upperRoot_eq hc, sub_sub_cancel,
      sub_sub_cancel]
  · intro s t hs hst ht
    refine ⟨_, _, _, _, wilsonCi_eq hn hs (hst.trans ht) hz, wilsonCi_eq hn (hs.trans hst) ht hz, ?_, ?_⟩
    · exact lowerRoot_mono hc (share_nonneg hn hs) (share_le hn hst) (share_le_one hn ht)
    · exact upperRoot_mono hc (share_nonneg hn hs) (share_le hn hst) (share_le_one hn ht)
  · intro before after limits losing winning hlosing hwinning hpass
    have hlength : (before ++ winning :: after).length = (before ++ losing :: after).length := by simp
    have hwins : (before ++ losing :: after).countP isWin ≤ (before ++ winning :: after).countP isWin := by
      simp [List.countP_append, List.countP_cons, hlosing, hwinning]
    rw [lowConfidence_false_iff (by simp)] at hpass ⊢
    obtain ⟨hlong, hlower, hupper⟩ := hpass
    have hcount : (0 : ℤ) < (before ++ losing :: after).length := by
      rw [List.length_append, List.length_cons]
      omega
    rw [hlength]
    have hle := share_le hcount (Int.ofNat_le.mpr hwins)
    have hone := share_le_one hcount (hlength ▸ Int.ofNat_le.mpr (List.countP_le_length (p := isWin)
      (l := before ++ winning :: after)))
    have hzero := share_nonneg hcount (Int.natCast_nonneg ((before ++ losing :: after).countP isWin))
    simp only [Int.cast_natCast] at hle hone hzero
    have hwidth := width_nonneg (z := 1.96) hcount
    exact ⟨hlong, hlower.trans (lowerRoot_mono hwidth hzero hle hone),
      hupper.trans (upperRoot_mono hwidth hzero hle hone)⟩

theorem tenTrades_monotone : ∃ lower upper, wilsonCi 3 10 0.05 = .ok (lower, upper) ∧ lower ≤ 3 / 10 ∧ 3 / 10 ≤ upper := by
  obtain ⟨lower, upper, hrun, -, hlower, hupper, -⟩ :=
    (wilsonCi_monotone 10 0.05 (by norm_num) ⟨_, zForAlpha_default⟩).1 3 (by norm_num) (by norm_num)
  exact ⟨lower, upper, hrun, by simpa using hlower, by simpa using hupper⟩

/-! ## The split -/

section

variable {barIndexOf : String → Option ℤ} {boundary e h : ℤ} {horizon : Option ℤ}
  {horizonOf : Option (String → Option ℤ)} {rec : SplitRecord}

/-- The bars of a signal at the entry bar `e` with the horizon `h`. -/
def usedBars (e h : ℤ) : List ℤ := (List.range h.toNat).map fun k : ℕ => e + k

/-- The share of the bars of a signal that are not past the boundary. -/
def inSampleShare (e h boundary : ℤ) : ℚ := (usedBars e h).countP (· ≤ boundary) / (usedBars e h).length

/-- The horizons that a caller passes: one for all the records, or a positive one for each. -/
structure PositiveHorizons (horizon : Option ℤ) (horizonOf : Option (String → Option ℤ)) (records : List SplitRecord) :
    Prop where
  uniform : horizonOf = none → ∃ h, horizon = some h ∧ 0 < h
  positive : ∀ rec ∈ records, ∃ h, horizonFor horizon horizonOf rec.signalId = some h ∧ 0 < h

@[simp] theorem assignOne_signalId : (assignOne barIndexOf boundary rec).signalId = rec.signalId := by
  unfold assignOne
  split <;> rfl

@[simp] theorem markOne_signalId : (markOne barIndexOf boundary horizon horizonOf rec).signalId = rec.signalId := by
  unfold markOne
  split
  · rfl
  · split
    · rfl
    · dsimp only
      split_ifs <;> rfl

@[simp] theorem markOne_split : (markOne barIndexOf boundary horizon horizonOf rec).split = rec.split := by
  unfold markOne
  split
  · rfl
  · split
    · rfl
    · dsimp only
      split_ifs <;> rfl

theorem assignOne_split (he : barIndexOf rec.signalId = some e) :
    (assignOne barIndexOf boundary rec).split = some (if e ≤ boundary then "is" else "oos") := by
  rw [assignOne, he]

/-- The marks of a record whose index and horizon are known. -/
theorem markOne_known (he : barIndexOf rec.signalId = some e) (hh : horizonFor horizon horizonOf rec.signalId = some h)
    (hpos : 0 < h) :
    (e ≤ boundary ∧ boundary < e + h - 1 ∧ (markOne barIndexOf boundary horizon horizonOf rec).crossesBoundary = true ∧
      (markOne barIndexOf boundary horizon horizonOf rec).boundaryDistanceBars = some (e + h - 1 - boundary)) ∨
    (e ≤ boundary → e + h - 1 ≤ boundary) ∧
      (markOne barIndexOf boundary horizon horizonOf rec).crossesBoundary = false := by
  have hnot : ¬h ≤ 0 := by omega
  rw [markOne, he]
  dsimp only
  rw [hh]
  dsimp only
  rw [if_neg hnot]
  split_ifs with hcross
  · exact Or.inl ⟨hcross.1, hcross.2, rfl, rfl⟩
  · exact Or.inr ⟨fun hle => by omega, rfl⟩

theorem markOne_unknown (he : barIndexOf rec.signalId = none) :
    (markOne barIndexOf boundary horizon horizonOf rec).crossesBoundary = false := by
  rw [markOne, he]
  rfl

theorem mem_usedBars {b : ℤ} : b ∈ usedBars e h ↔ e ≤ b ∧ b < e + h := by
  simp only [usedBars, List.mem_map, List.mem_range]
  constructor
  · rintro ⟨k, hk, rfl⟩
    omega
  · intro hb
    exact ⟨(b - e).toNat, by omega, by omega⟩

theorem countP_range_lt (n m : ℕ) : (List.range n).countP (· < m) = min n m := by
  induction n with
  | zero => simp
  | succ n ih =>
      rw [List.range_succ, List.countP_append, ih, List.countP_singleton]
      by_cases hlt : n < m
      · simp only [hlt, decide_true, if_true]
        omega
      · simp only [hlt, decide_false, Bool.false_eq_true, if_false]
        omega

theorem inSampleShare_crossing (hle : e ≤ boundary) (hlt : boundary < e + h - 1) :
    inSampleShare e h boundary = 1 - ((e + h - 1 - boundary : ℤ) : ℚ) / h := by
  have hcount : (usedBars e h).countP (· ≤ boundary) = (boundary + 1 - e).toNat := by
    have hbar : ((fun b : ℤ => decide (b ≤ boundary)) ∘ fun k : ℕ => e + (k : ℤ)) =
        fun k => decide (k < (boundary + 1 - e).toNat) := by
      funext k
      rw [Function.comp, decide_eq_decide]
      omega
    rw [usedBars, List.countP_map, hbar, countP_range_lt]
    omega
  have hlength : ((usedBars e h).length : ℚ) = h := by
    have : ((usedBars e h).length : ℤ) = h := by
      rw [usedBars, List.length_map, List.length_range]
      omega
    exact_mod_cast this
  have hshare : (((boundary + 1 - e).toNat : ℕ) : ℚ) = boundary + 1 - e := by
    have : (((boundary + 1 - e).toNat : ℕ) : ℤ) = boundary + 1 - e := by omega
    exact_mod_cast this
  have hne : (h : ℚ) ≠ 0 := by
    have : h ≠ 0 := by omega
    exact_mod_cast this
  rw [inSampleShare, hcount, hlength, hshare]
  field_simp
  push_cast
  ring

theorem boundaryDiscount_unmarked (hcross : rec.crossesBoundary = false) : boundaryDiscount rec h = 1 := by
  rw [boundaryDiscount, if_pos hcross]

theorem boundaryDiscount_marked {distance : ℤ} (hcross : rec.crossesBoundary = true)
    (hdistance : rec.boundaryDistanceBars = some distance) (hlt : distance < h) (hpos : 0 < h) :
    boundaryDiscount rec h = 1 - (distance : ℚ) / h := by
  have hshare : ¬(1 - (distance : ℚ) / h < 0) := by
    rw [not_lt, sub_nonneg, div_le_one (by exact_mod_cast hpos)]
    exact_mod_cast hlt.le
  rw [boundaryDiscount, hcross, hdistance]
  simp [hshare, hpos]

/-- Where the passes have put a record whose index and horizon are known. -/
structure Placed (boundary e h : ℤ) (rec : SplitRecord) : Prop where
  positive : 0 < h
  is_iff : rec.split = some "is" ↔ e ≤ boundary
  oos_iff : rec.split = some "oos" ↔ boundary < e
  crossed : rec.crossesBoundary = true →
    e ≤ boundary ∧ boundary < e + h - 1 ∧ rec.boundaryDistanceBars = some (e + h - 1 - boundary)
  uncrossed : rec.crossesBoundary = false → e ≤ boundary → e + h - 1 ≤ boundary

theorem placed_of_known (he : barIndexOf rec.signalId = some e)
    (hh : horizonFor horizon horizonOf rec.signalId = some h) (hpos : 0 < h) :
    Placed boundary e h (markOne barIndexOf boundary horizon horizonOf (assignOne barIndexOf boundary rec)) := by
  have hsplit := @assignOne_split _ boundary _ _ he
  have hknown := @markOne_known barIndexOf boundary e h horizon horizonOf (assignOne barIndexOf boundary rec)
    (by rw [assignOne_signalId, he]) (by rw [assignOne_signalId, hh]) hpos
  constructor
  · exact hpos
  · rw [markOne_split, hsplit]
    split_ifs with hle <;> simp [hle]
  · rw [markOne_split, hsplit]
    split_ifs with hle
    · simp [hle]
    · simp [not_le.mp hle]
  · intro hcross
    obtain ⟨hle, hlt, -, hdistance⟩ | ⟨-, hno⟩ := hknown
    · exact ⟨hle, hlt, hdistance⟩
    · rw [hno] at hcross
      cases hcross
  · intro hno
    obtain ⟨-, -, hcross, -⟩ | ⟨hfits, -⟩ := hknown
    · rw [hno] at hcross
      cases hcross
    · exact hfits

theorem findBoundaryCrossings_positive {records : List SplitRecord} (h : PositiveHorizons horizon horizonOf records) :
    findBoundaryCrossings (assignSplit records barIndexOf boundary).1 barIndexOf boundary horizon horizonOf =
      .ok (records.map (markOne barIndexOf boundary horizon horizonOf ∘ assignOne barIndexOf boundary),
        ((assignSplit records barIndexOf boundary).1.map (markOne barIndexOf boundary horizon horizonOf)).countP
          (·.crossesBoundary)) := by
  unfold findBoundaryCrossings
  cases horizonOf with
  | some lookup => simp [assignSplit]
  | none =>
      obtain ⟨h, rfl, hpos⟩ := h.uniform rfl
      simp [assignSplit, hpos]

theorem mem_partition_is {records : List SplitRecord} :
    rec ∈ (partitionBySplit records).1 ↔ rec ∈ records ∧ rec.split = some "is" := by
  simp [partitionBySplit]

theorem mem_partition_oos {records : List SplitRecord} :
    rec ∈ (partitionBySplit records).2 ↔ rec ∈ records ∧ rec.split = some "oos" := by
  simp [partitionBySplit]

end

/-- **No leakage**: what the two passes make of a record, of its bars and of its discount. -/
theorem split_noLeakage (totalBars : ℤ) (isRatio : ℚ) (records : List SplitRecord) (barIndexOf : String → Option ℤ)
    (horizon : Option ℤ) (horizonOf : Option (String → Option ℤ)) (htotal : 0 < totalBars)
    (hratio : 0 < isRatio ∧ isRatio < 1) (hhorizons : PositiveHorizons horizon horizonOf records) :
    ∃ boundary marked count, splitBoundary totalBars isRatio = .ok boundary ∧
      findBoundaryCrossings (assignSplit records barIndexOf boundary).1 barIndexOf boundary horizon horizonOf =
        .ok (marked, count) ∧
      marked.map (·.signalId) = records.map (·.signalId) ∧
      (∀ rec ∈ marked, ∀ e h, barIndexOf rec.signalId = some e → horizonFor horizon horizonOf rec.signalId = some h →
        (rec ∈ (partitionBySplit marked).1 → rec.crossesBoundary = false → ∀ b ∈ usedBars e h, b ≤ boundary) ∧
        (rec ∈ (partitionBySplit marked).2 → ∀ b ∈ usedBars e h, boundary < b)) ∧
      (∀ rec ∈ marked, rec.crossesBoundary = true → rec ∈ (partitionBySplit marked).1 ∧
        ∃ e h distance, barIndexOf rec.signalId = some e ∧ horizonFor horizon horizonOf rec.signalId = some h ∧
          rec.boundaryDistanceBars = some distance ∧ 1 ≤ distance ∧ distance < h ∧
          boundaryDiscount rec h = inSampleShare e h boundary) ∧
      (∀ rec ∈ marked, ∀ h, horizonFor horizon horizonOf rec.signalId = some h →
        0 < boundaryDiscount rec h ∧ boundaryDiscount rec h ≤ 1) ∧
      (partitionBySplit marked).1.Sublist marked ∧ (partitionBySplit marked).2.Sublist marked ∧
      (∀ rec ∈ (partitionBySplit marked).1, rec ∉ (partitionBySplit marked).2) ∧
      ∀ rec ∈ marked, (barIndexOf rec.signalId).isSome →
        rec ∈ (partitionBySplit marked).1 ∨ rec ∈ (partitionBySplit marked).2 := by
  obtain ⟨boundary, hboundary⟩ : ∃ boundary, splitBoundary totalBars isRatio = .ok boundary :=
    ⟨_, by rw [splitBoundary, if_neg (by omega), if_neg (not_not.mpr hratio)]⟩
  obtain ⟨marked, count, hmarked, hrun⟩ : ∃ marked count,
      marked = records.map (markOne barIndexOf boundary horizon horizonOf ∘ assignOne barIndexOf boundary) ∧
      findBoundaryCrossings (assignSplit records barIndexOf boundary).1 barIndexOf boundary horizon horizonOf =
        .ok (marked, count) := ⟨_, _, rfl, findBoundaryCrossings_positive hhorizons⟩
  have hmem : ∀ rec ∈ marked, ∃ old ∈ records,
      markOne barIndexOf boundary horizon horizonOf (assignOne barIndexOf boundary old) = rec := by
    intro rec hrec
    rw [hmarked] at hrec
    exact List.mem_map.mp hrec
  -- Each record of the result, by what is known of its index.
  have hcases : ∀ rec ∈ marked, (barIndexOf rec.signalId = none ∧ rec.crossesBoundary = false) ∨
      ∃ e h, barIndexOf rec.signalId = some e ∧ horizonFor horizon horizonOf rec.signalId = some h ∧
        Placed boundary e h rec := by
    intro rec hrec
    obtain ⟨old, hold, rfl⟩ := hmem rec hrec
    rw [markOne_signalId, assignOne_signalId]
    cases he : barIndexOf old.signalId with
    | none => exact Or.inl ⟨rfl, markOne_unknown (by rw [assignOne_signalId, he])⟩
    | some e =>
        obtain ⟨h, hh, hpos⟩ := hhorizons.positive old hold
        exact Or.inr ⟨e, h, rfl, hh, placed_of_known he hh hpos⟩
  refine ⟨boundary, marked, count, hboundary, hrun, ?_, ?_, ?_, ?_, List.filter_sublist, List.filter_sublist, ?_, ?_⟩
  · rw [hmarked, List.map_map]
    exact List.map_congr_left fun rec _ => by simp [Function.comp]
  · intro rec hrec e h he hh
    obtain ⟨hnone, -⟩ | ⟨e', h', he', hh', hplaced⟩ := hcases rec hrec
    · rw [hnone] at he
      cases he
    · rw [he] at he'
      rw [hh] at hh'
      cases he'
      cases hh'
      refine ⟨fun his hcross b hb => ?_, fun hoos b hb => ?_⟩
      · have hsplit := (mem_partition_is.mp his).2
        have := mem_usedBars.mp hb
        have := hplaced.uncrossed hcross (hplaced.is_iff.mp hsplit)
        omega
      · have hsplit := (mem_partition_oos.mp hoos).2
        have := mem_usedBars.mp hb
        have := hplaced.oos_iff.mp hsplit
        omega
  · intro rec hrec hcross
    obtain ⟨-, hno⟩ | ⟨e, h, he, hh, hplaced⟩ := hcases rec hrec
    · rw [hno] at hcross
      cases hcross
    · obtain ⟨hle, hlt, hdistance⟩ := hplaced.crossed hcross
      refine ⟨mem_partition_is.mpr ⟨hrec, hplaced.is_iff.mpr hle⟩, e, h, _, he, hh, hdistance, by omega, by omega, ?_⟩
      rw [inSampleShare_crossing hle hlt]
      exact boundaryDiscount_marked hcross hdistance (by omega) hplaced.positive
  · intro rec hrec h hh
    by_cases hcross : rec.crossesBoundary = true
    · obtain ⟨-, hno⟩ | ⟨e, h', he, hh', hplaced⟩ := hcases rec hrec
      · rw [hno] at hcross
        cases hcross
      · rw [hh] at hh'
        cases hh'
        obtain ⟨hle, hlt, hdistance⟩ := hplaced.crossed hcross
        rw [boundaryDiscount_marked hcross hdistance (by omega) hplaced.positive]
        have hpos : (0 : ℚ) < h := by exact_mod_cast hplaced.positive
        have hdistance' : (0 : ℚ) ≤ (e + h - 1 - boundary : ℤ) := by exact_mod_cast (by omega : 0 ≤ e + h - 1 - boundary)
        have hshort : ((e + h - 1 - boundary : ℤ) : ℚ) < h := by exact_mod_cast (by omega : e + h - 1 - boundary < h)
        exact ⟨sub_pos.mpr ((div_lt_one hpos).mpr hshort), sub_le_self _ (div_nonneg hdistance' hpos.le)⟩
    · rw [boundaryDiscount_unmarked (Bool.eq_false_iff.mpr hcross)]
      exact ⟨one_pos, le_refl 1⟩
  · intro rec his hoos
    have h₁ := (mem_partition_is.mp his).2
    rw [(mem_partition_oos.mp hoos).2] at h₁
    simp at h₁
  · intro rec hrec hsome
    obtain ⟨hnone, -⟩ | ⟨e, h, -, -, hplaced⟩ := hcases rec hrec
    · rw [hnone] at hsome
      cases hsome
    · rcases le_or_gt e boundary with hle | hgt
      · exact Or.inl (mem_partition_is.mpr ⟨hrec, hplaced.is_iff.mpr hle⟩)
      · exact Or.inr (mem_partition_oos.mpr ⟨hrec, hplaced.oos_iff.mpr hgt⟩)

theorem crossing_noLeakage : ∃ boundary marked count, splitBoundary 10 0.5 = .ok boundary ∧
    findBoundaryCrossings
      (assignSplit [⟨freshSignal, false, none⟩] (fun _ => some 4) boundary).1 (fun _ => some 4) boundary (some 3) none =
        .ok (marked, count) := by
  obtain ⟨boundary, marked, count, hboundary, hrun, -⟩ :=
    split_noLeakage 10 0.5 [⟨freshSignal, false, none⟩] (fun _ => some 4) (some 3) none (by norm_num) (by norm_num)
      ⟨fun _ => ⟨3, rfl, by norm_num⟩, fun _ _ => ⟨3, rfl, by norm_num⟩⟩
  exact ⟨boundary, marked, count, hboundary, hrun⟩

end CryptoAggHarmonic.Bench
