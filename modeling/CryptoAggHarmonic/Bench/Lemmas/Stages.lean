import CryptoAggHarmonic.Bench.Record
import CryptoAggHarmonic.Backtest.Lemmas.Fills
import CryptoAggHarmonic.Bench.Scores

/-!
# What the order of the records changes

Everything below the top level is the same for every order; the top level reads the score of the first record.
-/

namespace CryptoAggHarmonic.Bench

variable {records reordered : List SignalRecord} {rec rec' : SignalRecord}

theorem meanOrZero_perm {xs ys : List ℚ} (h : xs.Perm ys) : meanOrZero xs = meanOrZero ys := by
  simp only [meanOrZero, List.isEmpty_iff_length_eq_zero, h.length_eq, h.sum_eq]

theorem winningRrs_perm (h : records.Perm reordered) : (winningRrs records).Perm (winningRrs reordered) :=
  (h.filter _).filterMap _

theorem patternStats_perm (family : String) (h : records.Perm reordered) :
    patternStats family records = patternStats family reordered := by
  simp only [patternStats, h.length_eq, (h.filter SignalRecord.wins).length_eq,
    (h.filter SignalRecord.loses).length_eq, meanOrZero_perm (h.filterMap SignalRecord.signalScore),
    meanOrZero_perm (winningRrs_perm h)]

theorem patternScores_perm (h : records.Perm reordered) : patternScores records = patternScores reordered :=
  Groups.map_sortedGroups_perm (fun family _ _ hgroup => patternStats_perm family hgroup) h

theorem configScoreWithPatterns_perm (h : records.Perm reordered) :
    configScoreWithPatterns records = configScoreWithPatterns reordered := by
  simp only [configScoreWithPatterns, patternScores_perm h, List.isEmpty_iff_length_eq_zero, h.length_eq]

/-! ## The top level -/

/-- What the aggregation takes from the records in any order. -/
def summary (records : List SignalRecord) (first : ℚ) : AggregatorResult :=
  let scored := records.map signalScore
  { signalScore := first
    configScore := (configScoreWithPatterns scored).1
    benchTotal := benchTotal first (configScoreWithPatterns scored).1
    weakValidity := 0 < (scored.filter SignalRecord.weakValidity).length
    lowConfidence := (configScoreWithPatterns scored).2.1
    nSignals := scored.length
    nPatterns := (configScoreWithPatterns scored).2.2.length
    patternScores := (configScoreWithPatterns scored).2.2 }

theorem summary_perm (h : records.Perm reordered) (first : ℚ) : summary records first = summary reordered first := by
  have hscored := h.map signalScore
  simp only [summary, configScoreWithPatterns_perm hscored, (hscored.filter SignalRecord.weakValidity).length_eq,
    hscored.length_eq]

/-- **The result** is that summary with the score of the first record. -/
theorem aggregate_cons (rec : SignalRecord) (records : List SignalRecord) :
    (aggregate (rec :: records)).1 = summary (rec :: records) rec.score := by
  simp [aggregate, summary, signalScore]

theorem aggregate_written (h : rec ∈ (aggregate records).2) :
    rec.configScore = (aggregate records).1.configScore ∧ rec.benchTotal = some (aggregate records).1.benchTotal := by
  cases records with
  | nil => simp [aggregate] at h
  | cons first rest =>
      simp only [aggregate, List.isEmpty_cons, Bool.false_eq_true, if_false, List.mem_map] at h ⊢
      obtain ⟨scored, -, rfl⟩ := h
      exact ⟨rfl, rfl⟩

end CryptoAggHarmonic.Bench

/-!
# What the second stage writes

Its two ways to return, and what they leave of the record before.
-/

namespace CryptoAggHarmonic.Bench

open Domain Backtest

variable {rec rec' : SignalRecord} {df : Frame} {tp1 : Option ℚ} {trade : Option Trade}

theorem raised_bind_eq_ok {α β : Type} {x : Except Raised α} {f : α → Except Raised β} {b : β} :
    (x >>= f) = .ok b ↔ ∃ a, x = .ok a ∧ f a = .ok b := by
  cases x <;> simp [bind, Except.bind]

theorem mapError_eq_ok {α : Type} {x : Except PyError α} {a : α} : x.mapError Raised.error = .ok a ↔ x = .ok a := by
  cases x <;> simp [Except.mapError]

/-- The scores of a record are those of the other. -/
structure SameScores (rec rec' : SignalRecord) : Prop where
  stage1 : rec'.stage1Score = rec.stage1Score
  stage3 : rec'.stage3Score = rec.stage3Score
  stage4a : rec'.stage4aScore = rec.stage4aScore
  stage4b : rec'.stage4bScore = rec.stage4bScore
  signal : rec'.signalScore = rec.signalScore

/-- The metrics of a trade are neither its R multiple nor a score. -/
theorem applyTradeMetrics_keeps {rows : List Candle} {entryPrice stopPrice target : ℚ}
    (h : applyTradeMetrics rec rows entryPrice stopPrice target = .ok rec') :
    rec'.netRr = rec.netRr ∧ SameScores rec rec' := by
  obtain ⟨m, -, hm⟩ := raised_bind_eq_ok.mp h
  cases hm
  exact ⟨rfl, rfl, rfl, rfl, rfl, rfl⟩

theorem fillTrade_keeps {target entryPrice stopPrice : ℚ} {t : Trade}
    (h : fillTrade rec df target entryPrice stopPrice t = .ok rec') :
    rec'.netRr = rec.netRr ∧ SameScores rec rec' := by
  obtain ⟨entryPos, -, h⟩ := raised_bind_eq_ok.mp h
  obtain ⟨exitPos, -, h⟩ := raised_bind_eq_ok.mp h
  cases entryPos with
  | none => cases h
  | some entryPos =>
      cases exitPos with
      | none => cases h
      | some exitPos =>
          simp only at h
          split at h
          · cases h
          · obtain ⟨hnetRr, h1, h3, h4a, h4b, hsignal⟩ := applyTradeMetrics_keeps h
            exact ⟨hnetRr, h1, h3, h4a, h4b, hsignal⟩

/-- The trades that the engine makes of the record. -/
theorem stage2_trades (h : stage2Backtest rec df tp1 = .ok (rec', trade)) :
    ∃ target entryPrice stopPrice trades, tp1.or rec.tp1 = some target ∧ (Untouched rec df ↔ trades = []) ∧
      fillRecord rec df target entryPrice stopPrice trades = .ok (rec', trade) := by
  unfold stage2Backtest at h
  split at h
  · cases h
  · rename_i target entryPrice stopPrice htarget hentry hstop
    obtain ⟨trades, htrades, h⟩ := raised_bind_eq_ok.mp h
    refine ⟨target, entryPrice, stopPrice, trades, htarget, ?_, h⟩
    rw [simulateTrades_eq_ok (mapError_eq_ok.mp htrades), List.map_eq_nil_iff, fills_eq_nil, Untouched, hentry]
    simp only [Option.some.injEq, forall_eq']
    refine forall₂_congr fun row _ => ?_
    simp [Levels.touchedBy, levelsOf]
  · cases h

/-- **The stage returns** without a trade when the entry is not touched, and otherwise with a trade and the `net_rr`
that was there before. -/
theorem stage2_cases (h : stage2Backtest rec df tp1 = .ok (rec', trade)) :
    (Untouched rec df ∧ trade = none ∧ ∃ target, tp1.or rec.tp1 = some target ∧ rec' = rec.cleared target) ∨
      (¬ Untouched rec df ∧ (∃ t, trade = some t) ∧ rec'.netRr = rec.netRr) := by
  obtain ⟨target, entryPrice, stopPrice, trades, htarget, huntouched, h⟩ := stage2_trades h
  cases trades with
  | nil =>
      cases h
      exact Or.inl ⟨huntouched.mpr rfl, rfl, target, htarget, rfl⟩
  | cons t rest =>
      obtain ⟨filled, hfilled, h⟩ := raised_bind_eq_ok.mp h
      cases h
      exact Or.inr ⟨fun hno => absurd (huntouched.mp hno) (by simp), ⟨t, rfl⟩, (fillTrade_keeps hfilled).1⟩

/-- The second stage scores nothing. -/
theorem stage2_scores (h : stage2Backtest rec df tp1 = .ok (rec', trade)) : SameScores rec rec' := by
  obtain ⟨target, entryPrice, stopPrice, trades, -, -, h⟩ := stage2_trades h
  cases trades with
  | nil =>
      cases h
      exact ⟨rfl, rfl, rfl, rfl, rfl⟩
  | cons t rest =>
      obtain ⟨filled, hfilled, h⟩ := raised_bind_eq_ok.mp h
      cases h
      exact (fillTrade_keeps hfilled).2

/-- A record without measurements differs from a fresh one only in what every run writes. -/
theorem cleared_fresh_iff (target : ℚ) : rec.fresh.cleared target = rec.cleared target ↔ Unmeasured rec := by
  simp only [SignalRecord.cleared, SignalRecord.fresh, Unmeasured, SignalRecord.mk.injEq, eq_comm, true_and, and_true]

/-- Without a trade the run on a fresh record returns too. -/
theorem stage2_fresh (h : stage2Backtest rec df tp1 = .ok (rec', none)) :
    ∃ target, rec' = rec.cleared target ∧ stage2Backtest rec.fresh df tp1 = .ok (rec.fresh.cleared target, none) := by
  unfold stage2Backtest at h
  split at h
  · cases h
  · rename_i target entryPrice stopPrice htarget hentry hstop
    obtain ⟨trades, htrades, h⟩ := raised_bind_eq_ok.mp h
    cases trades with
    | nil =>
        cases h
        refine ⟨target, rfl, ?_⟩
        unfold stage2Backtest
        rw [show tp1.or rec.fresh.tp1 = some target from htarget, show rec.fresh.entryPrice = _ from hentry,
          show rec.fresh.stopPrice = _ from hstop]
        exact raised_bind_eq_ok.mpr ⟨[], htrades, rfl⟩
    | cons t rest =>
        obtain ⟨filled, -, h⟩ := raised_bind_eq_ok.mp h
        cases h
  · cases h

end CryptoAggHarmonic.Bench

/-!
# The ranges of the scores

Of the sub-scores, of the stages, and of what the aggregation makes of them.
-/

namespace CryptoAggHarmonic.Bench

open Rounding Domain
open Set (Icc)

variable {a : Attributes} {rec rec' : SignalRecord} {records : List SignalRecord} {lo hi : ℚ} {m n : ℤ}

/-! ## The stages -/

theorem geometricSubscore_mem (a : Attributes) : geometricSubscore a ∈ Icc (0 : ℚ) 4 := by
  unfold geometricSubscore
  dsimp only
  split_ifs with h₀ h₁
  · norm_num
  · norm_num
  · exact_mod_cast roundTo_mem_Icc (d := 4) (m := 0) (n := 4) ⟨by push_cast; linarith, by push_cast; linarith⟩

theorem przSubscore_mem (a : Attributes) : przSubscore a ∈ Icc (0 : ℚ) 2 := by
  unfold przSubscore
  dsimp only
  split_ifs <;> norm_num

theorem stopSubscore_mem (a : Attributes) (rec : SignalRecord) : stopSubscore a rec ∈ Icc (0 : ℚ) 2 := by
  unfold stopSubscore
  dsimp only
  split_ifs with hatr hinside hnear
  · norm_num
  · norm_num
  · have hpos : 0 ≤ |a.entryPrice - a.stopPrice| / rec.atrAtEntry := div_nonneg (abs_nonneg _) (not_le.mp hatr).le
    have hlow : 0 ≤ |a.entryPrice - a.stopPrice| / rec.atrAtEntry / 0.5 := div_nonneg hpos (by norm_num)
    have hhigh : |a.entryPrice - a.stopPrice| / rec.atrAtEntry / 0.5 ≤ 1 := (div_le_one (by norm_num)).mpr hnear.le
    refine roundTo_mem_Icc (d := 4) (m := 0) (n := 2) ⟨?_, ?_⟩
    · exact_mod_cast mul_nonneg zero_le_two hlow
    · exact_mod_cast mul_le_of_le_one_right zero_le_two hhigh
  · have hfar : 3 ≤ |a.entryPrice - a.stopPrice| / rec.atrAtEntry := by
      by_contra hle
      exact hinside ⟨not_lt.mp hnear, (not_le.mp hle).le⟩
    refine roundTo_mem_Icc (d := 4) (m := 0) (n := 2) ⟨?_, ?_⟩
    · exact_mod_cast le_max_left _ _
    · push_cast
      exact max_le (by norm_num) (by linarith)

theorem dataSubscore_mem (a : Attributes) (rec : SignalRecord) : dataSubscore a rec ∈ Icc (0 : ℚ) 2 := by
  unfold dataSubscore
  cases rec.direction <;> dsimp only <;> split_ifs <;> norm_num

theorem entryZoneSubscore_mem (a : Attributes) : entryZoneSubscore a ∈ Icc (0 : ℚ) 2 := by
  unfold entryZoneSubscore
  dsimp only
  split_ifs with hfar hnear
  · norm_num
  · norm_num
  · exact_mod_cast roundTo_mem_Icc (d := 4) (m := 0) (n := 2) ⟨by push_cast; linarith, by push_cast; linarith⟩

theorem resultSubscore_mem (outcome : Outcome) : resultSubscore outcome ∈ Icc (0 : ℚ) 25 := by
  cases outcome <;> norm_num [resultSubscore]

theorem rrSubscore_mem (netRr : Option ℚ) : rrSubscore netRr ∈ Icc (0 : ℚ) 10 := by
  cases netRr with
  | none => norm_num [rrSubscore]
  | some r =>
      unfold rrSubscore
      dsimp only
      split_ifs <;> norm_num

theorem efficiencySubscore_mem (rec : SignalRecord) : efficiencySubscore rec ∈ Icc (0 : ℚ) 10 := by
  unfold efficiencySubscore
  cases rec.priceEfficiency with
  | none => norm_num
  | some pe =>
      dsimp only
      split_ifs <;> norm_num

theorem maeMfeSubscore_mem (mae mfe : Option ℚ) : maeMfeSubscore mae mfe ∈ Icc (0 : ℚ) 6 := by
  unfold maeMfeSubscore
  split
  · dsimp only
    split_ifs <;> norm_num
  · norm_num

theorem depthSubscore_mem (depth : Option ℚ) : depthSubscore depth ∈ Icc (0 : ℚ) 5 := by
  unfold depthSubscore
  split
  · norm_num
  · split_ifs <;> norm_num

theorem timeSubscore_mem (callbackBars barsHeld : Option ℕ) : timeSubscore callbackBars barsHeld ∈ Icc (0 : ℚ) 3 := by
  unfold timeSubscore
  split
  · dsimp only
    split_ifs <;> norm_num
  · norm_num

theorem volumeSubscore_mem (volumeRatio : Option ℚ) : volumeSubscore volumeRatio ∈ Icc (0 : ℚ) 3 := by
  unfold volumeSubscore
  split
  · norm_num
  · split_ifs <;> norm_num

theorem stopBufferSubscore_mem (buffer : Option ℚ) : stopBufferSubscore buffer ∈ Icc (0 : ℚ) 3 := by
  unfold stopBufferSubscore
  split
  · norm_num
  · split_ifs <;> norm_num

theorem gradeSubscore_mem {grade : Grade} {s : ℚ} (h : gradeSubscore grade = .ok s) : s ∈ Icc (0 : ℚ) 4 := by
  cases grade <;> cases h <;> norm_num

theorem confluenceSubscore_mem (confluence : ℚ) : confluenceSubscore confluence ∈ Icc (0 : ℚ) 3 := by
  unfold confluenceSubscore
  split_ifs <;> norm_num

theorem stabilitySubscore_mem (verdict : String) : stabilitySubscore verdict ∈ Icc (0 : ℚ) 3 := by
  unfold stabilitySubscore
  dsimp only
  split_ifs <;> norm_num

theorem stage1Score_mem (a : Attributes) (rec : SignalRecord) :
    ∀ s ∈ (stage1Score a rec).stage1Score, s ∈ Icc (0 : ℚ) MAX_STAGE1 := by
  rintro s ⟨⟩
  obtain ⟨hg, hg'⟩ := geometricSubscore_mem a
  obtain ⟨hp, hp'⟩ := przSubscore_mem a
  obtain ⟨hs, hs'⟩ := stopSubscore_mem a rec
  obtain ⟨hd, hd'⟩ := dataSubscore_mem a rec
  obtain ⟨he, he'⟩ := entryZoneSubscore_mem a
  exact_mod_cast roundTo_mem_Icc (d := 4) (m := 0) (n := 12) ⟨by push_cast; linarith, by push_cast; linarith⟩

theorem stopHitPenalty_mem (rec : SignalRecord) : stopHitPenalty rec ∈ Icc (-5 : ℚ) 0 := by
  unfold stopHitPenalty
  split_ifs <;> norm_num

/-- The third stage, down to a bound on its penalty. -/
theorem stage3Score_mem (hm : m ≤ 0) (hpenalty : (m : ℚ) ≤ stopHitPenalty rec) :
    ∀ s ∈ (stage3Score rec).stage3Score, s ∈ Icc (m : ℚ) MAX_STAGE3 := by
  unfold stage3Score
  cases rec.outcome with
  | none =>
      rintro s ⟨⟩
      exact ⟨by exact_mod_cast hm, by norm_num [MAX_STAGE3]⟩
  | some outcome =>
      rintro s ⟨⟩
      obtain ⟨hr, hr'⟩ := resultSubscore_mem outcome
      obtain ⟨hn, hn'⟩ : rec.rrScore ∈ Icc (0 : ℚ) 10 := rrSubscore_mem rec.netRr
      obtain ⟨he, he'⟩ := efficiencySubscore_mem rec
      have hp' := (stopHitPenalty_mem rec).2
      exact_mod_cast roundTo_mem_Icc (d := 4) (m := m) (n := 50) ⟨by linarith, by push_cast; linarith⟩

theorem stage4aScore_mem (a : Attributes) (rec : SignalRecord) :
    ∀ s ∈ (stage4aScore a rec).stage4aScore, s ∈ Icc (0 : ℚ) MAX_STAGE4A := by
  rintro s ⟨⟩
  obtain ⟨hr, hr'⟩ := maeMfeSubscore_mem rec.mae rec.mfe
  obtain ⟨hd, hd'⟩ := depthSubscore_mem rec.callbackDepth
  obtain ⟨ht, ht'⟩ := timeSubscore_mem rec.callbackBars rec.barsHeld
  obtain ⟨hv, hv'⟩ := volumeSubscore_mem rec.callbackVolumeRatio
  obtain ⟨hb, hb'⟩ := stopBufferSubscore_mem (bufferConsumption a rec)
  exact_mod_cast roundTo_mem_Icc (d := 4) (m := 0) (n := 20) ⟨by push_cast; linarith, by push_cast; linarith⟩

theorem stage4bScore_eq_ok (h : stage4bScore a rec = .ok rec') :
    ∃ s ∈ Icc (0 : ℚ) MAX_STAGE4B, rec' = { rec with stage4bScore := some s } := by
  obtain ⟨grade, hgrade, h⟩ := raised_bind_eq_ok.mp h
  cases h
  obtain ⟨hg, hg'⟩ := gradeSubscore_mem hgrade
  obtain ⟨hc, hc'⟩ := confluenceSubscore_mem a.confluenceScore
  obtain ⟨hs, hs'⟩ := stabilitySubscore_mem a.stabilityVerdict
  refine ⟨_, ?_, rfl⟩
  exact_mod_cast roundTo_mem_Icc (d := 4) (m := 0) (n := 10) ⟨by push_cast; linarith, by push_cast; linarith⟩

/-! ## The score of a signal -/

/-- What the signal is worth before it is rounded, down to a bound on its third stage. -/
theorem score_mem (h : InRange rec) (hm : m ≤ 0) (hstage3 : (m : ℚ) ≤ rec.stage3Score.getD 0) :
    rec.score ∈ Icc (m : ℚ) 100 := by
  have hrange : ∀ {o : Option ℚ} {lo hi : ℚ}, lo ≤ 0 → 0 ≤ hi → (∀ s ∈ o, s ∈ Icc lo hi) → o.getD 0 ∈ Icc lo hi := by
    intro o lo hi hlo hhi ho
    cases o with
    | none => exact ⟨hlo, hhi⟩
    | some s => exact ho s rfl
  obtain ⟨h1, h1'⟩ := hrange le_rfl (by norm_num [MAX_STAGE1]) h.stage1
  obtain ⟨-, h3'⟩ := hrange (by norm_num) (by norm_num [MAX_STAGE3]) h.stage3
  obtain ⟨h4a, h4a'⟩ := hrange le_rfl (by norm_num [MAX_STAGE4A]) h.stage4a
  obtain ⟨h4b, h4b'⟩ := hrange le_rfl (by norm_num [MAX_STAGE4B]) h.stage4b
  have hmq : (m : ℚ) ≤ 0 := by exact_mod_cast hm
  norm_num [MAX_STAGE1, MAX_STAGE3, MAX_STAGE4A, MAX_STAGE4B] at h1' h3' h4a' h4b'
  refine roundTo_mem_Icc (d := 4) (m := m) (n := 100) ?_
  norm_num [MAX_STAGE1, MAX_STAGE3, MAX_STAGE4A, MAX_STAGE4B, W_STAGE1, W_STAGE3, W_STAGE4A, W_STAGE4B,
    WEAK_VALIDITY_MULTIPLIER]
  split_ifs
  · exact ⟨by linarith, by linarith⟩
  · exact ⟨by linarith, by linarith⟩

theorem InRange.score (h : InRange rec) : rec.score ∈ Icc (-5 : ℚ) 100 := by
  have hstage3 : (-5 : ℚ) ≤ rec.stage3Score.getD 0 := by
    cases hs : rec.stage3Score with
    | none => norm_num
    | some s => exact (h.stage3 s hs).1
  exact_mod_cast score_mem (m := -5) h (by norm_num) (by exact_mod_cast hstage3)

/-- **One stage** keeps the ranges. -/
theorem InRange.step (h : InRange rec) (hstep : Scores rec rec') : InRange rec' := by
  cases hstep with
  | stage1 a => exact { h with stage1 := stage1Score_mem a rec }
  | stage2 hstage2 =>
      obtain ⟨h1, h3, h4a, h4b, hsignal⟩ := stage2_scores hstage2
      exact ⟨h1 ▸ h.stage1, h3 ▸ h.stage3, h4a ▸ h.stage4a, h4b ▸ h.stage4b, hsignal ▸ h.signal⟩
  | stage3 =>
      have hstage3 : ∀ s ∈ (stage3Score rec).stage3Score, s ∈ Icc (-5 : ℚ) MAX_STAGE3 := by
        exact_mod_cast stage3Score_mem (m := -5) (by norm_num) (by exact_mod_cast (stopHitPenalty_mem rec).1)
      unfold stage3Score at hstage3 ⊢
      split
      · rename_i hnone
        rw [hnone] at hstage3
        exact { h with stage3 := hstage3 }
      · rename_i outcome hsome
        rw [hsome] at hstage3
        exact { h with stage3 := hstage3 }
  | stage4a a => exact { h with stage4a := stage4aScore_mem a rec }
  | stage4b hstage4b =>
      obtain ⟨s, hs, rfl⟩ := stage4bScore_eq_ok hstage4b
      exact { h with stage4b := by rintro t ⟨⟩; exact hs }
  | noCallback => exact { h with stage4a := by rintro s ⟨⟩; norm_num [MAX_STAGE4A] }
  | signal => exact { h with signal := by rintro s ⟨⟩; exact h.score }

/-- **Every record** that the stages make. -/
theorem Produced.inRange (h : Produced rec) : InRange rec := by
  obtain ⟨fresh, h1, h3, h4a, h4b, hsignal, hrun⟩ := h
  induction hrun with
  | refl => exact ⟨by simp [h1], by simp [h3], by simp [h4a], by simp [h4b], by simp [hsignal]⟩
  | tail _ hstep ih => exact ih.step hstep

/-! ## The score of a configuration -/

theorem le_meanOrZero {xs : List ℚ} (hlo : lo ≤ 0) (h : ∀ x ∈ xs, lo ≤ x) : lo ≤ meanOrZero xs := by
  unfold meanOrZero
  split_ifs with hempty
  · exact hlo
  · have hpos : (0 : ℚ) < xs.length := by
      rw [List.isEmpty_iff_length_eq_zero] at hempty
      exact_mod_cast Nat.pos_of_ne_zero hempty
    rw [le_div_iff₀ hpos]
    simpa [mul_comm] using List.card_nsmul_le_sum xs lo h

theorem meanOrZero_le {xs : List ℚ} (hhi : 0 ≤ hi) (h : ∀ x ∈ xs, x ≤ hi) : meanOrZero xs ≤ hi := by
  unfold meanOrZero
  split_ifs with hempty
  · exact hhi
  · have hpos : (0 : ℚ) < xs.length := by
      rw [List.isEmpty_iff_length_eq_zero] at hempty
      exact_mod_cast Nat.pos_of_ne_zero hempty
    rw [div_le_iff₀ hpos]
    simpa [mul_comm] using List.sum_le_card_nsmul xs hi h

theorem mul_cast_sum {α : Type} (c : ℚ) (xs : List α) (w : α → ℕ) :
    c * (((xs.map w).sum : ℕ) : ℚ) = (xs.map fun x => c * (w x : ℚ)).sum := by
  induction xs with
  | nil => simp
  | cons x xs ih => simp only [List.map_cons, List.sum_cons, Nat.cast_add, mul_add, ih]

/-- A mean with weights, by a bound on its values. -/
theorem weightedMean_le {α : Type} {xs : List α} {f : α → ℚ} {w : α → ℕ} (hpos : 0 < (xs.map w).sum)
    (h : ∀ x ∈ xs, f x ≤ hi) : (xs.map fun x => f x * (w x : ℚ)).sum / (((xs.map w).sum : ℕ) : ℚ) ≤ hi := by
  rw [div_le_iff₀ (by exact_mod_cast hpos), mul_cast_sum]
  exact List.sum_le_sum fun x hx => mul_le_mul_of_nonneg_right (h x hx) (Nat.cast_nonneg _)

theorem le_weightedMean {α : Type} {xs : List α} {f : α → ℚ} {w : α → ℕ} (hpos : 0 < (xs.map w).sum)
    (h : ∀ x ∈ xs, lo ≤ f x) : lo ≤ (xs.map fun x => f x * (w x : ℚ)).sum / (((xs.map w).sum : ℕ) : ℚ) := by
  rw [le_div_iff₀ (by exact_mod_cast hpos), mul_cast_sum]
  exact List.sum_le_sum fun x hx => mul_le_mul_of_nonneg_right (h x hx) (Nat.cast_nonneg _)

/-- `win_rate` -/
def winRate (recs : List SignalRecord) : ℚ :=
  let wins := (recs.filter SignalRecord.wins).length
  let losses := (recs.filter SignalRecord.loses).length
  if wins + losses > 0 then wins / (wins + losses : ℕ) else 0

theorem winRate_mem (recs : List SignalRecord) : winRate recs ∈ Icc (0 : ℚ) 1 := by
  unfold winRate
  dsimp only
  split_ifs with hpos
  · have hq : (0 : ℚ) < ((recs.filter SignalRecord.wins).length + (recs.filter SignalRecord.loses).length : ℕ) := by
      exact_mod_cast hpos
    exact ⟨by positivity, (div_le_one hq).mpr (by exact_mod_cast Nat.le_add_right _ _)⟩
  · norm_num

/-- Two fifths of the mean of the signals, and three parts that are at most 25, 20 and 15. -/
theorem patternStats_patternScore (family : String) (recs : List SignalRecord) :
    (patternStats family recs).patternScore = roundTo 4 (2 / 5 * meanOrZero (recs.filterMap SignalRecord.signalScore) +
      25 * winRate recs + 20 * min (meanOrZero (winningRrs recs) / RR_REFERENCE) 1 +
      15 * min (recs.length / SAMPLE_REFERENCE) 1) := by
  have hwinRate : (patternStats family recs).patternScore = roundTo 4
      (meanOrZero (recs.filterMap SignalRecord.signalScore) * W_PATTERN_AVG_SCORE +
        winRate recs * 100 * W_PATTERN_WIN_RATE +
        min (meanOrZero (winningRrs recs) / RR_REFERENCE) 1 * 100 * W_PATTERN_AVG_RR +
        min (recs.length / SAMPLE_REFERENCE) 1 * 100 * W_PATTERN_SAMPLE_BONUS) := rfl
  rw [hwinRate]
  congr 1
  norm_num [W_PATTERN_AVG_SCORE, W_PATTERN_WIN_RATE, W_PATTERN_AVG_RR, W_PATTERN_SAMPLE_BONUS]
  ring

theorem patternScore_le (family : String) (h : ∀ rec ∈ records, ∀ s ∈ rec.signalScore, s ≤ 100) :
    (patternStats family records).patternScore ≤ 100 := by
  have hscores : meanOrZero (records.filterMap SignalRecord.signalScore) ≤ 100 := by
    refine meanOrZero_le (by norm_num) fun x hx => ?_
    obtain ⟨rec, hrec, hs⟩ := List.mem_filterMap.mp hx
    exact h rec hrec x hs
  have hrate := (winRate_mem records).2
  have hrr := min_le_right (meanOrZero (winningRrs records) / RR_REFERENCE) 1
  have hcount := min_le_right ((records.length : ℚ) / SAMPLE_REFERENCE) 1
  rw [patternStats_patternScore]
  refine roundTo_le_intCast (n := 100) ?_
  push_cast
  linarith

/-- The mean of the signals is the only part that may be below zero, when no winner has lost. -/
theorem le_patternScore (family : String) (hm : m ≤ 0)
    (hwinners : ∀ rec ∈ records, rec.wins = true → ∀ r ∈ rec.netRr, 0 ≤ r)
    (h : ∀ rec ∈ records, ∀ s ∈ rec.signalScore, (m : ℚ) * (5 / 2) ≤ s) :
    (m : ℚ) ≤ (patternStats family records).patternScore := by
  have hmq : (m : ℚ) ≤ 0 := by exact_mod_cast hm
  have hscores : (m : ℚ) * (5 / 2) ≤ meanOrZero (records.filterMap SignalRecord.signalScore) := by
    refine le_meanOrZero (by linarith) fun x hx => ?_
    obtain ⟨rec, hrec, hs⟩ := List.mem_filterMap.mp hx
    exact h rec hrec x hs
  have hrate := (winRate_mem records).1
  have hrr : 0 ≤ min (meanOrZero (winningRrs records) / RR_REFERENCE) 1 := by
    refine le_min (div_nonneg (le_meanOrZero le_rfl fun r hr => ?_) (by norm_num [RR_REFERENCE])) zero_le_one
    obtain ⟨rec, hrec, hr⟩ := List.mem_filterMap.mp hr
    obtain ⟨hrec, hwins⟩ := List.mem_filter.mp hrec
    exact hwinners rec hrec hwins r hr
  have hcount : 0 ≤ min ((records.length : ℚ) / SAMPLE_REFERENCE) 1 :=
    le_min (div_nonneg (Nat.cast_nonneg _) (by norm_num [SAMPLE_REFERENCE])) zero_le_one
  rw [patternStats_patternScore]
  refine intCast_le_roundTo ?_
  linarith

/-- The groups hold every record. -/
theorem count_pos (h : records ≠ []) : 0 < ((patternScores records).map PatternScore.signalCount).sum := by
  obtain ⟨rec, hrec⟩ := List.exists_mem_of_ne_nil records h
  have hkey : rec.patternFamily ∈ Groups.keys SignalRecord.patternFamily records := Groups.mem_keys.mpr ⟨rec, hrec, rfl⟩
  have hgroup : rec ∈ Groups.group SignalRecord.patternFamily records rec.patternFamily := by
    simpa [Groups.group] using hrec
  refine (List.length_pos_of_mem hgroup).trans_le (List.le_sum_of_mem ?_)
  rw [patternScores, Groups.sortedGroups, List.map_map, List.map_map]
  exact List.mem_map.mpr ⟨_, hkey, rfl⟩

/-- The mean of the scores of the groups, less the penalty for a small one. -/
theorem config_eq (h : records ≠ []) : ∃ k ∈ Icc (0.9 : ℚ) 1, (configScoreWithPatterns records).1 =
    some (roundTo 4 (((patternScores records).map fun p => p.patternScore * (p.signalCount : ℚ)).sum /
      (((patternScores records).map PatternScore.signalCount).sum : ℕ) * k)) := by
  unfold configScoreWithPatterns
  rw [if_neg (by simpa using h)]
  dsimp only
  split_ifs
  · exact ⟨LOW_SAMPLE_PENALTY, by norm_num [LOW_SAMPLE_PENALTY], rfl⟩
  · exact ⟨1, by norm_num, by rw [mul_one]⟩

theorem mem_patternScores {p : PatternScore} (h : p ∈ patternScores records) :
    ∃ family, ∃ recs ⊆ records, p = patternStats family recs := by
  obtain ⟨g, hg, rfl⟩ := List.mem_map.mp h
  obtain ⟨k, -, rfl⟩ := List.mem_map.mp hg
  exact ⟨k, _, List.filter_subset_self _, rfl⟩

/-- **The configuration**: at most 100 when no signal is above, and at least `m` when no winner has lost and no signal is
below two and a half times that. -/
theorem config_bounds (h : records ≠ []) : ∃ c, (configScoreWithPatterns records).1 = some c ∧
    ((∀ rec ∈ records, ∀ s ∈ rec.signalScore, s ≤ 100) → c ≤ 100) ∧
    ∀ m : ℤ, m ≤ 0 → (∀ rec ∈ records, rec.wins = true → ∀ r ∈ rec.netRr, 0 ≤ r) →
      (∀ rec ∈ records, ∀ s ∈ rec.signalScore, (m : ℚ) * (5 / 2) ≤ s) → (m : ℚ) ≤ c := by
  obtain ⟨k, ⟨hk, hk'⟩, hconfig⟩ := config_eq h
  refine ⟨_, hconfig, fun hsignals => ?_, fun m hm hwinners hsignals => ?_⟩
  · have hmean := weightedMean_le (count_pos h) fun p hp => by
      obtain ⟨family, recs, hrecs, rfl⟩ := mem_patternScores hp
      exact patternScore_le family fun rec hrec => hsignals rec (hrecs hrec)
    refine roundTo_le_intCast (n := 100) ?_
    rw [Int.cast_ofNat]
    nlinarith
  · have hmq : (m : ℚ) ≤ 0 := by exact_mod_cast hm
    have hmean := le_weightedMean (count_pos h) fun p hp => by
      obtain ⟨family, recs, hrecs, rfl⟩ := mem_patternScores hp
      exact le_patternScore family hm (fun rec hrec => hwinners rec (hrecs hrec)) fun rec hrec =>
        hsignals rec (hrecs hrec)
    refine intCast_le_roundTo ?_
    nlinarith

end CryptoAggHarmonic.Bench
