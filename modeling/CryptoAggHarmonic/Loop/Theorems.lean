import Mathlib.Algebra.Order.Field.Rat
import Mathlib.Algebra.Order.Field.Basic
import Mathlib.Tactic.Positivity
import CryptoAggHarmonic.Loop.Lemmas.Verdict
import CryptoAggHarmonic.Loop.Lemmas.Plateau
import CryptoAggHarmonic.Loop.Lemmas.Wake
import CryptoAggHarmonic.Loop.Lemmas.Snapshot

/-!
# The Pareto front and who gets onto it, and the plateau of the scheduler
-/

namespace CryptoAggHarmonic.Loop

/-! ## The front of all offers -/

/-- The shas on the front. -/
def ParetoSet.shas (s : ParetoSet) : List String := s.points.map ParetoPoint.paramsSha

theorem shaDetermines_perm {offers reordered : List ParetoPoint} (h : ShaDetermines offers)
    (hperm : reordered.Perm offers) : ShaDetermines reordered := fun p hp q hq =>
  h p (hperm.mem_iff.mp hp) q (hperm.mem_iff.mp hq)

/-- **The front is the set of maximal offers.** After any offers the front holds, of each sha whose points nobody
dominates, the point offered first, and nothing else; no member dominates another; another order of offers gives the
same shas; and an offer returns true exactly when it changes the front. -/
theorem front_is_maximal_offers (offers : List ParetoPoint) (hsha : ShaDetermines offers) :
    (∀ q, q ∈ (ParetoSet.empty.addAll offers).points ↔
      (∀ p ∈ offers, dominates p q = false) ∧ offers.find? (fun p => p.paramsSha = q.paramsSha) = some q) ∧
    (∀ p ∈ offers, (∀ q ∈ offers, dominates q p = false) ↔ p.paramsSha ∈ (ParetoSet.empty.addAll offers).shas) ∧
    (ParetoSet.empty.addAll offers).shas.Nodup ∧
    (∀ p ∈ (ParetoSet.empty.addAll offers).points, ∀ q ∈ (ParetoSet.empty.addAll offers).points,
      dominates p q = false) ∧
    (∀ reordered, reordered.Perm offers →
      (ParetoSet.empty.addAll reordered).shas.Perm (ParetoSet.empty.addAll offers).shas) ∧
    (∀ earlier p later, offers = earlier ++ p :: later →
      (((ParetoSet.empty.addAll earlier).add p).1 = true ↔
        ((ParetoSet.empty.addAll earlier).add p).2 ≠ ParetoSet.empty.addAll earlier)) := by
  have hordered := hsha.ordered
  have hfront := addAll_isFront hsha
  refine ⟨fun q => hfront.mem_iff hordered, fun p hp => ?_, hfront.nodup, hfront.antichain, fun reordered hperm => ?_,
    fun earlier p later _ => ?_⟩
  · rw [ParetoSet.shas, List.mem_map]
    exact (hfront.key_mem_iff hordered hp).symm
  · have hsha' := shaDetermines_perm hsha hperm
    exact Fronts.IsFront.perm hsha'.ordered hordered (addAll_isFront hsha') hfront fun p => hperm.mem_iff.symm
  · cases h : ((ParetoSet.empty.addAll earlier).add p).1 with
    | false => simp [add_refused h]
    | true =>
        obtain ⟨hold, hnew⟩ := add_admitted h
        refine iff_of_true rfl fun hsame => hold ?_
        rwa [hsame] at hnew

def pointOf (paramsSha : String) (sharpe calmar : ℚ) : ParetoPoint where
  paramsSha := paramsSha
  gen := 1
  cluster := "C3 Confluence"
  runDir := "runs/" ++ paramsSha
  sharpe := some (.finite sharpe)
  calmar := some (.finite calmar)
  profitFactor := none
  worstRegimeSharpe := none
  tradeCount := 40
  fitness := .finite sharpe

def fourOffers : List ParetoPoint := [pointOf "a" 1 1, pointOf "b" 2 0, pointOf "c" 2 1, pointOf "b" 2 0]

theorem fourOffers_shaDetermines : ShaDetermines fourOffers := by
  unfold ShaDetermines
  decide

theorem fourOffers_front : ShaDetermines fourOffers ∧
    ∀ p ∈ (ParetoSet.empty.addAll fourOffers).points, ∀ q ∈ (ParetoSet.empty.addAll fourOffers).points,
      dominates p q = false :=
  ⟨fourOffers_shaDetermines, (front_is_maximal_offers fourOffers fourOffers_shaDetermines).2.2.2.1⟩

/-! ## The verdict and the admission -/

def CheckerVerdict.Blocks (v : CheckerVerdict) : Prop := v.decision = .rejected ∨ v.decision = .suspiciousToHuman

/-- A result with a blocking verdict is not admitted, not written as a snapshot and not the reported best. -/
def Generation.KeepsOut (g : Generation) (pareto : ParetoSet) (turns : List Turn) : Prop :=
  ∀ i t v, turns[i]? = some t → g.judge t = .ok v → v.Blocks →
    (∀ p, .addPoint i p ∉ (g.process pareto turns).effects) ∧
    (∀ name payload, .writeSnapshot i name payload ∉ (g.process pareto turns).effects) ∧
    (g.process pareto turns).reportedBest ≠ some (i, t.result)

/-- The prompt for the result can be built, or nobody asks for it. -/
def Generation.CanJudge (g : Generation) (t : Turn) : Prop :=
  ∀ runner, g.runner = some runner → runner.enabled → t.reply ≠ .promptRaises

theorem judged_iff {g : Generation} {t : Turn} : g.Judged t ↔ g.CanJudge t := by
  unfold Generation.Judged Generation.CanJudge Generation.judge
  cases g.runner with
  | none => simp
  | some runner => simpa using evaluateCandidate_returns_iff

/-- No fitness compares with NaN. -/
def FitnessNaN (e : ℕ × CandidateResult) : Prop := e.2.fitnessOrZero = .nan

theorem fitter_ordered : KeepBest.Ordered Generation.fitter FitnessNaN where
  trans := fun _ _ _ => PyFloat.gt_trans
  not_alone := fun _ _ h => PyFloat.ne_nan_of_gt h
  of_not_better := fun _ _ _ => PyFloat.gt_of_not_gt

/-- What the loop did for the result `i`, if it got to it: the front of the earlier results decided. -/
theorem addPoint_mem_process {g : Generation} {pareto : ParetoSet} {turns : List Turn} {i : ℕ} {p : ParetoPoint} :
    .addPoint i p ∈ (g.process pareto turns).effects ↔
      ∃ t, turns[i]? = some t ∧ (∀ u ∈ turns.take (i + 1), g.CanJudge u) ∧ t.result.decision = .accepted ∧
        p = g.pointOf t.result ∧ ((g.frontAfter pareto (turns.take i)).add p).1 = true := by
  rcases Generation.process_settled g pareto turns with
    ⟨hjudged, hs⟩ | ⟨before, t, after, rfl, hbefore, ht, -, s, hs, heff⟩
  · rw [hs.admitted]
    refine exists_congr fun t => and_congr_right fun _ => ?_
    exact (and_iff_right fun u hu => judged_iff.mp (hjudged u (List.mem_of_mem_take hu))).symm
  · rw [heff, hs.admitted]
    rcases Nat.lt_or_ge i before.length with hi | hi
    · rw [List.getElem?_append_left hi, List.take_append_of_le_length hi, List.take_append_of_le_length hi.le]
      refine exists_congr fun t => and_congr_right fun _ => ?_
      exact (and_iff_right fun u hu => judged_iff.mp (hbefore u (List.mem_of_mem_take hu))).symm
    · -- The loop had stopped by then.
      refine iff_of_false (by simp [List.getElem?_eq_none hi]) ?_
      rintro ⟨u, -, hall, -⟩
      refine ht (judged_iff.mpr (hall t ?_))
      rw [List.mem_take_iff_getElem]
      exact ⟨before.length, by simp; omega, by simp⟩

/-- The best is reported when every result was judged. -/
theorem reportedBest_eq_some_iff {g : Generation} {pareto : ParetoSet} {turns : List Turn} {e : ℕ × CandidateResult} :
    (g.process pareto turns).reportedBest = some e ↔
      (∀ u ∈ turns, g.CanJudge u) ∧
        KeepBest.IsBest Generation.fitter FitnessNaN (Generation.workerAccepted turns) e := by
  rw [← KeepBest.best_eq_some_iff fitter_ordered]
  unfold ResultLoop.reportedBest
  rcases Generation.process_settled g pareto turns with ⟨hjudged, hs⟩ | ⟨before, t, after, hturns, -, ht, hraised, -⟩
  · rw [hs.raised, hs.best]
    exact (and_iff_right fun u hu => judged_iff.mp (hjudged u hu)).symm
  · rw [Option.isNone_eq_false_iff.mpr hraised]
    refine iff_of_false (by simp) fun h => ht (judged_iff.mpr (h.1 t ?_))
    rw [hturns]
    simp

theorem addPoint_of_snapshot {g : Generation} {pareto : ParetoSet} {turns : List Turn} {i : ℕ} {name payload : String}
    (h : .writeSnapshot i name payload ∈ (g.process pareto turns).effects) :
    ∃ p, .addPoint i p ∈ (g.process pareto turns).effects := by
  rcases Generation.process_settled g pareto turns with ⟨-, hs⟩ | ⟨_, _, _, _, _, _, _, s, hs, heff⟩
  · exact hs.snapshots i name payload h
  · rw [heff] at h ⊢
    exact hs.snapshots i name payload h

theorem accepted_of_isBest {turns : List Turn} {i : ℕ} {t : Turn} (hi : turns[i]? = some t)
    (h : KeepBest.IsBest Generation.fitter FitnessNaN (Generation.workerAccepted turns) (i, t.result)) :
    t.result.decision = .accepted := by
  obtain ⟨pre, post, hl, -⟩ := h
  have hmem : (i, t.result) ∈ Generation.workerAccepted turns := by simp [hl]
  obtain ⟨⟨u, j⟩, hu, hji⟩ := List.mem_map.mp hmem
  obtain ⟨rfl, -⟩ := Prod.mk.inj hji
  obtain ⟨hzip, hacc⟩ := List.mem_filter.mp hu
  rw [List.mem_zipIdx_iff_getElem?, hi, Option.some.injEq] at hzip
  exact hzip ▸ of_decide_eq_true hacc

/-- **The verdict has no part in the admission.** Results with a blocking verdict are kept out exactly when each of
them that its worker accepted and the loop gets to meets a front that refuses it anyway, one that holds its sha or
dominates it, and is not the fittest of the worker-accepted results of a generation that is reported. -/
theorem keepsOut_iff (g : Generation) (pareto : ParetoSet) (turns : List Turn) :
    g.KeepsOut pareto turns ↔
      ∀ i t v, turns[i]? = some t → g.judge t = .ok v → v.Blocks → t.result.decision = .accepted →
        ((∀ u ∈ turns.take i, g.CanJudge u) →
          (∃ q ∈ (g.frontAfter pareto (turns.take i)).points, q.paramsSha = t.result.paramsSha) ∨
            ∃ q ∈ (g.frontAfter pareto (turns.take i)).points, dominates q (g.pointOf t.result)) ∧
        ((∀ u ∈ turns, g.CanJudge u) →
          ¬ KeepBest.IsBest Generation.fitter FitnessNaN (Generation.workerAccepted turns) (i, t.result)) := by
  have htake : ∀ {i t v}, turns[i]? = some t → g.judge t = .ok v →
      ((∀ u ∈ turns.take (i + 1), g.CanJudge u) ↔ ∀ u ∈ turns.take i, g.CanJudge u) := by
    intro i t v hi hv
    have hcan : g.CanJudge t := judged_iff.mp ⟨v, hv⟩
    rw [List.take_add_one, hi, Option.toList_some]
    simp only [List.mem_append, List.mem_singleton]
    exact ⟨fun h u hu => h u (Or.inl hu), fun h u hu => hu.elim (h u) fun hut => hut ▸ hcan⟩
  constructor
  · intro h i t v hi hv hblocks hacc
    obtain ⟨hadded, -, hbest⟩ := h i t v hi hv hblocks
    refine ⟨fun hearlier => ?_, fun hall hmost => hbest (reportedBest_eq_some_iff.mpr ⟨hall, hmost⟩)⟩
    refine (add_fst_eq_false_iff (p := g.pointOf t.result)).mp ?_
    rw [← Bool.not_eq_true]
    intro hadd
    exact hadded _ (addPoint_mem_process.mpr ⟨t, hi, (htake hi hv).mpr hearlier, hacc, rfl, hadd⟩)
  · intro h i t v hi hv hblocks
    have hadded : ∀ p, .addPoint i p ∉ (g.process pareto turns).effects := by
      intro p hp
      obtain ⟨u, hu, hcan, hacc, rfl, hadd⟩ := addPoint_mem_process.mp hp
      rw [hi] at hu
      cases hu
      have hrefused := (add_fst_eq_false_iff (p := g.pointOf t.result)).mpr
        ((h i t v hi hv hblocks hacc).1 ((htake hi hv).mp hcan))
      rw [hrefused] at hadd
      cases hadd
    refine ⟨hadded, fun name payload hw => ?_, fun hbest => ?_⟩
    · obtain ⟨p, hp⟩ := addPoint_of_snapshot hw
      exact hadded p hp
    · obtain ⟨hall, hmost⟩ := reportedBest_eq_some_iff.mp hbest
      exact (h i t v hi hv hblocks (accepted_of_isBest hi hmost)).2 hall hmost

def tenths (n : ℕ) (h : n ≤ 10) : Score where
  value := n / 10
  nonneg := by positivity
  le_one := by
    rw [div_le_one (by norm_num)]
    exact_mod_cast h

def defaultRunner : MakerCheckerRunner where
  checker := {
    calibrationParams := none
    rejectionThreshold := tenths 3 (by decide)
    minConfidence := .zero }
  arbiter := {
    makerWeight := tenths 4 (by decide)
    checkerWeight := tenths 6 (by decide)
    gapThreshold := tenths 4 (by decide)
    weights := by norm_num [tenths] }
  enabled := true

def firstGeneration : Generation where
  gen := 1
  cluster := "C3 Confluence"
  runner := some defaultRunner

/-- Forty trades that the worker accepts and the language model does not. -/
def overruledTurn : Turn where
  result := {
    candidateId := "gen1-001"
    paramsSha := "a"
    decision := .accepted
    rejectionReason := none
    metrics := { Metrics.empty with sharpe := some (.finite 1), tradesCount := some 40 }
    fitness := some (.finite 1)
    runDir := "runs/a"
    error := none }
  reply := .verdict {
    checkerScore := tenths 5 (by decide)
    confidence := tenths 9 (by decide)
    rawScore := tenths 5 (by decide)
    flags := []
    accept := false }
  tuningYaml := ""

theorem overruledTurn_not_kept_out : ¬ firstGeneration.KeepsOut .empty [overruledTurn] := by
  intro h
  obtain ⟨llm, hllm, haccept⟩ :
      ∃ llm, verify defaultRunner.checker overruledTurn.reply = .ok llm ∧ llm.accept = false := ⟨_, rfl, rfl⟩
  obtain ⟨verdict, hverdict, hdecision⟩ : ∃ verdict, firstGeneration.judge overruledTurn = .ok verdict ∧
      verdict.decision = mergedDecision defaultRunner.arbiter (checkCandidate overruledTurn.result none) llm none :=
    evaluateCandidate_eq rfl hllm
  have hblocks : verdict.Blocks := by
    refine Or.inl (hdecision.trans ?_)
    simp [mergedDecision, haccept]
  refine (h 0 overruledTurn verdict rfl hverdict hblocks).1 _
    (addPoint_mem_process.mpr ⟨overruledTurn, rfl, ?_, rfl, rfl, ?_⟩)
  · simp [Generation.CanJudge, overruledTurn]
  · rfl

/-! ## A higher score -/

/-- **A higher score** never makes a candidate rejected, and takes it from accepted to a human exactly where it is
beyond one half by more than the gap allows. -/
theorem higher_score (runner : MakerCheckerRunner) (candidate : CandidateResult) (parent : Option Metrics)
    (v v' : Verdict) (h : ScoresHigher runner.checker v v') :
    ∃ result result', runner.evaluate candidate (.verdict v) parent = .ok result ∧
      runner.evaluate candidate (.verdict v') parent = .ok result' ∧
      (result.finalDecision ≠ .rejected → result'.finalDecision ≠ .rejected) ∧
      (result'.finalDecision.favour < result.finalDecision.favour ↔ result.finalDecision = .accepted ∧
        runner.arbiter.gapThreshold.value < (runner.checker.score v').value - 1 / 2) := by
  obtain ⟨result, hresult, hdecision⟩ := evaluate_eq runner candidate v parent
  obtain ⟨result', hresult', hdecision'⟩ := evaluate_eq runner candidate v' parent
  refine ⟨result, result', hresult, hresult', ?_⟩
  rw [hdecision, hdecision']
  by_cases hrejected : (checkCandidate candidate parent).decision = .rejected
  · simp [hrejected, VerdictDecision.favour]
  · rw [if_neg hrejected, if_neg hrejected]
    cases haccepts : runner.checker.accepts v with
    | false => simp [VerdictDecision.favour]
    | true =>
        rw [h.accepts haccepts]
        simp only [Bool.true_eq_false, if_false]
        by_cases hsuspicious : (checkCandidate candidate parent).decision = .suspicious
        · simp [hsuspicious, VerdictDecision.favour]
        · rw [if_neg hsuspicious, if_neg hsuspicious]
          exact ⟨fun _ => settleGap_ne_rejected _ _, settleGap_favour_lt_iff h.score⟩

def scored (n : ℕ) (h : n ≤ 10) : Verdict where
  checkerScore := .zero
  confidence := tenths 9 (by decide)
  rawScore := tenths n h
  flags := []
  accept := true

theorem scored_higher {n m : ℕ} (hn : n ≤ 10) (hm : m ≤ 10) (h : n ≤ m) :
    ScoresHigher defaultRunner.checker (scored n hn) (scored m hm) where
  score := by
    have hcast : (n : ℚ) ≤ m := by exact_mod_cast h
    exact div_le_div_of_nonneg_right hcast (by norm_num)
  confidence := rfl
  accept := rfl

theorem eight_tenths_fare : ∃ result result',
    defaultRunner.evaluate overruledTurn.result (.verdict (scored 5 (by decide))) none = .ok result ∧
    defaultRunner.evaluate overruledTurn.result (.verdict (scored 8 (by decide))) none = .ok result' ∧
    (result.finalDecision ≠ .rejected → result'.finalDecision ≠ .rejected) ∧
    (result'.finalDecision.favour < result.finalDecision.favour ↔ result.finalDecision = .accepted ∧
      defaultRunner.arbiter.gapThreshold.value <
        (defaultRunner.checker.score (scored 8 (by decide))).value - 1 / 2) :=
  higher_score defaultRunner overruledTurn.result none _ _ (scored_higher _ _ (by decide))

/-- At eight tenths the candidate is accepted, at ten tenths a human has to look at it. -/
theorem full_score_suspicious : ScoresHigher defaultRunner.checker (scored 8 (by decide)) (scored 10 (by decide)) ∧
    ∃ result result',
      defaultRunner.evaluate overruledTurn.result (.verdict (scored 8 (by decide))) none = .ok result ∧
      defaultRunner.evaluate overruledTurn.result (.verdict (scored 10 (by decide))) none = .ok result' ∧
      result.finalDecision = .accepted ∧ result'.finalDecision = .suspiciousToHuman := by
  refine ⟨scored_higher _ _ (by decide), ?_⟩
  obtain ⟨result, hresult, hdecision⟩ := evaluate_eq defaultRunner overruledTurn.result (scored 8 (by decide)) none
  obtain ⟨result', hresult', hdecision'⟩ := evaluate_eq defaultRunner overruledTurn.result (scored 10 (by decide)) none
  refine ⟨result, result', hresult, hresult', hdecision.trans ?_, hdecision'.trans ?_⟩
  · decide +kernel
  · decide +kernel

/-! ## The plateau -/

/-- **The plateau count** is the number of generations behind the last one that improved exactly when it does not raise
and every generation without an accepted record has one that improved behind it. -/
theorem plateauCount_iff (history : Option (List HistoryLine)) :
    plateauCountFromHistory history = .ok (stalledGenerations (records (history.getD []))).card ↔
      HistoryLine.value ∉ history.getD [] ∧ ¬ MixedGens (records (history.getD [])) ∧
        ∀ g ∈ generations (records (history.getD [])), bestOf (records (history.getD [])) (some g) ≠ ⊥ ∨
          ∃ g' ∈ generations (records (history.getD [])), g < g' ∧ Improves (records (history.getD [])) g' := by
  cases history with
  | none => exact iff_of_true rfl ⟨by simp, by simp [MixedGens, records, bestOf], by simp [generations, records]⟩
  | some lines =>
      rw [Option.getD_some]
      rcases plateauCount_some lines with ⟨hvalue, hcount⟩ | ⟨-, hmixed, hcount⟩ | ⟨hvalue, hmixed, hcount⟩
      · rw [hcount]
        exact iff_of_false (by simp) fun h => h.1 hvalue
      · rw [hcount]
        exact iff_of_false (by simp) fun h => h.2.1 hmixed
      · rw [hcount, Except.ok.injEq, Finset.card_filter_eq_iff]
        simp only [hvalue, hmixed, not_false_eq_true, true_and]
        constructor
        · intro h g hg
          by_cases hacc : bestOf (records lines) (some g) = ⊥
          · right
            by_contra hnone
            push Not at hnone
            refine h g (Finset.mem_filter.mpr ⟨hg, fun g' hg' hle himp => ?_⟩) hacc
            rcases hle.lt_or_eq with hlt | rfl
            · exact hnone g' hg' hlt himp
            · exact himp.1 hacc
          · exact Or.inl hacc
        · intro h g hg
          obtain ⟨hg, hstalled⟩ := Finset.mem_filter.mp hg
          rcases h g hg with hacc | ⟨g', hg', hlt, himp⟩
          · exact hacc
          · exact absurd himp (hstalled g' hg' hlt.le)

/-- Generation 2 has only a rejected record. -/
def rejectedLast : List HistoryLine :=
  [.record ⟨some 1, some "accepted", some 1⟩, .record ⟨some 2, some "rejected", none⟩]

theorem rejectedLast_not_counted : plateauCountFromHistory (some rejectedLast) = .ok 0 ∧
    (stalledGenerations (records rejectedLast)).card = 1 := by
  constructor <;> decide

/-! ## The next wake -/

section

variable {Stamp : Type} {fromTimestamp : Stamp → Option Datetime} {now : Datetime} {cfg : SchedulerConfig}
  {age : Option ℤ}

/-- Backing off waits for the next active window, wherever one of the 48 hours ahead is active; otherwise the delay is
the one of the branch, whatever the hour it ends in. -/
theorem nextWakeAt_window {history : Option (List (StampedLine Stamp))} {pending : Bool} {plateau : ℕ}
    (hplateau : Plateaus history plateau) :
    (BacksOff cfg now pending plateau →
      (∃ t, Active cfg t ∧ now.hours < t.hours ∧ t.hours ≤ now.hours + 48) →
        ∃ d, nextWakeAt fromTimestamp now cfg history pending = .ok d ∧ OpensWindow cfg now d.wakeAt) ∧
    (cfg.weekendSkip = false → ∀ s, Active cfg s → now.micros + 24 * hourMicros < maxMicros →
      ∃ t, Active cfg t ∧ now.hours < t.hours ∧ t.hours ≤ now.hours + 48) ∧
    (Active cfg now → pending = true → now.micros + 5 * minuteMicros < maxMicros →
      ∃ d, nextWakeAt fromTimestamp now cfg history pending = .ok d ∧
        d.wakeAt.micros = now.micros + 5 * minuteMicros) ∧
    (¬ BacksOff cfg now pending plateau → pending = false →
      ∀ age, lastImprovementAge fromTimestamp now history = .ok age → 0 ≤ now.micros + idleDelay cfg age →
        now.micros + idleDelay cfg age < maxMicros →
          ∃ d, nextWakeAt fromTimestamp now cfg history pending = .ok d ∧
            d.wakeAt.micros = now.micros + idleDelay cfg age) := by
  refine ⟨fun hoff ⟨t, hactive, hlt, hle⟩ => ?_, fun hskip s => exists_active_within hskip,
    fun hactive hpending hrange => ?_, fun hoff hpending age hage hzero hrange => ?_⟩
  · obtain ⟨k, hwindow⟩ := exists_nextWindow hactive hlt hle
    obtain ⟨w, hw, hmicros⟩ := nextActiveWindow_found hwindow
    obtain ⟨reason, hwake⟩ := nextWakeAt_backsOff fromTimestamp hplateau hoff
    rw [hwake, hw]
    exact ⟨_, rfl, hwindow.opens hmicros⟩
  · obtain ⟨w, hw, hmicros⟩ : ∃ w, now.add (5 * minuteMicros) = .ok w ∧
        (w.micros : ℤ) = now.micros + 5 * minuteMicros :=
      exists_add now (by omega) (by omega)
    rw [hpending, nextWakeAt_pending fromTimestamp hplateau hactive, hw]
    exact ⟨_, rfl, by simp only; omega⟩
  · obtain ⟨w, hw, hmicros⟩ := exists_add now hzero hrange
    have hactive : Active cfg now := by
      by_contra hquiet
      exact hoff (Or.inl hquiet)
    have hgens : (plateau : ℤ) < cfg.plateauBackoffGens := by
      by_contra hge
      exact hoff (Or.inr ⟨hpending, not_lt.mp hge⟩)
    rw [hpending, nextWakeAt_idle hplateau hactive hgens hage, hw]
    exact ⟨_, rfl, hmicros⟩

/-- The first of January of the year 1, a Monday. -/
def mondayAt (hour minute : ℕ) (h : hour * hourMicros + minute * minuteMicros < maxMicros := by decide) : Datetime :=
  ⟨hour * hourMicros + minute * minuteMicros, h⟩

theorem monday_three_wakes_seven :
    ∃ d, nextWakeAt (fun _ : ℕ => none) (mondayAt 3 0) {} none false = .ok d ∧ OpensWindow {} (mondayAt 3 0) d.wakeAt :=
  (nextWakeAt_window rfl).1 (Or.inl (by decide))
    ⟨mondayAt 7 0, by decide, by decide, by decide⟩

/-- Five minutes from 22:58 the quiet hours have begun. -/
theorem pending_wakes_in_quiet_hours :
    ∃ d, nextWakeAt (fun _ : ℕ => none) (mondayAt 22 58) {} none true = .ok d ∧ d.wakeAt = mondayAt 23 3 ∧
      Active {} (mondayAt 22 58) ∧ ¬ Active {} d.wakeAt := by
  refine ⟨⟨mondayAt 23 3, "operator action pending in NEXT_QUEUE.md", 0, none⟩, ?_⟩
  decide

/-- **The back-off of a plateau** is one exactly when the next hour is quiet and the ordinary delay ends by the next
window. -/
theorem plateau_backsOff_iff {busy idle : Option (List (StampedLine Stamp))} {plateau steady : ℕ}
    (hnow : Active cfg now) (hbusy : Plateaus busy plateau) (hidle : Plateaus idle steady)
    (hgens : cfg.plateauBackoffGens ≤ plateau) (hsteady : (steady : ℤ) < cfg.plateauBackoffGens)
    (hage : lastImprovementAge fromTimestamp now idle = .ok age) :
    (∃ d d', nextWakeAt fromTimestamp now cfg busy false = .ok d ∧
      nextWakeAt fromTimestamp now cfg idle false = .ok d' ∧ d'.wakeAt.micros ≤ d.wakeAt.micros ∧
        PastQuiet cfg now d.wakeAt) ↔
      activeHour cfg (now.hours + 1) = false ∧ ∃ k, NextWindow cfg now k ∧ 0 ≤ now.micros + idleDelay cfg age ∧
        now.micros + idleDelay cfg age ≤ ((now.hours + k) * hourMicros : ℕ) := by
  obtain ⟨reason, hwake⟩ := nextWakeAt_backsOff fromTimestamp hbusy
    (Or.inr ⟨rfl, hgens⟩ : BacksOff cfg now false plateau)
  have hordinary := nextWakeAt_idle hidle hnow hsteady hage
  constructor
  · rintro ⟨d, d', hd, hd', hle, hpast⟩
    rw [hwake] at hd
    rw [hordinary] at hd'
    cases hback : nextActiveWindow now cfg with
    | error e =>
        rw [hback] at hd
        cases hd
    | ok w =>
        rw [hback] at hd
        cases hd
        cases hadd : now.add (idleDelay cfg age) with
        | error e =>
            rw [hadd] at hd'
            cases hd'
        | ok w' =>
            rw [hadd] at hd'
            cases hd'
            rw [add_eq_ok] at hadd
            rcases nextActiveWindow_cases hback with ⟨k, hwindow⟩ | ⟨hnone, hlate⟩
            · obtain ⟨v, hv, hmicros⟩ := nextActiveWindow_found hwindow
              rw [hback] at hv
              cases hv
              refine ⟨(hwindow.pastQuiet_iff hmicros hnow).mp hpast, k, hwindow, ?_, ?_⟩
              · omega
              · rw [← hmicros, ← hadd]
                exact Int.ofNat_le.mpr hle
            · refine absurd hpast (not_pastQuiet hnone hnow ?_)
              rw [hours_add (by omega : w.micros = now.micros + 24 * hourMicros)]
              omega
  · rintro ⟨hnext, k, hwindow, hzero, hle⟩
    obtain ⟨w, hw, hmicros⟩ := nextActiveWindow_found hwindow
    have hmax := w.lt_max
    obtain ⟨w', hw', hmicros'⟩ := exists_add now hzero (by omega)
    rw [hwake, hordinary, hw, hw']
    exact ⟨_, _, rfl, rfl, by simp only; omega, (hwindow.pastQuiet_iff hmicros hnow).mpr hnext⟩

def acceptedAlike (gen : ℤ) : StampedLine Datetime := ⟨.record ⟨some gen, some "accepted", some 1⟩, none⟩

/-- Six generations, none better than the first. -/
def sixAlike : Option (List (StampedLine Datetime)) := some ([1, 2, 3, 4, 5, 6].map acceptedAlike)

/-- At 22:59 the plateau waits for 7:00 and the ordinary delay ends at 23:59. -/
theorem late_evening_backs_off :
    ∃ d d', nextWakeAt some (mondayAt 22 59) {} sixAlike false = .ok d ∧
      nextWakeAt some (mondayAt 22 59) {} none false = .ok d' ∧ d'.wakeAt.micros ≤ d.wakeAt.micros ∧
        PastQuiet {} (mondayAt 22 59) d.wakeAt :=
  (plateau_backsOff_iff (by decide) (by decide : Plateaus sixAlike 5) (rfl : Plateaus none 0)
    (by decide) (by decide) rfl).mpr
    ⟨by decide, 9, ⟨by decide, by decide, by decide, by decide, by decide⟩,
      by decide, by decide⟩

/-- At 10:59 the plateau waits for 11:00, and the ordinary delay would have ended at 11:59. -/
theorem morning_wakes_sooner :
    ∃ d d', nextWakeAt some (mondayAt 10 59) {} sixAlike false = .ok d ∧
      nextWakeAt some (mondayAt 10 59) {} none false = .ok d' ∧ ¬ d'.wakeAt.micros ≤ d.wakeAt.micros ∧
        plateauCountFromHistory (sixAlike.map fun lines => lines.map StampedLine.line) = .ok 5 := by
  refine ⟨⟨mondayAt 11 0, "plateau reached 5 gens ≥ 5 threshold — anti-plateau back-off", 5, none⟩,
    ⟨mondayAt 11 59, "no recent improvement (max 60m)", 0, none⟩, ?_⟩
  decide

end

/-! ## Tuning snapshots -/

/-- A tuning whose scalars and keys are plain comes back through YAML, and none comes back through `--parent-yaml`. -/
theorem snapshot_readsBack (ft : Yaml.FloatText) (t : Tuning ft) :
    ¬ Faithful ft t ∧ ((∀ v ∈ t.values, v.Plain ft) → ReadsBack ft (loadTuning ft) t) := by
  constructor
  · rintro ⟨-, values, hload, -⟩
    rw [loadParent, loads_snapshot] at hload
    cases hload
  · intro hplain
    exact ⟨t.values, loadTuning_snapshot t hplain, rfl, rfl⟩

def reprs : List (ℚ × PyOs.Text) :=
  [(382 / 1000, "0.382"), (618 / 1000, "0.618"), (1272 / 1000, "1.272"), (1, "1.0"), (3 / 10, "0.3"), (1 / 4, "0.25"),
    (1 / 1000, "0.001"), (5 / 10000, "0.0005"), (3, "3.0"), (5 / 2, "2.5"), (6 / 10, "0.6"), (1 / 2, "0.5"),
    (12 / 10, "1.2"), (8 / 10, "0.8"), (20, "20.0"), (1 / 100000, "1e-05")].map fun entry => (entry.1, entry.2.toList)

def isDecimal (x : ℚ) : Bool := x ∈ reprs.map Prod.fst

/-- The floats of the defaults, and a fee of 0.00001. -/
def decimals : Yaml.FloatText where
  IsFloat x := isDecimal x = true
  repr x := (reprs.lookup x).getD []
  ofText text := ((reprs.find? fun entry => entry.2 = text).map Prod.fst).getD 0
  repr_mem x hx := by
    have hall : ∀ x ∈ reprs.map Prod.fst,
        (reprs.lookup x).getD [] ∈ (Yaml.reprPointed + Yaml.reprPointless).matches' := by decide +kernel
    exact hall x (of_decide_eq_true hx)
  ofText_repr x hx := by
    have hall : ∀ x ∈ reprs.map Prod.fst,
        ((reprs.find? fun entry => entry.2 = (reprs.lookup x).getD []).map Prod.fst).getD 0 = x := by decide +kernel
    exact hall x (of_decide_eq_true hx)

/-- The defaults with a fee of 0.00001. -/
def cheap : Tuning decimals where
  values := (fields.map Prod.snd).set 8 (.plain (float (1 / 100000)))
  typed := typed_of_check isDecimal (fun _ hx => hx) (by decide) (by decide +kernel)
  checked := by decide +kernel

def textOf : Yaml → Option PyOs.Text
  | .str s => some s
  | _ => none

/-- The fee is read back as a text, and `--parent-yaml` does not take the file at all. -/
theorem cheap_not_faithful :
    ¬ Faithful decimals cheap ∧ yamlScalar decimals (float (1 / 100000)) = "1e-05".toList ∧
      (Yaml.readLineValue decimals "1e-05".toList).bind textOf = some "1e-05".toList := by
  refine ⟨?_, by decide +kernel, by decide⟩
  rintro ⟨-, values, hload, -⟩
  rw [loadParent, loads_snapshot] at hload
  cases hload

end CryptoAggHarmonic.Loop
