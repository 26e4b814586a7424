import Mathlib.Data.List.Induction
import CryptoAggHarmonic.Lib.Front
import CryptoAggHarmonic.Loop.Pareto
import Mathlib.Tactic.NormNum
import Mathlib.Tactic.Linarith
import CryptoAggHarmonic.Loop.MakerChecker

/-!
# The Pareto set is a front

Dominance is the strict part of "at least as good on every objective", and `add` is one offer to a front.
-/

namespace CryptoAggHarmonic.Loop

variable {p q r : ParetoPoint} {s : ParetoSet} {offers : List ParetoPoint}

/-! ## Dominance -/

theorem allGe_trans {u v w : PyFloat × PyFloat × PyFloat × PyFloat} (huv : allGe u v) (hvw : allGe v w) :
    allGe u w := by
  simp only [allGe, Bool.and_eq_true] at huv hvw ⊢
  obtain ⟨⟨⟨h₁, h₂⟩, h₃⟩, h₄⟩ := huv
  obtain ⟨⟨⟨k₁, k₂⟩, k₃⟩, k₄⟩ := hvw
  exact ⟨⟨⟨PyFloat.ge_trans h₁ k₁, PyFloat.ge_trans h₂ k₂⟩, PyFloat.ge_trans h₃ k₃⟩, PyFloat.ge_trans h₄ k₄⟩

/-- Among vectors that are nowhere worse, being better somewhere is not being matched back. -/
theorem anyGt_iff {u v : PyFloat × PyFloat × PyFloat × PyFloat} (h : allGe u v) : anyGt u v ↔ ¬ allGe v u := by
  simp only [allGe, Bool.and_eq_true] at h
  obtain ⟨⟨⟨h₁, h₂⟩, h₃⟩, h₄⟩ := h
  simp only [anyGt, allGe, PyFloat.gt, h₁, h₂, h₃, h₄, Bool.true_and, Bool.or_eq_true, Bool.not_eq_true',
    Bool.and_eq_true, ← Bool.not_eq_true]
  tauto

theorem dominates_iff :
    dominates p q ↔ allGe (objectives p) (objectives q) ∧ ¬ allGe (objectives q) (objectives p) := by
  rw [dominates, Bool.and_eq_true]
  exact and_congr_right anyGt_iff

theorem dominates_irrefl (p : ParetoPoint) : dominates p p = false := by
  rw [← Bool.not_eq_true, dominates_iff]
  exact fun h => h.2 h.1

theorem dominates_trans (hpq : dominates p q) (hqr : dominates q r) : dominates p r := by
  rw [dominates_iff] at hpq hqr ⊢
  exact ⟨allGe_trans hpq.1 hqr.1, fun h => hpq.2 (allGe_trans hqr.1 h)⟩

theorem dominates_congr_left (h : objectives p = objectives q) (r : ParetoPoint) : dominates p r = dominates q r := by
  unfold dominates
  rw [h]

theorem dominates_congr_right (h : objectives p = objectives q) (r : ParetoPoint) : dominates r p = dominates r q := by
  unfold dominates
  rw [h]

/-- Equal shas mean the same experiment, so the same objectives. -/
def ShaDetermines (offers : List ParetoPoint) : Prop :=
  ∀ p ∈ offers, ∀ q ∈ offers, p.paramsSha = q.paramsSha → objectives p = objectives q

theorem ShaDetermines.ordered (h : ShaDetermines offers) : Fronts.Ordered dominates ParetoPoint.paramsSha offers where
  irrefl := dominates_irrefl
  trans := fun _ _ _ => dominates_trans
  below := fun p hp q hq hsha r => dominates_congr_left (h p hp q hq hsha) r
  above := fun p hp q hq hsha r => dominates_congr_right (h p hp q hq hsha) r

/-! ## `add` -/

theorem add_eq (s : ParetoSet) (p : ParetoPoint) :
    s.add p = ((Fronts.insert dominates ParetoPoint.paramsSha s.points p).isSome,
      ⟨(Fronts.insert dominates ParetoPoint.paramsSha s.points p).getD s.points⟩) := by
  unfold ParetoSet.add Fronts.insert
  dsimp only
  split_ifs <;> rfl

@[simp] theorem addAll_append (s : ParetoSet) (ps qs : List ParetoPoint) :
    s.addAll (ps ++ qs) = (s.addAll ps).addAll qs := List.foldl_append

@[simp] theorem addAll_singleton (s : ParetoSet) (p : ParetoPoint) : s.addAll [p] = (s.add p).2 := rfl

/-- A refused point leaves the set as it was. -/
theorem add_refused (h : (s.add p).1 = false) : (s.add p).2 = s := by
  rw [add_eq] at h ⊢
  rw [Option.isSome_eq_false_iff, Option.isNone_iff_eq_none] at h
  rw [h]
  rfl

/-- An admitted point is in the set and was not before. -/
theorem add_admitted (h : (s.add p).1 = true) : p ∉ s.points ∧ p ∈ (s.add p).2.points := by
  unfold ParetoSet.add at h ⊢
  dsimp only at h ⊢
  split_ifs at h ⊢ with hsha hdom
  constructor
  · intro hp
    exact hsha (List.any_eq_true.mpr ⟨p, hp, by simp⟩)
  · simp

/-- `add` refuses a known sha and a point that a member dominates. -/
theorem add_fst_eq_false_iff : (s.add p).1 = false ↔
    (∃ q ∈ s.points, q.paramsSha = p.paramsSha) ∨ ∃ q ∈ s.points, dominates q p := by
  unfold ParetoSet.add
  dsimp only
  split_ifs with hsha hdom
  · obtain ⟨q, hq, hqp⟩ := List.any_eq_true.mp hsha
    simpa using Or.inl ⟨q, hq, of_decide_eq_true hqp⟩
  · obtain ⟨q, hq, hqp⟩ := List.any_eq_true.mp hdom
    simpa using Or.inr ⟨q, List.mem_of_mem_filter hq, hqp⟩
  · rw [List.any_eq_true] at hsha hdom
    simp only [false_iff, not_or, not_exists, not_and]
    refine ⟨fun q hq hqp => hsha ⟨q, hq, decide_eq_true hqp⟩, fun q hq hqp => ?_⟩
    -- A member that dominates `p` is not dominated by it, so it stays.
    refine hdom ⟨q, List.mem_filter.mpr ⟨hq, ?_⟩, hqp⟩
    by_contra hpq
    rw [Bool.not_eq_true', Bool.not_eq_false] at hpq
    have := dominates_trans hpq hqp
    rw [dominates_irrefl] at this
    cases this

/-- **The set built by any offers is their front.** -/
theorem addAll_isFront (h : ShaDetermines offers) :
    Fronts.IsFront dominates ParetoPoint.paramsSha offers (ParetoSet.empty.addAll offers).points := by
  induction offers using List.reverseRecOn with
  | nil => exact Fronts.isFront_nil
  | append_singleton earlier p ih =>
      have hordered := ShaDetermines.ordered h
      have hearlier : ShaDetermines earlier := fun p hp q hq =>
        h p (List.mem_append_left _ hp) q (List.mem_append_left _ hq)
      rw [addAll_append, addAll_singleton, add_eq]
      exact (ih hearlier).insert hordered

end CryptoAggHarmonic.Loop

/-!
# When the verdict comes, and when it is accepted

The scores are in `[0, 1]`, so the arbiter never raises; a merged verdict is accepted only when the worker, the
heuristics and the language model all agree and the scores are close.
-/

namespace CryptoAggHarmonic.Loop

variable {config : ArbiterConfig} {m4 : CheckerVerdict} {llm : Verdict} {maker : Option Score}
  {runner : MakerCheckerRunner} {candidate : CandidateResult} {reply : Reply} {parent : Option Metrics}
  {decision m4Verdict : VerdictDecision} {triggers : List String} {agreement : Bool}

/-! ## The heuristics -/

/-- The flags of the heuristics. -/
def heuristicFlags (metrics : Metrics) (parent : Option Metrics) : List String :=
  [flagLowSample metrics, flagRegimeImbalance metrics, flagBearRegimeSharpe metrics,
    flagFitnessGain metrics parent].reduceOption

theorem checkCandidate_decision (candidate : CandidateResult) (parent : Option Metrics) :
    (checkCandidate candidate parent).decision =
      if candidate.decision ≠ .accepted then .rejected
      else if heuristicFlags candidate.metrics parent ≠ [] then .suspicious else .promising := by
  unfold checkCandidate heuristicFlags
  dsimp only
  split_ifs <;> rfl

/-! ## The arbiter -/

theorem makerScore_mem (maker : Option Score) : 0 ≤ makerScore maker ∧ makerScore maker ≤ 1 := by
  cases maker with
  | none => norm_num [makerScore]
  | some score => exact ⟨score.nonneg, score.le_one⟩

theorem weighted_mem (weight : Score) {x : ℚ} (hx : 0 ≤ x ∧ x ≤ 1) : 0 ≤ weight.value * x ∧ weight.value * x ≤ 1 :=
  ⟨mul_nonneg weight.nonneg hx.1, mul_le_one₀ weight.le_one hx.1 hx.2⟩

theorem merge_eq (config : ArbiterConfig) (maker : Option Score) (llm : Verdict) :
    merge decision (finalScore config maker llm) m4Verdict triggers llm agreement =
      .ok { finalDecision := decision
            finalScore := finalScore config maker llm
            m4Verdict := m4Verdict
            triggerReasons := triggers
            checkerConfidence := some llm.confidence
            checkerFlags := llm.flags
            agreement := some agreement } := by
  obtain ⟨hm, hm'⟩ := weighted_mem config.makerWeight (makerScore_mem maker)
  obtain ⟨hc, hc'⟩ := weighted_mem config.checkerWeight ⟨llm.checkerScore.nonneg, llm.checkerScore.le_one⟩
  have hrange : -10 ≤ finalScore config maker llm ∧ finalScore config maker llm ≤ 10 := by
    unfold finalScore
    constructor <;> linarith
  rw [merge, if_pos hrange]

/-- The decision tree of the arbiter. -/
def mergedDecision (config : ArbiterConfig) (m4 : CheckerVerdict) (llm : Verdict) (maker : Option Score) :
    VerdictDecision :=
  if m4.decision = .rejected then .rejected
  else if !llm.accept then .rejected
  else if m4.decision = .suspicious then .suspiciousToHuman
  else if gap maker llm > config.gapThreshold.value then .suspiciousToHuman
  else .accepted

/-- The arbiter comes to its decision on every verdict of the heuristics. -/
theorem resolve_eq (hm4 : m4.decision = .rejected ∨ m4.decision = .suspicious ∨ m4.decision = .promising) :
    ∃ result, resolve config m4 llm maker = .ok result ∧ result.finalDecision = mergedDecision config m4 llm maker := by
  unfold resolve mergedDecision
  rcases hm4 with h | h | h <;> simp only [h, merge_eq]
  · exact ⟨_, rfl, rfl⟩
  · cases llm.accept with
    | true => exact ⟨_, rfl, by simp⟩
    | false => exact ⟨_, rfl, by simp⟩
  · cases llm.accept with
    | true =>
        by_cases hgap : gap maker llm > config.gapThreshold.value
        · simp [hgap]
        · simp [hgap]
    | false => exact ⟨_, rfl, by simp⟩

/-! ## The adapter -/

theorem verify_returns_iff {config : CheckerConfig} :
    (∃ verdict, verify config reply = .ok verdict) ↔ reply ≠ .promptRaises := by
  cases reply with
  | promptRaises => simp [verify]
  | failed => simp [verify]
  | verdict v => simp [verify]

/-- The merged decision, once the language model has been asked. -/
theorem evaluateCandidate_eq (henabled : runner.enabled) (hllm : verify runner.checker reply = .ok llm) :
    ∃ verdict, evaluateCandidate candidate runner reply parent = .ok verdict ∧
      verdict.decision = mergedDecision runner.arbiter (checkCandidate candidate parent) llm none := by
  have hm4 : (checkCandidate candidate parent).decision = .rejected ∨
      (checkCandidate candidate parent).decision = .suspicious ∨
      (checkCandidate candidate parent).decision = .promising := by
    rw [checkCandidate_decision]
    split_ifs <;> simp
  have hresolve : ∃ result, resolve runner.arbiter (checkCandidate candidate parent) llm none = .ok result ∧
      result.finalDecision = mergedDecision runner.arbiter (checkCandidate candidate parent) llm none := resolve_eq hm4
  obtain ⟨result, hresult, hdecision⟩ := hresolve
  unfold evaluateCandidate MakerCheckerRunner.evaluate
  rw [hllm, henabled]
  simp only [bind, Except.bind, hresult]
  exact ⟨_, rfl, hdecision⟩

/-- A verdict comes unless the runner is to ask the language model and the prompt cannot be built. -/
theorem evaluateCandidate_returns_iff : (∃ verdict, evaluateCandidate candidate runner reply parent = .ok verdict) ↔
    (runner.enabled → reply ≠ .promptRaises) := by
  cases henabled : runner.enabled with
  | false => simp [evaluateCandidate, henabled]
  | true =>
      constructor
      · rintro ⟨verdict, hverdict⟩ - rfl
        simp [evaluateCandidate, henabled, MakerCheckerRunner.evaluate, verify, bind, Except.bind] at hverdict
      · intro hreply
        obtain ⟨llm, hllm⟩ := verify_returns_iff.mpr (hreply rfl)
        have hmerged : ∃ verdict, evaluateCandidate candidate runner reply parent = .ok verdict ∧
            verdict.decision = mergedDecision runner.arbiter (checkCandidate candidate parent) llm none :=
          evaluateCandidate_eq henabled hllm
        exact hmerged.imp fun _ h => h.1

/-! ## A higher score -/

/-- accepted > suspicious_to_human > rejected -/
def VerdictDecision.favour : VerdictDecision → ℕ
  | .accepted => 2
  | .suspiciousToHuman => 1
  | _ => 0

/-- The score of a verdict once it is calibrated. -/
def CheckerConfig.score (config : CheckerConfig) (v : Verdict) : Score :=
  match config.calibrationParams with
  | none => v.rawScore
  | some params => params.apply v.rawScore

/-- The verdict is that of the model and of both thresholds. -/
def CheckerConfig.accepts (config : CheckerConfig) (v : Verdict) : Bool :=
  v.accept && decide ((config.score v).value ≥ config.rejectionThreshold.value) &&
    decide (v.confidence.value ≥ config.minConfidence.value)

theorem verify_verdict (config : CheckerConfig) (v : Verdict) :
    verify config (.verdict v) = .ok { v with checkerScore := config.score v, accept := config.accepts v } := by
  unfold verify CheckerConfig.accepts CheckerConfig.score
  cases config.calibrationParams <;> rfl

/-- The checker scores the candidate higher, and says the same otherwise. -/
structure ScoresHigher (config : CheckerConfig) (v v' : Verdict) : Prop where
  score : (config.score v).value ≤ (config.score v').value
  confidence : v'.confidence = v.confidence
  accept : v'.accept = v.accept

variable {v v' : Verdict}

theorem ScoresHigher.accepts {config : CheckerConfig} (h : ScoresHigher config v v') (haccepts : config.accepts v) :
    config.accepts v' := by
  simp only [CheckerConfig.accepts, Bool.and_eq_true, decide_eq_true_eq] at haccepts ⊢
  rw [h.accept, h.confidence]
  exact ⟨⟨haccepts.1.1, haccepts.1.2.trans h.score⟩, haccepts.2⟩

/-- The end of the decision tree: the maker has no score of its own, and the checker's is compared with one half. -/
def settleGap (threshold score : ℚ) : VerdictDecision :=
  if |1 / 2 - score| > threshold then .suspiciousToHuman else .accepted

theorem settleGap_favour_lt_iff {threshold x x' : ℚ} (h : x ≤ x') :
    (settleGap threshold x').favour < (settleGap threshold x).favour ↔
      settleGap threshold x = .accepted ∧ threshold < x' - 1 / 2 := by
  unfold settleGap
  by_cases hfar : |1 / 2 - x| > threshold
  · rw [if_pos hfar]
    split_ifs <;> simp [VerdictDecision.favour]
  · have hnear : |1 / 2 - x| ≤ threshold := not_lt.mp hfar
    have hfar' : |1 / 2 - x'| > threshold ↔ threshold < x' - 1 / 2 := by
      rcases le_or_gt x' (1 / 2) with hlow | hhigh
      · rw [abs_of_nonneg (by linarith)]
        rw [abs_of_nonneg (by linarith)] at hnear
        constructor <;> intro hlt <;> linarith
      · rw [abs_of_neg (by linarith)]
        constructor <;> intro hlt <;> linarith
    rw [if_neg hfar]
    by_cases hbeyond : |1 / 2 - x'| > threshold
    · rw [if_pos hbeyond]
      exact iff_of_true (by decide) ⟨rfl, hfar'.mp hbeyond⟩
    · rw [if_neg hbeyond]
      exact iff_of_false (lt_irrefl _) fun hboth => hbeyond (hfar'.mpr hboth.2)

theorem settleGap_ne_rejected (threshold x : ℚ) : settleGap threshold x ≠ .rejected := by
  unfold settleGap
  split_ifs <;> simp

theorem evaluate_eq (runner : MakerCheckerRunner) (candidate : CandidateResult) (v : Verdict)
    (parent : Option Metrics) :
    ∃ result, runner.evaluate candidate (.verdict v) parent = .ok result ∧
      result.finalDecision =
        if (checkCandidate candidate parent).decision = .rejected then .rejected
        else if runner.checker.accepts v = false then .rejected
        else if (checkCandidate candidate parent).decision = .suspicious then .suspiciousToHuman
        else settleGap runner.arbiter.gapThreshold.value (runner.checker.score v).value := by
  have hm4 : (checkCandidate candidate parent).decision = .rejected ∨
      (checkCandidate candidate parent).decision = .suspicious ∨
      (checkCandidate candidate parent).decision = .promising := by
    rw [checkCandidate_decision]
    split_ifs <;> simp
  generalize hllm : ({ v with checkerScore := runner.checker.score v, accept := runner.checker.accepts v } : Verdict) =
    llm
  have hresolve : ∃ result, resolve runner.arbiter (checkCandidate candidate parent) llm none = .ok result ∧
      result.finalDecision = mergedDecision runner.arbiter (checkCandidate candidate parent) llm none := resolve_eq hm4
  obtain ⟨result, hresult, hdecision⟩ := hresolve
  refine ⟨result, ?_, ?_⟩
  · unfold MakerCheckerRunner.evaluate
    rw [verify_verdict, hllm]
    exact hresult
  · rw [hdecision, ← hllm]
    unfold mergedDecision
    cases runner.checker.accepts v <;> rfl

end CryptoAggHarmonic.Loop

/-!
# What the result loop keeps

After any results the loop has offered the points of the worker-accepted ones to the front, in their order, and keeps
the fittest of them; no verdict comes into it.
-/

namespace CryptoAggHarmonic.Loop.Generation

variable {g : Generation} {pareto : ParetoSet} {s : ResultLoop} {t : Turn} {turns consumed : List Turn} {i : ℕ}
  {verdict : CheckerVerdict} {p : ParetoPoint}

/-- The results the workers accepted, with their numbers. -/
def workerAccepted (turns : List Turn) : List (ℕ × CandidateResult) :=
  (turns.zipIdx.filter fun e => e.1.result.decision = .accepted).map fun e => (e.2, e.1.result)

/-- The front that the worker-accepted results of the turns leave. -/
def frontAfter (g : Generation) (pareto : ParetoSet) (turns : List Turn) : ParetoSet :=
  pareto.addAll ((workerAccepted turns).map fun e => g.pointOf e.2)

@[simp] theorem workerAccepted_append_singleton (turns : List Turn) (t : Turn) : workerAccepted (turns ++ [t]) =
    workerAccepted turns ++ if t.result.decision = .accepted then [(turns.length, t.result)] else [] := by
  unfold workerAccepted
  rw [List.zipIdx_append]
  split_ifs with h <;> simp [h]

theorem frontAfter_accepted (h : t.result.decision = .accepted) :
    g.frontAfter pareto (turns ++ [t]) = ((g.frontAfter pareto turns).add (g.pointOf t.result)).2 := by
  simp [frontAfter, h, ParetoSet.addAll, List.foldl_append]

theorem frontAfter_other (h : t.result.decision ≠ .accepted) :
    g.frontAfter pareto (turns ++ [t]) = g.frontAfter pareto turns := by
  simp [frontAfter, h]

/-! ## One turn -/

@[simp] theorem journal_turn : (journal s t verdict).turn = s.turn := by
  unfold journal
  dsimp only
  split_ifs <;> rfl

@[simp] theorem journal_pareto : (journal s t verdict).pareto = s.pareto := by
  unfold journal
  dsimp only
  split_ifs <;> rfl

@[simp] theorem journal_bestSoFar : (journal s t verdict).bestSoFar = s.bestSoFar := by
  unfold journal
  dsimp only
  split_ifs <;> rfl

@[simp] theorem journal_raised : (journal s t verdict).raised = s.raised := by
  unfold journal
  dsimp only
  split_ifs <;> rfl

@[simp] theorem addPoint_mem_journal :
    Effect.addPoint i p ∈ (journal s t verdict).effects ↔ Effect.addPoint i p ∈ s.effects := by
  unfold journal
  dsimp only
  split_ifs <;> simp [ResultLoop.emit]

@[simp] theorem snapshot_mem_journal {name payload : String} :
    Effect.writeSnapshot i name payload ∈ (journal s t verdict).effects ↔
      Effect.writeSnapshot i name payload ∈ s.effects := by
  unfold journal
  dsimp only
  split_ifs <;> simp [ResultLoop.emit]

/-- A result the workers did not accept changes neither the front nor the best. -/
theorem settle_other (h : t.result.decision ≠ .accepted) :
    (g.settle s t).pareto = s.pareto ∧ (g.settle s t).bestSoFar = s.bestSoFar ∧ (g.settle s t).raised = s.raised ∧
      (∀ i p, Effect.addPoint i p ∈ (g.settle s t).effects ↔ Effect.addPoint i p ∈ s.effects) ∧
      ∀ i name payload, Effect.writeSnapshot i name payload ∈ (g.settle s t).effects ↔
        Effect.writeSnapshot i name payload ∈ s.effects := by
  unfold settle
  cases hd : t.result.decision with
  | accepted => exact absurd hd h
  | rejected => simp [ResultLoop.emit]
  | error => simp [ResultLoop.emit]
  | duplicate => simp

theorem addPoint_mem_settle (h : t.result.decision = .accepted) : Effect.addPoint i p ∈ (g.settle s t).effects ↔
    Effect.addPoint i p ∈ s.effects ∨ (i = s.turn ∧ p = g.pointOf t.result ∧ (s.pareto.add p).1 = true) := by
  simp only [settle, h, settleAccepted, List.mem_append]
  split_ifs with hadd
  · simp only [List.mem_cons, Effect.addPoint.injEq, reduceCtorEq, List.not_mem_nil, or_false]
    refine or_congr_right ⟨fun ⟨hi, hp⟩ => ⟨hi, hp, hp ▸ hadd⟩, fun ⟨hi, hp, _⟩ => ⟨hi, hp⟩⟩
  · simp only [List.not_mem_nil, or_false]
    refine ⟨Or.inl, ?_⟩
    rintro (hmem | ⟨-, rfl, hp⟩)
    · exact hmem
    · exact absurd hp hadd

/-- A snapshot is written for an admitted point only. -/
theorem snapshot_mem_settle {name payload : String} (h : t.result.decision = .accepted)
    (hmem : Effect.writeSnapshot i name payload ∈ (g.settle s t).effects) :
    Effect.writeSnapshot i name payload ∈ s.effects ∨ ∃ p, Effect.addPoint i p ∈ (g.settle s t).effects := by
  simp only [settle, h, settleAccepted, List.mem_append] at hmem ⊢
  split_ifs at hmem ⊢ with hadd
  · rcases hmem with hmem | hmem
    · exact Or.inl hmem
    · simp only [List.mem_cons, reduceCtorEq, Effect.writeSnapshot.injEq, List.not_mem_nil, or_false, false_or] at hmem
      exact Or.inr ⟨g.pointOf t.result, Or.inr (by simp [hmem.1])⟩
  · exact Or.inl (by simpa using hmem)

/-! ## The loop -/

/-- What the loop has done by the end of the turns it has consumed. -/
structure Settled (g : Generation) (pareto : ParetoSet) (consumed : List Turn) (s : ResultLoop) : Prop where
  turn : s.turn = consumed.length
  front : s.pareto = g.frontAfter pareto consumed
  best : s.bestSoFar = KeepBest.best fitter (workerAccepted consumed)
  admitted : ∀ i p, Effect.addPoint i p ∈ s.effects ↔
    ∃ t, consumed[i]? = some t ∧ t.result.decision = .accepted ∧ p = g.pointOf t.result ∧
      ((g.frontAfter pareto (consumed.take i)).add p).1 = true
  snapshots : ∀ i name payload, Effect.writeSnapshot i name payload ∈ s.effects → ∃ p, Effect.addPoint i p ∈ s.effects
  raised : s.raised = none

theorem settled_start : Settled g pareto [] (.start pareto) where
  turn := rfl
  front := rfl
  best := rfl
  admitted := by simp [ResultLoop.start]
  snapshots := by simp [ResultLoop.start]
  raised := rfl

/-- The turns of a longer list, and the fronts before them, are those of the shorter one and its last. -/
theorem admitted_snoc {P : List Turn → Turn → Prop} :
    (∃ u, (consumed ++ [t])[i]? = some u ∧ P ((consumed ++ [t]).take i) u) ↔
      (∃ u, consumed[i]? = some u ∧ P (consumed.take i) u) ∨ (i = consumed.length ∧ P consumed t) := by
  rcases Nat.lt_trichotomy i consumed.length with h | rfl | h
  · rw [List.getElem?_append_left h, List.take_append_of_le_length h.le]
    simp [h.ne]
  · simp
  · rw [List.getElem?_eq_none (by simp; omega), List.getElem?_eq_none h.le]
    simp [h.ne']

theorem Settled.turn_done (h : Settled g pareto consumed s) (verdict : CheckerVerdict) :
    Settled g pareto (consumed ++ [t]) { g.settle (journal s t verdict) t with turn := s.turn + 1 } := by
  by_cases ht : t.result.decision = .accepted
  · refine ⟨by simp [h.turn], ?_, ?_, fun i p => ?_, fun i name payload hmem => ?_, ?_⟩
    · rw [frontAfter_accepted ht, ← h.front]
      simp [settle, ht, settleAccepted]
    · rw [workerAccepted_append_singleton, if_pos ht, KeepBest.best_append_singleton, ← h.best, ← h.turn]
      simp [settle, ht, settleAccepted]
    · rw [addPoint_mem_settle ht, addPoint_mem_journal, h.admitted, journal_turn, journal_pareto, h.turn, h.front,
        admitted_snoc (P := fun before u => u.result.decision = .accepted ∧ p = g.pointOf u.result ∧
          ((g.frontAfter pareto before).add p).1 = true)]
      simp [ht]
    · rcases snapshot_mem_settle ht hmem with hold | hnew
      · obtain ⟨p, hp⟩ := h.snapshots i name payload (snapshot_mem_journal.mp hold)
        exact ⟨p, (addPoint_mem_settle ht).mpr (Or.inl (addPoint_mem_journal.mpr hp))⟩
      · exact hnew
    · simp [settle, ht, settleAccepted, h.raised]
  · obtain ⟨hpareto, hbest, hraised, hadded, hsnapshot⟩ := settle_other (g := g) (s := journal s t verdict) ht
    refine ⟨by simp [h.turn], ?_, ?_, fun i p => ?_, fun i name payload hmem => ?_, ?_⟩
    · rw [frontAfter_other ht, ← h.front]
      simpa using hpareto
    · rw [workerAccepted_append_singleton, if_neg ht, List.append_nil, ← h.best]
      simpa using hbest
    · rw [hadded, addPoint_mem_journal, h.admitted,
        admitted_snoc (P := fun before u => u.result.decision = .accepted ∧ p = g.pointOf u.result ∧
          ((g.frontAfter pareto before).add p).1 = true)]
      simp [ht]
    · obtain ⟨p, hp⟩ := h.snapshots i name payload (snapshot_mem_journal.mp ((hsnapshot i name payload).mp hmem))
      exact ⟨p, (hadded i p).mpr (addPoint_mem_journal.mpr hp)⟩
    · rw [hraised, journal_raised, h.raised]

def Judged (g : Generation) (t : Turn) : Prop := ∃ verdict, g.judge t = .ok verdict

/-- The loop stopped at a result whose judgement raised. -/
def Stopped (g : Generation) (pareto : ParetoSet) (turns : List Turn) (s : ResultLoop) : Prop :=
  ∃ before t after, turns = before ++ t :: after ∧ (∀ u ∈ before, g.Judged u) ∧ ¬ g.Judged t ∧ s.raised.isSome ∧
    ∃ s', Settled g pareto before s' ∧ s.effects = s'.effects

/-- The loop settles every result, or stops at the first whose judgement raises. -/
theorem process_settled (g : Generation) (pareto : ParetoSet) (turns : List Turn) :
    ((∀ t ∈ turns, g.Judged t) ∧ Settled g pareto turns (g.process pareto turns)) ∨
      Stopped g pareto turns (g.process pareto turns) := by
  refine Loops.run_rule (I := fun is s => (∀ t ∈ is, g.Judged t) ∧ Settled g pareto is s)
    (Q := Stopped g pareto turns) ⟨by simp, settled_start⟩ ?_
  rintro is t rest hturns s ⟨hjudged, hs⟩
  unfold processResult
  cases hj : g.judge t with
  | error e =>
      refine ⟨is, t, rest, hturns, hjudged, ?_, rfl, s, hs, rfl⟩
      rintro ⟨verdict, hv⟩
      rw [hj] at hv
      cases hv
  | ok verdict =>
      refine ⟨fun u hu => ?_, hs.turn_done verdict⟩
      rcases List.mem_append.mp hu with hu | hu
      · exact hjudged u hu
      · rw [List.mem_singleton.mp hu]
        exact ⟨verdict, hj⟩

end CryptoAggHarmonic.Loop.Generation
