import Mathlib.Algebra.Order.Ring.Rat
import Mathlib.Algebra.Order.Group.Abs
import CryptoAggHarmonic.Loop.Pareto
import CryptoAggHarmonic.Lib.Steps
import CryptoAggHarmonic.Lib.KeepBest

/-!
# The verdict on a candidate

The heuristic checker (M4), the language-model checker behind its thresholds, the arbiter that fuses the two, and the
adapter the driver calls.
-/

namespace CryptoAggHarmonic.Loop

inductive VerdictDecision
  | promising
  | suspicious
  | accepted
  | rejected
  | suspiciousToHuman
  deriving DecidableEq, Repr

/-- A flag: a text of the heuristics, or a finding of the language model. -/
inductive Flag
  | heuristic (text : String)
  | finding (severity issue : String)
  deriving DecidableEq

structure CheckerVerdict where
  candidateId : String
  decision : VerdictDecision
  confidence : ℚ
  reasons : List String
  flags : List Flag
  deriving DecidableEq

/-! ## The heuristics -/

/-- A value that is missing or zero is false. -/
def truthy (x : Option PyFloat) : Option PyFloat := x.filter (· ≠ .finite 0)

def Regime.count (r : Regime) : ℤ := r.n.getD 0

/-- The blob of a regime, `{}` when it is missing. -/
def Metrics.regime (metrics : Metrics) (name : String) : Regime := (metrics.byRegime.lookup name).getD ⟨none, none⟩

def flagRegimeImbalance (metrics : Metrics) : Option String :=
  let counts := (metrics.byRegime.map fun r => (r.1, r.2.count)).filter fun c => c.2 ≠ 0
  let total := (counts.map Prod.snd).sum
  if total < 10 then none
  else
    let largest := counts.foldl (fun best c => if c.2 > best.2 then c else best) (counts.headD ("", 0))
    if (largest.2 : ℚ) / total > 17 / 20 then some ("regime_imbalance:" ++ largest.1) else none

def flagLowSample (metrics : Metrics) : Option String :=
  let tc := metrics.tradesCount.getD 0
  if tc < 30 then some ("low_sample:" ++ toString tc ++ "_trades") else none

def flagBearRegimeSharpe (metrics : Metrics) : Option String :=
  let bear := if metrics.regime "bear" = ⟨none, none⟩ then metrics.regime "range" else metrics.regime "bear"
  if bear.count < 3 then none
  else
    match bear.sharpe with
    | none => some "bear_sharpe_missing"
    | some s => if (PyFloat.finite (-1)).gt s then some "bear_sharpe_extreme:" else none

/-- Fitness more than doubled on far fewer trades than the parent's. -/
def flagFitnessGain (metrics : Metrics) (parent : Option Metrics) : Option String :=
  match parent with
  | none => none
  | some parent =>
      match truthy metrics.fitness, truthy parent.fitness with
      | some new, some old =>
          let tcNew := metrics.tradesCount.getD 0
          let tcOld := parent.tradesCount.getD 0
          if new.gt old.twice && decide ((tcNew : ℚ) < max 15 (tcOld * (1 / 2))) then some "fitness_gain_trade_drop"
          else none
      | _, _ => none

def checkCandidate (result : CandidateResult) (parent : Option Metrics) : CheckerVerdict :=
  let low := flagLowSample result.metrics
  let imbalance := flagRegimeImbalance result.metrics
  let bear := flagBearRegimeSharpe result.metrics
  let gain := flagFitnessGain result.metrics parent
  let flags := [low, imbalance, bear, gain].reduceOption
  let reasons := [low.map fun _ => "sample size < 30",
    imbalance.map fun flag => "trades skewed to one regime (" ++ flag ++ ")",
    bear.map fun _ => "bear-regime sharpe suggests overfit to trending market",
    gain.map fun _ => "(likely overfit / cherry-picked)"].reduceOption
  let rollUp : VerdictDecision × ℚ :=
    -- The worker has refused the candidate already.
    if result.decision ≠ .accepted then (.rejected, 9 / 10)
    else if flags ≠ [] then (.suspicious, max 0 (7 / 10 - 15 / 100 * flags.length))
    else (.promising, 7 / 10)
  { candidateId := result.candidateId
    decision := rollUp.1
    confidence := rollUp.2
    reasons := if reasons = [] then ["no red flags detected"] else reasons
    flags := flags.map Flag.heuristic }

/-! ## The language-model checker -/

/-- A score in `[0, 1]`. -/
structure Score where
  value : ℚ
  nonneg : 0 ≤ value
  le_one : value ≤ 1
  deriving DecidableEq

/-- The opinion of the language model, as `make_verdict` admits it. -/
structure Verdict where
  checkerScore : Score
  confidence : Score
  rawScore : Score
  flags : List (String × String)
  accept : Bool
  deriving DecidableEq

/-- The fitted logistic, clamped to `[0, 1]`. -/
structure CalibrationParams where
  a : ℚ
  b : ℚ
  sigmoid : ℚ → ℚ

def CalibrationParams.apply (p : CalibrationParams) (raw : Score) : Score where
  value := max 0 (min 1 (p.sigmoid (p.a * raw.value + p.b)))
  nonneg := le_max_left _ _
  le_one := max_le zero_le_one (min_le_left _ _)

structure CheckerConfig where
  calibrationParams : Option CalibrationParams
  rejectionThreshold : Score
  minConfidence : Score

def Score.zero : Score where
  value := 0
  nonneg := le_refl 0
  le_one := zero_le_one

def lowConfidenceReject : Verdict where
  checkerScore := .zero
  confidence := .zero
  rawScore := .zero
  flags := [("high", "checker_backend_failure")]
  accept := false

/-- What came of the call to the language model. -/
inductive Reply
  /-- The prompt cannot be built from the metrics: the call raises. -/
  | promptRaises
  /-- The backend raises, or its output is no verdict. -/
  | failed
  | verdict (v : Verdict)
  deriving DecidableEq

inductive RunnerError
  | promptRaises
  | unknownM4Decision (decision : VerdictDecision)
  | finalScoreOutOfRange
  deriving DecidableEq

/-- `CheckerAgent.verify`: the verdict of the backend, calibrated and held against the thresholds. -/
def verify (config : CheckerConfig) : Reply → Except RunnerError Verdict
  | .promptRaises => .error .promptRaises
  | .failed => .ok lowConfidenceReject
  | .verdict v =>
      let calibrated := match config.calibrationParams with
        | none => v.rawScore
        | some params => params.apply v.rawScore
      .ok { v with
        checkerScore := calibrated
        accept := v.accept && decide (calibrated.value ≥ config.rejectionThreshold.value) &&
          decide (v.confidence.value ≥ config.minConfidence.value) }

/-! ## The arbiter -/

structure ArbiterConfig where
  makerWeight : Score
  checkerWeight : Score
  gapThreshold : Score
  weights : |makerWeight.value + checkerWeight.value - 1| ≤ 1 / 100

structure MergeResult where
  finalDecision : VerdictDecision
  finalScore : ℚ
  m4Verdict : VerdictDecision
  triggerReasons : List String
  checkerConfidence : Option Score
  checkerFlags : List (String × String)
  agreement : Option Bool
  deriving DecidableEq

/-- `make_merge_result`, with the check of the score. -/
def merge (finalDecision : VerdictDecision) (finalScore : ℚ) (m4Verdict : VerdictDecision)
    (triggerReasons : List String) (llm : Verdict) (agreement : Bool) : Except RunnerError MergeResult :=
  if -10 ≤ finalScore ∧ finalScore ≤ 10 then
    .ok { finalDecision, finalScore, m4Verdict, triggerReasons
          checkerConfidence := some llm.confidence
          checkerFlags := llm.flags
          agreement := some agreement }
  else .error .finalScoreOutOfRange

def makerScore (maker : Option Score) : ℚ := (maker.map Score.value).getD (1 / 2)

/-- How far the maker and the checker are apart. -/
def gap (maker : Option Score) (llm : Verdict) : ℚ := |makerScore maker - llm.checkerScore.value|

def finalScore (config : ArbiterConfig) (maker : Option Score) (llm : Verdict) : ℚ :=
  config.makerWeight.value * makerScore maker + config.checkerWeight.value * llm.checkerScore.value

def resolve (config : ArbiterConfig) (m4 : CheckerVerdict) (llm : Verdict) (maker : Option Score) :
    Except RunnerError MergeResult :=
  let score := finalScore config maker llm
  let agreement := decide (gap maker llm ≤ config.gapThreshold.value)
  match m4.decision with
  | .rejected => merge .rejected score .rejected ["m4_rejected", "m4_rejected_hard_constraint"] llm agreement
  | .promising =>
      if llm.accept then
        if gap maker llm > config.gapThreshold.value then
          merge .suspiciousToHuman score .promising ["m4_promising", "llm_accept", "maker_checker_gap"] llm false
        else merge .accepted score .promising ["m4_promising", "llm_accept"] llm true
      else merge .rejected score .promising ["m4_promising", "llm_reject_overrides"] llm agreement
  | .suspicious =>
      if llm.accept then
        merge .suspiciousToHuman score .suspicious ["m4_suspicious", "m4_suspicious", "llm_accept"] llm false
      else merge .rejected score .suspicious ["m4_suspicious", "m4_suspicious", "llm_reject"] llm agreement
  | decision => .error (.unknownM4Decision decision)

/-! ## The runner and the adapter -/

structure MakerCheckerRunner where
  checker : CheckerConfig
  arbiter : ArbiterConfig
  enabled : Bool

def MakerCheckerRunner.evaluate (runner : MakerCheckerRunner) (candidate : CandidateResult) (reply : Reply)
    (parent : Option Metrics) : Except RunnerError MergeResult := do
  let m4 := checkCandidate candidate parent
  let llm ← verify runner.checker reply
  resolve runner.arbiter m4 llm none

/-- The merged verdict, or that of the heuristics alone when the runner is disabled. -/
def evaluateCandidate (candidate : CandidateResult) (runner : MakerCheckerRunner) (reply : Reply)
    (parent : Option Metrics) : Except RunnerError CheckerVerdict :=
  if !runner.enabled then .ok (checkCandidate candidate parent)
  else do
    let merged ← runner.evaluate candidate reply parent
    return { candidateId := candidate.candidateId
             decision := merged.finalDecision
             confidence := merged.finalScore
             reasons := merged.triggerReasons
             flags := merged.checkerFlags.map fun f => Flag.finding f.1 f.2 }

end CryptoAggHarmonic.Loop

/-!
# The driver of one generation

The result loop of `main`: every result of the workers is judged, journalled and, when the worker accepted it, offered
to the Pareto front; what the loop does to the state root is its list of effects.
-/

namespace CryptoAggHarmonic.Loop

/-- One result of the workers, with what its processing meets: the answer of the language model and the content of
`tuning.yaml` in the run directory. -/
structure Turn where
  result : CandidateResult
  reply : Reply
  tuningYaml : String
  deriving DecidableEq

/-- A change of the state root, with the number of the result it is made for. -/
inductive Effect
  | appendHistory (turn : ℕ) (result : CandidateResult) (checker : CheckerVerdict)
  | writePendingIssue (turn : ℕ) (verdict : CheckerVerdict)
  /-- `pareto.add` returned true. -/
  | addPoint (turn : ℕ) (point : ParetoPoint)
  | writeSnapshot (turn : ℕ) (name payload : String)
  | moveRun (turn : ℕ) (runDir dest : String)
  deriving DecidableEq

structure ResultLoop where
  turn : ℕ
  pareto : ParetoSet
  /-- `best_so_far`: a result and its number. -/
  bestSoFar : Option (ℕ × CandidateResult)
  acceptedCount : ℕ
  rejectedCount : ℕ
  errorCount : ℕ
  effects : List Effect
  raised : Option RunnerError
  deriving DecidableEq

structure Generation where
  gen : ℤ
  cluster : String
  /-- The runner of `--use-maker-checker`. -/
  runner : Option MakerCheckerRunner

def ResultLoop.start (pareto : ParetoSet) : ResultLoop where
  turn := 0
  pareto := pareto
  bestSoFar := none
  acceptedCount := 0
  rejectedCount := 0
  errorCount := 0
  effects := []
  raised := none

def ResultLoop.emit (s : ResultLoop) (effects : List Effect) : ResultLoop := { s with effects := s.effects ++ effects }

namespace Generation

def judge (g : Generation) (t : Turn) : Except RunnerError CheckerVerdict :=
  match g.runner with
  | some runner => evaluateCandidate t.result runner t.reply none
  | none => .ok (checkCandidate t.result none)

def pointOf (g : Generation) (r : CandidateResult) : ParetoPoint :=
  fromMetrics r.metrics r.paramsSha g.gen g.cluster r.runDir r.fitnessOrZero

/-- A fitness replaces the best only by being greater. -/
def fitter (a b : ℕ × CandidateResult) : Bool := a.2.fitnessOrZero.gt b.2.fitnessOrZero

def settleAccepted (g : Generation) (s : ResultLoop) (t : Turn) : ResultLoop :=
  let point := g.pointOf t.result
  let added := s.pareto.add point
  { s with
    acceptedCount := s.acceptedCount + 1
    pareto := added.2
    effects := s.effects ++
      if added.1 then
        [.addPoint s.turn point, .writeSnapshot s.turn ("pareto-" ++ point.paramsSha ++ ".yaml") t.tuningYaml]
      else []
    bestSoFar := KeepBest.keep fitter s.bestSoFar (s.turn, t.result) }

/-- What happens by the decision of the worker. -/
def settle (g : Generation) (s : ResultLoop) (t : Turn) : ResultLoop :=
  match t.result.decision with
  | .accepted => g.settleAccepted s t
  | .rejected =>
      let reason := (t.result.rejectionReason.getD "unknown").replace " " "_"
      { s.emit [.moveRun s.turn t.result.runDir ("REJECTED/" ++ reason)] with rejectedCount := s.rejectedCount + 1 }
  | .error => { s.emit [.moveRun s.turn t.result.runDir "REJECTED/errors"] with errorCount := s.errorCount + 1 }
  | .duplicate => s

/-- The record of the verdict, with a pending issue when a human is to look at it. -/
def journal (s : ResultLoop) (t : Turn) (verdict : CheckerVerdict) : ResultLoop :=
  let journalled := s.emit [.appendHistory s.turn t.result verdict]
  if verdict.decision = .suspiciousToHuman then journalled.emit [.writePendingIssue s.turn verdict] else journalled

/-- One turn of the result loop. -/
def processResult (g : Generation) (s : ResultLoop) (t : Turn) : ForInStep ResultLoop :=
  match g.judge t with
  | .error e => .done { s with raised := some e }
  | .ok verdict => .yield { g.settle (journal s t verdict) t with turn := s.turn + 1 }

def process (g : Generation) (pareto : ParetoSet) (turns : List Turn) : ResultLoop :=
  Loops.run g.processResult (.start pareto) turns

end Generation

/-- `STATE.md` is rendered when the loop ends without an exception. -/
def ResultLoop.reportedBest (s : ResultLoop) : Option (ℕ × CandidateResult) :=
  if s.raised.isNone then s.bestSoFar else none

end CryptoAggHarmonic.Loop
