import CryptoAggHarmonic.Analyze.Records
import CryptoAggHarmonic.Quota.Ledger

/-!
# The analyze endpoint

`POST /api/analyze` after its body is parsed: replay, record, quota, analysis, settlement, answer. What everything
outside does, and which process serves the request, is an argument.
-/

namespace CryptoAggHarmonic.Analyze

open Sql Quota

structure AnalysisResult where
  technicalResult : String
  resolvedType : Option AnalysisType
  resultSummary : Option String
  deriving DecidableEq

inductive AnalysisOutcome
  | returns (result : AnalysisResult)
  | appError (message : String)
  | exception
  /-- The process ends: no handler runs and nobody gets an answer. -/
  | exits

inductive StepOutcome
  | ok
  | raises
  | exits
  deriving DecidableEq

structure Env (ι : Type*) where
  process : ι
  now : ℤ
  localDevMode : Bool
  lookupReaches : Bool
  analysisId : Uuid
  createReaches : Bool
  attempts : List Attempt
  deleteReaches : Bool
  analysis : AnalysisOutcome
  /-- `consume_quota` takes place. -/
  consumeReaches : Bool
  /-- Everything between the consumption and the update. -/
  summary : StepOutcome
  completionReaches : Bool
  /-- The audit entry and the answer. -/
  respond : StepOutcome
  /-- `release_quota` takes place. -/
  releaseReaches : Bool
  failureReaches : Bool

inductive Response
  | replayed (row : AnalysisRow)
  | quotaExceeded (remaining : ℤ)
  | completed (result : AnalysisResult)
  | appError (message : String)
  | internalError
  | aborted
  deriving DecidableEq

structure State (ι : Type*) where
  analyses : Analyses
  caches : ι → Cache
  books : Books

section

variable {ι : Type*}

namespace State

def consume (s : State ι) (reaches : Bool) (ledgerId : Option Uuid) : State ι :=
  match ledgerId with
  | some id => if reaches then { s with books := s.books.consume id none none none } else s
  | none => s

def release (s : State ι) (reaches : Bool) (ledgerId : Option Uuid) : State ι :=
  match ledgerId with
  | some id => if reaches then { s with books := s.books.release id } else s
  | none => s

def updateRecord (s : State ι) (reaches : Bool) (recordId : Option Uuid) (entries : List Entry) : State ι :=
  match recordId with
  | some id => { s with analyses := (s.analyses.updateRecord reaches id entries).2 }
  | none => s

/-- The `except` clauses. -/
def fail (s : State ι) (env : Env ι) (recordId ledgerId : Option Uuid) (message : String) : State ι :=
  (s.release env.releaseReaches ledgerId).updateRecord env.failureReaches recordId
    [.status .failedUpstream, .errorMessage message]

/-- From the run of the analysis on. -/
def runAnalysis (s : State ι) (env : Env ι) (recordId ledgerId : Option Uuid) : Response × State ι :=
  match env.analysis with
  | .exits => (.aborted, s)
  | .appError message => (.appError message, s.fail env recordId ledgerId message)
  | .exception => (.internalError, s.fail env recordId ledgerId "Internal error")
  | .returns result =>
      let consumed := s.consume env.consumeReaches ledgerId
      match env.summary with
      | .exits => (.aborted, consumed)
      | .raises => (.internalError, consumed.fail env recordId ledgerId "Internal error")
      | .ok =>
          let updated := consumed.updateRecord env.completionReaches recordId
            [.status .completed, .analysisType result.resolvedType, .resultSummary result.resultSummary]
          match env.respond with
          | .exits => (.aborted, updated)
          | .raises => (.internalError, updated.fail env recordId ledgerId "Internal error")
          | .ok => (.completed result, updated)

def reserveArgs (userId : Uuid) (recordId : Option Uuid) : ReserveArgs := ⟨userId, recordId, 1, Pool.default.text⟩

/-- From the record on. -/
def analyzeFresh (latest : List LedgerRow → Option LedgerRow) (s : State ι) (env : Env ι) (userId : Uuid)
    (req : AnalyzeRequest) : Response × State ι :=
  let (recordId, analyses) := s.analyses.createRecord env.createReaches userId env.analysisId req
  let s := { s with analyses := analyses }
  if env.localDevMode then s.runAnalysis env recordId none
  else
    let (db, request) := reserveAll latest s.books.db (reserveArgs userId recordId) env.attempts
    let s := { s with books := { s.books with db := db } }
    match request.phase with
    | .returned true _ ledgerId => s.runAnalysis env recordId ledgerId
    | .returned false remaining _ =>
        (.quotaExceeded remaining, match recordId with
          | some id => { s with analyses := s.analyses.deleteRecord env.deleteReaches id }
          | none => s)
    | _ => (.internalError, s)

end State

/-- `prior.get("status") == "completed" and prior.get("technical_result")`: an empty object does not count. -/
def replayable (prior : AnalysisRow) : Bool :=
  prior.status = .completed && prior.technicalResult.any fun json => json ≠ "\x7b\x7d"

variable [DecidableEq ι]

/-- The route. -/
def analyze (config : CacheConfig) (latest : List LedgerRow → Option LedgerRow) (s : State ι) (env : Env ι)
    (userId : Uuid) (req : AnalyzeRequest) : Response × State ι :=
  match req.key? with
  | none => s.analyzeFresh latest env userId req
  | some key =>
      let (prior, cache) :=
        getAnalysisByIdemKey config (s.caches env.process) s.analyses env.lookupReaches env.now userId key
      let s := { s with caches := Function.update s.caches env.process cache }
      match prior.filter fun r => replayable r with
      | some row => (.replayed row, s)
      | none => s.analyzeFresh latest env userId req

end

end CryptoAggHarmonic.Analyze
