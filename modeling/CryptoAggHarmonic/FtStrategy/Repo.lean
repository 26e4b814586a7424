import CryptoAggHarmonic.FtStrategy.Promotion

/-!
# The strategy repository

The rows of the strategy tables, and every call of the repository as one function on the database. A call that raises
leaves the database as it was. Clock readings and new ids are arguments.
-/

namespace CryptoAggHarmonic.FtStrategy

inductive RepoError
  | strategyNotFound (strategyId : String)
  | reasoningEmpty (message : String)
  | reportFinalLocked (message : String)
  | reportInvalidFinal (message : String)
  | ftStrategyError (message : String)
  /-- `sqlite3.IntegrityError`: a primary or foreign key. -/
  | integrityError
  deriving DecidableEq

inductive Event
  | create
  | evolve
  | stable
  | fork
  | kill
  | shadowStart
  | shadowEnd
  deriving DecidableEq, Repr

def Event.ofText : String → Option Event
  | "create" => some .create
  | "evolve" => some .evolve
  | "stable" => some .stable
  | "fork" => some .fork
  | "kill" => some .kill
  | "shadow_start" => some .shadowStart
  | "shadow_end" => some .shadowEnd
  | _ => none

structure LatestResult where
  sharpe : Option PyFloat
  maxDd : Option PyFloat
  calmar : Option PyFloat
  winRate : Option PyFloat
  profitPct : Option PyFloat
  trades : Option ℤ
  perTimerange : List PerTimerangeResult
  deriving DecidableEq

/-! ## The tables -/

structure Strategy where
  id : String
  userId : Option String
  name : String
  status : String
  currentVersion : ℕ
  latestResult : Option LatestResult
  lastEvent : Option Event
  stagnationCount : ℕ
  deriving DecidableEq

structure EventRow where
  id : ℕ
  strategyId : String
  version : Option ℤ
  event : Event
  sharpe : Option PyFloat
  maxDd : Option PyFloat
  note : Option String
  deriving DecidableEq

inductive Verdict
  | keep
  | revert
  | crash
  deriving DecidableEq, Repr

def Verdict.ofText : String → Option Verdict
  | "keep" => some .keep
  | "revert" => some .revert
  | "crash" => some .crash
  | _ => none

structure Experiment where
  id : String
  strategyId : String
  versionFrom : ℤ
  versionTo : ℤ
  verdict : Verdict
  reasoning : String
  decidedBy : Option String
  deriving DecidableEq

inductive AuthoringState
  | draft
  | final
  deriving DecidableEq, Repr

structure Report where
  id : String
  strategyId : String
  version : ℤ
  authoringState : AuthoringState
  reservedFinding : Option String
  publishedAt : Option String
  deriving DecidableEq

structure Db where
  strategies : List Strategy
  /-- In the order of their ids. -/
  events : List EventRow
  nextEventId : ℕ
  experiments : List Experiment
  reports : List Report
  deriving DecidableEq

def Db.empty : Db where
  strategies := []
  events := []
  nextEventId := 1
  experiments := []
  reports := []

namespace Db

def strategy? (db : Db) (strategyId : String) : Option Strategy := db.strategies.find? fun s => s.id = strategyId

/-- `UPDATE ft_strategies SET … WHERE id = ?` -/
def updateStrategy (db : Db) (strategyId : String) (set : Strategy → Strategy) : Db :=
  { db with strategies := db.strategies.map fun s => if s.id = strategyId then set s else s }

/-- A foreign key into `ft_strategies` holds. -/
def hasStrategy (db : Db) (strategyId : String) : Bool := db.strategies.any fun s => s.id = strategyId

/-! ## Strategies -/

def createStrategy (db : Db) (newId : String) (userId : Option String) (name : String) :
    Except RepoError (Strategy × Db) :=
  if db.hasStrategy newId then .error .integrityError
  else
    let s := {
      id := newId
      userId := userId
      name := name
      status := "draft"
      currentVersion := 1
      latestResult := none
      lastEvent := some .create
      stagnationCount := 0 }
    .ok (s, { db with strategies := db.strategies ++ [s] })

def getStrategy (db : Db) (strategyId : String) : Except RepoError Strategy :=
  match db.strategy? strategyId with
  | some s => .ok s
  | none => .error (.strategyNotFound strategyId)

def updateStatus (db : Db) (strategyId status : String) : Db :=
  db.updateStrategy strategyId fun s => { s with status := status }

def updateLatestResult (db : Db) (strategyId : String) (latestResult : LatestResult) : Db :=
  db.updateStrategy strategyId fun s => { s with latestResult := some latestResult }

def refine (db : Db) (strategyId : String) : Except RepoError Db :=
  if db.hasStrategy strategyId then
    .ok (db.updateStrategy strategyId fun s => { s with currentVersion := s.currentVersion + 1, status := "refining" })
  else .error (.strategyNotFound strategyId)

/-! ## Experiments -/

def checkReasoning (reasoning : String) : Except RepoError Unit :=
  if (pyStrip reasoning.toList).length < reasoningMinLength then
    .error (.reasoningEmpty "reasoning must be a non-empty string >= 10 chars (D-FT-19)")
  else .ok ()

def recordExperiment (db : Db) (newId strategyId : String) (versionFrom : ℤ) (verdict reasoning : String)
    (decidedBy : Option String) : Except RepoError Db := do
  checkReasoning reasoning
  match Verdict.ofText verdict with
  | none => .error (.ftStrategyError "verdict must be one of keep/revert/crash; got ")
  | some v =>
      if !db.hasStrategy strategyId || db.experiments.any (fun e => e.id = newId) then .error .integrityError
      else
        .ok { db with experiments := db.experiments ++ [{
          id := newId
          strategyId := strategyId
          versionFrom := versionFrom
          versionTo := versionFrom + 1
          verdict := v
          reasoning := reasoning
          decidedBy := decidedBy }] }

/-- The window is not read: every crash nobody has decided counts. -/
def listOpenCrashes (db : Db) (strategyId : String) : ℕ :=
  (db.experiments.filter fun e => e.strategyId = strategyId && e.verdict = .crash && e.decidedBy.isNone).length

/-! ## Reports -/

def createReport (db : Db) (newId strategyId : String) (version : ℤ) (reservedFinding : Option String) :
    Except RepoError Db :=
  if !db.hasStrategy strategyId || db.reports.any (fun r => r.id = newId) then .error .integrityError
  else
    .ok { db with reports := db.reports ++ [{
      id := newId
      strategyId := strategyId
      version := version
      authoringState := .draft
      reservedFinding := reservedFinding
      publishedAt := none }] }

def report? (db : Db) (reportId : String) : Option Report := db.reports.find? fun r => r.id = reportId

def checkReservedFinding (text : String) : Except RepoError Unit :=
  if text = "" || "TODO:".toList.isPrefixOf text.toList then
    .error (.reportInvalidFinal "reserved_finding must be set and not start with 'TODO:' to publish as final")
  else .ok ()

/-- The errors of `validate_report_final` for a final report that is about to be published. -/
def validateReportFinal (reservedFinding : String) : List String :=
  if pyStrip reservedFinding.toList = [] then ["reserved_finding must be a non-empty string"]
  else if "TODO:".toList.isPrefixOf reservedFinding.toList then ["reserved_finding must not start with 'TODO:'"]
  else []

/-- `publish_report` up to its `UPDATE`: the `SELECT` and the checks. -/
def publishCheck (db : Db) (reportId reservedFinding : String) : Except RepoError Unit :=
  match db.report? reportId with
  | none => .error (.ftStrategyError "report not found: ")
  | some report =>
      if report.authoringState = .final then
        .error (.reportFinalLocked "report is already final; create a new draft for revisions")
      else do
        checkReservedFinding reservedFinding
        match validateReportFinal reservedFinding with
        | [] => .ok ()
        | errors => .error (.reportInvalidFinal ("; ".intercalate errors))

/-- `UPDATE ft_strategy_reports SET authoring_state = 'final', … WHERE id = ?`: the state is not asked again. -/
def publishUpdate (db : Db) (reportId reservedFinding now : String) : Db :=
  { db with reports := db.reports.map fun r =>
      if r.id = reportId then
        { r with authoringState := .final, reservedFinding := some reservedFinding, publishedAt := some now }
      else r }

def publishReport (db : Db) (reportId reservedFinding now : String) : Except RepoError Db := do
  db.publishCheck reportId reservedFinding
  return db.publishUpdate reportId reservedFinding now

def hasFinalReport (db : Db) (strategyId : String) : Bool :=
  db.reports.any fun r => r.strategyId = strategyId && r.authoringState = .final

/-! ## Events -/

def insertEvent (db : Db) (strategyId : String) (version : Option ℤ) (event : Event) (sharpe maxDd : Option PyFloat)
    (note : Option String) : Except RepoError (ℕ × Db) :=
  if db.hasStrategy strategyId then
    .ok (db.nextEventId, { db with
      events := db.events ++ [{ id := db.nextEventId, strategyId, version, event, sharpe, maxDd, note }]
      nextEventId := db.nextEventId + 1 })
  else .error .integrityError

/-- What an event does to the counter: the others leave it alone. -/
def stagnationAfter (event : Event) (count : ℕ) : ℕ :=
  match event with
  | .stable => count + 1
  | .evolve | .fork | .kill => 0
  | _ => count

def mirrorEvent (db : Db) (strategyId : String) (event : Event) : Db :=
  db.updateStrategy strategyId fun s =>
    { s with lastEvent := some event, stagnationCount := stagnationAfter event s.stagnationCount }

def recordEvent (db : Db) (strategyId event : String) (version : Option ℤ) (sharpe maxDd : Option PyFloat)
    (note : Option String) : Except RepoError (ℕ × Db) :=
  match Event.ofText event with
  | none => .error (.ftStrategyError "unknown event: ")
  | some e => do
      let (id, inserted) ← db.insertEvent strategyId version e sharpe maxDd note
      return (id, inserted.mirrorEvent strategyId e)

/-- The events of a strategy, the oldest first. -/
def eventsOf (db : Db) (strategyId : String) : List Event :=
  (db.events.filter fun e => e.strategyId = strategyId).map EventRow.event

def recentStableCount (db : Db) (strategyId : String) : ℕ :=
  ((db.eventsOf strategyId).reverse.takeWhile fun e => e = .stable).length

def hasShadowObservation (db : Db) (strategyId : String) : Bool :=
  db.events.any fun e => e.strategyId = strategyId && e.event = .shadowEnd

def resetStagnation (db : Db) (strategyId : String) : Db :=
  db.updateStrategy strategyId fun s => { s with stagnationCount := 0 }

end Db

/-! ## The deploy endpoint -/

inductive DeployResponse
  | unauthorized
  | notFound
  | gateFailed (result : PromotionResult)
  | pendingReview
  deriving DecidableEq

def candidateOf (db : Db) (s : Strategy) : PromotionCandidate where
  strategyId := s.id
  version := s.currentVersion
  sharpe := (s.latestResult.bind LatestResult.sharpe).getD (.finite 0)
  maxDd := (s.latestResult.bind LatestResult.maxDd).getD (.finite 0)
  calmar := (s.latestResult.bind LatestResult.calmar).getD (.finite 0)
  winRate := (s.latestResult.bind LatestResult.winRate).getD (.finite 0)
  profitPct := (s.latestResult.bind LatestResult.profitPct).getD (.finite 0)
  trades := (s.latestResult.bind LatestResult.trades).getD 0
  perTimerange := (s.latestResult.map LatestResult.perTimerange).getD []
  hasFinalReport := db.hasFinalReport s.id
  openCrashInWindowDays := db.listOpenCrashes s.id
  shadowObserved := db.hasShadowObservation s.id

def loadOwnedStrategy (db : Db) (user : Option String) (strategyId : String) : Except DeployResponse Strategy :=
  match user with
  | none => .error .unauthorized
  | some user =>
      match db.strategy? strategyId with
      | none => .error .notFound
      | some s => if s.userId = some user then .ok s else .error .notFound

def deployOne (db : Db) (user : Option String) (strategyId : String) : DeployResponse × Db :=
  match loadOwnedStrategy db user strategyId with
  | .error response => (response, db)
  | .ok s =>
      let result := checkPromotionV3 (candidateOf db s) .default
      if !result.ok then (.gateFailed result, db) else (.pendingReview, db.updateStatus strategyId "pending_review")

end CryptoAggHarmonic.FtStrategy
