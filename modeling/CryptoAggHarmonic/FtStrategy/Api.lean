import CryptoAggHarmonic.FtStrategy.Site

/-!
# Orient

`orient_strategy` and `orient_global`: where a strategy stands and what to do next. Neither is given a user.
-/

namespace CryptoAggHarmonic.FtStrategy

def stagnationRounds : ℕ := 3

structure NextAction where
  strategyId : String
  action : String
  reason : String
  deadline : Option String
  deriving DecidableEq

structure HardBlocker where
  label : String
  detail : String
  deriving DecidableEq

structure OrientSummary where
  strategyId : String
  name : String
  currentStage : String
  currentVersion : ℕ
  status : String
  stagnationCount : ℕ
  lastRunId : Option String
  nextAction : Option NextAction
  hardBlockers : List HardBlocker
  recentEvents : List (List (List Char × List Char))
  deriving DecidableEq

structure StagnationHit where
  strategyId : String
  stagnationCount : ℕ
  threshold : ℕ
  deriving DecidableEq

structure GlobalSummary where
  totalStrategies : ℕ
  stagnationHits : List StagnationHit
  hardBlockers : List HardBlocker
  nextActions : List NextAction
  loopId : String
  loopName : String
  stagnationThreshold : ℕ
  deriving DecidableEq

/-- `_stage_from_status` -/
def stageFromStatus : String → String
  | "draft" => "idea"
  | "code_generated" => "code"
  | "hyperopt_running" => "hyperopt"
  | "backtest_running" => "backtest"
  | "analyzed" => "analyze"
  | "refining" => "refine"
  | "pending_review" => "deploy_pending"
  | "deployed" => "deployed"
  | "rejected" => "rejected"
  | _ => "unknown"

/-! ## One strategy -/

def hardBlockersOf (status : String) (openCrashes : ℕ) (hasFinalReport : Bool) : List HardBlocker :=
  (if status = "rejected" then
    [⟨"strategy_rejected", "Strategy was rejected — likely a crash verdict; create a new strategy instead."⟩] else []) ++
  (if openCrashes > 0 then
    [⟨"open_crash_unresolved",
      toString openCrashes ++ " crash verdict(s) without decided_by. Resolve before deploying."⟩] else []) ++
  (if !hasFinalReport then
    [⟨"no_final_report", "Draft a report and publish as final before deploy."⟩] else [])

def iterating (status : String) : Prop := status = "analyzed" ∨ status = "refining"

instance (status : String) : Decidable (iterating status) := inferInstanceAs (Decidable (_ ∨ _))

/-- The first case that applies: the life of the strategy, stagnation, crashes, and only then its next version. -/
def nextActionOf (strategyId : String) (s : Strategy) (stagnationCount : ℕ) (blockers : List HardBlocker) :
    Option NextAction :=
  let act (action reason : String) : Option NextAction := some ⟨strategyId, action, reason, none⟩
  let stage := stageFromStatus s.status
  if s.status = "rejected" then act "fork" "Strategy was rejected; clone into a new strategy to start fresh."
  else if s.status = "pending_review" then
    act "wait_human_merge" "Deploy PR is awaiting human merge + SIGHUP. Cannot promote without it."
  else if s.status = "deployed" then
    act "monitor_shadow" "Strategy is live; monitor 7-day shadow period before next variant."
  else if stage = "hyperopt" ∨ stage = "backtest" then
    act "wait_backtest" "Background worker is running hyperopt/backtest. Polling /jobs for progress."
  else if iterating s.status ∧ stagnationCount ≥ stagnationRounds then
    act "fork" ("Stagnation reached " ++ toString stagnationCount ++ " >= " ++ toString stagnationRounds ++
      "; fork or kill (D-FT-22 §1.5).")
  else if s.status = "draft" ∨ s.status = "code_generated" then none
  else if blockers.any (fun b => b.label = "open_crash_unresolved") then
    act "resolve_crash" ("Open crash verdict without decided_by. Either revert the version " ++
      "or close the crash with decided_by before further iteration.")
  else if iterating s.status then
    act "refine" ("Strategy is analyzable; current version " ++ toString s.currentVersion ++ "; iterate.")
  else if blockers.any (fun b => b.label = "no_final_report") then
    act "draft_report" "Draft a report (analyze the backtest) and publish as final to enable deploy."
  else none

namespace Site

variable {J : Type}

/-- `ORDER BY created_at DESC LIMIT 1` -/
def lastRunId (s : Site J) (strategyId : String) : Option String :=
  ((newestFirst Run.createdAt (s.runs.filter fun r => r.strategyId = strategyId)).head?).map Run.id

/-- The last ten. -/
def recentEvents (s : Site J) (strategyId : String) : List (List (List Char × List Char)) :=
  let events := readTsvEvents (s.files strategyId)
  events.drop (events.length - 10)

/-- Nothing for an id that is not found. -/
def orientStrategy (s : Site J) (strategyId : String) : Option OrientSummary :=
  match s.db.strategy? strategyId with
  | none => none
  | some row =>
      let blockers := hardBlockersOf row.status (s.db.listOpenCrashes strategyId) (s.db.hasFinalReport strategyId)
      let stagnation := s.db.recentStableCount strategyId
      some {
        strategyId := strategyId
        name := row.name
        currentStage := stageFromStatus row.status
        currentVersion := row.currentVersion
        status := row.status
        stagnationCount := stagnation
        lastRunId := s.lastRunId strategyId
        nextAction := nextActionOf strategyId row stagnation blockers
        hardBlockers := blockers
        recentEvents := s.recentEvents strategyId }

/-! ## Several strategies -/

def stagnationHit (summary : OrientSummary) : Option StagnationHit :=
  if summary.stagnationCount ≥ stagnationRounds then
    some ⟨summary.strategyId, summary.stagnationCount, stagnationRounds⟩
  else none

/-- An id that is not found is passed over. -/
def orientGlobal (s : Site J) (strategyIds : List String) : GlobalSummary :=
  let found := strategyIds.filterMap s.orientStrategy
  { totalStrategies := strategyIds.length
    stagnationHits := found.filterMap stagnationHit
    hardBlockers := found.flatMap OrientSummary.hardBlockers
    nextActions := found.filterMap OrientSummary.nextAction
    loopId := "13"
    loopName := "FT Strategy UI Loop"
    stagnationThreshold := stagnationRounds }

end Site

end CryptoAggHarmonic.FtStrategy

/-!
# The strategy endpoints

Every route under `/ft-strategy` and `/ft-strategies` behind `require_auth`, and the capabilities. What `parse_request`
makes of a body is part of the request.
-/

namespace CryptoAggHarmonic.FtStrategy

structure Capabilities where
  constants : List (String × ℚ)
  hardLimits : List (String × ℚ)
  endpoints : List String
  queueNames : List String
  deriving DecidableEq

/-- `module_constants` -/
def moduleConstants : List (String × ℚ) :=
  [("MCP_TIMEOUT_SECONDS", 1800), ("MAX_BACKTEST_PER_GEN", 5), ("STAGNATION_ROUNDS", stagnationRounds),
    ("RESEARCH_MD_MIN_LENGTH", researchMdMinLength), ("REASONING_MIN_LENGTH", reasoningMinLength),
    ("CRASH_CLOSURE_WINDOW_DAYS", crashClosureWindowDays), ("DEFAULT_PROFIT_FLOOR", 5 / 100),
    ("DEFAULT_MIN_POSITION_SIZE", 30), ("DEFAULT_ROBUST_SHARPE_MIN", 0), ("DEFAULT_ROBUST_CALMAR_MIN", 1),
    ("DEFAULT_DRAWDOWN_BASELINE", 156 / 1000), ("DRAWDOWN_MULTIPLIER", drawdownMultiplier)]

def capabilitiesDict : Capabilities where
  constants := moduleConstants
  hardLimits := moduleConstants.filter fun c => c.1 ∈ ["MCP_TIMEOUT_SECONDS", "MAX_BACKTEST_PER_GEN",
    "STAGNATION_ROUNDS", "RESEARCH_MD_MIN_LENGTH", "CRASH_CLOSURE_WINDOW_DAYS"]
  endpoints := [
    "GET  /api/ft-strategy/capabilities",
    "GET  /api/ft-strategy/orient",
    "GET  /api/ft-strategy/:id/orient",
    "GET  /api/ft-strategies",
    "POST /api/ft-strategies",
    "GET  /api/ft-strategies/:id",
    "DELETE /api/ft-strategies/:id",
    "GET  /api/ft-strategies/:id/jobs",
    "POST /api/ft-strategies/:id/refine",
    "GET  /api/ft-strategies/:id/backtest-report",
    "POST /api/ft-strategies/:id/deploy",
    "GET  /api/ft-strategies/:id/history",
    "POST /api/ft-strategies/:id/preflight"]
  queueNames := ["ft_strategy_create", "ft_hyperopt", "ft_backtest", "ft_analyze"]

/-! ## Requests and responses -/

structure CreateStrategyRequest (J : Type) where
  name : String
  researchMd : String
  ideaPayload : JsonObject J
  marketType : String
  pair : String
  interval : String
  ideaSource : String
  description : Option String

inductive IntendedEvent
  | evolve
  | fork
  | kill
  deriving DecidableEq

def IntendedEvent.text : IntendedEvent → String
  | .evolve => "evolve"
  | .fork => "fork"
  | .kill => "kill"

inductive Endpoint
  | get
  | delete
  | jobs
  /-- the body, or the error it is refused with -/
  | refine (body : Except String (Option IntendedEvent))
  | backtestReport
  | deploy
  | history
  | preflight

inductive Request (J : Type)
  | capabilities
  | orientRoot (ids : String)
  | orientOne (strategyId : String)
  | list
  /-- the body, or the error it is refused with -/
  | create (body : Except String (CreateStrategyRequest J))
  | one (strategyId : String) (endpoint : Endpoint)

structure BacktestReport (J : Type) where
  strategyId : String
  version : ℕ
  /-- sharpe, max_dd, calmar, win_rate, profit_pct, trades and robust_sharpe_min -/
  aggregate : List (String × Option J)
  /-- Nothing: the body has an empty object, here and in the next. -/
  perPair : Option J
  perTimerange : Option J
  baselineComparison : Option (JsonObject J)

inductive Response (J : Type)
  /-- An exception that nothing catches. -/
  | raised (error : RepoError)
  | unauthorized
  | notFound (strategyId : String)
  | invalidBody (error : String)
  | invalidResearch (validation : ResearchMdValidation)
  | stagnationDiscipline (stagnationCount threshold : ℕ)
  | capabilities (c : Capabilities)
  | orientGlobal (summary : GlobalSummary)
  /-- Nothing: the body has the error `not_found`. -/
  | orient (strategyId : String) (summary : Option OrientSummary)
  | strategies (items : List (StrategyDict J))
  | strategy (item : StrategyDict J)
  | created (item : StrategyDict J)
  | deleted (strategyId : String)
  | jobs (strategyId : String) (rows : List Job)
  | backtestReport (report : BacktestReport J)
  | deploy (strategyId : String) (response : DeployResponse)
  | history (strategyId : String) (events : List (List (List Char × List Char))) (runs : List Run)
  | preflight (strategyId : String)

namespace Site

variable {J : Type}

/-! ## The handlers -/

/-- `[s for s in raw_ids.split(",") if s.strip()]` -/
def splitIds (rawIds : String) : List String :=
  ((rawIds.toList.splitOn ',').filter fun s => pyStrip s ≠ []).map String.ofList

def listStrategies (s : Site J) (user : String) : Response J :=
  .strategies (newestFirst (fun d => d.columns.createdAt)
    ((s.db.strategies.filter fun t => t.userId = some user).map s.dict))

def createStrategyRoute (env : Env) (s : Site J) (user : Option String)
    (body : Except String (CreateStrategyRequest J)) : Response J × Site J :=
  match body with
  | .error e => (.invalidBody e, s)
  | .ok req =>
      let val := validateResearchMd req.researchMd
      if !val.ok then (.invalidResearch val, s)
      else
        match user with
        | none => (.unauthorized, s)
        | some user =>
            let columns := {
              description := req.description
              marketType := req.marketType
              pair := req.pair
              interval := req.interval
              ideaSource := req.ideaSource
              ideaPayload := req.ideaPayload
              strategyFilePath := none
              latestResult := none
              baselineComparison := none
              deploymentPrUrl := none
              researchMd := some req.researchMd
              createdAt := env.now
              updatedAt := env.now }
            match s.createStrategy env user req.name columns with
            | .error e => (.raised e, s)
            | .ok (d, s) =>
                (.created d, (s.enqueueStrategyCreate env d.row.id d.row.currentVersion).recordEvent env d.row.id
                  "create" d.row.name)

def getOne (s : Site J) (row : Strategy) : Response J := .strategy (s.dict row)

def jobsOne (s : Site J) (strategyId : String) : Response J :=
  .jobs strategyId (newestFirst Job.createdAt (s.jobs.filter fun j => j.strategyId = strategyId))

/-- The checks of `refine` once the body is read. -/
def refineOne (env : Env) (s : Site J) (strategyId : String) (intendedEvent : Option IntendedEvent) :
    Response J × Site J :=
  let stagnation := s.db.recentStableCount strategyId
  if stagnation ≥ stagnationRounds ∧ intendedEvent = none then
    (.stagnationDiscipline stagnation stagnationRounds, s)
  else
    match s.refine env strategyId with
    | .error e => (.raised e, s)
    | .ok s =>
        match s.db.getStrategy strategyId with
        | .error e => (.raised e, s)
        | .ok row =>
            (.strategy (s.dict row), s.recordEvent env strategyId
              ((intendedEvent.map IntendedEvent.text).getD "evolve") row.name)

/-- `latest.get(key)` -/
def latestGet (d : StrategyDict J) (key : String) : Option J := (d.columns.latestResult.getD []).lookup key

def backtestReport (s : Site J) (row : Strategy) (strategyId : String) : Response J :=
  let d := s.dict row
  .backtestReport {
    strategyId := strategyId
    version := row.currentVersion
    aggregate := ["sharpe", "max_dd", "calmar", "win_rate", "profit_pct", "trades", "robust_sharpe_min"].map
      fun key => (key, latestGet d key)
    perPair := latestGet d "per_pair"
    perTimerange := latestGet d "per_timerange"
    baselineComparison := d.columns.baselineComparison }

def deployStrategy (env : Env) (s : Site J) (user : Option String) (strategyId : String) : Response J × Site J :=
  match deployOne s.db user strategyId with
  | (.pendingReview, db) => (.deploy strategyId .pendingReview, s.touched db strategyId env.now)
  | (response, _) => (.deploy strategyId response, s)

def historyOne (s : Site J) (strategyId : String) : Response J :=
  .history strategyId (readTsvEvents (s.files strategyId))
    (oldestFirst Run.createdAt (s.runs.filter fun r => r.strategyId = strategyId))

/-- An endpoint of a strategy that is the user's. -/
def handleOwned (env : Env) (s : Site J) (user : Option String) (row : Strategy) (strategyId : String) :
    Endpoint → Response J × Site J
  | .get => (s.getOne row, s)
  | .delete => (.deleted strategyId, s.deleteStrategy strategyId)
  | .jobs => (s.jobsOne strategyId, s)
  | .refine (.error e) => (.invalidBody e, s)
  | .refine (.ok intendedEvent) => refineOne env s strategyId intendedEvent
  | .backtestReport => (s.backtestReport row strategyId, s)
  | .deploy => deployStrategy env s user strategyId
  | .history => (s.historyOne strategyId, s)
  | .preflight => (.preflight strategyId, s)

/-- A body is read before the strategy is looked for; everything else comes after `_load_owned_strategy`. -/
def handleOne (env : Env) (s : Site J) (user : Option String) (strategyId : String) (endpoint : Endpoint) :
    Response J × Site J :=
  match endpoint, loadOwnedStrategy s.db user strategyId with
  | .refine (.error e), _ => (.invalidBody e, s)
  | _, .error .unauthorized => (.unauthorized, s)
  | _, .error _ => (.notFound strategyId, s)
  | endpoint, .ok row => handleOwned env s user row strategyId endpoint

def handle (env : Env) (s : Site J) (user : Option String) : Request J → Response J × Site J
  | .capabilities => (.capabilities capabilitiesDict, s)
  | .orientRoot ids => (.orientGlobal (s.orientGlobal (splitIds ids)), s)
  | .orientOne strategyId => (.orient strategyId (s.orientStrategy strategyId), s)
  | .list =>
      match user with
      | none => (.unauthorized, s)
      | some user => (s.listStrategies user, s)
  | .create body => createStrategyRoute env s user body
  | .one strategyId endpoint => handleOne env s user strategyId endpoint

end Site

end CryptoAggHarmonic.FtStrategy
