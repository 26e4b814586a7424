import CryptoAggHarmonic.Lib.Table
import CryptoAggHarmonic.Sql.Basic
import Mathlib.Data.List.Sort

/-!
# Analysis records

The table `analyses`, the writes to it, and the lookup by idempotency key with its cache of hits and misses. Results
and interpretations are JSON texts.
-/

namespace CryptoAggHarmonic.Analyze

open Sql

inductive Market
  | binance
  | futures
  | yahoo
  deriving DecidableEq, Repr

inductive Interval
  | m1
  | m5
  | m15
  | h1
  | h4
  | d1
  | w1
  deriving DecidableEq, Repr

inductive AnalysisType
  | auto
  | forming
  | formed
  | divergence
  deriving DecidableEq, Repr

inductive Status
  | created
  | validating
  | fetchingMarketData
  | detectingPatterns
  | interpreting
  | renderingChart
  | completed
  | noResult
  | failedUpstream
  | failedModel
  | failedChart
  | rejected
  | stale
  deriving DecidableEq, Repr

structure AnalyzeRequest where
  market : Market
  symbol : String
  interval : Interval
  analysisType : AnalysisType
  idempotencyKey : Option String
  deriving DecidableEq

structure AnalysisRow where
  id : Uuid
  userId : Uuid
  market : Market
  symbol : String
  interval : Interval
  analysisType : AnalysisType
  status : Status
  technicalResult : Option String
  interpretation : Option String
  errorMessage : Option String
  durationMs : Option ℤ
  startedAt : Option String
  completedAt : Option String
  idempotencyKey : Option String
  deriving DecidableEq

/-! ## Writes -/

/-- The columns of the migrations. -/
def analysesColumns : List String :=
  ["id", "user_id", "input_mode", "market", "symbol", "interval", "analysis_type", "parameters", "status",
    "technical_result", "interpretation", "chart_path", "model_provider", "model_name", "prompt_version", "input_tokens",
    "output_tokens", "estimated_cost_micros", "error_code", "error_message", "duration_ms", "created_at", "started_at",
    "completed_at", "idempotency_key"]

/-- One entry of the updates the route sends. -/
inductive Entry
  | status (status : Status)
  | analysisType (analysisType : Option AnalysisType)
  | resultSummary (summary : Option String)
  | errorMessage (message : String)
  deriving DecidableEq

def Entry.column : Entry → String
  | .status _ => "status"
  | .analysisType _ => "analysis_type"
  | .resultSummary _ => "result_summary"
  | .errorMessage _ => "error_message"

/-- The constraints on the columns. -/
def Entry.check : Entry → Except SqlError Unit
  | .analysisType none => .error .notNullViolation
  | .analysisType (some .auto) => .error .checkViolation
  | _ => .ok ()

def AnalysisRow.assign (r : AnalysisRow) : Entry → AnalysisRow
  | .status status => { r with status := status }
  | .analysisType analysisType => { r with analysisType := analysisType.getD r.analysisType }
  | .resultSummary _ => r
  | .errorMessage message => { r with errorMessage := some message }

theorem AnalysisRow.assign_id (entries : List Entry) (r : AnalysisRow) : (entries.foldl assign r).id = r.id := by
  induction entries generalizing r with
  | nil => rfl
  | cons e entries ih =>
      rw [List.foldl_cons, ih]
      cases e <;> rfl

abbrev Analyses := Table AnalysisRow.id

/-- The update as the database takes it: all of it or nothing. -/
def Analyses.patch (t : Analyses) (id : Uuid) (entries : List Entry) : Except SqlError Analyses :=
  if entries.any fun e => e.column ∉ analysesColumns then .error .undefinedColumn
  else do
    entries.forM Entry.check
    return t.update id (fun r => entries.foldl AnalysisRow.assign r) (AnalysisRow.assign_id entries)

/-- `update_analysis_record`: errors are logged. -/
def Analyses.updateRecord (t : Analyses) (reaches : Bool) (id : Uuid) (entries : List Entry) : Bool × Analyses :=
  if !reaches then (false, t)
  else
    match t.patch id entries with
    | .ok t' => (true, t')
    | .error _ => (false, t)

def AnalysisType.stored : AnalysisType → AnalysisType
  | .auto => .forming
  | t => t

def Market.stored : Market → Market
  | .futures => .binance
  | m => m

def Interval.stored : Interval → Interval
  | .m1 | .m5 => .m15
  | i => i

/-- `if req.idempotency_key` -/
def AnalyzeRequest.key? (req : AnalyzeRequest) : Option String := req.idempotencyKey.filter fun k => k ≠ ""

/-- `UNIQUE(user_id, idempotency_key)` -/
def Analyses.keyTaken (t : Analyses) (userId : Uuid) (key : Option String) : Bool :=
  key.isSome && t.rows.any fun r => r.userId = userId && r.idempotencyKey = key

/-- `create_analysis_record`: errors are logged. -/
def Analyses.createRecord (t : Analyses) (reaches : Bool) (userId analysisId : Uuid) (req : AnalyzeRequest) :
    Option Uuid × Analyses :=
  if !reaches || t.keyTaken userId req.key? then (none, t)
  else
    match t.insert? {
      id := analysisId
      userId := userId
      market := req.market.stored
      symbol := req.symbol
      interval := req.interval.stored
      analysisType := req.analysisType.stored
      status := .created
      technicalResult := none
      interpretation := none
      errorMessage := none
      durationMs := none
      startedAt := none
      completedAt := none
      idempotencyKey := req.key? } with
    | none => (none, t)
    | some t' => (some analysisId, t')

/-- `delete_analysis_record` -/
def Analyses.deleteRecord (t : Analyses) (reaches : Bool) (id : Uuid) : Analyses := if reaches then t.delete id else t

/-! ## The lookup by key -/

structure CacheConfig where
  ttlSeconds : ℤ
  maxEntries : ℕ

structure CacheEntry where
  userId : Uuid
  key : String
  ts : ℤ
  /-- A row, or a miss that is remembered. -/
  record : Option AnalysisRow
  deriving DecidableEq

/-- A dictionary in the order of insertion. -/
abbrev Cache := List CacheEntry

def CacheEntry.isFor (userId : Uuid) (key : String) (e : CacheEntry) : Bool := e.userId = userId && e.key = key

def Cache.pop (c : Cache) (userId : Uuid) (key : String) : Cache := c.filter fun e => !e.isFor userId key

/-- The oldest entry goes when the cache is full. -/
def Cache.evict (c : Cache) (config : CacheConfig) : Cache :=
  if c.length ≥ config.maxEntries then
    match (c.insertionSort fun a b => a.ts ≤ b.ts).head? with
    | some oldest => c.pop oldest.userId oldest.key
    | none => c
  else c

/-- `get_analysis_by_idem_key` -/
def getAnalysisByIdemKey (config : CacheConfig) (c : Cache) (t : Analyses) (reaches : Bool) (now : ℤ) (userId : Uuid)
    (key : String) : Option AnalysisRow × Cache :=
  match c.find? (CacheEntry.isFor userId key) with
  | some e => if now - e.ts < config.ttlSeconds then (e.record, c) else search (c.pop userId key)
  | none => search c
where
  search (c : Cache) : Option AnalysisRow × Cache :=
    let record := if reaches then t.rows.find? fun r => r.userId = userId ∧ r.idempotencyKey = some key else none
    (record, c.evict config ++ [{ userId := userId, key := key, ts := now, record := record }])

end CryptoAggHarmonic.Analyze
