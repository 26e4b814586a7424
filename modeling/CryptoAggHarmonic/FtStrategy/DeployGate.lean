import CryptoAggHarmonic.Python.Float
import CryptoAggHarmonic.FtStrategy.Repo

/-!
# The deploy route on what is stored

`deploy_one` of `app/api/ft_strategy_routes.py` where nothing is known of the stored `latest_result`: the defaults of
the route, `_coerce_per_timerange`, and `check_promotion_v3` on a candidate of any values. What `float` makes of a text
is an argument.
-/

namespace CryptoAggHarmonic

namespace PyValue

/-- `bool(value)` -/
def truthy : PyValue → Bool
  | .none => false
  | .bool b => b
  | .int n => n ≠ 0
  | .float x => x ≠ .finite 0
  | .str s => s ≠ ""
  | .list xs => !xs.isEmpty
  | .dict items => !items.isEmpty
  | .other => true

/-- `value or default` -/
def orElse (value default : PyValue) : PyValue := if value.truthy then value else default

/-- The values that can be compared with a float. -/
def number? : PyValue → Option PyFloat
  | .bool b => some (.finite (if b then 1 else 0))
  | .int n => some (.finite n)
  | .float x => some x
  | _ => Option.none

/-- What a `for` over the value goes through. -/
def entries? : PyValue → Option (List PyValue)
  | .list xs => some xs
  | .dict items => some (items.map fun item => .str item.1)
  | .str s => some (s.toList.map fun c => .str (String.singleton c))
  | _ => Option.none

end PyValue

namespace FtStrategy

inductive Raised
  | typeError
  | valueError
  | overflowError
  | keyError (key : String)
  | attributeError
  deriving DecidableEq

variable (parseFloat : String → Option PyFloat)

/-- From here on an integer is rounded to no finite float. -/
def floatOverflow : ℕ := 2 ^ 1024 - 2 ^ 970

/-- `float(value)` -/
def toFloat : PyValue → Except Raised PyFloat
  | .bool b => .ok (.finite (if b then 1 else 0))
  | .int n => if n.natAbs < floatOverflow then .ok (.finite n) else .error .overflowError
  | .float x => .ok x
  | .str s => (parseFloat s).elim (.error .valueError) .ok
  | _ => .error .typeError

/-- The value as one side of a comparison with a float. -/
def compared (value : PyValue) : Except Raised PyFloat := value.number?.elim (.error .typeError) .ok

/-- `value[key]` of a dict -/
def subscript (value : PyValue) (key : String) : Except Raised PyValue :=
  (value.get? key).elim (.error (.keyError key)) .ok

/-- `float(value[key])` of a dict -/
def floatOf (value : PyValue) (key : String) : Except Raised PyFloat := do
  toFloat parseFloat (← subscript value key)

/-! ## The rows -/

/-- A regime that is no text is left blank: nothing reads it. -/
def regimeText : PyValue → String
  | .str s => s
  | _ => ""

/-- What one entry adds: an entry that is no dict adds nothing. -/
def coerceEntry : PyValue → Except Raised (List PerTimerangeResult)
  | .dict items => do
      let regime ← subscript (.dict items) "regime"
      let sharpe ← floatOf parseFloat (.dict items) "sharpe"
      let maxDd ← floatOf parseFloat (.dict items) "max_dd"
      let calmar ← floatOf parseFloat (.dict items) "calmar"
      return [⟨regimeText regime, sharpe, maxDd, calmar⟩]
  | _ => .ok []

def coerceEntries : List PyValue → Except Raised (List PerTimerangeResult)
  | [] => .ok []
  | entry :: entries => do
      let rows ← coerceEntry parseFloat entry
      let more ← coerceEntries entries
      return rows ++ more

/-- `_coerce_per_timerange` -/
def coercePerTimerange (value : PyValue) : Except Raised (List PerTimerangeResult) :=
  match value.entries? with
  | some entries => coerceEntries parseFloat entries
  | none => .error .typeError

/-! ## The gate on any values -/

/-- A `PromotionCandidate` as the route fills it. -/
structure StoredCandidate where
  strategyId : String
  version : ℕ
  sharpe : PyValue
  maxDd : PyValue
  calmar : PyValue
  winRate : PyValue
  profitPct : PyValue
  trades : PyValue
  perTimerange : List PerTimerangeResult
  hasFinalReport : Bool
  openCrashInWindowDays : ℕ
  shadowObserved : Bool

/-- `x >= value` and `x > value` -/
def geValue (x : PyFloat) (value : PyValue) : Except Raised Bool := return x.ge (← compared value)

def gtValue (x : PyFloat) (value : PyValue) : Except Raised Bool := return x.gt (← compared value)

/-- `_pareto_dominated`: the first `and` and `or` that is decided compares nothing more. -/
def paretoDominatedValues (sharpe calmar : PyValue) (ddNeg : PyFloat) (winRate : PyValue) :
    List (PyFloat × PyFloat × PyFloat × PyFloat) → Except Raised Bool
  | [] => .ok false
  | (ps, pc, pddNeg, pwr) :: priors => do
      let geAll ← geValue ps sharpe <&&> geValue pc calmar <&&> pure (pddNeg.ge ddNeg) <&&> geValue pwr winRate
      let gtOne ← gtValue ps sharpe <||> gtValue pc calmar <||> pure (pddNeg.gt ddNeg) <||> gtValue pwr winRate
      if geAll && gtOne then return true else paretoDominatedValues sharpe calmar ddNeg winRate priors

/-- The candidate of the values that are numbers. -/
def StoredCandidate.known (c : StoredCandidate) (maxDd profitPct : PyFloat) : PromotionCandidate where
  strategyId := c.strategyId
  version := c.version
  sharpe := c.sharpe.number?.getD .nan
  maxDd := maxDd
  calmar := c.calmar.number?.getD .nan
  winRate := c.winRate.number?.getD .nan
  profitPct := profitPct
  trades := 0
  perTimerange := c.perTimerange
  hasFinalReport := c.hasFinalReport
  openCrashInWindowDays := c.openCrashInWindowDays
  shadowObserved := c.shadowObserved

/-- `check_promotion_v3`. The fifth and the sixth item look at values that need not be numbers of the expected kind. -/
def checkStored (c : StoredCandidate) (ctx : PromotionContext) : Except Raised PromotionResult := do
  let maxDd ← compared c.maxDd
  let profitPct ← compared c.profitPct
  let trades ← compared c.trades
  let observed ← toFloat parseFloat c.trades
  let dominated ← paretoDominatedValues c.sharpe c.calmar maxDd.neg c.winRate ctx.priorKeepShapes
  let known := c.known maxDd profitPct
  let items := [robustSharpeItem known ctx, robustCalmarItem known ctx, maxDrawdownItem known ctx,
    profitFloorItem known ctx,
    { minPositionSizeItem known ctx with
      passed := trades.ge (.finite ctx.minPositionSize)
      observed := some observed },
    { notParetoDominatedItem known ctx with passed := !dominated }, shadowObservedItem known,
    reportReferencedItem known, noOpenCrashItem known]
  let failing := items.filter fun i => !i.passed
  return {
    ok := failing.isEmpty
    items := items
    hardBlockers := failing.map PromotionCheckItem.label }

/-! ## The route -/

/-- `latest.get(key, default)`: only a dict has a `get`. -/
def latestGet (latest : PyValue) (key : String) (default : PyValue) : Except Raised PyValue :=
  match latest with
  | .dict _ => .ok (latest.getD key default)
  | _ => .error .attributeError

def storedCandidateOf (db : Db) (s : Strategy) (stored : PyValue) : Except Raised StoredCandidate := do
  let latest := stored.orElse (.dict [])
  let sharpe ← latestGet latest "sharpe" (.float (.finite 0))
  let maxDd ← latestGet latest "max_dd" (.float (.finite 0))
  let calmar ← latestGet latest "calmar" (.float (.finite 0))
  let winRate ← latestGet latest "win_rate" (.float (.finite 0))
  let profitPct ← latestGet latest "profit_pct" (.float (.finite 0))
  let trades ← latestGet latest "trades" (.int 0)
  let rows ← latestGet latest "per_timerange" (.list [])
  let perTimerange ← coercePerTimerange parseFloat (rows.orElse (.list []))
  return {
    strategyId := s.id
    version := s.currentVersion
    sharpe := sharpe
    maxDd := maxDd
    calmar := calmar
    winRate := winRate
    profitPct := profitPct
    trades := trades
    perTimerange := perTimerange
    hasFinalReport := db.hasFinalReport s.id
    openCrashInWindowDays := db.listOpenCrashes s.id
    shadowObserved := db.hasShadowObservation s.id }

/-- `deploy_one`, where the column `latest_result` of the strategy holds `stored`. -/
def deployStored (db : Db) (stored : PyValue) (user : Option String) (strategyId : String) :
    Except Raised DeployResponse × Db :=
  match loadOwnedStrategy db user strategyId with
  | .error response => (.ok response, db)
  | .ok s =>
      match (storedCandidateOf parseFloat db s stored).bind fun c => checkStored parseFloat c .default with
      | .error e => (.error e, db)
      | .ok result =>
          if !result.ok then (.ok (.gateFailed result), db)
          else (.ok .pendingReview, db.updateStatus strategyId "pending_review")

end FtStrategy

end CryptoAggHarmonic
