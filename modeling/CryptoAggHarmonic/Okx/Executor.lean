import CryptoAggHarmonic.Python.Float
import CryptoAggHarmonic.Okx.Client
import CryptoAggHarmonic.Lib.Steps

/-!
# The audit log of the exchange writes

`app/services/okx/audit.py`: one line in the file of the day for each record, after a copy in the outbox directory of
the day. The clock is read twice, for the directory and for the names of the files.
-/

namespace CryptoAggHarmonic.Okx

def AUDIT_REDACT_KEYS : List String :=
  ["api_key", "secret_key", "passphrase", "apiKey", "secretKey", "password", "token", "secret"]

mutual

/-- `_redact_args` -/
def redactArgs : PyValue → PyValue
  | .list xs => .list (redactAll xs)
  | .dict items => .dict (redactItems items)
  | value => value

def redactAll : List PyValue → List PyValue
  | [] => []
  | x :: xs => redactArgs x :: redactAll xs

def redactItems : List (String × PyValue) → List (String × PyValue)
  | [] => []
  | (k, x) :: items => (k, if k ∈ AUDIT_REDACT_KEYS then .str "***" else redactArgs x) :: redactItems items

end

/-- A record, with what its hash is taken of. -/
structure AuditRecord where
  ts : ℕ
  tool : String
  args : PyValue
  resultCode : String
  resultBody : String × String
  user : String
  saltVersion : ℕ
  paper : Bool
  clOrdId : PyValue
  latencyMs : ℕ
  traceId : PyValue
  gate : String
  gateReason : Option String := none

/-- `json.dumps(record)` takes the record. -/
def AuditRecord.dumps (record : AuditRecord) : Bool := record.args.dumps && record.clOrdId.dumps && record.traceId.dumps

/-- Times are in microseconds. -/
def DAY : ℕ := 86400000000

/-- `_date_str`, the day by its number. -/
def dateStr (now : ℕ) : ℕ := now / DAY

/-- The directory of the log: the days that have an outbox directory, and the lines of the daily files with the day of
the file, in the order they were written. -/
structure AuditFiles where
  outboxes : List ℕ := []
  lines : List (ℕ × AuditRecord) := []

def AuditFiles.ensureDirs (files : AuditFiles) (now : ℕ) : AuditFiles :=
  { files with outboxes := files.outboxes ++ [dateStr now] }

/-- `write`, with the clock at `ensured` for the directory and at `named` for the files. -/
def AuditFiles.write (files : AuditFiles) (record : AuditRecord) (ensured named : ℕ) : AuditFiles × Option Raised :=
  let files := files.ensureDirs ensured
  let date := dateStr named
  if !record.dumps then (files, some .typeError)
  else if date ∉ files.outboxes then (files, some .fileNotFound)
  else ({ files with lines := files.lines ++ [(date, record)] }, none)

/-!
# The executor of the exchange writes

`OKXExecutor.dispatch` of `app/services/okx/executor.py`, with the gates of `app/loop/tuning_promotion.py`, and the runs
of dispatches and resets of the counter.
-/

def OKX_WRITE_TOOLS : List String :=
  ["spot_place_order", "spot_cancel_order", "spot_amend_order", "spot_batch_place_orders", "spot_batch_cancel_orders",
    "account_transfer", "account_set_position_mode", "account_set_leverage", "swap_place_order", "swap_cancel_order",
    "swap_amend_order", "swap_batch_place_orders", "swap_batch_cancel_orders", "swap_set_leverage",
    "swap_close_position", "move_order_stop", "futures_place_order", "futures_cancel_order", "futures_amend_order",
    "futures_batch_place_orders", "futures_batch_cancel_orders", "futures_set_leverage", "futures_close_position",
    "option_place_order", "option_cancel_order", "option_amend_order", "option_batch_cancel_orders", "earn_purchase",
    "earn_redeem", "earn_subscribe", "earn_redeem_subscription", "event_place_order", "event_amend_order",
    "event_cancel_order", "bot_create_grid", "bot_create_dca", "bot_stop"]

def isLiveExecutionTool (name : String) : Bool := name ∈ OKX_WRITE_TOOLS

/-- The tools are left out of the reason. -/
def executionAllowedForTools (names : List String) (paper : Bool) : Bool × String :=
  let writeHits := names.filter isLiveExecutionTool
  if writeHits ≠ [] ∧ !paper then (true, "live mode: write tools dispatched to real OKX (audit log MANDATORY)")
  else if writeHits = [] then (true, "ok (no write tools requested)")
  else (true, "paper mode: write tools dispatched to OKX demo (audit log MANDATORY)")

structure Executor where
  paper : Bool := true
  allowLive : Bool := false
  user : String := "loop#11"

/-- A dispatch, with what its calls bring, how long they take, and the readings of the clock when the record is built
and written. -/
structure Dispatch where
  tool : String
  args : PyValue
  saltVersion : ℕ := 1
  first : Reading
  retry : Reading := .timeout
  latencyMs : ℕ := 0
  built : ℕ
  ensured : ℕ
  named : ℕ

/-- `args.get("clOrdId") if isinstance(args, dict) else None` -/
def Dispatch.clOrdId (d : Dispatch) : PyValue := d.args.getD "clOrdId" .none

structure State where
  client : Client := {}
  files : AuditFiles := {}

structure DispatchResult where
  tool : String
  paper : Bool
  auditRecord : AuditRecord
  toolResult : Option Json := none
  gatePassed : Bool := false

/-- `build_record` -/
def buildRecord (ex : Executor) (d : Dispatch) (paper : Bool) (gate resultCode : String) (latencyMs : ℕ)
    (traceId : PyValue) : AuditRecord where
  ts := d.built
  tool := d.tool
  args := redactArgs d.args
  resultCode := resultCode
  resultBody := (gate, resultCode)
  user := ex.user
  saltVersion := d.saltVersion
  paper := paper
  clOrdId := d.clOrdId
  latencyMs := latencyMs
  traceId := traceId
  gate := gate

/-- A gate that refuses: the record is written and the result says so. -/
def refuse (s : State) (d : Dispatch) (record : AuditRecord) : State × Except Raised DispatchResult :=
  match s.files.write record d.ensured d.named with
  | (files, some e) => ({ s with files := files }, .error e)
  | (files, none) => ({ s with files := files }, .ok { tool := d.tool, paper := record.paper, auditRecord := record })

section

variable (repr : PyValue → String)

/-- Past the gates. Of what the client raises only the error code of the exchange is caught. -/
def send (ex : Executor) (s : State) (d : Dispatch) : State × Except Raised DispatchResult :=
  match s.client.invokeTool repr ⟨d.tool, d.args⟩ d.first d.retry with
  | (client, .ok result) =>
      let record := buildRecord ex d ex.paper "dispatched" result.code d.latencyMs result.traceId.1
      match s.files.write record d.ensured d.named with
      | (files, some e) => (⟨client, files⟩, .error e)
      | (files, none) =>
          (⟨client, files⟩, .ok ⟨d.tool, ex.paper, record, some result.data, true⟩)
  | (client, .error (.api code message tool traceId)) =>
      let record := buildRecord ex d ex.paper "dispatched_api_error" code 0 traceId
      match s.files.write record d.ensured d.named with
      | (files, some e) => (⟨client, files⟩, .error e)
      | (files, none) => (⟨client, files⟩, .error (.api code message tool traceId))
  | (client, .error e) => ({ s with client := client }, .error e)

def dispatch (ex : Executor) (s : State) (d : Dispatch) : State × Except Raised DispatchResult :=
  if !isLiveExecutionTool d.tool then
    refuse s d (buildRecord ex d ex.paper "gate1_unknown_tool" "REJECTED" 0 .none)
  else if !ex.paper ∧ !ex.allowLive then
    refuse s d (buildRecord ex d false "gate2_no_allow_live" "REJECTED" 0 .none)
  else
    let (ok, reason) := executionAllowedForTools [d.tool] ex.paper
    if !ok then
      refuse s d
        { buildRecord ex d ex.paper "gate3_tool_blocked" "REJECTED" 0 .none with gateReason := some reason }
    else send repr ex s d

/-! ## Runs -/

inductive Step
  | dispatch (d : Dispatch)
  | resetGenCounter

def step (ex : Executor) (s : State) : Step → State
  | .dispatch d => (dispatch repr ex s d).1
  | .resetGenCounter => { s with client := s.client.resetGenCounter }

/-! ## What the audit is for -/

/-- The gates before the call refuse the dispatch. -/
def Gated (ex : Executor) (d : Dispatch) : Prop :=
  isLiveExecutionTool d.tool = false ∨ ex.paper = false ∧ ex.allowLive = false

instance (ex : Executor) (d : Dispatch) : Decidable (Gated ex d) := inferInstanceAs (Decidable (_ ∨ _))

/-- The lines have grown by one record of the dispatch that meets `p`. -/
def OneRecord (s s' : State) (d : Dispatch) (p : AuditRecord → Prop) : Prop :=
  ∃ date record, s'.files.lines = s.files.lines ++ [(date, record)] ∧ record.tool = d.tool ∧
    record.clOrdId = d.clOrdId ∧ p record

/-- The dispatch has been written to the server. -/
def Reaches (ex : Executor) (s : State) (d : Dispatch) : Prop :=
  s.client.sent.length < (dispatch repr ex s d).1.client.sent.length

instance (ex : Executor) (s : State) (d : Dispatch) : Decidable (Reaches repr ex s d) :=
  inferInstanceAs (Decidable (_ < _))

/-- A dispatch that reaches the server leaves one record, and a refused one sends nothing and leaves one rejection. -/
def Audited (ex : Executor) (s : State) (d : Dispatch) : Prop :=
  (Reaches repr ex s d → OneRecord s (dispatch repr ex s d).1 d fun _ => True) ∧
  (Gated ex d ∨ MAX_OKX_WRITE_PER_GEN ≤ s.client.writeCountThisGen →
    ¬ Reaches repr ex s d ∧ OneRecord s (dispatch repr ex s d).1 d fun record => record.resultCode = "REJECTED")

/-- How many of the dispatches reach the server. -/
def reached (ex : Executor) : State → List Step → ℕ
  | _, [] => 0
  | s, .dispatch d :: is => (if Reaches repr ex s d then 1 else 0) + reached ex (step repr ex s (.dispatch d)) is
  | s, .resetGenCounter :: is => reached ex (step repr ex s .resetGenCounter) is

/-- Between two resets at most `MAX_OKX_WRITE_PER_GEN` dispatches reach the server. -/
def Capped (ex : Executor) (s : State) (is : List Step) : Prop :=
  ∀ before stretch after, is = before ++ stretch ++ after → .resetGenCounter ∉ stretch →
    reached repr ex (Steps.run (step repr ex) s before) stretch ≤ MAX_OKX_WRITE_PER_GEN

/-- Every dispatch of the run is audited. -/
def AllAudited (ex : Executor) (s : State) (is : List Step) : Prop :=
  Steps.Along (step repr ex) (fun s i => ∀ d, i = .dispatch d → Audited repr ex s d) s is

end

end CryptoAggHarmonic.Okx
