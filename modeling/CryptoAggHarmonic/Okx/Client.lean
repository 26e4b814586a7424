import CryptoAggHarmonic.Python.Float
import CryptoAggHarmonic.Lib.Steps

/-!
# The client of the exchange's MCP server

`app/services/okx/mcp_client.py`: one JSON-RPC call over the pipes of a subprocess, and `invoke_tool` over it. What the
pipe brings in answer to a request is part of the input here.
-/

namespace CryptoAggHarmonic.Okx

def MAX_OKX_WRITE_PER_GEN : ℕ := 3

def RATE_LIMIT_CODE : String := "50011"

inductive Raised
  /-- `OKXClientError` -/
  | client (message : String)
  /-- `OKXAPIError` -/
  | api (code : String) (message : PyValue) (tool : String) (traceId : PyValue)
  | typeError
  | attributeError
  | fileNotFound

/-- A line of the server's output. -/
inductive Line
  | malformed
  | json (value : Json)

/-- How a request goes out and what comes back: there is no subprocess, it has closed its input, nothing comes in time,
the output ends, or a line is read. -/
inductive Reading
  | notStarted
  | brokenPipe
  | timeout
  | closed
  | line (l : Line)

/-- The request has been written to the server. -/
def Reading.written : Reading → Bool
  | .notStarted => false
  | .brokenPipe => false
  | _ => true

/-- `"error" in response` and `response.get("result")`, also for a response that is no dict. -/
def responseResult (response : Json) : Except Raised Json :=
  match response with
  | ⟨.dict items, hitems⟩ =>
      if (items.lookup "error").isSome then .error (.client "jsonrpc error")
      else .ok ⟨(PyValue.dict items).getD "result" .none, PyValue.dumps_getD hitems rfl⟩
  | ⟨.list xs, _⟩ =>
      .error (if xs.any fun x => x matches .str "error" then .typeError else .attributeError)
  | ⟨.str s, _⟩ => .error (if (s.splitOn "error").length > 1 then .typeError else .attributeError)
  | _ => .error .typeError

/-- The second half of `_call`: what the caller gets of what was read. -/
def Reading.result : Reading → Except Raised Json
  | .notStarted => .error (.client "client not started or already closed")
  | .brokenPipe => .error (.client "okx-trade-mcp pipe broken")
  | .timeout => .error (.client "okx-trade-mcp call timeout")
  | .closed => .error (.client "okx-trade-mcp closed unexpectedly")
  | .line .malformed => .error (.client "non-JSON response from okx-trade-mcp")
  | .line (.json response) => responseResult response

structure ToolCall where
  name : String
  args : PyValue

/-- The client, with the tool calls that were written to its server. -/
structure Client where
  writeCountThisGen : ℕ := 0
  sent : List ToolCall := []

/-- `_call("tools/call", ...)`. The request is put into JSON before it is written. -/
def Client.call (client : Client) (tool : ToolCall) (reading : Reading) : Client × Except Raised Json :=
  match reading with
  | .notStarted => (client, reading.result)
  | _ =>
      if !tool.args.dumps then (client, .error .typeError)
      else (if reading.written then { client with sent := client.sent ++ [tool] } else client, reading.result)

structure ToolResult where
  data : Json
  code : String
  traceId : Json

section

-- `str(x)` of a number with a point, a list or a dict
variable (repr : PyValue → String)

def pyStr : PyValue → String
  | .none => "None"
  | .bool true => "True"
  | .bool false => "False"
  | .int n => toString n
  | .str s => s
  | value => repr value

/-- `str(data.get("code", "0")) if isinstance(data, dict) else "0"` -/
def codeOf (data : Json) : String := pyStr repr (data.1.getD "code" (.str "0"))

def traceIdOf (data : Json) : Json := ⟨data.1.getD "traceId" .none, PyValue.dumps_getD data.2 rfl⟩

/-- What a call of the tool comes to, once its data is there. -/
def toolResult (name : String) (data : Json) : Except Raised ToolResult :=
  if codeOf repr data ≠ "0" then
    .error (.api (codeOf repr data) (data.1.getD "msg" (.str "unknown")) name (traceIdOf data).1)
  else .ok ⟨data, codeOf repr data, traceIdOf data⟩

/-- `invoke_tool(name, args, is_write=True)`: at most `MAX_OKX_WRITE_PER_GEN` between two resets, and a second call for
the answer that there were too many requests. -/
def Client.invokeTool (client : Client) (tool : ToolCall) (first retry : Reading) :
    Client × Except Raised ToolResult :=
  if client.writeCountThisGen ≥ MAX_OKX_WRITE_PER_GEN then (client, .error (.client "per-gen write cap reached"))
  else
    match Client.call { client with writeCountThisGen := client.writeCountThisGen + 1 } tool first with
    | (client, .error e) => (client, .error e)
    | (client, .ok data) =>
        if codeOf repr data = RATE_LIMIT_CODE then
          match client.call tool retry with
          | (client, .error e) => (client, .error e)
          | (client, .ok data) => (client, toolResult repr tool.name data)
        else (client, toolResult repr tool.name data)

end

def Client.resetGenCounter (client : Client) : Client := { client with writeCountThisGen := 0 }

/-!
# The calls over the server's pipes

`OKXMCPClient._call` with the output of the server as it arrives. `select` looks at the descriptor; `readline` first
takes what an earlier read of the descriptor has left in its buffer.
-/

/-- What the server writes, a line each. Requests go by their number among the calls of the client. -/
inductive Message
  | response (id : ℕ) (payload : Except Json Json)
  | notification (method : String)

/-- The calls are given new ids, `uuid4().hex`. -/
def Message.json (uuid : ℕ → String) : Message → Json
  | .response id (.ok result) =>
      ⟨.dict [("jsonrpc", .str "2.0"), ("id", .str (uuid id)), ("result", result.1)], by
        simp [PyValue.dumps, PyValue.dumpsItems, result.2]⟩
  | .response id (.error err) =>
      ⟨.dict [("jsonrpc", .str "2.0"), ("id", .str (uuid id)), ("error", err.1)], by
        simp [PyValue.dumps, PyValue.dumpsItems, err.2]⟩
  | .notification method => ⟨.dict [("jsonrpc", .str "2.0"), ("method", .str method)], rfl⟩

/-- The output of the server: the lines that wait in the buffer of the reader, and those still in the descriptor. -/
structure Pipe where
  buffered : List Message := []
  unread : List Message := []

/-- What happens around one call: whether the server takes no more input, the lines that arrive until `select` comes
back, whether the output has ended, and how many lines one read of the descriptor takes besides the first. -/
structure Turn where
  broken : Bool := false
  arrived : List Message := []
  ended : Bool := false
  taken : ℕ := 0

inductive Answer
  | brokenPipe
  | timeout
  | closed
  | message (m : Message)

def Answer.reading (uuid : ℕ → String) : Answer → Reading
  | .brokenPipe => .brokenPipe
  | .timeout => .timeout
  | .closed => .closed
  | .message m => .line (.json (m.json uuid))

/-- `proc.stdout.readline()` -/
def Pipe.readline (s : Pipe) (taken : ℕ) : Pipe × Answer :=
  match s.buffered, s.unread with
  | m :: buffered, _ => ({ s with buffered := buffered }, .message m)
  | [], m :: unread => (⟨unread.take taken, unread.drop taken⟩, .message m)
  | [], [] => (s, .closed)

def Pipe.receive (s : Pipe) (t : Turn) : Pipe × Answer :=
  let s := { s with unread := s.unread ++ t.arrived }
  if t.broken then (s, .brokenPipe)
  else if s.unread.isEmpty ∧ !t.ended then (s, .timeout)
  else s.readline t.taken

def Pipe.step (s : Pipe) (t : Turn) : Pipe := (s.receive t).1

def received (turns : List Turn) : Pipe := Steps.run Pipe.step {} turns

/-- `_call`, with what its caller gets. -/
def call (uuid : ℕ → String) (s : Pipe) (t : Turn) : Pipe × Except Raised Json :=
  ((s.receive t).1, ((s.receive t).2.reading uuid).result)

/-! ## What the calls are for -/

/-- What a call is to come to when its own response carries `payload`. -/
def payloadResult : Except Json Json → Except Raised Json
  | .ok result => .ok result
  | .error _ => .error (.client "jsonrpc error")

/-- The lines of a turn answer requests that have been written by then. -/
def AnswersRequests (turns : List Turn) : Prop :=
  ∀ before t after, turns = before ++ t :: after → ∀ id payload, .response id payload ∈ t.arrived →
    ∃ earlier u later, before ++ [t] = earlier ++ u :: later ∧ earlier.length = id ∧ u.broken = false

def Message.id? : Message → Option ℕ
  | .response id _ => some id
  | .notification _ => none

/-- Each request is answered once, after it was written, with notifications in between. -/
structure WellFormed (turns : List Turn) : Prop where
  answers : AnswersRequests turns
  once : ((turns.flatMap Turn.arrived).filterMap Message.id?).Nodup

/-- The call `id` gives what its own response carries when it comes in time, and otherwise no line of the server. -/
def Own (uuid : ℕ → String) (id : ℕ) (s : Pipe) (t : Turn) : Prop :=
  (∀ m, (s.receive t).2 = .message m → m.id? = some id) ∧
    ∀ payload, .response id payload ∈ t.arrived → (call uuid s t).2 = payloadResult payload

def Correlated (uuid : ℕ → String) (turns : List Turn) : Prop :=
  ∀ before t after, turns = before ++ t :: after → Own uuid before.length (received before) t

/-! ## The condition -/

/-- The request can be written, and `select` finds the descriptor ready for something to read. -/
def Pipe.ready (s : Pipe) (t : Turn) : Prop :=
  t.broken = false ∧ (s.unread ++ t.arrived ≠ [] ∨ t.ended = true ∧ s.buffered ≠ [])

/-- Nothing has arrived but, during a call, its own response. -/
def Punctual (turns : List Turn) : Prop :=
  ∀ before t after, turns = before ++ t :: after →
    t.arrived = [] ∨ ∃ payload, t.arrived = [.response before.length payload]

/-- Whenever there is something to read, what came before the call is punctual, and the next line is its response. -/
def InStep (turns : List Turn) : Prop :=
  ∀ before t after, turns = before ++ t :: after → (received before).ready t →
    Punctual before ∧ ∃ payload rest, t.arrived = .response before.length payload :: rest

end CryptoAggHarmonic.Okx
