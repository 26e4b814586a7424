import CryptoAggHarmonic.Python.Text
import CryptoAggHarmonic.Lib.Interleave
import CryptoAggHarmonic.Lib.Cursor
import CryptoAggHarmonic.Lib.Steps

/-!
# The event store of a run

`publish` in its two steps, the allocation of a sequence number and the validated append, and `get_events`. Redis keeps
a list and a counter for the run; the memory of the store has its own, used without Redis and where Redis raises.
-/

namespace CryptoAggHarmonic.Vibe

/-- What pydantic makes of a Python value, for each type of the fields. -/
structure Pydantic (V D : Type) where
  ofStr : String → V
  ofInt : ℤ → V
  isNone : V → Bool
  falsy : V → Bool
  literal : V → Option String
  str : V → Option String
  int : V → Option ℤ
  bool : V → Option Bool
  dict : V → Option D

/-- A dictionary with texts for keys. -/
abbrev Payload (V : Type) := List (String × V)

inductive EventBody (D : Type)
  | runStarted (status : String)
  | toolCallStart (callId tool : String) (input : D)
  | toolCallEnd (callId tool : String) (output : D)
  | delta (content : String)
  | card (cardType : String) (payload : D)
  | done (status : Option String) (inputTokens outputTokens durationMs : Option ℤ)
  | error (code message : String) (retryable : Bool)
  deriving DecidableEq

structure VibeEvent (D : Type) where
  eventId : String
  runId : String
  ts : String
  seq : Option ℤ
  body : EventBody D
  deriving DecidableEq

section

variable {V D : Type}

namespace Payload

def get? (e : Payload V) (key : String) : Option V := e.lookup key

def set (e : Payload V) (key : String) (v : V) : Payload V :=
  if (e.get? key).isSome then e.map fun p => if p.1 = key then (key, v) else p else e ++ [(key, v)]

def setdefault (e : Payload V) (key : String) (v : V) : Payload V :=
  if (e.get? key).isSome then e else e ++ [(key, v)]

end Payload

/-! ## The schema -/

def baseFields : List String := ["event_id", "run_id", "ts", "seq", "type"]

/-- The fields of each type of event, by its discriminator. -/
def typeFields : String → Option (List String)
  | "run_started" => some ["status"]
  | "tool_call_start" => some ["call_id", "tool", "input"]
  | "tool_call_end" => some ["call_id", "tool", "output"]
  | "delta" => some ["content"]
  | "card" => some ["card_type", "payload"]
  | "done" => some ["status", "input_tokens", "output_tokens", "duration_ms"]
  | "error" => some ["code", "message", "retryable"]
  | _ => none

variable (P : Pydantic V D)

namespace Payload

variable {β : Type}

def required (e : Payload V) (key : String) (read : V → Option β) : Option β := (e.get? key).bind read

def defaulted (e : Payload V) (key : String) (default : β) (read : V → Option β) : Option β :=
  match e.get? key with
  | some v => read v
  | none => some default

/-- A field of an `Optional` type. -/
def nullable (e : Payload V) (key : String) (default : Option β) (read : V → Option β) : Option (Option β) :=
  e.defaulted key default fun v => if P.isNone v then some none else (read v).map some

def body (e : Payload V) : String → Option (EventBody D)
  | "run_started" => .runStarted <$> e.defaulted "status" "running" P.str
  | "tool_call_start" =>
      .toolCallStart <$> e.required "call_id" P.str <*> e.required "tool" P.str <*> e.required "input" P.dict
  | "tool_call_end" =>
      .toolCallEnd <$> e.required "call_id" P.str <*> e.required "tool" P.str <*> e.required "output" P.dict
  | "delta" => .delta <$> e.required "content" P.str
  | "card" => .card <$> e.required "card_type" P.str <*> e.required "payload" P.dict
  | "done" =>
      .done <$> e.nullable P "status" (some "completed") P.str <*> e.nullable P "input_tokens" none P.int <*>
        e.nullable P "output_tokens" none P.int <*> e.nullable P "duration_ms" none P.int
  | "error" =>
      .error <$> e.required "code" P.str <*> e.required "message" P.str <*> e.defaulted "retryable" false P.bool
  | _ => none

/-- `_VIBE_EVENT_ADAPTER.validate_python` -/
def validate (e : Payload V) : Option (VibeEvent D) := do
  let type ← e.required "type" P.literal
  let fields ← typeFields type
  -- extra="forbid"
  guard (e.all fun p => p.1 ∈ baseFields ++ fields)
  return {
    eventId := ← e.required "event_id" P.str
    runId := ← e.required "run_id" P.str
    ts := ← e.required "ts" P.str
    seq := ← e.nullable P "seq" none P.int
    body := ← e.body P type }

/-- The fields `publish` fills in before it validates. -/
def backfill (e : Payload V) (runId newId now : String) (seq : ℤ) : Payload V :=
  let e := if (e.get? "event_id").all P.falsy then e.set "event_id" (P.ofStr newId) else e
  let e := e.set "run_id" (P.ofStr runId)
  let e := e.setdefault "ts" (P.ofStr now)
  e.setdefault "seq" (P.ofInt seq)

end Payload

/-! ## The store -/

structure Backend (D : Type) where
  nextSeq : ℕ
  events : List (VibeEvent D)
  deriving DecidableEq

def Backend.empty : Backend D := ⟨0, []⟩

def Backend.count (b : Backend D) : Backend D := { b with nextSeq := b.nextSeq + 1 }

def Backend.append (b : Backend D) (v : VibeEvent D) : Backend D := { b with events := b.events ++ [v] }

structure EventStore (D : Type) where
  redis : Option (Backend D)
  memory : Backend D
  deriving DecidableEq

/-- What becomes of a command to Redis. -/
inductive Reach
  | answers
  /-- It takes place, and raises. -/
  | lost
  | down
  deriving DecidableEq

namespace EventStore

/-- A command to Redis, and to the memory where Redis is not there or raises. -/
def command (s : EventStore D) (reach : Reach) (f : Backend D → Backend D) : EventStore D :=
  match s.redis, reach with
  | some b, .answers => { s with redis := some (f b) }
  | some b, .lost => ⟨some (f b), f s.memory⟩
  | _, _ => { s with memory := f s.memory }

/-- The backend that answers. -/
def backend (s : EventStore D) (reach : Reach) : Backend D :=
  match s.redis, reach with
  | some b, .answers => b
  | _, _ => s.memory

/-- `_next_seq` -/
def nextSeq (s : EventStore D) (reach : Reach) : ℕ × EventStore D :=
  ((s.backend reach).nextSeq, s.command reach .count)

/-- The first half of `publish`. `_next_seq` runs also for an event that has its own `seq`. -/
def prepare (s : EventStore D) (reach : Reach) (runId newId now : String) (e : Payload V) : Payload V × EventStore D :=
  let (seq, s) := s.nextSeq reach
  (e.backfill P runId newId now seq, s)

/-- The second half of `publish`: an event that does not validate is dropped. -/
def commit (s : EventStore D) (reach : Reach) (e : Payload V) : EventStore D :=
  match e.validate P with
  | some v => s.command reach fun b => b.append v
  | none => s

/-- `publish` -/
def publish (s : EventStore D) (reach reachAppend : Reach) (runId newId now : String) (e : Payload V) :
    EventStore D :=
  let (e, s) := s.prepare P reach runId newId now e
  s.commit P reachAppend e

/-- `_fetch_all` -/
def fetchAll (s : EventStore D) (reach : Reach) : List (VibeEvent D) := (s.backend reach).events

/-- `_fetch_range` -/
def fetchRange (s : EventStore D) (reach : Reach) (offset limit : ℤ) : List (VibeEvent D) :=
  match s.redis, reach with
  | some b, .answers => lrange b.events offset (offset + limit - 1)
  | _, _ => pySlice s.memory.events offset (offset + limit)

/-- The events after the first with an id. -/
def afterId (id : String) : List (VibeEvent D) → List (VibeEvent D)
  | [] => []
  | e :: es => if e.eventId = id then es else afterId id es

/-- `get_events` -/
def getEvents (s : EventStore D) (reach : Reach) (afterEventId : Option String) (afterSeq offset : Option ℤ)
    (limit : ℤ) : List (VibeEvent D) :=
  match afterSeq, afterEventId with
  | some seq, _ => s.fetchRange reach (seq + 1) limit
  | none, some id =>
      let filtered := afterId id (s.fetchAll reach)
      pySlice filtered (-limit) filtered.length
  | none, none => s.fetchRange reach (offset.getD 0) limit

/-- The events in Redis, or in the memory without Redis. -/
def visible (s : EventStore D) : List (VibeEvent D) := (s.backend .answers).events

/-- The events in the memory of a store that has Redis. -/
def hidden (s : EventStore D) : List (VibeEvent D) := if s.redis.isSome then s.memory.events else []

def stored (s : EventStore D) : List (VibeEvent D) := s.visible ++ s.hidden

def empty (withRedis : Bool) : EventStore D := ⟨if withRedis then some .empty else none, .empty⟩

end EventStore

/-! ## Publishers and clients -/

/-- Who has to do with the events of a run: a publisher, with the event it is in the midst of publishing and those to
come, or a client, with what it has received. -/
inductive Party (V D : Type)
  | publisher (prepared : Option (Payload V)) (queue : List (Payload V))
  | client (received : List (VibeEvent D))

structure Answer where
  reach : Reach
  newId : String
  now : String
  limit : ℤ

/-- The last `seq` a client has seen. -/
def lastSeen (received : List (VibeEvent D)) : ℤ := (received.filterMap VibeEvent.seq).getLast?.getD (-1)

def act (runId : String) (a : Answer) (s : EventStore D) : Party V D → EventStore D × Party V D
  | .publisher (some e) queue => (s.commit P a.reach e, .publisher none queue)
  | .publisher none (e :: queue) =>
      let (e, s) := s.prepare P a.reach runId a.newId a.now e
      (s, .publisher (some e) queue)
  | .publisher none [] => (s, .publisher none [])
  | .client received =>
      (s, .client (received ++ s.getEvents a.reach none (some (lastSeen received)) none a.limit))

end

end CryptoAggHarmonic.Vibe

/-!
# Polls for events

`GET /runs/<run_id>/events` without a stream, and its clients: each passes the last id it has received, and stops when
a poll returns nothing after the run has ended.
-/

namespace CryptoAggHarmonic.Vibe

section

variable {ι V D : Type}

/-- The events of the answer of `get_run_events`, and `has_more`. -/
def getRunEvents (s : EventStore D) (reach : Reach) (after : Option String) (limit : Option ℤ) :
    List (VibeEvent D) × Bool :=
  (s.getEvents reach after none none (min (limit.getD 50) 200), false)

structure Client (D : Type) where
  received : List (VibeEvent D)
  stopped : Bool
  deriving DecidableEq

structure Session (ι D : Type) where
  store : EventStore D
  ended : Bool
  clients : ι → Client D

inductive Move (ι V : Type)
  | publish (reach reachAppend : Reach) (runId newId now : String) (e : Payload V)
  /-- The run ends: nothing is published from here on. -/
  | finish
  | poll (c : ι) (reach : Reach) (limit : ℤ)

namespace Session

/-- What a poll of a client returns. -/
def page (s : Session ι D) (c : ι) (reach : Reach) (limit : ℤ) : List (VibeEvent D) :=
  (getRunEvents s.store reach ((s.clients c).received.getLast?.map VibeEvent.eventId) (some limit)).1

variable [DecidableEq ι]

def poll (s : Session ι D) (c : ι) (reach : Reach) (limit : ℤ) : Session ι D :=
  if (s.clients c).stopped then s
  else
    let page := s.page c reach limit
    { s with clients := Function.update s.clients c ⟨(s.clients c).received ++ page, s.ended && page.isEmpty⟩ }

def step (P : Pydantic V D) (s : Session ι D) : Move ι V → Session ι D
  | .publish reach reachAppend runId newId now e =>
      if s.ended then s else { s with store := s.store.publish P reach reachAppend runId newId now e }
  | .finish => { s with ended := true }
  | .poll c reach limit => s.poll c reach limit

omit [DecidableEq ι] in
def start (withRedis : Bool) : Session ι D := ⟨.empty withRedis, false, fun _ => ⟨[], false⟩⟩

end Session

end

end CryptoAggHarmonic.Vibe
