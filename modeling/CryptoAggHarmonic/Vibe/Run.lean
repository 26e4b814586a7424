import CryptoAggHarmonic.Lib.Steps
import CryptoAggHarmonic.Quota.Ledger

/-!
# A run of the assistant

`send_message` after its reservation, the agent in the place it runs in, and the requests that cancel the run, one step
at a time in any order. What everything outside does is the reply to a step. Without RQ the agent runs in a thread of
the process that serves the message; a request that fails to hear from RQ can leave it running in both.
-/

namespace CryptoAggHarmonic.Vibe

open Sql Quota

inductive RunStatus
  | running
  | completed
  | completedWithLimit
  | failed
  | cancelled
  deriving DecidableEq, Repr

/-- The job of the run in RQ. -/
inductive Job
  | absent
  | queued
  | started
  | cancelled
  deriving DecidableEq, Repr

inductive Place
  | rq
  | thread
  deriving DecidableEq, Repr

inductive Happening
  /-- A request to cancel the run has answered that it is. -/
  | answered
  | check (place : Place)
  /-- A call of the model or of a tool. -/
  | call (place : Place)
  deriving DecidableEq, Repr

structure Shared where
  books : Books
  /-- The status in the store, once there is a record. -/
  record : Option RunStatus
  job : Job
  /-- The thread has been started, with or without a Redis client in its token. -/
  thread : Option Bool
  /-- The event of the thread, while it is registered. -/
  localEvent : Option Bool
  cancelKey : Bool
  /-- The message of the assistant is stored. -/
  received : Bool
  /-- The latest first. -/
  history : List Happening

/-- What becomes of a call of a database function. -/
inductive Rpc
  | done
  /-- It takes place, and raises. -/
  | lost
  | unreachable
  deriving DecidableEq, Repr

def Rpc.lands : Rpc → Bool
  | .unreachable => false
  | _ => true

/-- How the attempt to enqueue the job ends. -/
inductive Enqueue
  | enqueued
  | connectionError (persisted threadStarts : Bool)
  | otherError (persisted : Bool)
  deriving DecidableEq, Repr

/-- What the outside does during a step. A step uses what concerns it. -/
structure Reply where
  /-- The process ends. -/
  killed : Bool
  raises : Bool
  /-- The write to the session store takes place. -/
  stored : Bool
  redis : Bool
  rpc : Rpc
  enqueue : Enqueue
  /-- The tool calls in the response of the model. -/
  toolCalls : ℕ
  inputTokens : ℤ
  outputTokens : ℤ
  jobFound : Bool
  /-- The request is served by the process of the thread. -/
  sameProcess : Bool

structure Config where
  maxIterations : ℕ
  ledgerId : Option Uuid

namespace Shared

/-- `update_run`: nothing where there is no record. -/
def updateRun (s : Shared) (stored : Bool) (status : RunStatus) : Shared :=
  if stored then { s with record := s.record.map fun _ => status } else s

/-- `x or None` -/
def orNone (x : ℤ) : Option ℤ := if x = 0 then none else some x

def consume (s : Shared) (config : Config) (rpc : Rpc) (inputTokens outputTokens : ℤ) : Shared :=
  match config.ledgerId with
  | some id =>
      if rpc.lands then { s with books := s.books.consume id (orNone inputTokens) (orNone outputTokens) none } else s
  | none => s

def release (s : Shared) (config : Config) (rpc : Rpc) : Shared :=
  match config.ledgerId with
  | some id => if rpc.lands then { s with books := s.books.release id } else s
  | none => s

def log (s : Shared) (h : Happening) : Shared := { s with history := h :: s.history }

/-- `CancellationToken.is_set` -/
def isSet (s : Shared) (place : Place) (token redis : Bool) : Bool :=
  (place = .thread && s.localEvent = some true) || (token && redis && s.cancelKey)

end Shared

/-! ## `send_message` -/

inductive SenderPhase
  | create
  | enqueue
  | fail
  | release
  | ended
  deriving DecidableEq, Repr

def send (config : Config) (r : Reply) (s : Shared) (phase : SenderPhase) : Shared × SenderPhase :=
  if r.killed then (s, .ended)
  else
    match phase with
    | .create =>
        if r.raises then (s, .ended) else ({ s with record := if r.stored then some .running else none }, .enqueue)
    | .enqueue =>
        match r.enqueue with
        | .enqueued => ({ s with job := .queued }, .ended)
        | .connectionError persisted threadStarts =>
            ({ s with
              job := if persisted then .queued else s.job
              localEvent := some false
              thread := if threadStarts then some r.redis else s.thread }, .ended)
        | .otherError persisted => ({ s with job := if persisted then .queued else s.job }, .fail)
    | .fail => if r.raises then (s, .ended) else (s.updateRun r.stored .failed, .release)
    | .release => (s.release config r.rpc, .ended)
    | .ended => (s, .ended)

/-! ## The agent -/

inductive Outcome
  | completed
  | completedWithLimit
  | failed
  deriving DecidableEq, Repr

def Outcome.status : Outcome → RunStatus
  | .completed => .completed
  | .completedWithLimit => .completedWithLimit
  | .failed => .failed

inductive WorkerPhase
  | idle
  | building
  | prologue
  | check (iteration : ℕ)
  | chat (iteration : ℕ)
  /-- `left` tool calls of the response come after this one. -/
  | checkTool (iteration left : ℕ)
  | executeTool (iteration left : ℕ)
  | publishError
  | settle (outcome : Outcome)
  | deliver (outcome : Outcome) (consumed : Bool)
  | updateRun (outcome : Outcome) (consumed : Bool)
  | saveTrace (outcome : Outcome) (consumed : Bool)
  | consumeAgain (consumed : Bool)
  | unregister
  | ended
  deriving DecidableEq, Repr

structure Worker where
  phase : WorkerPhase
  /-- Its token has a Redis client. -/
  token : Bool
  inputTokens : ℤ
  outputTokens : ℤ
  deriving DecidableEq

def Worker.idle : Worker := ⟨.idle, false, 0, 0⟩

def Worker.to (w : Worker) (phase : WorkerPhase) : Worker := { w with phase := phase }

/-- The next round of the loop, or its `else` clause. -/
def Config.round (config : Config) (iteration : ℕ) : WorkerPhase :=
  if iteration < config.maxIterations then .check iteration else .settle .completedWithLimit

def work (config : Config) (place : Place) (r : Reply) (s : Shared) (w : Worker) : Shared × Worker :=
  match w.phase with
  | .idle =>
      match place with
      | .rq => if s.job = .queued then ({ s with job := .started }, ⟨.building, r.redis, 0, 0⟩) else (s, w)
      | .thread =>
          match s.thread with
          | some token => (s, ⟨.building, token, 0, 0⟩)
          | none => (s, w)
  | .ended => (s, w)
  | phase =>
      if r.killed then (s, w.to .ended)
      else
        match phase with
        -- `run_vibe_agent` up to its `try`
        | .building => (s, w.to (if r.raises then .ended else .prologue))
        | .prologue => (s, w.to (if r.raises then .unregister else config.round 0))
        | .check iteration =>
            (s.log (.check place), w.to (
              if r.raises || s.isSet place w.token r.redis then .publishError else .chat iteration))
        | .chat iteration =>
            let w := { w with
              inputTokens := w.inputTokens + r.inputTokens
              outputTokens := w.outputTokens + r.outputTokens }
            (s.log (.call place), w.to (
              if r.raises then .publishError
              else
                match r.toolCalls with
                | 0 => .settle .completed
                | left + 1 => .checkTool iteration left))
        | .checkTool iteration left =>
            (s.log (.check place), w.to (
              if r.raises || s.isSet place w.token r.redis then .publishError else .executeTool iteration left))
        | .executeTool iteration left =>
            (s.log (.call place), w.to (
              if r.raises then .publishError
              else
                match left with
                | 0 => config.round (iteration + 1)
                | left + 1 => .checkTool iteration left))
        | .publishError => (s, w.to (if r.raises then .unregister else .settle .failed))
        | .settle .failed => (s.release config r.rpc, w.to (if r.raises then .unregister else .deliver .failed false))
        | .settle outcome =>
            (s.consume config r.rpc w.inputTokens w.outputTokens,
              w.to (if r.raises then .unregister else .deliver outcome (r.rpc = .done)))
        | .deliver .failed consumed => (s, w.to (.updateRun .failed consumed))
        | .deliver outcome consumed =>
            ({ s with received := s.received || r.stored },
              w.to (if r.raises then .unregister else .updateRun outcome consumed))
        | .updateRun outcome consumed =>
            if r.raises then (s, w.to .unregister)
            else (s.updateRun r.stored outcome.status, w.to (.saveTrace outcome consumed))
        | .saveTrace outcome consumed =>
            (s, w.to (if r.raises || outcome = .failed then .unregister else .consumeAgain consumed))
        -- what comes after, the event of the end and the title, leaves the status and the ledger alone
        | .consumeAgain consumed =>
            (if consumed then s else s.consume config r.rpc w.inputTokens w.outputTokens, w.to .unregister)
        | .unregister =>
            ({ s with
              localEvent := if place = .thread then none else s.localEvent
              cancelKey := s.cancelKey && !r.redis }, w.to .ended)
        | .idle | .ended => (s, w)

/-! ## `DELETE /runs/<run_id>` -/

inductive CancelPhase
  | getRun
  | fetchJob
  | cancelJob
  | signal
  | cancelRun
  | answer
  | ended
  deriving DecidableEq, Repr

/-- Everything between `getRun` and the answer is in one `try`, whose exceptions are logged. -/
def cancel (r : Reply) (s : Shared) (phase : CancelPhase) : Shared × CancelPhase :=
  if r.killed then (s, .ended)
  else
    match phase with
    | .getRun => (s, if s.record.isSome && !r.raises then .fetchJob else .ended)
    | .fetchJob =>
        (s, if r.raises then .answer else if s.job ≠ .absent && r.jobFound then .cancelJob else .signal)
    -- a job is not cancelled twice; the command that stops it is sent here, and its errors are logged
    | .cancelJob => if r.raises || s.job = .cancelled then (s, .answer) else ({ s with job := .cancelled }, .signal)
    | .signal =>
        ({ s with
          localEvent := if r.sameProcess then s.localEvent.map fun _ => true else s.localEvent
          cancelKey := s.cancelKey || r.redis }, .cancelRun)
    | .cancelRun => if r.raises then (s, .answer) else (s.updateRun r.stored .cancelled, .answer)
    | .answer => (s.log .answered, .ended)
    | .ended => (s, .ended)

/-! ## The run -/

structure System (ι : Type) where
  shared : Shared
  sender : SenderPhase
  workers : Place → Worker
  cancels : ι → CancelPhase

inductive Turn (ι : Type)
  | sender (r : Reply)
  | worker (place : Place) (r : Reply)
  | cancel (c : ι) (r : Reply)

namespace System

variable {ι : Type} [DecidableEq ι]

def step (config : Config) (s : System ι) : Turn ι → System ι
  | .sender r =>
      let (shared, phase) := send config r s.shared s.sender
      { s with shared := shared, sender := phase }
  | .worker place r =>
      let (shared, w) := work config place r s.shared (s.workers place)
      { s with shared := shared, workers := Function.update s.workers place w }
  | .cancel c r =>
      let (shared, phase) := Vibe.cancel r s.shared (s.cancels c)
      { s with shared := shared, cancels := Function.update s.cancels c phase }

omit [DecidableEq ι] in
def start (books : Books) : System ι where
  shared := ⟨books, none, .absent, none, none, false, false, []⟩
  sender := .create
  workers := fun _ => .idle
  cancels := fun _ => .getRun

end System

end CryptoAggHarmonic.Vibe
