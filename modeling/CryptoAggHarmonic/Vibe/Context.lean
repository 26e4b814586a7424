import Mathlib.Data.List.DropRight

/-!
# The messages of a run

`app/services/vibe/context.py` and what the orchestrator sends to the language model: the messages of the session as the
store lists them, the older ones in a summary, and the prompt of the run.
-/

namespace CryptoAggHarmonic.Vibe

/-! ## The messages of a session -/

structure StoredMessage (τ : Type) where
  id : String
  role : Option String
  content : Option String
  toolCalls : Option τ
  toolCallId : Option String
  /-- `json.dumps(tool_output_summary or \x7b\x7d)` -/
  toolOutput : String

inductive MessageBackend
  | redis
  | memory
  | supabase
  deriving DecidableEq

/-- The messages of one session, the oldest first: in Redis or Supabase, and those in memory. -/
structure MessageStore (τ : Type) where
  backend : MessageBackend
  rows : List (StoredMessage τ)
  memory : List (StoredMessage τ)

namespace MessageStore

variable {τ : Type}

/-- `lands`: the write does not fail. Redis forgets a write that fails, Supabase leaves it to the memory. -/
def createMessage (s : MessageStore τ) (lands : Bool) (m : StoredMessage τ) : MessageStore τ :=
  match s.backend with
  | .redis => if lands then { s with rows := s.rows ++ [m] } else s
  | .memory => { s with memory := s.memory ++ [m] }
  | .supabase => if lands then { s with rows := s.rows ++ [m] } else { s with memory := s.memory ++ [m] }

/-- All messages that can be listed; `answers`: the query does not fail. -/
def messages (s : MessageStore τ) (answers : Bool) : List (StoredMessage τ) :=
  match s.backend with
  | .redis => s.rows
  | .memory => s.memory
  | .supabase => if answers then s.rows else s.memory

/-- The first page of `list_messages`. -/
def listMessages (s : MessageStore τ) (answers : Bool) (limit : ℕ) : List (StoredMessage τ) :=
  (s.messages answers).take limit

end MessageStore

/-! ## The messages of a prompt -/

inductive ChatMessage (τ : Type)
  | tool (toolCallId : Option String) (content : String)
  | assistant (content : String) (toolCalls : Option τ)
  | other (role : Option String) (content : String)
  deriving DecidableEq

variable {τ : Type}

def formatMessage (m : StoredMessage τ) : ChatMessage τ :=
  if m.role = some "tool" then .tool m.toolCallId m.toolOutput
  else if m.role = some "assistant" then .assistant (m.content.getD "") m.toolCalls
  else .other m.role (m.content.getD "")

/-- `content[:100]` -/
def excerpt (content : String) : String := String.ofList (content.toList.take 100)

def summaryPart : ChatMessage τ → Option String
  | .tool _ _ => none
  | .assistant content _ => some ("助手之前答：" ++ excerpt content)
  | .other role content => if role = some "user" then some ("用户之前问：" ++ excerpt content) else none

def summaryMessage (older : List (ChatMessage τ)) : ChatMessage τ :=
  .other (some "system") ("以下是对话历史摘要：\n" ++ "\n".intercalate (older.filterMap summaryPart))

/-- `max_recent` -/
def maxRecent : ℕ := 6

def compressMessages (messages : List (ChatMessage τ)) : List (ChatMessage τ) :=
  if messages.length ≤ maxRecent then messages
  else summaryMessage (messages.rdrop maxRecent) :: messages.rtake maxRecent

/-- `_load_history` asks for fifty messages. -/
def historyLimit : ℕ := 50

def loadHistory (s : MessageStore τ) (answers : Bool) : List (ChatMessage τ) :=
  compressMessages ((s.listMessages answers historyLimit).map formatMessage)

/-! ## The run -/

/-- What a run starts from, and how the store answers it. -/
structure PromptRun (τ : Type) where
  store : MessageStore τ
  messageId : String
  systemPrompt : String
  userPrompt : String
  lands : Bool
  answers : Bool

namespace PromptRun

variable (r : PromptRun τ)

def userMessage : StoredMessage τ where
  id := r.messageId
  role := some "user"
  content := some r.userPrompt
  toolCalls := none
  toolCallId := none
  toolOutput := "\x7b\x7d"

/-- The messages the run starts with: its own is stored before the history is loaded. -/
def messages : List (ChatMessage τ) :=
  [.other (some "system") r.systemPrompt] ++
    loadHistory (r.store.createMessage r.lands r.userMessage) r.answers ++ [.other (some "user") r.userPrompt]

end PromptRun

end CryptoAggHarmonic.Vibe
