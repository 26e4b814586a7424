import CryptoAggHarmonic.Vibe.Lemmas.Polling
import CryptoAggHarmonic.Vibe.Run

/-!
# The chat

`vibeChatReducer` of `lib/vibe/event-reducer.ts` and the polling of `hooks/use-vibe.ts`, against the event store and the
status of a run. What the user sees of the answer is what the reducer makes of the events that the polls have brought.
-/

namespace CryptoAggHarmonic.Vibe.Chat

open EventStore (afterId)

/-! ## The reducer -/

inductive Role
  | user
  | assistant
  | tool
  | system
  deriving DecidableEq, Repr

structure ToolCall where
  id : String
  name : String
  arguments : String
  deriving DecidableEq

structure Message (D : Type) where
  id : String
  role : Role
  runId : Option String := none
  content : Option String := none
  toolCalls : Option (List ToolCall) := none
  toolCallId : Option String := none
  toolName : Option String := none
  toolInput : Option D := none
  toolOutputSummary : Option D := none
  eventId : Option String := none

structure ApiError where
  code : String
  message : String
  retryable : Bool
  deriving DecidableEq

/-- `VibeChatState` -/
structure ChatState (D : Type) where
  messages : List (Message D)
  loading : Bool
  error : Option ApiError
  currentRunId : Option String

def initialState {D : Type} : ChatState D := ⟨[], false, none, none⟩

section

variable {D : Type} (stringify : D → String)

/-- `m.tool_calls?.some((tc) => tc.id === callId)` -/
def Message.makes (callId : String) (m : Message D) : Bool := m.toolCalls.any fun calls => calls.any (·.id = callId)

/-- The first element that is found is replaced. -/
def updateFirst {α : Type} (p : α → Bool) (f : α → α) : List α → List α
  | [] => []
  | x :: xs => if p x then f x :: xs else x :: updateFirst p f xs

def toolStart (e : VibeEvent D) (callId tool : String) (input : D) : Message D where
  id := "tool-" ++ e.eventId
  role := .tool
  runId := some e.runId
  toolCalls := if callId = "" then none else some [⟨callId, tool, stringify input⟩]
  toolName := some tool
  toolInput := some input
  eventId := some e.eventId

def toolEnd (e : VibeEvent D) (callId tool : String) (output : D) : Message D where
  id := "tool-" ++ e.eventId
  role := .tool
  runId := some e.runId
  toolCallId := some callId
  toolName := some tool
  toolOutputSummary := some output
  eventId := some e.eventId

def Message.finish (e : VibeEvent D) (output : D) (m : Message D) : Message D :=
  { m with toolOutputSummary := some output, eventId := some e.eventId }

/-- A delta goes to the last message where that is one of the assistant. -/
def appendDelta (messages : List (Message D)) (e : VibeEvent D) (content : String) : List (Message D) :=
  match messages.getLast? with
  | some last =>
      if last.role = .assistant ∧ last.toolCalls = none then
        messages.dropLast ++ [{ last with content := some (last.content.getD "" ++ content) }]
      else messages ++ [fresh]
  | none => messages ++ [fresh]
where
  fresh : Message D :=
    { id := "assistant-" ++ e.eventId, role := .assistant, runId := some e.runId, content := some content,
      eventId := some e.eventId }

/-- `APPEND_EVENT` -/
def appendEvent (s : ChatState D) (e : VibeEvent D) : ChatState D :=
  match e.body with
  | .runStarted _ => { s with currentRunId := some e.runId, loading := true, error := none }
  | .toolCallStart callId tool input => { s with messages := s.messages ++ [toolStart stringify e callId tool input] }
  | .toolCallEnd callId tool output =>
      if s.messages.any (Message.makes callId) then
        { s with messages := updateFirst (Message.makes callId) (Message.finish e output) s.messages }
      else { s with messages := s.messages ++ [toolEnd e callId tool output] }
  | .delta content => { s with messages := appendDelta s.messages e content }
  -- the payload is not kept
  | .card _ _ => { s with messages := s.messages ++ [
      { id := "card-" ++ e.eventId, role := .assistant, runId := some e.runId, eventId := some e.eventId }] }
  | .done .. => { s with loading := false, currentRunId := none }
  | .error code message retryable =>
      { s with loading := false, currentRunId := none, error := some ⟨code, message, retryable⟩ }

inductive Action (D : Type)
  | reset
  | addMessage (message : Message D)
  | setError (error : ApiError)
  | startRun (runId : String)
  | appendEvent (event : VibeEvent D)

def vibeChatReducer (s : ChatState D) : Action D → ChatState D
  | .reset => initialState
  | .addMessage message => { s with messages := s.messages ++ [message] }
  | .setError error => { s with error := some error, loading := false }
  | .startRun runId => { s with currentRunId := some runId, loading := true, error := none }
  | .appendEvent event => appendEvent stringify s event

/-! ## The polls -/

/-- Why there is no other poll. -/
inductive Stop
  | error
  | status (status : RunStatus)
  | silence
  deriving DecidableEq

/-- `startPolling`, between two polls. -/
structure Poller (D : Type) where
  chat : ChatState D
  lastEventId : Option String
  emptyCount : ℕ
  stop : Option Stop

/-- `status === "completed" || status === "failed" || status === "cancelled"` -/
def terminal (status : RunStatus) : Bool := status = .completed || status = .failed || status = .cancelled

/-- The event that the client makes up at the end. -/
def doneEvent (runId : String) : VibeEvent D where
  eventId := "done-" ++ runId
  runId := runId
  ts := ""
  seq := none
  body := .done none none none none

/-- `tick` with an answer. -/
def Poller.answered (p : Poller D) (runId : String) (status : RunStatus) (events : List (VibeEvent D)) : Poller D :=
  let chat := events.foldl (appendEvent stringify) p.chat
  let emptyCount := if events.isEmpty then p.emptyCount + 1 else 0
  { chat := if status = .completed then appendEvent stringify chat (doneEvent runId) else chat
    lastEventId := (events.getLast?.map VibeEvent.eventId).or p.lastEventId
    emptyCount := emptyCount
    stop := if terminal status then some (.status status) else if emptyCount > 120 then some .silence else none }

/-- `tick` with an error. -/
def Poller.failed (p : Poller D) (error : ApiError) : Poller D :=
  { p with chat := vibeChatReducer stringify p.chat (.setError error), stop := some .error }

/-! ## The agent -/

/-- `_split_content` -/
def splitContent (text : List Char) (chunkSize : ℕ) : List (List Char) :=
  (List.range ((text.length + chunkSize - 1) / chunkSize)).map fun i => (text.drop (chunkSize * i)).take chunkSize

structure Call (D : Type) where
  callId : String
  tool : String
  input : D
  output : D

/-- `_execute_tool` -/
def Call.bodies (c : Call D) : List (EventBody D) :=
  [.toolCallStart c.callId c.tool c.input, .toolCallEnd c.callId c.tool c.output]

/-- What a run that completes publishes up to its status. -/
def runBodies (calls : List (Call D)) (finalContent : List Char) (cards : List (String × D)) : List (EventBody D) :=
  .runStarted "running" :: (calls.flatMap Call.bodies ++
    ((splitContent finalContent 6).map fun chunk => .delta (String.ofList chunk)) ++
      cards.map fun card => .card card.1 card.2)

/-- A run that completes, and what it stores: the event of its end comes after the status. -/
structure CompletedRun (D : Type) where
  id : String
  calls : List (Call D)
  finalContent : List Char
  cards : List (String × D)
  events : List (VibeEvent D)
  done : VibeEvent D
  bodies : events.map VibeEvent.body = runBodies calls finalContent cards
  done_body : ∃ status input output duration, done.body = .done status input output duration
  distinct : (ids (events ++ [done])).Nodup

inductive Write (D : Type)
  | event (e : VibeEvent D)
  | status (status : RunStatus)

def CompletedRun.writes (run : CompletedRun D) : List (Write D) :=
  run.events.map .event ++ [.status .completed, .event run.done]

/-! ## The system -/

structure Web (D : Type) where
  store : EventStore D
  status : RunStatus
  /-- What the agent has still to write. -/
  agent : List (Write D)
  client : Poller D
  /-- The status that the request under way has read. -/
  asked : Option RunStatus

inductive Move
  | write
  /-- `get_run_events` reads the status, and then the events. -/
  | ask
  | answer
  | fail (error : ApiError)

namespace Web

def write (w : Web D) : Web D :=
  match w.agent with
  | [] => w
  | .event e :: agent => { w with store := w.store.command .answers fun b => b.append e, agent := agent }
  | .status status :: agent => { w with status := status, agent := agent }

/-- The events of the answer to a poll. -/
def page (w : Web D) : List (VibeEvent D) := (getRunEvents w.store .answers w.client.lastEventId none).1

def step (runId : String) (w : Web D) : Move → Web D
  | .write => w.write
  | .ask => if w.client.stop = none ∧ w.asked = none then { w with asked := some w.status } else w
  | .answer =>
      match w.asked with
      | some status => { w with client := w.client.answered stringify runId status w.page, asked := none }
      | none => w
  | .fail error =>
      if w.asked.isSome then { w with client := w.client.failed stringify error, asked := none } else w

/-- The run has been started for a chat. -/
def start (withRedis : Bool) (run : CompletedRun D) (chat : ChatState D) : Web D where
  store := .empty withRedis
  status := .running
  agent := run.writes
  client := ⟨vibeChatReducer stringify chat (.startRun run.id), none, 0, none⟩
  asked := none

end Web

end

/-! ## The text of the assistant -/

section

variable {D : Type} {stringify : D → String} {e : VibeEvent D} {es : List (VibeEvent D)} {s : ChatState D}
  {messages : List (Message D)}

def Message.text (m : Message D) : List Char := if m.role = .assistant then (m.content.getD "").toList else []

/-- What the user reads of the assistant. -/
def shownText (messages : List (Message D)) : List Char := messages.flatMap Message.text

/-- The chunk of the answer that an event brings. -/
def chunk? : EventBody D → Option (List Char)
  | .delta content => some content.toList
  | _ => none

def chunks (es : List (VibeEvent D)) : List (List Char) := es.filterMap fun e => chunk? e.body

def textOf (es : List (VibeEvent D)) : List Char := (chunks es).flatten

@[simp] theorem textOf_nil : textOf ([] : List (VibeEvent D)) = [] := rfl

@[simp] theorem chunks_append {fs : List (VibeEvent D)} : chunks (es ++ fs) = chunks es ++ chunks fs := by
  simp [chunks]

@[simp] theorem textOf_append {fs : List (VibeEvent D)} : textOf (es ++ fs) = textOf es ++ textOf fs := by
  simp [textOf]

theorem textOf_singleton : textOf [e] = (chunk? e.body).getD [] := by
  cases h : chunk? e.body <;> simp [textOf, chunks, h]

@[simp] theorem shownText_append {more : List (Message D)} :
    shownText (messages ++ more) = shownText messages ++ shownText more := by
  simp [shownText]

theorem flatMap_updateFirst {α β : Type} {p : α → Bool} {f : α → α} {g : α → List β} (h : ∀ x, g (f x) = g x)
    (xs : List α) : (updateFirst p f xs).flatMap g = xs.flatMap g := by
  induction xs with
  | nil => rfl
  | cons x xs ih =>
      rw [updateFirst]
      split_ifs
      · simp [h]
      · simp [ih]

/-- A delta is put behind what is shown, in the last message or in one of its own. -/
theorem shownText_appendDelta {content : String} :
    shownText (appendDelta messages e content) = shownText messages ++ content.toList := by
  have hfresh : shownText [appendDelta.fresh e content] = content.toList := by
    simp [shownText, Message.text, appendDelta.fresh]
  unfold appendDelta
  cases hlast : messages.getLast? with
  | none => rw [shownText_append, hfresh]
  | some last =>
      dsimp only
      split_ifs with hassistant
      · obtain ⟨earlier, rfl⟩ := List.getLast?_eq_some_iff.mp hlast
        rw [List.dropLast_concat, shownText_append, shownText_append, List.append_assoc]
        simp [shownText, Message.text, hassistant.1]
      · rw [shownText_append, hfresh]

theorem shownText_appendEvent :
    shownText (appendEvent stringify s e).messages = shownText s.messages ++ textOf [e] := by
  rw [textOf_singleton]
  unfold appendEvent
  cases e.body with
  | delta content => exact shownText_appendDelta
  | toolCallStart callId tool input => simp [shownText, Message.text, toolStart, chunk?]
  | toolCallEnd callId tool output =>
      dsimp only
      split_ifs
      · simp only [chunk?, Option.getD_none, List.append_nil]
        exact flatMap_updateFirst (f := Message.finish e output) (fun _ => rfl) _
      · simp [shownText, Message.text, toolEnd, chunk?]
  | card cardType payload => simp [shownText, Message.text, chunk?]
  | runStarted => simp [chunk?]
  | done => simp [chunk?]
  | error => simp [chunk?]

theorem shownText_foldl :
    shownText (es.foldl (appendEvent stringify) s).messages = shownText s.messages ++ textOf es := by
  induction es generalizing s with
  | nil => simp
  | cons e es ih =>
      have happend : textOf (e :: es) = textOf [e] ++ textOf es := by
        rw [← textOf_append, List.singleton_append]
      rw [List.foldl_cons, ih, shownText_appendEvent, List.append_assoc, ← happend]

/-! ## The chunks -/

theorem flatten_slices (text : List Char) (k n : ℕ) :
    ((List.range n).map fun i => (text.drop (k * i)).take k).flatten = text.take (k * n) := by
  induction n with
  | zero => simp
  | succ n ih =>
      rw [List.range_succ, List.map_append, List.flatten_append, ih, List.map_singleton, List.flatten_singleton,
        Nat.mul_succ, List.take_add]

/-- The chunks are the text. -/
theorem flatten_splitContent (text : List Char) {chunkSize : ℕ} (h : 0 < chunkSize) :
    (splitContent text chunkSize).flatten = text := by
  rw [splitContent, flatten_slices, List.take_of_length_le]
  have := Nat.div_add_mod (text.length + chunkSize - 1) chunkSize
  have := Nat.mod_lt (text.length + chunkSize - 1) h
  omega

theorem CompletedRun.chunks_events (run : CompletedRun D) :
    chunks (run.events ++ [run.done]) = splitContent run.finalContent 6 := by
  obtain ⟨status, input, output, duration, hdone⟩ := run.done_body
  have hbodies : chunks run.events = (run.events.map VibeEvent.body).filterMap chunk? := by
    simp [chunks, List.filterMap_map]
  have hcalls : (run.calls.flatMap Call.bodies).filterMap chunk? = [] := by
    rw [List.filterMap_eq_nil_iff]
    intro body hbody
    obtain ⟨call, -, hcall⟩ := List.mem_flatMap.mp hbody
    simp only [Call.bodies, List.mem_cons, List.not_mem_nil, or_false] at hcall
    obtain rfl | rfl := hcall <;> rfl
  have hdeltas : ((splitContent run.finalContent 6).map fun chunk => (EventBody.delta (String.ofList chunk) :
      EventBody D)).filterMap chunk? = splitContent run.finalContent 6 := by
    rw [List.filterMap_map]
    simp [Function.comp_def, chunk?]
  have hcards : (run.cards.map fun card => (EventBody.card card.1 card.2 : EventBody D)).filterMap chunk? = [] := by
    rw [List.filterMap_map, List.filterMap_eq_nil_iff]
    exact fun _ _ => rfl
  have hlast : chunks [run.done] = [] := by simp [chunks, hdone, chunk?]
  rw [chunks_append, hbodies, run.bodies, runBodies, hlast, List.filterMap_cons_none rfl, List.filterMap_append,
    List.filterMap_append, hcalls, hdeltas, hcards, List.nil_append, List.append_nil, List.append_nil]

theorem CompletedRun.textOf_events (run : CompletedRun D) : textOf (run.events ++ [run.done]) = run.finalContent := by
  rw [textOf, run.chunks_events, flatten_splitContent _ (by decide)]

theorem CompletedRun.textOf_done (run : CompletedRun D) : textOf [run.done] = [] := by
  obtain ⟨status, input, output, duration, hdone⟩ := run.done_body
  simp [textOf_singleton, hdone, chunk?]

end

/-! ## What a poll passes over -/

section

variable {D : Type} {stringify : D → String} {w : Web D} {run : CompletedRun D} {chat : ChatState D}
  {read rest got : List (VibeEvent D)}

/-- What the client has not read, by its cursor. -/
def Web.unread (w : Web D) : List (VibeEvent D) :=
  match w.client.lastEventId with
  | some id => afterId id w.store.visible
  | none => w.store.visible

/-- What comes before the page: a poll with a cursor takes the last events. -/
def Web.before (w : Web D) : List (VibeEvent D) :=
  if w.client.lastEventId.isSome then w.unread.take (w.unread.length - 50) else []

/-- What comes behind the page: a poll without a cursor takes the first events. -/
def Web.behind (w : Web D) : List (VibeEvent D) := if w.client.lastEventId.isSome then [] else w.unread.drop 50

/-- The events that no other poll gives to the client. -/
def Web.passedOver (w : Web D) : List (VibeEvent D) :=
  w.before ++ if w.asked = some .completed then w.behind else []

/-- No chunk of the answer is passed over. -/
def KeepsChunks (w : Web D) : Move → Prop
  | .answer => w.asked.isSome → textOf w.passedOver = []
  | _ => True

theorem page_eq (hread : read ++ rest = w.store.visible) (hnodup : (ids w.store.visible).Nodup)
    (hcursor : w.client.lastEventId = read.getLast?.map VibeEvent.eventId) :
    w.unread = rest ∧ w.before ++ w.page ++ w.behind = rest ∧ (w.page = [] → rest = []) := by
  cases hlast : read.getLast? with
  | none =>
      rw [hlast, Option.map_none] at hcursor
      obtain rfl := List.getLast?_eq_none_iff.mp hlast
      have hunread : w.unread = rest := by rw [Web.unread, hcursor, ← hread, List.nil_append]
      have hpage : w.page = rest.take 50 := by
        rw [Web.page, hcursor, getRunEvents, EventStore.getEvents, Option.getD_none]
        have hfetch : w.store.fetchRange .answers 0 (min 50 200) = (w.store.visible.drop (0 : ℤ).toNat).take 50 :=
          EventStore.fetchRange_eq (le_refl 0) (by omega)
        rw [← hread, List.nil_append] at hfetch
        exact hfetch
      refine ⟨hunread, ?_, fun hnil => by simpa [hpage] using hnil⟩
      rw [Web.before, Web.behind, hunread, hpage, hcursor]
      simp
  | some last =>
      rw [hlast, Option.map_some] at hcursor
      have hafter : afterId last.eventId w.store.visible = rest := afterId_received hnodup hread hlast
      have hunread : w.unread = rest := by
        rw [Web.unread, hcursor]
        exact hafter
      have hpage : w.page = rest.drop (rest.length - 50) := by
        have hall : w.store.fetchAll .answers = w.store.visible := rfl
        rw [Web.page, hcursor, getRunEvents, EventStore.getEvents, hall, hafter]
        exact pySlice_last (k := 50) (by omega)
      refine ⟨hunread, ?_, fun hnil => ?_⟩
      · rw [Web.before, Web.behind, hunread, hpage, hcursor]
        simp
      · rw [hpage, List.drop_eq_nil_iff] at hnil
        exact List.length_eq_zero_iff.mp (by omega)

/-! ## What stays true -/

/-- How far the agent is. -/
inductive AgentAt (run : CompletedRun D) (w : Web D) : Prop
  | publishing (left : List (VibeEvent D)) (hagent : w.agent = left.map .event ++ [.status .completed, .event run.done])
      (hstore : w.store.visible ++ left = run.events) (hstatus : w.status = .running)
  | settled (hagent : w.agent = [.event run.done]) (hstore : w.store.visible = run.events)
      (hstatus : w.status = .completed)
  | ended (hagent : w.agent = []) (hstore : w.store.visible = run.events ++ [run.done])
      (hstatus : w.status = .completed)

theorem AgentAt.client (h : AgentAt run w) (client : Poller D) (asked : Option RunStatus) :
    AgentAt run { w with client := client, asked := asked } := by
  cases h with
  | publishing left hagent hstore hstatus => exact .publishing left hagent hstore hstatus
  | settled hagent hstore hstatus => exact .settled hagent hstore hstatus
  | ended hagent hstore hstatus => exact .ended hagent hstore hstatus

theorem AgentAt.visible (h : AgentAt run w) : w.store.visible <+: run.events ++ [run.done] := by
  cases h with
  | publishing left hagent hstore hstatus =>
      rw [← hstore, List.append_assoc]
      exact List.prefix_append _ _
  | settled hagent hstore hstatus => exact hstore ▸ List.prefix_append _ _
  | ended hagent hstore hstatus => exact hstore ▸ List.prefix_rfl

theorem AgentAt.nodup (h : AgentAt run w) : (ids w.store.visible).Nodup := by
  obtain ⟨tail, htail⟩ := h.visible
  have hdistinct := run.distinct
  rw [← htail, ids, List.map_append] at hdistinct
  exact (List.nodup_append.mp hdistinct).1

/-- Everything with a chunk is there when the status says so. -/
theorem AgentAt.textOf_visible (h : AgentAt run w) (hstatus : w.status = .completed) :
    textOf w.store.visible = run.finalContent := by
  have htext := run.textOf_events
  cases h with
  | publishing left hagent hstore hrunning => rw [hrunning] at hstatus; cases hstatus
  | settled hagent hstore _ => rw [hstore, ← htext, textOf_append, run.textOf_done, List.append_nil]
  | ended hagent hstore _ => rw [hstore, htext]

/-- The client has read up to a point, and shows a part of what is there, in its order. -/
structure Follows (run : CompletedRun D) (chat : ChatState D) (w : Web D) : Prop where
  agent : AgentAt run w
  reads : ∃ read rest got, read ++ rest = w.store.visible ∧ got.Sublist read ∧
    w.client.lastEventId = read.getLast?.map VibeEvent.eventId ∧
      shownText w.client.chat.messages = shownText chat.messages ++ textOf got
  asked : ∀ status, w.asked = some status → w.client.stop = none ∧
    (status = .running ∨ status = .completed ∧ w.status = .completed)
  stopped : ∀ status, w.client.stop = some (.status status) →
    w.status = .completed ∧ w.client.chat.loading = false ∧ w.client.chat.currentRunId = none

/-- What is shown with what is to be read is all there is, and a client that stops on the end has read all of it. -/
def Complete (chat : ChatState D) (w : Web D) : Prop :=
  shownText w.client.chat.messages ++ textOf w.unread = shownText chat.messages ++ textOf w.store.visible ∧
    (w.client.stop = some (.status .completed) → textOf w.unread = [])

/-! ## One step -/

theorem Follows.unread_eq (h : Follows run chat w) : ∃ read got, read ++ w.unread = w.store.visible ∧ got.Sublist read ∧
    w.client.lastEventId = read.getLast?.map VibeEvent.eventId ∧
      shownText w.client.chat.messages = shownText chat.messages ++ textOf got := by
  obtain ⟨read, rest, got, hread, hgot, hcursor, hshown⟩ := h.reads
  obtain ⟨hunread, -⟩ := page_eq hread h.agent.nodup hcursor
  exact ⟨read, got, hunread ▸ hread, hgot, hcursor, hshown⟩

theorem length_textOf_le (h : got.Sublist read) : (textOf got).length ≤ (textOf read).length :=
  (List.Sublist.flatten (h.filterMap _)).length_le

/-- An event that is stored is one that is still to be read. -/
theorem unread_append {e : VibeEvent D} {w' : Web D} (h : Follows run chat w) (hagent : AgentAt run w')
    (hstore : w'.store.visible = w.store.visible ++ [e]) (hclient : w'.client = w.client) :
    w'.unread = w.unread ++ [e] := by
  obtain ⟨read, got, hread, -, hcursor, -⟩ := h.unread_eq
  rw [← hclient] at hcursor
  have hread' : read ++ (w.unread ++ [e]) = w'.store.visible := by rw [hstore, ← hread, List.append_assoc]
  exact (page_eq hread' hagent.nodup hcursor).1

theorem AgentAt.write (h : AgentAt run w) : AgentAt run w.write ∧ w.write.client = w.client ∧ w.write.asked = w.asked ∧
    (w.status = .completed → w.write.status = .completed) ∧
    (w.write.store.visible = w.store.visible ∨ ∃ e, w.write.store.visible = w.store.visible ++ [e] ∧
      (w.status = .completed → e = run.done)) := by
  cases h with
  | publishing left hagent hstore hstatus =>
      cases left with
      | nil =>
          have hwrite : w.write = { w with status := .completed, agent := [.event run.done] } := by
            rw [Web.write, hagent]
            rfl
          rw [List.append_nil] at hstore
          rw [hwrite]
          exact ⟨.settled rfl hstore rfl, rfl, rfl, fun _ => rfl, .inl rfl⟩
      | cons e left =>
          have hwrite : w.write = { w with
              store := w.store.command .answers fun b => b.append e
              agent := left.map .event ++ [.status .completed, .event run.done] } := by
            rw [Web.write, hagent]
            rfl
          have hvisible := (EventStore.append_visible (s := w.store) (v := e) (.inr rfl)).1
          rw [hwrite]
          refine ⟨.publishing left rfl ?_ hstatus, rfl, rfl, id, .inr ⟨e, hvisible, fun hdone => ?_⟩⟩
          · rw [← hstore]
            simp [hvisible]
          · rw [hstatus] at hdone
            cases hdone
  | settled hagent hstore hstatus =>
      have hwrite : w.write = { w with
          store := w.store.command .answers fun b => b.append run.done
          agent := [] } := by
        rw [Web.write, hagent]
      have hvisible := (EventStore.append_visible (s := w.store) (v := run.done) (.inr rfl)).1
      rw [hwrite]
      refine ⟨.ended rfl (hvisible.trans ?_) hstatus, rfl, rfl, id, .inr ⟨run.done, hvisible, fun _ => rfl⟩⟩
      rw [hstore]
  | ended hagent hstore hstatus =>
      have hwrite : w.write = w := by rw [Web.write, hagent]
      rw [hwrite]
      exact ⟨.ended hagent hstore hstatus, rfl, rfl, id, .inl rfl⟩

theorem Follows.write (h : Follows run chat w) :
    Follows run chat w.write ∧ (Complete chat w.write ↔ Complete chat w) := by
  obtain ⟨hagent, hclient, hasked, hstatus, hstore⟩ := h.agent.write
  have hkept : ∀ rest' : List (VibeEvent D), (∃ read got, read ++ rest' = w.write.store.visible ∧ got.Sublist read ∧
      w.client.lastEventId = read.getLast?.map VibeEvent.eventId ∧
        shownText w.client.chat.messages = shownText chat.messages ++ textOf got) → Follows run chat w.write := by
    rintro rest' ⟨read, got, hread, hgot, hcursor, hshown⟩
    refine ⟨hagent, ⟨read, rest', got, hread, hgot, hclient ▸ hcursor, hclient ▸ hshown⟩, fun status hask => ?_,
      fun status hstop => ?_⟩
    · obtain ⟨hstop, hdone⟩ := h.asked status (hasked ▸ hask)
      exact ⟨hclient ▸ hstop, hdone.imp_right fun hdone => ⟨hdone.1, hstatus hdone.2⟩⟩
    · obtain ⟨hdone, hquiet⟩ := h.stopped status (hclient ▸ hstop)
      exact ⟨hstatus hdone, hclient ▸ hquiet⟩
  obtain ⟨read, got, hread, hgot, hcursor, hshown⟩ := h.unread_eq
  obtain hsame | ⟨e, happend, hdone⟩ := hstore
  · refine ⟨hkept w.unread ⟨read, got, hsame ▸ hread, hgot, hcursor, hshown⟩, ?_⟩
    have hunread : w.write.unread = w.unread := by rw [Web.unread, Web.unread, hclient, hsame]
    rw [Complete, Complete, hunread, hclient, hsame]
  · have hunread := unread_append h hagent happend hclient
    refine ⟨hkept (w.unread ++ [e]) ⟨read, got, ?_, hgot, hcursor, hshown⟩, ?_⟩
    · rw [happend, ← hread, List.append_assoc]
    · rw [Complete, Complete, hunread, hclient, happend, textOf_append, textOf_append, ← List.append_assoc,
        ← List.append_assoc, List.append_left_inj]
      refine and_congr_right fun _ => forall_congr' fun hstop => ?_
      rw [hdone (h.stopped _ hstop).1, run.textOf_done, List.append_nil]

variable (stringify) in
/-- What an answer does: the page is shown, and what is behind it is to be read. -/
theorem Follows.answered (h : Follows run chat w) {status : RunStatus} (hasked : w.asked = some status) :
    let w' : Web D := { w with client := w.client.answered stringify run.id status w.page, asked := none }
    Follows run chat w' ∧ (Complete chat w' ↔ Complete chat w ∧ textOf w.passedOver = []) := by
  intro w'
  obtain ⟨read, got, hread, hgot, hcursor, hshown⟩ := h.unread_eq
  obtain ⟨-, hpage, hnothing⟩ := page_eq hread h.agent.nodup hcursor
  obtain ⟨hrunning, hstatus⟩ := h.asked status hasked
  have hagent : AgentAt run w' := h.agent.client _ _
  have hshown' : shownText w'.client.chat.messages = shownText chat.messages ++ textOf (got ++ w.page) := by
    have hfold : shownText (w.page.foldl (appendEvent stringify) w.client.chat).messages =
        shownText chat.messages ++ textOf (got ++ w.page) := by
      rw [shownText_foldl, hshown, textOf_append, List.append_assoc]
    simp only [w', Poller.answered]
    split_ifs
    · exact hfold
    · exact hfold
  have hread' : read ++ w.before ++ w.page ++ w.behind = w'.store.visible := by
    show _ = w.store.visible
    rw [← hread, ← hpage, List.append_assoc, List.append_assoc, List.append_assoc]
  have hgot' : (got ++ w.page).Sublist (read ++ w.before ++ w.page) :=
    (hgot.trans (List.sublist_append_left _ _)).append_right _
  have hcursor' : w'.client.lastEventId = (read ++ w.before ++ w.page).getLast?.map VibeEvent.eventId := by
    show (w.page.getLast?.map VibeEvent.eventId).or w.client.lastEventId = _
    cases hlast : w.page.getLast? with
    | some last => simp [List.getLast?_append, hlast]
    | none =>
        -- an empty page is all there is
        have hnil : w.page = [] := List.getLast?_eq_none_iff.mp hlast
        rw [hnothing hnil] at hpage
        obtain ⟨hfront, -⟩ := List.append_eq_nil_iff.mp hpage
        simp [hnil, (List.append_eq_nil_iff.mp hfront).1, hcursor]
  have hunread' : w'.unread = w.behind := (page_eq hread' hagent.nodup hcursor').1
  have hstop' : ∀ st, w'.client.stop = some (.status st) → status = .completed := by
    intro st hstop
    rcases hstatus with rfl | ⟨rfl, -⟩
    · have hterminal : terminal .running = false := rfl
      simp only [w', Poller.answered, hterminal, Bool.false_eq_true, if_false] at hstop
      split_ifs at hstop <;> cases hstop
    · rfl
  have hended : w'.client.stop = some (.status .completed) ↔ status = .completed :=
    ⟨hstop' _, fun heq => by subst heq; rfl⟩
  refine ⟨⟨hagent, ⟨_, _, _, hread', hgot', hcursor', hshown'⟩, nofun, fun st hstop => ?_⟩, ?_⟩
  · have hdone := hstop' st hstop
    subst hdone
    exact ⟨(hstatus.resolve_left nofun).2, rfl, rfl⟩
  · have hle := length_textOf_le hgot
    have hpassed : textOf w.passedOver = [] ↔ textOf w.before = [] ∧ (status = .completed → textOf w.behind = []) := by
      rw [Web.passedOver, hasked]
      by_cases hdone : status = .completed <;> simp [hdone]
    have hstored : textOf w.store.visible = textOf read ++ textOf w.before ++ textOf w.page ++ textOf w.behind := by
      rw [← hread, ← hpage]
      simp
    have hvisible : w'.store.visible = w.store.visible := rfl
    rw [Complete, Complete, hunread', hended, hrunning, hshown', hshown, hvisible, hstored, hpassed, ← hpage]
    simp only [textOf_append, reduceCtorEq, false_implies, and_true, ← List.append_assoc, List.append_left_inj]
    constructor
    · rintro ⟨hsame, hbehind⟩
      have hlength := congrArg List.length hsame
      simp only [List.length_append] at hlength
      have hbefore : textOf w.before = [] := List.length_eq_zero_iff.mp (by omega)
      rw [hbefore, List.append_nil] at hsame
      exact ⟨hsame, hbefore, hbehind⟩
    · rintro ⟨hsame, hbefore, hbehind⟩
      exact ⟨by rw [hbefore, List.append_nil, hsame], hbehind⟩

theorem Follows.step (h : Follows run chat w) (m : Move) : Follows run chat (w.step stringify run.id m) ∧
    (Complete chat (w.step stringify run.id m) ↔ Complete chat w ∧ KeepsChunks w m) := by
  cases m with
  | write =>
      obtain ⟨hfollows, hcomplete⟩ := h.write
      exact ⟨hfollows, hcomplete.trans (and_iff_left trivial).symm⟩
  | ask =>
      rw [Web.step]
      split_ifs with hfree
      · refine ⟨⟨h.agent.client _ _, h.reads, fun status hask => ?_, h.stopped⟩, (and_iff_left trivial).symm⟩
        obtain rfl := Option.some.inj hask
        refine ⟨hfree.1, ?_⟩
        cases h.agent with
        | publishing left hagent hstore hstatus => exact .inl hstatus
        | settled hagent hstore hstatus => exact .inr ⟨hstatus, hstatus⟩
        | ended hagent hstore hstatus => exact .inr ⟨hstatus, hstatus⟩
      · exact ⟨h, (and_iff_left trivial).symm⟩
  | answer =>
      rw [Web.step, KeepsChunks]
      cases hasked : w.asked with
      | none => exact ⟨h, (and_iff_left nofun).symm⟩
      | some status =>
          obtain ⟨hfollows, hcomplete⟩ := h.answered stringify hasked
          exact ⟨hfollows, hcomplete.trans (by simp)⟩
  | fail error =>
      rw [Web.step]
      split_ifs with hasked
      · obtain ⟨status, hstatus⟩ := Option.isSome_iff_exists.mp hasked
        refine ⟨⟨h.agent.client _ _, h.reads, nofun, nofun⟩, ?_⟩
        have hrunning := (h.asked status hstatus).1
        refine Iff.trans ?_ (and_iff_left trivial).symm
        exact and_congr_right fun _ => iff_of_true nofun (by simp [hrunning])
      · exact ⟨h, (and_iff_left trivial).symm⟩

variable (stringify) in
theorem follows_start (withRedis : Bool) (run : CompletedRun D) (chat : ChatState D) :
    Follows run chat (Web.start stringify withRedis run chat) ∧
      Complete chat (Web.start stringify withRedis run chat) := by
  have hempty : (EventStore.empty (D := D) withRedis).visible = [] := by cases withRedis <;> rfl
  refine ⟨⟨.publishing run.events rfl (by rw [Web.start, hempty, List.nil_append]) rfl, ?_, nofun, nofun⟩, ?_, nofun⟩
  · exact ⟨[], [], [], hempty.symm, .slnil, rfl, (List.append_nil _).symm⟩
  · rw [Web.unread]
    simp [Web.start, vibeChatReducer]

/-! ## Every run -/

/-- **The answer in the chat.** However the agent's writes and the two reads of the polls are interleaved, the chat
shows chunks of the answer in their order, each once at most. A client that stops since the run has completed shows the
whole answer exactly when no poll has passed over a chunk: a page takes the last fifty events behind the cursor, and the
first fifty without one. -/
theorem answer_shown_iff (withRedis : Bool) (run : CompletedRun D) (chat : ChatState D) (moves : List Move) :
    let f := Web.step stringify run.id
    let first := Web.start stringify withRedis run chat
    let last := Steps.run f first moves
    (∃ shown : List (List Char), shown.Sublist (splitContent run.finalContent 6) ∧
      shownText last.client.chat.messages = shownText chat.messages ++ shown.flatten) ∧
    (last.client.stop = some (.status .completed) → last.client.chat.loading = false ∧
      (shownText last.client.chat.messages = shownText chat.messages ++ run.finalContent ↔
        Steps.Along f KeepsChunks first moves)) := by
  intro f first last
  obtain ⟨hfirst, hcomplete⟩ := follows_start stringify withRedis run chat
  have hlast : Follows run chat last := Steps.run_kept (I := Follows run chat) (fun w m h => (h.step m).1) hfirst
  obtain ⟨read, got, hread, hgot, -, hshown⟩ := hlast.unread_eq
  refine ⟨⟨chunks got, ?_, hshown⟩, fun hstop => ⟨?_, ?_⟩⟩
  · rw [← run.chunks_events]
    have hsublist : got.Sublist (run.events ++ [run.done]) :=
      (hgot.trans (hread ▸ List.sublist_append_left _ _)).trans hlast.agent.visible.sublist
    exact hsublist.filterMap _
  · exact (hlast.stopped _ hstop).2.1
  · have halways : Steps.Along f (fun _ _ => True) first moves := Steps.along_iff.mpr fun _ _ _ _ => trivial
    have hiff : Complete chat last ↔ Complete chat first ∧ Steps.Along f KeepsChunks first moves :=
      Steps.run_iff_along (fun _ m h _ => (h.step m).1) (fun _ m h _ => (h.step m).2) hfirst halways
    have hstored : textOf last.store.visible = run.finalContent := hlast.agent.textOf_visible (hlast.stopped _ hstop).1
    rw [← (hiff.trans (and_iff_right hcomplete)), Complete, hstored]
    constructor
    · intro hwhole
      have hlength := congrArg List.length hwhole
      rw [hshown, ← hstored, ← hread, textOf_append] at hlength
      simp only [List.length_append] at hlength
      have hle := length_textOf_le hgot
      have hunread : textOf last.unread = [] := List.length_eq_zero_iff.mp (by omega)
      exact ⟨by rw [hunread, List.append_nil, hwhole], fun _ => hunread⟩
    · rintro ⟨hsame, hunread⟩
      rwa [hunread hstop, List.append_nil] at hsame

end

/-! ## The outputs of the tools -/

section

variable {D : Type} {stringify : D → String} {s : ChatState D} {messages : List (Message D)} {m : Message D}
  {e : VibeEvent D} {callId : String} {output : D}

/-- A call of a tool, with its two events. -/
structure PublishedCall (D : Type) extends Call D where
  start : VibeEvent D
  finish : VibeEvent D
  start_body : start.body = .toolCallStart callId tool input
  finish_body : finish.body = .toolCallEnd callId tool output

def PublishedCall.events (c : PublishedCall D) : List (VibeEvent D) := [c.start, c.finish]

/-- The message of a call whose end has been found. -/
def PublishedCall.card (stringify : D → String) (c : PublishedCall D) : Message D :=
  (toolStart stringify c.start c.callId c.tool c.input).finish c.finish c.output

/-- The calls have ids, each its own, that no message has. -/
def OwnIds (messages : List (Message D)) (calls : List (PublishedCall D)) : Prop :=
  (∀ c ∈ calls, c.callId ≠ "" ∧ ∀ m ∈ messages, m.makes c.callId = false) ∧ (calls.map (·.callId)).Nodup

/-- What a message shows of its call. -/
def Message.shows (m : Message D) : Option String × Option D × Option D :=
  (m.toolName, m.toolInput, m.toolOutputSummary)

theorem makes_toolStart {e : VibeEvent D} {id tool : String} {input : D} :
    (toolStart stringify e id tool input).makes callId = true ↔ id ≠ "" ∧ id = callId := by
  by_cases hempty : id = "" <;> simp [Message.makes, toolStart, hempty]

theorem makes_finish : (m.finish e output).makes callId = m.makes callId := rfl

theorem updateFirst_append {α : Type} {p : α → Bool} {f : α → α} {xs : List α} {x : α} (hxs : ∀ y ∈ xs, p y = false)
    (hx : p x = true) : updateFirst p f (xs ++ [x]) = xs ++ [f x] := by
  induction xs with
  | nil => simp [updateFirst, hx]
  | cons y xs ih =>
      rw [List.cons_append, updateFirst, hxs y List.mem_cons_self, if_neg Bool.false_ne_true,
        ih fun z hz => hxs z (List.mem_cons_of_mem _ hz), List.cons_append]

theorem updateFirst_getElem? {α : Type} (p : α → Bool) (f : α → α) (xs : List α) (i : ℕ) :
    (updateFirst p f xs)[i]? = xs[i]? ∨
      ∃ x, xs[i]? = some x ∧ p x = true ∧ (updateFirst p f xs)[i]? = some (f x) ∧ ∀ j < i, ∀ y, xs[j]? = some y →
        p y = false := by
  induction xs generalizing i with
  | nil => exact .inl rfl
  | cons x xs ih =>
      rw [updateFirst]
      split_ifs with hx
      · cases i with
        | zero => exact .inr ⟨x, rfl, hx, rfl, fun j hj => absurd hj (Nat.not_lt_zero j)⟩
        | succ i => exact .inl rfl
      · cases i with
        | zero => exact .inl rfl
        | succ i =>
            rcases ih i with hsame | ⟨y, hy, hp, hf, hfirst⟩
            · exact .inl hsame
            · refine .inr ⟨y, hy, hp, hf, fun j hj z hz => ?_⟩
              cases j with
              | zero =>
                  cases hz
                  simpa using hx
              | succ j => exact hfirst j (Nat.lt_of_succ_lt_succ hj) z hz

/-- A message without an output that no end finds: what it calls, an earlier message calls. -/
def Stuck (messages : List (Message D)) (i : ℕ) : Prop :=
  ∃ m, messages[i]? = some m ∧ m.toolOutputSummary = none ∧
    ∀ id, m.makes id = true → ∃ j < i, ∃ m', messages[j]? = some m' ∧ m'.makes id = true

theorem getElem?_append_some {α : Type} {xs : List α} {i : ℕ} {x : α} (h : xs[i]? = some x) (more : List α) :
    (xs ++ more)[i]? = some x := by
  obtain ⟨hi, -⟩ := List.getElem?_eq_some_iff.mp h
  rw [List.getElem?_append_left hi, h]

theorem Stuck.append {i : ℕ} (h : Stuck messages i) (more : List (Message D)) : Stuck (messages ++ more) i := by
  obtain ⟨m, hm, hnone, hearlier⟩ := h
  refine ⟨m, getElem?_append_some hm more, hnone, fun id hid => ?_⟩
  obtain ⟨j, hj, m', hm', hmakes⟩ := hearlier id hid
  exact ⟨j, hj, m', getElem?_append_some hm' more, hmakes⟩

theorem Stuck.updateFirst {i : ℕ} (h : Stuck messages i) :
    Stuck (updateFirst (Message.makes callId) (Message.finish e output) messages) i := by
  obtain ⟨m, hm, hnone, hearlier⟩ := h
  refine ⟨m, ?_, hnone, fun id hid => ?_⟩
  · rcases updateFirst_getElem? (Message.makes callId) (Message.finish e output) messages i with
      hsame | ⟨x, hx, hp, -, hfirst⟩
    · rw [hsame, hm]
    · -- an earlier message is found before this one
      rw [hm] at hx
      cases hx
      obtain ⟨j, hj, m', hm', hmakes⟩ := hearlier callId hp
      rw [hfirst j hj m' hm'] at hmakes
      cases hmakes
  · obtain ⟨j, hj, m', hm', hmakes⟩ := hearlier id hid
    rcases updateFirst_getElem? (Message.makes callId) (Message.finish e output) messages j with
      hsame | ⟨x, hx, -, hf, -⟩
    · exact ⟨j, hj, m', hsame.trans hm', hmakes⟩
    · rw [hm'] at hx
      cases hx
      exact ⟨j, hj, m'.finish e output, hf, hmakes⟩

variable {c : PublishedCall D} {calls : List (PublishedCall D)}

theorem messages_start : (appendEvent stringify s c.start).messages =
    s.messages ++ [toolStart stringify c.start c.callId c.tool c.input] := by
  rw [appendEvent, c.start_body]

theorem messages_finish : (appendEvent stringify s c.finish).messages =
    if s.messages.any (Message.makes c.callId) then
      updateFirst (Message.makes c.callId) (Message.finish c.finish c.output) s.messages
    else s.messages ++ [toolEnd c.finish c.callId c.tool c.output] := by
  rw [appendEvent, c.finish_body]
  dsimp only
  split_ifs <;> rfl

theorem Stuck.finish {i : ℕ} (h : Stuck s.messages i) : Stuck (appendEvent stringify s c.finish).messages i := by
  rw [messages_finish]
  split_ifs
  · exact h.updateFirst
  · exact h.append _

theorem Stuck.call {i : ℕ} (h : Stuck s.messages i) :
    Stuck (c.events.foldl (appendEvent stringify) s).messages i := by
  refine Stuck.finish ?_
  rw [messages_start]
  exact h.append _

theorem Stuck.allCalls {i : ℕ} (h : Stuck s.messages i) :
    Stuck ((calls.flatMap PublishedCall.events).foldl (appendEvent stringify) s).messages i := by
  induction calls generalizing s with
  | nil => exact h
  | cons c calls ih =>
      rw [List.flatMap_cons, List.foldl_append]
      exact ih h.call

variable (stringify) in
theorem messages_own (hid : c.callId ≠ "") (hfresh : ∀ m ∈ s.messages, m.makes c.callId = false) :
    (c.events.foldl (appendEvent stringify) s).messages = s.messages ++ [c.card stringify] := by
  have hstart : (toolStart stringify c.start c.callId c.tool c.input).makes c.callId = true :=
    makes_toolStart.mpr ⟨hid, rfl⟩
  rw [PublishedCall.events, List.foldl_cons, List.foldl_cons, List.foldl_nil, messages_finish, messages_start,
    if_pos (by simp [hstart]), updateFirst_append hfresh hstart, PublishedCall.card]

/-- The message of a call without an id of its own never gets the output. -/
theorem stuck_of_not_own (h : ¬(c.callId ≠ "" ∧ ∀ m ∈ s.messages, m.makes c.callId = false)) :
    Stuck (c.events.foldl (appendEvent stringify) s).messages s.messages.length := by
  refine Stuck.finish ?_
  rw [messages_start]
  refine ⟨_, List.getElem?_concat_length, rfl, fun id hmakes => ?_⟩
  obtain ⟨hid, rfl⟩ := makes_toolStart.mp hmakes
  simp only [hid, ne_eq, not_false_eq_true, true_and, not_forall, Bool.not_eq_false] at h
  obtain ⟨m, hm, hmakes⟩ := h
  obtain ⟨j, hj, hjm⟩ := List.mem_iff_getElem.mp hm
  exact ⟨j, hj, m, by rw [List.getElem?_append_left hj, List.getElem?_eq_getElem hj, hjm], hmakes⟩

variable (stringify) in
theorem ownIds_cons : OwnIds messages (c :: calls) ↔
    (c.callId ≠ "" ∧ ∀ m ∈ messages, m.makes c.callId = false) ∧ OwnIds (messages ++ [c.card stringify]) calls := by
  have hcard : ∀ id, (c.card stringify).makes id = false ↔ ¬(c.callId ≠ "" ∧ c.callId = id) := fun id => by
    rw [← Bool.not_eq_true, PublishedCall.card, makes_finish]
    exact not_congr makes_toolStart
  simp only [OwnIds, List.forall_mem_cons, List.map_cons, List.nodup_cons, List.mem_map, not_exists, not_and,
    List.forall_mem_append, List.mem_nil_iff, false_implies, implies_true, and_true, hcard]
  constructor
  · rintro ⟨⟨hown, hcalls⟩, hnew, hnodup⟩
    exact ⟨hown, fun d hd => ⟨(hcalls d hd).1, (hcalls d hd).2, fun _ heq => hnew d hd heq.symm⟩, hnodup⟩
  · rintro ⟨hown, hcalls, hnodup⟩
    exact ⟨⟨hown, fun d hd => ⟨(hcalls d hd).1, (hcalls d hd).2.1⟩⟩,
      fun d hd heq => (hcalls d hd).2.2 hown.1 heq.symm, hnodup⟩

theorem messages_calls (h : OwnIds s.messages calls) :
    ((calls.flatMap PublishedCall.events).foldl (appendEvent stringify) s).messages =
      s.messages ++ calls.map (PublishedCall.card stringify) := by
  induction calls generalizing s with
  | nil => simp
  | cons c calls ih =>
      obtain ⟨⟨hid, hfresh⟩, hrest⟩ := (ownIds_cons stringify).mp h
      have hone := messages_own stringify hid hfresh
      rw [List.flatMap_cons, List.foldl_append, ih (hone ▸ hrest), hone, List.append_assoc]
      rfl

variable (stringify) in
theorem stuck_of_not_ownIds (h : ¬OwnIds s.messages calls) : ∃ i ≥ s.messages.length,
    Stuck ((calls.flatMap PublishedCall.events).foldl (appendEvent stringify) s).messages i := by
  induction calls generalizing s with
  | nil =>
      have hnone : OwnIds s.messages ([] : List (PublishedCall D)) := ⟨by simp, List.nodup_nil⟩
      exact absurd hnone h
  | cons c calls ih =>
      rw [List.flatMap_cons, List.foldl_append]
      by_cases hown : c.callId ≠ "" ∧ ∀ m ∈ s.messages, m.makes c.callId = false
      · have hone := messages_own stringify hown.1 hown.2
        have hrest : ¬OwnIds (c.events.foldl (appendEvent stringify) s).messages calls := fun hrest =>
          h ((ownIds_cons stringify).mpr ⟨hown, hone ▸ hrest⟩)
        obtain ⟨i, hi, hstuck⟩ := ih hrest
        rw [hone, List.length_append] at hi
        exact ⟨i, by omega, hstuck⟩
      · exact ⟨_, le_refl _, (stuck_of_not_own hown).allCalls⟩

/-- **The outputs in the chat.** Every call of a tool gets a message of its own with its output, and no other message
changes, exactly when the calls have ids, all different, that no message of the conversation has. -/
theorem outputs_shown_iff (stringify : D → String) (s : ChatState D) (calls : List (PublishedCall D)) :
    (∃ cards : List (Message D),
      ((calls.flatMap PublishedCall.events).foldl (appendEvent stringify) s).messages = s.messages ++ cards ∧
        cards.map Message.shows = calls.map fun c => (some c.tool, some c.input, some c.output)) ↔
      OwnIds s.messages calls := by
  constructor
  · rintro ⟨cards, hmessages, hshows⟩
    by_contra hnot
    obtain ⟨i, hi, m, hm, hnone, -⟩ := stuck_of_not_ownIds stringify hnot
    rw [hmessages, List.getElem?_append_right hi] at hm
    have hmem : m.shows ∈ cards.map Message.shows := List.mem_map_of_mem (List.mem_of_getElem? hm)
    rw [hshows] at hmem
    obtain ⟨c, -, hc⟩ := List.mem_map.mp hmem
    simp [Message.shows, hnone] at hc
  · intro h
    refine ⟨_, messages_calls h, ?_⟩
    rw [List.map_map]
    rfl

end

end CryptoAggHarmonic.Vibe.Chat
