import CryptoAggHarmonic.Analyze.Lemmas.Settlement
import CryptoAggHarmonic.Analyze.Theorems
import CryptoAggHarmonic.Vibe.Context
import CryptoAggHarmonic.Vibe.Lemmas.Cancel
import CryptoAggHarmonic.Vibe.Lemmas.Polling
import CryptoAggHarmonic.Vibe.Lemmas.Settlement

/-!
# Events, polls and cancellation

The results about runs of the assistant: what readers get of the events, what a cancellation stops, how the unit of
the run is settled.
-/

namespace CryptoAggHarmonic.Vibe

open Interleave

section

variable {ι V D : Type} [DecidableEq ι]

/-! ## The cursor -/

inductive Role (V : Type)
  | publisher (queue : List (Payload V))
  | client

def Role.start : Role V → Party V D
  | .publisher queue => .publisher none queue
  | .client => .client []

theorem Role.start_reads (role : Role V) (s : EventStore D) : role.start.Reads s := by
  cases role with
  | publisher queue => trivial
  | client => exact List.nil_prefix

/-- A new run: nothing stored, nothing received. -/
def newRun (D : Type) (withRedis : Bool) (roles : ι → Role V) : World ι (EventStore D) (Party V D) where
  shared := .empty withRedis
  procs := fun c => (roles c).start

structure CursorExact (w : World ι (EventStore D) (Party V D)) : Prop where
  cursor : ∀ s n, -1 ≤ s → 1 ≤ n → w.shared.getEvents .answers none (some s) none n =
    (Cursor.after VibeEvent.seq w.shared.stored s).take n.toNat
  /-- What a client has received and what it gets from its last seen `seq` on are the stored events. -/
  resumes : ∀ received, received = [] ∨ (∃ c, w.procs c = .client received) →
    ∀ n, 1 ≤ n → (w.shared.stored.length : ℤ) ≤ n →
      received ++ w.shared.getEvents .answers none (some (lastSeen received)) none n = w.shared.stored

omit [DecidableEq ι] in
theorem ordered_of_cursorExact {w : World ι (EventStore D) (Party V D)} (h : CursorExact w) : w.shared.Ordered := by
  have hpage : ∀ s n, -1 ≤ s → 1 ≤ n → w.shared.getEvents .answers none (some s) none n =
      (w.shared.visible.drop (s + 1).toNat).take n.toNat := fun s n hs hn =>
    EventStore.fetchRange_eq (by omega) hn
  have hsize : w.shared.stored.length = w.shared.visible.length + w.shared.hidden.length := List.length_append
  have hall : w.shared.visible = w.shared.stored := by
    have := h.resumes [] (.inl rfl) (w.shared.stored.length + 1) (by omega) (by omega)
    rw [List.nil_append, hpage _ _ (by simp [lastSeen]) (by omega)] at this
    rwa [show (lastSeen ([] : List (VibeEvent D)) + 1).toNat = 0 from rfl, List.drop_zero,
      List.take_of_length_le (by omega)] at this
  refine ⟨List.eq_nil_of_length_eq_zero ?_, Cursor.numbered_of_after fun s hs => ?_⟩
  · have := congrArg List.length hall
    omega
  · have := h.cursor s (w.shared.stored.length + 1) hs (by omega)
    rw [hpage s _ hs (by omega), List.take_of_length_le (by simp; omega), List.take_of_length_le ?_, ← hall] at this
    · exact this
    · rw [Cursor.after, List.length_mergeSort]
      have := List.length_filter_le (Cursor.past VibeEvent.seq s) w.shared.stored
      omega

/-- **The cursor.** It is exact, and its clients miss and repeat nothing, exactly when every event was stored where
events are read, with the next position for its number. -/
theorem cursor_iff (P : Pydantic V D) (runId : String) (withRedis : Bool) (roles : ι → Role V)
    (schedule : List (ι × Answer)) :
    CursorExact (run (act P runId) (newRun D withRedis roles) schedule) ↔
      Along (act P runId) (InTurn P) (newRun D withRedis roles) schedule := by
  constructor
  · exact fun h => (ordered_run.mp (ordered_of_cursorExact h)).2
  · intro h
    have hstart : Holds EventStore.Ordered Party.Reads (newRun D withRedis roles) :=
      ⟨EventStore.ordered_empty _, fun c => (roles c).start_reads _⟩
    obtain ⟨hordered, hreads⟩ := run_invariant (fun _ _ h hok => reads_step h hok) hstart h
    have hall : (run (act P runId) (newRun D withRedis roles) schedule).shared.stored =
        (run (act P runId) (newRun D withRedis roles) schedule).shared.visible := by
      rw [EventStore.stored, hordered.hidden, List.append_nil]
    refine ⟨fun s n hs hn => ?_, fun received hclient n hn hsize => ?_⟩
    · rw [hall, hordered.numbered.after hs]
      exact EventStore.fetchRange_eq (by omega) hn
    · have hprefix : received <+: (run (act P runId) (newRun D withRedis roles) schedule).shared.visible := by
        rcases hclient with rfl | ⟨c, hc⟩
        · exact List.nil_prefix
        · have := hreads c
          rwa [hc] at this
      have hseen := hordered.lastSeen hprefix
      have hpage := EventStore.fetchRange_eq (s := (run (act P runId) (newRun D withRedis roles) schedule).shared)
        (by omega : 0 ≤ lastSeen received + 1) hn
      obtain ⟨rest, hrest⟩ := hprefix
      rw [hall] at hsize ⊢
      rw [EventStore.getEvents, hpage, show (lastSeen received + 1).toNat = received.length by omega, ← hrest,
        List.drop_left, List.take_of_length_le]
      rw [← hrest, List.length_append] at hsize
      omega

/-! ### Two publishers, and a dropped event -/

inductive Plain
  | none
  | int (i : ℤ)
  | str (s : String)
  deriving DecidableEq

def Plain.str? : Plain → Option String
  | .str s => some s
  | _ => Option.none

def Plain.int? : Plain → Option ℤ
  | .int i => some i
  | _ => Option.none

def plain : Pydantic Plain Unit where
  ofStr := .str
  ofInt := .int
  isNone := fun v => v = .none
  falsy := fun v => v ∈ [.none, .int 0, .str ""]
  literal := Plain.str?
  str := Plain.str?
  int := Plain.int?
  bool := fun v => v.int?.bind fun i => if i = 0 then some false else if i = 1 then some true else none
  dict := fun _ => none

def delta (id content : String) : Payload Plain :=
  [("event_id", .str id), ("type", .str "delta"), ("content", .str content)]

/-- An error event without its code. -/
def malformed : Payload Plain := [("event_id", .str "e0"), ("type", .str "error"), ("message", .str "timeout")]

def now : Answer := ⟨.answers, "evt_0", "2026-09-01T00:00:00+00:00", 50⟩

/-- The second of two publishers appends first. -/
def crossed : List (Bool × Answer) := [(false, now), (true, now), (true, now), (false, now)]

/-- A publisher whose first event is dropped. -/
def afterDrop : List (Bool × Answer) := [(false, now), (false, now), (false, now), (false, now)]

theorem cursor_not_exact :
    ¬ CursorExact (run (act plain "run") (newRun Unit true fun c =>
      .publisher [delta (if c then "e2" else "e1") "text"]) crossed) ∧
    ¬ CursorExact (run (act plain "run") (newRun Unit true fun _ : Bool =>
      .publisher [malformed, delta "e1" "text"]) afterDrop) := by
  constructor
  · intro h
    exact absurd ((ordered_of_cursorExact h).numbered 0 _ rfl) (by decide)
  · intro h
    exact absurd ((ordered_of_cursorExact h).numbered 0 _ rfl) (by decide)

/-! ## Polls -/

omit [DecidableEq ι] in
theorem start_sound (withRedis : Bool) : (Session.start (ι := ι) (D := D) withRedis).Sound where
  hidden := (EventStore.ordered_empty withRedis).hidden
  nodup := by cases withRedis <;> exact List.nodup_nil
  known := fun _ _ he => nomatch he
  ended := fun _ h => nomatch h

omit [DecidableEq ι] in
theorem start_delivered (withRedis : Bool) : (Session.start (ι := ι) (D := D) withRedis).Delivered := fun _ =>
  ⟨List.nil_prefix, fun h => nomatch h⟩

/-- **Polls.** Every client has the stored events in their order, and all of them when it stops, exactly when every
poll with an id takes all that is new. -/
theorem polling_iff (P : Pydantic V D) (withRedis : Bool) (moves : List (Move ι V))
    (h : Steps.Along (Session.step P) (Regular P) (Session.start withRedis) moves) :
    (Steps.run (Session.step P) (Session.start withRedis) moves).Delivered ↔
      Steps.Along (Session.step P) Fits (Session.start withRedis) moves := by
  rw [Steps.run_iff_along (I := Session.Sound) (P := Session.Delivered) (fun _ _ hs hok => (hs.step hok).1)
    (fun _ _ hs hok => (hs.step hok).2) (start_sound withRedis) h]
  exact and_iff_right (start_delivered withRedis)

def published (id : String) : Move Unit Plain :=
  .publish .answers .answers "run" "evt_0" "2026-09-01T00:00:00+00:00" (delta id "text")

def polled (limit : ℤ) : Move Unit Plain := .poll () .answers limit

/-- Two events come between two polls that take two. -/
def paced : List (Move Unit Plain) :=
  [published "e1", polled 2, published "e2", published "e3", polled 2, .finish, polled 2]

theorem paced_delivered : (Steps.run (Session.step plain) (.start true) paced).Delivered :=
  (polling_iff plain true paced (by decide)).mpr (by decide)

/-- Two events come between two polls that take one. -/
def burst : List (Move Unit Plain) :=
  [published "e1", polled 1, published "e2", published "e3", polled 1, .finish, polled 1]

theorem burst_skips : ¬ (Steps.run (Session.step plain) (.start true) burst).Delivered := fun h =>
  absurd (h ()).begins (by decide)

end

/-! ## Cancellation -/

section

open Sql Quota

variable {ι : Type} [DecidableEq ι]

/-- **Cancellation.** In a run of effective steps a cancelled run stays cancelled from the answer on, and an agent that
checks after it calls nothing any more. -/
theorem cancellation_firm (config : Config) (books : Books) (turns : List (Turn ι))
    (h : Steps.Along (System.step config) Effective (System.start books) turns) :
    Steps.Always (System.step config) (fun s => Cancelled s.shared) (System.start books) turns :=
  Steps.always_of_along (fun _ hs => hs.cancelled) (fun _ _ hs hok => hs.step hok) (firm_start books) h

def calmReply : Reply where
  killed := false
  raises := false
  stored := true
  redis := true
  rpc := .done
  enqueue := .enqueued
  toolCalls := 0
  inputTokens := 1200
  outputTokens := 300
  jobFound := true
  sameProcess := true

def noBooks : Books := ⟨⟨.empty, .empty⟩, []⟩

def tenRounds (ledgerId : Option Uuid) : Config := ⟨10, ledgerId⟩

def sent (r : Reply) : List (Turn Unit) := [.sender r, .sender r]

/-- The agent up to its loop. -/
def entered (place : Place) (r : Reply) : List (Turn Unit) := List.replicate 3 (.worker place r)

/-- A request to cancel the run that nothing goes wrong with. -/
def cancelledCalmly : List (Turn Unit) := List.replicate 6 (.cancel () calmReply)

/-- The agent is stopped by RQ after its check. -/
def stoppedByRq : List (Turn Unit) :=
  sent calmReply ++ entered .rq calmReply ++ cancelledCalmly ++
    [.worker .rq calmReply, .worker .rq { calmReply with killed := true }]

theorem stoppedByRq_firm : Steps.Always (System.step (tenRounds none)) (fun s => Cancelled s.shared)
    (System.start noBooks) stoppedByRq :=
  cancellation_firm (tenRounds none) noBooks stoppedByRq (by decide)

def withoutRedis : Reply := { calmReply with redis := false, enqueue := .connectionError false true }

/-- Redis is down: the agent runs in a thread, and the request to cancel gets as far as RQ. -/
def fallback : List (Turn Unit) :=
  sent withoutRedis ++ entered .thread withoutRedis ++
    [.cancel () withoutRedis, .cancel () { withoutRedis with raises := true }, .cancel () withoutRedis,
      .worker .thread withoutRedis, .worker .thread withoutRedis]

/-- The agent finds the signal and writes its own status. -/
def overwritten : List (Turn Unit) :=
  sent calmReply ++ entered .rq calmReply ++ cancelledCalmly ++ List.replicate 5 (.worker .rq calmReply)

theorem cancellation_not_firm :
    ¬ Steps.Always (System.step (tenRounds none)) (fun s => Cancelled s.shared) (System.start noBooks) fallback ∧
    ¬ Steps.Always (System.step (tenRounds none)) (fun s => Cancelled s.shared) (System.start noBooks)
      overwritten := by
  constructor
  · intro h
    exact absurd (h.run.status (by decide)) (by decide)
  · intro h
    exact absurd (h.run.status (by decide)) (by decide)

/-! ## Settlement -/

open Analyze in
/-- **Settlement.** The entry of an analysis is settled by its outcome exactly when the request learns of it, the
settlement takes place and nothing raises after a consumption. That of a run is, when the conditions on its steps are
met. -/
theorem quota_settled {κ : Type} [DecidableEq κ] (latest : List LedgerRow → Option LedgerRow) (o : Uuid) :
    (∀ (config : CacheConfig) (s : State κ) (env : Env κ) (userId : Uuid) (req : AnalyzeRequest),
      (∀ row, (analyze config latest s env userId req).1 ≠ .replayed row) → env.localDevMode = false →
      (s.reservation latest env userId req).2.own = some o → (∀ e ∈ s.books.settlements, e.1 ≠ o) →
      ((analyze config latest s env userId req).2.books.Settled o (analyze config latest s env userId req).1.settlesAs ↔
        SettlesOwn env (s.reservation latest env userId req).2 o)) ∧
    ∀ (db : Db) (args : ReserveArgs) (attempts : List Attempt) (remaining : ℤ) (ledgerId : Option Uuid)
      (maxIterations : ℕ) (turns : List (Turn ι)),
      (reserveAll latest db args attempts).2.own = some o →
      (reserveAll latest db args attempts).2.phase = .returned true remaining ledgerId → ledgerId = some o →
      Steps.Along (System.step ⟨maxIterations, ledgerId⟩) (Settling o)
        (System.start ⟨(reserveAll latest db args attempts).1, []⟩) turns →
      Steps.Always (System.step ⟨maxIterations, ledgerId⟩) (SettledAtEnd o)
        (System.start ⟨(reserveAll latest db args attempts).1, []⟩) turns := by
  refine ⟨fun _ _ _ _ _ hfresh hmode hown hnew => analyze_settled_iff hfresh hmode hown hnew,
    fun db args attempts remaining ledgerId maxIterations turns hown _ hledger hok => ?_⟩
  have hopen : Books.Open ⟨(reserveAll latest db args attempts).1, []⟩ o :=
    ⟨(reserveAll_holding o hown).1, fun _ he => nomatch he⟩
  exact Steps.always_of_along (fun _ hs => hs.settledAtEnd) (fun _ _ hs hok => hs.step hledger hok)
    (course_start hopen) hok

def newest : List LedgerRow → Option LedgerRow := List.argmax LedgerRow.createdAt

/-- One unit reserved, with the id 20. -/
def oneReserved : Db × Request :=
  reserveAll newest Analyze.oneQuota ⟨1, none, 1, "default"⟩ [.reply 0 20 20, .reply 0 20 20]

/-- A run that comes to its end. -/
def finished : List (Turn Unit) := sent calmReply ++ entered .rq calmReply ++ List.replicate 8 (.worker .rq calmReply)

open Analyze in
theorem calm_settled :
    (analyze ⟨60, 1024⟩ newest (.start oneQuota) (calm 10 20) 1 (keyed 10 20).req).2.books.Settled 20 .consumed ∧
    Steps.Always (System.step (tenRounds (some 20))) (SettledAtEnd 20) (System.start ⟨oneReserved.1, []⟩) finished := by
  have h := quota_settled (ι := Unit) (κ := Unit) newest 20
  constructor
  · exact (h.1 ⟨60, 1024⟩ (.start oneQuota) (calm 10 20) 1 (keyed 10 20).req (fun _ hr => nomatch hr) rfl (by decide)
      (by decide)).mpr ⟨⟨_, rfl⟩, rfl⟩
  · exact h.2 oneQuota ⟨1, none, 1, "default"⟩ [.reply 0 20 20, .reply 0 20 20] _ (some 20) 10 finished (by decide)
      rfl rfl (by decide)

/-- What comes after the consumption raises. -/
def raisesLate : Analyze.Env Unit := { Analyze.calm 10 20 with respond := .raises }

/-- The job is cancelled before it starts. -/
def cancelledInQueue : List (Turn Unit) := sent calmReply ++ cancelledCalmly

open Analyze in
theorem unit_not_settled :
    ¬ (analyze ⟨60, 1024⟩ newest (.start oneQuota) raisesLate 1 (keyed 10 20).req).2.books.Settled 20
      (analyze ⟨60, 1024⟩ newest (.start oneQuota) raisesLate 1 (keyed 10 20).req).1.settlesAs ∧
    ¬ Steps.Always (System.step (tenRounds (some 20))) (SettledAtEnd 20) (System.start ⟨oneReserved.1, []⟩)
      cancelledInQueue := by
  constructor
  · intro h
    exact absurd (h.only (20, .consumed) (by decide) rfl) (by decide)
  · intro h
    have hended : Ended (Steps.run (System.step (tenRounds (some 20))) (System.start ⟨oneReserved.1, []⟩)
        cancelledInQueue) :=
      ⟨by decide, by decide, by decide, fun place => by cases place <;> decide⟩
    exact absurd (h.run.settled hended).status (by decide)

end

/-! ## The prompt of a run -/

section

variable {τ : Type} {r : PromptRun τ} {m fresh : StoredMessage τ} {ms before : List (StoredMessage τ)}

/-- A message of the prompt, with where it comes from. -/
inductive Entry (τ : Type)
  | system (text : String)
  | summary (older : List (StoredMessage τ))
  | stored (m : StoredMessage τ)
  | current (prompt : String)

namespace Entry

def render : Entry τ → ChatMessage τ
  | system text => .other (some "system") text
  | summary older => summaryMessage (older.map formatMessage)
  | stored m => formatMessage m
  | current prompt => .other (some "user") prompt

/-- A message that is kept as it is stored. -/
def stored? : Entry τ → Option (StoredMessage τ)
  | stored m => some m
  | _ => none

/-- The entry has the message of the run. -/
def Has (fresh : StoredMessage τ) : Entry τ → Bool
  | system _ => false
  | summary older => older.any fun m => m.id = fresh.id
  | stored m => m.id = fresh.id
  | current _ => true

end Entry

/-- `compress_messages`, by where the messages come from. -/
def compressed (ms : List (StoredMessage τ)) : List (Entry τ) :=
  if ms.length ≤ maxRecent then ms.map .stored else .summary (ms.rdrop maxRecent) :: (ms.rtake maxRecent).map .stored

/-- What the history is made of. -/
def PromptRun.listed (r : PromptRun τ) : List (StoredMessage τ) :=
  (r.store.createMessage r.lands r.userMessage).listMessages r.answers historyLimit

def PromptRun.entries (r : PromptRun τ) : List (Entry τ) :=
  [.system r.systemPrompt] ++ compressed r.listed ++ [.current r.userPrompt]

theorem render_compressed (ms : List (StoredMessage τ)) :
    (compressed ms).map Entry.render = compressMessages (ms.map formatMessage) := by
  unfold compressed compressMessages
  rw [List.length_map]
  split_ifs
  · rw [List.map_map]
    rfl
  · rw [List.map_cons, List.map_map, List.rdrop, List.rtake, List.rdrop, List.rtake, List.length_map, ← List.map_take,
      ← List.map_drop]
    rfl

theorem render_entries (r : PromptRun τ) : r.entries.map Entry.render = r.messages := by
  rw [PromptRun.entries, List.map_append, List.map_append, render_compressed]
  rfl

theorem stored?_compressed (ms : List (StoredMessage τ)) :
    (compressed ms).filterMap Entry.stored? = ms.rtake maxRecent := by
  have hmap (l : List (StoredMessage τ)) : (l.map Entry.stored).filterMap Entry.stored? = l := by
    rw [List.filterMap_map]
    exact List.filterMap_some
  unfold compressed
  split_ifs with hshort
  · rw [hmap, List.rtake, Nat.sub_eq_zero_of_le hshort, List.drop_zero]
  · rw [List.filterMap_cons_none rfl, hmap]

theorem countP_compressed (fresh : StoredMessage τ) (ms : List (StoredMessage τ)) :
    (compressed ms).countP (Entry.Has fresh) = 0 ↔ ∀ m ∈ ms, m.id ≠ fresh.id := by
  have hmap (l : List (StoredMessage τ)) :
      (∀ e ∈ l.map Entry.stored, ¬ Entry.Has fresh e = true) ↔ ∀ m ∈ l, m.id ≠ fresh.id := by
    simp [Entry.Has]
  rw [List.countP_eq_zero]
  unfold compressed
  split_ifs
  · exact hmap ms
  · have hsplit : ms.rdrop maxRecent ++ ms.rtake maxRecent = ms := List.take_append_drop _ _
    rw [List.forall_mem_cons, hmap]
    conv_rhs => rw [← hsplit, List.forall_mem_append]
    simp [Entry.Has]

/-- What a prompt should be made of: the prompt of the run once, and the newest messages before it as they are. -/
structure Assembled (r : PromptRun τ) : Prop where
  once : r.entries.countP (Entry.Has r.userMessage) = 1
  recent : r.entries.filterMap Entry.stored? = (r.store.messages r.answers).rtake maxRecent

/-- The message of the run can be listed. -/
def PromptRun.Seen (r : PromptRun τ) : Prop :=
  match r.store.backend with
  | .redis => r.lands = true
  | .memory => True
  | .supabase => r.lands = r.answers

instance : Decidable r.Seen := by
  unfold PromptRun.Seen
  cases r.store.backend <;> infer_instance

theorem listed_eq (r : PromptRun τ) : r.listed =
    ((r.store.messages r.answers) ++ if r.Seen then [r.userMessage] else []).take historyLimit := by
  obtain ⟨⟨backend, rows, memory⟩, messageId, systemPrompt, userPrompt, lands, answers⟩ := r
  cases backend <;> cases lands <;> cases answers <;>
    simp [PromptRun.listed, PromptRun.Seen, MessageStore.listMessages, MessageStore.createMessage,
      MessageStore.messages]

theorem assembled_iff_listed : Assembled r ↔ (∀ m ∈ r.listed, m.id ≠ r.messageId) ∧
    r.listed.rtake maxRecent = (r.store.messages r.answers).rtake maxRecent := by
  have hcount : r.entries.countP (Entry.Has r.userMessage) = (compressed r.listed).countP (Entry.Has r.userMessage) + 1 := by
    rw [PromptRun.entries, List.countP_append, List.countP_append, List.countP_singleton, List.countP_singleton]
    simp [Entry.Has]
  have hstored : r.entries.filterMap Entry.stored? = r.listed.rtake maxRecent := by
    rw [PromptRun.entries, List.filterMap_append, List.filterMap_append, stored?_compressed]
    exact List.append_nil _
  constructor
  · rintro ⟨honce, hrecent⟩
    rw [hcount, Nat.add_eq_right] at honce
    exact ⟨(countP_compressed r.userMessage r.listed).mp honce, hstored ▸ hrecent⟩
  · rintro ⟨hnone, hrecent⟩
    refine ⟨?_, hstored.trans hrecent⟩
    rw [hcount, Nat.add_eq_right]
    exact (countP_compressed r.userMessage r.listed).mpr hnone

/-- A page of messages that differ ends where they all end when it has all of them. -/
theorem rtake_take_iff (hids : (before.map StoredMessage.id).Nodup) {limit recent : ℕ} (hlimit : 0 < limit)
    (hrecent : 0 < recent) : (before.take limit).rtake recent = before.rtake recent ↔ before.length ≤ limit := by
  constructor
  · intro heq
    by_contra hlong
    rw [not_le] at hlong
    have hlast := congrArg List.getLast? heq
    rw [List.rtake, List.rtake, List.getLast?_drop, List.getLast?_drop, List.length_take, min_eq_left hlong.le,
      if_neg (by omega), if_neg (by omega), List.getLast?_eq_getElem?, List.getLast?_eq_getElem?, List.length_take,
      min_eq_left hlong.le, List.getElem?_take_of_lt (by omega)] at hlast
    have hindex := (List.getElem?_inj (by omega) (hids.of_map _)).mp hlast
    omega
  · intro hshort
    rw [List.take_of_length_le hshort]

/-- **The prompt is assembled** from the newest messages where the page ends with the last one before the run's own: at
fifty messages, or at no more than fifty where its own is not listed. -/
theorem assembled_iff (r : PromptRun τ)
    (hids : ((r.store.messages r.answers ++ [r.userMessage]).map StoredMessage.id).Nodup) :
    r.entries.map Entry.render = r.messages ∧ (Assembled r ↔
      if r.Seen then (r.store.messages r.answers).length = historyLimit
      else (r.store.messages r.answers).length ≤ historyLimit) := by
  refine ⟨render_entries r, ?_⟩
  rw [assembled_iff_listed, listed_eq]
  generalize hbefore : r.store.messages r.answers = before at hids
  rw [List.map_append, List.nodup_append] at hids
  obtain ⟨hnodup, -, hfresh⟩ := hids
  have hold : ∀ m ∈ before, m.id ≠ r.messageId := fun m hm =>
    hfresh m.id (List.mem_map_of_mem hm) r.messageId (List.mem_singleton.mpr rfl)
  have hpage : (∀ m ∈ before.take historyLimit, m.id ≠ r.messageId) ∧
      (before.take historyLimit).rtake maxRecent = before.rtake maxRecent ↔ before.length ≤ historyLimit := by
    rw [rtake_take_iff hnodup (by decide) (by decide)]
    exact and_iff_right fun m hm => hold m (List.mem_of_mem_take hm)
  by_cases hseen : r.Seen
  · rw [if_pos hseen, if_pos hseen]
    rcases Nat.lt_or_ge before.length historyLimit with hshort | hlong
    · refine iff_of_false (fun h => ?_) hshort.ne
      have hall : (before ++ [r.userMessage]).take historyLimit = before ++ [r.userMessage] :=
        List.take_of_length_le (by rw [List.length_append, List.length_singleton]; exact hshort)
      rw [hall] at h
      exact h.1 r.userMessage (by simp) rfl
    · rw [List.take_append_of_le_length hlong, hpage]
      exact ⟨fun h => le_antisymm h hlong, fun h => h.le⟩
  · rw [if_neg hseen, if_neg hseen, List.append_nil, hpage]

end

/-- A question of the user before the run. -/
def question : StoredMessage Unit where
  id := "m1"
  role := some "user"
  content := some "BTC?"
  toolCalls := none
  toolCallId := none
  toolOutput := "\x7b\x7d"

/-- A run after one question. -/
def secondRun (backend : MessageBackend) (lands : Bool) : PromptRun Unit where
  store := ⟨backend, [question], [question]⟩
  messageId := "m2"
  systemPrompt := "system"
  userPrompt := "ETH?"
  lands := lands
  answers := true

/-- The message of the run is lost for the listing, and so the prompt has it once. -/
theorem lostRun_assembled : Assembled (secondRun .supabase false) :=
  (assembled_iff (secondRun .supabase false) (by decide)).2.mpr (by decide)

/-- The prompt of the run comes twice, and the first time as the newest message before it. -/
theorem memoryRun_not_assembled : (secondRun .memory true).messages =
      [.other (some "system") "system", .other (some "user") "BTC?", .other (some "user") "ETH?",
        .other (some "user") "ETH?"] ∧
    ¬ Assembled (secondRun .memory true) := by
  refine ⟨rfl, fun h => ?_⟩
  have honce := h.once
  cases honce

end CryptoAggHarmonic.Vibe
