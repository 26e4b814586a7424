import CryptoAggHarmonic.Okx.Executor

/-!
# One dispatch

What a call of the client comes to, when a record lands in the log, and from both what one dispatch leaves behind.
-/

namespace CryptoAggHarmonic.Okx

variable {repr : PyValue → String} {ex : Executor} {s : State} {d : Dispatch} {client : Client} {tool : ToolCall}
  {files : AuditFiles} {record : AuditRecord} {ensured named : ℕ} {first retry : Reading} {p : AuditRecord → Prop}

/-! ## The log -/

mutual

theorem dumps_redactArgs : (x : PyValue) → x.dumps = true → (redactArgs x).dumps = true
  | .list xs, h => by
      simp only [redactArgs, PyValue.dumps] at h ⊢
      exact dumpsAll_redactAll xs h
  | .dict items, h => by
      simp only [redactArgs, PyValue.dumps] at h ⊢
      exact dumpsItems_redactItems items h
  | .none, _ => rfl
  | .bool _, _ => rfl
  | .int _, _ => rfl
  | .float _, _ => rfl
  | .str _, _ => rfl
  | .other, h => h

theorem dumpsAll_redactAll : (xs : List PyValue) → PyValue.dumpsAll xs = true → PyValue.dumpsAll (redactAll xs) = true
  | [], _ => rfl
  | x :: xs, h => by
      simp only [redactAll, PyValue.dumpsAll, Bool.and_eq_true] at h ⊢
      exact ⟨dumps_redactArgs x h.1, dumpsAll_redactAll xs h.2⟩

theorem dumpsItems_redactItems : (items : List (String × PyValue)) → PyValue.dumpsItems items = true →
    PyValue.dumpsItems (redactItems items) = true
  | [], _ => rfl
  | (k, x) :: items, h => by
      simp only [redactItems, PyValue.dumpsItems, Bool.and_eq_true] at h ⊢
      refine ⟨?_, dumpsItems_redactItems items h.2⟩
      split
      · rfl
      · exact dumps_redactArgs x h.1

end

/-- The file of the day can be opened: its outbox directory is the one made now, or is there. -/
def DayIsThere (files : AuditFiles) (ensured named : ℕ) : Prop :=
  dateStr named = dateStr ensured ∨ dateStr named ∈ files.outboxes

instance : Decidable (DayIsThere files ensured named) := inferInstanceAs (Decidable (_ ∨ _))

theorem write_of_lands (hdumps : record.dumps = true) (hday : DayIsThere files ensured named) :
    ∃ files', files.write record ensured named = (files', none) ∧
      files'.lines = files.lines ++ [(dateStr named, record)] := by
  have hmem : dateStr named ∈ files.outboxes ++ [dateStr ensured] := by
    rcases hday with heq | hmem
    · simp [heq]
    · simp [hmem]
  refine ⟨⟨files.outboxes ++ [dateStr ensured], files.lines ++ [(dateStr named, record)]⟩, ?_, rfl⟩
  simp only [AuditFiles.write, hdumps, AuditFiles.ensureDirs, hmem, Bool.not_true, Bool.false_eq_true,
    not_true_eq_false, if_false]

theorem write_of_lost (h : ¬ (record.dumps = true ∧ DayIsThere files ensured named)) :
    ∃ files' e, files.write record ensured named = (files', some e) ∧ files'.lines = files.lines := by
  unfold AuditFiles.write
  by_cases hdumps : record.dumps = true
  · have hday : dateStr named ∉ (files.ensureDirs ensured).outboxes := by
      simp only [AuditFiles.ensureDirs, List.mem_append, List.mem_singleton]
      rintro (hmem | heq)
      · exact h ⟨hdumps, Or.inr hmem⟩
      · exact h ⟨hdumps, Or.inl heq⟩
    refine ⟨files.ensureDirs ensured, .fileNotFound, ?_, rfl⟩
    simp only [hdumps, hday, Bool.not_true, Bool.false_eq_true, not_false_eq_true, if_true, if_false]
  · refine ⟨files.ensureDirs ensured, .typeError, ?_, rfl⟩
    simp only [hdumps, Bool.not_false, if_true]

/-! ## A call of the client -/

theorem responseResult_not_api (response : Json) (code : String) (message : PyValue) (name : String)
    (traceId : PyValue) : responseResult response ≠ .error (.api code message name traceId) := by
  unfold responseResult
  split
  · split <;> simp
  · split <;> simp
  · split <;> simp
  · simp

theorem result_not_api (r : Reading) (code : String) (message : PyValue) (name : String) (traceId : PyValue) :
    r.result ≠ .error (.api code message name traceId) := by
  cases r with
  | line l =>
      cases l with
      | malformed => simp [Reading.result]
      | json response => exact responseResult_not_api response code message name traceId
  | _ => simp [Reading.result]

/-- An exception that `dispatch` does not catch. -/
def Raised.Uncaught (e : Raised) : Prop := ∀ code message name traceId, e ≠ .api code message name traceId

theorem call_unsent (client : Client) (h : ¬ (tool.args.dumps = true ∧ first.written = true)) :
    ∃ e, client.call tool first = (client, .error e) ∧ e.Uncaught := by
  cases first with
  | notStarted => exact ⟨_, rfl, by simp [Raised.Uncaught]⟩
  | brokenPipe =>
      by_cases hargs : tool.args.dumps = true
      · refine ⟨.client "okx-trade-mcp pipe broken", ?_, by simp [Raised.Uncaught]⟩
        simp only [Client.call, hargs, Reading.written, Reading.result, Bool.not_true, Bool.false_eq_true, if_false]
      · exact ⟨.typeError, by simp only [Client.call, hargs, Bool.not_false, if_true], by simp [Raised.Uncaught]⟩
  | _ =>
      have hargs : tool.args.dumps = false := by simpa [Reading.written] using h
      exact ⟨.typeError, by simp only [Client.call, hargs, Bool.not_false, if_true], by simp [Raised.Uncaught]⟩

theorem call_sent (hargs : tool.args.dumps = true) (hwritten : first.written = true) :
    client.call tool first = ({ client with sent := client.sent ++ [tool] }, first.result) := by
  cases first with
  | notStarted => cases hwritten
  | brokenPipe => cases hwritten
  | _ => simp only [Client.call, hargs, Reading.written, Bool.not_true, Bool.false_eq_true, if_false, if_true]

theorem call_extends (client : Client) (tool : ToolCall) (r : Reading) :
    ∃ new, (client.call tool r).1.sent = client.sent ++ new := by
  by_cases h : tool.args.dumps = true ∧ r.written = true
  · exact ⟨[tool], by rw [call_sent h.1 h.2]⟩
  · obtain ⟨e, he, -⟩ := call_unsent client h
    exact ⟨[], by rw [he, List.append_nil]⟩

/-- The answers that let `invoke_tool` come back with data: a result, and after a rate limit a second one. -/
def Answered (repr : PyValue → String) (first retry : Reading) : Prop :=
  ∃ data, first.result = .ok data ∧ (codeOf repr data = RATE_LIMIT_CODE → ∃ later, retry.result = .ok later)

theorem written_of_result {r : Reading} {data : Json} (h : r.result = .ok data) : r.written = true := by
  cases r with
  | notStarted => cases h
  | brokenPipe => cases h
  | _ => rfl

section

variable (hcap : client.writeCountThisGen < MAX_OKX_WRITE_PER_GEN)

include hcap

theorem invokeTool_unsent (repr : PyValue → String) (tool : ToolCall) (retry : Reading)
    (h : ¬ (tool.args.dumps = true ∧ first.written = true)) :
    ∃ client' e, client.invokeTool repr tool first retry = (client', .error e) ∧ client'.sent = client.sent ∧
      e.Uncaught := by
  obtain ⟨e, hcall, he⟩ :=
    call_unsent { client with writeCountThisGen := client.writeCountThisGen + 1 } h
  refine ⟨{ client with writeCountThisGen := client.writeCountThisGen + 1 }, e, ?_, rfl, he⟩
  rw [Client.invokeTool, if_neg (not_le.mpr hcap), hcall]

theorem invokeTool_sent (repr : PyValue → String) (tool : ToolCall) (retry : Reading)
    (hargs : tool.args.dumps = true) (hwritten : first.written = true) :
    client.sent.length < (client.invokeTool repr tool first retry).1.sent.length := by
  rw [Client.invokeTool, if_neg (not_le.mpr hcap), call_sent hargs hwritten]
  cases hfirst : first.result with
  | error e => simp
  | ok data =>
      simp only
      split
      · obtain ⟨new, hnew⟩ := call_extends ⟨client.writeCountThisGen + 1, client.sent ++ [tool]⟩ tool retry
        have hgrown : client.sent.length < (client.sent ++ [tool] ++ new).length := by simp
        split <;> rename_i hcall <;> rw [hcall] at hnew <;> rw [hnew] <;> exact hgrown
      · simp

theorem invokeTool_unanswered (tool : ToolCall) (hargs : tool.args.dumps = true) (hwritten : first.written = true)
    (h : ¬ Answered repr first retry) :
    ∃ client' e, client.invokeTool repr tool first retry = (client', .error e) ∧ e.Uncaught := by
  rw [Client.invokeTool, if_neg (not_le.mpr hcap), call_sent hargs hwritten]
  cases hfirst : first.result with
  | error e =>
      refine ⟨_, e, rfl, fun code message name traceId he => ?_⟩
      exact result_not_api first code message name traceId (by rw [hfirst, he])
  | ok data =>
      have hlimit : codeOf repr data = RATE_LIMIT_CODE := by
        by_contra hcode
        exact h ⟨data, hfirst, fun hc => absurd hc hcode⟩
      simp only [hlimit, if_true]
      by_cases hretry : retry.written = true
      · rw [call_sent hargs hretry]
        cases hlater : retry.result with
        | error e =>
            refine ⟨_, e, rfl, fun code message name traceId he => ?_⟩
            exact result_not_api retry code message name traceId (by rw [hlater, he])
        | ok later => exact absurd ⟨data, hfirst, fun _ => ⟨later, hlater⟩⟩ h
      · have hunsent : ¬ (tool.args.dumps = true ∧ retry.written = true) := fun hboth => hretry hboth.2
        obtain ⟨e, hcall, he⟩ := call_unsent ⟨client.writeCountThisGen + 1, client.sent ++ [tool]⟩ hunsent
        rw [hcall]
        exact ⟨_, e, rfl, he⟩

theorem invokeTool_answered (tool : ToolCall) (hargs : tool.args.dumps = true) (h : Answered repr first retry) :
    ∃ client' data, client.invokeTool repr tool first retry = (client', toolResult repr tool.name data) := by
  obtain ⟨data, hfirst, hretry⟩ := h
  rw [Client.invokeTool, if_neg (not_le.mpr hcap), call_sent hargs (written_of_result hfirst), hfirst]
  simp only
  split
  · rename_i hcode
    obtain ⟨later, hlater⟩ := hretry hcode
    rw [call_sent hargs (written_of_result hlater), hlater]
    exact ⟨_, later, rfl⟩
  · exact ⟨_, data, rfl⟩

end

/-! ## A dispatch -/

theorem executionAllowedForTools_fst (names : List String) (paper : Bool) :
    (executionAllowedForTools names paper).1 = true := by
  unfold executionAllowedForTools
  simp only
  split
  · rfl
  · split <;> rfl

/-- A record of the dispatch, as far as the statements look at it. -/
structure IsRecordOf (record : AuditRecord) (d : Dispatch) : Prop where
  tool : record.tool = d.tool
  clOrdId : record.clOrdId = d.clOrdId
  args : record.args = redactArgs d.args
  traceId : record.traceId.dumps = true

theorem isRecordOf_buildRecord {paper : Bool} {gate code : String} {latency : ℕ} {traceId : PyValue}
    (h : traceId.dumps = true) : IsRecordOf (buildRecord ex d paper gate code latency traceId) d :=
  ⟨rfl, rfl, rfl, h⟩

/-- What is written of a dispatch fits into JSON. -/
def Dispatch.recordable (d : Dispatch) : Bool := (redactArgs d.args).dumps && d.clOrdId.dumps

theorem IsRecordOf.dumps_iff (h : IsRecordOf record d) : record.dumps = true ↔ d.recordable = true := by
  simp only [AuditRecord.dumps, h.args, h.clOrdId, h.traceId, Bool.and_true, Dispatch.recordable]

/-- Arguments that were sent can be written down too. -/
theorem recordable_of_dumps (h : d.args.dumps = true) : d.recordable = true := by
  rw [Dispatch.recordable, Bool.and_eq_true]
  exact ⟨dumps_redactArgs _ h, PyValue.dumps_getD h rfl⟩

/-- The record of the dispatch ends up in a daily file. -/
def Lands (s : State) (d : Dispatch) : Prop := d.recordable = true ∧ DayIsThere s.files d.ensured d.named

theorem not_oneRecord {s' : State} (h : s'.files.lines = s.files.lines) : ¬ OneRecord s s' d p := by
  rintro ⟨date, record, hlines, -⟩
  have := congrArg List.length (h.symm.trans hlines)
  simp at this

theorem oneRecord_write_iff {s' : State} (hrecord : IsRecordOf record d)
    (hfiles : s'.files = (s.files.write record d.ensured d.named).1) : OneRecord s s' d p ↔ Lands s d ∧ p record := by
  by_cases hlands : Lands s d
  · obtain ⟨files, hwrite, hlines⟩ := write_of_lands (hrecord.dumps_iff.mpr hlands.1) hlands.2
    have hs' : s'.files.lines = s.files.lines ++ [(dateStr d.named, record)] := by rw [hfiles, hwrite, hlines]
    constructor
    · rintro ⟨date, record', heq, -, -, hp⟩
      have := List.append_cancel_left (hs'.symm.trans heq)
      cases this
      exact ⟨hlands, hp⟩
    · rintro ⟨-, hp⟩
      exact ⟨_, record, hs', hrecord.tool, hrecord.clOrdId, hp⟩
  · have hlost : ¬ (record.dumps = true ∧ DayIsThere s.files d.ensured d.named) :=
      fun h => hlands ⟨hrecord.dumps_iff.mp h.1, h.2⟩
    obtain ⟨files, e, hwrite, hlines⟩ := write_of_lost hlost
    have hs' : s'.files.lines = s.files.lines := by rw [hfiles, hwrite, hlines]
    simp [not_oneRecord hs', hlands]

theorem refuse_client (s : State) (d : Dispatch) (record : AuditRecord) : (refuse s d record).1.client = s.client := by
  unfold refuse
  split <;> rfl

theorem refuse_files (s : State) (d : Dispatch) (record : AuditRecord) :
    (refuse s d record).1.files = (s.files.write record d.ensured d.named).1 := by
  unfold refuse
  split <;> rename_i h <;> rw [h]

theorem dispatch_gated (repr : PyValue → String) (s : State) (h : Gated ex d) :
    ∃ record, dispatch repr ex s d = refuse s d record ∧ IsRecordOf record d ∧ record.resultCode = "REJECTED" := by
  unfold dispatch
  by_cases htool : isLiveExecutionTool d.tool = true
  · rcases h with hfalse | ⟨hpaper, hlive⟩
    · rw [htool] at hfalse
      cases hfalse
    · refine ⟨buildRecord ex d false "gate2_no_allow_live" "REJECTED" 0 .none, ?_, ⟨rfl, rfl, rfl, rfl⟩, rfl⟩
      simp [htool, hpaper, hlive]
  · refine ⟨buildRecord ex d ex.paper "gate1_unknown_tool" "REJECTED" 0 .none, ?_, ⟨rfl, rfl, rfl, rfl⟩, rfl⟩
    simp [htool]

theorem dispatch_open (h : ¬ Gated ex d) : dispatch repr ex s d = send repr ex s d := by
  have htool : isLiveExecutionTool d.tool = true := by
    by_contra hfalse
    exact h (Or.inl (by simpa using hfalse))
  have hgate : ¬ ((!ex.paper) = true ∧ (!ex.allowLive) = true) := by
    simpa [Gated, htool] using h
  rw [dispatch, htool, if_neg (by simp), if_neg hgate]
  simp [executionAllowedForTools_fst]

theorem send_uncaught {client' : Client} {e : Raised}
    (h : s.client.invokeTool repr ⟨d.tool, d.args⟩ d.first d.retry = (client', .error e)) (he : e.Uncaught) :
    (send repr ex s d).1 = { s with client := client' } := by
  unfold send
  rw [h]
  cases e with
  | api code message name traceId => exact absurd rfl (he code message name traceId)
  | _ => rfl

theorem send_result (ex : Executor) {client' : Client} {data : Json} {name : String}
    (h : s.client.invokeTool repr ⟨d.tool, d.args⟩ d.first d.retry = (client', toolResult repr name data)) :
    ∃ record, IsRecordOf record d ∧ (send repr ex s d).1.client = client' ∧
      (send repr ex s d).1.files = (s.files.write record d.ensured d.named).1 := by
  by_cases hcode : codeOf repr data ≠ "0"
  · rw [toolResult, if_pos hcode] at h
    refine ⟨buildRecord ex d ex.paper "dispatched_api_error" (codeOf repr data) 0 (traceIdOf data).1,
      isRecordOf_buildRecord (traceIdOf data).2, ?_⟩
    unfold send
    rw [h]
    simp only
    split <;> rename_i hwrite <;> exact ⟨rfl, by rw [hwrite]⟩
  · rw [toolResult, if_neg hcode] at h
    refine ⟨buildRecord ex d ex.paper "dispatched" (codeOf repr data) d.latencyMs (traceIdOf data).1,
      isRecordOf_buildRecord (traceIdOf data).2, ?_⟩
    unfold send
    rw [h]
    simp only
    split <;> rename_i hwrite <;> exact ⟨rfl, by rw [hwrite]⟩

/-- The dispatch is recorded: a refused one lands in the log; no other is refused by the cap, and one that is written to
the server is answered and lands in the log. -/
def Meets (repr : PyValue → String) (ex : Executor) (s : State) (d : Dispatch) : Prop :=
  if Gated ex d then Lands s d
  else s.client.writeCountThisGen < MAX_OKX_WRITE_PER_GEN ∧
    (d.args.dumps = true ∧ d.first.written = true →
      Answered repr d.first d.retry ∧ DayIsThere s.files d.ensured d.named)

/-- **One dispatch** keeps the audit exactly when it meets the condition. -/
theorem audited_iff : Audited repr ex s d ↔ Meets repr ex s d := by
  by_cases hgate : Gated ex d
  · obtain ⟨record, hrefuse, hrecord, hcode⟩ := dispatch_gated repr s hgate
    have hone := fun p => oneRecord_write_iff (p := p) hrecord (refuse_files s d record)
    simp only [Audited, Reaches, hrefuse, refuse_client, hone, Meets, hgate, hcode, if_true, lt_self_iff_false,
      false_implies, true_and, true_or, true_implies, not_false_eq_true, and_true]
  · rw [Audited, Reaches, dispatch_open hgate, Meets, if_neg hgate]
    by_cases hcap : s.client.writeCountThisGen < MAX_OKX_WRITE_PER_GEN
    · simp only [hgate, not_le.mpr hcap, or_self, false_implies, and_true, hcap, true_and]
      by_cases hsent : d.args.dumps = true ∧ d.first.written = true
      · have hreach : s.client.sent.length < (send repr ex s d).1.client.sent.length := by
          have hmore := invokeTool_sent hcap repr ⟨d.tool, d.args⟩ d.retry hsent.1 hsent.2
          by_cases hanswered : Answered repr d.first d.retry
          · obtain ⟨client', data, hinvoke⟩ := invokeTool_answered hcap ⟨d.tool, d.args⟩ hsent.1 hanswered
            obtain ⟨record, -, hclient, -⟩ := send_result ex hinvoke
            rw [hinvoke] at hmore
            rwa [hclient]
          · obtain ⟨client', e, hinvoke, he⟩ := invokeTool_unanswered hcap ⟨d.tool, d.args⟩ hsent.1 hsent.2 hanswered
            rw [hinvoke] at hmore
            rwa [send_uncaught hinvoke he]
        simp only [hreach, true_implies, hsent, and_self]
        by_cases hanswered : Answered repr d.first d.retry
        · obtain ⟨client', data, hinvoke⟩ := invokeTool_answered hcap ⟨d.tool, d.args⟩ hsent.1 hanswered
          obtain ⟨record, hrecord, -, hfiles⟩ := send_result ex hinvoke
          rw [oneRecord_write_iff hrecord hfiles]
          simp only [Lands, recordable_of_dumps hsent.1, true_and, and_true, hanswered]
        · obtain ⟨client', e, hinvoke, he⟩ := invokeTool_unanswered hcap ⟨d.tool, d.args⟩ hsent.1 hsent.2 hanswered
          have hsame : (send repr ex s d).1.files.lines = s.files.lines := by rw [send_uncaught hinvoke he]
          simp [not_oneRecord hsame, hanswered]
      · obtain ⟨client', e, hinvoke, hsame, he⟩ := invokeTool_unsent hcap repr ⟨d.tool, d.args⟩ d.retry hsent
        have hstay : (send repr ex s d).1.client.sent = s.client.sent := by rw [send_uncaught hinvoke he, hsame]
        simp only [hstay, lt_self_iff_false, false_implies, hsent]
    · have hraise : s.client.invokeTool repr ⟨d.tool, d.args⟩ d.first d.retry =
          (s.client, .error (.client "per-gen write cap reached")) := by
        rw [Client.invokeTool, if_pos (not_lt.mp hcap)]
      have hstate : (send repr ex s d).1 = s := send_uncaught hraise (by simp [Raised.Uncaught])
      simp only [hcap, false_and, iff_false]
      rintro ⟨-, hrefused⟩
      exact not_oneRecord (by rw [hstate]) (hrefused (Or.inr (not_lt.mp hcap))).2

/-! ## The cap -/

theorem call_writeCount (client : Client) (tool : ToolCall) (r : Reading) :
    (client.call tool r).1.writeCountThisGen = client.writeCountThisGen := by
  by_cases h : tool.args.dumps = true ∧ r.written = true
  · rw [call_sent h.1 h.2]
  · obtain ⟨e, he, -⟩ := call_unsent client h
    rw [he]

theorem invokeTool_writeCount (client : Client) (tool : ToolCall) (first retry : Reading) :
    (client.invokeTool repr tool first retry).1.writeCountThisGen =
      if client.writeCountThisGen ≥ MAX_OKX_WRITE_PER_GEN then client.writeCountThisGen
      else client.writeCountThisGen + 1 := by
  unfold Client.invokeTool
  split
  · rfl
  · have hfirst := call_writeCount { client with writeCountThisGen := client.writeCountThisGen + 1 } tool first
    split
    · rename_i h
      rwa [h] at hfirst
    · rename_i client' data h
      rw [h] at hfirst
      have hretry := call_writeCount client' tool retry
      split
      · split <;> rename_i h' <;> rw [h'] at hretry <;> exact hretry.trans hfirst
      · exact hfirst

theorem send_client (repr : PyValue → String) (ex : Executor) (s : State) (d : Dispatch) :
    (send repr ex s d).1.client = (s.client.invokeTool repr ⟨d.tool, d.args⟩ d.first d.retry).1 := by
  unfold send
  split
  · rename_i h
    simp only
    split <;> rw [h]
  · rename_i h
    simp only
    split <;> rw [h]
  · rename_i h
    rw [h]

/-- A dispatch that reaches the server is counted, under the cap; no dispatch lowers the count. -/
theorem dispatch_writeCount (repr : PyValue → String) (ex : Executor) (s : State) (d : Dispatch) :
    s.client.writeCountThisGen ≤ (dispatch repr ex s d).1.client.writeCountThisGen ∧
      (Reaches repr ex s d → s.client.writeCountThisGen < MAX_OKX_WRITE_PER_GEN ∧
        (dispatch repr ex s d).1.client.writeCountThisGen = s.client.writeCountThisGen + 1) := by
  by_cases hgate : Gated ex d
  · obtain ⟨record, hrefuse, -, -⟩ := dispatch_gated repr s hgate
    simp [Reaches, hrefuse, refuse_client]
  · simp only [Reaches, dispatch_open hgate, send_client, invokeTool_writeCount]
    by_cases hcap : s.client.writeCountThisGen < MAX_OKX_WRITE_PER_GEN
    · rw [if_neg (not_le.mpr hcap)]
      exact ⟨Nat.le_succ _, fun _ => ⟨hcap, rfl⟩⟩
    · rw [if_pos (not_lt.mp hcap), Client.invokeTool, if_pos (not_lt.mp hcap)]
      exact ⟨le_refl _, fun h => absurd h (lt_irrefl _)⟩

/-- Every dispatch that reaches the server takes one of what the cap leaves. -/
theorem reached_le (repr : PyValue → String) (ex : Executor) (s : State) (is : List Step)
    (h : .resetGenCounter ∉ is) : reached repr ex s is ≤ MAX_OKX_WRITE_PER_GEN - s.client.writeCountThisGen := by
  induction is generalizing s with
  | nil => exact Nat.zero_le _
  | cons i is ih =>
      obtain ⟨hi, his⟩ := not_or.mp (List.mem_cons.not.mp h)
      cases i with
      | resetGenCounter => exact absurd rfl hi
      | dispatch d =>
          obtain ⟨hmono, hcount⟩ := dispatch_writeCount repr ex s d
          have hrest := ih (step repr ex s (.dispatch d)) his
          simp only [reached, step] at hrest ⊢
          split
          · rename_i hreach
            have := hcount hreach
            omega
          · omega

theorem capped (repr : PyValue → String) (ex : Executor) (s : State) (is : List Step) : Capped repr ex s is :=
  fun _ stretch _ _ hreset => (reached_le repr ex _ stretch hreset).trans (Nat.sub_le _ _)

end CryptoAggHarmonic.Okx
