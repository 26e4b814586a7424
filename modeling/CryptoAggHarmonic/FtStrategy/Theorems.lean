import CryptoAggHarmonic.FtStrategy.Lemmas.Runs
import CryptoAggHarmonic.FtStrategy.Lemmas.Publish
import CryptoAggHarmonic.FtStrategy.Lemmas.Tsv
import CryptoAggHarmonic.FtStrategy.Lemmas.Writers
import CryptoAggHarmonic.FtStrategy.Lemmas.DeployGate

/-!
# The gate and the counter over runs of the repository
-/

namespace CryptoAggHarmonic.FtStrategy

/-! ## The evidence of a deployment -/

/-- A call of the log that no later refine of the strategy has made stale. -/
def SinceRefine (log : List Call) (strategyId : String) (P : Call → Prop) : Prop :=
  ∃ before c after, log = before ++ c :: after ∧ P c ∧ .refine strategyId ∉ after

/-- The metrics, a final report and the shadow observation are those of the current version. -/
def FreshEvidence (h : History) (strategyId : String) : Prop :=
  SinceRefine h.log strategyId (fun c => ∃ result, c = .updateLatestResult strategyId result) ∧
  SinceRefine h.log strategyId
    (fun c => ∃ r ∈ h.db.reports, r.strategyId = strategyId ∧ ∃ finding now, c = .publishReport r.id finding now) ∧
  SinceRefine h.log strategyId
    (fun c => ∃ version sharpe maxDd note, c = .recordEvent strategyId "shadow_end" version sharpe maxDd note)

theorem deployOne_pendingReview {db : Db} {user : Option String} {strategyId : String}
    (h : (deployOne db user strategyId).1 = .pendingReview) :
    ∃ s, s ∈ db.strategies ∧ s.id = strategyId ∧ (checkPromotionV3 (candidateOf db s) .default).ok ∧
      (deployOne db user strategyId).2 = db.updateStatus strategyId "pending_review" := by
  unfold deployOne at h ⊢
  cases hload : loadOwnedStrategy db user strategyId with
  | error response =>
      simp only [hload] at h
      unfold loadOwnedStrategy at hload
      split at hload
      · cases hload
        cases h
      · split at hload
        · cases hload
          cases h
        · split_ifs at hload
          cases hload
          cases h
  | ok s =>
      simp only [hload] at h ⊢
      have hs : db.strategy? strategyId = some s := by
        unfold loadOwnedStrategy at hload
        split at hload
        · cases hload
        · split at hload
          · cases hload
          · rename_i hfound
            split_ifs at hload
            cases hload
            exact hfound
      cases hok : (checkPromotionV3 (candidateOf db s) .default).ok with
      | false => simp [hok] at h
      | true =>
          refine ⟨s, List.mem_of_find?_eq_some hs, ?_, hok, rfl⟩
          simpa using List.find?_some hs

theorem shadowEnd_of_ofText {text : String} (h : Event.ofText text = some .shadowEnd) : text = "shadow_end" := by
  unfold Event.ofText at h
  split at h <;> first | rfl | cases h

/-- **What a passed gate rests on.** When a deployment is let through, the metrics it judged are the last ones recorded
for the strategy, a report of the strategy was published as final and a `shadow_end` was recorded for it, all earlier
in the run, for this or an earlier version. -/
theorem deploy_evidence (calls : List Call) (user : Option String) (strategyId : String)
    (hpass : (deployOne (History.run calls).db user strategyId).1 = .pendingReview) :
    (∃ s ∈ (History.run calls).db.strategies, s.id = strategyId ∧ ∃ result, s.latestResult = some result ∧
      LastResult (History.run calls).log strategyId result) ∧
    (∃ r ∈ (History.run calls).db.reports, r.strategyId = strategyId ∧ r.authoringState = .final ∧
      Published (History.run calls).log r.id) ∧
    (∃ version sharpe maxDd note,
      .recordEvent strategyId "shadow_end" version sharpe maxDd note ∈ (History.run calls).log) ∧
    (deployOne (History.run calls).db user strategyId).2 =
      (History.run calls).db.updateStatus strategyId "pending_review" := by
  have hev := evidenced_run calls
  obtain ⟨s, hs, rfl, hok, hstatus⟩ := deployOne_pendingReview hpass
  obtain ⟨hregimes, hreport, hshadow⟩ := evidence_of_ok hok
  refine ⟨⟨s, hs, rfl, ?_⟩, ?_, ?_, hstatus⟩
  · cases hresult : s.latestResult with
    | none => simp [candidateOf, hresult] at hregimes
    | some result => exact ⟨result, rfl, hev.metrics s hs result hresult⟩
  · obtain ⟨r, hr, hfinal⟩ := List.any_eq_true.mp hreport
    rw [Bool.and_eq_true, decide_eq_true_eq, decide_eq_true_eq] at hfinal
    exact ⟨r, hr, hfinal.1, hfinal.2, hev.reports r hr hfinal.2⟩
  · obtain ⟨e, he, hend⟩ := List.any_eq_true.mp hshadow
    rw [Bool.and_eq_true, decide_eq_true_eq, decide_eq_true_eq] at hend
    obtain ⟨text, htext, hmem⟩ := hev.events e he
    rw [hend.2] at htext
    rw [shadowEnd_of_ofText htext, hend.1] at hmem
    exact ⟨_, _, _, _, hmem⟩

def goodResult : LatestResult where
  sharpe := some (.finite 1)
  maxDd := some (.finite (1 / 10))
  calmar := some (.finite 2)
  winRate := some (.finite (1 / 2))
  profitPct := some (.finite (1 / 5))
  trades := some 40
  perTimerange := [⟨"full_5y", .finite 1, .finite (1 / 10), .finite 2⟩]

def evidenceCalls : List Call :=
  [.createStrategy "s1" (some "u1") "Trend", .updateLatestResult "s1" goodResult,
    .createReport "r1" "s1" 1 none, .publishReport "r1" "robust across regimes" "2026-01-01",
    .recordEvent "s1" "shadow_end" (some 1) none none none]

theorem evidenceCalls_pass :
    (deployOne (History.run evidenceCalls).db (some "u1") "s1").1 = .pendingReview ∧
    ∃ version sharpe maxDd note,
      .recordEvent "s1" "shadow_end" version sharpe maxDd note ∈ (History.run evidenceCalls).log := by
  have hpass : (deployOne (History.run evidenceCalls).db (some "u1") "s1").1 = .pendingReview := by
    decide +kernel
  exact ⟨hpass, (deploy_evidence evidenceCalls (some "u1") "s1" hpass).2.2.1⟩

/-- A refine after all evidence does not close the gate. -/
theorem evidence_not_fresh : ¬ ∀ calls user strategyId,
    (deployOne (History.run calls).db user strategyId).1 = .pendingReview →
      FreshEvidence (History.run calls) strategyId := by
  intro h
  have hlog : (History.run (evidenceCalls ++ [.refine "s1"])).log = evidenceCalls ++ [.refine "s1"] := by
    decide +kernel
  obtain ⟨⟨before, c, after, hsplit, ⟨result, rfl⟩, hafter⟩, -⟩ :=
    h (evidenceCalls ++ [.refine "s1"]) (some "u1") "s1" (by decide +kernel)
  rw [hlog] at hsplit
  -- The last call is the refine, so it comes after the metrics.
  cases after using List.reverseRecOn with
  | nil =>
      have := List.append_inj_right' hsplit rfl
      cases this
  | append_singleton after last =>
      rw [← List.cons_append, ← List.append_assoc] at hsplit
      have hlast := List.append_inj_right' hsplit rfl
      cases hlast
      exact hafter (by simp)

/-! ## The gate on what is stored -/

/-- The deploy route answers; it lets a strategy through only with a complete result that no given keep is better than;
and no metric that gets better closes the gate. -/
structure FailClosed (parseFloat : String → Option PyFloat) (db : Db) (stored : PyValue) (user : Option String)
    (strategyId : String) (keeps : List (PyFloat × PyFloat × PyFloat × PyFloat)) : Prop where
  returns : ∃ response, (deployStored parseFloat db stored user strategyId).1 = .ok response
  complete : (deployStored parseFloat db stored user strategyId).1 = .ok .pendingReview ∨
      (deployStored parseFloat db stored user strategyId).2 ≠ db →
    Complete db strategyId stored ∧ ∀ keep ∈ keeps, ∀ shape, shapeOf stored = some shape → ¬ Better keep shape
  monotone : ∀ c c' ctx, Improves c c' → (checkPromotionV3 c ctx).ok → (checkPromotionV3 c' ctx).ok

/-- **When the gate is fail-closed.** Exactly when the strategy is not the user's, or the stored result can be read and
has no gap if the gate is content with it. -/
theorem failClosed_iff (parseFloat : String → Option PyFloat) (db : Db) (stored : PyValue) (user : Option String)
    (strategyId : String) (keeps : List (PyFloat × PyFloat × PyFloat × PyFloat)) :
    FailClosed parseFloat db stored user strategyId keeps ↔ ∀ s, loadOwnedStrategy db user strategyId = .ok s →
      Readable parseFloat stored ∧ (Met parseFloat db strategyId stored → NoGap stored keeps) := by
  have hmonotone : ∀ c c' ctx, Improves c c' → (checkPromotionV3 c ctx).ok → (checkPromotionV3 c' ctx).ok := by
    intro c c' ctx hbetter hok
    exact ok_iff_passes.mpr ((ok_iff_passes.mp hok).improve hbetter)
  cases hload : loadOwnedStrategy db user strategyId with
  | error response =>
      have hdeploy : deployStored parseFloat db stored user strategyId = (.ok response, db) := by
        rw [deployStored, hload]
      simp only [reduceCtorEq, false_implies, implies_true, iff_true]
      refine ⟨⟨response, by rw [hdeploy]⟩, ?_, hmonotone⟩
      rw [hdeploy]
      rcases loadOwnedStrategy_error hload with rfl | rfl <;> simp
  | ok s =>
      have hid := loadOwnedStrategy_id hload
      simp only [Except.ok.injEq, forall_eq']
      obtain ⟨hunread, e, he⟩ | ⟨result, hresult, hread, hok⟩ := judged_spec parseFloat db s stored
      · have hdeploy : deployStored parseFloat db stored user strategyId = (.error e, db) := by
          simp only [deployStored, hload, he]
        constructor
        · rintro ⟨⟨response, hresponse⟩, -, -⟩
          rw [hdeploy] at hresponse
          cases hresponse
        · rintro ⟨hread, -⟩
          exact absurd hread hunread
      · rw [hid] at hok
        by_cases hmet : Met parseFloat db strategyId stored
        · have hdeploy : deployStored parseFloat db stored user strategyId =
              (.ok .pendingReview, db.updateStatus strategyId "pending_review") := by
            simp only [deployStored, hload, hresult, hok.mpr hmet, Bool.not_true, Bool.false_eq_true, if_false]
          simp only [hread, hmet, true_and, true_implies, ← complete_iff hread hmet]
          constructor
          · rintro ⟨-, hcomplete, -⟩
            exact hcomplete (Or.inl (by rw [hdeploy]))
          · intro hcomplete
            exact ⟨⟨.pendingReview, by rw [hdeploy]⟩, fun _ => hcomplete, hmonotone⟩
        · have hfalse : result.ok = false := by
            rw [← Bool.not_eq_true, hok]
            exact hmet
          have hdeploy : deployStored parseFloat db stored user strategyId = (.ok (.gateFailed result), db) := by
            simp only [deployStored, hload, hresult, hfalse, Bool.not_false, if_true]
          simp only [hread, hmet, true_and, false_implies, iff_true]
          exact ⟨⟨.gateFailed result, by rw [hdeploy]⟩, by simp [hdeploy], hmonotone⟩

/-- The tables of a strategy with a final report and a shadow observation. -/
def readyDb : Db where
  strategies := [⟨"s1", some "u1", "Trend", "draft", 1, none, none, 0⟩]
  events := [⟨1, "s1", some 1, .shadowEnd, none, none, none⟩]
  nextEventId := 2
  experiments := []
  reports := [⟨"r1", "s1", 1, .final, some "robust across regimes", none⟩]

def rowsOfOne : String × PyValue :=
  ("per_timerange",
    .list [.dict [("regime", .str "full_5y"), ("sharpe", .int 1), ("max_dd", .int 0), ("calmar", .int 2)]])

/-- A result without a drawdown is let through; with a null in its place the route raises. -/
theorem missing_drawdown_passes :
    ¬ FailClosed (fun _ => none) readyDb (.dict [rowsOfOne, ("profit_pct", .int 1), ("trades", .int 40)])
      (some "u1") "s1" [] ∧
    ¬ FailClosed (fun _ => none) readyDb
      (.dict [rowsOfOne, ("profit_pct", .int 1), ("trades", .int 40), ("max_dd", .none)]) (some "u1") "s1" [] := by
  constructor
  · intro h
    have hpass : (deployStored (fun _ => none) readyDb
        (.dict [rowsOfOne, ("profit_pct", .int 1), ("trades", .int 40)]) (some "u1") "s1").1 =
        .ok .pendingReview := by decide +kernel
    obtain ⟨x, hx, -⟩ := (h.complete (Or.inl hpass)).1.maxDd
    cases hx
  · intro h
    obtain ⟨response, hresponse⟩ := h.returns
    have hraise : (deployStored (fun _ => none) readyDb
        (.dict [rowsOfOne, ("profit_pct", .int 1), ("trades", .int 40), ("max_dd", .none)]) (some "u1") "s1").1 =
        .error .typeError := by decide +kernel
    rw [hraise] at hresponse
    cases hresponse

/-! ## The stagnation counter -/

/-- **The stored counter.** As long as no create or shadow event comes right after a stable one, the stored counter is
the number of stable events since the last other event or reset; it agrees with the count of the discipline unless a
reset has cut off stable events. -/
theorem stagnation_count (calls : List Call) (s : Strategy) (hs : s ∈ (History.run calls).db.strategies)
    (hsteady : Steady (beats s.id (History.run calls).log)) :
    s.stagnationCount = stableRun (beats s.id (History.run calls).log) ∧
    (s.stagnationCount = (History.run calls).db.recentStableCount s.id ↔
      (sinceNonStable (beats s.id (History.run calls).log)).Pairwise
        fun a b => a = .event .stable → b ≠ .reset) := by
  have hcounted := counted_run calls
  have hstored : s.stagnationCount = stableRun (beats s.id (History.run calls).log) :=
    (hcounted.counts s hs).trans (counted_eq_stableRun hsteady)
  have hscan : (History.run calls).db.recentStableCount s.id =
      (sinceNonStable (beats s.id (History.run calls).log)).count (.event .stable) := by
    rw [← scan_eq_count, ← hcounted.events s.id]
    rfl
  refine ⟨hstored, ?_⟩
  rw [hstored, hscan]
  exact stableRun_eq_count_iff

def stableOf (event : String) : Call := .recordEvent "s1" event none none none none

def resetCalls : List Call :=
  [.createStrategy "s1" (some "u1") "Trend", stableOf "create", stableOf "stable", stableOf "stable",
    .resetStagnation "s1", stableOf "stable"]

theorem resetCalls_count : ∃ s ∈ (History.run resetCalls).db.strategies,
    s.stagnationCount = stableRun (beats s.id (History.run resetCalls).log) := by
  refine ⟨⟨"s1", some "u1", "Trend", "draft", 1, none, some .stable, 1⟩, by decide, ?_⟩
  refine (stagnation_count resetCalls _ (by decide) ?_).1
  have hbeats : beats "s1" (History.run resetCalls).log =
      [.event .create, .event .stable, .event .stable, .reset, .event .stable] := by decide
  show Steady (beats "s1" _)
  rw [hbeats]
  simp [Steady, Beat.Quiet]

/-- After a reset the stored counter is one and the discipline still counts three. -/
theorem resetCalls_disagree : ∃ s ∈ (History.run resetCalls).db.strategies,
    s.stagnationCount ≠ (History.run resetCalls).db.recentStableCount s.id := by
  decide

/-! ## Final reports -/

/-- Once the report is final it stays what it is to the end, and every call that is not over by then and gets to an end
raises `ReportFinalLocked`. -/
def StickyFinal {ι : Type} [DecidableEq ι] (reportId : String) (w : Publishers ι) (schedule : List (ι × String)) :
    Prop :=
  ∀ before after report, schedule = before ++ after →
    (Interleave.run (publishStep reportId) w before).shared.report? reportId = some report →
    report.authoringState = .final →
      (Interleave.run (publishStep reportId) w schedule).shared.report? reportId = some report ∧
      ∀ c, ¬ ((Interleave.run (publishStep reportId) w before).procs c).Over →
        ((Interleave.run (publishStep reportId) w schedule).procs c).Over →
          ((Interleave.run (publishStep reportId) w schedule).procs c).Locked

/-- **When a published report is immutable.** Exactly when no caller's `UPDATE` comes after another's. -/
theorem stickyFinal_iff {ι : Type} [DecidableEq ι] (db : Db) (reportId : String) (findings : ι → String)
    (schedule : List (ι × String)) :
    StickyFinal reportId (Publishers.start db findings) schedule ↔
      Interleave.Along (publishStep reportId) FirstUpdate (Publishers.start db findings) schedule := by
  constructor
  · intro hsticky
    rw [Interleave.along_iff]
    rintro before e after rfl hselected c hreturned
    have hw : Publishing reportId (Interleave.run (publishStep reportId) (Publishers.start db findings) before) :=
      publishing_run findings before
    obtain ⟨report, hreport, hfinal⟩ := hw.updated c hreturned
    obtain ⟨-, hlocked⟩ := hsticky before (e :: after) report rfl hreport hfinal
    -- The caller's own `UPDATE` goes through, so it is not locked out.
    have hupdated : ((Interleave.run (publishStep reportId) (Publishers.start db findings)
        (before ++ e :: after)).procs e.1).phase = .returned := by
      rw [Interleave.run_append]
      exact run_updated hselected
    have hopen : ¬ ((Interleave.run (publishStep reportId) (Publishers.start db findings) before).procs e.1).Over :=
      fun h => h.2 hselected
    obtain ⟨message, hraised⟩ := hlocked e.1 hopen (by simp [PublishCall.Over, hupdated])
    rw [hupdated] at hraised
    cases hraised
  · rintro hfirst before after report rfl hreport hfinal
    rw [Interleave.run_append]
    exact run_final (publishing_run findings before) hreport hfinal (Interleave.along_append.mp hfirst).2

def draftDb : Db := { Db.empty with
  strategies := [⟨"s1", some "u1", "Trend", "draft", 1, none, none, 0⟩]
  reports := [⟨"r1", "s1", 1, .draft, none, none⟩] }

def twoFindings : Fin 2 → String
  | 0 => "robust across regimes"
  | 1 => "fails in bear markets"

/-- Both callers select the draft, then both update it. -/
theorem twoFindings_not_sticky : ¬ StickyFinal "r1" (Publishers.start draftDb twoFindings)
    [(0, "2026-01-01"), (1, "2026-01-01"), (0, "2026-01-02"), (1, "2026-01-03")] := by
  intro h
  obtain ⟨hreport, -⟩ := h [(0, "2026-01-01"), (1, "2026-01-01"), (0, "2026-01-02")] [(1, "2026-01-03")]
    ⟨"r1", "s1", 1, .final, some "robust across regimes", some "2026-01-02"⟩ rfl (by decide) rfl
  revert hreport
  decide

/-! ## The dual write -/

/-- Neither the tables, as this connection and as the others see them, nor the file show the event. -/
structure NotShown (conn : Conn) (file : File) (strategyId : String) (after : Conn) (fileAfter : File) : Prop where
  committed : after.committed.events = conn.committed.events ∧
    after.committed.mirror strategyId = conn.committed.mirror strategyId
  working : after.working.events = conn.working.events ∧
    after.working.mirror strategyId = conn.working.mirror strategyId
  file : NoRow file fileAfter

/-- The tables show the event under its id, for everybody, and so do its strategy and the last line of the file. -/
structure Shown (repr : PyFloat → String) (conn : Conn) (file : File) (strategyId : String) (a : EventArgs)
    (event : Event) (id : ℕ) (after : Conn) (fileAfter : File) : Prop where
  committed : after.committed.events =
    conn.working.events ++ [⟨id, strategyId, a.version, event, a.sharpe, a.maxDd, some a.note⟩]
  mirror : after.committed.mirror strategyId =
    (conn.working.strategy? strategyId).map fun s => (some event, Db.stagnationAfter event s.stagnationCount)
  working : after.working = after.committed
  file : ∃ earlier, fileAfter = some (earlier ++ line (formatRow repr a)) ∧ earlier.getLast? = some '\n' ∧
    universalNewlines (file.getD []) <+: earlier

def AllOrNothing (repr : PyFloat → String) (conn : Conn) (file : File) (strategyId : String) (a : EventArgs)
    (o : Outcome) : Prop :=
  match o.result with
  | .ok id => ∃ event, Event.ofText a.event = some event ∧ Shown repr conn file strategyId a event id o.conn o.file
  | .error _ => NotShown conn file strategyId o.conn o.file

/-- **When a dual write is all or nothing.** Exactly when its checks stop it or the append goes through: by the time the
append can raise, the event is committed. -/
theorem allOrNothing_iff (repr : PyFloat → String) (conn : Conn) (file : File) (savepointId strategyId : String)
    (a : EventArgs) (fault : Option Fault) :
    AllOrNothing repr conn file strategyId a (recordEventDual repr conn file savepointId strategyId a fault) ↔
      Refused conn.working strategyId a ∨ ¬ Strikes file fault := by
  by_cases hrefused : Refused conn.working strategyId a
  · obtain ⟨e, heq⟩ := recordEventDual_refused repr file savepointId fault hrefused
    rw [heq]
    exact iff_of_true ⟨⟨rfl, rfl⟩, ⟨rfl, rfl⟩, Or.inl rfl⟩ (Or.inl hrefused)
  · obtain ⟨event, hevent, heq⟩ := recordEventDual_recorded repr file savepointId fault hrefused
    rw [heq]
    by_cases hstrikes : Strikes file fault
    · have hraises := (appendCrashSafe_struck (formatRow repr a) hstrikes).1
      refine iff_of_false ?_ (by simp [hrefused, hstrikes])
      rw [hraises]
      rintro ⟨-, ⟨hevents, -⟩, -⟩
      simp [Conn.recorded] at hevents
    · have hreturns := appendCrashSafe_returns (formatRow repr a) hstrikes
      refine iff_of_true ?_ (Or.inr hstrikes)
      rw [hreturns]
      obtain ⟨earlier, htext, hlast, hbefore⟩ := withRow_eq file (formatRow repr a)
      exact ⟨event, hevent, rfl, mirror_withEvent, rfl, earlier, congrArg some htext, hlast, hbefore⟩

def noGit : Commit where
  text := "no-git".toList
  plain := by
    have hall : ("no-git".toList.all fun c => c.isAlphanum || c = '-') = true := by decide
    intro c hc
    simpa using List.all_eq_true.mp hall c hc

def stableArgs : EventArgs where
  event := "stable"
  strategyName := "Trend"
  sharpe := none
  maxDd := none
  note := ""
  version := none
  commit := noGit

def draftConn : Conn where
  committed := draftDb
  working := draftDb
  savepoints := []

/-- The replace fails: the call raises, the event stays. -/
theorem failedReplace_half_written : ¬ AllOrNothing (fun _ => "") draftConn none "s1" stableArgs
    (recordEventDual (fun _ => "") draftConn none "eventlog_1" "s1" stableArgs (some .replace)) := by
  intro h
  have hevents := h.committed.1
  revert hevents
  decide

/-! ## Reading the log back -/

/-- One dict for each entry, in order, with the cleaned texts. -/
def ReadsBack (repr : PyFloat → String) (rows : List LogRow) : Prop :=
  readTsvEvents (appendRows repr none rows) = rows.map (LogRow.dict repr)

/-- **When a log reads back.** Exactly when no cleaned text holds a carriage return: `_clean` lets it through, and
reading the file makes a line of it. -/
theorem log_readsBack_iff (repr : PyFloat → String) (rows : List LogRow) :
    ReadsBack repr rows ↔ ∀ r ∈ rows, r.Whole repr := by
  unfold ReadsBack
  rw [readTsvEvents_appendRows]
  constructor
  · intro h
    have hlength := congrArg List.length h
    rw [List.length_map, List.length_map] at hlength
    have hone := length_flatMap_eq (fun r _ => (fullLines_row_ne_nil : fullLines (r.readText repr) ≠ [])) hlength.le
    intro r hr
    by_contra hbroken
    have := hone r hr
    have := two_le_fullLines hbroken
    omega
  · intro h
    have hlines : (rows.flatMap fun r => fullLines (r.readText repr)) = rows.map (LogRow.text repr) := by
      rw [List.flatMap_congr fun r hr => fullLines_whole (h r hr)]
      exact List.flatMap_pure_eq_map _ _
    rw [hlines, List.map_map]
    exact List.map_congr_left fun r _ => lineDict_text

/-- A note of two lines, the first of which ends with a carriage return. -/
def brokenRow : LogRow where
  commit := { noGit with nonempty := by decide }
  entry := { event := "stable", strategyName := "Trend", note := "first\x0dsecond" }

theorem brokenRow_split : ¬ ReadsBack (fun _ => "") [brokenRow] ∧
    (readTsvEvents (appendRows (fun _ => "") none [brokenRow])).length = 2 := by
  have hlength : (readTsvEvents (appendRows (fun _ => "") none [brokenRow])).length = 2 := by decide
  refine ⟨fun h => ?_, hlength⟩
  have := congrArg List.length h
  rw [hlength] at this
  cases this

/-! ## Several writers -/

/-- The header, the earlier rows, and one row for each call that has returned, in the order of the ids. -/
def CompleteLog {ι : Type} (repr : PyFloat → String) (earlier : Option (List (List Char))) (w : Writers ι) : Prop :=
  ∃ rows : List (ℕ × List Char), Holding earlier rows w.shared.text ∧ (rows.Pairwise fun a b => a.1 < b.1) ∧
    (∀ id row, (id, row) ∈ rows ↔ ∃ c, (w.procs c).phase = .returned id ∧ row = formatRow repr (w.procs c).args) ∧
    (∀ c d id, (w.procs c).phase = .returned id → (w.procs d).phase = .returned id → c = d) ∧
    ∀ p ∈ rows, p.2 ≠ header ∧ '\n' ∉ p.2 ∧ '\r' ∉ p.2

/-- **No row is lost.** In every state that sound steps reach, whatever their order, the file has the header once and
exactly one row for each call that has returned. -/
theorem log_complete {ι : Type} [DecidableEq ι] (repr : PyFloat → String) (strategyId : String) (db : Db)
    (earlier : Option (List (List Char))) (args : ι → EventArgs) (schedule : List (ι × Option ℕ))
    (hsound : Interleave.Along (writeStep repr strategyId) (WriteSound repr) (Writers.start db earlier args)
      schedule) :
    CompleteLog repr earlier (Interleave.run (writeStep repr strategyId) (Writers.start db earlier args) schedule) := by
  have hrun : (∃ rows, Logged repr earlier args rows
        (Interleave.run (writeStep repr strategyId) (Writers.start db earlier args) schedule)) ∧
      Numbered (Interleave.run (writeStep repr strategyId) (Writers.start db earlier args) schedule) := by
    refine Interleave.run_invariant (I := fun w => (∃ rows, Logged repr earlier args rows w) ∧ Numbered w) ?_
      ⟨⟨[], logged_start⟩, numbered_start⟩ hsound
    rintro w e ⟨⟨rows, hlogged⟩, hnumbered⟩ hok
    exact ⟨hlogged.step hok, hnumbered.step⟩
  obtain ⟨⟨rows, hlogged⟩, hnumbered⟩ := hrun
  have hid : ∀ {c : Writer} {id}, c.phase = .returned id → c.id? = some id := by
    intro c id hphase
    simp [Writer.id?, hphase]
  refine ⟨rows, hlogged.text, hlogged.sorted, ?_, ?_, ?_⟩
  · intro id row
    simp only [hlogged.returned, hlogged.called]
  · intro c d id hc hd
    exact hnumbered.distinct c d id (hid hc) (hid hd)
  · rintro ⟨id, row⟩ hp
    obtain ⟨c, hc, rfl⟩ := (hlogged.returned id row).mp hp
    obtain ⟨event, hevent⟩ := hnumbered.known c id (hid hc)
    rw [hlogged.called] at hevent
    exact ⟨formatRow_ne_header hevent, newline_notMem_formatRow, hlogged.oneLine _ hp⟩

def noFloats : PyFloat → String := fun _ => ""

inductive Caller
  | first
  | second
  deriving DecidableEq

def twoEvents : Caller → EventArgs
  | .first => stableArgs
  | .second => { stableArgs with event := "evolve" }

def steps (c : Caller) (n : ℕ) : List (Caller × Option ℕ) := List.replicate n (c, none)

/-- After the inserts one caller goes through the file, then the other. -/
def oneByOne : List (Caller × Option ℕ) :=
  steps .first 3 ++ steps .second 3 ++ steps .first 6 ++ steps .second 4

theorem oneByOne_complete : CompleteLog noFloats none
    (Interleave.run (writeStep noFloats "s1") (Writers.start draftDb none twoEvents) oneByOne) := by
  refine log_complete noFloats "s1" draftDb none twoEvents oneByOne ?_
  refine ⟨trivial, trivial, trivial, trivial, trivial, trivial, trivial, fun _ => Or.inl (by decide), ?_, trivial,
    trivial, fun _ => ⟨by decide, by decide, ?_⟩, trivial, trivial, trivial, fun _ => ⟨by decide, by decide, ?_⟩,
    trivial⟩
  · intro written h
    cases h
  · intro d other h
    cases d with
    | first => cases h
    | second => cases h
  · intro d other h
    cases d with
    | first =>
        cases h
        decide
    | second => cases h

/-- Both callers read the header, then both replace the file. -/
def bothRead : List (Caller × Option ℕ) :=
  steps .first 3 ++ steps .second 3 ++ steps .first 4 ++ steps .second 2 ++ steps .first 2 ++ steps .second 2

theorem bothRead_lose_row :
    (∀ c, ∃ id, ((Interleave.run (writeStep noFloats "s1") (Writers.start draftDb none twoEvents) bothRead).procs
      c).phase = .returned id) ∧
    ¬ CompleteLog noFloats none
      (Interleave.run (writeStep noFloats "s1") (Writers.start draftDb none twoEvents) bothRead) := by
  have hfirst : ((Interleave.run (writeStep noFloats "s1") (Writers.start draftDb none twoEvents) bothRead).procs
      .first).phase = .returned 1 := by decide
  have hsecond : ((Interleave.run (writeStep noFloats "s1") (Writers.start draftDb none twoEvents) bothRead).procs
      .second).phase = .returned 2 := by decide
  have hlines : (Interleave.run (writeStep noFloats "s1") (Writers.start draftDb none twoEvents)
      bothRead).shared.text.count '\n' = 2 := by decide
  generalize Interleave.run (writeStep noFloats "s1") (Writers.start draftDb none twoEvents) bothRead = w at *
  constructor
  · intro c
    cases c with
    | first => exact ⟨1, hfirst⟩
    | second => exact ⟨2, hsecond⟩
  · rintro ⟨rows, htext, -, hreturned, -⟩
    have hrows : [(1, formatRow noFloats (w.procs .first).args), (2, formatRow noFloats (w.procs .second).args)] ⊆
        rows := by
      simp only [List.cons_subset, List.nil_subset, and_true]
      exact ⟨(hreturned 1 _).mpr ⟨.first, hfirst, rfl⟩, (hreturned 2 _).mpr ⟨.second, hsecond, rfl⟩⟩
    have hlength : 2 ≤ rows.length := (List.subperm_of_subset (by simp) hrows).length_le
    rcases htext with htext | ⟨-, rfl, -⟩
    · have hcount := length_lt_count_logText (rows.map Prod.snd)
      rw [List.length_map] at hcount
      rw [htext, Option.getD_none, List.nil_append] at hlines
      omega
    · cases hlength

end CryptoAggHarmonic.FtStrategy
