import CryptoAggHarmonic.FtStrategy.Writers
import CryptoAggHarmonic.Lib.Table
import CryptoAggHarmonic.FtStrategy.Lemmas.Writers

/-!
# What interleaved publishers keep

The report is final exactly from the first `UPDATE` on, as long as it was no final report to begin with. What goes wrong
afterwards is an `UPDATE` of a caller whose `SELECT` came before.
-/

namespace CryptoAggHarmonic.FtStrategy

variable {ι : Type} {reportId finding now : String} {db : Db} {report : Report} {c : PublishCall}
  {w : Publishers ι} {e : ι × String} {schedule : List (ι × String)}

def Db.ReportFinal (db : Db) (reportId : String) : Prop :=
  ∃ report, db.report? reportId = some report ∧ report.authoringState = .final

theorem publishCheck_ok (h : db.publishCheck reportId finding = .ok ()) :
    (db.report? reportId).isSome ∧ ¬ db.ReportFinal reportId := by
  unfold Db.publishCheck at h
  cases hreport : db.report? reportId with
  | none => simp [hreport] at h
  | some report =>
      refine ⟨rfl, ?_⟩
      rintro ⟨other, hother, hfinal⟩
      rw [hreport] at hother
      cases hother
      simp [hreport, hfinal] at h

theorem publishCheck_final (h : db.ReportFinal reportId) :
    db.publishCheck reportId finding =
      .error (.reportFinalLocked "report is already final; create a new draft for revisions") := by
  obtain ⟨report, hreport, hfinal⟩ := h
  unfold Db.publishCheck
  rw [hreport]
  exact if_pos hfinal

theorem report?_publishUpdate : (db.publishUpdate reportId finding now).report? reportId =
    (db.report? reportId).map fun r =>
      { r with authoringState := .final, reservedFinding := some finding, publishedAt := some now } := by
  exact Rows.find?_update fun _ => rfl

/-! ## One step -/

theorem publishStep_over (h : c.Over) : publishStep reportId now db c = (db, c) := by
  unfold publishStep
  cases hphase : c.phase with
  | start => exact absurd hphase h.1
  | selected => exact absurd hphase h.2
  | returned => rfl
  | raised error => rfl

/-- What a step has done to the database and made of the call: nothing, when the call is over. -/
theorem publishStep_cases (reportId now : String) (db : Db) (c : PublishCall) :
    (c.Over ∧ publishStep reportId now db c = (db, c)) ∨
    (c.phase = .start ∧ db.publishCheck reportId c.reservedFinding = .ok () ∧
      publishStep reportId now db c = (db, { c with phase := .selected })) ∨
    (c.phase = .start ∧ ∃ error, db.publishCheck reportId c.reservedFinding = .error error ∧
      publishStep reportId now db c = (db, { c with phase := .raised error })) ∨
    (c.phase = .selected ∧
      publishStep reportId now db c =
        (db.publishUpdate reportId c.reservedFinding now, { c with phase := .returned })) := by
  cases hphase : c.phase with
  | start =>
      cases hcheck : db.publishCheck reportId c.reservedFinding with
      | ok u => exact Or.inr (Or.inl ⟨rfl, rfl, by simp [publishStep, hphase, hcheck]⟩)
      | error error => exact Or.inr (Or.inr (Or.inl ⟨rfl, error, rfl, by simp [publishStep, hphase, hcheck]⟩))
  | selected => exact Or.inr (Or.inr (Or.inr ⟨rfl, by simp [publishStep, hphase]⟩))
  | returned =>
      have hover : c.Over := by simp [PublishCall.Over, hphase]
      exact Or.inl ⟨hover, publishStep_over hover⟩
  | raised error =>
      have hover : c.Over := by simp [PublishCall.Over, hphase]
      exact Or.inl ⟨hover, publishStep_over hover⟩

/-! ## All callers -/

/-- The report that a caller has selected is there, one that a caller has updated is final, and when a final report has
been selected it was a draft then, so some caller has updated it since. -/
structure Publishing (reportId : String) (w : Publishers ι) : Prop where
  present : ∀ c, (w.procs c).phase = .selected → (w.shared.report? reportId).isSome
  updated : ∀ c, (w.procs c).phase = .returned → w.shared.ReportFinal reportId
  selected : ∀ c, (w.procs c).phase = .selected → w.shared.ReportFinal reportId → ∃ d, (w.procs d).phase = .returned

theorem publishing_start (findings : ι → String) : Publishing reportId (Publishers.start db findings) := by
  constructor
  · intro c hc
    cases hc
  · intro c hc
    cases hc
  · intro c hc
    cases hc

theorem reportFinal_publishUpdate (h : (db.report? reportId).isSome) :
    (db.publishUpdate reportId finding now).ReportFinal reportId := by
  obtain ⟨report, hreport⟩ := Option.isSome_iff_exists.mp h
  exact ⟨_, by rw [report?_publishUpdate, hreport]; rfl, rfl⟩

section

variable [DecidableEq ι]

theorem Publishing.step (h : Publishing reportId w) :
    Publishing reportId (Interleave.step (publishStep reportId) w e) := by
  rcases publishStep_cases reportId e.2 w.shared (w.procs e.1) with
    ⟨-, hstep⟩ | ⟨hphase, hcheck, hstep⟩ | ⟨hphase, error, -, hstep⟩ | ⟨hphase, hstep⟩
  · rw [Interleave.step_idle hstep]
    exact h
  · have hshared : (Interleave.step (publishStep reportId) w e).shared = w.shared := by
      rw [Interleave.step_shared, hstep]
    obtain ⟨hsome, hdraft⟩ := publishCheck_ok hcheck
    constructor
    · intro c _
      rw [hshared]
      exact hsome
    · rw [hshared]
      refine Interleave.forall_procs_step
        (P := fun (_ : ι) (p : PublishCall) => p.phase = .returned → w.shared.ReportFinal reportId) ?_
        fun c _ => h.updated c
      rw [hstep]
      intro hreturned
      cases hreturned
    · intro c _ hfin
      rw [hshared] at hfin
      exact absurd hfin hdraft
  · have hshared : (Interleave.step (publishStep reportId) w e).shared = w.shared := by
      rw [Interleave.step_shared, hstep]
    have hbefore : ∀ c phase, (∀ error, phase ≠ .raised error) →
        ((Interleave.step (publishStep reportId) w e).procs c).phase = phase → (w.procs c).phase = phase := by
      refine Interleave.forall_procs_step (P := fun c (p : PublishCall) => ∀ phase, (∀ error, phase ≠ .raised error) →
        p.phase = phase → (w.procs c).phase = phase) ?_ fun _ _ _ _ hc => hc
      rw [hstep]
      exact fun phase hne hc => absurd hc.symm (hne error)
    constructor
    · intro c hc
      rw [hshared]
      exact h.present c (hbefore c _ (by simp) hc)
    · intro c hc
      rw [hshared]
      exact h.updated c (hbefore c _ (by simp) hc)
    · intro c hc hfin
      rw [hshared] at hfin
      have hreturned := h.selected c (hbefore c _ (by simp) hc) hfin
      exact Interleave.exists_procs_step (P := fun p : PublishCall => p.phase = .returned) hreturned
        (by simp [hphase])
  · have hshared : (Interleave.step (publishStep reportId) w e).shared =
        w.shared.publishUpdate reportId (w.procs e.1).reservedFinding e.2 := by
      rw [Interleave.step_shared, hstep]
    have hfin : (w.shared.publishUpdate reportId (w.procs e.1).reservedFinding e.2).ReportFinal reportId :=
      reportFinal_publishUpdate (h.present e.1 hphase)
    have hsome : (w.shared.publishUpdate reportId (w.procs e.1).reservedFinding e.2).report? reportId |>.isSome := by
      obtain ⟨report, hreport, -⟩ := hfin
      rw [hreport]
      rfl
    constructor
    · intro c _
      rw [hshared]
      exact hsome
    · intro c _
      rw [hshared]
      exact hfin
    · intro c _ _
      exact ⟨e.1, by rw [Interleave.step_procs_self, hstep]⟩

theorem publishing_run (findings : ι → String) (schedule : List (ι × String)) :
    Publishing reportId (Interleave.run (publishStep reportId) (Publishers.start db findings) schedule) := by
  induction schedule using List.reverseRecOn with
  | nil => exact publishing_start findings
  | append_singleton es e ih =>
      rw [Interleave.run_append]
      exact ih.step

theorem run_over {d : ι} (h : (w.procs d).Over) :
    (Interleave.run (publishStep reportId) w schedule).procs d = w.procs d := by
  refine Interleave.run_halted fun now db => ?_
  rw [publishStep_over h]

/-- The `UPDATE` of a caller that has selected goes through, whatever the others have done. -/
theorem run_updated (h : (w.procs e.1).phase = .selected) :
    ((Interleave.run (publishStep reportId) w (e :: schedule)).procs e.1).phase = .returned := by
  have hself : (Interleave.step (publishStep reportId) w e).procs e.1 =
      { w.procs e.1 with phase := .returned } := by
    rw [Interleave.step_procs_self, publishStep, h]
  have hover : ((Interleave.step (publishStep reportId) w e).procs e.1).Over := by
    rw [hself]
    simp [PublishCall.Over]
  rw [Interleave.run_cons, run_over hover, hself]

/-! ## A final report stays -/

/-- An `UPDATE` is taken only while no other caller has taken its own. -/
def FirstUpdate (w : Publishers ι) (e : ι × String) : Prop :=
  (w.procs e.1).phase = .selected → ∀ c, (w.procs c).phase ≠ .returned

def PublishCall.Locked (c : PublishCall) : Prop := ∃ message, c.phase = .raised (.reportFinalLocked message)

/-- From a final report on nothing changes it any more, and the callers that get to an end are locked out. -/
theorem run_final (hw : Publishing reportId w) (hreport : w.shared.report? reportId = some report)
    (hfin : report.authoringState = .final) (hfirst : Interleave.Along (publishStep reportId) FirstUpdate w schedule) :
    (Interleave.run (publishStep reportId) w schedule).shared.report? reportId = some report ∧
    ∀ c, ¬ (w.procs c).Over → ((Interleave.run (publishStep reportId) w schedule).procs c).Over →
      ((Interleave.run (publishStep reportId) w schedule).procs c).Locked := by
  induction schedule generalizing w with
  | nil => exact ⟨hreport, fun c hopen hover => absurd hover hopen⟩
  | cons e es ih =>
      rw [Interleave.run_cons]
      have hself : (Interleave.step (publishStep reportId) w e).procs e.1 =
          (publishStep reportId e.2 w.shared (w.procs e.1)).2 := Interleave.step_procs_self
      have hshared : (Interleave.step (publishStep reportId) w e).shared =
          (publishStep reportId e.2 w.shared (w.procs e.1)).1 := rfl
      have hlocked : w.shared.publishCheck reportId (w.procs e.1).reservedFinding =
          .error (.reportFinalLocked "report is already final; create a new draft for revisions") :=
        publishCheck_final ⟨report, hreport, hfin⟩
      rcases publishStep_cases reportId e.2 w.shared (w.procs e.1) with
        ⟨-, hstep⟩ | ⟨-, hcheck, -⟩ | ⟨hphase, error, hcheck, hstep⟩ | ⟨hphase, -⟩
      · have hrest := hfirst.2
        rw [Interleave.step_idle hstep] at hrest ⊢
        exact ih hw hreport hrest
      · rw [hcheck] at hlocked
        cases hlocked
      · rw [hcheck] at hlocked
        cases hlocked
        rw [hstep] at hself hshared
        obtain ⟨hlast, hothers⟩ := ih hw.step (hshared ▸ hreport) hfirst.2
        refine ⟨hlast, fun c hopen hover => ?_⟩
        by_cases hce : c = e.1
        · subst hce
          have hdone : ((Interleave.step (publishStep reportId) w e).procs e.1).Over := by
            rw [hself]
            simp [PublishCall.Over]
          rw [run_over hdone, hself]
          exact ⟨_, rfl⟩
        · refine hothers c ?_ hover
          rw [Interleave.step_procs_other hce]
          exact hopen
      · obtain ⟨d, hd⟩ := hw.selected e.1 hphase ⟨report, hreport, hfin⟩
        exact absurd hd (hfirst.1 hphase d)

end

end CryptoAggHarmonic.FtStrategy

/-!
# Calls that run alone

When nobody comes between its steps, a call of several steps is the call of one step.
-/

namespace CryptoAggHarmonic.FtStrategy

variable {repr : PyFloat → String} {strategyId : String} {s : Store} {c : Writer} {id : ℕ}

/-! ## Writers -/

/-- Up to the mirror. -/
theorem alone_database (repr : PyFloat → String) (hphase : c.phase = .validate)
    (hpasses : ¬ Refused s.db strategyId c.args) : ∃ event, Event.ofText c.args.event = some event ∧
    (fun p : Store × Writer => writeStep repr strategyId none p.1 p.2)^[3] (s, c) =
      ({ s with db := s.db.withEvent strategyId event c.args }, c.goto (.stat s.db.nextEventId)) := by
  have hvalid := validateEvent_eq_ok.mpr hpasses
  have hsome : Event.ofText c.args.event ≠ none := fun hnone => hpasses (Or.inl hnone)
  obtain ⟨event, hevent⟩ := Option.ne_none_iff_exists'.mp hsome
  have hknown : s.db.hasStrategy strategyId := by
    rw [← Bool.not_eq_false]
    exact fun hno => hpasses (Or.inr (Or.inr hno))
  refine ⟨event, hevent, ?_⟩
  simp [Function.iterate_succ_apply, writeStep, hphase, hvalid, hevent, Db.insertEvent, hknown, Writer.goto,
    Db.withEvent]

/-- From the read on. -/
theorem alone_append (hphase : c.phase = .read id) (htext : s.text ≠ []) :
    (fun p : Store × Writer => writeStep repr strategyId none p.1 p.2)^[3] (s, c) =
      (s.replaceBy (withRow (universalNewlines s.text) (formatRow repr c.args)), c.goto (.returned id)) := by
  have hpath : s.path ≠ none := fun hnone => htext (Store.text_of_no_path hnone)
  simp [Function.iterate_succ_apply, writeStep, hphase, hpath, Writer.goto]

theorem alone_file (repr : PyFloat → String) (strategyId : String) (hnamed : s.Named) (hphase : c.phase = .stat id) :
    ∃ s', (fun p : Store × Writer => writeStep repr strategyId none p.1 p.2)^[6] (s, c) =
        (s', c.goto (.returned id)) ∧
      s'.db = s.db ∧ s'.file = some (withRow (universalNewlines s.file.withHeader) (formatRow repr c.args)) := by
  unfold File.withHeader
  cases hempty : s.file.isEmpty with
  | true =>
      let headed := s.openTruncated.1.writeFirst s.openTruncated.2 (line header)
      have htext : headed.text = line header := by
        rw [Store.text_writeFirst_self (Store.named_openTruncated hnamed) Store.openTruncated_path,
          Store.text_openTruncated, List.drop_nil, List.append_nil]
      have hsteps : (fun p : Store × Writer => writeStep repr strategyId none p.1 p.2)^[3] (s, c) =
          (headed, c.goto (.read id)) := by
        simp [Function.iterate_succ_apply, writeStep, hphase, hempty, Writer.goto, headed]
      refine ⟨headed.replaceBy (withRow (universalNewlines headed.text) (formatRow repr c.args)), ?_, ?_, ?_⟩
      · rw [Function.iterate_add_apply _ 3 3, hsteps, alone_append rfl (by simp [htext, line])]
        rfl
      · exact Store.openTruncated_db
      · rw [Store.file_replaceBy, htext]
        rfl
  | false =>
      have htext : s.text ≠ [] := of_decide_eq_false hempty
      have hstep : (fun p : Store × Writer => writeStep repr strategyId none p.1 p.2)^[1] (s, c) =
          (s, c.goto (.read id)) := by
        simp [writeStep, hphase, hempty]
      refine ⟨s.replaceBy (withRow (universalNewlines s.text) (formatRow repr c.args)), ?_, rfl,
        Store.file_replaceBy⟩
      -- The two steps that are left do nothing.
      rw [Function.iterate_add_apply _ 2 4, Function.iterate_add_apply _ 3 1, hstep, alone_append rfl htext]
      rfl

section

variable {ι : Type} [DecidableEq ι] {who : ι}

/-- **A writer alone is the dual write.** -/
theorem writer_alone {w : Writers ι} (savepointId : String) (hnamed : w.shared.Named)
    (hphase : (w.procs who).phase = .validate) (hpasses : ¬ Refused w.shared.db strategyId (w.procs who).args) :
    ∃ id o, o = recordEventDual repr ⟨w.shared.db, w.shared.db, []⟩ w.shared.file savepointId strategyId
        (w.procs who).args none ∧
      o.result = .ok id ∧
      ((Interleave.run (writeStep repr strategyId) w (List.replicate 9 (who, none))).procs who).phase =
        .returned id ∧
      (Interleave.run (writeStep repr strategyId) w (List.replicate 9 (who, none))).shared.db = o.conn.committed ∧
      (Interleave.run (writeStep repr strategyId) w (List.replicate 9 (who, none))).shared.file = o.file := by
  obtain ⟨event, hevent, hdual⟩ := recordEventDual_recorded repr w.shared.file savepointId none
    (show ¬ Refused (Conn.mk w.shared.db w.shared.db []).working strategyId (w.procs who).args from hpasses)
  rw [appendCrashSafe_returns _ id] at hdual
  obtain ⟨other, hother, hdatabase⟩ := alone_database repr hphase hpasses
  rw [hevent] at hother
  cases hother
  let recorded : Store := { w.shared with db := w.shared.db.withEvent strategyId event (w.procs who).args }
  obtain ⟨s', hfile, hdb, htsv⟩ := alone_file repr strategyId (show recorded.Named from hnamed)
    (show ((w.procs who).goto (.stat w.shared.db.nextEventId)).phase = .stat w.shared.db.nextEventId from rfl)
  have hrun : ((Interleave.run (writeStep repr strategyId) w (List.replicate 9 (who, none))).shared,
      (Interleave.run (writeStep repr strategyId) w (List.replicate 9 (who, none))).procs who) =
        (s', (w.procs who).goto (.returned w.shared.db.nextEventId)) := by
    rw [Interleave.run_alone, Function.iterate_add_apply _ 6 3, hdatabase, hfile]
    rfl
  rw [Prod.mk.injEq] at hrun
  refine ⟨w.shared.db.nextEventId, _, hdual.symm, rfl, ?_, ?_, ?_⟩
  · rw [hrun.2]
    rfl
  · rw [hrun.1]
    exact hdb
  · rw [hrun.1]
    exact htsv

/-! ## Publishers -/

/-- **A publisher alone is the call of the repository.** -/
theorem publisher_alone {w : Publishers ι} {reportId now : String} (hphase : (w.procs who).phase = .start) :
    ((Interleave.run (publishStep reportId) w (List.replicate 2 (who, now))).shared,
      (Interleave.run (publishStep reportId) w (List.replicate 2 (who, now))).procs who) =
        match w.shared.publishReport reportId (w.procs who).reservedFinding now with
        | .ok db => (db, { w.procs who with phase := .returned })
        | .error error => (w.shared, { w.procs who with phase := .raised error }) := by
  rw [Interleave.run_alone]
  unfold Db.publishReport
  cases hcheck : w.shared.publishCheck reportId (w.procs who).reservedFinding with
  | ok u => simp [publishStep, hphase, hcheck, bind, Except.bind, pure, Except.pure]
  | error error => simp [publishStep, hphase, hcheck, bind, Except.bind]

end

end CryptoAggHarmonic.FtStrategy
