import CryptoAggHarmonic.FtStrategy.Repo
import CryptoAggHarmonic.Lib.Table

/-!
# Runs of the repository

Any calls one after the other on an empty database, with the log of those that returned.
-/

namespace CryptoAggHarmonic.FtStrategy

inductive Call
  | createStrategy (newId : String) (userId : Option String) (name : String)
  | refine (strategyId : String)
  | updateStatus (strategyId status : String)
  | updateLatestResult (strategyId : String) (latestResult : LatestResult)
  | recordExperiment (newId strategyId : String) (versionFrom : ℤ) (verdict reasoning : String)
      (decidedBy : Option String)
  | createReport (newId strategyId : String) (version : ℤ) (reservedFinding : Option String)
  | publishReport (reportId reservedFinding now : String)
  | recordEvent (strategyId event : String) (version : Option ℤ) (sharpe maxDd : Option PyFloat)
      (note : Option String)
  | resetStagnation (strategyId : String)
  | deploy (user : Option String) (strategyId : String)
  deriving DecidableEq

def Db.exec (db : Db) : Call → Except RepoError Db
  | .createStrategy newId userId name => (db.createStrategy newId userId name).map Prod.snd
  | .refine strategyId => db.refine strategyId
  | .updateStatus strategyId status => .ok (db.updateStatus strategyId status)
  | .updateLatestResult strategyId latestResult => .ok (db.updateLatestResult strategyId latestResult)
  | .recordExperiment newId strategyId versionFrom verdict reasoning decidedBy =>
      db.recordExperiment newId strategyId versionFrom verdict reasoning decidedBy
  | .createReport newId strategyId version reservedFinding => db.createReport newId strategyId version reservedFinding
  | .publishReport reportId reservedFinding now => db.publishReport reportId reservedFinding now
  | .recordEvent strategyId event version sharpe maxDd note =>
      (db.recordEvent strategyId event version sharpe maxDd note).map Prod.snd
  | .resetStagnation strategyId => .ok (db.resetStagnation strategyId)
  | .deploy user strategyId => .ok (deployOne db user strategyId).2

structure History where
  db : Db
  /-- The calls that returned. -/
  log : List Call

namespace History

def start : History where
  db := .empty
  log := []

def step (h : History) (c : Call) : History :=
  match h.db.exec c with
  | .ok db => { db := db, log := h.log ++ [c] }
  | .error _ => h

def run (calls : List Call) : History := calls.foldl step start

/-- **The run rule**: what every call that returns keeps holds after every run. -/
theorem run_invariant {I : History → Prop} (h₀ : I start)
    (hstep : ∀ h c db, I h → h.db.exec c = .ok db → I { db := db, log := h.log ++ [c] }) (calls : List Call) :
    I (run calls) := by
  unfold run
  induction calls using List.reverseRecOn with
  | nil => exact h₀
  | append_singleton calls c ih =>
      rw [List.foldl_append, List.foldl_cons, List.foldl_nil]
      generalize calls.foldl step start = h at ih ⊢
      unfold step
      cases hexec : h.db.exec c with
      | ok db => exact hstep h c db ih hexec
      | error e => exact ih

end History

/-! ## What a call that returns has done -/

/-- The calls that leave the metrics, the counter, the reports and the events as they are. -/
def Call.Plain : Call → Prop
  | .refine _ | .updateStatus _ _ | .recordExperiment _ _ _ _ _ _ | .deploy _ _ => True
  | _ => False

/-- An update that touches neither the metrics nor the counter of a strategy. -/
def Outward (set : Strategy → Strategy) : Prop :=
  ∀ s, (set s).id = s.id ∧ (set s).latestResult = s.latestResult ∧ (set s).stagnationCount = s.stagnationCount

/-- Everything a call that returns can have done. -/
inductive Effect (db : Db) : Call → Db → Prop
  | create (s : Strategy) (hnew : db.hasStrategy s.id = false) (hresult : s.latestResult = none)
      (hcount : s.stagnationCount = 0) :
      Effect db (.createStrategy s.id s.userId s.name) { db with strategies := db.strategies ++ [s] }
  | metrics (strategyId : String) (result : LatestResult) :
      Effect db (.updateLatestResult strategyId result) (db.updateLatestResult strategyId result)
  | reset (strategyId : String) : Effect db (.resetStagnation strategyId) (db.resetStagnation strategyId)
  | report (newId strategyId : String) (version : ℤ) (finding : Option String) (r : Report)
      (hdraft : r.authoringState = .draft) :
      Effect db (.createReport newId strategyId version finding) { db with reports := db.reports ++ [r] }
  | publish (reportId finding now : String) (hcheck : db.publishCheck reportId finding = .ok ()) :
      Effect db (.publishReport reportId finding now) (db.publishUpdate reportId finding now)
  | event (text : String) (e : EventRow) (htext : Event.ofText text = some e.event)
      (hknown : db.hasStrategy e.strategyId) :
      Effect db (.recordEvent e.strategyId text e.version e.sharpe e.maxDd e.note)
        (Db.mirrorEvent { db with events := db.events ++ [e], nextEventId := db.nextEventId + 1 } e.strategyId e.event)
  | update (c : Call) (hplain : c.Plain) (strategyId : String) (set : Strategy → Strategy) (hset : Outward set) :
      Effect db c (db.updateStrategy strategyId set)
  | aside (c : Call) (hplain : c.Plain) (db' : Db) (hstrategies : db'.strategies = db.strategies)
      (hevents : db'.events = db.events) (hreports : db'.reports = db.reports) : Effect db c db'

section

variable {db db' : Db} {c : Call} {s : Strategy} {strategyId : String} {set : Strategy → Strategy}

theorem mem_updateStrategy : s ∈ (db.updateStrategy strategyId set).strategies ↔
    ∃ t ∈ db.strategies, s = if t.id = strategyId then set t else t := Rows.mem_update

theorem hasStrategy_iff : db.hasStrategy strategyId ↔ ∃ s ∈ db.strategies, s.id = strategyId := by
  simp [Db.hasStrategy]

theorem hasStrategy_of_update {sid : String} (h : (db.updateStrategy sid set).hasStrategy strategyId = false)
    (hset : ∀ s, (set s).id = s.id) : db.hasStrategy strategyId = false := by
  rw [← Bool.not_eq_true, hasStrategy_iff] at h ⊢
  rintro ⟨t, ht, hid⟩
  refine h ⟨_, mem_updateStrategy.mpr ⟨t, ht, rfl⟩, ?_⟩
  split_ifs
  · rwa [hset]
  · exact hid

theorem recordExperiment_effect {newId verdict reasoning : String} {versionFrom : ℤ} {decidedBy : Option String}
    (h : db.recordExperiment newId strategyId versionFrom verdict reasoning decidedBy = .ok db') :
    db'.strategies = db.strategies ∧ db'.events = db.events ∧ db'.reports = db.reports := by
  unfold Db.recordExperiment at h
  cases hreason : Db.checkReasoning reasoning with
  | error e => simp [hreason, bind, Except.bind] at h
  | ok _ =>
      simp only [hreason, bind, Except.bind] at h
      split at h
      · cases h
      · split_ifs at h
        cases h
        exact ⟨rfl, rfl, rfl⟩

theorem publishReport_eq_ok {reportId finding now : String} (h : db.publishReport reportId finding now = .ok db') :
    db.publishCheck reportId finding = .ok () ∧ db' = db.publishUpdate reportId finding now := by
  unfold Db.publishReport at h
  cases hcheck : db.publishCheck reportId finding with
  | error e => simp [hcheck, bind, Except.bind] at h
  | ok _ =>
      simp only [hcheck, bind, Except.bind, pure, Except.pure, Except.ok.injEq] at h
      exact ⟨rfl, h.symm⟩

theorem deployOne_snd (db : Db) (user : Option String) (strategyId : String) :
    (deployOne db user strategyId).2 = db ∨
      (deployOne db user strategyId).2 = db.updateStatus strategyId "pending_review" := by
  unfold deployOne
  cases loadOwnedStrategy db user strategyId with
  | error _ => exact Or.inl rfl
  | ok s =>
      dsimp only
      split_ifs
      · exact Or.inl rfl
      · exact Or.inr rfl

theorem exec_effect (h : db.exec c = .ok db') : Effect db c db' := by
  cases c with
  | createStrategy newId userId name =>
      simp only [Db.exec, Db.createStrategy] at h
      split_ifs at h with hnew
      · cases h
      · cases h
        exact .create ⟨newId, userId, name, "draft", 1, none, some .create, 0⟩ (by simpa using hnew) rfl rfl
  | refine strategyId =>
      simp only [Db.exec, Db.refine] at h
      split_ifs at h
      cases h
      exact .update (.refine strategyId) trivial _ _ fun _ => ⟨rfl, rfl, rfl⟩
  | updateStatus strategyId status =>
      cases h
      exact .update (.updateStatus strategyId status) trivial _ _ fun _ => ⟨rfl, rfl, rfl⟩
  | updateLatestResult strategyId result =>
      cases h
      exact .metrics strategyId result
  | recordExperiment newId strategyId versionFrom verdict reasoning decidedBy =>
      obtain ⟨hstrategies, hevents, hreports⟩ := recordExperiment_effect h
      exact .aside (.recordExperiment ..) trivial db' hstrategies hevents hreports
  | createReport newId strategyId version finding =>
      simp only [Db.exec, Db.createReport] at h
      split_ifs at h
      cases h
      exact .report _ _ _ _ _ rfl
  | publishReport reportId finding now =>
      obtain ⟨hcheck, rfl⟩ := publishReport_eq_ok h
      exact .publish reportId finding now hcheck
  | recordEvent strategyId text version sharpe maxDd note =>
      simp only [Db.exec, Db.recordEvent, Db.insertEvent] at h
      cases he : Event.ofText text with
      | none => simp [he, Except.map] at h
      | some e =>
          simp only [he] at h
          split_ifs at h with hknown
          · cases h
            exact .event text ⟨db.nextEventId, strategyId, version, e, sharpe, maxDd, note⟩ he hknown
          · cases h
  | resetStagnation strategyId =>
      cases h
      exact .reset strategyId
  | deploy user strategyId =>
      simp only [Db.exec, Except.ok.injEq] at h
      rcases deployOne_snd db user strategyId with heq | heq <;> rw [heq] at h <;> subst h
      · exact .aside (.deploy user strategyId) trivial db rfl rfl rfl
      · exact .update (.deploy user strategyId) trivial _ _ fun _ => ⟨rfl, rfl, rfl⟩

end

end CryptoAggHarmonic.FtStrategy
