import CryptoAggHarmonic.FtStrategy.Api
import CryptoAggHarmonic.FtStrategy.Lemmas.EventLog

/-!
# Whose rows

The part of a database that belongs to some users, and what an operation on one strategy leaves alone.
-/

namespace CryptoAggHarmonic.FtStrategy

def Columns.blank {J : Type} : Columns J := ⟨none, "", "", "", "", [], none, none, none, none, none, "", ""⟩

namespace Site

variable {J : Type}

/-- The strategy with that id has a user of `P`. -/
def ownedBy (P : Option String → Bool) (s : Site J) (strategyId : String) : Bool :=
  (s.db.strategies.filter fun t => P t.userId).any fun t => t.id = strategyId

/-- The rows and files of the users of `P`. -/
def restrict (P : Option String → Bool) (s : Site J) : Site J where
  db := {
    strategies := s.db.strategies.filter fun t => P t.userId
    events := s.db.events.filter fun e => s.ownedBy P e.strategyId
    -- the counter of the event ids is no row
    nextEventId := 0
    experiments := s.db.experiments.filter fun e => s.ownedBy P e.strategyId
    reports := s.db.reports.filter fun r => s.ownedBy P r.strategyId }
  columns := fun id => if s.ownedBy P id then s.columns id else .blank
  runs := s.runs.filter fun r => s.ownedBy P r.strategyId
  jobs := s.jobs.filter fun j => s.ownedBy P j.strategyId
  insights := s.insights.filter fun i => i.strategyId.any (s.ownedBy P)
  files := fun id => if s.ownedBy P id then s.files id else none

def isUser (user : String) : Option String → Bool := fun owner => owner = some user

def isOther (user : String) : Option String → Bool := fun owner => owner ≠ some user

/-- `id TEXT PRIMARY KEY` -/
def Keyed (s : Site J) : Prop := (s.db.strategies.map Strategy.id).Nodup

/-- A row with that id is one of the user. -/
def Of (user strategyId : String) (s : Site J) : Prop :=
  ∀ t ∈ s.db.strategies, t.id = strategyId → t.userId = some user

/-- Everything but the rows and the file of one strategy is as it was. -/
structure Apart (strategyId : String) (s s' : Site J) : Prop where
  strategies : (s'.db.strategies.filter fun t => t.id ≠ strategyId) = s.db.strategies.filter fun t => t.id ≠ strategyId
  events : (s'.db.events.filter fun e => e.strategyId ≠ strategyId) =
    s.db.events.filter fun e => e.strategyId ≠ strategyId
  experiments : (s'.db.experiments.filter fun e => e.strategyId ≠ strategyId) =
    s.db.experiments.filter fun e => e.strategyId ≠ strategyId
  reports : (s'.db.reports.filter fun r => r.strategyId ≠ strategyId) =
    s.db.reports.filter fun r => r.strategyId ≠ strategyId
  runs : (s'.runs.filter fun r => r.strategyId ≠ strategyId) = s.runs.filter fun r => r.strategyId ≠ strategyId
  jobs : (s'.jobs.filter fun j => j.strategyId ≠ strategyId) = s.jobs.filter fun j => j.strategyId ≠ strategyId
  insights : (s'.insights.filter fun i => i.strategyId ≠ some strategyId) =
    s.insights.filter fun i => i.strategyId ≠ some strategyId
  columns : ∀ id, id ≠ strategyId → s'.columns id = s.columns id
  files : ∀ id, id ≠ strategyId → s'.files id = s.files id

section

variable {P : Option String → Bool} {s s' s'' : Site J} {strategyId user : String} {t : Strategy} {α : Type}
  {p q : α → Bool} {rows rows' : List α}

theorem filter_filter_of_imp (h : ∀ r ∈ rows, q r → p r) : (rows.filter p).filter q = rows.filter q := by
  rw [List.filter_filter]
  refine List.filter_congr fun r hr => ?_
  cases hq : q r with
  | false => rfl
  | true => rw [h r hr hq]; rfl

/-- Two tables that agree on the rows of `p` agree on those of a part of them. -/
theorem filter_eq_of_imp (h : rows'.filter p = rows.filter p) (hrows' : ∀ r ∈ rows', q r → p r)
    (hrows : ∀ r ∈ rows, q r → p r) : rows'.filter q = rows.filter q := by
  rw [← filter_filter_of_imp hrows', h, filter_filter_of_imp hrows]

theorem ownedBy_iff : s.ownedBy P strategyId ↔ ∃ t ∈ s.db.strategies, t.id = strategyId ∧ P t.userId := by
  simp only [ownedBy, List.any_eq_true, List.mem_filter, decide_eq_true_eq]
  constructor
  · rintro ⟨t, ⟨ht, hP⟩, hid⟩
    exact ⟨t, ht, hid, hP⟩
  · rintro ⟨t, ht, hid, hP⟩
    exact ⟨t, ⟨ht, hP⟩, hid⟩

namespace Apart

theorem refl : Apart strategyId s s := ⟨rfl, rfl, rfl, rfl, rfl, rfl, rfl, fun _ _ => rfl, fun _ _ => rfl⟩

theorem trans (h : Apart strategyId s s') (h' : Apart strategyId s' s'') : Apart strategyId s s'' where
  strategies := h'.strategies.trans h.strategies
  events := h'.events.trans h.events
  experiments := h'.experiments.trans h.experiments
  reports := h'.reports.trans h.reports
  runs := h'.runs.trans h.runs
  jobs := h'.jobs.trans h.jobs
  insights := h'.insights.trans h.insights
  columns := fun id hid => (h'.columns id hid).trans (h.columns id hid)
  files := fun id hid => (h'.files id hid).trans (h.files id hid)

/-- **The frame rule.** Users who do not own the strategy keep everything, before and after. -/
theorem restrict_eq (h : Apart strategyId s s') (hs : s.ownedBy P strategyId = false)
    (hs' : s'.ownedBy P strategyId = false) : s'.restrict P = s.restrict P := by
  have hother : ∀ {s : Site J}, s.ownedBy P strategyId = false → ∀ t ∈ s.db.strategies, P t.userId →
      decide (t.id ≠ strategyId) := by
    intro s hs t ht hP
    refine decide_eq_true fun hid => ?_
    rw [← Bool.not_eq_true, ownedBy_iff] at hs
    exact hs ⟨t, ht, hid, hP⟩
  have hstrategies : (s'.db.strategies.filter fun t => P t.userId) = s.db.strategies.filter fun t => P t.userId :=
    filter_eq_of_imp h.strategies (hother hs') (hother hs)
  have howned : s'.ownedBy P = s.ownedBy P := by
    funext id
    unfold ownedBy
    rw [hstrategies]
  have hne : ∀ id, s.ownedBy P id → id ≠ strategyId := by
    rintro id hid rfl
    rw [hs] at hid
    cases hid
  have hrow : ∀ id, s.ownedBy P id → decide (id ≠ strategyId) := fun id hid => decide_eq_true (hne id hid)
  have hcolumns : (fun id => if s.ownedBy P id then s'.columns id else .blank) =
      fun id => if s.ownedBy P id then s.columns id else .blank := by
    funext id
    split_ifs with hid
    · exact h.columns id (hne id hid)
    · rfl
  have hfiles : (fun id => if s.ownedBy P id then s'.files id else none) =
      fun id => if s.ownedBy P id then s.files id else none := by
    funext id
    split_ifs with hid
    · exact h.files id (hne id hid)
    · rfl
  have hinsight : ∀ i : Insight, i.strategyId.any (s.ownedBy P) → decide (i.strategyId ≠ some strategyId) := by
    intro i hi
    refine decide_eq_true fun hid => ?_
    rw [hid, Option.any_some, hs] at hi
    cases hi
  unfold restrict
  simp only [howned, hstrategies, hcolumns, hfiles,
    filter_eq_of_imp h.events (fun e _ => hrow e.strategyId) (fun e _ => hrow e.strategyId),
    filter_eq_of_imp h.experiments (fun e _ => hrow e.strategyId) (fun e _ => hrow e.strategyId),
    filter_eq_of_imp h.reports (fun r _ => hrow r.strategyId) (fun r _ => hrow r.strategyId),
    filter_eq_of_imp h.runs (fun r _ => hrow r.strategyId) (fun r _ => hrow r.strategyId),
    filter_eq_of_imp h.jobs (fun j _ => hrow j.strategyId) (fun j _ => hrow j.strategyId),
    filter_eq_of_imp h.insights (fun i _ => hinsight i) (fun i _ => hinsight i)]

end Apart

/-! ## What the operations leave alone -/

theorem filter_updateStrategy {db : Db} {set : Strategy → Strategy} (hset : ∀ t, (set t).id = t.id) :
    ((db.updateStrategy strategyId set).strategies.filter fun t => t.id ≠ strategyId) =
      db.strategies.filter fun t => t.id ≠ strategyId := by
  unfold Db.updateStrategy
  rw [List.filter_map]
  have hid : ((fun t : Strategy => decide (t.id ≠ strategyId)) ∘ fun t => if t.id = strategyId then set t else t) =
      fun t => decide (t.id ≠ strategyId) := by
    funext t
    dsimp only [Function.comp]
    split_ifs
    · rw [hset]
    · rfl
  rw [hid]
  refine (List.map_congr_left fun t ht => ?_).trans (List.map_id _)
  exact if_neg (by simpa using (List.mem_filter.mp ht).2)

theorem apart_touched (set : Strategy → Strategy) (hset : ∀ t, (set t).id = t.id) (now : String) :
    Apart strategyId s (s.touched (s.db.updateStrategy strategyId set) strategyId now) where
  strategies := filter_updateStrategy hset
  events := rfl
  experiments := rfl
  reports := rfl
  runs := rfl
  jobs := rfl
  insights := rfl
  columns := fun _ hid => Function.update_of_ne hid ..
  files := fun _ _ => rfl

theorem of_touched (set : Strategy → Strategy) (hset : ∀ t, (set t).id = t.id ∧ (set t).userId = t.userId)
    (now : String) (h : s.Of user strategyId) :
    (s.touched (s.db.updateStrategy strategyId set) strategyId now).Of user strategyId := by
  intro t ht hid
  obtain ⟨r, hr, rfl⟩ := Rows.mem_update.mp ht
  split_ifs at hid ⊢ with hrid
  · rw [(hset r).2]
    exact h r hr hrid
  · exact h r hr hid

theorem apart_deleteStrategy : Apart strategyId s (s.deleteStrategy strategyId) where
  strategies := by simp [deleteStrategy]
  events := by simp [deleteStrategy]
  experiments := by simp [deleteStrategy]
  reports := by simp [deleteStrategy]
  runs := by simp [deleteStrategy]
  jobs := by simp [deleteStrategy]
  insights := by simp [deleteStrategy]
  columns := fun _ _ => rfl
  files := fun _ _ => rfl

theorem mem_deleteStrategy :
    t ∈ (s.deleteStrategy strategyId).db.strategies ↔ t ∈ s.db.strategies ∧ t.id ≠ strategyId := by
  simp [deleteStrategy]

theorem ownedBy_deleteStrategy : (s.deleteStrategy strategyId).ownedBy P strategyId = false := by
  rw [← Bool.not_eq_true, ownedBy_iff]
  rintro ⟨t, ht, hid, -⟩
  exact (mem_deleteStrategy.mp ht).2 hid

theorem apart_enqueueStrategyCreate (env : Env) (version : ℕ) :
    Apart strategyId s (s.enqueueStrategyCreate env strategyId version) := by
  unfold enqueueStrategyCreate
  dsimp only
  split_ifs
  · exact .refl
  · exact {
      strategies := rfl
      events := rfl
      experiments := rfl
      reports := rfl
      runs := rfl
      jobs := by simp
      insights := rfl
      columns := fun _ _ => rfl
      files := fun _ _ => rfl }

theorem enqueueStrategyCreate_db (env : Env) (version : ℕ) :
    (s.enqueueStrategyCreate env strategyId version).db = s.db := by
  unfold enqueueStrategyCreate
  dsimp only
  split_ifs <;> rfl

/-- A recorded event is a row of its strategy, and the mirror an update of it. -/
theorem recordEvent_cases (s : Site J) (env : Env) (strategyId event strategyName : String) :
    s.recordEvent env strategyId event strategyName = s ∨ ∃ e file,
      s.recordEvent env strategyId event strategyName =
        { s.touched (s.db.withEvent strategyId e (eventArgs env event strategyName)) strategyId env.now with
          files := Function.update s.files strategyId file } := by
  unfold recordEvent
  dsimp only
  rcases hvalid : validateEvent s.db strategyId (eventArgs env event strategyName) with e | ⟨⟩
  · exact Or.inl rfl
  · have hrefused : ¬ Refused (⟨s.db, s.db, []⟩ : Conn).working strategyId (eventArgs env event strategyName) :=
      validateEvent_eq_ok.mp hvalid
    obtain ⟨e, -, houtcome⟩ := recordEventDual_recorded env.repr (s.files strategyId) env.savepointId env.fault hrefused
    rw [houtcome]
    exact Or.inr ⟨e, _, rfl⟩

theorem apart_recordEvent (env : Env) (event strategyName : String) :
    Apart strategyId s (s.recordEvent env strategyId event strategyName) := by
  rcases recordEvent_cases s env strategyId event strategyName with heq | ⟨e, file, heq⟩
  · rw [heq]
    exact .refl
  · rw [heq]
    exact {
      strategies := filter_updateStrategy fun _ => rfl
      events := by simp [touched]
      experiments := rfl
      reports := rfl
      runs := rfl
      jobs := rfl
      insights := rfl
      columns := fun _ hid => Function.update_of_ne hid ..
      files := fun _ hid => Function.update_of_ne hid .. }

theorem of_recordEvent (env : Env) (event strategyName : String) (h : s.Of user strategyId) :
    (s.recordEvent env strategyId event strategyName).Of user strategyId := by
  rcases recordEvent_cases s env strategyId event strategyName with heq | ⟨e, file, heq⟩
  · rw [heq]
    exact h
  · rw [heq]
    intro t ht hid
    obtain ⟨r, hr, rfl⟩ := Rows.mem_update.mp ht
    split_ifs at hid ⊢ with hrid
    · exact h r hr hrid
    · exact h r hr hid

theorem createStrategy_ok {env : Env} {name : String} {columns : Columns J} {d : StrategyDict J}
    (h : s.createStrategy env user name columns = .ok (d, s')) :
    s.db.hasStrategy env.newId = false ∧ d.row.id = env.newId ∧ d.row.userId = some user ∧ d.columns = columns ∧
      s' = { s with
        db := { s.db with strategies := s.db.strategies ++ [d.row] }
        columns := Function.update s.columns env.newId columns } := by
  unfold createStrategy Db.createStrategy at h
  split_ifs at h with hknown
  · cases h
  · cases h
    exact ⟨by simpa using hknown, rfl, rfl, rfl, rfl⟩

theorem apart_createStrategy {env : Env} {name : String} {columns : Columns J} {d : StrategyDict J}
    (h : s.createStrategy env user name columns = .ok (d, s')) : Apart env.newId s s' := by
  obtain ⟨-, hid, -, -, rfl⟩ := createStrategy_ok h
  exact {
    strategies := by simp [hid]
    events := rfl
    experiments := rfl
    reports := rfl
    runs := rfl
    jobs := rfl
    insights := rfl
    columns := fun _ hid => Function.update_of_ne hid ..
    files := fun _ _ => rfl }

theorem of_createStrategy {env : Env} {name : String} {columns : Columns J} {d : StrategyDict J}
    (h : s.createStrategy env user name columns = .ok (d, s')) : s.Of user env.newId ∧ s'.Of user env.newId := by
  obtain ⟨hfresh, -, huser, -, rfl⟩ := createStrategy_ok h
  have hnone : s.Of user env.newId := by
    intro t ht hid
    have hknown := hasStrategy_iff.mpr ⟨t, ht, hid⟩
    rw [hfresh] at hknown
    cases hknown
  refine ⟨hnone, fun t ht hid => ?_⟩
  rcases List.mem_append.mp ht with ht | ht
  · exact hnone t ht hid
  · rw [List.mem_singleton.mp ht]
    exact huser

end

end Site

end CryptoAggHarmonic.FtStrategy
