import CryptoAggHarmonic.FtStrategy.Lemmas.Tenants

/-!
# One request

Every request leaves the rows of other users as they are, and one that names strategies of its user only is answered
from the rows of its user.
-/

namespace CryptoAggHarmonic.FtStrategy

namespace Site

section

variable {J : Type} {P : Option String → Bool} {s : Site J} {env : Env} {strategyId user : String} {row : Strategy}

/-- An id that is drawn is in no row. -/
def Fresh (env : Env) (s : Site J) : Request J → Prop
  | .create _ => s.db.hasStrategy env.newId = false
  | _ => True

/-- The ids that the orient endpoints are asked for are those of strategies of the user. -/
def Confined (user : String) (s : Site J) : Request J → Prop
  | .orientRoot ids => ∀ id ∈ splitIds ids, s.ownedBy (isUser user) id
  | .orientOne strategyId => s.ownedBy (isUser user) strategyId
  | _ => True

/-! ## Strategies by id -/

theorem strategy?_eq_some (hkeys : s.Keyed) :
    s.db.strategy? strategyId = some row ↔ row ∈ s.db.strategies ∧ row.id = strategyId := by
  constructor
  · intro h
    exact ⟨List.mem_of_find?_eq_some h, by simpa using List.find?_some h⟩
  · rintro ⟨hmem, hid⟩
    cases hfound : s.db.strategy? strategyId with
    | none =>
        have := List.find?_eq_none.mp hfound row hmem
        simp [hid] at this
    | some t =>
        have ht : t.id = strategyId := by simpa using List.find?_some hfound
        exact congrArg some
          (List.inj_on_of_nodup_map hkeys (List.mem_of_find?_eq_some hfound) hmem (ht.trans hid.symm))

theorem loadOwnedStrategy_ok (hkeys : s.Keyed) : loadOwnedStrategy s.db (some user) strategyId = .ok row ↔
    row ∈ s.db.strategies ∧ row.id = strategyId ∧ row.userId = some user := by
  rw [← and_assoc, ← strategy?_eq_some hkeys]
  unfold loadOwnedStrategy
  dsimp only
  cases hfound : s.db.strategy? strategyId with
  | none => simp
  | some t =>
      dsimp only
      split_ifs with howner
      · simp only [Except.ok.injEq, Option.some.injEq]
        constructor
        · rintro rfl
          exact ⟨rfl, howner⟩
        · exact And.left
      · simp only [Option.some.injEq, false_iff, not_and]
        rintro rfl
        exact howner

theorem loadOwnedStrategy_error (h : ∀ row, loadOwnedStrategy s.db (some user) strategyId ≠ .ok row) :
    loadOwnedStrategy s.db (some user) strategyId = .error .notFound := by
  unfold loadOwnedStrategy at h ⊢
  dsimp only at h ⊢
  cases hfound : s.db.strategy? strategyId with
  | none => rfl
  | some t =>
      rw [hfound] at h
      dsimp only at h ⊢
      split_ifs at h ⊢
      · exact absurd rfl (h t)
      · rfl

theorem loadOwnedStrategy_ne_pending {owner : Option String} {e : DeployResponse}
    (h : loadOwnedStrategy s.db owner strategyId = .error e) : e ≠ .pendingReview := by
  rintro rfl
  unfold loadOwnedStrategy at h
  cases owner with
  | none => cases h
  | some owner =>
      dsimp only at h
      cases hfound : s.db.strategy? strategyId with
      | none => rw [hfound] at h; cases h
      | some t =>
          rw [hfound] at h
          dsimp only at h
          split_ifs at h
          cases h

theorem of_row (hkeys : s.Keyed) (hrow : row ∈ s.db.strategies) (huser : row.userId = some user) :
    s.Of user row.id := by
  intro t ht hid
  rw [List.inj_on_of_nodup_map hkeys ht hrow hid]
  exact huser

theorem Of.not_other (h : s.Of user strategyId) : s.ownedBy (isOther user) strategyId = false := by
  rw [← Bool.not_eq_true, ownedBy_iff]
  rintro ⟨t, ht, hid, hother⟩
  exact absurd (h t ht hid) (by simpa [isOther] using hother)

/-! ## The rows of others -/

/-- A request works on one strategy, and it is the user's before and after. -/
def WithinOwn (user strategyId : String) (s s' : Site J) : Prop :=
  Apart strategyId s s' ∧ s.Of user strategyId ∧ s'.Of user strategyId

theorem WithinOwn.restrict_eq {s' : Site J} (h : WithinOwn user strategyId s s') :
    s'.restrict (isOther user) = s.restrict (isOther user) := h.1.restrict_eq h.2.1.not_other h.2.2.not_other

theorem touched_within (set : Strategy → Strategy) (hset : ∀ t, (set t).id = t.id ∧ (set t).userId = t.userId)
    (now : String) (h : s.Of user strategyId) :
    WithinOwn user strategyId s (s.touched (s.db.updateStrategy strategyId set) strategyId now) :=
  ⟨apart_touched set (fun t => (hset t).1) now, h, of_touched set hset now h⟩

theorem refineOne_within (intendedEvent : Option IntendedEvent) (h : s.Of user strategyId) :
    WithinOwn user strategyId s (refineOne env s strategyId intendedEvent).2 := by
  have hkept : WithinOwn user strategyId s s := ⟨.refl, h, h⟩
  unfold refineOne
  dsimp only
  split_ifs
  · exact hkept
  · unfold refine Db.refine
    split_ifs
    · have hnext := touched_within (fun t => { t with currentVersion := t.currentVersion + 1, status := "refining" })
        (fun _ => ⟨rfl, rfl⟩) env.now h
      simp only [bind, Except.bind, pure, Except.pure]
      split
      · exact hnext
      · exact ⟨hnext.1.trans (apart_recordEvent ..), h, of_recordEvent _ _ _ hnext.2.2⟩
    · exact hkept

theorem deployStrategy_within (h : s.Of user strategyId) (owner : Option String) :
    WithinOwn user strategyId s (deployStrategy env s owner strategyId).2 := by
  have hkept : WithinOwn user strategyId s s := ⟨.refl, h, h⟩
  unfold deployStrategy
  rcases hdeploy : deployOne s.db owner strategyId with ⟨response, db⟩
  cases response with
  | pendingReview =>
      have hdb : db = s.db.updateStatus strategyId "pending_review" := by
        unfold deployOne at hdeploy
        rcases hload : loadOwnedStrategy s.db owner strategyId with e | row
        · rw [hload] at hdeploy
          exact absurd (congrArg Prod.fst hdeploy) (loadOwnedStrategy_ne_pending hload)
        · rw [hload] at hdeploy
          dsimp only at hdeploy
          split_ifs at hdeploy
          · cases hdeploy
          · exact (congrArg Prod.snd hdeploy).symm
      subst hdb
      exact touched_within (fun t => { t with status := "pending_review" }) (fun _ => ⟨rfl, rfl⟩) env.now h
  | unauthorized => exact hkept
  | notFound => exact hkept
  | gateFailed result => exact hkept

theorem createStrategyRoute_within (env : Env) (s : Site J) (user : String)
    (body : Except String (CreateStrategyRequest J)) :
    (createStrategyRoute env s (some user) body).2 = s ∨
      WithinOwn user env.newId s (createStrategyRoute env s (some user) body).2 := by
  unfold createStrategyRoute
  cases body with
  | error e => exact Or.inl rfl
  | ok req =>
      dsimp only
      split_ifs
      · exact Or.inl rfl
      · split
        · exact Or.inl rfl
        · rename_i d s' hcreate
          obtain ⟨-, hid, -, -, -⟩ := createStrategy_ok hcreate
          obtain ⟨hbefore, hafter⟩ := of_createStrategy hcreate
          have hqueued : (s'.enqueueStrategyCreate env env.newId d.row.currentVersion).Of user env.newId := by
            unfold Of
            rw [enqueueStrategyCreate_db]
            exact hafter
          refine Or.inr ?_
          rw [hid]
          exact ⟨((apart_createStrategy hcreate).trans (apart_enqueueStrategyCreate ..)).trans (apart_recordEvent ..),
            hbefore, of_recordEvent _ _ _ hqueued⟩

theorem handleOne_of_error {owner : Option String} {endpoint : Endpoint} {e : DeployResponse}
    (h : loadOwnedStrategy s.db owner strategyId = .error e) : (handleOne env s owner strategyId endpoint).2 = s := by
  unfold handleOne
  rw [h]
  cases endpoint with
  | refine body => cases body <;> cases e <;> rfl
  | _ => cases e <;> rfl

theorem handleOne_of_ok {owner : Option String} {endpoint : Endpoint}
    (h : loadOwnedStrategy s.db owner strategyId = .ok row) :
    handleOne env s owner strategyId endpoint = handleOwned env s owner row strategyId endpoint := by
  unfold handleOne
  rw [h]
  cases endpoint with
  | refine body => cases body <;> rfl
  | _ => rfl

theorem handle_others (hkeys : s.Keyed) (req : Request J) :
    (handle env s (some user) req).2.restrict (isOther user) = s.restrict (isOther user) := by
  cases req with
  | capabilities => rfl
  | orientRoot ids => rfl
  | orientOne strategyId => rfl
  | list => rfl
  | create body =>
      rcases createStrategyRoute_within env s user body with hsame | hwithin
      · exact congrArg _ hsame
      · exact hwithin.restrict_eq
  | one strategyId endpoint =>
      change (handleOne env s (some user) strategyId endpoint).2.restrict _ = _
      rcases hload : loadOwnedStrategy s.db (some user) strategyId with e | row
      · rw [handleOne_of_error hload]
      · obtain ⟨hmem, rfl, huser⟩ := (loadOwnedStrategy_ok hkeys).mp hload
        have hof := of_row hkeys hmem huser
        rw [handleOne_of_ok hload]
        cases endpoint with
        | get => rfl
        | delete => exact apart_deleteStrategy.restrict_eq hof.not_other ownedBy_deleteStrategy
        | jobs => rfl
        | refine body =>
            cases body with
            | error e => rfl
            | ok intendedEvent => exact (refineOne_within intendedEvent hof).restrict_eq
        | backtestReport => rfl
        | deploy => exact (deployStrategy_within hof (some user)).restrict_eq
        | history => rfl
        | preflight => rfl

end

end Site

/-!
# What an answer is read from

An endpoint that is asked about a strategy of its user finds in the rows of the user what it finds in the database.
-/

namespace Site

section

variable {J : Type} {P : Option String → Bool} {s s' : Site J} {env : Env} {strategyId user : String} {row : Strategy}

/-! ## The rows of one strategy -/

theorem keyed_restrict (hkeys : s.Keyed) : (s.restrict P).Keyed := hkeys.sublist (List.filter_sublist.map _)

theorem strategy?_restrict (hkeys : s.Keyed) (howned : s.ownedBy P strategyId) :
    (s.restrict P).db.strategy? strategyId = s.db.strategy? strategyId := by
  obtain ⟨t, ht, hid, hP⟩ := ownedBy_iff.mp howned
  have hkept : t ∈ (s.restrict P).db.strategies := List.mem_filter.mpr ⟨ht, hP⟩
  rw [(strategy?_eq_some hkeys).mpr ⟨ht, hid⟩]
  exact (strategy?_eq_some (keyed_restrict hkeys)).mpr ⟨hkept, hid⟩

theorem hasStrategy_restrict : (s.restrict P).db.hasStrategy strategyId = s.ownedBy P strategyId := rfl

theorem hasStrategy_of_owned (howned : s.ownedBy P strategyId) : s.db.hasStrategy strategyId := by
  obtain ⟨t, ht, hid, -⟩ := ownedBy_iff.mp howned
  exact hasStrategy_iff.mpr ⟨t, ht, hid⟩

/-- Of a table that refers to the strategies, the rows of one that is kept are all kept. -/
theorem filter_restrict {α : Type} {k : α → String} {rows : List α} {q : α → Bool} (howned : s.ownedBy P strategyId)
    (hkey : ∀ r, q r → k r = strategyId) : (rows.filter fun r => s.ownedBy P (k r)).filter q = rows.filter q :=
  filter_filter_of_imp fun r _ hr => by rw [hkey r hr]; exact howned

theorem recentStableCount_restrict (howned : s.ownedBy P strategyId) :
    (s.restrict P).db.recentStableCount strategyId = s.db.recentStableCount strategyId := by
  have hevents : (s.restrict P).db.eventsOf strategyId = s.db.eventsOf strategyId :=
    congrArg _ (filter_restrict (k := EventRow.strategyId) howned fun _ => of_decide_eq_true)
  unfold Db.recentStableCount
  rw [hevents]

theorem listOpenCrashes_restrict (howned : s.ownedBy P strategyId) :
    (s.restrict P).db.listOpenCrashes strategyId = s.db.listOpenCrashes strategyId := by
  refine congrArg List.length (filter_restrict (k := Experiment.strategyId) howned fun e he => ?_)
  simp only [Bool.and_eq_true, decide_eq_true_eq] at he
  exact he.1.1

theorem any_restrict {α : Type} {k : α → String} {rows : List α} {q : α → Bool} (howned : s.ownedBy P strategyId)
    (hkey : ∀ r, q r → k r = strategyId) : (rows.filter fun r => s.ownedBy P (k r)).any q = rows.any q := by
  rw [Bool.eq_iff_iff, List.any_eq_true, List.any_eq_true]
  constructor
  · rintro ⟨r, hr, hq⟩
    exact ⟨r, List.mem_of_mem_filter hr, hq⟩
  · rintro ⟨r, hr, hq⟩
    exact ⟨r, List.mem_filter.mpr ⟨hr, by rw [hkey r hq]; exact howned⟩, hq⟩

theorem hasFinalReport_restrict (howned : s.ownedBy P strategyId) :
    (s.restrict P).db.hasFinalReport strategyId = s.db.hasFinalReport strategyId :=
  any_restrict (k := Report.strategyId) howned fun r hr => by
    simp only [Bool.and_eq_true, decide_eq_true_eq] at hr
    exact hr.1

theorem hasShadowObservation_restrict (howned : s.ownedBy P strategyId) :
    (s.restrict P).db.hasShadowObservation strategyId = s.db.hasShadowObservation strategyId :=
  any_restrict (k := EventRow.strategyId) howned fun e he => by
    simp only [Bool.and_eq_true, decide_eq_true_eq] at he
    exact he.1

theorem runs_restrict (howned : s.ownedBy P strategyId) :
    ((s.restrict P).runs.filter fun r => r.strategyId = strategyId) =
      s.runs.filter fun r => r.strategyId = strategyId :=
  filter_restrict howned fun _ => of_decide_eq_true

theorem jobs_restrict (howned : s.ownedBy P strategyId) :
    ((s.restrict P).jobs.filter fun j => j.strategyId = strategyId) =
      s.jobs.filter fun j => j.strategyId = strategyId :=
  filter_restrict howned fun _ => of_decide_eq_true

theorem columns_restrict (howned : s.ownedBy P strategyId) :
    (s.restrict P).columns strategyId = s.columns strategyId := if_pos howned

theorem files_restrict (howned : s.ownedBy P strategyId) : (s.restrict P).files strategyId = s.files strategyId :=
  if_pos howned

theorem dict_restrict (howned : s.ownedBy P row.id) : (s.restrict P).dict row = s.dict row := by
  unfold dict
  rw [columns_restrict howned]

theorem candidateOf_restrict (howned : s.ownedBy P row.id) :
    candidateOf (s.restrict P).db row = candidateOf s.db row := by
  unfold candidateOf
  rw [hasFinalReport_restrict howned, listOpenCrashes_restrict howned, hasShadowObservation_restrict howned]

/-! ## The summaries -/

theorem orientStrategy_restrict (hkeys : s.Keyed) (howned : s.ownedBy P strategyId) :
    (s.restrict P).orientStrategy strategyId = s.orientStrategy strategyId := by
  unfold orientStrategy lastRunId recentEvents
  simp only [strategy?_restrict hkeys howned, listOpenCrashes_restrict howned, hasFinalReport_restrict howned,
    recentStableCount_restrict howned, runs_restrict howned, files_restrict howned]

theorem orientGlobal_restrict (hkeys : s.Keyed) {ids : List String} (howned : ∀ id ∈ ids, s.ownedBy P id) :
    (s.restrict P).orientGlobal ids = s.orientGlobal ids := by
  have hfound : ids.filterMap (s.restrict P).orientStrategy = ids.filterMap s.orientStrategy :=
    List.filterMap_congr fun id hid => orientStrategy_restrict hkeys (howned id hid)
  unfold orientGlobal
  rw [hfound]

/-! ## The endpoints -/

theorem loadOwnedStrategy_restrict (hkeys : s.Keyed) : loadOwnedStrategy (s.restrict (isUser user)).db (some user)
    strategyId = loadOwnedStrategy s.db (some user) strategyId := by
  cases hload : loadOwnedStrategy s.db (some user) strategyId with
  | ok row =>
      obtain ⟨hrow, hid, huser⟩ := (loadOwnedStrategy_ok hkeys).mp hload
      have hkept : row ∈ (s.restrict (isUser user)).db.strategies :=
        List.mem_filter.mpr ⟨hrow, decide_eq_true huser⟩
      exact (loadOwnedStrategy_ok (keyed_restrict hkeys)).mpr ⟨hkept, hid, huser⟩
  | error e =>
      have hnone : ∀ row, loadOwnedStrategy s.db (some user) strategyId ≠ .ok row := by
        intro row hrow
        rw [hload] at hrow
        cases hrow
      rw [← hload, loadOwnedStrategy_error hnone]
      refine loadOwnedStrategy_error fun row hrow => ?_
      obtain ⟨hkept, hid, huser⟩ := (loadOwnedStrategy_ok (keyed_restrict hkeys)).mp hrow
      exact hnone row ((loadOwnedStrategy_ok hkeys).mpr ⟨List.mem_of_mem_filter hkept, hid, huser⟩)

theorem listStrategies_restrict : (s.restrict (isUser user)).listStrategies user = s.listStrategies user := by
  have hrows : ((s.restrict (isUser user)).db.strategies.filter fun t => t.userId = some user) =
      s.db.strategies.filter fun t => t.userId = some user := filter_filter_of_imp fun _ _ ht => ht
  unfold listStrategies
  rw [hrows]
  congr 2
  refine List.map_congr_left fun t ht => dict_restrict (ownedBy_iff.mpr ?_)
  obtain ⟨ht, huser⟩ := List.mem_filter.mp ht
  exact ⟨t, ht, rfl, huser⟩

/-- The answer to an accepted refine is the row with its next version. -/
theorem refineOne_fst (intendedEvent : Option IntendedEvent) (hfound : s.db.strategy? strategyId = some row) :
    (refineOne env s strategyId intendedEvent).1 =
      if s.db.recentStableCount strategyId ≥ stagnationRounds ∧ intendedEvent = none then
        .stagnationDiscipline (s.db.recentStableCount strategyId) stagnationRounds
      else .strategy ⟨{ row with currentVersion := row.currentVersion + 1, status := "refining" },
        { s.columns strategyId with updatedAt := env.now }⟩ := by
  have hid : row.id = strategyId := by simpa using List.find?_some hfound
  have hknown : s.db.hasStrategy strategyId := by rw [← strategy?_isSome, hfound]; rfl
  have hnext : (s.db.updateStrategy strategyId fun t =>
      { t with currentVersion := t.currentVersion + 1, status := "refining" }).strategy? strategyId =
        some { row with currentVersion := row.currentVersion + 1, status := "refining" } := by
    refine (strategy?_updateStrategy fun _ => ?_).trans ?_
    · rfl
    · rw [hfound]
      rfl
  unfold refineOne
  dsimp only
  split_ifs
  · rfl
  · unfold refine Db.refine
    rw [if_pos hknown]
    simp only [bind, Except.bind, pure, Except.pure, Db.getStrategy, touched, hnext, dict, hid, Function.update_self]

theorem refineOne_restrict (hkeys : s.Keyed) (intendedEvent : Option IntendedEvent) (howned : s.ownedBy P strategyId) :
    (refineOne env (s.restrict P) strategyId intendedEvent).1 = (refineOne env s strategyId intendedEvent).1 := by
  obtain ⟨t, ht, hid, -⟩ := ownedBy_iff.mp howned
  have hfound := (strategy?_eq_some hkeys).mpr ⟨ht, hid⟩
  rw [refineOne_fst intendedEvent hfound, refineOne_fst intendedEvent ((strategy?_restrict hkeys howned).trans hfound),
    recentStableCount_restrict howned, columns_restrict howned]

theorem deployStrategy_fst {owner : Option String} :
    (deployStrategy env s owner strategyId).1 = .deploy strategyId (deployOne s.db owner strategyId).1 := by
  unfold deployStrategy
  rcases deployOne s.db owner strategyId with ⟨response, db⟩
  cases response <;> rfl

theorem deployOne_restrict (hkeys : s.Keyed) (hload : loadOwnedStrategy s.db (some user) strategyId = .ok row)
    (howned : s.ownedBy (isUser user) row.id) :
    (deployOne (s.restrict (isUser user)).db (some user) strategyId).1 = (deployOne s.db (some user) strategyId).1 := by
  unfold deployOne
  rw [loadOwnedStrategy_restrict hkeys, hload]
  dsimp only
  rw [candidateOf_restrict howned]
  split_ifs <;> rfl

theorem handleOne_restrict (hkeys : s.Keyed) (endpoint : Endpoint) :
    (handleOne env (s.restrict (isUser user)) (some user) strategyId endpoint).1 =
      (handleOne env s (some user) strategyId endpoint).1 := by
  have hload' : loadOwnedStrategy (s.restrict (isUser user)).db (some user) strategyId =
      loadOwnedStrategy s.db (some user) strategyId := loadOwnedStrategy_restrict hkeys
  cases hload : loadOwnedStrategy s.db (some user) strategyId with
  | error e =>
      unfold handleOne
      rw [hload', hload]
      cases endpoint with
      | refine body => cases body <;> cases e <;> rfl
      | _ => cases e <;> rfl
  | ok row =>
      obtain ⟨hrow, rfl, huser⟩ := (loadOwnedStrategy_ok hkeys).mp hload
      have howned : s.ownedBy (isUser user) row.id := ownedBy_iff.mpr ⟨row, hrow, rfl, decide_eq_true huser⟩
      rw [handleOne_of_ok hload, handleOne_of_ok (hload'.trans hload)]
      cases endpoint with
      | get => exact congrArg Response.strategy (dict_restrict howned)
      | delete => rfl
      | jobs =>
          change (s.restrict (isUser user)).jobsOne row.id = s.jobsOne row.id
          unfold jobsOne
          rw [jobs_restrict howned]
      | refine body =>
          cases body with
          | error e => rfl
          | ok intendedEvent => exact refineOne_restrict hkeys intendedEvent howned
      | backtestReport =>
          change (s.restrict (isUser user)).backtestReport row row.id = s.backtestReport row row.id
          unfold backtestReport
          rw [dict_restrict howned]
      | deploy =>
          change (deployStrategy ..).1 = (deployStrategy ..).1
          rw [deployStrategy_fst, deployStrategy_fst, deployOne_restrict hkeys hload howned]
      | history =>
          change (s.restrict (isUser user)).historyOne row.id = s.historyOne row.id
          unfold historyOne
          rw [files_restrict howned, runs_restrict howned]
      | preflight => rfl

/-- The row of a strategy that is created does not depend on the rows there are. -/
theorem createStrategy_of_fresh (user name : String) (columns : Columns J)
    (hfresh : s.db.hasStrategy env.newId = false) :
    ∃ s', s.createStrategy env user name columns = .ok (⟨{
      id := env.newId
      userId := some user
      name := name
      status := "draft"
      currentVersion := 1
      latestResult := none
      lastEvent := some .create
      stagnationCount := 0 }, columns⟩, s') := by
  unfold createStrategy Db.createStrategy
  rw [hfresh]
  exact ⟨_, rfl⟩

theorem createStrategyRoute_eq (body : Except String (CreateStrategyRequest J))
    (hs : s.db.hasStrategy env.newId = false) (hs' : s'.db.hasStrategy env.newId = false) :
    (createStrategyRoute env s (some user) body).1 = (createStrategyRoute env s' (some user) body).1 := by
  unfold createStrategyRoute
  cases body with
  | error e => rfl
  | ok req =>
      dsimp only
      split_ifs
      · rfl
      · obtain ⟨after, hcreated⟩ := createStrategy_of_fresh user req.name _ hs
        obtain ⟨after', hcreated'⟩ := createStrategy_of_fresh user req.name _ hs'
        rw [hcreated, hcreated']

/-- **A request that names strategies of its user only is answered from the rows of its user.** -/
theorem handle_restrict (hkeys : s.Keyed) {req : Request J} (hfresh : Fresh env s req)
    (hconfined : Confined user s req) :
    (handle env (s.restrict (isUser user)) (some user) req).1 = (handle env s (some user) req).1 := by
  cases req with
  | capabilities => rfl
  | orientRoot ids => exact congrArg Response.orientGlobal (orientGlobal_restrict hkeys hconfined)
  | orientOne strategyId => exact congrArg (Response.orient strategyId) (orientStrategy_restrict hkeys hconfined)
  | list => exact listStrategies_restrict
  | create body =>
      refine createStrategyRoute_eq body ?_ hfresh
      rw [hasStrategy_restrict, ← Bool.not_eq_true]
      intro howned
      have hknown := hasStrategy_of_owned howned
      rw [show s.db.hasStrategy env.newId = false from hfresh] at hknown
      cases hknown
  | one strategyId endpoint => exact handleOne_restrict hkeys endpoint

end

end Site

end CryptoAggHarmonic.FtStrategy
