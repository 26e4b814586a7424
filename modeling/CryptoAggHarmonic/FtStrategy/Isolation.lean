import CryptoAggHarmonic.FtStrategy.Lemmas.Answers

/-!
# What a user learns of the strategies of others

Two databases with the same rows of the user. The orient endpoints, which ask nobody whose strategy it is, tell them
apart by any strategy that is not the user's.
-/

namespace CryptoAggHarmonic.FtStrategy

namespace Site

section

variable {J : Type} {P : Option String → Bool} {s s' : Site J} {env : Env} {strategyId user : String} {row : Strategy}
  {ids : List String} {req : Request J}

/-- Every database with the same rows of the user answers the request alike. -/
def AnsweredAlike (env : Env) (user : String) (s : Site J) (req : Request J) : Prop :=
  ∀ s' : Site J, s'.Keyed → Fresh env s' req → s'.restrict (isUser user) = s.restrict (isUser user) →
    (handle env s' (some user) req).1 = (handle env s (some user) req).1

theorem ownedBy_congr (h : s'.restrict P = s.restrict P) : s'.ownedBy P = s.ownedBy P := by
  funext id
  rw [← hasStrategy_restrict, h, hasStrategy_restrict]

theorem confined_congr (h : s'.restrict (isUser user) = s.restrict (isUser user)) :
    Confined user s' req ↔ Confined user s req := by
  cases req with
  | orientRoot ids => simp only [Confined, ownedBy_congr h]
  | orientOne strategyId => simp only [Confined, ownedBy_congr h]
  | _ => rfl

theorem answeredAlike_of_confined (hkeys : s.Keyed) (hfresh : Fresh env s req) (hconfined : Confined user s req) :
    AnsweredAlike env user s req := by
  intro s' hkeys' hfresh' hrows
  rw [← handle_restrict hkeys hfresh hconfined,
    ← handle_restrict hkeys' hfresh' ((confined_congr hrows).mpr hconfined), hrows]

/-! ## A strategy of nobody -/

def nobodys (strategyId : String) : Strategy where
  id := strategyId
  userId := none
  name := ""
  status := "rejected"
  currentVersion := 1
  latestResult := none
  lastEvent := none
  stagnationCount := 0

/-- The strategy is nobody's, and rejected. -/
def disowned (s : Site J) (strategyId : String) : Site J :=
  let kept := s.deleteStrategy strategyId
  { kept with db := { kept.db with strategies := kept.db.strategies ++ [nobodys strategyId] } }

theorem strategy?_deleteStrategy : (s.deleteStrategy strategyId).db.strategy? strategyId = none := by
  simp [Db.strategy?, deleteStrategy]

theorem strategy?_disowned : (s.disowned strategyId).db.strategy? strategyId = some (nobodys strategyId) := by
  have hdeleted : (s.deleteStrategy strategyId).db.strategies.find? (fun t => t.id = strategyId) = none :=
    strategy?_deleteStrategy
  unfold disowned Db.strategy?
  rw [List.find?_append, hdeleted]
  simp [nobodys]

theorem keyed_deleteStrategy (hkeys : s.Keyed) : (s.deleteStrategy strategyId).Keyed :=
  hkeys.sublist (List.filter_sublist.map _)

theorem keyed_disowned (hkeys : s.Keyed) : (s.disowned strategyId).Keyed := by
  unfold Keyed disowned
  rw [List.map_append, List.nodup_append]
  refine ⟨keyed_deleteStrategy hkeys, by simp, ?_⟩
  rintro a ha b hb rfl
  obtain ⟨t, ht, hid⟩ := List.mem_map.mp ha
  have hsame : a = strategyId := List.mem_singleton.mp hb
  exact (mem_deleteStrategy.mp ht).2 (hid.trans hsame)

theorem restrict_deleteStrategy (howned : s.ownedBy P strategyId = false) :
    (s.deleteStrategy strategyId).restrict P = s.restrict P :=
  apart_deleteStrategy.restrict_eq howned ownedBy_deleteStrategy

theorem restrict_disowned (howned : s.ownedBy (isUser user) strategyId = false) :
    (s.disowned strategyId).restrict (isUser user) = s.restrict (isUser user) := by
  have hapart : Apart strategyId s (s.disowned strategyId) := {
    apart_deleteStrategy with
    strategies := by simp [disowned, deleteStrategy, nobodys] }
  refine hapart.restrict_eq howned ?_
  rw [← Bool.not_eq_true, ownedBy_iff]
  rintro ⟨t, ht, hid, huser⟩
  rcases List.mem_append.mp ht with ht | ht
  · exact (mem_deleteStrategy.mp ht).2 hid
  · rw [List.mem_singleton.mp ht] at huser
    cases huser

/-! ## The orient endpoints -/

theorem orientStrategy_eq_none (hnone : s.db.strategy? strategyId = none) : s.orientStrategy strategyId = none := by
  unfold orientStrategy
  rw [hnone]

theorem orientStrategy_rejected (hfound : s.db.strategy? strategyId = some row) (hstatus : row.status = "rejected") :
    ∃ summary a, s.orientStrategy strategyId = some summary ∧ summary.nextAction = some a ∧
      a.strategyId = strategyId := by
  unfold orientStrategy
  rw [hfound]
  refine ⟨_, _, rfl, if_pos hstatus, rfl⟩

/-- An action is of the strategy that was asked for. -/
theorem nextActionOf_strategyId {count : ℕ} {blockers : List HardBlocker} {a : NextAction}
    (h : nextActionOf strategyId row count blockers = some a) : a.strategyId = strategyId := by
  unfold nextActionOf at h
  dsimp only at h
  split_ifs at h <;> cases h <;> rfl

theorem nextAction_strategyId {summary : OrientSummary} {a : NextAction}
    (hsummary : s.orientStrategy strategyId = some summary) (haction : summary.nextAction = some a) :
    a.strategyId = strategyId := by
  unfold orientStrategy at hsummary
  cases hfound : s.db.strategy? strategyId with
  | none => rw [hfound] at hsummary; cases hsummary
  | some row =>
      rw [hfound] at hsummary
      cases hsummary
      exact nextActionOf_strategyId haction

theorem mem_nextActions {a : NextAction} : a ∈ (s.orientGlobal ids).nextActions ↔
    ∃ id ∈ ids, ∃ summary, s.orientStrategy id = some summary ∧ summary.nextAction = some a := by
  simp only [orientGlobal, List.mem_filterMap]
  constructor
  · rintro ⟨summary, ⟨id, hid, hsummary⟩, haction⟩
    exact ⟨id, hid, summary, hsummary, haction⟩
  · rintro ⟨id, hid, summary, hsummary, haction⟩
    exact ⟨summary, ⟨id, hid, hsummary⟩, haction⟩

theorem orientStrategy_ne : (s.deleteStrategy strategyId).orientStrategy strategyId ≠
    (s.disowned strategyId).orientStrategy strategyId := by
  obtain ⟨summary, -, hsummary, -, -⟩ := orientStrategy_rejected (s := s.disowned strategyId) strategy?_disowned rfl
  rw [orientStrategy_eq_none strategy?_deleteStrategy, hsummary]
  rintro ⟨⟩

theorem orientGlobal_ne (hid : strategyId ∈ ids) :
    (s.deleteStrategy strategyId).orientGlobal ids ≠ (s.disowned strategyId).orientGlobal ids := by
  intro heq
  obtain ⟨summary, a, hsummary, haction, ha⟩ :=
    orientStrategy_rejected (s := s.disowned strategyId) strategy?_disowned rfl
  have hmem : a ∈ ((s.disowned strategyId).orientGlobal ids).nextActions :=
    mem_nextActions.mpr ⟨strategyId, hid, summary, hsummary, haction⟩
  rw [← heq] at hmem
  obtain ⟨id, -, summary', hsummary', haction'⟩ := mem_nextActions.mp hmem
  have hsame : id = strategyId := (nextAction_strategyId hsummary' haction').symm.trans ha
  subst hsame
  rw [orientStrategy_eq_none strategy?_deleteStrategy] at hsummary'
  cases hsummary'

/-- Without a strategy of someone else, or with it: the user has the same rows, and the same answer. -/
theorem AnsweredAlike.same (h : AnsweredAlike env user s req) (hkeys : s.Keyed) (hfresh : ∀ s', Fresh env s' req)
    (howned : s.ownedBy (isUser user) strategyId = false) :
    (handle env (s.deleteStrategy strategyId) (some user) req).1 =
      (handle env (s.disowned strategyId) (some user) req).1 := by
  have hdeleted := h _ (keyed_deleteStrategy hkeys) (hfresh _) (restrict_deleteStrategy howned)
  have hdisowned := h _ (keyed_disowned hkeys) (hfresh _) (restrict_disowned howned)
  exact hdeleted.trans hdisowned.symm

theorem confined_of_answeredAlike (hkeys : s.Keyed) (h : AnsweredAlike env user s req) : Confined user s req := by
  cases req with
  | orientRoot ids =>
      intro id hid
      by_contra howned
      have hsame := h.same hkeys (fun _ => trivial) (by simpa using howned : s.ownedBy (isUser user) id = false)
      exact orientGlobal_ne hid (Response.orientGlobal.inj hsame)
  | orientOne strategyId =>
      change s.ownedBy (isUser user) strategyId
      by_contra howned
      have hsame := h.same hkeys (fun _ => trivial) (by simpa using howned : s.ownedBy (isUser user) strategyId = false)
      exact orientStrategy_ne (Response.orient.inj hsame).2
  | _ => trivial

end

/-! ## Tenants -/

/-- **A request leaves the rows of other users as they are. It is answered from the rows of its user if and only if the
ids the orient endpoints are asked for are those of strategies of the user.** -/
theorem tenant_isolation {J : Type} (env : Env) (user : String) (s : Site J) (req : Request J) (hkeys : s.Keyed)
    (hfresh : Fresh env s req) :
    (handle env s (some user) req).2.restrict (isOther user) = s.restrict (isOther user) ∧
      (AnsweredAlike env user s req ↔ Confined user s req) :=
  ⟨handle_others hkeys req, confined_of_answeredAlike hkeys, answeredAlike_of_confined hkeys hfresh⟩

/-! ## Two tenants -/

def strategyOf (strategyId user status : String) : Strategy where
  id := strategyId
  userId := some user
  name := strategyId ++ " of " ++ user
  status := status
  currentVersion := 1
  latestResult := none
  lastEvent := some .create
  stagnationCount := 0

def twoTenants : Site Unit where
  db := { Db.empty with strategies := [strategyOf "ft-1" "alice" "draft", strategyOf "ft-2" "bob" "deployed"] }
  columns := fun _ => .blank
  runs := []
  jobs := []
  insights := []
  files := fun _ => none

def drawn : Env where
  newId := "ft-3"
  now := "2026-08-01T09:00:00+00:00"
  timestamp := "2026-08-01 09:00:00"
  savepointId := "a1b2"
  commit := ⟨['0', 'f'], by simp⟩
  repr := fun _ => "0.0"
  fault := none

def bobsSummary : OrientSummary where
  strategyId := "ft-2"
  name := "ft-2 of bob"
  currentStage := "deployed"
  currentVersion := 1
  status := "deployed"
  stagnationCount := 0
  lastRunId := none
  nextAction := some ⟨"ft-2", "monitor_shadow",
    "Strategy is live; monitor 7-day shadow period before next variant.", none⟩
  hardBlockers := [⟨"no_final_report", "Draft a report and publish as final before deploy."⟩]
  recentEvents := []

theorem twoTenants_keyed : twoTenants.Keyed := by
  unfold Keyed
  decide

def momentum : CreateStrategyRequest Unit where
  name := "momentum"
  researchMd := ""
  ideaPayload := []
  marketType := "spot"
  pair := "BTC/USDT"
  interval := "1h"
  ideaSource := "user"
  description := none

theorem twoTenants_isolated :
    (handle drawn twoTenants (some "alice") (.create (.ok momentum))).2.restrict (isOther "alice") =
        twoTenants.restrict (isOther "alice") ∧
      (AnsweredAlike drawn "alice" twoTenants (.create (.ok momentum)) ↔
        Confined "alice" twoTenants (.create (.ok momentum))) :=
  tenant_isolation drawn "alice" twoTenants (.create (.ok momentum)) twoTenants_keyed
    (by change twoTenants.db.hasStrategy drawn.newId = false; decide)

/-- Alice asks for a strategy of Bob, and again once he has deleted it. -/
theorem orient_other_tenant :
    twoTenants.Keyed ∧ (twoTenants.deleteStrategy "ft-2").Keyed ∧
      (twoTenants.deleteStrategy "ft-2").restrict (isUser "alice") = twoTenants.restrict (isUser "alice") ∧
      (handle drawn twoTenants (some "alice") (.orientOne "ft-2")).1 = .orient "ft-2" (some bobsSummary) ∧
      (handle drawn (twoTenants.deleteStrategy "ft-2") (some "alice") (.orientOne "ft-2")).1 = .orient "ft-2" none := by
  have hfound : twoTenants.orientStrategy "ft-2" = some bobsSummary := by decide
  have hdeleted : (twoTenants.deleteStrategy "ft-2").orientStrategy "ft-2" = none := by decide
  exact ⟨twoTenants_keyed, keyed_deleteStrategy twoTenants_keyed, restrict_deleteStrategy (by decide),
    congrArg _ hfound, congrArg _ hdeleted⟩

end Site

end CryptoAggHarmonic.FtStrategy
