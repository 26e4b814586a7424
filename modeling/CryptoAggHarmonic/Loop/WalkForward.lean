import CryptoAggHarmonic.Python.Files
import Mathlib.Algebra.Order.Field.Rat
import Mathlib.Tactic

/-!
# Walk-forward validation

`app/loop/walk_forward.py`, over what `run_candidate` of `app/loop/worker.py` makes of the runs of the harness. Floats are
exact rationals; of the metrics, those that are aggregated are kept.
-/

namespace CryptoAggHarmonic.Loop

open PyOs

/-! ## One quarter -/

/-- The `experimental` metrics of a summary. A ratio that is missing is read like one that is null; the number of trades
is missing, null or a number. -/
structure QuarterMetrics where
  sharpe : Option ℚ := none
  calmar : Option ℚ := none
  tradesCount : Option (Option ℤ) := none
  deriving DecidableEq, Repr

/-- What becomes of the harness in its subprocess. -/
inductive HarnessRun
  | timedOut
  /-- Its return code, and its metrics file, where there is one. -/
  | exited (returncode : ℤ) (metricsFile : Option QuarterMetrics)
  deriving DecidableEq, Repr

inductive RunError
  | timedOut
  | exited (returncode : ℤ) (metricsExists : Bool)
  deriving DecidableEq, Repr

inductive RunDecision
  | accepted
  | rejected (tradesCount : ℤ)
  | error (error : RunError)
  deriving DecidableEq, Repr

/-- The `CandidateResult` of a quarter. -/
structure QuarterResult where
  decision : RunDecision
  metrics : QuarterMetrics := {}
  deriving DecidableEq, Repr

/-- `None < 30` raises. -/
inductive WalkError
  | typeError
  deriving DecidableEq, Repr

def runCandidate : HarnessRun → Except WalkError QuarterResult
  | .timedOut => .ok { decision := .error .timedOut }
  | .exited returncode metricsFile =>
      match metricsFile with
      | none => .ok { decision := .error (.exited returncode false) }
      | some exp =>
          if returncode ≠ 0 then .ok { decision := .error (.exited returncode true) }
          else
            match exp.tradesCount.getD (some 0) with
            | none => .error .typeError
            | some tc =>
                if tc < 30 then .ok { decision := .rejected tc, metrics := exp }
                else .ok { decision := .accepted, metrics := exp }

/-! ## Aggregation -/

structure WalkForwardAggregate where
  candidateId : Text
  quarters : List Text := []
  perQuarter : List (Text × QuarterMetrics) := []
  meanSharpe : ℚ := 0
  meanCalmar : ℚ := 0
  meanTradeCount : ℚ := 0
  worstQuarterSharpe : ℚ := 0
  oosQuarter : Option Text := none
  oosSharpe : Option ℚ := none
  oosTradeCount : ℤ := 0
  oosCollapse : Bool := false
  deriving DecidableEq, Repr

def mean (xs : List ℚ) : ℚ := xs.sum / xs.length

/-- `min(xs)`, for a list that is not empty. -/
def minOf : List ℚ → ℚ
  | [] => 0
  | x :: xs => xs.foldl min x

/-- The trade counts; a null does not add up. -/
def counts (perQuarter : List (Text × QuarterMetrics)) : Except WalkError (List ℤ) :=
  perQuarter.mapM fun item =>
    match item.2.tradesCount.getD (some 0) with
    | none => .error .typeError
    | some tc => .ok tc

/-- "Flag collapse if OOS sharpe < 0 or trade count < 15." -/
def collapses (m : QuarterMetrics) : Bool :=
  match m.sharpe with
  | none => true
  | some sharpe => decide (sharpe < 0) || decide ((m.tradesCount.bind id).getD 0 < 15)

/-- The candidate id is what `walk_forward` has put into the metrics of the first quarter. -/
def aggregate (candidateId : Text) (perQuarter : List (Text × QuarterMetrics)) (oosQuarter : Option Text) :
    Except WalkError WalkForwardAggregate := do
  if perQuarter = [] then
    return { candidateId := "?".toList }
  let sharpes := perQuarter.map fun item => item.2.sharpe.getD 0
  let calmars := perQuarter.map fun item => item.2.calmar.getD 0
  let counts ← counts perQuarter
  let oosMetrics := oosQuarter.bind fun label => (perQuarter.find? fun item => item.1 = label).map Prod.snd
  let oosSharpe := oosMetrics.bind (·.sharpe)
  let oosTc := (oosMetrics.bind fun m => m.tradesCount.bind id).getD 0
  return {
    candidateId := candidateId
    quarters := perQuarter.map Prod.fst
    perQuarter := perQuarter
    meanSharpe := mean sharpes
    meanCalmar := mean calmars
    meanTradeCount := mean (counts.map (↑·))
    worstQuarterSharpe := minOf sharpes
    oosQuarter := oosQuarter
    oosSharpe := oosSharpe
    oosTradeCount := oosTc
    oosCollapse := oosMetrics.any collapses }

/-- The loop over the quarters: those that end in an error are skipped. -/
def perQuarter : List (Text × HarnessRun) → Except WalkError (List (Text × QuarterMetrics))
  | [] => .ok []
  | (q, run) :: rest => do
      let r ← runCandidate run
      let later ← perQuarter rest
      match r.decision with
      | .error _ => return later
      | _ => return (q, r.metrics) :: later

/-- Each requested quarter comes with what the harness does on it. -/
def walkForward (candidateId : Text) (runs : List (Text × HarnessRun)) : Except WalkError WalkForwardAggregate := do
  let results ← perQuarter runs
  aggregate candidateId results (runs.getLast?.map Prod.fst)

/-! ## What comes out -/

section

variable {candidateId q : Text} {run : HarnessRun} {runs : List (Text × HarnessRun)} {m : QuarterMetrics}
  {results : List (Text × QuarterMetrics)} {agg : WalkForwardAggregate}

/-- The harness has run on the quarter and left these metrics. -/
def Ran (runs : List (Text × HarnessRun)) (q : Text) (m : QuarterMetrics) : Prop := (q, .exited 0 (some m)) ∈ runs

def HarnessRun.ran : HarnessRun → Bool
  | .exited 0 (some _) => true
  | _ => false

/-- A run either leaves metrics with a number of trades, or ends in an error, or raises. -/
theorem runCandidate_cases {r : QuarterResult} (h : runCandidate run = .ok r) :
    (∃ m tc, run = .exited 0 (some m) ∧ m.tradesCount.getD (some 0) = some tc ∧ r.metrics = m ∧
      ∀ e, r.decision ≠ .error e) ∨
    run.ran = false ∧ ∃ e, r.decision = .error e := by
  unfold runCandidate at h
  split at h
  · cases h
    exact Or.inr ⟨rfl, _, rfl⟩
  · split at h
    · cases h
      exact Or.inr ⟨by simp [HarnessRun.ran], _, rfl⟩
    · rename_i returncode exp
      split_ifs at h with hcode
      · cases h
        refine Or.inr ⟨?_, _, rfl⟩
        unfold HarnessRun.ran
        split
        · rename_i heq
          cases heq
          exact absurd rfl hcode
        · rfl
      · obtain rfl := not_not.mp hcode
        split at h
        · cases h
        · rename_i tc htc
          split_ifs at h <;> cases h
          · exact Or.inl ⟨exp, tc, rfl, htc, rfl, fun e => RunDecision.noConfusion⟩
          · exact Or.inl ⟨exp, tc, rfl, htc, rfl, fun e => RunDecision.noConfusion⟩

/-- What the loop has gathered: the quarters that ran, in their order, each with a number of trades. -/
structure Gathered (runs : List (Text × HarnessRun)) (results : List (Text × QuarterMetrics)) : Prop where
  ran : ∀ item, item ∈ results ↔ Ran runs item.1 item.2
  counted : ∀ item ∈ results, ∃ tc, item.2.tradesCount.getD (some 0) = some tc
  alone : perQuarter (runs.filter fun item => item.2.ran) = .ok results

theorem gathered_perQuarter (h : perQuarter runs = .ok results) : Gathered runs results := by
  induction runs generalizing results with
  | nil =>
      cases h
      exact ⟨by simp [Ran], by simp, rfl⟩
  | cons item runs ih =>
      obtain ⟨q, run⟩ := item
      rw [perQuarter] at h
      cases hresult : runCandidate run with
      | error e => simp [hresult, bind, Except.bind] at h
      | ok r =>
          cases hlater : perQuarter runs with
          | error e => simp [hresult, hlater, bind, Except.bind] at h
          | ok later =>
              have hgathered := ih hlater
              simp only [hresult, hlater, bind, Except.bind] at h
              obtain ⟨m, tc, rfl, htc, rfl, hdecision⟩ | ⟨hran, e, he⟩ := runCandidate_cases hresult
              · have hresults : results = (q, r.metrics) :: later := by
                  split at h
                  · rename_i e he
                    exact absurd he (hdecision e)
                  · exact (Except.ok.inj h).symm
                subst hresults
                refine ⟨?_, ?_, ?_⟩
                · intro item
                  rw [List.mem_cons, hgathered.ran, Ran, Ran, List.mem_cons]
                  obtain ⟨q', m'⟩ := item
                  simp
                · intro item hitem
                  obtain rfl | hitem := List.mem_cons.mp hitem
                  · exact ⟨tc, htc⟩
                  · exact hgathered.counted item hitem
                · rw [List.filter_cons_of_pos (by rfl), perQuarter, hresult, hgathered.alone]
                  simp only [bind, Except.bind]
                  rfl
              · rw [he] at h
                obtain rfl : later = results := Except.ok.inj h
                have hnot : ∀ m, run ≠ .exited 0 (some m) := by
                  rintro m rfl
                  cases hran
                refine ⟨?_, hgathered.counted, ?_⟩
                · intro item
                  rw [hgathered.ran, Ran, Ran, List.mem_cons, Prod.mk.injEq]
                  constructor
                  · exact Or.inr
                  · rintro (⟨-, hrun⟩ | hmem)
                    · exact absurd hrun.symm (hnot _)
                    · exact hmem
                · rw [List.filter_cons_of_neg (by simp [hran]), hgathered.alone]

theorem counts_ok (h : ∀ item ∈ results, ∃ tc, item.2.tradesCount.getD (some 0) = some tc) :
    ∃ tcs, counts results = .ok tcs := by
  induction results with
  | nil => exact ⟨[], rfl⟩
  | cons item results ih =>
      obtain ⟨tc, htc⟩ := h item List.mem_cons_self
      obtain ⟨tcs, htcs⟩ := ih fun other hother => h other (List.mem_cons_of_mem item hother)
      rw [counts] at htcs
      refine ⟨tc :: tcs, ?_⟩
      rw [counts, List.mapM_cons, htcs]
      simp only [htc]
      rfl

/-- Validation that fails closed. -/
structure FailsClosed (candidateId : Text) (runs : List (Text × HarnessRun)) (agg : WalkForwardAggregate) : Prop where
  passes : agg.oosCollapse = false → ∃ last m s tc, runs.getLast?.map Prod.fst = some last ∧ Ran runs last m ∧
    m.sharpe = some s ∧ 0 ≤ s ∧ m.tradesCount = some (some tc) ∧ 15 ≤ tc
  oosSharpe : ∀ last, runs.getLast?.map Prod.fst = some last → (∃ m, Ran runs last m) →
    ∃ m, Ran runs last m ∧ agg.oosSharpe = m.sharpe
  /-- Beside the quarters that ran, the others raise nothing. -/
  errors : ∀ agg', walkForward candidateId (runs.filter fun item => item.2.ran) = .ok agg' →
    agg.meanSharpe ≤ agg'.meanSharpe ∧ agg.meanCalmar ≤ agg'.meanCalmar ∧
      agg.worstQuarterSharpe ≤ agg'.worstQuarterSharpe

/-- The means and the minimum do not depend on which quarter is held out. -/
theorem aggregate_means {oos oos' : Option Text} {agg' : WalkForwardAggregate}
    (h : aggregate candidateId results oos = .ok agg) (h' : aggregate candidateId results oos' = .ok agg') :
    agg.meanSharpe = agg'.meanSharpe ∧ agg.meanCalmar = agg'.meanCalmar ∧
      agg.worstQuarterSharpe = agg'.worstQuarterSharpe := by
  unfold aggregate at h h'
  split_ifs at h h' with hempty
  · cases h
    cases h'
    exact ⟨rfl, rfl, rfl⟩
  · cases hcounts : counts results with
    | error e => simp [hcounts, bind, Except.bind] at h
    | ok tcs =>
        simp only [hcounts, bind, Except.bind] at h h'
        cases h
        cases h'
        exact ⟨rfl, rfl, rfl⟩

/-- A quarter that ran is found by its label. -/
theorem exists_found {last : Text} (h : ∃ item ∈ results, item.1 = last) :
    ∃ m, (last, m) ∈ results ∧ (results.find? fun item => item.1 = last).map Prod.snd = some m := by
  obtain ⟨item, hitem, hlabel⟩ := h
  obtain ⟨found, hfound⟩ := Option.isSome_iff_exists.mp
    (List.find?_isSome.mpr ⟨item, hitem, decide_eq_true hlabel⟩ : (results.find? fun item => item.1 = last).isSome)
  have hlast : found.1 = last := by simpa using List.find?_some hfound
  refine ⟨found.2, ?_, by rw [hfound, Option.map_some]⟩
  rw [← hlast]
  exact List.mem_of_find?_eq_some hfound

theorem find_none {last : Text} (h : ¬∃ item ∈ results, item.1 = last) :
    (results.find? fun item => item.1 = last).map Prod.snd = none := by
  rw [Option.map_eq_none_iff, List.find?_eq_none]
  intro item hitem hlabel
  exact h ⟨item, hitem, of_decide_eq_true hlabel⟩

/-- What an aggregate says of the quarter that is held out. -/
theorem aggregate_oos {last : Text} (h : aggregate candidateId results (some last) = .ok agg) (hne : results ≠ []) :
    agg.oosSharpe = ((results.find? fun item => item.1 = last).map Prod.snd).bind (·.sharpe) ∧
      (agg.oosCollapse = false ↔ ∀ m, (results.find? fun item => item.1 = last).map Prod.snd = some m →
        ∃ s, m.sharpe = some s ∧ 0 ≤ s ∧ 15 ≤ (m.tradesCount.bind id).getD 0) := by
  unfold aggregate at h
  rw [if_neg hne] at h
  cases hcounts : counts results with
  | error e => simp [hcounts, bind, Except.bind] at h
  | ok tcs =>
      simp only [hcounts, bind, Except.bind] at h
      cases h
      refine ⟨rfl, ?_⟩
      simp only [Option.bind_some]
      cases (results.find? fun item => item.1 = last).map Prod.snd with
      | none => simp
      | some m =>
          rw [Option.any_some, collapses]
          cases hsharpe : m.sharpe with
          | none => simp [hsharpe]
          | some s => simp [hsharpe]

theorem aggregate_nil (candidateId : Text) (oos : Option Text) :
    aggregate candidateId [] oos = .ok { candidateId := "?".toList } := rfl

theorem walkForward_ok (h : walkForward candidateId runs = .ok agg) : ∃ results, perQuarter runs = .ok results ∧
    aggregate candidateId results (runs.getLast?.map Prod.fst) = .ok agg := by
  unfold walkForward at h
  cases hresults : perQuarter runs with
  | error e => simp [hresults, bind, Except.bind] at h
  | ok results =>
      simp only [hresults, bind, Except.bind] at h
      exact ⟨results, rfl, h⟩

/-- **Validation fails closed** exactly where the last requested quarter ran. -/
theorem walkForward_failsClosed_iff (candidateId : Text) (runs : List (Text × HarnessRun)) (agg : WalkForwardAggregate)
    (hne : runs ≠ []) (hrun : walkForward candidateId runs = .ok agg) :
    FailsClosed candidateId runs agg ↔ ∃ last m, runs.getLast?.map Prod.fst = some last ∧ Ran runs last m := by
  obtain ⟨results, hresults, hagg⟩ := walkForward_ok hrun
  have hgathered := gathered_perQuarter hresults
  obtain ⟨last, hlast⟩ : ∃ last, runs.getLast?.map Prod.fst = some last :=
    ⟨_, by rw [List.getLast?_eq_some_getLast hne, Option.map_some]⟩
  rw [hlast] at hagg
  have hlabel : (∃ item ∈ results, item.1 = last) ↔ ∃ m, Ran runs last m := by
    constructor
    · rintro ⟨item, hitem, rfl⟩
      exact ⟨item.2, (hgathered.ran item).mp hitem⟩
    · rintro ⟨m, hm⟩
      exact ⟨(last, m), (hgathered.ran (last, m)).mpr hm, rfl⟩
  constructor
  · intro hcloses
    by_contra hnot
    have hmissing : ¬∃ item ∈ results, item.1 = last := fun h =>
      hnot ⟨last, (hlabel.mp h).choose, hlast, (hlabel.mp h).choose_spec⟩
    have hpasses : agg.oosCollapse = false := by
      by_cases hempty : results = []
      · rw [hempty, aggregate_nil] at hagg
        cases hagg
        rfl
      · rw [(aggregate_oos hagg hempty).2, find_none hmissing]
        simp
    obtain ⟨last', m, s, tc, hlast', hm, -⟩ := hcloses.passes hpasses
    exact hnot ⟨last', m, hlast', hm⟩
  · rintro ⟨last', m, hlast', hm⟩
    rw [hlast] at hlast'
    cases hlast'
    have hran := hlabel.mpr ⟨m, hm⟩
    obtain ⟨found, hfound, hfind⟩ := exists_found hran
    have hempty : results ≠ [] := List.ne_nil_of_mem hfound
    obtain ⟨hsharpe, hcollapse⟩ := aggregate_oos hagg hempty
    rw [hfind] at hsharpe hcollapse
    have hfoundRan : Ran runs last found := (hgathered.ran (last, found)).mp hfound
    constructor
    · intro hpasses
      obtain ⟨s, hs, hnonneg, htrades⟩ := hcollapse.mp hpasses found rfl
      cases htc : found.tradesCount with
      | none =>
          rw [htc] at htrades
          simp at htrades
      | some count =>
          cases count with
          | none =>
              rw [htc] at htrades
              simp at htrades
          | some tc =>
              rw [htc] at htrades
              exact ⟨last, found, s, tc, hlast, hfoundRan, hs, hnonneg, htc, by simpa using htrades⟩
    · intro last' hlast' _
      rw [hlast] at hlast'
      cases hlast'
      exact ⟨found, hfoundRan, hsharpe⟩
    · intro agg' hagg'
      obtain ⟨results', hresults', hagg'⟩ := walkForward_ok hagg'
      rw [hgathered.alone] at hresults'
      cases hresults'
      obtain ⟨h₁, h₂, h₃⟩ := aggregate_means hagg hagg'
      exact ⟨h₁.le, h₂.le, h₃.le⟩

def goodQuarter : QuarterMetrics := { sharpe := some (1 / 2), calmar := some 1, tradesCount := some (some 40) }

theorem lastRan_failsClosed : ∃ agg, walkForward "c1".toList
      [("2024-Q1".toList, .timedOut), ("2024-Q2".toList, .exited 0 (some goodQuarter))] = .ok agg ∧
    FailsClosed "c1".toList [("2024-Q1".toList, .timedOut), ("2024-Q2".toList, .exited 0 (some goodQuarter))] agg :=
  ⟨_, rfl, (walkForward_failsClosed_iff _ _ _ (by simp) rfl).mpr ⟨_, goodQuarter, rfl, by simp [Ran]⟩⟩

/-- The last quarter times out, and the aggregate says that nothing collapsed. -/
theorem timedOut_passes : ∃ agg, walkForward "c1".toList
      [("2024-Q1".toList, .exited 0 (some goodQuarter)), ("2024-Q2".toList, .timedOut)] = .ok agg ∧
    agg.oosCollapse = false ∧
    ¬FailsClosed "c1".toList [("2024-Q1".toList, .exited 0 (some goodQuarter)), ("2024-Q2".toList, .timedOut)] agg := by
  refine ⟨_, rfl, rfl, fun h => ?_⟩
  obtain ⟨last, m, s, tc, hlast, hran, -⟩ := h.passes rfl
  cases hlast
  simp [Ran] at hran

end

end CryptoAggHarmonic.Loop
