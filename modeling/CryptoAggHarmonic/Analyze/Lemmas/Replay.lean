import CryptoAggHarmonic.Analyze.Route
import CryptoAggHarmonic.Lib.Steps

/-!
# No result is stored

No write of the route puts a result into `analyses.technical_result`, so neither the table nor a cache has a row that
could be replayed.
-/

namespace CryptoAggHarmonic.Analyze

open Sql Quota

def AnalysisRow.Blank (r : AnalysisRow) : Prop := r.technicalResult = none

def Cache.Blank (c : Cache) : Prop := ∀ e ∈ c, ∀ r ∈ e.record, r.Blank

section

variable {t : Analyses} {id userId : Uuid} {entries : List Entry} {config : CacheConfig} {c : Cache} {key : String}
  {r : AnalysisRow}

/-! ## The table -/

theorem AnalysisRow.Blank.assign (h : r.Blank) : (entries.foldl AnalysisRow.assign r).Blank := by
  induction entries generalizing r with
  | nil => exact h
  | cons e entries ih =>
      refine ih ?_
      cases e <;> exact h

/-- Every row of the table is blank. -/
def Analyses.Blank (t : Analyses) : Prop := ∀ r ∈ t.rows, r.Blank

theorem Analyses.Blank.patch {t' : Analyses} (h : t.Blank) (hpatch : t.patch id entries = .ok t') : t'.Blank := by
  unfold Analyses.patch at hpatch
  split_ifs at hpatch
  cases hcheck : entries.forM Entry.check with
  | error e => simp [hcheck, bind, Except.bind] at hpatch
  | ok _ =>
      simp only [hcheck, bind, Except.bind, pure, Except.pure, Except.ok.injEq] at hpatch
      subst hpatch
      intro r hr
      obtain ⟨q, hq, rfl⟩ := Rows.mem_update.mp hr
      split_ifs
      · exact (h q hq).assign
      · exact h q hq

theorem Analyses.Blank.updateRecord {reaches : Bool} (h : t.Blank) : (t.updateRecord reaches id entries).2.Blank := by
  unfold Analyses.updateRecord
  split_ifs
  · exact h
  · split
    · rename_i t' hpatch
      exact h.patch hpatch
    · exact h

theorem Analyses.Blank.createRecord {reaches : Bool} {req : AnalyzeRequest} (h : t.Blank) :
    (t.createRecord reaches userId id req).2.Blank := by
  unfold Analyses.createRecord
  split_ifs
  · exact h
  · split
    · exact h
    · rename_i t' hinsert
      intro r hr
      rw [(Table.insert?_eq_some hinsert).1, List.mem_append, List.mem_singleton] at hr
      rcases hr with hr | rfl
      · exact h r hr
      · rfl

theorem Analyses.Blank.deleteRecord {reaches : Bool} (h : t.Blank) : (t.deleteRecord reaches id).Blank := by
  unfold Analyses.deleteRecord
  split_ifs
  · exact fun r hr => h r (Table.mem_delete.mp hr).1
  · exact h

/-! ## The cache -/

theorem Cache.Blank.pop (h : c.Blank) : (c.pop userId key).Blank := fun e he => h e (List.mem_filter.mp he).1

theorem Cache.Blank.evict (h : c.Blank) : (c.evict config).Blank := by
  unfold Cache.evict
  split_ifs
  · split
    · exact h.pop
    · exact h
  · exact h

theorem search_blank {reaches : Bool} {now : ℤ} (ht : t.Blank) (hc : c.Blank) :
    (∀ r ∈ (getAnalysisByIdemKey.search config t reaches now userId key c).1, r.Blank) ∧
      Cache.Blank (getAnalysisByIdemKey.search config t reaches now userId key c).2 := by
  have hrecord : ∀ r ∈ (getAnalysisByIdemKey.search config t reaches now userId key c).1, r.Blank := by
    intro r hr
    unfold getAnalysisByIdemKey.search at hr
    dsimp only at hr
    split_ifs at hr
    · exact ht r (List.mem_of_find?_eq_some hr)
    · cases hr
  refine ⟨hrecord, fun e he => ?_⟩
  unfold getAnalysisByIdemKey.search at he
  rw [List.mem_append, List.mem_singleton] at he
  rcases he with he | rfl
  · exact hc.evict e he
  · exact hrecord

theorem lookup_blank {reaches : Bool} {now : ℤ} (ht : t.Blank) (hc : c.Blank) :
    (∀ r ∈ (getAnalysisByIdemKey config c t reaches now userId key).1, r.Blank) ∧
      Cache.Blank (getAnalysisByIdemKey config c t reaches now userId key).2 := by
  unfold getAnalysisByIdemKey
  split
  · rename_i e he
    split_ifs
    · exact ⟨hc e (List.mem_of_find?_eq_some he), hc⟩
    · exact search_blank ht hc.pop
  · exact search_blank ht hc

theorem not_replayable (h : r.Blank) : replayable r = false := by
  rw [AnalysisRow.Blank] at h
  simp [replayable, h]

end

/-! ## The route -/

section

variable {ι : Type*} {s : State ι} {env : Env ι} {recordId ledgerId : Option Uuid} {userId : Uuid}
  {req : AnalyzeRequest} {latest : List LedgerRow → Option LedgerRow} {config : CacheConfig}

structure State.Blank (s : State ι) : Prop where
  analyses : s.analyses.Blank
  caches : ∀ i, (s.caches i).Blank

theorem State.Blank.consume {reaches : Bool} (h : s.Blank) : (s.consume reaches ledgerId).Blank := by
  unfold State.consume
  split
  · split_ifs <;> exact ⟨h.analyses, h.caches⟩
  · exact h

theorem State.Blank.release {reaches : Bool} (h : s.Blank) : (s.release reaches ledgerId).Blank := by
  unfold State.release
  split
  · split_ifs <;> exact ⟨h.analyses, h.caches⟩
  · exact h

theorem State.Blank.updateRecord {reaches : Bool} {entries : List Entry} (h : s.Blank) :
    (s.updateRecord reaches recordId entries).Blank := by
  unfold State.updateRecord
  split
  · exact ⟨h.analyses.updateRecord, h.caches⟩
  · exact h

theorem State.Blank.fail {message : String} (h : s.Blank) : (s.fail env recordId ledgerId message).Blank :=
  h.release.updateRecord

theorem State.Blank.runAnalysis (h : s.Blank) : (s.runAnalysis env recordId ledgerId).2.Blank := by
  unfold State.runAnalysis
  split
  · exact h
  · exact h.fail
  · exact h.fail
  · dsimp only
    split
    · exact h.consume
    · exact h.consume.fail
    · split
      · exact h.consume.updateRecord
      · exact h.consume.updateRecord.fail
      · exact h.consume.updateRecord

theorem runAnalysis_ne_replayed {row : AnalysisRow} : (s.runAnalysis env recordId ledgerId).1 ≠ .replayed row := by
  unfold State.runAnalysis
  split
  · simp
  · simp
  · simp
  · dsimp only
    split
    · simp
    · simp
    · split <;> simp

theorem analyzeFresh_blank (h : s.Blank) : (s.analyzeFresh latest env userId req).2.Blank ∧
    ∀ row, (s.analyzeFresh latest env userId req).1 ≠ .replayed row := by
  have hcreated : State.Blank { s with
      analyses := (s.analyses.createRecord env.createReaches userId env.analysisId req).2 } :=
    ⟨h.analyses.createRecord, h.caches⟩
  unfold State.analyzeFresh
  dsimp only
  split_ifs
  · exact ⟨hcreated.runAnalysis, fun _ => runAnalysis_ne_replayed⟩
  · split
    · exact ⟨State.Blank.runAnalysis ⟨hcreated.analyses, hcreated.caches⟩, fun _ => runAnalysis_ne_replayed⟩
    · refine ⟨?_, by simp⟩
      split
      · exact ⟨hcreated.analyses.deleteRecord, hcreated.caches⟩
      · exact ⟨hcreated.analyses, hcreated.caches⟩
    · exact ⟨⟨hcreated.analyses, hcreated.caches⟩, by simp⟩

theorem State.Blank.recache [DecidableEq ι] {i : ι} {c : Cache} (h : s.Blank) (hc : c.Blank) :
    State.Blank { s with caches := Function.update s.caches i c } := by
  refine ⟨h.analyses, fun j => ?_⟩
  by_cases hj : j = i
  · subst hj
    dsimp only
    rw [Function.update_self]
    exact hc
  · dsimp only
    rw [Function.update_of_ne hj]
    exact h.caches j

theorem analyze_blank [DecidableEq ι] (h : s.Blank) : (analyze config latest s env userId req).2.Blank ∧
    ∀ row, (analyze config latest s env userId req).1 ≠ .replayed row := by
  unfold analyze
  split
  · exact analyzeFresh_blank h
  · rename_i key hkey
    obtain ⟨hprior, hcache⟩ : (∀ r ∈ (getAnalysisByIdemKey config (s.caches env.process) s.analyses env.lookupReaches
        env.now userId key).1, r.Blank) ∧ _ := lookup_blank h.analyses (h.caches env.process)
    dsimp only
    split
    · rename_i row hrow
      rw [Option.filter_eq_some_iff] at hrow
      rw [not_replayable (hprior row hrow.1)] at hrow
      exact absurd hrow.2 (by decide)
    · exact analyzeFresh_blank (h.recache hcache)

end

end CryptoAggHarmonic.Analyze
