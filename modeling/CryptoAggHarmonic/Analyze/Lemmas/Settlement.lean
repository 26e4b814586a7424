import CryptoAggHarmonic.Analyze.Route
import CryptoAggHarmonic.Quota.Lemmas.Usage

/-!
# How the analyze endpoint settles

The handlers cover the analysis and everything after the consumption, so a request that raises after it was consumed
releases what it has consumed.
-/

namespace CryptoAggHarmonic.Analyze

open Sql Quota

section

variable {ι : Type*} {s : State ι} {env : Env ι} {recordId ledgerId : Option Uuid} {userId o : Uuid}
  {req : AnalyzeRequest} {latest : List LedgerRow → Option LedgerRow} {config : CacheConfig}

def Response.isCompleted : Response → Bool
  | .completed _ => true
  | _ => false

/-- What an entry is to be settled as. -/
def Response.settlesAs (r : Response) : LedgerStatus := if r.isCompleted then .consumed else .released

/-- The settlement that the outcome asks for takes place, and a step after a consumption that takes place does not
raise. -/
def Env.Settles (env : Env ι) : Prop :=
  match env.analysis with
  | .exits => False
  | .appError _ | .exception => env.releaseReaches
  | .returns _ =>
      match env.summary, env.respond with
      | .ok, .ok => env.consumeReaches
      | .ok, .raises | .raises, _ => env.consumeReaches = false ∧ env.releaseReaches
      | .ok, .exits | .exits, _ => False

theorem Response.settlesAs_ne (r : Response) : r.settlesAs ≠ .reserved := by
  unfold Response.settlesAs
  split_ifs <;> decide

/-! ## One settlement -/

theorem consume_books {reaches : Bool} : (s.consume reaches (some o)).books =
    if reaches then s.books.consume o none none none else s.books := by
  cases reaches <;> rfl

theorem updateRecord_books {reaches : Bool} {entries : List Entry} :
    (s.updateRecord reaches recordId entries).books = s.books := by
  cases recordId <;> rfl

theorem fail_books {message : String} : (s.fail env recordId (some o) message).books =
    if env.releaseReaches then s.books.release o else s.books := by
  rw [State.fail, updateRecord_books]
  cases h : env.releaseReaches <;> rfl

theorem open_consume {reaches : Bool} (h : s.books.Open o) (hne : ledgerId ≠ some o) :
    (s.consume reaches ledgerId).books.Open o := by
  cases ledgerId with
  | none => exact h
  | some id =>
      rw [consume_books]
      split_ifs
      · exact h.consume_other fun heq => hne (congrArg some heq.symm)
      · exact h

theorem open_fail {message : String} (h : s.books.Open o) (hne : ledgerId ≠ some o) :
    (s.fail env recordId ledgerId message).books.Open o := by
  cases ledgerId with
  | none =>
      rw [State.fail, updateRecord_books]
      exact h
  | some id =>
      rw [fail_books]
      split_ifs
      · exact h.release_other fun heq => hne (congrArg some heq.symm)
      · exact h

/-- A request that holds another entry, or none, leaves its own open. -/
theorem open_runAnalysis (h : s.books.Open o) (hne : ledgerId ≠ some o) :
    (s.runAnalysis env recordId ledgerId).2.books.Open o := by
  have hconsumed : (s.consume env.consumeReaches ledgerId).books.Open o := open_consume h hne
  unfold State.runAnalysis
  split
  · exact h
  · exact open_fail h hne
  · exact open_fail h hne
  · dsimp only
    split
    · exact hconsumed
    · exact open_fail hconsumed hne
    · split
      · rw [updateRecord_books]
        exact hconsumed
      · refine open_fail ?_ hne
        rw [updateRecord_books]
        exact hconsumed
      · rw [updateRecord_books]
        exact hconsumed

/-- The handlers settle an open entry exactly when their release takes place. -/
theorem fail_settled_iff {message : String} (h : s.books.Open o) :
    (s.fail env recordId (some o) message).books.Settled o .released ↔ env.releaseReaches = true := by
  rw [fail_books]
  split_ifs with hreaches
  · exact iff_of_true h.release hreaches
  · exact iff_of_false (h.not_settled (by decide)) hreaches

theorem consume_settled_iff {reaches : Bool} (h : s.books.Open o) :
    (s.consume reaches (some o)).books.Settled o .consumed ↔ reaches = true := by
  rw [consume_books]
  split_ifs with hreaches
  · exact iff_of_true h.consume hreaches
  · exact iff_of_false (h.not_settled (by decide)) hreaches

theorem consume_not_released {reaches : Bool} (h : s.books.Open o) :
    ¬ (s.consume reaches (some o)).books.Settled o .released := by
  rw [consume_books]
  split_ifs
  · exact fun hs => absurd (h.consume.unique hs) (by decide)
  · exact h.not_settled (by decide)

/-- After a consumption the handlers leave the entry consumed, or turn it. -/
theorem fail_consumed_iff {t : State ι} {reaches : Bool} {message : String} (h : s.books.Open o)
    (ht : t.books = (s.consume reaches (some o)).books) :
    (t.fail env recordId (some o) message).books.Settled o .released ↔
      reaches = false ∧ env.releaseReaches = true := by
  rw [consume_books] at ht
  cases reaches with
  | true =>
      refine iff_of_false (fun hs => ?_) (by simp)
      rw [fail_books, ht, if_pos rfl] at hs
      split_ifs at hs
      · have := hs.only (o, .consumed) (List.mem_append_left _ (List.mem_append_right _ List.mem_cons_self)) rfl
        cases this
      · exact absurd (h.consume.unique hs) (by decide)
  | false =>
      rw [if_neg (by simp)] at ht
      rw [fail_settled_iff (ht ▸ h)]
      simp

/-! ## The route -/

theorem runAnalysis_settled_iff (h : s.books.Open o) :
    (s.runAnalysis env recordId (some o)).2.books.Settled o (s.runAnalysis env recordId (some o)).1.settlesAs ↔
      env.Settles := by
  unfold State.runAnalysis Env.Settles
  cases env.analysis with
  | exits => exact iff_of_false (h.not_settled (Response.settlesAs_ne _)) id
  | appError message => exact fail_settled_iff h
  | exception => exact fail_settled_iff h
  | returns result =>
      dsimp only
      cases env.summary with
      | exits => exact iff_of_false (consume_not_released h) (by cases env.respond <;> exact id)
      | raises => cases env.respond <;> exact fail_consumed_iff h rfl
      | ok =>
          dsimp only
          cases env.respond with
          | exits =>
              refine iff_of_false ?_ id
              rw [updateRecord_books]
              exact consume_not_released h
          | raises => exact fail_consumed_iff h updateRecord_books
          | ok =>
              rw [updateRecord_books]
              exact consume_settled_iff h

/-- The request's call of `reserve_user_quota`, as it returns. -/
def State.reservation (latest : List LedgerRow → Option LedgerRow) (s : State ι) (env : Env ι) (userId : Uuid)
    (req : AnalyzeRequest) : Quota.Db × Request :=
  reserveAll latest s.books.db
    (reserveArgs userId (s.analyses.createRecord env.createReaches userId env.analysisId req).1) env.attempts

/-- The request learns of its own row, and it is settled. -/
def SettlesOwn (env : Env ι) (q : Request) (o : Uuid) : Prop :=
  (∃ remaining, q.phase = .returned true remaining (some o)) ∧ env.Settles

theorem analyzeFresh_settled_iff (hmode : env.localDevMode = false)
    (hown : (s.reservation latest env userId req).2.own = some o) (hnew : ∀ e ∈ s.books.settlements, e.1 ≠ o) :
    (s.analyzeFresh latest env userId req).2.books.Settled o (s.analyzeFresh latest env userId req).1.settlesAs ↔
      SettlesOwn env (s.reservation latest env userId req).2 o := by
  have hopen : Books.Open ⟨(s.reservation latest env userId req).1, s.books.settlements⟩ o :=
    ⟨(reserveAll_holding o hown).1, hnew⟩
  unfold State.analyzeFresh
  unfold State.reservation at hopen ⊢
  dsimp only at hopen ⊢
  rw [if_neg (by simp [hmode])]
  generalize reserveAll latest s.books.db (State.reserveArgs userId
    (s.analyses.createRecord env.createReaches userId env.analysisId req).1) env.attempts = p at hopen ⊢
  obtain ⟨db, q⟩ := p
  unfold SettlesOwn
  have hleft : ∀ r : Response, ¬ Books.Settled ⟨db, s.books.settlements⟩ o r.settlesAs := fun r =>
    hopen.not_settled r.settlesAs_ne
  cases hphase : q.phase with
  | call again => exact iff_of_false (hleft _) (by simp)
  | select reserved remaining => exact iff_of_false (hleft _) (by simp)
  | returned success remaining ledgerId =>
      cases success with
      | false =>
          refine iff_of_false ?_ (by simp)
          dsimp only
          split <;> exact hleft _
      | true =>
          dsimp only
          by_cases hledger : ledgerId = some o
          · subst hledger
            exact (runAnalysis_settled_iff hopen).trans (by simp)
          · refine iff_of_false ((open_runAnalysis hopen hledger).not_settled (Response.settlesAs_ne _)) ?_
            rintro ⟨⟨_, heq⟩, -⟩
            cases heq
            exact hledger rfl

/-- A request that is not replayed is served afresh, from a state with other caches. -/
theorem analyze_fresh [DecidableEq ι] (h : ∀ row, (analyze config latest s env userId req).1 ≠ .replayed row) :
    ∃ caches, analyze config latest s env userId req =
      State.analyzeFresh latest { s with caches := caches } env userId req := by
  unfold analyze at h ⊢
  split at h
  · exact ⟨s.caches, rfl⟩
  · dsimp only at h ⊢
    split at h
    · exact absurd rfl (h _)
    · exact ⟨_, rfl⟩

theorem analyze_settled_iff [DecidableEq ι]
    (hfresh : ∀ row, (analyze config latest s env userId req).1 ≠ .replayed row) (hmode : env.localDevMode = false)
    (hown : (s.reservation latest env userId req).2.own = some o) (hnew : ∀ e ∈ s.books.settlements, e.1 ≠ o) :
    (analyze config latest s env userId req).2.books.Settled o (analyze config latest s env userId req).1.settlesAs ↔
      SettlesOwn env (s.reservation latest env userId req).2 o := by
  obtain ⟨caches, hanalyze⟩ := analyze_fresh hfresh
  rw [hanalyze]
  exact analyzeFresh_settled_iff hmode hown hnew

end

end CryptoAggHarmonic.Analyze
