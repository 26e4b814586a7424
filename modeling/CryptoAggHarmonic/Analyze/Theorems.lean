import CryptoAggHarmonic.Analyze.Lemmas.Replay
import Mathlib.Data.List.MinMax

/-!
# Requests with an idempotency key

Any requests one after the other, served by any processes, from an empty table on.
-/

namespace CryptoAggHarmonic.Analyze

open Sql Quota

structure Received (ι : Type*) where
  userId : Uuid
  req : AnalyzeRequest
  env : Env ι

section

variable {ι : Type*} [DecidableEq ι]

def State.start (quota : Quota.Db) : State ι where
  analyses := .empty
  caches := fun _ => []
  books := ⟨quota, []⟩

omit [DecidableEq ι] in
theorem start_blank (quota : Quota.Db) : (State.start (ι := ι) quota).Blank where
  analyses := fun _ hr => nomatch hr
  caches := fun _ _ he => nomatch he

def serve (config : CacheConfig) (latest : List LedgerRow → Option LedgerRow) (s : State ι) (r : Received ι) :
    Response × State ι := analyze config latest s r.env r.userId r.req

/-- The units a user has consumed. -/
def consumedUnits (db : Quota.Db) (userId : Uuid) : ℤ :=
  ((db.ledger.rows.filter fun r => r.userId = userId ∧ r.status = .consumed).map LedgerRow.unitsConsumed).sum

/-- A request repeats the key of one that was completed. -/
structure Repeats (config : CacheConfig) (latest : List LedgerRow → Option LedgerRow) (s : State ι)
    (first later : Received ι) : Prop where
  user : later.userId = first.userId
  key : first.req.key? ≠ none ∧ later.req.key? = first.req.key?
  completed : ∃ result, (serve config latest s first).1 = .completed result

/-- A request gets the stored result, for nothing. -/
def Replays (config : CacheConfig) (latest : List LedgerRow → Option LedgerRow) (s : State ι) (r : Received ι) : Prop :=
  (∃ row, (serve config latest s r).1 = .replayed row ∧ row.userId = r.userId ∧ row.idempotencyKey = r.req.key?) ∧
    consumedUnits (serve config latest s r).2.books.db r.userId = consumedUnits s.books.db r.userId

/-- The state after some requests. -/
def after (config : CacheConfig) (latest : List LedgerRow → Option LedgerRow) (s : State ι) (rs : List (Received ι)) :
    State ι := Steps.run (fun s r => (serve config latest s r).2) s rs

/-- **Idempotency keys.** Requests that repeat the key of a completed one are replayed exactly when there are none. -/
theorem idempotent_iff (config : CacheConfig) (latest : List LedgerRow → Option LedgerRow) (quota : Quota.Db)
    (rs : List (Received ι)) :
    (∀ before first middle later rest, rs = before ++ first :: (middle ++ later :: rest) →
      Repeats config latest (after config latest (.start quota) before) first later →
      Replays config latest (after config latest (.start quota) (before ++ first :: middle)) later) ↔
    ∀ before first middle later rest, rs = before ++ first :: (middle ++ later :: rest) →
      ¬ Repeats config latest (after config latest (.start quota) before) first later := by
  have hblank : ∀ rs : List (Received ι), (after config latest (.start quota) rs).Blank := fun _ =>
    Steps.run_kept (I := State.Blank) (fun _ _ h => (analyze_blank h).1) (start_blank quota)
  constructor
  · intro h before first middle later rest hsplit hrepeats
    obtain ⟨⟨row, hrow, -⟩, -⟩ := h before first middle later rest hsplit hrepeats
    exact (analyze_blank (hblank _)).2 row hrow
  · intro h before first middle later rest hsplit hrepeats
    exact absurd hrepeats (h before first middle later rest hsplit)

/-! ## Two requests with one key -/

def oneQuota : Quota.Db where
  profiles := ⟨[⟨1, .active, 5, 50⟩], by decide⟩
  ledger := .empty

/-- Nothing fails. -/
def calm (analysisId ledgerId : Uuid) : Env Unit where
  process := ()
  now := 0
  localDevMode := false
  lookupReaches := true
  analysisId := analysisId
  createReaches := true
  attempts := [.reply 0 ledgerId ledgerId, .reply 0 ledgerId ledgerId]
  deleteReaches := true
  analysis := .returns ⟨"signal", some .forming, none⟩
  consumeReaches := true
  summary := .ok
  completionReaches := true
  respond := .ok
  releaseReaches := true
  failureReaches := true

def keyed (analysisId ledgerId : Uuid) : Received Unit :=
  ⟨1, ⟨.futures, "BTCUSDT", .h1, .forming, some "retry-1"⟩, calm analysisId ledgerId⟩

theorem retry_not_replayed : ¬ ∀ before first middle later rest,
    [keyed 10 20, keyed 11 21] = before ++ first :: (middle ++ later :: rest) →
      Repeats ⟨60, 1024⟩ (List.argmax LedgerRow.createdAt) (after ⟨60, 1024⟩ (List.argmax LedgerRow.createdAt)
        (.start oneQuota) before) first later →
      Replays ⟨60, 1024⟩ (List.argmax LedgerRow.createdAt) (after ⟨60, 1024⟩ (List.argmax LedgerRow.createdAt)
        (.start oneQuota) (before ++ first :: middle)) later := by
  intro h
  have hrepeats : Repeats ⟨60, 1024⟩ (List.argmax LedgerRow.createdAt) (State.start oneQuota) (keyed 10 20)
      (keyed 11 21) := ⟨rfl, ⟨by decide, rfl⟩, ⟨⟨"signal", some .forming, none⟩, by decide⟩⟩
  have hunits := (h [] (keyed 10 20) [] (keyed 11 21) [] rfl hrepeats).2
  exact absurd hunits (by decide)

end

end CryptoAggHarmonic.Analyze
