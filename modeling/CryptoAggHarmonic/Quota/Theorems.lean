import CryptoAggHarmonic.Quota.Lemmas.Usage
import CryptoAggHarmonic.Quota.Lemmas.Requests
import Mathlib.Data.List.MinMax

/-!
# Main theorems about the quota

The cap on every pool over all calls in any order, and the ledger row that each of several requests is given.
-/

namespace CryptoAggHarmonic.Quota

open Sql

/-- **The quota cap.** Over one day that starts without rows the units in use stay within each pool's own limit as
long as the steps that are not held to it fit, and no call changes a reservation of the other pool. -/
theorem quota_cap (today : ℕ) (db : Db) (calls : List Call) (hday : ∀ r ∈ db.ledger.rows, r.usageDate ≠ today)
    (hlimits : ∀ p ∈ db.profiles.rows, ∀ q, 0 ≤ p.limit q) (hfits : Steps.Along (Db.exec today) (Fits today) db calls) :
    Steps.Always (Db.exec today) (Capped today) db calls ∧
      ∀ before c after, calls = before ++ c :: after → Independent today (Steps.run (Db.exec today) db before) c := by
  refine ⟨?_, fun _ _ _ _ => independent today _ _⟩
  refine Steps.always_of_along (I := fun db => Sound today db ∧ Capped today db) (fun _ hI => hI.2)
    (fun db c hI hc => ⟨hI.1.exec, hI.2.exec hI.1 hc⟩) ⟨?_, ?_⟩ hfits
  · intro r hr hr_today
    exact absurd hr_today (hday r hr)
  · intro p hp q
    have hunused : db.usedToday today p.id q.text = 0 := by
      rw [usedToday_eq]
      refine List.sum_eq_zero fun n hn => ?_
      obtain ⟨r, hr, rfl⟩ := List.mem_map.mp hn
      exact if_neg fun hown => hday r hr hown.2.1
    rw [hunused]
    exact hlimits p hp q

/-- An account with a `daily_quota` of 3 and an `rsi_daily_quota` of 2. -/
def oneUser : Db where
  profiles := ⟨[⟨1, .active, 3, 2⟩], by decide⟩
  ledger := .empty

def reserveUnits (newId : Uuid) (units : ℤ) (pool : Pool) : Call := .reserve newId newId ⟨1, none, units, pool.text⟩

def calmDay : List Call :=
  [reserveUnits 1 2 .rsiBacktest, reserveUnits 2 3 .default, .release 1, reserveUnits 3 1 .rsiBacktest,
    .consume 2 none none none, .consume 3 none none none]

theorem calmDay_capped : Steps.Always (Db.exec 7) (Capped 7) oneUser calmDay ∧
    ∀ before c after, calmDay = before ++ c :: after → Independent 7 (Steps.run (Db.exec 7) oneUser before) c :=
  quota_cap 7 oneUser calmDay (by decide) (fun p hp q => by
    rw [oneUser, List.mem_singleton] at hp
    subst hp
    cases q <;> decide) (by decide)

/-- The pool `rsi_backtest` is given what `daily_quota` allows. -/
def rsiDay : List Call := [reserveUnits 1 3 .rsiBacktest]

/-- The second reservation is granted because the first was released; then the first is consumed all the same. -/
def lateConsume : List Call :=
  [reserveUnits 1 3 .default, .release 1, reserveUnits 2 3 .default, .consume 1 none none none]

theorem limits_exceeded : ¬ Steps.Always (Db.exec 7) (Capped 7) oneUser rsiDay ∧
    ¬ Steps.Always (Db.exec 7) (Capped 7) oneUser lateConsume := by
  constructor
  · intro h
    exact absurd (h.run ⟨1, .active, 3, 2⟩ (by decide) .rsiBacktest) (by decide)
  · intro h
    exact absurd (h.run ⟨1, .active, 3, 2⟩ (by decide) .default) (by decide)

/-! ## The row of a request -/

open Interleave

variable {ι : Type*}

/-- A request that succeeds has its own row, no two have the same, and one that fails has none. -/
structure Attributed (w : World ι Db Request) : Prop where
  own : ∀ c remaining ledgerId, (w.procs c).phase = .returned true remaining ledgerId →
    (w.procs c).own.isSome ∧ ledgerId = (w.procs c).own
  unshared : ∀ c d m n i, (w.procs c).phase = .returned true m (some i) →
    (w.procs d).phase = .returned true n (some i) → c = d
  failed : ∀ c remaining ledgerId, (w.procs c).phase = .returned false remaining ledgerId → ledgerId = none

theorem Tidy.attributed {w : World ι Db Request} (h : Tidy w) : Attributed w := by
  have hown : ∀ c remaining ledgerId, (w.procs c).phase = .returned true remaining ledgerId →
      (w.procs c).own.isSome ∧ ledgerId = (w.procs c).own := by
    intro c remaining ledgerId hphase
    simpa [Request.Answered, hphase] using h.answered c
  refine ⟨hown, fun c d m n i hc hd => ?_, fun c remaining ledgerId hphase => ?_⟩
  · exact h.distinct c d i (hown c m _ hc).2.symm (hown d n _ hd).2.symm
  · simpa [Request.Answered, hphase] using h.answered c

/-- **The row of a request.** -/
theorem requests_attributed [DecidableEq ι] {latest : List LedgerRow → Option LedgerRow} (hlatest : IsLatest latest)
    (db : Db) (args : ι → ReserveArgs) (schedule : List (ι × Answer))
    (hok : Along (reserveUserQuota latest) (fun w e => Unmixed w.shared e.2 (w.procs e.1))
      ⟨db, fun c => .new (args c)⟩ schedule) :
    Attributed (run (reserveUserQuota latest) ⟨db, fun c => .new (args c)⟩ schedule) := by
  refine (run_invariant (fun w e (h : Tidy w) hok => h.step hlatest hok) ?_ hok).attributed
  exact ⟨fun _ _ hi => by simp [Request.new] at hi, fun _ _ _ hi => by simp [Request.new] at hi, fun _ => rfl⟩

theorem argmax_isLatest : IsLatest (List.argmax LedgerRow.createdAt) where
  none_iff := fun _ => List.argmax_eq_none
  mem := fun _ _ h => List.argmax_mem h
  le := fun _ _ h _ hs => List.le_of_mem_argmax hs h

/-- Two requests of one user for one unit each. -/
def twoRequests (_ : Bool) : ReserveArgs := ⟨1, none, 1, Pool.default.text⟩

def inTurn : List (Bool × Answer) :=
  [(true, .reply 7 10 1), (true, .reply 7 11 1), (false, .reply 7 12 2), (true, .consume 1 none none none),
    (false, .reply 7 13 2)]

theorem inTurn_attributed : Attributed (run (reserveUserQuota (List.argmax LedgerRow.createdAt))
    ⟨oneUser, fun c => .new (twoRequests c)⟩ inTurn) :=
  requests_attributed argmax_isLatest oneUser twoRequests inTurn (by decide)

/-- Both calls come before both `SELECT`s. -/
def bothReserve : List (Bool × Answer) :=
  [(true, .reply 7 10 1), (false, .reply 7 11 2), (true, .reply 7 12 3), (false, .reply 7 13 4)]

/-- The first request takes two of the three units; the second asks for three. -/
def refusedWithRow : List (Bool × Answer) :=
  [(true, .reply 7 10 1), (true, .reply 7 11 2), (false, .reply 7 12 3), (false, .reply 7 13 4)]

theorem bothReserve_share : ¬ Attributed (run (reserveUserQuota (List.argmax LedgerRow.createdAt))
      ⟨oneUser, fun c => .new (twoRequests c)⟩ bothReserve) ∧
    ¬ Attributed (run (reserveUserQuota (List.argmax LedgerRow.createdAt))
      ⟨oneUser, fun c => .new ⟨1, none, if c then 2 else 3, Pool.default.text⟩⟩ refusedWithRow) := by
  constructor
  · intro h
    exact absurd (h.unshared true false 2 1 2 (by decide) (by decide)) (by decide)
  · intro h
    exact absurd (h.failed false 1 (some 1) (by decide)) (by decide)

end CryptoAggHarmonic.Quota
