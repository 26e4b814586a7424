import CryptoAggHarmonic.Quota.Ledger
import CryptoAggHarmonic.Quota.Lemmas.Usage

/-!
# Whose row a request gets

Rows are never taken out of the ledger and a new row has a new id, so a request knows its row for good. What its
`SELECT` finds is that row exactly while it is the latest one reserved.
-/

namespace CryptoAggHarmonic.Quota

open Sql

/-- Where a request stands, against the row its call has inserted. -/
def Request.Answered (q : Request) : Prop :=
  match q.phase with
  | .call _ => q.own = none
  | .select reserved _ => q.own.isSome = reserved
  | .returned true _ ledgerId => q.own.isSome ∧ ledgerId = q.own
  | .returned false _ ledgerId => ledgerId = none

/-- A `SELECT` is made while the request's row is the only latest one that is reserved, and by a request that was
refused while no row is. -/
def Unmixed (db : Db) (a : Answer) (q : Request) : Prop :=
  match a, q.phase with
  | .reply .., .select true _ => ∃ r ∈ db.reservedRows q.args.userId q.args.pool, q.own = some r.id ∧
      ∀ s ∈ db.reservedRows q.args.userId q.args.pool, s.id ≠ r.id → s.createdAt < r.createdAt
  | .reply .., .select false _ => db.reservedRows q.args.userId q.args.pool = []
  | _, _ => True

instance (db : Db) (a : Answer) (q : Request) : Decidable (Unmixed db a q) := by
  unfold Unmixed
  exact match a, q.phase with
  | .reply .., .select true _ => inferInstanceAs (Decidable (∃ _ ∈ _, _))
  | .reply .., .select false _ => inferInstanceAs (Decidable (_ = _))
  | .reply .., .call _ => inferInstanceAs (Decidable True)
  | .reply .., .returned .. => inferInstanceAs (Decidable True)
  | .lost .., _ => inferInstanceAs (Decidable True)
  | .unreachable, _ => inferInstanceAs (Decidable True)
  | .consume .., _ => inferInstanceAs (Decidable True)
  | .release _, _ => inferInstanceAs (Decidable True)

section

variable {latest : List LedgerRow → Option LedgerRow} {db db' : Db} {a : Answer} {q : Request} {i : Uuid}

theorem latest_eq (hlatest : IsLatest latest) {rows : List LedgerRow} {r : LedgerRow} (hr : r ∈ rows)
    (hmax : ∀ s ∈ rows, s.id ≠ r.id → s.createdAt < r.createdAt) : (latest rows).map LedgerRow.id = some r.id := by
  cases h : latest rows with
  | none =>
      rw [(hlatest.none_iff rows).mp h] at hr
      cases hr
  | some s =>
      by_contra hne
      have hid : s.id ≠ r.id := fun heq => hne (congrArg some heq)
      have hlt := hmax s (hlatest.mem rows s h) hid
      have hle := hlatest.le rows s h r hr
      omega

/-! ## One step -/

theorem get?_consumeQuota_ne_none {id : Uuid} {inputTokens outputTokens costMicros : Option ℤ}
    (h : db.ledger.get? i ≠ none) :
    (db.consumeQuota id inputTokens outputTokens costMicros).ledger.get? i ≠ none := by
  unfold Db.consumeQuota
  refine Table.get?_update_ne_none ?_ h
  exact fun _ => rfl

theorem get?_releaseQuota_ne_none {id : Uuid} (h : db.ledger.get? i ≠ none) :
    (db.releaseQuota id).ledger.get? i ≠ none := by
  unfold Db.releaseQuota
  refine Table.get?_update_ne_none ?_ h
  exact fun _ => rfl

theorem Reservation.get? {today now : ℕ} {newId : Uuid} {args : ReserveArgs} {reserved : Bool}
    (h : Reservation db today now newId args reserved db') :
    (∀ i, db.ledger.get? i ≠ none → db'.ledger.get? i ≠ none) ∧
      (reserved = true → db.ledger.get? newId = none ∧ db'.ledger.get? newId ≠ none) := by
  cases h with
  | refused => exact ⟨fun _ hi => hi, by simp⟩
  | granted p q _ _ _ _ _ _ hfree hrows =>
      simp only [ne_eq, Table.get?_eq_none, hrows, List.mem_append, List.mem_singleton] at hfree ⊢
      refine ⟨fun i hi hall => hi fun r hr => hall r (Or.inl hr), fun _ => ⟨hfree, fun hall => ?_⟩⟩
      exact hall _ (Or.inr rfl) rfl

/-- What a step does to the row of a request and to the rows. -/
structure Kept (db : Db) (q : Request) (db' : Db) (q' : Request) : Prop where
  args : q'.args = q.args
  rows : ∀ i, db.ledger.get? i ≠ none → db'.ledger.get? i ≠ none
  own : q'.own = q.own ∨ q'.own = none ∨
    ∃ i, q'.own = some i ∧ db.ledger.get? i = none ∧ db'.ledger.get? i ≠ none

theorem reserveUserQuota_kept :
    Kept db q (reserveUserQuota latest a db q).1 (reserveUserQuota latest a db q).2 := by
  unfold reserveUserQuota
  cases a with
  | consume => exact ⟨rfl, fun _ => get?_consumeQuota_ne_none, Or.inl rfl⟩
  | release => exact ⟨rfl, fun _ => get?_releaseQuota_ne_none, Or.inl rfl⟩
  | unreachable =>
      dsimp only
      split <;> exact ⟨rfl, fun _ hi => hi, Or.inl rfl⟩
  | reply today now newId =>
      dsimp only
      split
      · split
        · rename_i reserved remaining reservedDb hreserve
          obtain ⟨hrows, hnew⟩ := (reserveQuota_cases hreserve).get?
          refine ⟨rfl, hrows, Or.inr ?_⟩
          cases reserved with
          | false => exact Or.inl rfl
          | true => exact Or.inr ⟨newId, rfl, hnew rfl⟩
        · dsimp only
          split_ifs <;> exact ⟨rfl, fun _ hi => hi, Or.inl rfl⟩
      · exact ⟨rfl, fun _ hi => hi, Or.inl rfl⟩
      · exact ⟨rfl, fun _ hi => hi, Or.inl rfl⟩
  | lost today now newId =>
      dsimp only
      split
      · split
        · rename_i reserved remaining reservedDb hreserve
          obtain ⟨hrows, hnew⟩ := (reserveQuota_cases hreserve).get?
          refine ⟨rfl, hrows, Or.inr ?_⟩
          cases reserved with
          | false => exact Or.inl rfl
          | true => exact Or.inr ⟨newId, rfl, hnew rfl⟩
        · exact ⟨rfl, fun _ hi => hi, Or.inl rfl⟩
      · exact ⟨rfl, fun _ hi => hi, Or.inl rfl⟩
      · exact ⟨rfl, fun _ hi => hi, Or.inl rfl⟩

theorem Request.Answered.step (hlatest : IsLatest latest) (h : q.Answered) (hok : Unmixed db a q) :
    (reserveUserQuota latest a db q).2.Answered := by
  unfold reserveUserQuota
  cases a with
  | consume => exact h
  | release => exact h
  | unreachable =>
      dsimp only
      split
      · exact h
      · rfl
  | reply today now newId =>
      dsimp only
      split
      · split
        · rename_i reserved remaining reservedDb hreserve
          cases reserved <;> rfl
        · dsimp only
          rename_i hphase _ _ _
          split_ifs
          · simpa [Request.Answered, hphase] using h
          · rfl
      · rename_i reserved remaining hphase
        cases reserved with
        | true =>
            simp only [Unmixed, hphase] at hok
            obtain ⟨r, hr, hown, hmax⟩ := hok
            simp [Request.Answered, hown, latest_eq hlatest hr hmax]
        | false =>
            simp only [Unmixed, hphase] at hok
            simp [Request.Answered, (hlatest.none_iff _).mpr hok]
      · exact h
  | lost today now newId =>
      dsimp only
      split
      · split <;> rfl
      · rfl
      · exact h

end

/-! ## All requests -/

section

open Interleave

variable {ι : Type*} [DecidableEq ι] {latest : List LedgerRow → Option LedgerRow} {w : World ι Db Request}
  {e : ι × Answer}

structure Tidy (w : World ι Db Request) : Prop where
  stored : ∀ c i, (w.procs c).own = some i → w.shared.ledger.get? i ≠ none
  distinct : ∀ c d i, (w.procs c).own = some i → (w.procs d).own = some i → c = d
  answered : ∀ c, (w.procs c).Answered

theorem Tidy.step (hlatest : IsLatest latest) (h : Tidy w) (hok : Unmixed w.shared e.2 (w.procs e.1)) :
    Tidy (Interleave.step (reserveUserQuota latest) w e) := by
  have hkept : Kept w.shared (w.procs e.1) (reserveUserQuota latest e.2 w.shared (w.procs e.1)).1
    (reserveUserQuota latest e.2 w.shared (w.procs e.1)).2 := reserveUserQuota_kept
  -- the row of the request that takes the step is its old one or a new one
  have hown : ∀ i, ((Interleave.step (reserveUserQuota latest) w e).procs e.1).own = some i →
      (w.procs e.1).own = some i ∨ w.shared.ledger.get? i = none ∧
        (Interleave.step (reserveUserQuota latest) w e).shared.ledger.get? i ≠ none := by
    intro i hi
    rw [step_procs_self] at hi
    rcases hkept.own with hold | hnone | ⟨j, hj, hfree, hnew⟩
    · exact Or.inl (hold ▸ hi)
    · rw [hnone] at hi
      cases hi
    · rw [hj] at hi
      cases hi
      exact Or.inr ⟨hfree, hnew⟩
  refine ⟨fun c i hi => ?_, fun c d i hc hd => ?_, ?_⟩
  · by_cases hc : c = e.1
    · subst hc
      rcases hown i hi with hold | ⟨-, hnew⟩
      · exact hkept.rows i (h.stored _ i hold)
      · exact hnew
    · rw [step_procs_other hc] at hi
      exact hkept.rows i (h.stored c i hi)
  · by_cases hce : c = e.1 <;> by_cases hde : d = e.1
    · exact hce.trans hde.symm
    · subst hce
      rw [step_procs_other hde] at hd
      rcases hown i hc with hold | ⟨hfree, -⟩
      · exact h.distinct _ d i hold hd
      · exact absurd hfree (h.stored d i hd)
    · subst hde
      rw [step_procs_other hce] at hc
      rcases hown i hd with hold | ⟨hfree, -⟩
      · exact h.distinct c _ i hc hold
      · exact absurd hfree (h.stored c i hc)
    · rw [step_procs_other hce] at hc
      rw [step_procs_other hde] at hd
      exact h.distinct c d i hc hd
  · exact forall_procs_step (P := fun _ (q : Request) => q.Answered) ((h.answered e.1).step hlatest hok)
      fun c _ => h.answered c

end

end CryptoAggHarmonic.Quota
