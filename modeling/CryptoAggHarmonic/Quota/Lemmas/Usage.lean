import CryptoAggHarmonic.Quota.Ledger
import CryptoAggHarmonic.Lib.Steps
import Mathlib.Algebra.Order.BigOperators.Group.List
import Mathlib.Tactic.Linarith

/-!
# What a call does to the units in use

The units of a user in a pool are a sum over the rows, to which a call adds a row or in which it changes one. A
reservation is granted exactly within `daily_quota`; a settlement of a row that is not released leaves the sum or
lowers it.
-/

namespace CryptoAggHarmonic.Quota

open Sql

section

variable {db db' : Db} {today now : ℕ} {newId ledgerId userId : Uuid} {args : ReserveArgs} {pool : String}
  {success : Bool} {remaining n m : ℤ} {r : LedgerRow} {p : Profile}

@[simp] theorem toInteger_eq_ok : toInteger n = .ok m ↔ m = n ∧ -2 ^ 31 ≤ n ∧ n < 2 ^ 31 := by
  unfold toInteger
  split_ifs with h
  · simpa [eq_comm] using fun _ => h
  · simpa using fun _ hlow => not_lt.mp fun hhigh => h ⟨hlow, hhigh⟩

theorem Pool.ofText_eq_some {q : Pool} : Pool.ofText pool = some q ↔ pool = q.text := by
  unfold Pool.ofText
  cases q <;> split_ifs <;> simp_all [Pool.text]

theorem activeProfile?_eq_some : db.activeProfile? userId = some p ↔
    p ∈ db.profiles.rows ∧ p.id = userId ∧ p.status = .active := by
  simp [Db.activeProfile?, Option.filter_eq_some_iff, Table.get?_eq_some, and_assoc]

/-! ## The inversion of a reservation -/

/-- The row a reservation inserts. -/
def ReserveArgs.row (args : ReserveArgs) (today now : ℕ) (newId : Uuid) (pool : Pool) : LedgerRow where
  id := newId
  userId := args.userId
  analysisId := args.analysisId
  usageDate := today
  unitsReserved := args.units
  unitsConsumed := 0
  status := .reserved
  pool := pool
  inputTokens := none
  outputTokens := none
  estimatedCostMicros := none
  createdAt := now

theorem insertReserved_eq_ok (h : db.insertReserved today now newId args = .ok db') : ∃ q,
    args.pool = q.text ∧ db'.profiles = db.profiles ∧ db.ledger.get? newId = none ∧
      db'.ledger.rows = db.ledger.rows ++ [args.row today now newId q] := by
  unfold Db.insertReserved at h
  cases hpool : Pool.ofText args.pool with
  | none => simp [hpool] at h
  | some q =>
      simp only [hpool] at h
      split at h
      · cases h
      · rename_i ledger hledger
        cases h
        obtain ⟨hrows, hfree⟩ := Table.insert?_eq_some hledger
        exact ⟨q, Pool.ofText_eq_some.mp hpool, rfl, Table.get?_eq_none.mpr hfree, hrows⟩

/-- What a reservation that returns has done. -/
inductive Reservation (db : Db) (today now : ℕ) (newId : Uuid) (args : ReserveArgs) : Bool → Db → Prop
  | refused : Reservation db today now newId args false db
  | granted (p : Profile) (q : Pool) (db' : Db) (hprofile : db.activeProfile? args.userId = some p)
      (hpool : args.pool = q.text) (hunits : 0 < args.units)
      (hfits : db.usedToday today args.userId args.pool + args.units ≤ p.dailyQuota)
      (hprofiles : db'.profiles = db.profiles) (hfree : db.ledger.get? newId = none)
      (hrows : db'.ledger.rows = db.ledger.rows ++ [args.row today now newId q]) :
      Reservation db today now newId args true db'

theorem reserveQuota_cases (h : db.reserveQuota today now newId args = .ok ((success, remaining), db')) :
    Reservation db today now newId args success db' := by
  unfold Db.reserveQuota at h
  split_ifs at h with hunits
  cases hprofile : db.activeProfile? args.userId with
  | none =>
      simp only [hprofile, Except.ok.injEq, Prod.mk.injEq] at h
      obtain ⟨⟨rfl, -⟩, rfl⟩ := h
      exact .refused
  | some p =>
      simp only [hprofile, bind, Except.bind] at h
      split at h
      · cases h
      · rename_i used hused
        split at h
        · cases h
        · rename_i total htotal
          obtain ⟨rfl, -⟩ := toInteger_eq_ok.mp hused
          obtain ⟨rfl, -⟩ := toInteger_eq_ok.mp htotal
          split_ifs at h with hfits
          · split at h
            · cases h
            · simp only [pure, Except.pure, Except.ok.injEq, Prod.mk.injEq] at h
              obtain ⟨⟨rfl, -⟩, rfl⟩ := h
              exact .refused
          · split at h
            · cases h
            · rename_i reserved hreserved
              simp only [pure, Except.pure, Except.ok.injEq, Prod.mk.injEq] at h
              obtain ⟨⟨rfl, -⟩, rfl⟩ := h
              obtain ⟨q, hpool, hprofiles, hfree, hrows⟩ := insertReserved_eq_ok hreserved
              exact .granted p q reserved hprofile hpool (not_le.mp hunits) (not_lt.mp hfits) hprofiles hfree hrows

/-! ## The sum -/

/-- What a row adds to the units of a user in a pool. -/
def LedgerRow.counted (today : ℕ) (userId : Uuid) (pool : String) (r : LedgerRow) : ℤ :=
  if r.userId = userId ∧ r.usageDate = today ∧ r.pool.text = pool then r.units else 0

theorem usedToday_eq : db.usedToday today userId pool =
    (db.ledger.rows.map (LedgerRow.counted today userId pool)).sum := by
  unfold Db.usedToday
  induction db.ledger.rows with
  | nil => rfl
  | cons r rows ih =>
      rw [List.map_cons, List.sum_cons, ← ih, List.filter_cons]
      by_cases h : r.userId = userId ∧ r.usageDate = today ∧ r.pool.text = pool <;> simp [LedgerRow.counted, h]

theorem usedToday_insert {q : Pool} (hpool : args.pool = q.text)
    (hrows : db'.ledger.rows = db.ledger.rows ++ [args.row today now newId q]) :
    db'.usedToday today userId pool =
      db.usedToday today userId pool + if args.userId = userId ∧ args.pool = pool then args.units else 0 := by
  rw [usedToday_eq, usedToday_eq, hrows, List.map_append, List.sum_append, List.map_singleton, List.sum_singleton]
  congr 1
  simp [LedgerRow.counted, ReserveArgs.row, LedgerRow.units, hpool]

theorem usedToday_update {set : LedgerRow → LedgerRow} {hset : ∀ r, (set r).id = r.id}
    (hr : db.ledger.get? ledgerId = some r) :
    Db.usedToday { db with ledger := db.ledger.update ledgerId set hset } today userId pool =
      db.usedToday today userId pool - r.counted today userId pool + (set r).counted today userId pool := by
  rw [usedToday_eq, usedToday_eq]
  exact Table.sum_update hset _ hr

theorem usedToday_update_none {set : LedgerRow → LedgerRow} {hset : ∀ r, (set r).id = r.id}
    (hr : db.ledger.get? ledgerId = none) :
    Db.usedToday { db with ledger := db.ledger.update ledgerId set hset } today userId pool =
      db.usedToday today userId pool := by
  rw [usedToday_eq, usedToday_eq, Table.update_of_none hr]

end

/-! ## The invariant of the rows -/

/-- The rows of today were reserved with a positive number of units, and what a row has consumed it had reserved. -/
def Sound (today : ℕ) (db : Db) : Prop :=
  ∀ r ∈ db.ledger.rows, r.usageDate = today →
    0 < r.unitsReserved ∧ (r.status = .consumed → r.unitsConsumed = r.unitsReserved)

section

variable {db db' : Db} {today : ℕ} {ledgerId userId : Uuid} {pool : String} {r : LedgerRow} {c : Call}

theorem Sound.counted (h : Sound today db) (hr : r ∈ db.ledger.rows) : r.counted today userId pool =
    if r.userId = userId ∧ r.usageDate = today ∧ r.pool.text = pool ∧ r.status ≠ .released then r.unitsReserved
    else 0 := by
  unfold LedgerRow.counted LedgerRow.units
  by_cases hrow : r.userId = userId ∧ r.usageDate = today ∧ r.pool.text = pool
  · have hconsumed := (h r hr hrow.2.1).2
    cases hstatus : r.status <;> simp_all
  · rw [if_neg hrow, if_neg]
    exact fun hall => hrow ⟨hall.1, hall.2.1, hall.2.2.1⟩

theorem Sound.counted_nonneg (h : Sound today db) (hr : r ∈ db.ledger.rows) : 0 ≤ r.counted today userId pool := by
  rw [h.counted hr]
  split_ifs with hrow
  · exact (h r hr hrow.2.1).1.le
  · exact le_rfl

theorem exec_profiles : (db.exec today c).profiles = db.profiles := by
  cases c with
  | reserve now newId args =>
      unfold Db.exec
      dsimp only
      split
      · rename_i answer reserved hreserve
        obtain ⟨success, remaining⟩ := answer
        cases reserveQuota_cases hreserve with
        | refused => rfl
        | granted p q _ _ _ _ _ hprofiles _ _ => exact hprofiles
      · rfl
  | consume => rfl
  | release => rfl

theorem Sound.exec (h : Sound today db) : Sound today (db.exec today c) := by
  intro r hr hday
  cases c with
  | reserve now newId args =>
      unfold Db.exec at hr
      dsimp only at hr
      split at hr
      · rename_i answer reserved hreserve
        obtain ⟨success, remaining⟩ := answer
        cases reserveQuota_cases hreserve with
        | refused => exact h r hr hday
        | granted p q _ _ _ hunits _ _ _ hrows =>
            rw [hrows, List.mem_append, List.mem_singleton] at hr
            rcases hr with hr | rfl
            · exact h r hr hday
            · exact ⟨hunits, by simp [ReserveArgs.row]⟩
      · exact h r hr hday
  | consume ledgerId inputTokens outputTokens costMicros =>
      obtain ⟨s, hs, rfl⟩ := Rows.mem_update.mp hr
      split_ifs at hday ⊢ with hid
      · exact ⟨(h s hs hday).1, fun _ => rfl⟩
      · exact h s hs hday
  | release ledgerId =>
      obtain ⟨s, hs, rfl⟩ := Rows.mem_update.mp hr
      split_ifs at hday ⊢ with hid
      · exact ⟨(h s hs hday).1, by simp⟩
      · exact h s hs hday

end

/-!
# The quota cap

The units a user has reserved or consumed today in a pool, against that pool's own limit, over all calls in any order.
-/

/-- No user has more units in use in a pool than that pool's own limit. -/
def Capped (today : ℕ) (db : Db) : Prop :=
  ∀ p ∈ db.profiles.rows, ∀ q : Pool, db.usedToday today p.id q.text ≤ p.limit q

/-- The pool in which a call changes rows. -/
def Call.pool? (db : Db) : Call → Option String
  | .reserve _ _ args => some args.pool
  | .consume ledgerId _ _ _ => (db.ledger.get? ledgerId).map fun r => r.pool.text
  | .release ledgerId => (db.ledger.get? ledgerId).map fun r => r.pool.text

def Db.succeeds (db : Db) (today now : ℕ) (newId : Uuid) (args : ReserveArgs) : Bool :=
  match db.reserveQuota today now newId args with
  | .ok ((success, _), _) => success
  | .error _ => false

/-- A call changes no reservation of another pool; a new id is one no row has. -/
def Independent (today : ℕ) (db : Db) (c : Call) : Prop :=
  ∀ now newId args, c.pool? db ≠ some args.pool → (db.exec today c).ledger.get? newId = none →
    (db.exec today c).succeeds today now newId args = db.succeeds today now newId args

/-- The steps that are not held to the pool's own limit stay within it: a reservation of the pool `rsi_backtest`,
which is held to `daily_quota`, and the consumption of a row that was released. -/
def Fits (today : ℕ) (db : Db) : Call → Prop
  | .reserve _ _ args => args.pool = Pool.rsiBacktest.text → ∀ p ∈ db.activeProfile? args.userId,
      db.usedToday today args.userId args.pool + args.units ≤ p.dailyQuota →
      db.usedToday today args.userId args.pool + args.units ≤ p.rsiDailyQuota
  | .consume ledgerId _ _ _ => ∀ r ∈ db.ledger.get? ledgerId, r.usageDate = today → r.status = .released →
      ∀ p ∈ db.profiles.rows, p.id = r.userId →
        db.usedToday today r.userId r.pool.text + r.unitsReserved ≤ p.limit r.pool
  | .release _ => True

instance (today : ℕ) (db : Db) : (c : Call) → Decidable (Fits today db c)
  | .reserve .. => inferInstanceAs (Decidable (_ → _))
  | .consume .. => inferInstanceAs (Decidable (∀ _ ∈ _, _))
  | .release _ => inferInstanceAs (Decidable True)

section

variable {db db' : Db} {today : ℕ} {userId newId : Uuid} {pool : String} {c : Call}

theorem Pool.text_injective {q q' : Pool} (h : q.text = q'.text) : q = q' := by
  cases q <;> cases q' <;> simp_all [Pool.text]

/-! ## The cap is kept -/

theorem Capped.reserve {now : ℕ} {args : ReserveArgs} (h : Capped today db)
    (hfits : Fits today db (.reserve now newId args)) {success : Bool}
    (hreserve : Reservation db today now newId args success db') : Capped today db' := by
  cases hreserve with
  | refused => exact h
  | granted p q _ hprofile hpool hunits hquota hprofiles hfree hrows =>
      obtain ⟨hp, hid, -⟩ := activeProfile?_eq_some.mp hprofile
      intro p' hp' q'
      rw [hprofiles] at hp'
      rw [usedToday_insert hpool hrows]
      split_ifs with hown
      · obtain ⟨huser, hpool'⟩ := hown
        have hq : q = q' := Pool.text_injective (hpool.symm.trans hpool')
        have hpp : p = p' := List.inj_on_of_nodup_map db.profiles.keys hp hp' (hid.trans huser)
        subst hq hpp
        rw [← huser, ← hpool']
        cases q with
        | default => exact hquota
        | rsiBacktest => exact hfits hpool p hprofile hquota
      · rw [add_zero]
        exact h p' hp' q'

theorem Capped.consume {ledgerId : Uuid} {inputTokens outputTokens costMicros : Option ℤ} (h : Capped today db)
    (hsound : Sound today db) (hfits : Fits today db (.consume ledgerId inputTokens outputTokens costMicros)) :
    Capped today (db.consumeQuota ledgerId inputTokens outputTokens costMicros) := by
  intro p hp q
  cases hr : db.ledger.get? ledgerId with
  | none =>
      rw [Db.consumeQuota, usedToday_update_none hr]
      exact h p hp q
  | some r =>
      rw [Db.consumeQuota, usedToday_update hr, hsound.counted (Table.get?_eq_some.mp hr).1]
      have hcap := h p hp q
      by_cases hown : r.userId = p.id ∧ r.usageDate = today ∧ r.pool.text = q.text
      · obtain ⟨huser, hday, hpool⟩ := hown
        by_cases hreleased : r.status = .released
        -- only here does the sum grow
        · have hroom := hfits r hr hday hreleased p hp huser.symm
          rw [Pool.text_injective hpool, huser] at hroom
          simpa [LedgerRow.counted, LedgerRow.units, huser, hday, hpool, hreleased] using hroom
        · simpa [LedgerRow.counted, LedgerRow.units, huser, hday, hpool, hreleased] using hcap
      · rw [if_neg fun hall => hown ⟨hall.1, hall.2.1, hall.2.2.1⟩, LedgerRow.counted, if_neg hown]
        simpa using hcap

theorem Capped.release {ledgerId : Uuid} (h : Capped today db) (hsound : Sound today db) :
    Capped today (db.releaseQuota ledgerId) := by
  intro p hp q
  cases hr : db.ledger.get? ledgerId with
  | none =>
      rw [Db.releaseQuota, usedToday_update_none hr]
      exact h p hp q
  | some r =>
      have hcap := h p hp q
      have hnonneg : 0 ≤ r.counted today p.id q.text := hsound.counted_nonneg (Table.get?_eq_some.mp hr).1
      rw [Db.releaseQuota, usedToday_update hr]
      simp only [LedgerRow.counted, LedgerRow.units] at hnonneg ⊢
      split_ifs at hnonneg ⊢ <;> linarith

theorem Capped.exec (h : Capped today db) (hsound : Sound today db) (hfits : Fits today db c) :
    Capped today (db.exec today c) := by
  cases c with
  | reserve now newId args =>
      unfold Db.exec
      dsimp only
      split
      · rename_i answer reserved hreserve
        obtain ⟨success, remaining⟩ := answer
        exact h.reserve hfits (reserveQuota_cases hreserve)
      · exact h
  | consume => exact h.consume hsound hfits
  | release => exact h.release hsound

/-! ## The pools are independent -/

theorem usedToday_exec (hpool : c.pool? db ≠ some pool) :
    (db.exec today c).usedToday today userId pool = db.usedToday today userId pool := by
  cases c with
  | reserve now newId args =>
      unfold Db.exec
      dsimp only
      split
      · rename_i answer reserved hreserve
        obtain ⟨success, remaining⟩ := answer
        cases reserveQuota_cases hreserve with
        | refused => rfl
        | granted p q _ _ hq _ _ _ _ hrows =>
            rw [usedToday_insert hq hrows, if_neg, add_zero]
            exact fun hown => hpool (congrArg some hown.2)
      · rfl
  | consume ledgerId =>
      cases hr : db.ledger.get? ledgerId with
      | none => exact usedToday_update_none hr
      | some r =>
          have hne : r.pool.text ≠ pool := fun heq => hpool (by simp [Call.pool?, hr, heq])
          exact (usedToday_update hr).trans (by simp [LedgerRow.counted, hne])
  | release ledgerId =>
      cases hr : db.ledger.get? ledgerId with
      | none => exact usedToday_update_none hr
      | some r =>
          have hne : r.pool.text ≠ pool := fun heq => hpool (by simp [Call.pool?, hr, heq])
          exact (usedToday_update hr).trans (by simp [LedgerRow.counted, hne])

theorem ledger_get?_exec (h : (db.exec today c).ledger.get? newId = none) : db.ledger.get? newId = none := by
  rw [Table.get?_eq_none] at h ⊢
  intro r hr
  cases c with
  | reserve now newId' args =>
      unfold Db.exec at h
      dsimp only at h
      split at h
      · rename_i answer reserved hreserve
        obtain ⟨success, remaining⟩ := answer
        cases reserveQuota_cases hreserve with
        | refused => exact h r hr
        | granted p q _ _ _ _ _ _ _ hrows => exact h r (hrows ▸ List.mem_append_left _ hr)
      · exact h r hr
  | consume ledgerId =>
      have hkept := h _ (Rows.mem_update.mpr ⟨r, hr, rfl⟩)
      split_ifs at hkept <;> exact hkept
  | release ledgerId =>
      have hkept := h _ (Rows.mem_update.mpr ⟨r, hr, rfl⟩)
      split_ifs at hkept <;> exact hkept

/-- A reservation depends on the profile and on the units in use, once its id is new. -/
theorem succeeds_congr {now : ℕ} {args : ReserveArgs} (hprofiles : db'.profiles = db.profiles)
    (hused : db'.usedToday today args.userId args.pool = db.usedToday today args.userId args.pool)
    (hfree : db.ledger.get? newId = none) (hfree' : db'.ledger.get? newId = none) :
    db'.succeeds today now newId args = db.succeeds today now newId args := by
  have hprofile : db'.activeProfile? args.userId = db.activeProfile? args.userId := by
    rw [Db.activeProfile?, hprofiles, Db.activeProfile?]
  unfold Db.succeeds Db.reserveQuota
  rw [hprofile, hused]
  split_ifs
  · rfl
  · cases db.activeProfile? args.userId with
    | none => rfl
    | some p =>
        simp only [bind, Except.bind]
        cases toInteger (db.usedToday today args.userId args.pool) with
        | error e => rfl
        | ok used =>
            dsimp only
            cases toInteger (used + args.units) with
            | error e => rfl
            | ok total =>
                dsimp only
                split_ifs
                · cases toInteger (p.dailyQuota - used) <;> rfl
                · unfold Db.insertReserved
                  cases Pool.ofText args.pool with
                  | none => rfl
                  | some q =>
                      dsimp only
                      obtain ⟨t, ht⟩ := Table.insert?_of_fresh
                        (x := args.row today now newId q) (Table.get?_eq_none.mp hfree)
                      obtain ⟨t', ht'⟩ := Table.insert?_of_fresh
                        (x := args.row today now newId q) (Table.get?_eq_none.mp hfree')
                      simp only [ReserveArgs.row] at ht ht'
                      simp [ht, ht', pure, Except.pure]

theorem independent (today : ℕ) (db : Db) (c : Call) : Independent today db c := fun _ _ _ hpool hfree =>
  succeeds_congr exec_profiles (usedToday_exec hpool) (ledger_get?_exec hfree) hfree

end

end CryptoAggHarmonic.Quota

/-!
# What a settlement does to an entry

A reservation leaves its entry open. A settlement settles the entry it names and no other, whatever was before.
-/

namespace CryptoAggHarmonic.Quota

open Sql

section

variable {latest : List LedgerRow → Option LedgerRow} {db db' : Db} {q : Request} {args : ReserveArgs}
  {attempts : List Attempt} {id other : Uuid} {b : Books} {inputTokens outputTokens costMicros : Option ℤ}
  {as : LedgerStatus}

/-! ## Reservation -/

theorem Reservation.status {today now : ℕ} {newId : Uuid} (h : Reservation db today now newId args true db') :
    (db'.ledger.get? newId).map LedgerRow.status = some .reserved := by
  cases h with
  | granted p q _ _ _ _ _ _ hfree hrows =>
      have hget : db'.ledger.get? newId = some (args.row today now newId q) :=
        Table.get?_eq_some.mpr ⟨by rw [hrows]; exact List.mem_append_right _ List.mem_cons_self, rfl⟩
      rw [hget]
      rfl

/-- The row a request has inserted is reserved, and it does not call again. -/
def Holding (db : Db) (q : Request) : Prop :=
  ∀ id, q.own = some id → (db.ledger.get? id).map LedgerRow.status = some .reserved ∧ ∀ again, q.phase ≠ .call again

theorem holding_reserved {today now : ℕ} {newId : Uuid} {reserved : Bool} {q' : Request}
    (h : Reservation db today now newId args reserved db') (hown : q'.own = if reserved then some newId else none)
    (hphase : ∀ again, q'.phase ≠ .call again) : Holding db' q' := by
  intro id hid
  cases reserved with
  | false =>
      rw [hown] at hid
      cases hid
  | true =>
      rw [hown] at hid
      cases hid
      exact ⟨h.status, hphase⟩

theorem holding_of_none (h : q.own = none) : Holding db q := by
  intro id hid
  rw [h] at hid
  cases hid

theorem Holding.own_none {again : Bool} (h : Holding db q) (hphase : q.phase = .call again) : q.own = none := by
  cases hown : q.own with
  | none => rfl
  | some id => exact absurd hphase ((h id hown).2 again)

theorem Holding.step (h : Holding db q) (a : Attempt) :
    Holding (reserveUserQuota latest a.answer db q).1 (reserveUserQuota latest a.answer db q).2 := by
  unfold reserveUserQuota
  cases a with
  | unreachable =>
      dsimp only [Attempt.answer]
      split
      · exact h
      · exact fun id hid => ⟨(h id hid).1, by simp [Request.fail]⟩
  | reply today now newId =>
      dsimp only [Attempt.answer]
      split
      · rename_i again hphase
        split
        · rename_i reserved remaining reservedDb hreserve
          exact holding_reserved (reserveQuota_cases hreserve) rfl (by simp)
        · split_ifs <;> exact holding_of_none (h.own_none hphase)
      · exact fun id hid => ⟨(h id hid).1, by simp⟩
      · exact h
  | lost today now newId =>
      dsimp only [Attempt.answer]
      split
      · rename_i again hphase
        split
        · rename_i reserved remaining reservedDb hreserve
          exact holding_reserved (reserveQuota_cases hreserve) rfl (by simp [Request.fail])
        · exact holding_of_none (h.own_none hphase)
      · exact fun id hid => ⟨(h id hid).1, by simp [Request.fail]⟩
      · exact h

theorem reserveAll_holding : Holding (reserveAll latest db args attempts).1 (reserveAll latest db args attempts).2 :=
  Steps.run_kept (I := fun p : Db × Request => Holding p.1 p.2)
    (f := fun p (a : Attempt) => reserveUserQuota latest a.answer p.1 p.2) (fun _ a h => h.step a) (holding_of_none rfl)

/-! ## Settlement -/

namespace Books

theorem status?_consume : (b.consume id inputTokens outputTokens costMicros).status? other =
    if other = id then (b.status? other).map fun _ => .consumed else b.status? other := by
  rw [status?, status?, consume, Db.consumeQuota]
  split_ifs with h
  · subst h
    rw [Table.get?_update, Option.map_map, Option.map_map]
    rfl
  · rw [Table.get?_update_of_ne h]

theorem status?_release : (b.release id).status? other =
    if other = id then (b.status? other).map fun _ => .released else b.status? other := by
  rw [status?, status?, release, Db.releaseQuota]
  split_ifs with h
  · subst h
    rw [Table.get?_update, Option.map_map, Option.map_map]
    rfl
  · rw [Table.get?_update_of_ne h]

theorem Open.consume_other (h : b.Open id) (hne : id ≠ other) :
    (b.consume other inputTokens outputTokens costMicros).Open id := by
  refine ⟨by rw [status?_consume, if_neg hne, h.status], fun e he => ?_⟩
  rcases List.mem_append.mp he with he | he
  · exact h.unsettled e he
  · rw [List.mem_singleton.mp he]
    exact Ne.symm hne

theorem Open.release_other (h : b.Open id) (hne : id ≠ other) : (b.release other).Open id := by
  refine ⟨by rw [status?_release, if_neg hne, h.status], fun e he => ?_⟩
  rcases List.mem_append.mp he with he | he
  · exact h.unsettled e he
  · rw [List.mem_singleton.mp he]
    exact Ne.symm hne

theorem Settled.consume (h : b.Settled id .consumed) :
    (b.consume id inputTokens outputTokens costMicros).Settled id .consumed := by
  refine ⟨by rw [status?_consume, if_pos rfl, h.status]; rfl, fun e he => ?_⟩
  rcases List.mem_append.mp he with he | he
  · exact h.only e he
  · rw [List.mem_singleton.mp he]
    exact fun _ => rfl

theorem Open.consume (h : b.Open id) : (b.consume id inputTokens outputTokens costMicros).Settled id .consumed := by
  refine ⟨by rw [status?_consume, if_pos rfl, h.status]; rfl, fun e he hid => ?_⟩
  rcases List.mem_append.mp he with he | he
  · exact absurd hid (h.unsettled e he)
  · rw [List.mem_singleton.mp he]

theorem Open.release (h : b.Open id) : (b.release id).Settled id .released := by
  refine ⟨by rw [status?_release, if_pos rfl, h.status]; rfl, fun e he hid => ?_⟩
  rcases List.mem_append.mp he with he | he
  · exact absurd hid (h.unsettled e he)
  · rw [List.mem_singleton.mp he]

theorem Open.not_settled (h : b.Open id) (has : as ≠ .reserved) : ¬ b.Settled id as := fun hs =>
  has (Option.some.inj (hs.status.symm.trans h.status))

theorem Settled.unique {as' : LedgerStatus} (h : b.Settled id as) (h' : b.Settled id as') :
    as = as' := Option.some.inj (h.status.symm.trans h'.status)

end Books

end

end CryptoAggHarmonic.Quota
