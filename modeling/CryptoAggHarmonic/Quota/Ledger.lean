import CryptoAggHarmonic.Lib.Table
import CryptoAggHarmonic.Sql.Basic
import CryptoAggHarmonic.Lib.Interleave

/-!
# The quota ledger

The tables `profiles` and `usage_ledger`, and the functions of the database on them. Every function runs in one
transaction under the advisory lock of the user. Clock readings and new ids are arguments.
-/

namespace CryptoAggHarmonic.Quota

open Sql

/-- The check constraint of `usage_ledger.pool`. -/
inductive Pool
  | default
  | rsiBacktest
  deriving DecidableEq, Repr

def Pool.text : Pool → String
  | .default => "default"
  | .rsiBacktest => "rsi_backtest"

def Pool.ofText (text : String) : Option Pool :=
  if text = "default" then some .default else if text = "rsi_backtest" then some .rsiBacktest else none

inductive ProfileStatus
  | active
  | suspended
  deriving DecidableEq, Repr

structure Profile where
  id : Uuid
  status : ProfileStatus
  dailyQuota : ℤ
  rsiDailyQuota : ℤ
  deriving DecidableEq

/-- The limit that is meant for a pool. -/
def Profile.limit (p : Profile) : Pool → ℤ
  | .default => p.dailyQuota
  | .rsiBacktest => p.rsiDailyQuota

inductive LedgerStatus
  | reserved
  | consumed
  | released
  deriving DecidableEq, Repr

structure LedgerRow where
  id : Uuid
  userId : Uuid
  analysisId : Option Uuid
  usageDate : ℕ
  unitsReserved : ℤ
  unitsConsumed : ℤ
  status : LedgerStatus
  pool : Pool
  inputTokens : Option ℤ
  outputTokens : Option ℤ
  estimatedCostMicros : Option ℤ
  createdAt : ℕ
  deriving DecidableEq

def LedgerRow.units (r : LedgerRow) : ℤ :=
  match r.status with
  | .reserved => r.unitsReserved
  | .consumed => r.unitsConsumed
  | .released => 0

structure Db where
  profiles : Table Profile.id
  ledger : Table LedgerRow.id

/-- The arguments of `reserve_quota`. -/
structure ReserveArgs where
  userId : Uuid
  analysisId : Option Uuid
  units : ℤ
  pool : String
  deriving DecidableEq

namespace Db

def activeProfile? (db : Db) (userId : Uuid) : Option Profile :=
  (db.profiles.get? userId).filter fun p => p.status = .active

def usedToday (db : Db) (today : ℕ) (userId : Uuid) (pool : String) : ℤ :=
  ((db.ledger.rows.filter fun r => r.userId = userId ∧ r.usageDate = today ∧ r.pool.text = pool).map
    LedgerRow.units).sum

def insertReserved (db : Db) (today now : ℕ) (newId : Uuid) (args : ReserveArgs) : Except SqlError Db :=
  match Pool.ofText args.pool with
  | none => .error .checkViolation
  | some pool =>
      match db.ledger.insert? {
        id := newId
        userId := args.userId
        analysisId := args.analysisId
        usageDate := today
        unitsReserved := args.units
        unitsConsumed := 0
        status := .reserved
        pool := pool
        inputTokens := none
        outputTokens := none
        estimatedCostMicros := none
        createdAt := now } with
      | none => .error .uniqueViolation
      | some ledger => .ok { db with ledger := ledger }

/-- The limit is `daily_quota`, whatever the pool. -/
def reserveQuota (db : Db) (today now : ℕ) (newId : Uuid) (args : ReserveArgs) : Except SqlError ((Bool × ℤ) × Db) :=
  if args.units ≤ 0 then .error (.raised s!"p_units must be positive, got {args.units}")
  else
    match db.activeProfile? args.userId with
    | none => .ok ((false, 0), db)
    | some p => do
        let used ← toInteger (db.usedToday today args.userId args.pool)
        let total ← toInteger (used + args.units)
        if total > p.dailyQuota then
          let remaining ← toInteger (p.dailyQuota - used)
          return ((false, remaining), db)
        else
          let reserved ← db.insertReserved today now newId args
          return ((true, p.dailyQuota - used - args.units), reserved)

def consumeQuota (db : Db) (ledgerId : Uuid) (inputTokens outputTokens costMicros : Option ℤ) : Db :=
  { db with ledger := db.ledger.update ledgerId (fun r => { r with
      status := .consumed
      unitsConsumed := r.unitsReserved
      inputTokens := inputTokens.or r.inputTokens
      outputTokens := outputTokens.or r.outputTokens
      estimatedCostMicros := costMicros.or r.estimatedCostMicros }) fun _ => rfl }

def releaseQuota (db : Db) (ledgerId : Uuid) : Db :=
  { db with
    ledger := db.ledger.update ledgerId (fun r => { r with status := .released, unitsConsumed := 0 }) fun _ => rfl }

end Db

/-! ## Calls in any order -/

inductive Call
  | reserve (now : ℕ) (newId : Uuid) (args : ReserveArgs)
  | consume (ledgerId : Uuid) (inputTokens outputTokens costMicros : Option ℤ)
  | release (ledgerId : Uuid)

/-- One call on one day. A call that raises is rolled back. -/
def Db.exec (today : ℕ) (db : Db) : Call → Db
  | .reserve now newId args =>
      match db.reserveQuota today now newId args with
      | .ok (_, db) => db
      | .error _ => db
  | .consume ledgerId inputTokens outputTokens costMicros =>
      db.consumeQuota ledgerId inputTokens outputTokens costMicros
  | .release ledgerId => db.releaseQuota ledgerId

end CryptoAggHarmonic.Quota

/-!
# Requests for quota

`reserve_user_quota` of any number of requests: the call of `reserve_quota` and the `SELECT` for the row are two steps,
and settlements of any rows come between them.
-/

namespace CryptoAggHarmonic.Quota

open Sql

inductive Phase
  | call (retryOn409 : Bool)
  | select (reserved : Bool) (remaining : ℤ)
  | returned (success : Bool) (remaining : ℤ) (ledgerId : Option Uuid)
  deriving DecidableEq

structure Request where
  args : ReserveArgs
  phase : Phase
  /-- The row its own call has inserted. -/
  own : Option Uuid
  deriving DecidableEq

def Request.new (args : ReserveArgs) : Request where
  args := args
  phase := .call true
  own := none

/-- `except Exception: return False, 0, None` -/
def Request.fail (q : Request) : Request := { q with phase := .returned false 0 none }

inductive Answer
  | reply (today now : ℕ) (newId : Uuid)
  /-- The database has done its work and the reply does not arrive. -/
  | lost (today now : ℕ) (newId : Uuid)
  | unreachable
  /-- A settlement by whoever holds the id. -/
  | consume (ledgerId : Uuid) (inputTokens outputTokens costMicros : Option ℤ)
  | release (ledgerId : Uuid)

def retried (e : SqlError) : Bool := e.code.toList.take 2 = ['2', '3'] || e.code.toList.take 2 = ['4', '0']

/-- The rows the `SELECT` is about. -/
def Db.reservedRows (db : Db) (userId : Uuid) (pool : String) : List LedgerRow :=
  db.ledger.rows.filter fun r => r.userId = userId ∧ r.status = .reserved ∧ r.pool.text = pool

/-- `ORDER BY created_at DESC LIMIT 1`: any of the latest rows. -/
structure IsLatest (latest : List LedgerRow → Option LedgerRow) : Prop where
  none_iff : ∀ rows, latest rows = none ↔ rows = []
  mem : ∀ rows r, latest rows = some r → r ∈ rows
  le : ∀ rows r, latest rows = some r → ∀ s ∈ rows, s.createdAt ≤ r.createdAt

/-- One step of a request, or a settlement. -/
def reserveUserQuota (latest : List LedgerRow → Option LedgerRow) (a : Answer) (db : Db) (q : Request) : Db × Request :=
  match a with
  | .consume ledgerId inputTokens outputTokens costMicros =>
      (db.consumeQuota ledgerId inputTokens outputTokens costMicros, q)
  | .release ledgerId => (db.releaseQuota ledgerId, q)
  | .unreachable =>
      match q.phase with
      | .returned .. => (db, q)
      | _ => (db, q.fail)
  | .reply today now newId =>
      match q.phase with
      | .call retryOn409 =>
          match db.reserveQuota today now newId q.args with
          | .ok ((reserved, remaining), db') =>
              (db', { q with
                phase := .select reserved remaining
                own := if reserved then some newId else none })
          | .error e => (db, if retryOn409 && retried e then { q with phase := .call false } else q.fail)
      | .select reserved remaining =>
          let row := latest (db.reservedRows q.args.userId q.args.pool)
          (db, { q with phase := .returned reserved remaining (row.map LedgerRow.id) })
      | .returned .. => (db, q)
  | .lost today now newId =>
      match q.phase with
      | .call _ =>
          match db.reserveQuota today now newId q.args with
          | .ok ((reserved, _), db') => (db', { q.fail with own := if reserved then some newId else none })
          | .error _ => (db, q.fail)
      | .select .. => (db, q.fail)
      | .returned .. => (db, q)

/-!
# Reservation and settlement

One request's reservation from its call to its return, and the ledger with the settlements that have taken place.
-/

/-- One attempt of `reserve_user_quota` to get through to the database. -/
inductive Attempt
  | reply (today now : ℕ) (newId : Uuid)
  | lost (today now : ℕ) (newId : Uuid)
  | unreachable

def Attempt.answer : Attempt → Answer
  | .reply today now newId => .reply today now newId
  | .lost today now newId => .lost today now newId
  | .unreachable => .unreachable

/-- `reserve_user_quota` from its call to its return. -/
def reserveAll (latest : List LedgerRow → Option LedgerRow) (db : Db) (args : ReserveArgs) (attempts : List Attempt) :
    Db × Request :=
  (attempts ++ [Attempt.unreachable]).foldl (fun p a => reserveUserQuota latest a.answer p.1 p.2) (db, .new args)

structure Books where
  db : Db
  settlements : List (Uuid × LedgerStatus)

namespace Books

/-- `consume_quota` -/
def consume (b : Books) (ledgerId : Uuid) (inputTokens outputTokens costMicros : Option ℤ) : Books where
  db := b.db.consumeQuota ledgerId inputTokens outputTokens costMicros
  settlements := b.settlements ++ [(ledgerId, .consumed)]

/-- `release_quota` -/
def release (b : Books) (ledgerId : Uuid) : Books where
  db := b.db.releaseQuota ledgerId
  settlements := b.settlements ++ [(ledgerId, .released)]

def status? (b : Books) (id : Uuid) : Option LedgerStatus := (b.db.ledger.get? id).map LedgerRow.status

/-- An entry that waits for its settlement. -/
structure Open (b : Books) (id : Uuid) : Prop where
  status : b.status? id = some .reserved
  unsettled : ∀ e ∈ b.settlements, e.1 ≠ id

/-- An entry that has been settled, and never otherwise. -/
structure Settled (b : Books) (id : Uuid) (as : LedgerStatus) : Prop where
  status : b.status? id = some as
  only : ∀ e ∈ b.settlements, e.1 = id → e.2 = as

end Books

end CryptoAggHarmonic.Quota
