import Mathlib.Algebra.Group.Int.Defs
import Mathlib.Data.Int.Notation
import Mathlib.Data.Nat.Notation

/-!
# PostgreSQL

The errors of the statements that are used, with their codes, and the range of `INTEGER`.
-/

namespace CryptoAggHarmonic.Sql

abbrev Uuid := ℕ

inductive SqlError
  /-- `RAISE EXCEPTION` -/
  | raised (message : String)
  | integerOutOfRange
  | notNullViolation
  | foreignKeyViolation
  | uniqueViolation
  | checkViolation
  | undefinedColumn
  deriving DecidableEq

def SqlError.code : SqlError → String
  | .raised _ => "P0001"
  | .integerOutOfRange => "22003"
  | .notNullViolation => "23502"
  | .foreignKeyViolation => "23503"
  | .uniqueViolation => "23505"
  | .checkViolation => "23514"
  | .undefinedColumn => "42703"

/-- A value put into an `INTEGER`. -/
def toInteger (n : ℤ) : Except SqlError ℤ :=
  if -2 ^ 31 ≤ n ∧ n < 2 ^ 31 then .ok n else .error .integerOutOfRange

end CryptoAggHarmonic.Sql
