import CryptoAggHarmonic.Lib.HalfEven
import Mathlib.Tactic.NormNum

/-!
# Floats that may be NaN or infinite

The comparisons of Python floats. A finite float is its exact value.
-/

namespace CryptoAggHarmonic

inductive PyFloat
  | nan
  | negInf
  | finite (x : ℚ)
  | posInf
  deriving DecidableEq, Repr

namespace PyFloat

variable {x y z : PyFloat}

/-- `x >= y`, false as soon as one side is NaN. -/
def ge : PyFloat → PyFloat → Bool
  | nan, _ => false
  | _, nan => false
  | posInf, _ => true
  | _, negInf => true
  | finite x, finite y => decide (x ≥ y)
  | _, _ => false

/-- `2 * x`. -/
def twice : PyFloat → PyFloat
  | finite x => finite (2 * x)
  | x => x

/-- `-x`. -/
def neg : PyFloat → PyFloat
  | nan => nan
  | negInf => posInf
  | finite x => finite (-x)
  | posInf => negInf

/-- `round(x, d)`. -/
def round (x : PyFloat) (d : ℕ) : PyFloat :=
  match x with
  | finite x => finite (Rounding.roundTo d x)
  | x => x

/-- `x > y`. -/
def gt (x y : PyFloat) : Bool := x.ge y && !y.ge x

theorem ge_trans (hxy : x.ge y) (hyz : y.ge z) : x.ge z := by
  cases x <;> cases y <;> cases z <;> simp_all [ge]
  exact le_trans hyz hxy

theorem ge_total (hx : x ≠ nan) (hy : y ≠ nan) : x.ge y ∨ y.ge x := by
  cases x <;> cases y <;> simp_all [ge]
  exact le_total _ _

theorem ge_of_gt (h : x.gt y) : x.ge y := by
  simp only [gt, Bool.and_eq_true] at h
  exact h.1

theorem gt_iff_not_ge (hx : x ≠ nan) (hy : y ≠ nan) : x.gt y = !y.ge x := by
  unfold gt
  rcases ge_total hx hy with h | h
  · rw [h, Bool.true_and]
  · simp [h]

theorem gt_nan : x.gt nan = false := by cases x <;> rfl

theorem ne_nan_of_gt (h : x.gt y) : x ≠ nan ∧ y ≠ nan := by
  constructor
  · rintro rfl
    cases h
  · rintro rfl
    rw [gt_nan] at h
    cases h

theorem gt_trans (hxy : x.gt y) (hyz : y.gt z) : x.gt z := by
  simp only [gt, Bool.and_eq_true, Bool.not_eq_true', ← Bool.not_eq_true] at hxy hyz ⊢
  exact ⟨ge_trans hxy.1 hyz.1, fun hzx => hxy.2 (ge_trans hyz.1 hzx)⟩

theorem gt_of_not_gt (hxy : x.gt y) (hzy : ¬ z.gt y) (hz : z ≠ nan) : x.gt z := by
  rw [gt_iff_not_ge hz (ne_nan_of_gt hxy).2, Bool.not_eq_true', Bool.not_eq_false] at hzy
  simp only [gt, Bool.and_eq_true, Bool.not_eq_true', ← Bool.not_eq_true] at hxy ⊢
  exact ⟨ge_trans hxy.1 hzy, fun hzx => hxy.2 (ge_trans hzy hzx)⟩

theorem gt_of_ge_of_gt (hxy : x.ge y) (hyz : y.gt z) : x.gt z := by
  simp only [gt, Bool.and_eq_true, Bool.not_eq_true', ← Bool.not_eq_true] at hyz ⊢
  exact ⟨ge_trans hxy hyz.1, fun hzx => hyz.2 (ge_trans hzx hxy)⟩

theorem neg_ge_neg : x.neg.ge y.neg = y.ge x := by
  cases x <;> cases y <;> simp [neg, ge]

theorem neg_gt_neg : x.neg.gt y.neg = y.gt x := by
  simp only [gt, neg_ge_neg]

end PyFloat

/-- `x / y` of two numpy floats, which does not raise for a zero. -/
def npDiv (x y : ℚ) : PyFloat :=
  if y ≠ 0 then .finite (x / y) else if x = 0 then .nan else if x > 0 then .posInf else .negInf

/-- `min(xs)`: the first of the least values. -/
def pyMin : List PyFloat → Option PyFloat
  | [] => none
  | x :: xs => some (xs.foldl (fun least y => if least.gt y then y else least) x)

/-- `max(xs)`: the first of the greatest values. -/
def pyMax : List PyFloat → Option PyFloat
  | [] => none
  | x :: xs => some (xs.foldl (fun greatest y => if y.gt greatest then y else greatest) x)

end CryptoAggHarmonic

/-!
# Sums, products and quotients of floats

Exact, except that a result too large for a float is infinite.
-/

namespace CryptoAggHarmonic.PyFloat

/-- The least number that rounds to an infinite float. -/
def limit : ℚ := 2 ^ 970 * (2 ^ 54 - 1)

def ofRat (x : ℚ) : PyFloat := if limit ≤ x then posInf else if x ≤ -limit then negInf else finite x

def add : PyFloat → PyFloat → PyFloat
  | nan, _ => nan
  | _, nan => nan
  | posInf, negInf => nan
  | negInf, posInf => nan
  | posInf, _ => posInf
  | _, posInf => posInf
  | negInf, _ => negInf
  | _, negInf => negInf
  | finite x, finite y => ofRat (x + y)

/-- `x * inf` or `x * -inf` -/
def timesInf (x : ℚ) (inf : PyFloat) : PyFloat := if x = 0 then nan else if x > 0 then inf else inf.neg

def mul : PyFloat → PyFloat → PyFloat
  | nan, _ => nan
  | _, nan => nan
  | finite x, finite y => ofRat (x * y)
  | finite x, inf => timesInf x inf
  | inf, finite y => timesInf y inf
  | posInf, inf => inf
  | negInf, inf => inf.neg

/-- A number that is infinite. -/
def isInf (x : PyFloat) : Bool := x = posInf || x = negInf

/-- The exact sum, where nothing is too large. -/
def exactAdd : PyFloat → PyFloat → PyFloat
  | finite x, finite y => finite (x + y)
  | x, y => x.add y

/-- `sum(xs)` -/
def total (xs : List PyFloat) : PyFloat := xs.foldl exactAdd (finite 0)

variable {x : ℚ}

theorem thousand_lt_limit : 1000 < limit := by
  have hpow : (1 : ℚ) ≤ 2 ^ 970 := one_le_pow₀ (by norm_num)
  calc (1000 : ℚ) < 1 * (2 ^ 54 - 1) := by norm_num
    _ ≤ limit := mul_le_mul_of_nonneg_right hpow (by norm_num)

theorem ofRat_finite (h : |x| < limit) : ofRat x = finite x := by
  obtain ⟨hlow, hhigh⟩ := abs_lt.mp h
  rw [ofRat, if_neg (not_le.mpr hhigh), if_neg (not_le.mpr hlow)]

theorem ofRat_eq_finite {y : ℚ} (h : ofRat x = finite y) : x = y ∧ |x| < limit := by
  unfold ofRat at h
  split_ifs at h with hhigh hlow
  cases h
  exact ⟨rfl, abs_lt.mpr ⟨not_le.mp hlow, not_le.mp hhigh⟩⟩

theorem ofRat_ne_nan : ofRat x ≠ nan := by
  unfold ofRat
  split_ifs <;> simp

theorem total_finite (xs : List ℚ) : total (xs.map finite) = finite xs.sum := by
  have hfold : ∀ (ys : List ℚ) (acc : ℚ), (ys.map finite).foldl exactAdd (finite acc) = finite (acc + ys.sum) := by
    intro ys
    induction ys with
    | nil => simp
    | cons y ys ih =>
        intro acc
        rw [List.map_cons, List.foldl_cons, List.sum_cons]
        show (ys.map finite).foldl exactAdd (finite (acc + y)) = _
        rw [ih, add_assoc]
  rw [total, hfold, zero_add]

end CryptoAggHarmonic.PyFloat

/-!
# Values that a program reads from JSON or writes to it

The values of Python that matter where nothing is known of their type. The keys of a dict are texts.
-/

namespace CryptoAggHarmonic

inductive PyValue
  | none
  | bool (b : Bool)
  | int (n : ℤ)
  | float (x : PyFloat)
  | str (s : String)
  | list (xs : List PyValue)
  | dict (items : List (String × PyValue))
  /-- An object that `json.dumps` does not take. -/
  | other

namespace PyValue

mutual

/-- `json.dumps` takes the value. -/
def dumps : PyValue → Bool
  | .list xs => dumpsAll xs
  | .dict items => dumpsItems items
  | .other => false
  | _ => true

def dumpsAll : List PyValue → Bool
  | [] => true
  | x :: xs => x.dumps && dumpsAll xs

def dumpsItems : List (String × PyValue) → Bool
  | [] => true
  | (_, x) :: items => x.dumps && dumpsItems items

end

/-- `value.get(key)`, nothing for a value that is no dict. -/
def get? (value : PyValue) (key : String) : Option PyValue :=
  match value with
  | .dict items => items.lookup key
  | _ => Option.none

/-- `value.get(key, default) if isinstance(value, dict) else other`, with `default` and `other` the same. -/
def getD (value : PyValue) (key : String) (default : PyValue) : PyValue := (value.get? key).getD default

variable {items : List (String × PyValue)} {key : String} {value x : PyValue}

theorem dumpsItems_iff : dumpsItems items = true ↔ ∀ item ∈ items, item.2.dumps = true := by
  induction items with
  | nil => simp [dumpsItems]
  | cons item items ih =>
      obtain ⟨k, v⟩ := item
      simp only [dumpsItems, Bool.and_eq_true, ih, List.forall_mem_cons]

theorem mem_of_lookup (h : items.lookup key = some x) : (key, x) ∈ items := by
  obtain ⟨before, after, rfl, -⟩ := List.lookup_eq_some_iff.mp h
  simp

/-- What is found in a value that can be written can be written. -/
theorem dumps_get? (hvalue : value.dumps = true) (h : value.get? key = some x) : x.dumps = true := by
  cases value with
  | dict items =>
      exact dumpsItems_iff.mp (by simpa only [dumps] using hvalue) _ (mem_of_lookup h)
  | _ => cases h

theorem dumps_getD {default : PyValue} (hvalue : value.dumps = true) (hdefault : default.dumps = true) :
    (value.getD key default).dumps = true := by
  unfold getD
  cases h : value.get? key with
  | none => exact hdefault
  | some x => exact dumps_get? hvalue h

end PyValue

/-- What `json.loads` gives, which `json.dumps` takes again. -/
abbrev Json := { value : PyValue // value.dumps = true }

end CryptoAggHarmonic
