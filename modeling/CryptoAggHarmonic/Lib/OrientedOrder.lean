import Mathlib.Algebra.Order.Group.Defs
import Mathlib.Algebra.Order.Group.Unbundled.Basic
import Mathlib.Order.Lattice
import Mathlib.Order.Defs.LinearOrder
import Mathlib.Order.MinMax

/-!
# A linear order read from one of its two sides

`up = true` is the order as it is, `up = false` the reversed order. A law stated once over `up` covers
both a rising and a falling case.
-/

namespace Oriented

variable {α : Type*}

section Order

variable [LinearOrder α] {up : Bool} {x y z : α}

def Le (up : Bool) (x y : α) : Prop := if up then x ≤ y else y ≤ x

def Lt (up : Bool) (x y : α) : Prop := if up then x < y else y < x

def sup (up : Bool) (x y : α) : α := if up then max x y else min x y

def sups (up : Bool) (x : α) (xs : List α) : α := xs.foldl (sup up) x

instance (up : Bool) (x y : α) : Decidable (Le up x y) := by unfold Le; infer_instance

instance (up : Bool) (x y : α) : Decidable (Lt up x y) := by unfold Lt; infer_instance

theorem Le.refl (up : Bool) (x : α) : Le up x x := by cases up <;> simp [Le]

theorem Le.trans (h₁ : Le up x y) (h₂ : Le up y z) : Le up x z := by
  cases up
  · exact le_trans (α := α) h₂ h₁
  · exact le_trans (α := α) h₁ h₂

theorem Le.antisymm (h₁ : Le up x y) (h₂ : Le up y x) : x = y := by
  cases up
  · exact le_antisymm (α := α) h₂ h₁
  · exact le_antisymm (α := α) h₁ h₂

theorem Lt.le (h : Lt up x y) : Le up x y := by
  cases up <;> exact le_of_lt (α := α) h

theorem not_lt : ¬ Lt up x y ↔ Le up y x := by
  cases up <;> simp [Lt, Le]

theorem not_le : ¬ Le up x y ↔ Lt up y x := by
  cases up <;> simp [Lt, Le]

theorem Lt.trans_le (h₁ : Lt up x y) (h₂ : Le up y z) : Lt up x z := by
  cases up
  · exact lt_of_le_of_lt (α := α) h₂ h₁
  · exact lt_of_lt_of_le (α := α) h₁ h₂

theorem Le.trans_lt (h₁ : Le up x y) (h₂ : Lt up y z) : Lt up x z := by
  cases up
  · exact lt_of_lt_of_le (α := α) h₂ h₁
  · exact lt_of_le_of_lt (α := α) h₁ h₂

theorem Lt.ne (h : Lt up x y) : x ≠ y := by
  rintro rfl
  cases up <;> exact lt_irrefl (α := α) _ h

theorem le_sup_left : Le up x (sup up x y) := by
  cases up <;> simp [Le, sup]

theorem le_sup_right : Le up y (sup up x y) := by
  cases up <;> simp [Le, sup]

theorem sup_le (h₁ : Le up x z) (h₂ : Le up y z) : Le up (sup up x y) z := by
  cases up
  · exact le_min (α := α) h₁ h₂
  · exact max_le (α := α) h₁ h₂

theorem sup_eq_right (h : Le up x y) : sup up x y = y :=
  (sup_le h (Le.refl up y)).antisymm le_sup_right

theorem sup_eq_left (h : Le up y x) : sup up x y = x :=
  (sup_le (Le.refl up x) h).antisymm le_sup_left

theorem sup_mono {x' y' : α} (hx : Le up x x') (hy : Le up y y') :
    Le up (sup up x y) (sup up x' y') :=
  sup_le (hx.trans le_sup_left) (hy.trans le_sup_right)

/-- Taking a later value on board first and last comes to the same when the second operand only grows. -/
theorem sup_sup_of_le (h : Le up y z) : sup up (sup up x y) z = sup up x z :=
  Le.antisymm (sup_le (sup_le le_sup_left (h.trans le_sup_right)) le_sup_right)
    (sup_mono le_sup_left (Le.refl up z))

theorem sups_append (xs : List α) (y : α) : sups up x (xs ++ [y]) = sup up (sups up x xs) y := by
  simp [sups]

end Order

section Group

variable [AddCommGroup α] [LinearOrder α] [IsOrderedAddMonoid α] {up : Bool} {x y : α}

/-- `x` moved back by `d` against the side `up`. -/
def back (up : Bool) (x d : α) : α := if up then x - d else x + d

theorem back_mono (d : α) (h : Le up x y) : Le up (back up x d) (back up y d) := by
  cases up
  · exact add_le_add_left (α := α) h d
  · exact sub_le_sub_right (α := α) h d

end Group

end Oriented
