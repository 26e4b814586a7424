import Mathlib.Algebra.Order.Floor.Ring
import Mathlib.Algebra.Order.Field.Basic
import Mathlib.Data.Rat.Floor
import Mathlib.Tactic.Linarith
import Mathlib.Tactic.FieldSimp
import Mathlib.Tactic.Positivity

/-!
# Rounding to the nearest, ties to even

`halfEven x` is the integer nearest to `x`, the even one on a tie, and `roundTo d x` the nearest decimal with
`d` digits. The two threshold lemmas say which numbers round to at least a given integer: the tie below `k`
belongs to `k` exactly when `k` is even.
-/

namespace Rounding

section HalfEven

variable {α : Type*} [Field α] [LinearOrder α] [FloorRing α] {x y : α} {k : ℤ}

/-- The integer nearest to `x`, the even one on a tie. -/
def halfEven (x : α) : ℤ :=
  if Int.fract x < 1 / 2 then ⌊x⌋
  else if 1 / 2 < Int.fract x then ⌊x⌋ + 1
  else if Even ⌊x⌋ then ⌊x⌋ else ⌊x⌋ + 1

theorem floor_le_halfEven : ⌊x⌋ ≤ halfEven x := by
  unfold halfEven
  split_ifs <;> omega

theorem halfEven_le_floor_add_one : halfEven x ≤ ⌊x⌋ + 1 := by
  unfold halfEven
  split_ifs <;> omega

/-- The integer above the floor is reached from the middle on, the middle itself counting only when that
integer is even. -/
theorem floor_add_one_le_halfEven : ⌊x⌋ + 1 ≤ halfEven x ↔
    1 / 2 < Int.fract x ∨ Int.fract x = 1 / 2 ∧ Even (⌊x⌋ + 1) := by
  unfold halfEven
  split_ifs with h1 h2 h3
  · refine ⟨fun h => by omega, fun h => ?_⟩
    rcases h with h | ⟨h, _⟩
    · exact absurd h1 h.not_gt
    · exact absurd h1 h.not_lt
  · exact ⟨fun _ => Or.inl h2, fun _ => le_refl _⟩
  · refine ⟨fun h => by omega, fun h => ?_⟩
    rcases h with h | ⟨_, he⟩
    · exact absurd h h2
    · rw [Int.even_add_one] at he
      exact absurd h3 he
  · exact ⟨fun _ => Or.inr ⟨le_antisymm (not_lt.mp h2) (not_lt.mp h1), Int.even_add_one.mpr h3⟩,
      fun _ => le_refl _⟩

variable [IsStrictOrderedRing α]

theorem halfEven_intCast (k : ℤ) : halfEven (k : α) = k := by
  simp [halfEven]

/-- What rounds to `k` or more, in terms of the fractional part. -/
theorem le_halfEven_iff : k ≤ halfEven x ↔ (k : α) - 1 / 2 < x ∨ x = k - 1 / 2 ∧ Even k := by
  have hx := Int.floor_add_fract x
  have h0 := Int.fract_nonneg x
  have h1 := Int.fract_lt_one x
  rcases lt_trichotomy k (⌊x⌋ + 1) with h | rfl | h
  · have hk : (k : α) ≤ ⌊x⌋ := by exact_mod_cast Int.lt_add_one_iff.mp h
    exact ⟨fun _ => Or.inl (by linarith), fun _ => (Int.lt_add_one_iff.mp h).trans floor_le_halfEven⟩
  · rw [floor_add_one_le_halfEven]
    push_cast
    refine or_congr ?_ (and_congr_left' ?_)
    · constructor <;> intro h <;> linarith
    · constructor <;> intro h <;> linarith
  · have hk : (⌊x⌋ : α) + 2 ≤ k := by exact_mod_cast (by omega : ⌊x⌋ + 2 ≤ k)
    refine ⟨fun h' => absurd (h'.trans halfEven_le_floor_add_one) (by omega), fun h' => ?_⟩
    rcases h' with h' | ⟨h', _⟩ <;> linarith

theorem le_halfEven_of_even (hk : Even k) : k ≤ halfEven x ↔ (k : α) - 1 / 2 ≤ x := by
  rw [le_halfEven_iff, le_iff_lt_or_eq, eq_comm (a := x)]
  simp [hk]

theorem le_halfEven_of_odd (hk : Odd k) : k ≤ halfEven x ↔ (k : α) - 1 / 2 < x := by
  rw [le_halfEven_iff]
  simp [Int.not_even_iff_odd.mpr hk]

theorem halfEven_mono (h : x ≤ y) : halfEven x ≤ halfEven y := by
  rcases Int.even_or_odd (halfEven x) with he | ho
  · exact (le_halfEven_of_even he).mpr (((le_halfEven_of_even he).mp (le_refl _)).trans h)
  · exact (le_halfEven_of_odd ho).mpr (((le_halfEven_of_odd ho).mp (le_refl _)).trans_le h)

/-- The integer is at most a half away. -/
theorem halfEven_sub_le : (halfEven x : α) - 1 / 2 ≤ x := by
  rcases le_halfEven_iff.mp (le_refl (halfEven x)) with h | ⟨h, -⟩
  · exact h.le
  · exact h.ge

theorem le_halfEven_add : x ≤ halfEven x + 1 / 2 := by
  by_contra habove
  have hnext : halfEven x + 1 ≤ halfEven x :=
    le_halfEven_iff.mpr (Or.inl (by push_cast; linarith [not_le.mp habove]))
  omega

/-- An even integer takes both ties. -/
theorem halfEven_eq_iff_of_even (hk : Even k) : halfEven x = k ↔ (k : α) - 1 / 2 ≤ x ∧ x ≤ k + 1 / 2 := by
  have habove : k + 1 ≤ halfEven x ↔ (k : α) + 1 / 2 < x := by
    rw [le_halfEven_of_odd hk.add_one]
    push_cast
    constructor <;> intro h <;> linarith
  rw [← not_lt (b := x), ← habove, ← le_halfEven_of_even hk]
  omega

/-- A positive number and its third or less round to the same only where both round to nothing. -/
theorem halfEven_div_eq_iff {c : α} (hx : 0 < x) (hc : 3 < c) : halfEven (x / c) = halfEven x ↔ x ≤ 1 / 2 := by
  have hc₀ : 0 < c := lt_trans (by norm_num) hc
  constructor
  · intro heq
    by_contra hlarge
    have hone : 1 ≤ halfEven x := (le_halfEven_of_odd odd_one).mpr (by push_cast; linarith [not_le.mp hlarge])
    have hhigh : x ≤ halfEven x + 1 / 2 := le_halfEven_add
    have hlow : (halfEven x : α) - 1 / 2 ≤ x / c := heq ▸ halfEven_sub_le
    rw [le_div_iff₀ hc₀] at hlow
    have hcast : (1 : α) ≤ halfEven x := by exact_mod_cast hone
    nlinarith
  · intro hsmall
    have hzero : ∀ y : α, 0 < y → y ≤ 1 / 2 → halfEven y = 0 := by
      intro y hy hyle
      have hnonneg : 0 ≤ halfEven y := (le_halfEven_of_even Even.zero).mpr (by push_cast; linarith)
      have hbelow : ¬ 1 ≤ halfEven y := by
        rw [le_halfEven_of_odd odd_one]
        push_cast
        linarith
      omega
    have hdiv : x / c ≤ x := div_le_self hx.le (by linarith)
    rw [hzero x hx hsmall, hzero (x / c) (div_pos hx hc₀) (hdiv.trans hsmall)]

end HalfEven

section RoundTo

variable {x y : ℚ} {d : ℕ}

def roundTo (d : ℕ) (x : ℚ) : ℚ := halfEven (x * 10 ^ d) / 10 ^ d

theorem roundTo_mono (h : x ≤ y) : roundTo d x ≤ roundTo d y := by
  unfold roundTo
  have hm : halfEven (x * 10 ^ d) ≤ halfEven (y * 10 ^ d) := halfEven_mono (by gcongr)
  gcongr

theorem roundTo_roundTo : roundTo d (roundTo d x) = roundTo d x := by
  have h10 : (10 : ℚ) ^ d ≠ 0 := by positivity
  conv_lhs => unfold roundTo
  rw [roundTo, div_mul_cancel₀ _ h10, halfEven_intCast]

theorem roundTo_intCast (d : ℕ) (k : ℤ) : roundTo d (k : ℚ) = k := by
  have h10 : (10 : ℚ) ^ d ≠ 0 := by positivity
  have hint : (k : ℚ) * 10 ^ d = ((k * 10 ^ d : ℤ) : ℚ) := by push_cast; rfl
  rw [roundTo, hint, halfEven_intCast, ← hint, mul_div_cancel_right₀ _ h10]

theorem roundTo_le_intCast {n : ℤ} (h : x ≤ n) : roundTo d x ≤ n := by
  simpa only [roundTo_intCast] using roundTo_mono (d := d) h

theorem intCast_le_roundTo {m : ℤ} (h : (m : ℚ) ≤ x) : (m : ℚ) ≤ roundTo d x := by
  simpa only [roundTo_intCast] using roundTo_mono (d := d) h

/-- Rounding stays between integers. -/
theorem roundTo_mem_Icc {m n : ℤ} (h : x ∈ Set.Icc (m : ℚ) n) : roundTo d x ∈ Set.Icc (m : ℚ) n :=
  ⟨intCast_le_roundTo h.1, roundTo_le_intCast h.2⟩

/-- A decimal with an even last digit is reached from half a unit below it on. -/
theorem le_roundTo_of_even {k : ℤ} (hk : Even k) :
    (k : ℚ) / 10 ^ d ≤ roundTo d x ↔ ((k : ℚ) - 1 / 2) / 10 ^ d ≤ x := by
  have h10 : (0 : ℚ) < 10 ^ d := by positivity
  rw [roundTo, div_le_div_iff_of_pos_right h10, Int.cast_le, le_halfEven_of_even hk, div_le_iff₀ h10]

theorem roundTo_pos : 0 < roundTo d x ↔ 1 / 2 / 10 ^ d < x := by
  have h10 : (0 : ℚ) < 10 ^ d := by positivity
  rw [roundTo, div_pos_iff_of_pos_right h10, Int.cast_pos, ← Int.add_one_le_iff, zero_add,
    le_halfEven_of_odd odd_one, div_lt_iff₀ h10]
  norm_num

theorem roundTo_le_of_le_roundTo (h : x ≤ roundTo d y) : roundTo d x ≤ roundTo d y := by
  simpa [roundTo_roundTo] using roundTo_mono (d := d) h

theorem le_roundTo_of_roundTo_le (h : roundTo d x ≤ y) : roundTo d x ≤ roundTo d y := by
  simpa [roundTo_roundTo] using roundTo_mono (d := d) h

/-- Rounding moves a number by at most half a unit in the last digit. -/
theorem roundTo_sub_le : roundTo d x - x ≤ 1 / 2 / 10 ^ d ∧ x - roundTo d x ≤ 1 / 2 / 10 ^ d := by
  have h10 : (0 : ℚ) < 10 ^ d := by positivity
  have hr : roundTo d x * 10 ^ d = halfEven (x * 10 ^ d) := div_mul_cancel₀ _ h10.ne'
  have hlo : (halfEven (x * 10 ^ d) : ℚ) - 1 / 2 ≤ x * 10 ^ d := halfEven_sub_le
  have hhi : x * 10 ^ d ≤ halfEven (x * 10 ^ d) + 1 / 2 := le_halfEven_add
  rw [le_div_iff₀ h10, le_div_iff₀ h10, sub_mul, sub_mul, hr]
  constructor <;> linarith

theorem roundTo_lt_roundTo (h : x + 1 / 10 ^ d < y) : roundTo d x < roundTo d y := by
  have hx := (roundTo_sub_le (d := d) (x := x)).1
  have hy := (roundTo_sub_le (d := d) (x := y)).2
  have hhalf : (1 : ℚ) / 2 / 10 ^ d + 1 / 2 / 10 ^ d = 1 / 10 ^ d := by rw [← add_div]; norm_num
  linarith

theorem roundTo_div_eq_iff {c : ℚ} (hx : 0 < x) (hc : 3 < c) :
    roundTo d (x / c) = roundTo d x ↔ x ≤ 1 / 2 / 10 ^ d := by
  have h10 : (0 : ℚ) < 10 ^ d := by positivity
  rw [roundTo, roundTo, div_left_inj' h10.ne', Int.cast_inj, div_mul_eq_mul_div,
    halfEven_div_eq_iff (mul_pos hx h10) hc, le_div_iff₀ h10]

end RoundTo

end Rounding
