import CryptoAggHarmonic.Bench.Record
import Mathlib.Analysis.Real.Sqrt
import Mathlib.Data.List.GetD
import Mathlib.Tactic

/-!
# Confidence

`bench/scoring/confidence.py`: the Wilson interval of a win rate and the step-up procedure over p-values. The roots of
the interval are those of real arithmetic.
-/

namespace CryptoAggHarmonic.Bench

open Rounding

/-- The `ValueError`s, with the values their texts show. -/
inductive ConfidenceError
  | successes (successes n : ℤ)
  | alpha (alpha : ℚ)
  | notInTable (alpha : ℚ)
  | pvalue (p : ℚ)
  deriving DecidableEq, Repr

/-! ## The Wilson interval -/

def zTable : List (ℚ × ℚ) := [(0.10, 1.6449), (0.05, 1.96), (0.01, 2.5758), (0.001, 3.2905)]

def zForAlpha (alpha : ℚ) : Except ConfidenceError ℚ :=
  match zTable.lookup (roundTo 4 alpha) with
  | some z => .ok z
  | none => .error (.notInTable alpha)

noncomputable def wilsonCi (successes n : ℤ) (alpha : ℚ) : Except ConfidenceError (ℝ × ℝ) := do
  if n ≤ 0 then
    return (0, 1)
  if successes < 0 ∨ successes > n then
    throw (.successes successes n)
  if ¬(0 < alpha ∧ alpha < 1) then
    throw (.alpha alpha)
  let z : ℝ := (← zForAlpha alpha : ℚ)
  let pHat : ℝ := successes / n
  let denom : ℝ := 1 + z * z / n
  let center := (pHat + z * z / (2 * n : ℤ)) / denom
  let spread := z * √(pHat * (1 - pHat) / n + z * z / (4 * n * n : ℤ)) / denom
  return (max 0 (center - spread), min 1 (center + spread))

/-- `getattr(r, "outcome", None) in ("tp1", "tp2", "tp3")` -/
def isWin (outcome : Option Outcome) : Bool :=
  decide (outcome = some .tp1 ∨ outcome = some .tp2 ∨ outcome = some .tp3)

/-- The thresholds of `low_confidence`, with their defaults. -/
structure Thresholds where
  minN : ℤ := 30
  minLower : ℚ := 0.4
  maxUpper : ℚ := 0.6

open Classical in
/-- Whatever the records are, only their outcomes are read. -/
noncomputable def lowConfidence (records : List (Option Outcome)) (limits : Thresholds) : Except ConfidenceError Bool := do
  let n : ℤ := records.length
  if n < limits.minN then
    return true
  let wins : ℤ := records.countP isWin
  let (lower, upper) ← wilsonCi wins n 0.05
  if lower < (limits.minLower : ℝ) then
    return true
  if upper < (limits.maxUpper : ℝ) then
    return true
  return false

/-! ## The step-up procedure -/

/-- `sorted(range(n), key=lambda i: pvalues[i])` -/
def ascending (pvalues : List ℚ) : List ℕ :=
  (List.range pvalues.length).mergeSort fun i j => pvalues.getD i 0 ≤ pvalues.getD j 0

/-- One round of `for rank in range(n, 0, -1)`, on the running minimum and `raw_adjusted`. -/
def rankStep (n : ℕ) (sortedP : List ℚ) (state : ℚ × List ℚ) (rank : ℕ) : ℚ × List ℚ :=
  let idx := rank - 1
  let bhStep := sortedP.getD idx 0 * n / rank
  let runningMin := min state.1 bhStep
  (runningMin, state.2.set idx (min runningMin 1))

def rawAdjusted (n : ℕ) (sortedP : List ℚ) : List ℚ :=
  ((List.range' 1 n).reverse.foldl (rankStep n sortedP) (1, List.replicate n 0)).2

/-- `for rank, original_idx in enumerate(order): adjusted[original_idx] = raw_adjusted[rank]` -/
def toOriginal (raw : List ℚ) (order : List ℕ) : List ℚ :=
  order.zipIdx.foldl (fun adjusted item => adjusted.set item.1 (raw.getD item.2 0)) (List.replicate order.length 0)

def bhFdr (pvalues : List ℚ) (alpha : ℚ) : Except ConfidenceError (List ℚ × List Bool) :=
  let n := pvalues.length
  if n = 0 then .ok ([], [])
  else if ¬(0 < alpha ∧ alpha < 1) then .error (.alpha alpha)
  else
    match pvalues.find? fun p => decide (p < 0 ∨ p > 1) with
    | some p => .error (.pvalue p)
    | none =>
        let order := ascending pvalues
        let sortedP := order.map (pvalues.getD · 0)
        let adjusted := toOriginal (rawAdjusted n sortedP) order
        .ok (adjusted, adjusted.map fun p => decide (p ≤ alpha))

end CryptoAggHarmonic.Bench

/-!
# Lemmas on confidence

The adjusted p-values as one function of the sorted p-values, and the two bounds of the interval as the roots of its
equation.
-/

namespace CryptoAggHarmonic.Bench

open Rounding

/-! ## The step-up procedure -/

section

variable {pvalues sortedP raw blank : List ℚ} {order : List ℕ} {alpha x p q : ℚ} {n m i j : ℕ}

/-- The `k`-th smallest of the p-values, from one. -/
def orderStatistic (pvalues : List ℚ) (k : ℕ) : ℚ := (pvalues.mergeSort (· ≤ ·)).getD (k - 1) 0

/-- The steps from the rank `idx + 1` up reach down to `x`. -/
def Reaches (n : ℕ) (sortedP : List ℚ) (idx : ℕ) (x : ℚ) : Prop :=
  1 ≤ x ∨ ∃ j, idx ≤ j ∧ j < n ∧ sortedP.getD j 0 * n / (j + 1) ≤ x

/-- What the loop has written once the ranks above `m` are done. -/
structure Written (n : ℕ) (sortedP : List ℚ) (m : ℕ) (state : ℚ × List ℚ) : Prop where
  length : state.2.length = n
  running : ∀ x, state.1 ≤ x ↔ Reaches n sortedP m x
  raw : ∀ idx, m ≤ idx → idx < n → ∀ x, state.2.getD idx 0 ≤ x ↔ Reaches n sortedP idx x

theorem reaches_end : Reaches n sortedP n x ↔ 1 ≤ x := by
  constructor
  · rintro (h | ⟨j, hle, hlt, -⟩)
    · exact h
    · omega
  · exact Or.inl

theorem reaches_pred (hm : m < n) :
    Reaches n sortedP m x ↔ Reaches n sortedP (m + 1) x ∨ sortedP.getD m 0 * n / (m + 1) ≤ x := by
  constructor
  · rintro (h | ⟨j, hle, hlt, hj⟩)
    · exact Or.inl (Or.inl h)
    · obtain rfl | hlt' := Nat.eq_or_lt_of_le hle
      · exact Or.inr hj
      · exact Or.inl (Or.inr ⟨j, hlt', hlt, hj⟩)
  · rintro ((h | ⟨j, hle, hlt, hj⟩) | h)
    · exact Or.inl h
    · exact Or.inr ⟨j, by omega, hlt, hj⟩
    · exact Or.inr ⟨m, le_refl m, hm, h⟩

theorem Written.start : Written n sortedP n (1, List.replicate n 0) := by
  constructor
  · simp
  · intro x
    exact reaches_end.symm
  · intro idx hle hlt
    omega

theorem Written.step {state : ℚ × List ℚ} (hm : m < n) (h : Written n sortedP (m + 1) state) :
    Written n sortedP m (rankStep n sortedP state (m + 1)) := by
  have hrunning : ∀ x, min state.1 (sortedP.getD m 0 * n / (m + 1)) ≤ x ↔ Reaches n sortedP m x := by
    intro x
    rw [min_le_iff, h.running, reaches_pred hm]
  constructor
  · simp [rankStep, h.length]
  · intro x
    simpa [rankStep] using hrunning x
  · intro idx hle hlt x
    simp only [rankStep, Nat.add_sub_cancel]
    obtain rfl | hne := Nat.eq_or_lt_of_le hle
    · rw [List.getD_eq_getElem?_getD, List.getElem?_set_self (by rw [h.length]; exact hm), Option.getD_some, min_le_iff]
      push_cast
      rw [hrunning]
      constructor
      · rintro (h | h)
        · exact h
        · exact Or.inl h
      · exact Or.inl
    · rw [List.getD_eq_getElem?_getD, List.getElem?_set_ne (by omega), ← List.getD_eq_getElem?_getD]
      exact h.raw idx hne hlt x

theorem Written.foldl (hm : m ≤ n) {state : ℚ × List ℚ} (h : Written n sortedP m state) :
    Written n sortedP 0 ((List.range' 1 m).reverse.foldl (rankStep n sortedP) state) := by
  induction m generalizing state with
  | zero => exact h
  | succ m ih =>
      rw [List.range'_concat, List.reverse_append, List.reverse_singleton, List.singleton_append, List.foldl_cons,
        Nat.one_mul, Nat.add_comm 1 m]
      exact ih (by omega) (h.step (by omega))

theorem rawAdjusted_le_iff (hi : i < n) : (rawAdjusted n sortedP).getD i 0 ≤ x ↔ Reaches n sortedP i x :=
  (Written.start.foldl (le_refl n)).raw i (Nat.zero_le i) hi x

/-! What is put back at its original index. -/

theorem scatter_other (h : i ∉ order) :
    ((order.zipIdx m).foldl (fun adjusted item => adjusted.set item.1 (raw.getD item.2 0)) blank).getD i 0 =
      blank.getD i 0 := by
  induction order generalizing blank m with
  | nil => rfl
  | cons o order ih =>
      rw [List.mem_cons, not_or] at h
      rw [List.zipIdx_cons, List.foldl_cons, ih h.2, List.getD_eq_getElem?_getD,
        List.getElem?_set_ne (Ne.symm h.1), ← List.getD_eq_getElem?_getD]

theorem scatter_length :
    ((order.zipIdx m).foldl (fun adjusted item => adjusted.set item.1 (raw.getD item.2 0)) blank).length =
      blank.length := by
  induction order generalizing blank m with
  | nil => rfl
  | cons o order ih => rw [List.zipIdx_cons, List.foldl_cons, ih, List.length_set]

theorem scatter_get (hnodup : order.Nodup) (hlt : ∀ o ∈ order, o < blank.length) (hj : order[j]? = some i) :
    ((order.zipIdx m).foldl (fun adjusted item => adjusted.set item.1 (raw.getD item.2 0)) blank).getD i 0 =
      raw.getD (m + j) 0 := by
  induction order generalizing blank m j with
  | nil => cases hj
  | cons o order ih =>
      rw [List.nodup_cons] at hnodup
      rw [List.zipIdx_cons, List.foldl_cons]
      cases j with
      | zero =>
          cases hj
          rw [scatter_other hnodup.1, List.getD_eq_getElem?_getD,
            List.getElem?_set_self (hlt _ List.mem_cons_self), Option.getD_some, Nat.add_zero]
      | succ j =>
          rw [ih hnodup.2 (fun o ho => by rw [List.length_set]; exact hlt o (List.mem_cons_of_mem _ ho)) hj]
          congr 1
          omega

/-! The adjusted p-value, as a function of the p-value. -/

/-- The least step of a rank whose p-value is not below `p`. -/
def stepUp (pvalues : List ℚ) (p : ℚ) : ℚ :=
  (List.range pvalues.length).foldl
    (fun least j =>
      if p ≤ orderStatistic pvalues (j + 1) then
        min least (orderStatistic pvalues (j + 1) * pvalues.length / (j + 1))
      else least) 1

theorem foldl_least_le_iff {js : List ℕ} {c : ℕ → Prop} [DecidablePred c] {f : ℕ → ℚ} {a : ℚ} :
    js.foldl (fun least j => if c j then min least (f j) else least) a ≤ x ↔ a ≤ x ∨ ∃ j ∈ js, c j ∧ f j ≤ x := by
  induction js generalizing a with
  | nil => simp
  | cons j js ih =>
      rw [List.foldl_cons, ih]
      by_cases hc : c j
      · simp [hc, or_assoc]
      · simp [hc]

theorem stepUp_le_iff : stepUp pvalues p ≤ x ↔ 1 ≤ x ∨ ∃ j < pvalues.length, p ≤ orderStatistic pvalues (j + 1) ∧
    orderStatistic pvalues (j + 1) * pvalues.length / (j + 1) ≤ x := by
  rw [stepUp, foldl_least_le_iff]
  simp only [List.mem_range]

theorem stepUp_le_one : stepUp pvalues p ≤ 1 := stepUp_le_iff.mpr (Or.inl (le_refl 1))

theorem stepUp_mono (h : p ≤ q) : stepUp pvalues p ≤ stepUp pvalues q := by
  rw [stepUp_le_iff]
  obtain hone | ⟨j, hj, hq, hle⟩ := stepUp_le_iff.mp (le_refl (stepUp pvalues q))
  · exact Or.inl hone
  · exact Or.inr ⟨j, hj, h.trans hq, hle⟩

/-- A rejection has a rank whose p-value is under its share of `alpha`. -/
theorem rejected_iff (hn : (0 : ℚ) < pvalues.length) (ha : alpha < 1) :
    stepUp pvalues p ≤ alpha ↔ ∃ k, 1 ≤ k ∧ k ≤ pvalues.length ∧
      orderStatistic pvalues k ≤ k * alpha / pvalues.length ∧ p ≤ orderStatistic pvalues k := by
  have hshare : ∀ j : ℕ, ∀ s : ℚ, s * pvalues.length / (j + 1) ≤ alpha ↔ s ≤ (j + 1 : ℕ) * alpha / pvalues.length := by
    intro j s
    rw [div_le_iff₀ (by positivity), le_div_iff₀ hn]
    push_cast
    rw [mul_comm alpha]
  rw [stepUp_le_iff]
  constructor
  · rintro (h | ⟨j, hj, hp, hle⟩)
    · exact absurd h (not_le.mpr ha)
    · exact ⟨j + 1, by omega, by omega, (hshare j _).mp hle, hp⟩
  · rintro ⟨k, hk, hkn, hle, hp⟩
    obtain ⟨j, rfl⟩ : ∃ j, k = j + 1 := ⟨k - 1, by omega⟩
    exact Or.inr ⟨j, by omega, hp, (hshare j _).mpr hle⟩

theorem ascending_perm : (ascending pvalues).Perm (List.range pvalues.length) := List.mergeSort_perm _ _

theorem map_range_getD {β : Type*} (xs : List β) (b : β) : (List.range xs.length).map (xs.getD · b) = xs := by
  apply List.ext_getElem
  · simp
  · intro i h h'
    simp [List.getD_eq_getElem?_getD, h']

theorem pairwise_sorted {β : Type*} (key : β → ℚ) (xs : List β) :
    (xs.mergeSort fun a b => key a ≤ key b).Pairwise fun a b => key a ≤ key b := by
  have h := @List.pairwise_mergeSort β (fun a b => decide (key a ≤ key b)) (fun a b c => by simpa using le_trans)
    (fun a b => by simpa using le_total (key a) (key b)) xs
  simpa using h

theorem sorted_eq (pvalues : List ℚ) : (ascending pvalues).map (pvalues.getD · 0) = pvalues.mergeSort (· ≤ ·) := by
  have hperm : ((ascending pvalues).map (pvalues.getD · 0)).Perm (pvalues.mergeSort (· ≤ ·)) := by
    have hmap := (@ascending_perm pvalues).map (pvalues.getD · 0)
    rw [map_range_getD] at hmap
    exact hmap.trans (List.mergeSort_perm _ _).symm
  have hpairwise : ((ascending pvalues).map (pvalues.getD · 0)).Pairwise (· ≤ ·) := by
    rw [List.pairwise_map]
    exact pairwise_sorted (pvalues.getD · 0) _
  exact hperm.eq_of_pairwise (fun a b _ _ => le_antisymm) hpairwise (pairwise_sorted id pvalues)

/-- The `k`-th smallest is that of any reordering. -/
theorem orderStatistic_perm {reordered : List ℚ} (h : reordered.Perm pvalues) (k : ℕ) :
    orderStatistic reordered k = orderStatistic pvalues k := by
  have hsorted : reordered.mergeSort (· ≤ ·) = pvalues.mergeSort (· ≤ ·) :=
    List.Perm.eq_of_pairwise (fun a b _ _ => le_antisymm) (pairwise_sorted id _) (pairwise_sorted id _)
      ((List.mergeSort_perm _ _).trans (h.trans (List.mergeSort_perm _ _).symm))
  rw [orderStatistic, orderStatistic, hsorted]

theorem stepUp_perm {reordered : List ℚ} (h : reordered.Perm pvalues) : stepUp reordered p = stepUp pvalues p := by
  simp only [stepUp, orderStatistic_perm h, h.length_eq]

theorem orderStatistic_mem (hj : j < pvalues.length) : orderStatistic pvalues (j + 1) ∈ pvalues := by
  have hlt : j < (pvalues.mergeSort (· ≤ ·)).length := by rwa [List.length_mergeSort]
  rw [orderStatistic, Nat.add_sub_cancel, List.getD_eq_getElem _ _ hlt]
  exact List.mem_mergeSort.mp (List.getElem_mem hlt)

theorem orderStatistic_mono (hij : i ≤ j) (hj : j < pvalues.length) :
    orderStatistic pvalues (i + 1) ≤ orderStatistic pvalues (j + 1) := by
  have hlt : j < (pvalues.mergeSort (· ≤ ·)).length := by rwa [List.length_mergeSort]
  rw [orderStatistic, orderStatistic, Nat.add_sub_cancel, Nat.add_sub_cancel, List.getD_eq_getElem _ _ hlt,
    List.getD_eq_getElem _ _ (by omega)]
  obtain rfl | hlt' := Nat.eq_or_lt_of_le hij
  · exact le_refl _
  · exact List.pairwise_iff_getElem.mp (pairwise_sorted id pvalues) i j _ hlt hlt'

theorem le_stepUp (hp : ∀ p ∈ pvalues, 0 ≤ p ∧ p ≤ 1) (hmem : p ∈ pvalues) : p ≤ stepUp pvalues p := by
  obtain hone | ⟨j, hj, hle, hstep⟩ := stepUp_le_iff.mp (le_refl (stepUp pvalues p))
  · exact (hp p hmem).2.trans hone
  · refine (hle.trans ?_).trans hstep
    rw [le_div_iff₀ (by positivity)]
    have hrank : ((j : ℚ) + 1) ≤ pvalues.length := by exact_mod_cast hj
    exact mul_le_mul_of_nonneg_left hrank (hp _ (orderStatistic_mem hj)).1

/-- The running minimum at the rank of `p` sees a rank above for each rank below it that ties. -/
theorem reaches_iff (hp : ∀ p ∈ pvalues, 0 ≤ p) (hi : i < pvalues.length) :
    Reaches pvalues.length (pvalues.mergeSort (· ≤ ·)) i x ↔ stepUp pvalues (orderStatistic pvalues (i + 1)) ≤ x := by
  have hget : ∀ j, (pvalues.mergeSort (· ≤ ·)).getD j 0 = orderStatistic pvalues (j + 1) := fun j => rfl
  rw [stepUp_le_iff, Reaches]
  simp only [hget]
  constructor
  · rintro (h | ⟨j, hij, hj, hle⟩)
    · exact Or.inl h
    · exact Or.inr ⟨j, hj, orderStatistic_mono hij hj, hle⟩
  · rintro (h | ⟨j, hj, hp', hle⟩)
    · exact Or.inl h
    · refine Or.inr ?_
      rcases Nat.le_total i j with hij | hji
      · exact ⟨j, hij, hj, hle⟩
      · refine ⟨i, le_refl i, hi, le_trans ?_ hle⟩
        have heq := le_antisymm (orderStatistic_mono hji hi) hp'
        rw [← heq]
        have hnonneg := hp _ (orderStatistic_mem hj)
        gcongr

theorem adjusted_getD (hp : ∀ p ∈ pvalues, 0 ≤ p) (hi : i < pvalues.length) :
    (toOriginal (rawAdjusted pvalues.length ((ascending pvalues).map (pvalues.getD · 0))) (ascending pvalues)).getD i 0 =
      stepUp pvalues (pvalues.getD i 0) := by
  have hmem : i ∈ ascending pvalues := ascending_perm.mem_iff.mpr (List.mem_range.mpr hi)
  obtain ⟨j, hj⟩ := List.mem_iff_getElem?.mp hmem
  have hlength : (ascending pvalues).length = pvalues.length := by simpa using (@ascending_perm pvalues).length_eq
  have hlt : j < pvalues.length := by
    rw [← hlength]
    exact (List.getElem?_eq_some_iff.mp hj).1
  have hrank : pvalues.getD i 0 = orderStatistic pvalues (j + 1) := by
    rw [orderStatistic, ← sorted_eq, Nat.add_sub_cancel, List.getD_eq_getElem?_getD (l := (ascending pvalues).map _),
      List.getElem?_map, hj]
    rfl
  rw [toOriginal, scatter_get (ascending_perm.nodup_iff.mpr List.nodup_range) _ hj, Nat.zero_add, hrank]
  · refine eq_of_forall_ge_iff fun x => ?_
    rw [rawAdjusted_le_iff hlt, sorted_eq, reaches_iff hp hlt]
  · intro o ho
    rw [List.length_replicate, hlength]
    exact List.mem_range.mp (ascending_perm.mem_iff.mp ho)

/-- **The loop computes the step-up function**, at each p-value. -/
theorem bhFdr_eq (hp : ∀ p ∈ pvalues, 0 ≤ p ∧ p ≤ 1) (ha : 0 < alpha ∧ alpha < 1) :
    bhFdr pvalues alpha =
      .ok (pvalues.map (stepUp pvalues), pvalues.map fun p => decide (stepUp pvalues p ≤ alpha)) := by
  have hfind : pvalues.find? (fun p => decide (p < 0 ∨ p > 1)) = none := by
    rw [List.find?_eq_none]
    intro p hmem
    have := hp p hmem
    simp only [decide_eq_true_eq, not_or, not_lt]
    exact this
  have hadjusted : toOriginal (rawAdjusted pvalues.length ((ascending pvalues).map (pvalues.getD · 0)))
      (ascending pvalues) = pvalues.map (stepUp pvalues) := by
    have hlength : (toOriginal (rawAdjusted pvalues.length ((ascending pvalues).map (pvalues.getD · 0)))
        (ascending pvalues)).length = pvalues.length := by
      rw [toOriginal, scatter_length, List.length_replicate]
      simpa using (@ascending_perm pvalues).length_eq
    apply List.ext_getElem
    · rw [hlength, List.length_map]
    · intro i h h'
      have hi : i < pvalues.length := hlength ▸ h
      have hvalue := adjusted_getD (fun p hmem => (hp p hmem).1) hi
      rw [List.getD_eq_getElem _ _ h, List.getD_eq_getElem _ _ hi] at hvalue
      rw [hvalue, List.getElem_map]
  by_cases hempty : pvalues.length = 0
  · obtain rfl := List.eq_nil_of_length_eq_zero hempty
    rfl
  · simp only [bhFdr, hempty, if_false, ha, not_true_eq_false, hfind, hadjusted, and_self, List.map_map]
    rfl

end

/-! ## The Wilson interval -/

section

variable {c p q : ℝ} {z alpha : ℚ} {s t n : ℤ}

/-- The discriminant of `(x - p) ^ 2 = c * (x * (1 - x))`, less a factor of four. -/
def disc (c p : ℝ) : ℝ := (4 : ℕ) * c * (p * (1 - p)) + c ^ 2

noncomputable def lowerRoot (c p : ℝ) : ℝ := ((2 : ℕ) * p + c - √(disc c p)) / ((2 : ℕ) * (1 + c))

noncomputable def upperRoot (c p : ℝ) : ℝ := ((2 : ℕ) * p + c + √(disc c p)) / ((2 : ℕ) * (1 + c))

theorem disc_eq (c p : ℝ) : disc c p = 4 * c * (p * (1 - p)) + c ^ 2 := by simp [disc]

theorem lowerRoot_def (c p : ℝ) : lowerRoot c p = (2 * p + c - √(disc c p)) / (2 * (1 + c)) := by simp [lowerRoot]

theorem upperRoot_def (c p : ℝ) : upperRoot c p = (2 * p + c + √(disc c p)) / (2 * (1 + c)) := by simp [upperRoot]

theorem disc_mirror (c p : ℝ) : disc c (1 - p) = disc c p := by
  rw [disc_eq, disc_eq]
  ring

theorem le_sqrt_disc (hc : 0 ≤ c) (hp : 0 ≤ p) (hp' : p ≤ 1) : c ≤ √(disc c p) := by
  apply Real.le_sqrt_of_sq_le
  have hprod : 0 ≤ p * (1 - p) := mul_nonneg hp (by linarith)
  have : 0 ≤ 4 * c * (p * (1 - p)) := by positivity
  rw [disc_eq]
  linarith

/-- The root moves by less than twice the share does. -/
theorem sqrt_disc_le (hc : 0 ≤ c) (hp : 0 ≤ p) (hpq : p ≤ q) (hq : q ≤ 1) : √(disc c q) ≤ √(disc c p) + 2 * (q - p) := by
  have hroot := le_sqrt_disc hc hp (hpq.trans hq)
  have hnonneg : 0 ≤ disc c p := by
    have hprod : 0 ≤ p * (1 - p) := mul_nonneg hp (by linarith)
    rw [disc_eq]
    positivity
  have hsq := Real.sq_sqrt hnonneg
  apply Real.sqrt_le_iff.mpr
  constructor
  · have : 0 ≤ √(disc c p) := Real.sqrt_nonneg _
    linarith
  · have hslope : c * (1 - p - q) ≤ √(disc c p) := by nlinarith
    have hstep : 0 ≤ (q - p) * (√(disc c p) - c * (1 - p - q)) := mul_nonneg (by linarith) (by linarith)
    have hdiff : disc c q - disc c p = 4 * (c * (q - p) * (1 - p - q)) := by
      rw [disc_eq, disc_eq]
      ring
    nlinarith [sq_nonneg (q - p)]

theorem upperRoot_eq (hc : 0 ≤ c) : upperRoot c p = 1 - lowerRoot c (1 - p) := by
  have : 2 * (1 + c) ≠ 0 := by positivity
  rw [upperRoot_def, lowerRoot_def, disc_mirror]
  field_simp
  ring

theorem lowerRoot_nonneg (hc : 0 ≤ c) (hp : 0 ≤ p) : 0 ≤ lowerRoot c p := by
  have hroot : √(disc c p) ≤ 2 * p + c := by
    apply Real.sqrt_le_iff.mpr
    constructor
    · positivity
    · rw [disc_eq]
      nlinarith [mul_nonneg hc (sq_nonneg p), sq_nonneg p]
  rw [lowerRoot_def]
  apply div_nonneg
  · linarith
  · positivity

theorem lowerRoot_le (hc : 0 ≤ c) (hp : 0 ≤ p) (hp' : p ≤ 1) : lowerRoot c p ≤ p := by
  have hroot := le_sqrt_disc hc hp hp'
  rw [lowerRoot_def, div_le_iff₀ (by positivity)]
  nlinarith [mul_nonneg hc hp]

theorem lowerRoot_mono (hc : 0 ≤ c) (hp : 0 ≤ p) (hpq : p ≤ q) (hq : q ≤ 1) : lowerRoot c p ≤ lowerRoot c q := by
  have hroot := sqrt_disc_le hc hp hpq hq
  rw [lowerRoot_def, lowerRoot_def]
  gcongr ?_ / _
  linarith

theorem le_upperRoot (hc : 0 ≤ c) (hp : 0 ≤ p) (hp' : p ≤ 1) : p ≤ upperRoot c p := by
  have h := lowerRoot_le hc (sub_nonneg.mpr hp') (by linarith : 1 - p ≤ 1)
  rw [upperRoot_eq hc]
  linarith

theorem upperRoot_le_one (hc : 0 ≤ c) (hp' : p ≤ 1) : upperRoot c p ≤ 1 := by
  have h := lowerRoot_nonneg hc (sub_nonneg.mpr hp')
  rw [upperRoot_eq hc]
  linarith

theorem upperRoot_mono (hc : 0 ≤ c) (hp : 0 ≤ p) (hpq : p ≤ q) (hq : q ≤ 1) : upperRoot c p ≤ upperRoot c q := by
  have h := lowerRoot_mono hc (sub_nonneg.mpr hq) (by linarith : 1 - q ≤ 1 - p) (by linarith)
  rw [upperRoot_eq hc, upperRoot_eq hc]
  linarith

/-- The table holds levels inside `(0, 1)` only, and rounding does not leave them. -/
theorem zForAlpha_ok (h : zForAlpha alpha = .ok z) : 0 < z ∧ 0 < alpha ∧ alpha < 1 := by
  obtain ⟨hlow, hhigh⟩ := roundTo_sub_le (x := alpha) (d := 4)
  unfold zForAlpha at h
  split at h
  · rename_i w hlookup
    cases h
    obtain ⟨before, after, htable, -⟩ := List.lookup_eq_some_iff.mp hlookup
    have hmem : (roundTo 4 alpha, z) ∈ zTable := by simp [htable]
    simp only [zTable, List.mem_cons, Prod.mk.injEq, List.not_mem_nil, or_false] at hmem
    rcases hmem with ⟨hround, rfl⟩ | ⟨hround, rfl⟩ | ⟨hround, rfl⟩ | ⟨hround, rfl⟩ <;>
      (rw [hround] at hlow hhigh; norm_num at hlow hhigh ⊢; constructor <;> linarith)
  · cases h

/-- The width of the equation: the squared quantile over the count. -/
noncomputable def width (z : ℚ) (n : ℤ) : ℝ := (z : ℝ) ^ 2 / n

theorem width_nonneg (hn : 0 < n) : 0 ≤ width z n := by
  have hn' : (0 : ℝ) < n := by exact_mod_cast hn
  unfold width
  positivity

theorem share_nonneg (hn : 0 < n) (hs : 0 ≤ s) : (0 : ℝ) ≤ s / n :=
  div_nonneg (by exact_mod_cast hs) (by exact_mod_cast hn.le)

theorem share_le (hn : 0 < n) (hst : s ≤ t) : (s / n : ℝ) ≤ t / n :=
  div_le_div_of_nonneg_right (by exact_mod_cast hst) (by exact_mod_cast hn.le)

theorem share_le_one (hn : 0 < n) (hsn : s ≤ n) : (s / n : ℝ) ≤ 1 :=
  (div_le_one (by exact_mod_cast hn)).mpr (by exact_mod_cast hsn)

theorem share_mirror (hn : 0 < n) : ((n - s : ℤ) / n : ℝ) = 1 - s / n := by
  have hn' : (n : ℝ) ≠ 0 := by exact_mod_cast hn.ne'
  push_cast
  field_simp

theorem wilsonCi_eq (hn : 0 < n) (hs : 0 ≤ s) (hsn : s ≤ n) (hz : zForAlpha alpha = .ok z) :
    wilsonCi s n alpha = .ok (lowerRoot (width z n) (s / n), upperRoot (width z n) (s / n)) := by
  obtain ⟨hz0, ha⟩ := zForAlpha_ok hz
  have hn' : (0 : ℝ) < n := by exact_mod_cast hn
  have hz' : (0 : ℝ) < z := by exact_mod_cast hz0
  have hwidth : 0 ≤ width z n := width_nonneg hn
  have hp : (0 : ℝ) ≤ s / n := share_nonneg hn hs
  have hp' : (s / n : ℝ) ≤ 1 := share_le_one hn hsn
  have hroot : (z : ℝ) * √((s / n : ℝ) * (1 - s / n) / n + z * z / (4 * n * n)) = √(disc (width z n) (s / n)) / 2 := by
    rw [eq_div_iff two_ne_zero, mul_right_comm]
    have hinner : (z * 2 : ℝ) ^ 2 * ((s / n : ℝ) * (1 - s / n) / n + z * z / (4 * n * n)) = disc (width z n) (s / n) := by
      rw [disc_eq]
      unfold width
      field_simp
      ring
    rw [← hinner, Real.sqrt_mul (sq_nonneg _), Real.sqrt_sq (by positivity)]
  have hlower : ((s / n : ℝ) + z * z / (2 * n)) / (1 + z * z / n) - √(disc (width z n) (s / n)) / 2 / (1 + z * z / n) =
      lowerRoot (width z n) (s / n) := by
    rw [lowerRoot_def]
    generalize √(disc (width z n) (s / n)) = root
    unfold width
    field_simp
  have hupper : ((s / n : ℝ) + z * z / (2 * n)) / (1 + z * z / n) + √(disc (width z n) (s / n)) / 2 / (1 + z * z / n) =
      upperRoot (width z n) (s / n) := by
    rw [upperRoot_def]
    generalize √(disc (width z n) (s / n)) = root
    unfold width
    field_simp
  have hnone : ¬(s < 0 ∨ s > n) := by omega
  have hnotnone : ¬n ≤ 0 := by omega
  simp only [wilsonCi, hnotnone, if_false, hnone, ha, and_self, not_true_eq_false, hz]
  change Except.ok (max 0 _, min 1 _) = _
  have hmax : max 0 (lowerRoot (width z n) (s / n)) = lowerRoot (width z n) (s / n) :=
    max_eq_right (lowerRoot_nonneg hwidth hp)
  have hmin : min 1 (upperRoot (width z n) (s / n)) = upperRoot (width z n) (s / n) :=
    min_eq_right (upperRoot_le_one hwidth hp')
  have hdouble : ((2 * n : ℤ) : ℝ) = 2 * n := by push_cast; rfl
  have hquad : ((4 * n * n : ℤ) : ℝ) = 4 * n * n := by push_cast; rfl
  rw [hdouble, hquad, hroot, hlower, hupper, hmax, hmin]

theorem zForAlpha_default : zForAlpha 0.05 = .ok 1.96 := by decide +kernel

/-- A non-empty list of records passes where it is long enough and neither bound is under its threshold. -/
theorem lowConfidence_false_iff {records : List (Option Outcome)} (hne : records ≠ []) (limits : Thresholds) :
    lowConfidence records limits = .ok false ↔
      limits.minN ≤ records.length ∧
        (limits.minLower : ℝ) ≤ lowerRoot (width 1.96 records.length) (records.countP isWin / records.length) ∧
        (limits.maxUpper : ℝ) ≤ upperRoot (width 1.96 records.length) (records.countP isWin / records.length) := by
  have hlength : (0 : ℤ) < records.length := by exact_mod_cast List.length_pos_iff.mpr hne
  have hwins : (records.countP isWin : ℤ) ≤ records.length := by exact_mod_cast List.countP_le_length
  have hci := wilsonCi_eq hlength (Int.natCast_nonneg _) hwins zForAlpha_default
  simp only [lowConfidence, hci]
  rw [← not_lt, ← not_lt, ← not_lt]
  split_ifs with hshort
  · simp [hshort, pure, Except.pure]
  · change (if _ < _ then _ else if _ < _ then _ else _) = _ ↔ _
    simp only [Int.cast_natCast]
    split_ifs with hlower hupper
    · simp [hlower, pure, Except.pure]
    · simp [hupper, pure, Except.pure]
    · simp [hshort, hlower, hupper, pure, Except.pure]

end

end CryptoAggHarmonic.Bench
