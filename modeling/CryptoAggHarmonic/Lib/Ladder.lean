import Mathlib.Algebra.Order.BigOperators.Group.List
import Mathlib.Algebra.Order.Group.MinMax
import Mathlib.Data.List.Basic
import Mathlib.Data.Nat.Notation
import Mathlib.Tactic.Abel

/-!
# Ladders

Rungs with increasing numbers. A value is put on the first rung that takes it, or on the last one that it reaches; a
bound on the number of that rung says of every rung whether the value passes it.
-/

namespace Ladder

variable {α : Type*} {num : α → ℕ} {p : α → Prop} [DecidablePred p] {start : α} {rungs : List α} {top i m n : ℕ}

/-- The number of the first rung that takes a value, `top` when there is none. -/
def first (num : α → ℕ) (p : α → Prop) [DecidablePred p] (top : ℕ) (rungs : List α) : ℕ :=
  ((rungs.find? fun a => p a).map num).getD top

/-- The last rung that a value reaches, `start` when there is none. -/
def last (p : α → Prop) [DecidablePred p] (start : α) (rungs : List α) : α :=
  rungs.foldl (fun chosen a => if p a then a else chosen) start

theorem first_le_iff (hnum : rungs.Pairwise fun a b => num a < num b) (hi : i < top) :
    first num p top rungs ≤ i ↔ ∃ a ∈ rungs, num a ≤ i ∧ p a := by
  induction rungs with
  | nil => simp [first, hi]
  | cons a rungs ih =>
      rw [List.pairwise_cons] at hnum
      by_cases ha : p a
      · have hfirst : first num p top (a :: rungs) = num a := by simp [first, ha]
        rw [hfirst]
        constructor
        · exact fun hle => ⟨a, List.mem_cons_self, hle, ha⟩
        · rintro ⟨b, hb, hle, -⟩
          rcases List.mem_cons.mp hb with rfl | hb
          · exact hle
          · exact Nat.le_trans (Nat.le_of_lt (hnum.1 b hb)) hle
      · have hfirst : first num p top (a :: rungs) = first num p top rungs := by simp [first, ha]
        rw [hfirst, ih hnum.2]
        constructor
        · rintro ⟨b, hb, hle, hp⟩
          exact ⟨b, List.mem_cons_of_mem _ hb, hle, hp⟩
        · rintro ⟨b, hb, hle, hp⟩
          rcases List.mem_cons.mp hb with rfl | hb
          · exact absurd hp ha
          · exact ⟨b, hb, hle, hp⟩

theorem first_le_top (h : ∀ a ∈ rungs, num a ≤ top) : first num p top rungs ≤ top := by
  unfold first
  cases hfound : rungs.find? fun a => p a with
  | none => exact Nat.le_refl top
  | some a => exact h a (List.mem_of_find?_eq_some hfound)

theorem last_le_iff (hnum : rungs.Pairwise fun a b => num a < num b) (hstart : ∀ a ∈ rungs, num start ≤ num a) :
    num (last p start rungs) ≤ i ↔ num start ≤ i ∧ ∀ a ∈ rungs, i < num a → ¬ p a := by
  induction rungs generalizing start with
  | nil => simp [last]
  | cons a rungs ih =>
      rw [List.pairwise_cons] at hnum
      have hle := hstart a List.mem_cons_self
      have hcons : last p start (a :: rungs) = last p (if p a then a else start) rungs := rfl
      rw [hcons, List.forall_mem_cons]
      by_cases ha : p a
      · rw [if_pos ha, ih hnum.2 fun b hb => Nat.le_of_lt (hnum.1 b hb)]
        constructor
        · rintro ⟨hai, hrest⟩
          exact ⟨Nat.le_trans hle hai, fun hlt => absurd hlt (Nat.not_lt.mpr hai), hrest⟩
        · rintro ⟨-, hlow, hrest⟩
          exact ⟨Nat.not_lt.mp fun hlt => hlow hlt ha, hrest⟩
      · rw [if_neg ha, ih hnum.2 fun b hb => hstart b (List.mem_cons_of_mem _ hb)]
        simp [ha]

/-- The rung that is reached last is one of them, and it is reached. -/
theorem last_reached (hstart : p start) : last p start rungs ∈ start :: rungs ∧ p (last p start rungs) := by
  induction rungs generalizing start with
  | nil => exact ⟨List.mem_cons_self, hstart⟩
  | cons a rungs ih =>
      have hcons : last p start (a :: rungs) = last p (if p a then a else start) rungs := rfl
      rw [hcons]
      by_cases ha : p a
      · rw [if_pos ha]
        exact ⟨List.mem_cons_of_mem _ (ih ha).1, (ih ha).2⟩
      · rw [if_neg ha]
        refine ⟨?_, (ih hstart).2⟩
        obtain hmem | hmem := List.mem_cons.mp (ih hstart).1
        · rw [hmem]
          exact List.mem_cons_self
        · exact List.mem_cons_of_mem _ (List.mem_cons_of_mem _ hmem)

/-- Two numbers are the same when the same numbers below the top bound them. -/
theorem eq_iff_forall_le (hm : m ≤ top) (hn : n ≤ top) : m = n ↔ ∀ i < top, m ≤ i ↔ n ≤ i := by
  constructor
  · rintro rfl i -
    rfl
  · intro h
    rcases Nat.lt_trichotomy m n with hlt | heq | hlt
    · have := (h m (Nat.lt_of_lt_of_le hlt hn)).mp (Nat.le_refl m)
      omega
    · exact heq
    · have := (h n (Nat.lt_of_lt_of_le hlt hm)).mpr (Nat.le_refl n)
      omega

end Ladder

/-!
# Draining

An amount is taken from accounts in their order: from each as much as it has, until the amount is covered.
-/

namespace Drain

variable {α : Type*} [AddCommGroup α] [LinearOrder α] {accounts more : List α} {a t : α}

/-- What is taken from each account. -/
def taken : List α → α → List α
  | [], _ => []
  | a :: accounts, t => if t ≤ 0 then 0 :: taken accounts t else min a t :: taken accounts (t - min a t)

@[simp] theorem length_taken (accounts : List α) (t : α) : (taken accounts t).length = accounts.length := by
  induction accounts generalizing t with
  | nil => rfl
  | cons a accounts ih =>
      unfold taken
      split <;> simp [ih]

theorem taken_of_nonpos (h : t ≤ 0) : taken accounts t = accounts.map fun _ => 0 := by
  induction accounts with
  | nil => rfl
  | cons a accounts ih => rw [taken, if_pos h, ih, List.map_cons]

/-- One account, whatever is left to be taken. -/
theorem taken_cons (ha : 0 ≤ a) (ht : 0 ≤ t) : taken (a :: accounts) t = min a t :: taken accounts (t - min a t) := by
  rw [taken]
  split_ifs with hle
  · obtain rfl : t = 0 := le_antisymm hle ht
    rw [min_eq_right ha, sub_self]
  · rfl

variable [IsOrderedAddMonoid α]

/-- **All that the accounts have goes, or all that was asked for comes.** -/
theorem sum_taken (haccounts : ∀ a ∈ accounts, 0 ≤ a) (ht : 0 ≤ t) : (taken accounts t).sum = min t accounts.sum := by
  induction accounts generalizing t with
  | nil => simp [taken, ht]
  | cons a accounts ih =>
      obtain ⟨ha, hrest⟩ := List.forall_mem_cons.mp haccounts
      have hleft : 0 ≤ t - min a t := sub_nonneg.mpr (min_le_right a t)
      rw [taken_cons ha ht, List.sum_cons, List.sum_cons, ih hrest hleft, ← min_add_add_left, add_sub_cancel]
      rcases le_total a t with hle | hle
      · rw [min_eq_left hle]
      · have hsum : 0 ≤ accounts.sum := List.sum_nonneg hrest
        rw [min_eq_right hle, min_eq_left (le_add_of_nonneg_right hsum),
          min_eq_left (hle.trans (le_add_of_nonneg_right hsum))]

/-- No account gives more than it has. -/
theorem taken_bounds (haccounts : ∀ a ∈ accounts, 0 ≤ a) (ht : 0 ≤ t) :
    List.Forall₂ (fun a c => 0 ≤ c ∧ c ≤ a) accounts (taken accounts t) := by
  induction accounts generalizing t with
  | nil => exact .nil
  | cons a accounts ih =>
      obtain ⟨ha, hrest⟩ := List.forall_mem_cons.mp haccounts
      rw [taken_cons ha ht]
      exact .cons ⟨le_min ha ht, min_le_left a t⟩ (ih hrest (sub_nonneg.mpr (min_le_right a t)))

/-- The accounts at the back give what those in front of them leave open. -/
theorem taken_append (haccounts : ∀ a ∈ accounts, 0 ≤ a) (ht : 0 ≤ t) :
    taken (accounts ++ more) t = taken accounts t ++ taken more (t - min t accounts.sum) := by
  induction accounts generalizing t with
  | nil => simp [taken, ht]
  | cons a accounts ih =>
      obtain ⟨ha, hrest⟩ := List.forall_mem_cons.mp haccounts
      have hleft : 0 ≤ t - min a t := sub_nonneg.mpr (min_le_right a t)
      have hsum := sum_taken haccounts ht
      rw [taken_cons ha ht, List.sum_cons, sum_taken hrest hleft] at hsum
      rw [List.cons_append, taken_cons ha ht, taken_cons ha ht, ih hrest hleft, List.cons_append, ← hsum]
      congr 3
      abel

/-- **In order**: what an account gives, those in front of it have not. -/
theorem exhausted_of_taken (haccounts : ∀ a ∈ accounts, 0 ≤ a) (ht : 0 ≤ t)
    (htaken : ∃ c ∈ taken more (t - min t accounts.sum), 0 < c) : taken accounts t = accounts := by
  have hopen : accounts.sum < t := by
    by_contra hle
    rw [min_eq_left (not_lt.mp hle), sub_self, taken_of_nonpos le_rfl] at htaken
    obtain ⟨c, hc, hpos⟩ := htaken
    obtain ⟨-, -, rfl⟩ := List.mem_map.mp hc
    exact lt_irrefl _ hpos
  clear htaken
  induction accounts generalizing t with
  | nil => rfl
  | cons a accounts ih =>
      obtain ⟨ha, hrest⟩ := List.forall_mem_cons.mp haccounts
      rw [List.sum_cons] at hopen
      have hle : a ≤ t := (le_add_of_nonneg_right (List.sum_nonneg hrest)).trans hopen.le
      rw [taken_cons ha ht, min_eq_left hle, ih hrest (sub_nonneg.mpr hle) (lt_sub_iff_add_lt'.mpr hopen)]

end Drain
