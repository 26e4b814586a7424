import Mathlib.Logic.Function.Iterate
import Mathlib.Data.Nat.Find

/-!
# Trying again

An attempt that fails in a way that is caught is made again, from the state it left, as long as there are tries left.
-/

namespace Retry

variable {σ ε α : Type} {attempt : σ → Except ε α × σ} {caught : ε → Bool} {fallback : α} {n i j : ℕ} {s : σ}

def run (attempt : σ → Except ε α × σ) (caught : ε → Bool) (fallback : α) : ℕ → σ → Except ε α × σ
  | 0, s => (.ok fallback, s)
  | n + 1, s =>
      match attempt s with
      | (.ok a, s') => (.ok a, s')
      | (.error e, s') => if caught e then run attempt caught fallback n s' else (.error e, s')

/-- The attempt from this state fails, and the failure is caught. -/
def Caught (attempt : σ → Except ε α × σ) (caught : ε → Bool) (s : σ) : Prop :=
  ∃ e, (attempt s).1 = .error e ∧ caught e = true

/-- Where an attempt leaves the state. -/
def after (attempt : σ → Except ε α × σ) (s : σ) : σ := (attempt s).2

/-- The attempt with this number is the first that is not caught. -/
structure Decides (attempt : σ → Except ε α × σ) (caught : ε → Bool) (s : σ) (i : ℕ) : Prop where
  before : ∀ j < i, Caught attempt caught ((after attempt)^[j] s)
  decided : ¬ Caught attempt caught ((after attempt)^[i] s)

theorem run_succ_of_caught (h : Caught attempt caught s) :
    run attempt caught fallback (n + 1) s = run attempt caught fallback n (after attempt s) := by
  obtain ⟨e, he, hcaught⟩ := h
  unfold after
  rw [run]
  rcases hattempt : attempt s with ⟨r, s'⟩
  rw [hattempt] at he
  cases he
  simp [hcaught]

theorem run_succ_of_not_caught (h : ¬ Caught attempt caught s) :
    run attempt caught fallback (n + 1) s = attempt s := by
  rw [run]
  rcases hattempt : attempt s with ⟨r, s'⟩
  cases r with
  | ok a => rfl
  | error e =>
      have hnot : caught e ≠ true := fun hcaught => h ⟨e, by rw [hattempt], hcaught⟩
      simp [hnot]

/-- The result is that of the attempt that decides. -/
theorem Decides.run_eq (h : Decides attempt caught s i) (hi : i < n) :
    run attempt caught fallback n s = attempt ((after attempt)^[i] s) := by
  induction i generalizing n s with
  | zero =>
      obtain ⟨n, rfl⟩ := Nat.exists_eq_succ_of_ne_zero (Nat.ne_of_gt hi)
      exact run_succ_of_not_caught h.decided
  | succ i ih =>
      obtain ⟨n, rfl⟩ := Nat.exists_eq_succ_of_ne_zero (Nat.ne_of_gt (Nat.zero_lt_of_lt hi))
      have hcaught : Caught attempt caught s := h.before 0 (Nat.succ_pos i)
      rw [Nat.succ_eq_add_one, run_succ_of_caught hcaught, Function.iterate_succ_apply]
      refine ih ⟨fun j hj => ?_, ?_⟩ (Nat.lt_of_succ_lt_succ hi)
      · rw [← Function.iterate_succ_apply]
        exact h.before (j + 1) (Nat.succ_lt_succ hj)
      · rw [← Function.iterate_succ_apply]
        exact h.decided

theorem run_of_all_caught (h : ∀ j < n, Caught attempt caught ((after attempt)^[j] s)) :
    (run attempt caught fallback n s).1 = .ok fallback := by
  induction n generalizing s with
  | zero => rfl
  | succ n ih =>
      have hcaught : Caught attempt caught s := h 0 (Nat.succ_pos n)
      rw [run_succ_of_caught hcaught]
      refine ih fun j hj => ?_
      rw [← Function.iterate_succ_apply]
      exact h (j + 1) (Nat.succ_lt_succ hj)

theorem exists_decides (n : ℕ) (s : σ) : (∃ i < n, Decides attempt caught s i) ∨
    ∀ j < n, Caught attempt caught ((after attempt)^[j] s) := by
  classical
  by_cases hex : ∃ i, i < n ∧ ¬ Caught attempt caught ((after attempt)^[i] s)
  · obtain ⟨hlt, hdecided⟩ := Nat.find_spec hex
    refine Or.inl ⟨Nat.find hex, hlt, fun j hj => ?_, hdecided⟩
    by_contra hnot
    exact Nat.find_min hex hj ⟨Nat.lt_trans hj hlt, hnot⟩
  · refine Or.inr fun j hj => ?_
    by_contra hnot
    exact hex ⟨j, hj, hnot⟩

theorem Decides.unique (hi : Decides attempt caught s i) (hj : Decides attempt caught s j) : i = j := by
  rcases Nat.lt_trichotomy i j with hlt | heq | hgt
  · exact absurd (hj.before i hlt) hi.decided
  · exact heq
  · exact absurd (hi.before j hgt) hj.decided

end Retry
