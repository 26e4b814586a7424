import Mathlib.Data.List.Basic

/-!
# Causal transformations of a series

A transformation is causal when its first values depend only on as many values of its input: applied to a prefix it
gives the prefix of the same length. The rules follow how such transformations are put together.
-/

namespace Causality

variable {α β γ δ : Type*} {f : List α → List β}

def Causal (f : List α → List β) : Prop := ∀ xs m, f (xs.take m) = (f xs).take m

theorem causal_map (h : α → β) : Causal (List.map h) := by
  intro xs m
  rw [List.map_take]

theorem Causal.comp {g : List β → List γ} (hg : Causal g) (hf : Causal f) : Causal fun xs => g (f xs) := by
  intro xs m
  simp only [hf xs m, hg (f xs) m]

theorem Causal.zipWith {k : List α → List γ} (op : β → γ → δ) (hf : Causal f) (hk : Causal k) :
    Causal fun xs => List.zipWith op (f xs) (k xs) := by
  intro xs m
  simp only [hf xs m, hk xs m, List.take_zipWith]

/-- A recursion that starts from the first value. -/
theorem causal_recurrence {h : β → α → β} {start : α → β} (hnil : f [] = [])
    (hcons : ∀ x xs, f (x :: xs) = xs.scanl h (start x)) : Causal f := by
  intro xs m
  cases xs with
  | nil => simp [hnil]
  | cons x xs =>
      cases m with
      | zero => simp [hnil]
      | succ m => rw [List.take_succ_cons, hcons, hcons, List.take_scanl]

theorem zipWith_tail_take (h : α → α → β) (x : α) (xs : List α) (m : ℕ) :
    List.zipWith h (xs.take m) (x :: xs.take m) = (List.zipWith h xs (x :: xs)).take m := by
  have hlen : (List.zipWith h (xs.take m) (x :: xs.take m)).length ≤ m := by
    simp only [List.length_zipWith, List.length_take, List.length_cons]
    omega
  have hfront : (x :: xs.take m).take m = (x :: xs).take m := by
    cases m with
    | zero => rfl
    | succ m => rw [List.take_succ_cons, List.take_succ_cons, List.take_take, Nat.min_eq_left (by omega)]
  rw [← List.take_of_length_le hlen, List.take_zipWith, List.take_zipWith, List.take_take, Nat.min_self, hfront]

/-- What every value gives with the one before it, transformed again; the first value has none before it. -/
theorem Causal.pairs {g : List β → List γ} {first : α → γ} {h : α → α → β} {k : List α → List γ} (hg : Causal g)
    (hnil : k [] = []) (hcons : ∀ x xs, k (x :: xs) = first x :: g (List.zipWith h xs (x :: xs))) : Causal k := by
  intro xs m
  cases xs with
  | nil => simp [hnil]
  | cons x xs =>
      cases m with
      | zero => simp [hnil]
      | succ m => rw [List.take_succ_cons, hcons, hcons, List.take_succ_cons, zipWith_tail_take, hg]

end Causality
