import Mathlib.Data.List.Induction
import Mathlib.Order.Bounds.Basic
import Mathlib.Order.Lattice

/-!
# Stalled stretches

A value for each of some increasing positions. A position is a record when its value exceeds every earlier one; the
stalled positions are those with no record at or behind them. The loop that carries the best value and counts since the
last record counts the stalled positions.
-/

namespace Stall

variable {κ β : Type*} [LinearOrder κ] [LinearOrder β] {f : κ → β} {xs : List κ} {x g : κ} {acc : β × ℕ}

def Record (f : κ → β) (xs : List κ) (g : κ) : Prop := ∀ g' ∈ xs, g' < g → f g' < f g

instance : Decidable (Record f xs g) := inferInstanceAs (Decidable (∀ g' ∈ xs, g' < g → f g' < f g))

/-- No record at `g` or behind it. -/
def Stalled (f : κ → β) (xs : List κ) (g : κ) : Prop := ∀ g' ∈ xs, g ≤ g' → ¬ Record f xs g'

instance : Decidable (Stalled f xs g) := inferInstanceAs (Decidable (∀ g' ∈ xs, g ≤ g' → ¬ Record f xs g'))

/-- The best value and the number of positions since the last record, with one more position. -/
def step (f : κ → β) (acc : β × ℕ) (x : κ) : β × ℕ := if f x > acc.1 then (f x, 0) else (acc.1, acc.2 + 1)

/-- What the loop has. -/
structure Holds (f : κ → β) (xs : List κ) (acc : β × ℕ) : Prop where
  best : IsGreatest {y | ∃ g ∈ xs, y = f g} acc.1
  count : acc.2 = (xs.filter fun g => Stalled f xs g).length

theorem holds_singleton (x : κ) : Holds f [x] (f x, 0) where
  best := ⟨⟨x, List.mem_singleton_self x, rfl⟩, by rintro y ⟨g, hg, rfl⟩; rw [List.mem_singleton.mp hg]⟩
  count := by simp [Stalled, Record]

/-- A later position makes no difference to an earlier record. -/
theorem record_append (hg : g ∈ xs) (hlast : ∀ g ∈ xs, g < x) : Record f (xs ++ [x]) g ↔ Record f xs g := by
  simp only [Record, List.mem_append, List.mem_singleton]
  refine ⟨fun h g' hg' => h g' (Or.inl hg'), fun h g' hg' hlt => ?_⟩
  rcases hg' with hg' | rfl
  · exact h g' hg' hlt
  · exact absurd hlt (hlast g hg).not_gt

theorem record_last (hlast : ∀ g ∈ xs, g < x) : Record f (xs ++ [x]) x ↔ ∀ g ∈ xs, f g < f x := by
  simp only [Record, List.mem_append, List.mem_singleton]
  refine ⟨fun h g hg => h g (Or.inl hg) (hlast g hg), fun h g hg hlt => ?_⟩
  rcases hg with hg | rfl
  · exact h g hg
  · exact absurd hlt (lt_irrefl _)

/-- What was stalled stays so until a record. -/
theorem stalled_append (hg : g ∈ xs) (hlast : ∀ g ∈ xs, g < x) :
    Stalled f (xs ++ [x]) g ↔ Stalled f xs g ∧ ¬ Record f (xs ++ [x]) x := by
  constructor
  · intro h
    refine ⟨fun g' hg' hle hrecord => ?_, h x (by simp) (hlast g hg).le⟩
    exact h g' (List.mem_append_left _ hg') hle ((record_append hg' hlast).mpr hrecord)
  · rintro ⟨h, hx⟩ g' hg' hle hrecord
    rcases List.mem_append.mp hg' with hg' | hg'
    · exact h g' hg' hle ((record_append hg' hlast).mp hrecord)
    · rw [List.mem_singleton.mp hg'] at hrecord
      exact hx hrecord

/-- **One more position.** -/
theorem Holds.step (h : Holds f xs acc) (hlast : ∀ g ∈ xs, g < x) : Holds f (xs ++ [x]) (step f acc x) := by
  have hrecord : Record f (xs ++ [x]) x ↔ f x > acc.1 := by
    rw [record_last hlast]
    constructor
    · intro hall
      obtain ⟨g, hg, heq⟩ := h.best.1
      rw [heq]
      exact hall g hg
    · exact fun hgt g hg => (h.best.2 ⟨g, hg, rfl⟩).trans_lt hgt
  have hx : Stalled f (xs ++ [x]) x ↔ ¬ Record f (xs ++ [x]) x := by
    refine ⟨fun hs => hs x (by simp) (le_refl x), fun hs g hg hle => ?_⟩
    rcases List.mem_append.mp hg with hg | hg
    · exact absurd (hlast g hg) hle.not_gt
    · rwa [List.mem_singleton.mp hg]
  have hset : {y | ∃ g ∈ xs ++ [x], y = f g} = {y | ∃ g ∈ xs, y = f g} ∪ {f x} := by
    ext y
    constructor
    · rintro ⟨g, hg, rfl⟩
      rcases List.mem_append.mp hg with hg | hg
      · exact Or.inl ⟨g, hg, rfl⟩
      · exact Or.inr (by rw [List.mem_singleton.mp hg]; rfl)
    · rintro (⟨g, hg, rfl⟩ | rfl)
      · exact ⟨g, List.mem_append_left _ hg, rfl⟩
      · exact ⟨x, by simp, rfl⟩
  have hbest : IsGreatest {y | ∃ g ∈ xs ++ [x], y = f g} (max acc.1 (f x)) := by
    rw [hset]
    exact h.best.union isGreatest_singleton
  have hfilter : (xs.filter fun g => Stalled f (xs ++ [x]) g) =
      if Record f (xs ++ [x]) x then [] else xs.filter fun g => Stalled f xs g := by
    split_ifs with hr
    · rw [List.filter_eq_nil_iff]
      intro g hg hs
      exact ((stalled_append hg hlast).mp (of_decide_eq_true hs)).2 hr
    · refine List.filter_congr fun g hg => ?_
      rw [decide_eq_decide, stalled_append hg hlast]
      exact and_iff_left hr
  unfold Stall.step
  split_ifs with hgt
  · have hr := hrecord.mpr hgt
    refine ⟨by rwa [max_eq_right hgt.le] at hbest, ?_⟩
    rw [List.filter_append, hfilter, if_pos hr]
    simp [hx, hr]
  · have hr := mt hrecord.mp hgt
    refine ⟨by rwa [max_eq_left (not_lt.mp hgt)] at hbest, ?_⟩
    rw [List.filter_append, hfilter, if_neg hr]
    simp [hx, hr, h.count]

/-- **The loop counts the stalled positions.** -/
theorem foldl_step {first : κ} {rest : List κ} (hsorted : (first :: rest).Pairwise (· < ·)) :
    Holds f (first :: rest) (rest.foldl (step f) (f first, 0)) := by
  induction rest using List.reverseRecOn with
  | nil => exact holds_singleton first
  | append_singleton rest x ih =>
      rw [← List.cons_append, List.pairwise_append] at hsorted
      rw [List.foldl_append, ← List.cons_append]
      exact (ih hsorted.1).step fun g hg => hsorted.2.2 g hg x (List.mem_singleton_self x)

end Stall
