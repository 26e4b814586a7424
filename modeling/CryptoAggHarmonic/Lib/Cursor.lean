import Mathlib.Data.Int.Order.Basic
import Mathlib.Data.List.Basic

/-!
# Reading a log by a cursor

The entries of a log carry numbers, or none. A reader that has seen the number `s` is to get the entries with greater
numbers, least first; a log of which every entry has its position for a number is read by position.
-/

namespace Cursor

section

variable {α : Type*} {no : α → Option ℤ} {log : List α} {a : α} {s : ℤ}

/-- Every entry has its position for a number. -/
def Numbered (no : α → Option ℤ) (log : List α) : Prop := ∀ (i : ℕ) a, log[i]? = some a → no a = some (i : ℤ)

def past (no : α → Option ℤ) (s : ℤ) (a : α) : Bool := (no a).any fun v => s < v

def le (no : α → Option ℤ) (a b : α) : Bool := (no a).getD 0 ≤ (no b).getD 0

/-- The entries with greater numbers than `s`, least first. -/
def after (no : α → Option ℤ) (log : List α) (s : ℤ) : List α := (log.filter (past no s)).mergeSort (le no)

theorem numbered_nil : Numbered no [] := fun i a h => by simp at h

theorem numbered_append : Numbered no (log ++ [a]) ↔ Numbered no log ∧ no a = some (log.length : ℤ) := by
  constructor
  · intro h
    refine ⟨fun i b hb => h i b ?_, h log.length a (by simp)⟩
    obtain ⟨hi, -⟩ := List.getElem?_eq_some_iff.mp hb
    rw [List.getElem?_append_left hi, hb]
  · rintro ⟨h, ha⟩ i b hb
    rcases Nat.lt_trichotomy i log.length with hi | rfl | hi
    · exact h i b (by rwa [List.getElem?_append_left hi] at hb)
    · simp only [List.getElem?_concat_length, Option.some.injEq] at hb
      rw [← hb, ha]
    · rw [List.getElem?_eq_none (by simp; omega)] at hb
      cases hb

theorem mem_after : a ∈ after no log s ↔ a ∈ log ∧ past no s a = true := by
  rw [after, List.mem_mergeSort, List.mem_filter]

theorem Numbered.past (h : Numbered no log) {i : ℕ} (ha : log[i]? = some a) : past no s a = true ↔ s < i := by
  simp [Cursor.past, h i a ha]

theorem Numbered.filter (h : Numbered no log) (hs : -1 ≤ s) :
    log.filter (Cursor.past no s) = log.drop (s + 1).toNat := by
  have htake : (log.take (s + 1).toNat).filter (Cursor.past no s) = [] := by
    rw [List.filter_eq_nil_iff]
    intro a ha hpast
    obtain ⟨i, hi⟩ := List.mem_iff_getElem?.mp ha
    rw [List.getElem?_take] at hi
    split_ifs at hi with hlt
    have := (h.past hi).mp hpast
    omega
  have hdrop : (log.drop (s + 1).toNat).filter (Cursor.past no s) = log.drop (s + 1).toNat := by
    rw [List.filter_eq_self]
    intro a ha
    obtain ⟨i, hi⟩ := List.mem_iff_getElem?.mp ha
    rw [List.getElem?_drop] at hi
    refine (h.past hi).mpr ?_
    omega
  calc log.filter (Cursor.past no s)
      = (log.take (s + 1).toNat ++ log.drop (s + 1).toNat).filter (Cursor.past no s) := by rw [List.take_append_drop]
    _ = log.drop (s + 1).toNat := by rw [List.filter_append, htake, hdrop, List.nil_append]

/-- A numbered log is read by position. -/
theorem Numbered.after (h : Numbered no log) (hs : -1 ≤ s) : Cursor.after no log s = log.drop (s + 1).toNat := by
  rw [Cursor.after, h.filter hs]
  refine List.mergeSort_of_pairwise (List.pairwise_iff_getElem.mpr fun i j hi hj hij => ?_)
  have hno : ∀ k (hk : k < (log.drop (s + 1).toNat).length),
      no (log.drop (s + 1).toNat)[k] = some (((s + 1).toNat + k : ℕ) : ℤ) := fun k hk =>
    h _ _ (by rw [← List.getElem?_drop, List.getElem?_eq_getElem hk])
  simp only [le, hno i hi, hno j hj, Option.getD_some, decide_eq_true_eq]
  omega

/-- Who is past a number is past those below it. -/
theorem filter_past_filter_past {r : ℤ} (h : r ≤ s) :
    (log.filter (past no r)).filter (past no s) = log.filter (past no s) := by
  rw [List.filter_filter]
  refine List.filter_congr fun b _ => ?_
  cases hb : no b with
  | none => simp [past, hb]
  | some v =>
      simp only [past, hb, Option.any_some]
      by_cases hv : s < v
      · simp [hv, lt_of_le_of_lt h hv]
      · simp [hv]

/-- Where positions and numbers agree on what comes after each position, an entry is not past its own. -/
theorem not_past_of_drop {k : ℕ} (h : ∀ k : ℕ, log.drop k = Cursor.after no log (k - 1)) (hk : k < log.length) :
    ¬ past no k log[k] = true := by
  intro hpast
  have hlate : (log.drop (k + 1)).filter (past no k) = log.drop (k + 1) := by
    rw [List.filter_eq_self]
    intro b hb
    rw [h, mem_after] at hb
    simpa using hb.2
  have hnext : log.drop (k + 1) = Cursor.after no log k := by simpa using h (k + 1)
  have hfilter : ((log.drop k).filter (past no k)).Perm (log.filter (past no k)) := by
    rw [h]
    refine ((List.mergeSort_perm _ _).filter _).trans ?_
    rw [filter_past_filter_past (by omega)]
  have hlength := (hfilter.trans (List.mergeSort_perm _ (le no)).symm).length_eq
  rw [List.drop_eq_getElem_cons hk, List.filter_cons_of_pos hpast, hlate, hnext, List.length_cons, Cursor.after]
    at hlength
  omega

/-- Only a numbered log is. -/
theorem numbered_of_after (h : ∀ s, -1 ≤ s → log.drop (s + 1).toNat = Cursor.after no log s) : Numbered no log := by
  intro k a ha
  obtain ⟨hk, rfl⟩ := List.getElem?_eq_some_iff.mp ha
  have hat : ∀ k : ℕ, log.drop k = Cursor.after no log (k - 1) := fun k => by
    have := h (k - 1) (by omega)
    rwa [show ((k : ℤ) - 1 + 1).toNat = k by omega] at this
  have hnot := not_past_of_drop hat hk
  have hmem : log[k] ∈ Cursor.after no log (k - 1) := by
    rw [← hat, List.drop_eq_getElem_cons hk]
    exact List.mem_cons_self
  have hpast := (mem_after.mp hmem).2
  cases hno : no log[k] with
  | none => simp [past, hno] at hpast
  | some v =>
      simp only [past, hno, Option.any_some, decide_eq_true_eq] at hpast hnot
      rw [show v = k by omega]

end

end Cursor
