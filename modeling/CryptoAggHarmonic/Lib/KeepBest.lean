import Mathlib.Data.List.Basic
import Mathlib.Data.List.Induction
import Mathlib.Order.Defs.LinearOrder
import Mathlib.Order.Lattice
import Mathlib.Algebra.BigOperators.Group.List.Basic
import Mathlib.Algebra.Order.Group.Defs
import Mathlib.Algebra.Order.Group.Lattice
import Mathlib.Order.Bounds.Basic
import Mathlib.Tactic.Abel

/-!
# The best so far, when some elements compare with nothing

The loop that replaces the element it keeps only by a better one, over elements some of which (a NaN) are neither
better nor worse than anything. Such an element is kept for ever when it comes first and never kept when it does not.
-/

namespace KeepBest

variable {α : Type*} {better : α → α → Bool} {alone : α → Prop} {a b : α} {l pre : List α}

def keep (better : α → α → Bool) (best : Option α) (a : α) : Option α :=
  match best with
  | none => some a
  | some b => if better a b then some a else some b

def best (better : α → α → Bool) (l : List α) : Option α := l.foldl (keep better) none

/-- `better` is a strict weak order of the elements that are not `alone`, and says nothing of the others. -/
structure Ordered (better : α → α → Bool) (alone : α → Prop) : Prop where
  trans : ∀ a b c, better a b → better b c → better a c
  not_alone : ∀ a b, better a b → ¬ alone a ∧ ¬ alone b
  of_not_better : ∀ a b c, better a b → ¬ better c b → ¬ alone c → better a c

/-- `a` replaces what the loop keeps of `pre`. -/
def Beats (better : α → α → Bool) (alone : α → Prop) (a : α) : List α → Prop
  | [] => True
  | b :: bs => better a b ∧ ∀ c ∈ bs, better a c ∨ alone c

/-- Where the element that is kept at the end stands in the list. -/
def IsBest (better : α → α → Bool) (alone : α → Prop) (l : List α) (a : α) : Prop :=
  ∃ pre post, l = pre ++ a :: post ∧ Beats better alone a pre ∧ ∀ b ∈ post, ¬ better b a

theorem best_append_singleton (l : List α) (a : α) : best better (l ++ [a]) = keep better (best better l) a :=
  List.foldl_concat _ _ _ _

theorem best_eq_none_iff : best better l = none ↔ l = [] := by
  cases l using List.reverseRecOn with
  | nil => exact iff_of_true rfl rfl
  | append_singleton l a =>
      rw [best_append_singleton]
      cases best better l with
      | none => simp [keep]
      | some b => by_cases h : better a b <;> simp [keep, h]

theorem isBest_append_singleton : IsBest better alone (l ++ [a]) b ↔
    (a = b ∧ Beats better alone a l) ∨ (IsBest better alone l b ∧ ¬ better a b) := by
  constructor
  · rintro ⟨pre, post, hl, hpre, hpost⟩
    cases post using List.reverseRecOn with
    | nil =>
        obtain ⟨rfl, hab⟩ := List.append_inj' hl rfl
        cases hab
        exact Or.inl ⟨rfl, hpre⟩
    | append_singleton post c =>
        rw [← List.cons_append, ← List.append_assoc] at hl
        obtain ⟨rfl, hac⟩ := List.append_inj' hl rfl
        cases hac
        exact Or.inr ⟨⟨pre, post, rfl, hpre, fun c hc => hpost c (List.mem_append_left _ hc)⟩, hpost _ (by simp)⟩
  · rintro (⟨rfl, hpre⟩ | ⟨⟨pre, post, rfl, hpre, hpost⟩, hab⟩)
    · exact ⟨l, [], rfl, hpre, by simp⟩
    · refine ⟨pre, post ++ [a], by simp, hpre, fun c hc => ?_⟩
      rcases List.mem_append.mp hc with hc | hc
      · exact hpost c hc
      · rw [List.mem_singleton.mp hc]
        exact hab

/-- To beat a list is to beat the best of it. -/
theorem beats_iff (ho : Ordered better alone) (hb : IsBest better alone l b) :
    Beats better alone a l ↔ better a b := by
  obtain ⟨pre, post, rfl, hpre, hpost⟩ := hb
  have hlater : better a b → ∀ c ∈ post, better a c ∨ alone c := by
    intro hab c hc
    by_cases hal : alone c
    · exact Or.inr hal
    · exact Or.inl (ho.of_not_better a b c hab (hpost c hc) hal)
  cases pre with
  | nil => exact ⟨fun h => h.1, fun h => ⟨h, hlater h⟩⟩
  | cons c pre =>
      constructor
      · rintro ⟨-, h⟩
        rcases h b (by simp) with h | h
        · exact h
        · exact absurd h (ho.not_alone b c hpre.1).1
      · refine fun hab => ⟨ho.trans a b c hab hpre.1, fun d hd => ?_⟩
        rcases List.mem_append.mp hd with hd | hd
        · exact (hpre.2 d hd).imp_left (ho.trans a b d hab)
        · rcases List.mem_cons.mp hd with rfl | hd
          · exact Or.inl hab
          · exact hlater hab d hd

/-- **What the loop keeps.** -/
theorem best_eq_some_iff (ho : Ordered better alone) : best better l = some b ↔ IsBest better alone l b := by
  induction l using List.reverseRecOn generalizing b with
  | nil =>
      refine iff_of_false (by simp [best]) ?_
      rintro ⟨pre, post, h, -⟩
      simp at h
  | append_singleton l a ih =>
      rw [best_append_singleton, isBest_append_singleton]
      cases hkept : best better l with
      | none =>
          rw [best_eq_none_iff] at hkept
          subst hkept
          simp [keep, Beats, IsBest]
      | some c =>
          have hc := ih.mp hkept
          have hbest : ∀ b, IsBest better alone l b ↔ c = b := fun b => by
            rw [← ih, hkept, Option.some.injEq]
          rw [beats_iff ho hc, hbest]
          by_cases h : better a c
          · simp only [keep, h, if_true, Option.some.injEq, and_true]
            refine ⟨Or.inl, ?_⟩
            rintro (rfl | ⟨rfl, h'⟩)
            · rfl
            · exact absurd h h'
          · have hkeep : keep better (some c) a = some c := by simp [keep, h]
            rw [hkeep, Option.some.injEq]
            refine ⟨fun hcb => Or.inr ⟨hcb, hcb ▸ h⟩, ?_⟩
            rintro (⟨-, h'⟩ | ⟨hcb, -⟩)
            · exact absurd h' h
            · exact hcb

end KeepBest

/-!
# The first maximum of a list by a rank

The loop that keeps the best element so far and replaces it only by one of a strictly greater rank.
-/

namespace FirstMax

variable {α β : Type*} [LinearOrder β] {rank : α → β} {bot : β} {a b : α} {l : List α}

def pick (rank : α → β) (best : Option α × β) (a : α) : Option α × β :=
  if rank a > best.2 then (some a, rank a) else best

/-- The loop from `bot`, a rank below all others. -/
def firstMax (rank : α → β) (bot : β) (l : List α) : Option α := (l.foldl (pick rank) (none, bot)).1

/-- What the loop keeps: the best so far comes from the list or the start, has the rank it is kept with, and
nothing seen has a greater one. -/
theorem foldl_pick_spec (rank : α → β) (l : List α) (best : Option α × β) (hbest : ∀ a ∈ best.1, rank a = best.2) :
    let r := l.foldl (pick rank) best
    (∀ a ∈ r.1, rank a = r.2) ∧ best.2 ≤ r.2 ∧ (∀ b ∈ l, rank b ≤ r.2) ∧
      (r = best ∨ ∃ a ∈ l, r.1 = some a) := by
  induction l generalizing best with
  | nil => exact ⟨hbest, le_refl _, by simp, Or.inl rfl⟩
  | cons x xs ih =>
      have hstep : (∀ a ∈ (pick rank best x).1, rank a = (pick rank best x).2) ∧ best.2 ≤ (pick rank best x).2 ∧
          rank x ≤ (pick rank best x).2 ∧ (pick rank best x = best ∨ (pick rank best x).1 = some x) := by
        unfold pick
        split_ifs with h
        · exact ⟨by simp, h.le, le_refl _, Or.inr rfl⟩
        · exact ⟨hbest, le_refl _, not_lt.mp h, Or.inl rfl⟩
      obtain ⟨h1, h2, h3, h4⟩ := ih (pick rank best x) hstep.1
      refine ⟨h1, hstep.2.1.trans h2, ?_, ?_⟩
      · rintro b (_ | ⟨_, hb⟩)
        · exact hstep.2.2.1.trans h2
        · exact h3 b hb
      · rcases h4 with h4 | ⟨a, ha, h4⟩
        · rcases hstep.2.2.2 with h | h
          · exact Or.inl (h4.trans h)
          · exact Or.inr ⟨x, by simp, h4 ▸ h⟩
        · exact Or.inr ⟨a, List.mem_cons_of_mem _ ha, h4⟩

theorem firstMax_eq_some (h : firstMax rank bot l = some a) : a ∈ l ∧ ∀ b ∈ l, rank b ≤ rank a := by
  obtain ⟨h1, -, h3, h4⟩ := foldl_pick_spec rank l (none, bot) (by simp)
  have ha : rank a = _ := h1 a h
  refine ⟨?_, fun b hb => ha ▸ h3 b hb⟩
  rcases h4 with h4 | ⟨x, hx, h4⟩
  · rw [firstMax, h4] at h
    cases h
  · rw [firstMax, h4] at h
    cases h
    exact hx

/-- Something is chosen from every list that is not empty when `bot` is below every rank. -/
theorem firstMax_eq_none (hbot : ∀ a, bot < rank a) : firstMax rank bot l = none ↔ l = [] := by
  refine ⟨fun h => ?_, by rintro rfl; rfl⟩
  cases l with
  | nil => rfl
  | cons x xs =>
      obtain ⟨-, -, h3, h4⟩ := foldl_pick_spec rank (x :: xs) (none, bot) (by simp)
      rcases h4 with h4 | ⟨a, -, h4⟩
      · have := h3 x (by simp)
        rw [h4] at this
        exact absurd (hbot x) (not_lt.mpr this)
      · rw [firstMax, h4] at h
        cases h

end FirstMax

/-!
# Drawdown

The curve of the sums of a list of results, and its deepest fall: the greatest difference between a point of the curve
and a later one. The loop that carries the sum, the peak and the deepest fall so far computes it.
-/

namespace Drawdown

variable {α : Type*} [AddCommGroup α] {rs : List α} {r x : α} {i : ℕ}

/-- The curve after `i` results; it starts at zero. -/
def curve (rs : List α) (i : ℕ) : α := (rs.take i).sum

def points (rs : List α) : Set α := {x | ∃ i ≤ rs.length, x = curve rs i}

/-- Every fall from a point of the curve to a later one. -/
def falls (rs : List α) : Set α := {x | ∃ i j, i ≤ j ∧ j ≤ rs.length ∧ x = curve rs i - curve rs j}

theorem curve_append (h : i ≤ rs.length) : curve (rs ++ [r]) i = curve rs i := by
  rw [curve, curve, List.take_append_of_le_length h]

theorem curve_append_last : curve (rs ++ [r]) (rs.length + 1) = rs.sum + r := by
  rw [curve, List.take_of_length_le (by simp), List.sum_append, List.sum_singleton]

/-- One more result adds the last point. -/
theorem points_append : points (rs ++ [r]) = points rs ∪ {rs.sum + r} := by
  ext x
  constructor
  · rintro ⟨i, hi, rfl⟩
    rw [List.length_append, List.length_singleton] at hi
    rcases Nat.lt_or_ge rs.length i with hlt | hle
    · obtain rfl : i = rs.length + 1 := by omega
      exact Or.inr curve_append_last
    · exact Or.inl ⟨i, hle, curve_append hle⟩
  · rintro (⟨i, hi, rfl⟩ | rfl)
    · exact ⟨i, by simp; omega, (curve_append hi).symm⟩
    · exact ⟨rs.length + 1, by simp, curve_append_last.symm⟩

/-- A fall of the longer curve is one of the shorter, or it ends at the new point. -/
theorem falls_append : falls (rs ++ [r]) = falls rs ∪ (fun y => y - (rs.sum + r)) '' points (rs ++ [r]) := by
  ext x
  constructor
  · rintro ⟨i, j, hij, hj, rfl⟩
    rw [List.length_append, List.length_singleton] at hj
    rcases Nat.lt_or_ge rs.length j with hlt | hle
    · obtain rfl : j = rs.length + 1 := by omega
      exact Or.inr ⟨_, ⟨i, by simpa using hij, rfl⟩, by rw [curve_append_last]⟩
    · exact Or.inl ⟨i, j, hij, hle, by rw [curve_append hle, curve_append (hij.trans hle)]⟩
  · rintro (⟨i, j, hij, hj, rfl⟩ | ⟨y, ⟨i, hi, rfl⟩, rfl⟩)
    · exact ⟨i, j, hij, by simp; omega, by rw [curve_append hj, curve_append (hij.trans hj)]⟩
    · exact ⟨i, rs.length + 1, by simpa using hi, by simp, by rw [curve_append_last]⟩

/-- A fall is the loss of a run of consecutive results. -/
theorem falls_eq_runs : falls rs = {x | ∃ run, run <:+: rs ∧ x = -run.sum} := by
  ext x
  constructor
  · rintro ⟨i, j, hij, hj, rfl⟩
    refine ⟨(rs.take j).drop i, (List.drop_suffix i _).isInfix.trans (List.take_prefix j rs).isInfix, ?_⟩
    have hsplit : (rs.take j).take i ++ (rs.take j).drop i = rs.take j := List.take_append_drop i _
    have hsum : curve rs j = curve rs i + ((rs.take j).drop i).sum := by
      have htake : (rs.take j).take i = rs.take i := by rw [List.take_take, min_eq_left hij]
      rw [curve, curve, ← htake, ← List.sum_append, hsplit]
    rw [hsum]
    abel
  · rintro ⟨run, ⟨before, after, rfl⟩, rfl⟩
    refine ⟨before.length, before.length + run.length, Nat.le_add_right _ _, by simp, ?_⟩
    have hstart : curve (before ++ run ++ after) before.length = before.sum := by simp [curve]
    have hstop : curve (before ++ run ++ after) (before.length + run.length) = before.sum + run.sum := by
      rw [curve, ← List.length_append, List.take_left, List.sum_append]
    rw [hstart, hstop]
    abel

section

variable [LinearOrder α]

def IsMax (rs : List α) (d : α) : Prop := IsGreatest (falls rs) d

/-- The sum, the peak and the deepest fall, with one more result. -/
def step (acc : α × α × α) (r : α) : α × α × α :=
  (acc.1 + r, max acc.2.1 (acc.1 + r), max acc.2.2 (max acc.2.1 (acc.1 + r) - (acc.1 + r)))

/-- What the loop has: the sum, the highest point of the curve and its deepest fall. -/
structure Holds (rs : List α) (acc : α × α × α) : Prop where
  sum : acc.1 = rs.sum
  peak : IsGreatest (points rs) acc.2.1
  fall : IsMax rs acc.2.2

theorem holds_nil : Holds ([] : List α) (0, 0, 0) where
  sum := rfl
  peak := by
    refine ⟨⟨0, le_refl _, rfl⟩, ?_⟩
    rintro x ⟨i, -, rfl⟩
    simp [curve]
  fall := by
    refine ⟨⟨0, 0, le_refl _, le_refl _, by simp [curve]⟩, ?_⟩
    rintro x ⟨i, j, -, -, rfl⟩
    simp [curve]

variable [IsOrderedAddMonoid α]

/-- **One result**: the highest point and the deepest fall may be the new ones. -/
theorem Holds.step {acc : α × α × α} (h : Holds rs acc) (r : α) : Holds (rs ++ [r]) (step acc r) := by
  have hpeak : IsGreatest (points (rs ++ [r])) (max acc.2.1 (rs.sum + r)) := by
    rw [points_append]
    exact h.peak.union isGreatest_singleton
  have hlast : IsGreatest ((fun y => y - (rs.sum + r)) '' points (rs ++ [r]))
      (max acc.2.1 (rs.sum + r) - (rs.sum + r)) := by
    refine ⟨⟨_, hpeak.1, rfl⟩, ?_⟩
    rintro x ⟨y, hy, rfl⟩
    exact sub_le_sub_right (hpeak.2 hy) _
  rw [Drawdown.step, h.sum]
  refine ⟨by simp, hpeak, ?_⟩
  rw [IsMax, falls_append]
  exact h.fall.union hlast

/-- **The loop computes the deepest fall.** -/
theorem foldl_step (rs : List α) : Holds rs (rs.foldl step (0, 0, 0)) := by
  induction rs using List.reverseRecOn with
  | nil => exact holds_nil
  | append_singleton rs r ih =>
      rw [List.foldl_append]
      exact ih.step r

/-- Every run of consecutive results has one that loses at least as much. -/
def Outdone (rs qs : List α) : Prop := ∀ run, run <:+: rs → ∃ run', run' <:+: qs ∧ run'.sum ≤ run.sum

/-- **The deepest falls compare** as the runs that lose most. -/
theorem deepest_le_iff {qs : List α} :
    (rs.foldl Drawdown.step (0, 0, 0)).2.2 ≤ (qs.foldl Drawdown.step (0, 0, 0)).2.2 ↔ Outdone rs qs := by
  have hrs := (foldl_step rs).fall
  have hqs := (foldl_step qs).fall
  rw [IsMax, falls_eq_runs] at hrs hqs
  constructor
  · intro hle run hrun
    obtain ⟨run', hrun', heq⟩ := hqs.1
    refine ⟨run', hrun', ?_⟩
    have hdeep := (hrs.2 ⟨run, hrun, rfl⟩).trans hle
    rw [heq] at hdeep
    exact neg_le_neg_iff.mp hdeep
  · intro h
    obtain ⟨run, hrun, heq⟩ := hrs.1
    obtain ⟨run', hrun', hle⟩ := h run hrun
    rw [heq]
    exact (neg_le_neg hle).trans (hqs.2 ⟨run', hrun', rfl⟩)

end

end Drawdown

/-!
# Peak

The greatest element of a list and the place where it is reached first, as a loop carries them that replaces both only by
a greater element.
-/

namespace Peak

variable {α : Type*} [LinearOrder α] {floor : α} {xs : List α}

def raise (p : α × Option ℕ) (x : α × ℕ) : α × Option ℕ := if p.1 < x.1 then (x.1, some x.2) else p

def peak (floor : α) (xs : List α) : α × Option ℕ := xs.zipIdx.foldl raise (floor, none)

theorem raise_fst (p : α × Option ℕ) (x : α × ℕ) : (raise p x).1 = max p.1 x.1 := by
  unfold raise
  split_ifs with h
  · exact (max_eq_right h.le).symm
  · exact (max_eq_left (not_lt.mp h)).symm

theorem peak_append (floor : α) (xs : List α) (x : α) : peak floor (xs ++ [x]) = raise (peak floor xs) (x, xs.length) := by
  simp [peak, List.zipIdx_append]

theorem isGreatest_peak (floor : α) (xs : List α) : IsGreatest (insert floor {x | x ∈ xs}) (peak floor xs).1 := by
  induction xs using List.reverseRecOn with
  | nil => simp [peak]
  | append_singleton xs x ih =>
      have hall : (insert floor {y | y ∈ xs ++ [x]} : Set α) = insert floor {y | y ∈ xs} ∪ {x} := by
        ext y
        simp [or_left_comm, or_comm]
      rw [hall, peak_append, raise_fst]
      exact ih.union isGreatest_singleton

theorem floor_le_peak : floor ≤ (peak floor xs).1 := (isGreatest_peak floor xs).2 (Set.mem_insert ..)

theorem le_peak {x : α} (hx : x ∈ xs) : x ≤ (peak floor xs).1 :=
  (isGreatest_peak floor xs).2 (Set.mem_insert_of_mem _ hx)

theorem peak_mem (h : (peak floor xs).1 ≠ floor) : (peak floor xs).1 ∈ xs :=
  (Set.mem_insert_iff.mp (isGreatest_peak floor xs).1).resolve_left h

/-- **The place** is the first with the greatest element, none when nothing rises over the floor. -/
theorem place_peak : (peak floor xs).2 =
    if (peak floor xs).1 = floor then none else some (xs.idxOf (peak floor xs).1) := by
  induction xs using List.reverseRecOn with
  | nil => simp [peak]
  | append_singleton xs x ih =>
      rw [peak_append, raise]
      split_ifs with hlt hfloor hfloor
      · exact absurd hfloor (floor_le_peak.trans_lt hlt).ne'
      · have hnew : x ∉ xs := fun hmem => absurd (le_peak hmem) (not_le.mpr hlt)
        simp [List.idxOf_append_of_notMem hnew]
      · rw [ih, if_pos hfloor]
      · rw [ih, if_neg hfloor, List.idxOf_append_of_mem (peak_mem hfloor)]

end Peak
