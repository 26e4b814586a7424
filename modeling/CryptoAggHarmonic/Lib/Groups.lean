import Mathlib.Data.List.Dedup
import Mathlib.Data.List.Sort
import Mathlib.Algebra.BigOperators.Group.List.Basic
import Mathlib.Tactic.SplitIfs

/-!
# Groups of a list

The elements of a list by a key, each group in the order of the list and the groups sorted by their keys, as a program
gets them from a table of lists. What is computed of each group alone does not depend on the order of the list when it
does not depend on the order in the group.

Where only a value is kept for each key, the table is updated entry by entry; its value at a key is then the sum of
what was added there.
-/

namespace Groups

variable {α β κ : Type*} [LinearOrder κ] {key : α → κ} {xs ys : List α}

def keys (key : α → κ) (xs : List α) : List κ := (xs.map key).dedup.insertionSort (· ≤ ·)

def group (key : α → κ) (xs : List α) (k : κ) : List α := xs.filter fun x => key x = k

def sortedGroups (key : α → κ) (xs : List α) : List (κ × List α) := (keys key xs).map fun k => (k, group key xs k)

theorem keys_perm (h : xs.Perm ys) : keys key xs = keys key ys := by
  refine List.Perm.eq_of_pairwise (fun a b _ _ hab hba => le_antisymm hab hba) (List.pairwise_insertionSort ..)
    (List.pairwise_insertionSort ..) ?_
  exact ((List.perm_insertionSort ..).trans (h.map key).dedup).trans (List.perm_insertionSort ..).symm

theorem group_perm (h : xs.Perm ys) (k : κ) : (group key xs k).Perm (group key ys k) := h.filter _

/-- **Groups do not see the order.** -/
theorem map_sortedGroups_perm {f : κ → List α → β} (hf : ∀ k as bs, as.Perm bs → f k as = f k bs) (h : xs.Perm ys) :
    (sortedGroups key xs).map (fun g => f g.1 g.2) = (sortedGroups key ys).map fun g => f g.1 g.2 := by
  rw [sortedGroups, sortedGroups, keys_perm h, List.map_map, List.map_map]
  exact List.map_congr_left fun k _ => hf k _ _ (group_perm h k)

theorem mem_keys {k : κ} : k ∈ keys key xs ↔ ∃ x ∈ xs, key x = k := by
  rw [keys, List.mem_insertionSort, List.mem_dedup, List.mem_map]

section Values

variable {ι ν : Type*} [DecidableEq ι] {k l : ι} {f : ν → ν} {z : ν} {d entries : List (ι × ν)}

/-- `d[k] = f(d.get(k, z))`: in the place of the key, or behind the others. -/
def bump (k : ι) (f : ν → ν) (z : ν) : List (ι × ν) → List (ι × ν)
  | [] => [(k, f z)]
  | e :: d => if e.1 = k then (k, f e.2) :: d else e :: bump k f z d

/-- `dict(entries)`: the last value of a key counts. -/
def dictOf (entries : List (ι × ν)) : List (ι × ν) := entries.foldl (fun d e => bump e.1 (fun _ => e.2) e.2 d) []

theorem lookup_bump : (bump k f z d).lookup l = if l = k then some (f ((d.lookup k).getD z)) else d.lookup l := by
  induction d with
  | nil =>
      by_cases h : l = k
      · simp [bump, h]
      · simp [bump, List.lookup_cons, beq_false_of_ne h, h]
  | cons e d ih =>
      obtain ⟨m, v⟩ := e
      by_cases hm : m = k
      · subst hm
        by_cases h : l = m
        · simp [bump, h]
        · simp [bump, List.lookup_cons, beq_false_of_ne h, h]
      · have hkm : (k == m) = false := beq_false_of_ne (Ne.symm hm)
        by_cases h : l = m
        · subst h
          simp [bump, hm]
        · simp only [bump, if_neg hm, List.lookup_cons, beq_false_of_ne h, hkm]
          exact ih

theorem bump_of_fresh (h : k ∉ d.map Prod.fst) : bump k f z d = d ++ [(k, f z)] := by
  induction d with
  | nil => rfl
  | cons e d ih =>
      simp only [List.map_cons, List.mem_cons, not_or] at h
      rw [bump, if_neg (Ne.symm h.1), ih h.2, List.cons_append]

theorem foldl_bump_of_nodup (h : ((d ++ entries).map Prod.fst).Nodup) :
    entries.foldl (fun d e => bump e.1 (fun _ => e.2) e.2 d) d = d ++ entries := by
  induction entries generalizing d with
  | nil => simp
  | cons e entries ih =>
      have hfresh : e.1 ∉ d.map Prod.fst := by
        intro hmem
        rw [List.map_append] at h
        exact List.disjoint_of_nodup_append h hmem (by simp)
      have hrest : ((d ++ [e] ++ entries).map Prod.fst).Nodup := by simpa using h
      rw [List.foldl_cons, bump_of_fresh hfresh, ih hrest]
      simp

theorem nodup_bump (h : (d.map Prod.fst).Nodup) : ((bump k f z d).map Prod.fst).Nodup := by
  by_cases hk : k ∈ d.map Prod.fst
  · have hsame : (bump k f z d).map Prod.fst = d.map Prod.fst := by
      clear h
      induction d with
      | nil => simp at hk
      | cons e d ih =>
          by_cases he : e.1 = k
          · simp [bump, he]
          · have hmem : k ∈ d.map Prod.fst := by simpa [Ne.symm he] using hk
            rw [bump, if_neg he, List.map_cons, List.map_cons, ih hmem]
    rw [hsame]
    exact h
  · rw [bump_of_fresh hk, List.map_append, List.map_singleton]
    exact List.nodup_append_comm.mp (List.nodup_cons.mpr ⟨hk, h⟩)

theorem mem_iff_lookup (h : (d.map Prod.fst).Nodup) {v : ν} : (k, v) ∈ d ↔ d.lookup k = some v := by
  induction d with
  | nil => simp
  | cons e d ih =>
      obtain ⟨l, w⟩ := e
      rw [List.map_cons, List.nodup_cons] at h
      by_cases hk : k = l
      · subst hk
        have hnone : (k, v) ∉ d := fun hmem => h.1 (List.mem_map.mpr ⟨(k, v), hmem, rfl⟩)
        simp [hnone, eq_comm]
      · simp [List.lookup_cons, beq_false_of_ne hk, hk, ih h.2]

theorem dictOf_of_nodup (h : (entries.map Prod.fst).Nodup) : dictOf entries = entries :=
  foldl_bump_of_nodup (by simpa using h)

end Values

section Collect

variable {ι ν σ : Type*} [DecidableEq ι] {key' : α → ι} {add : ν → α → ν} {z : ν} {k : ι} {d : List (ι × ν)}

/-- `for x in xs: d[key(x)] = add(d.get(key(x), z), x)` -/
def collect (key : α → ι) (add : ν → α → ν) (z : ν) (xs : List α) : List (ι × ν) :=
  xs.foldl (fun d x => bump (key x) (add · x) z d) []

theorem lookup_foldl_bump : (xs.foldl (fun d x => bump (key' x) (add · x) z d) d).lookup k =
    if k ∈ xs.map key' then some ((xs.filter fun x => key' x = k).foldl add ((d.lookup k).getD z))
    else d.lookup k := by
  induction xs generalizing d with
  | nil => simp
  | cons x xs ih =>
      rw [List.foldl_cons, ih, lookup_bump]
      by_cases h : k = key' x
      · subst h
        by_cases hmem : key' x ∈ xs.map key'
        · simp [hmem]
        · have hnone : xs.filter (fun y => key' y = key' x) = [] := by
            simpa [List.filter_eq_nil_iff] using hmem
          simp [hmem, hnone]
      · simp [h, Ne.symm h]

theorem nodup_collect (xs : List α) : ((collect key' add z xs).map Prod.fst).Nodup := by
  have hfold : ∀ d : List (ι × ν), (d.map Prod.fst).Nodup →
      ((xs.foldl (fun d x => bump (key' x) (add · x) z d) d).map Prod.fst).Nodup := by
    induction xs with
    | nil => exact fun d h => h
    | cons x xs ih => exact fun d h => ih _ (nodup_bump h)
  exact hfold [] List.nodup_nil

/-- **A table of groups** has the keys that occur, each with what its group is folded to. -/
theorem mem_collect {v : ν} : (k, v) ∈ collect key' add z xs ↔
    k ∈ xs.map key' ∧ v = (xs.filter fun x => key' x = k).foldl add z := by
  rw [mem_iff_lookup (nodup_collect xs), collect, lookup_foldl_bump]
  by_cases h : k ∈ xs.map key'
  · simp [h, eq_comm]
  · simp [h]

/-- A table of groups is the same up to its order when what is kept of a group does not see the order in it. -/
theorem collect_perm {f : ν → σ} (hf : ∀ as bs : List α, as.Perm bs → f (as.foldl add z) = f (bs.foldl add z))
    (h : xs.Perm ys) : ((collect key' add z xs).map fun e => (e.1, f e.2)).Perm
      ((collect key' add z ys).map fun e => (e.1, f e.2)) := by
  have hnodup : ∀ xs : List α, ((collect key' add z xs).map fun e => (e.1, f e.2)).Nodup := by
    intro xs
    refine List.Nodup.of_map Prod.fst ?_
    rw [List.map_map]
    exact nodup_collect xs
  have hmem : ∀ (xs : List α) (k : ι) (w : σ), (k, w) ∈ (collect key' add z xs).map (fun e => (e.1, f e.2)) ↔
      k ∈ xs.map key' ∧ w = f ((xs.filter fun x => key' x = k).foldl add z) := by
    intro xs k w
    simp only [List.mem_map, Prod.exists, Prod.mk.injEq]
    constructor
    · rintro ⟨k', v, hv, rfl, rfl⟩
      obtain ⟨hk, rfl⟩ := mem_collect.mp hv
      exact ⟨by simpa using hk, rfl⟩
    · rintro ⟨hk, rfl⟩
      exact ⟨k, _, mem_collect.mpr ⟨by simpa using hk, rfl⟩, rfl, rfl⟩
  refine (List.perm_ext_iff_of_nodup (hnodup xs) (hnodup ys)).mpr ?_
  rintro ⟨k, w⟩
  rw [hmem, hmem, (h.map key').mem_iff, hf _ _ (h.filter _)]

end Collect

section Totals

variable {ι M : Type*} [DecidableEq ι] [AddCommMonoid M] {k : ι} {d entries : List (ι × M)}

/-- `for k, v in entries: d[k] = d.get(k, 0) + v` -/
def addAll (d entries : List (ι × M)) : List (ι × M) := entries.foldl (fun d e => bump e.1 (· + e.2) 0 d) d

def totalAt (k : ι) (entries : List (ι × M)) : M := ((entries.filter fun e => e.1 = k).map Prod.snd).sum

theorem totalAt_append {entries' : List (ι × M)} :
    totalAt k (entries ++ entries') = totalAt k entries + totalAt k entries' := by
  simp [totalAt]

/-- **A table of totals** adds up, key by key. -/
theorem getD_lookup_addAll : ((addAll d entries).lookup k).getD 0 = (d.lookup k).getD 0 + totalAt k entries := by
  induction entries generalizing d with
  | nil => simp [addAll, totalAt]
  | cons e entries ih =>
      have hstep : addAll d (e :: entries) = addAll (bump e.1 (· + e.2) 0 d) entries := rfl
      rw [hstep, ih, lookup_bump]
      by_cases h : k = e.1
      · subst h
        simp [totalAt, add_assoc]
      · simp [totalAt, h, Ne.symm h]

theorem isSome_lookup_addAll :
    ((addAll d entries).lookup k).isSome ↔ (d.lookup k).isSome ∨ k ∈ entries.map Prod.fst := by
  induction entries generalizing d with
  | nil => simp [addAll]
  | cons e entries ih =>
      have hstep : addAll d (e :: entries) = addAll (bump e.1 (· + e.2) 0 d) entries := rfl
      rw [hstep, ih, lookup_bump, List.map_cons, List.mem_cons]
      by_cases h : k = e.1
      · simp [h]
      · simp [h]

end Totals

end Groups
