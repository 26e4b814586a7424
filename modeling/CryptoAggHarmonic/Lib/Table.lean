import Mathlib.Tactic.SplitIfs
import Mathlib.Data.List.Nodup
import Mathlib.Algebra.BigOperators.Group.List.Basic
import Mathlib.Tactic.Abel

/-!
# Rows with a key

An `UPDATE … WHERE key = k` on a table that is a list of rows, against the first row with that key.
-/

namespace Rows

variable {α β : Type*} [DecidableEq β] {key : α → β} {k : β} {set : α → α} {rows : List α}

theorem find?_update (hset : ∀ x, key (set x) = key x) :
    (rows.map fun x => if key x = k then set x else x).find? (fun x => key x = k) =
      (rows.find? fun x => key x = k).map set := by
  rw [List.find?_map]
  have hkey : ((fun x => decide (key x = k)) ∘ fun x => if key x = k then set x else x) =
      fun x => decide (key x = k) := by
    funext x
    dsimp only [Function.comp]
    split_ifs with h
    · rw [hset]
    · rfl
  rw [hkey]
  cases hfound : rows.find? fun x => key x = k with
  | none => rfl
  | some x =>
      have hx : key x = k := by simpa using List.find?_some hfound
      exact congrArg some (if_pos hx)

theorem mem_update {y : α} : y ∈ (rows.map fun x => if key x = k then set x else x) ↔
    ∃ x ∈ rows, y = if key x = k then set x else x := by
  simp [eq_comm]

end Rows

/-!
# Tables with a primary key

The rows of a table in the order they were inserted, no two with the same key. `INSERT`, `UPDATE … WHERE key = k`
and `DELETE … WHERE key = k` keep that, so that a row is known by its key.
-/

structure Table {α β : Type*} (key : α → β) where
  rows : List α
  keys : (rows.map key).Nodup

namespace Table

variable {α β : Type*} {key : α → β}

def empty : Table key := ⟨[], List.nodup_nil⟩

variable [DecidableEq β]

def get? (t : Table key) (k : β) : Option α := t.rows.find? fun x => key x = k

/-- `INSERT`: nothing when the key is taken. -/
def insert? (t : Table key) (x : α) : Option (Table key) :=
  if h : key x ∈ t.rows.map key then none
  else
    some ⟨t.rows ++ [x], by
      rw [List.map_append, List.map_singleton]
      exact List.nodup_append_comm.mp (List.nodup_cons.mpr ⟨h, t.keys⟩)⟩

theorem map_key_update {set : α → α} (hset : ∀ x, key (set x) = key x) (rows : List α) (k : β) :
    (rows.map fun x => if key x = k then set x else x).map key = rows.map key := by
  rw [List.map_map]
  refine List.map_congr_left fun x _ => ?_
  dsimp only [Function.comp]
  split_ifs
  · exact hset x
  · rfl

def update (t : Table key) (k : β) (set : α → α) (hset : ∀ x, key (set x) = key x) : Table key :=
  ⟨t.rows.map fun x => if key x = k then set x else x, by rw [map_key_update hset]; exact t.keys⟩

/-- `dict[key] = value`: in the place of the row with its key, or behind the others. -/
def put (t : Table key) (x : α) : Table key :=
  if h : key x ∈ t.rows.map key then
    ⟨t.rows.map fun y => if key y = key x then x else y, by
      have hsame : (t.rows.map fun y => if key y = key x then x else y).map key = t.rows.map key := by
        rw [List.map_map]
        refine List.map_congr_left fun y _ => ?_
        dsimp only [Function.comp]
        split_ifs with hkey
        · exact hkey.symm
        · rfl
      rw [hsame]
      exact t.keys⟩
  else
    ⟨t.rows ++ [x], by
      rw [List.map_append, List.map_singleton]
      exact List.nodup_append_comm.mp (List.nodup_cons.mpr ⟨h, t.keys⟩)⟩

/-- An `UPDATE` of every row. -/
def map (t : Table key) (set : α → α) (hset : ∀ x, key (set x) = key x) : Table key :=
  ⟨t.rows.map set, by
    have hsame : (t.rows.map set).map key = t.rows.map key := by
      rw [List.map_map]
      exact List.map_congr_left fun x _ => hset x
    rw [hsame]
    exact t.keys⟩

def delete (t : Table key) (k : β) : Table key :=
  ⟨t.rows.filter fun x => key x ≠ k, t.keys.sublist (List.filter_sublist.map key)⟩

section

variable {t t' : Table key} {k : β} {x : α} {set : α → α} {hset : ∀ x, key (set x) = key x}

theorem get?_eq_some : t.get? k = some x ↔ x ∈ t.rows ∧ key x = k := by
  constructor
  · intro h
    exact ⟨List.mem_of_find?_eq_some h, by simpa using List.find?_some h⟩
  · rintro ⟨hx, rfl⟩
    cases hfound : t.rows.find? fun y => key y = key x with
    | none => simp [List.find?_eq_none] at hfound; exact absurd rfl (hfound x hx)
    | some y =>
        have hy : key y = key x := by simpa using List.find?_some hfound
        have hyx : y = x := List.inj_on_of_nodup_map t.keys (List.mem_of_find?_eq_some hfound) hx hy
        rw [get?, hfound, hyx]

theorem get?_eq_none : t.get? k = none ↔ ∀ x ∈ t.rows, key x ≠ k := by
  simp [get?, List.find?_eq_none]

theorem insert?_eq_some (h : t.insert? x = some t') : t'.rows = t.rows ++ [x] ∧ ∀ y ∈ t.rows, key y ≠ key x := by
  unfold insert? at h
  split_ifs at h with hfree
  cases h
  refine ⟨rfl, fun y hy heq => hfree ?_⟩
  exact List.mem_map.mpr ⟨y, hy, heq⟩

theorem get?_insert?_ne_none (h : t.insert? x = some t') (hk : t.get? k ≠ none) : t'.get? k ≠ none := by
  simp only [ne_eq, get?_eq_none, (insert?_eq_some h).1, List.mem_append] at hk ⊢
  exact fun hall => hk fun y hy => hall y (Or.inl hy)

theorem insert?_of_fresh (h : ∀ y ∈ t.rows, key y ≠ key x) : ∃ t', t.insert? x = some t' := by
  refine ⟨_, dif_neg fun hmem => ?_⟩
  obtain ⟨y, hy, heq⟩ := List.mem_map.mp hmem
  exact h y hy heq

@[simp] theorem update_rows : (t.update k set hset).rows = t.rows.map fun x => if key x = k then set x else x := rfl

theorem get?_update : (t.update k set hset).get? k = (t.get? k).map set := by
  cases hx : t.get? k with
  | none =>
      rw [Option.map_none, get?_eq_none]
      rw [get?_eq_none] at hx
      intro y hy
      obtain ⟨x, hmem, rfl⟩ := Rows.mem_update.mp hy
      rw [if_neg (hx x hmem)]
      exact hx x hmem
  | some x =>
      obtain ⟨hmem, rfl⟩ := get?_eq_some.mp hx
      exact get?_eq_some.mpr ⟨Rows.mem_update.mpr ⟨x, hmem, by rw [if_pos rfl]⟩, hset x⟩

theorem get?_update_of_ne {l : β} (h : l ≠ k) : (t.update k set hset).get? l = t.get? l := by
  cases hx : t.get? l with
  | none =>
      rw [get?_eq_none] at hx ⊢
      intro y hy
      obtain ⟨x, hmem, rfl⟩ := Rows.mem_update.mp hy
      split_ifs
      · rw [hset]; exact hx x hmem
      · exact hx x hmem
  | some x =>
      obtain ⟨hmem, rfl⟩ := get?_eq_some.mp hx
      exact get?_eq_some.mpr ⟨Rows.mem_update.mpr ⟨x, hmem, by rw [if_neg h]⟩, rfl⟩

theorem get?_update_ne_none {l : β} (hset : ∀ x, key (set x) = key x) (h : t.get? l ≠ none) :
    (t.update k set hset).get? l ≠ none := by
  by_cases hl : l = k
  · subst hl
    rw [get?_update]
    simpa using h
  · rw [get?_update_of_ne hl]
    exact h

theorem update_of_none (h : t.get? k = none) : (t.update k set hset).rows = t.rows := by
  rw [get?_eq_none] at h
  exact (List.map_congr_left fun x hx => if_neg (h x hx)).trans (List.map_id t.rows)

/-- A total over the rows after an `UPDATE` of one of them. -/
theorem sum_update {M : Type*} [AddCommGroup M] (hset : ∀ x, key (set x) = key x) (f : α → M)
    (h : t.get? k = some x) :
    ((t.update k set hset).rows.map f).sum = (t.rows.map f).sum - f x + f (set x) := by
  obtain ⟨hmem, rfl⟩ := get?_eq_some.mp h
  have hkeys := t.keys
  rw [update_rows]
  generalize t.rows = rows at hmem hkeys
  induction rows with
  | nil => cases hmem
  | cons y rows ih =>
      rw [List.map_cons, List.nodup_cons] at hkeys
      simp only [List.map_cons, List.sum_cons]
      rcases List.mem_cons.mp hmem with rfl | hmem
      · have hrest : (rows.map fun y => if key y = key x then set y else y) = rows := by
          refine (List.map_congr_left fun y hy => if_neg ?_).trans (List.map_id rows)
          intro heq
          exact hkeys.1 (heq ▸ List.mem_map_of_mem hy)
        rw [hrest, if_pos rfl]
        abel
      · have hne : key y ≠ key x := fun heq => hkeys.1 (heq ▸ List.mem_map_of_mem hmem)
        rw [if_neg hne, ih hmem hkeys.2]
        abel

omit [DecidableEq β] in
theorem ext (h : t.rows = t'.rows) : t = t' := by
  cases t
  cases t'
  cases h
  rfl

omit [DecidableEq β] in
theorem map_rows : (t.map set hset).rows = t.rows.map set := rfl

theorem get?_map (hset : ∀ x, key (set x) = key x) : (t.map set hset).get? k = (t.get? k).map set := by
  cases hx : t.get? k with
  | none =>
      rw [Option.map_none, get?_eq_none]
      rw [get?_eq_none] at hx
      intro y hy
      obtain ⟨x, hmem, rfl⟩ := List.mem_map.mp hy
      rw [hset]
      exact hx x hmem
  | some x =>
      obtain ⟨hmem, rfl⟩ := get?_eq_some.mp hx
      exact get?_eq_some.mpr ⟨List.mem_map_of_mem hmem, hset x⟩

theorem put_rows_of_fresh (h : ∀ y ∈ t.rows, key y ≠ key x) : (t.put x).rows = t.rows ++ [x] := by
  unfold put
  rw [dif_neg]
  rw [List.mem_map]
  rintro ⟨y, hy, heq⟩
  exact h y hy heq

theorem mem_put {y : α} : y ∈ (t.put x).rows ↔ y = x ∨ y ∈ t.rows ∧ key y ≠ key x := by
  by_cases hkey : key x ∈ t.rows.map key
  · obtain ⟨z, hz, hzx⟩ := List.mem_map.mp hkey
    have hrows : (t.put x).rows = t.rows.map fun y => if key y = key x then x else y := by
      unfold put
      rw [dif_pos hkey]
    rw [hrows, List.mem_map]
    constructor
    · rintro ⟨u, hu, rfl⟩
      split_ifs with hux
      · exact Or.inl rfl
      · exact Or.inr ⟨hu, hux⟩
    · rintro (rfl | ⟨hy, hne⟩)
      · exact ⟨z, hz, if_pos hzx⟩
      · exact ⟨y, hy, if_neg hne⟩
  · have hfresh : ∀ y ∈ t.rows, key y ≠ key x := fun y hy heq => hkey (List.mem_map.mpr ⟨y, hy, heq⟩)
    rw [put_rows_of_fresh hfresh, List.mem_append, List.mem_singleton]
    constructor
    · rintro (hy | rfl)
      · exact Or.inr ⟨hy, hfresh y hy⟩
      · exact Or.inl rfl
    · rintro (rfl | ⟨hy, -⟩)
      · exact Or.inr rfl
      · exact Or.inl hy

theorem get?_put : (t.put x).get? (key x) = some x := get?_eq_some.mpr ⟨mem_put.mpr (Or.inl rfl), rfl⟩

theorem get?_put_of_ne (h : k ≠ key x) : (t.put x).get? k = t.get? k := by
  cases hy : t.get? k with
  | none =>
      rw [get?_eq_none] at hy ⊢
      intro y hmem
      rcases mem_put.mp hmem with rfl | ⟨hmem, -⟩
      · exact h.symm
      · exact hy y hmem
  | some y =>
      obtain ⟨hmem, rfl⟩ := get?_eq_some.mp hy
      exact get?_eq_some.mpr ⟨mem_put.mpr (Or.inr ⟨hmem, h⟩), rfl⟩

theorem mem_delete : x ∈ (t.delete k).rows ↔ x ∈ t.rows ∧ key x ≠ k := by
  simp [delete]

end

end Table
