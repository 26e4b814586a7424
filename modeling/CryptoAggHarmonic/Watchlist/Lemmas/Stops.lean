import CryptoAggHarmonic.Watchlist.Reorder
import CryptoAggHarmonic.Watchlist.Lemmas.Formed

/-!
# Where a loop of updates stops

The loop over the `UPDATE`s against the rows that are left and the number of those that have been carried out.
-/

namespace CryptoAggHarmonic.Watchlist

inductive Stop
  | done
  /-- there is no such row -/
  | missing
  | failed
  deriving DecidableEq

structure Progress where
  /-- the rows that are left, as they were -/
  rest : Rows
  carried : ℕ
  stop : Stop

/-- How far the `UPDATE`s get, which one after the other fare as `asked` says. -/
def follow (asked : ℕ → Reply) (gone : ℕ → List String) : ℕ → List String → Rows → Progress
  | _, [], t => ⟨t, 0, .done⟩
  | n, id :: ids, t =>
      let t := t.drop (gone n)
      match asked n with
      | .raises => ⟨t, 0, .failed⟩
      | .lost => ⟨t, 1, .failed⟩
      | .answers =>
          if ∃ r ∈ t.rows, r.id = id then
            let p := follow asked gone (n + 1) ids t
            ⟨p.rest, p.carried + 1, p.stop⟩
          else ⟨t, 0, .missing⟩

section

variable {t : Rows} {ids : List String} {id : String} {n : ℕ} {asked : ℕ → Reply} {gone : ℕ → List String}
  {set : Item → Item} {hset : ∀ r, (set r).id = r.id}

/-! ## Rows that are deleted -/

theorem drop_rows (ids : List String) (t : Rows) : (t.drop ids).rows = t.rows.filter fun r => r.id ∉ ids := by
  induction ids generalizing t with
  | nil => simp [Rows.drop]
  | cons id ids ih =>
      change (Rows.drop ids (Table.delete t id)).rows = _
      rw [ih]
      change (t.rows.filter fun r => r.id ≠ id).filter _ = _
      rw [List.filter_filter]
      refine List.filter_congr fun r _ => ?_
      simp [Bool.and_comm]

theorem drop_sublist (ids : List String) (t : Rows) : (t.drop ids).rows.Sublist t.rows := by
  rw [drop_rows]
  exact List.filter_sublist

theorem mem_drop_or {r : Item} (ids : List String) (hr : r ∈ t.rows) : r ∈ (t.drop ids).rows ∨ r.id ∈ ids := by
  rw [drop_rows, List.mem_filter]
  by_cases hgone : r.id ∈ ids
  · exact Or.inr hgone
  · exact Or.inl ⟨hr, decide_eq_true hgone⟩

theorem drop_map : Rows.drop ids (t.map set hset) = (t.drop ids).map set hset := by
  refine Table.ext ?_
  have hid : ((fun r : Item => decide (r.id ∉ ids)) ∘ set) = fun r => decide (r.id ∉ ids) := by
    funext r
    dsimp only [Function.comp]
    rw [hset]
  rw [drop_rows, Table.map_rows, Table.map_rows, drop_rows, List.filter_map, hid]

attribute [local simp] follow

theorem follow_map (ids : List String) (n : ℕ) (t : Rows) : follow asked gone n ids (t.map set hset) =
    ⟨(follow asked gone n ids t).rest.map set hset, (follow asked gone n ids t).carried,
      (follow asked gone n ids t).stop⟩ := by
  induction ids generalizing n t with
  | nil => rfl
  | cons id ids ih =>
      have hfound : (∃ r ∈ ((t.drop (gone n)).map set hset).rows, r.id = id) ↔
          ∃ r ∈ (t.drop (gone n)).rows, r.id = id := by
        simp [Table.map_rows, hset]
      simp only [follow, drop_map, hfound, ih]
      cases asked n with
      | raises => rfl
      | lost => rfl
      | answers =>
          dsimp only
          split_ifs <;> rfl

theorem follow_sublist (ids : List String) (n : ℕ) (t : Rows) :
    (follow asked gone n ids t).rest.rows.Sublist t.rows := by
  induction ids generalizing n t with
  | nil => exact List.Sublist.refl _
  | cons id ids ih =>
      have hdrop : (t.drop (gone n)).rows.Sublist t.rows := drop_sublist ..
      simp only [follow]
      cases asked n with
      | raises => exact hdrop
      | lost => exact hdrop
      | answers =>
          dsimp only
          split_ifs
          · exact (ih _ _).trans hdrop
          · exact hdrop

/-- A row that is not left has been deleted. -/
theorem follow_rest {r : Item} (ids : List String) (n : ℕ) (t : Rows) (hr : r ∈ t.rows) :
    r ∈ (follow asked gone n ids t).rest.rows ∨ ∃ m, r.id ∈ gone m := by
  induction ids generalizing n t with
  | nil => exact Or.inl hr
  | cons id ids ih =>
      rcases mem_drop_or (gone n) hr with hleft | hgone
      · simp only [follow]
        cases asked n with
        | raises => exact Or.inl hleft
        | lost => exact Or.inl hleft
        | answers =>
            dsimp only
            split_ifs
            · exact ih _ _ hleft
            · exact Or.inl hleft
      · exact Or.inr ⟨n, hgone⟩

theorem follow_done (ids : List String) (n : ℕ) (t : Rows) (h : (follow asked gone n ids t).stop = .done) :
    (follow asked gone n ids t).carried = ids.length := by
  induction ids generalizing n t with
  | nil => rfl
  | cons id ids ih =>
      simp only [follow] at h ⊢
      cases hasked : asked n with
      | raises => simp [hasked] at h
      | lost => simp [hasked] at h
      | answers =>
          simp only [hasked] at h ⊢
          split_ifs at h ⊢
          exact congrArg (· + 1) (ih _ _ h)

/-- Where nothing fails and nothing is deleted. -/
theorem follow_answered (ids : List String) (n : ℕ) (t : Rows) :
    (follow (fun _ => .answers) (fun _ => []) n ids t).rest = t ∧
    ((follow (fun _ => .answers) (fun _ => []) n ids t).stop = .done ↔ ∀ id ∈ ids, ∃ r ∈ t.rows, r.id = id) := by
  induction ids generalizing n with
  | nil => simp
  | cons id ids ih =>
      have hdrop : Rows.drop [] t = t := rfl
      simp only [follow, hdrop, List.forall_mem_cons]
      split_ifs with hfound
      · exact ⟨(ih _).1, (ih _).2.trans (and_iff_right hfound).symm⟩
      · simp [hfound]

/-! ## The loop -/

section

variable {ε α : Type} {why : ε → Stop} {patch : ℕ → Rows → String → ℤ → Rows × Except ε α}

def stopOf (why : ε → Stop) : Except ε α → Stop
  | .ok _ => .done
  | .error e => why e

def Reply.ending (t : Rows) (id : String) : Reply → Stop
  | .answers => if ∃ r ∈ t.rows, r.id = id then .done else .missing
  | .lost => .failed
  | .raises => .failed

/-- What an `UPDATE` does to the rows, and how it ends. -/
structure Patches (asked : Reply) (why : ε → Stop) (t : Rows) (id : String) (k : ℤ) (done : Rows × Except ε α) :
    Prop where
  rows : done.1 = if asked = .raises then t else Table.update t id (Item.update ⟨none, some k⟩) fun _ => rfl
  stop : stopOf why done.2 = asked.ending t id

theorem update_eq_map (hset : ∀ r, (set r).id = r.id) :
    Table.update t id set hset =
      t.map (fun r => if r.id = id then set r else r) (fun r => by split_ifs <;> simp [hset]) :=
  Table.ext rfl

theorem map_placed_nil (first : ℤ) (rows : List Item) : rows.map (placed first []) = rows :=
  (List.map_congr_left fun _ _ => placed_of_notMem List.not_mem_nil).trans (List.map_id rows)

theorem patchEach_follow (asked : ℕ → Reply) (gone : ℕ → List String) (hwhy : ∀ e, why e ≠ .done) (hids : ids.Nodup)
    (hpatch : ∀ n t, ∀ id ∈ ids, Patches (asked n) why (t.drop (gone n)) id n (patch n t id n)) (n : ℕ) (t : Rows) :
    (patchEach patch n (patches n ids) t).1.rows =
      (follow asked gone n ids t).rest.rows.map (placed n (ids.take (follow asked gone n ids t).carried)) ∧
    stopOf why (patchEach patch n (patches n ids) t).2 = (follow asked gone n ids t).stop := by
  induction ids generalizing n t with
  | nil => exact ⟨(map_placed_nil n t.rows).symm, rfl⟩
  | cons id ids ih =>
      rw [List.nodup_cons] at hids
      obtain ⟨hrows, hstop⟩ := hpatch n t id List.mem_cons_self
      have hrest := ih hids.2 (fun n t id hid => hpatch n t id (List.mem_cons_of_mem _ hid)) (n + 1)
      have hset : ∀ r, (Item.update ⟨none, some (n : ℤ)⟩ r).id = r.id := fun _ => rfl
      have hplaced : ∀ ids : List String, id ∉ ids → ∀ rows : List Item,
          (rows.map fun r => if r.id = id then r.update ⟨none, some (n : ℤ)⟩ else r).map (placed (n + 1) ids) =
            rows.map (placed n (id :: ids)) := by
        intro ids hid rows
        rw [List.map_map]
        exact List.map_congr_left fun r _ => placed_cons hid
      have hnext : (n : ℤ) + 1 = (n + 1 : ℕ) := rfl
      rw [patches, patchEach, hnext]
      simp only [follow]
      cases hasked : asked n with
      | raises =>
          rw [hasked] at hrows hstop
          rw [if_pos rfl] at hrows
          rcases hres : patch n t id n with ⟨t', e | r⟩
          · rw [hres] at hrows hstop
            exact ⟨(congrArg Table.rows hrows).trans (map_placed_nil n _).symm, hstop⟩
          · rw [hres] at hstop
            cases hstop
      | lost =>
          rw [hasked] at hrows hstop
          rw [if_neg (by simp)] at hrows
          have hone := hplaced [] List.not_mem_nil (t.drop (gone n)).rows
          rw [map_placed_nil] at hone
          rcases hres : patch n t id n with ⟨t', e | r⟩
          · rw [hres] at hrows hstop
            exact ⟨(congrArg Table.rows hrows).trans hone, hstop⟩
          · rw [hres] at hstop
            cases hstop
      | answers =>
          rw [hasked] at hrows hstop
          rw [if_neg (by simp)] at hrows
          dsimp only [Reply.ending] at hstop ⊢
          by_cases hfound : ∃ r ∈ (t.drop (gone n)).rows, r.id = id
          · rw [if_pos hfound] at hstop ⊢
            rcases hres : patch n t id n with ⟨t', e | r⟩
            · rw [hres] at hstop
              exact absurd hstop (hwhy e)
            · rw [hres] at hrows
              dsimp only at hrows ⊢
              obtain ⟨hmap, hend⟩ := hrest t'
              rw [hrows, update_eq_map hset, follow_map] at hmap hend
              have hall : ((follow asked gone (n + 1) ids (t.drop (gone n))).rest.rows.map fun r =>
                  if r.id = id then r.update ⟨none, some (n : ℤ)⟩ else r).map (placed (n + 1) (ids.take
                    (follow asked gone (n + 1) ids (t.drop (gone n))).carried)) =
                  (follow asked gone (n + 1) ids (t.drop (gone n))).rest.rows.map (placed n ((id :: ids).take
                    ((follow asked gone (n + 1) ids (t.drop (gone n))).carried + 1))) :=
                hplaced _ (fun hid => hids.1 (List.mem_of_mem_take hid)) _
              rw [← hall]
              rw [← update_eq_map hset, ← hrows] at hmap hend
              rcases hloop : patchEach patch (n + 1) (patches (n + 1 : ℕ) ids) t' with ⟨t'', e | rs⟩
              · rw [hloop] at hmap hend
                exact ⟨hmap, hend⟩
              · rw [hloop] at hmap hend
                exact ⟨hmap, hend⟩
          · rw [if_neg hfound] at hstop ⊢
            rcases hres : patch n t id n with ⟨t', e | r⟩
            · rw [hres] at hrows hstop
              have hnone : (t.drop (gone n)).get? id = none :=
                Table.get?_eq_none.mpr fun r hr hid => hfound ⟨r, hr, hid⟩
              refine ⟨?_, hstop⟩
              refine (congrArg Table.rows hrows).trans ((Table.update_of_none hnone).trans ?_)
              exact (map_placed_nil n _).symm
            · rw [hres] at hstop
              cases hstop

end

end

end CryptoAggHarmonic.Watchlist
