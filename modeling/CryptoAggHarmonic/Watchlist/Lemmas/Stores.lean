import CryptoAggHarmonic.Watchlist.Spec

/-!
# The rows in Redis

The data shows a table of items when every market has the items of that market, as they were added. One lemma for each
operation: what it does to such data it does to the table.
-/

namespace CryptoAggHarmonic.Watchlist

section

variable {data : RedisData} {t t' : Table Item.id} {i r : Item} {m market itemId : String} {rows rows' : List Item}
  {e : String × List Item} {ps : List (String × ℤ)} {set : Item → Item}

theorem rowsOf_put : RedisData.rowsOf (data.put (market, rows)) m = if m = market then rows else data.rowsOf m := by
  unfold RedisData.rowsOf
  split_ifs with hm
  · subst hm
    rw [Table.get?_put]
    rfl
  · rw [Table.get?_put_of_ne (x := (market, rows)) hm]

theorem rowsOf_of_mem (he : e ∈ data.rows) : data.rowsOf e.1 = e.2 := by
  unfold RedisData.rowsOf
  rw [Table.get?_eq_some.mpr ⟨he, rfl⟩]
  rfl

theorem rowsOf_of_none (h : data.get? market = none) : data.rowsOf market = [] := by
  unfold RedisData.rowsOf
  rw [h]
  rfl

theorem mem_of_mem_rowsOf (hr : r ∈ data.rowsOf market) : (market, data.rowsOf market) ∈ data.rows := by
  cases he : data.get? market with
  | none =>
      rw [rowsOf_of_none he] at hr
      cases hr
  | some e =>
      obtain ⟨hmem, rfl⟩ := Table.get?_eq_some.mp he
      rw [rowsOf_of_mem hmem]
      exact hmem

/-- What an operation finds is a row of the fallback, in its market. -/
theorem locate_eq_some (h : data.locate itemId = some (e, r)) : e ∈ data.rows ∧ r ∈ e.2 ∧ r.id = itemId := by
  obtain ⟨e', he, hr⟩ := List.exists_of_findSome?_eq_some h
  rw [Option.map_eq_some_iff] at hr
  obtain ⟨r', hr, heq⟩ := hr
  cases heq
  exact ⟨he, List.mem_of_find?_eq_some hr, by simpa using List.find?_some hr⟩

theorem locate_eq_none (h : data.locate itemId = none) (hr : r ∈ data.rowsOf market) : r.id ≠ itemId := by
  have hnone := List.findSome?_eq_none_iff.mp h _ (mem_of_mem_rowsOf hr)
  rw [Option.map_eq_none_iff, List.find?_eq_none] at hnone
  exact fun hid => hnone r hr (decide_eq_true hid)

/-! ## One operation -/

theorem patched_of_notMem (h : ∀ p ∈ ps, p.1 ≠ r.id) : patched ps r = r := by
  induction ps with
  | nil => rfl
  | cons p ps ih =>
      have hfirst : ¬ r.id = p.1 := Ne.symm (h p List.mem_cons_self)
      change patched ps (if r.id = p.1 then _ else r) = r
      rw [if_neg hfirst]
      exact ih fun q hq => h q (List.mem_cons_of_mem _ hq)

/-- The loop over the patches finds a row for each of them, or raises. -/
theorem patchRows_eq_ok (h : RedisData.patchRows ps rows = .ok rows') :
    rows' = rows.map (patched ps) ∧ ∀ p ∈ ps, ∃ r ∈ rows, r.id = p.1 := by
  induction ps generalizing rows with
  | nil =>
      cases h
      exact ⟨(List.map_id _).symm, by simp⟩
  | cons p ps ih =>
      rw [RedisData.patchRows] at h
      split_ifs at h with hrow
      obtain ⟨hrows, hothers⟩ := ih h
      rw [List.map_map] at hrows
      refine ⟨hrows, fun q hq => ?_⟩
      rcases List.mem_cons.mp hq with rfl | hq
      · exact hrow
      · obtain ⟨r, hr, hid⟩ := hothers q hq
        obtain ⟨r₀, hr₀, rfl⟩ := List.mem_map.mp hr
        refine ⟨r₀, hr₀, ?_⟩
        rw [← hid]
        split_ifs <;> rfl

theorem reorder_eq_ok {sorted : List Item} (h : (data.reorder market ps).2 = .ok sorted) :
    (∀ m, (data.reorder market ps).1.rowsOf m = if m = market then (data.rowsOf m).map (patched ps) else data.rowsOf m) ∧
      ∀ p ∈ ps, ∃ r ∈ data.rowsOf market, r.id = p.1 := by
  unfold RedisData.reorder at h ⊢
  cases hrows : RedisData.patchRows ps (data.rowsOf market) with
  | error e =>
      rw [hrows] at h
      cases h
  | ok rows =>
      obtain ⟨rfl, hfound⟩ := patchRows_eq_ok hrows
      refine ⟨fun m => ?_, hfound⟩
      dsimp only
      cases he : data.get? market with
      | none =>
          dsimp only
          split_ifs with hm
          · rw [hm, rowsOf_of_none he, List.map_nil]
          · rfl
      | some e =>
          dsimp only
          rw [rowsOf_put]
          split_ifs with hm
          · rw [hm]
          · rfl

theorem create_eq_ok (h : (data.create i).2 = .ok r) :
    r = i ∧ (data.create i).1 = data.put (i.market, data.rowsOf i.market ++ [i]) ∧
      ∀ x ∈ data.rowsOf i.market, x.symbol ≠ i.symbol := by
  unfold RedisData.create at h ⊢
  dsimp only at h ⊢
  split_ifs at h ⊢ with hdup hfull
  cases h
  exact ⟨rfl, rfl, fun x hx hsymbol => hdup ⟨x, hx, hsymbol⟩⟩

/-! ## The table -/

def RedisData.Shows (data : RedisData) (t : Table Item.id) : Prop :=
  ∀ market, data.rowsOf market = t.rows.filter fun i => i.market = market

namespace RedisData.Shows

variable (h : data.Shows t)

include h

theorem mem_rowsOf : r ∈ data.rowsOf market ↔ r ∈ t.rows ∧ r.market = market := by
  rw [h market, List.mem_filter, decide_eq_true_eq]

theorem locate (itemId : String) : data.locate itemId = none ∧ t.get? itemId = none ∨
    ∃ r, data.locate itemId = some ((r.market, data.rowsOf r.market), r) ∧ t.get? itemId = some r := by
  cases hfound : data.locate itemId with
  | none =>
      refine Or.inl ⟨rfl, Table.get?_eq_none.mpr fun r hr => ?_⟩
      exact locate_eq_none hfound (h.mem_rowsOf.mpr ⟨hr, rfl⟩)
  | some located =>
      obtain ⟨e, r⟩ := located
      obtain ⟨he, hr, hid⟩ := locate_eq_some hfound
      have hin : r ∈ data.rowsOf e.1 := (rowsOf_of_mem he).symm ▸ hr
      obtain ⟨hmem, hmarket⟩ := h.mem_rowsOf.mp hin
      refine Or.inr ⟨r, ?_, Table.get?_eq_some.mpr ⟨hmem, hid⟩⟩
      rw [hmarket, rowsOf_of_mem he]

/-- The other markets do not have the row. -/
theorem rowsOf_of_ne (hr : t.get? itemId = some r) (hm : m ≠ r.market) : ∀ x ∈ data.rowsOf m, x.id ≠ itemId := by
  rintro x hx rfl
  obtain ⟨hmem, hmarket⟩ := h.mem_rowsOf.mp hx
  have hsame : t.get? x.id = some x := Table.get?_eq_some.mpr ⟨hmem, rfl⟩
  rw [hsame, Option.some.injEq] at hr
  exact hm (hr ▸ hmarket.symm)

theorem put_append (ht : t'.rows = t.rows ++ [i]) :
    RedisData.Shows (data.put (i.market, data.rowsOf i.market ++ [i])) t' := by
  intro m
  rw [ht, rowsOf_put, List.filter_append, h, h]
  by_cases hm : m = i.market
  · subst hm
    rw [if_pos rfl, List.filter_cons_of_pos (by simp), List.filter_nil]
  · rw [if_neg hm, List.filter_cons_of_neg (by simpa using Ne.symm hm), List.filter_nil, List.append_nil]

theorem update (itemId : String) (set : Item → Item) (hid : ∀ r, (set r).id = r.id)
    (hmarket : ∀ r, (set r).market = r.market) :
    t.get? itemId = none ∧ data.update itemId set = (data, .error (.notFound itemId)) ∨
    ∃ r, t.get? itemId = some r ∧ (data.update itemId set).1.Shows (Table.update t itemId set hid) ∧
      (data.update itemId set).2 = .ok (set r) := by
  unfold RedisData.update
  rcases h.locate itemId with ⟨hnone, hitem⟩ | ⟨r, hsome, hitem⟩
  · rw [hnone]
    exact Or.inl ⟨hitem, rfl⟩
  · rw [hsome]
    refine Or.inr ⟨r, hitem, fun m => ?_, rfl⟩
    have hcomp : ((fun x : Item => decide (x.market = m)) ∘ fun x => if x.id = itemId then set x else x) =
        fun x => decide (x.market = m) := by
      funext x
      dsimp only [Function.comp]
      split_ifs
      · rw [hmarket]
      · rfl
    rw [Table.update_rows, List.filter_map, hcomp, ← h, rowsOf_put]
    split_ifs with hm
    · rw [hm]
    · refine ((List.map_congr_left fun x hx => ?_).trans (List.map_id _)).symm
      exact if_neg (h.rowsOf_of_ne hitem hm x hx)

theorem delete (itemId : String) :
    t.get? itemId = none ∧ data.delete itemId = (data, .error (.notFound itemId)) ∨
    ∃ r, t.get? itemId = some r ∧ (data.delete itemId).1.Shows (Table.delete t itemId) ∧
      (data.delete itemId).2 = .ok () := by
  unfold RedisData.delete
  rcases h.locate itemId with ⟨hnone, hitem⟩ | ⟨r, hsome, hitem⟩
  · rw [hnone]
    exact Or.inl ⟨hitem, rfl⟩
  · rw [hsome]
    refine Or.inr ⟨r, hitem, fun m => ?_, rfl⟩
    have hcomm : ((Table.delete t itemId).rows.filter fun x => x.market = m) =
        (data.rowsOf m).filter fun x => x.id ≠ itemId := by
      rw [h]
      exact List.filter_comm ..
    rw [hcomm, rowsOf_put]
    split_ifs with hm
    · rw [hm]
    · refine (List.filter_eq_self.mpr fun x hx => ?_).symm
      exact decide_eq_true (h.rowsOf_of_ne hitem hm x hx)

theorem reorder {sorted : List Item} (hok : (data.reorder market ps).2 = .ok sorted) :
    (data.reorder market ps).1.Shows (t.map (patched ps) (patched_id ps)) := by
  obtain ⟨hrows, hfound⟩ := reorder_eq_ok hok
  intro m
  have hcomp : ((fun x : Item => decide (x.market = m)) ∘ patched ps) = fun x => decide (x.market = m) := by
    funext x
    exact congrArg (fun m' => decide (m' = m)) (congrArg (·.2.1) (patched_identity ps x))
  rw [hrows, Table.map_rows, List.filter_map, hcomp, ← h]
  split_ifs with hm
  · rfl
  · refine ((List.map_congr_left fun x hx => patched_of_notMem fun p hp hid => ?_).trans (List.map_id _)).symm
    obtain ⟨r, hr, hrid⟩ := hfound p hp
    obtain ⟨hmem, hmarket⟩ := h.mem_rowsOf.mp hr
    refine h.rowsOf_of_ne (Table.get?_eq_some.mpr ⟨hmem, rfl⟩) ?_ x hx (hid.symm.trans hrid.symm)
    rw [hmarket]
    exact hm

end RedisData.Shows

end

/-!
# The order of a request

What the loops over the patches of a request leave behind, and that the items of the market then stand in its order.
-/

section

variable {ids : List String} {id : String} {first : ℤ} {market : String} {rows sorted : List Item} {r : Item}

/-! ## Positions -/

theorem placed_market : (placed first ids r).market = r.market := congrArg Prod.fst (placed_pair first ids r)

theorem placed_of_mem (h : r.id ∈ ids) : placed first ids r = { r with sortIndex := first + ids.idxOf r.id } := if_pos h

theorem placed_of_notMem (h : r.id ∉ ids) : placed first ids r = r := if_neg h

/-- The first patch, and the others behind it. -/
theorem placed_cons (h : id ∉ ids) : placed (first + 1) ids (if r.id = id then r.update ⟨none, some first⟩ else r) =
    placed first (id :: ids) r := by
  split_ifs with hid
  · have hrest : (r.update ⟨none, some first⟩).id ∉ ids := by
      change r.id ∉ ids
      rw [hid]
      exact h
    have hposition : (id :: ids).idxOf r.id = 0 := by rw [hid, List.idxOf_cons_self]
    rw [placed_of_notMem hrest, placed_of_mem (hid ▸ List.mem_cons_self), hposition, Nat.cast_zero, add_zero]
    rfl
  · by_cases hmem : r.id ∈ ids
    · rw [placed_of_mem hmem, placed_of_mem (List.mem_cons_of_mem _ hmem), List.idxOf_cons_ne ids (Ne.symm hid)]
      rw [Nat.cast_succ, add_assoc, add_comm (1 : ℤ)]
    · have hcons : r.id ∉ id :: ids := List.not_mem_cons_of_ne_of_not_mem hid hmem
      rw [placed_of_notMem hmem, placed_of_notMem hcons]

theorem mem_patches {p : String × ℤ} (h : p ∈ patches first ids) :
    p.1 ∈ ids ∧ first ≤ p.2 ∧ p.2 < first + ids.length := by
  induction ids generalizing first with
  | nil => cases h
  | cons id ids ih =>
      rw [List.length_cons, Nat.cast_succ]
      rcases List.mem_cons.mp h with rfl | h
      · exact ⟨List.mem_cons_self, le_refl _, by omega⟩
      · obtain ⟨hmem, hlow, hhigh⟩ := ih h
        exact ⟨List.mem_cons_of_mem _ hmem, by omega, by omega⟩

theorem pairwise_idxOf (h : ids.Nodup) : ids.Pairwise fun a b => ids.idxOf a < ids.idxOf b := by
  rw [List.pairwise_iff_getElem]
  intro i j hi hj hlt
  rw [h.idxOf_getElem i hi, h.idxOf_getElem j hj]
  exact hlt

/-! ## The loops -/

theorem patchRows_patches (hids : ids.Nodup) (hrows : ∀ id ∈ ids, ∃ r ∈ rows, r.id = id) :
    RedisData.patchRows (patches first ids) rows = .ok (rows.map (placed first ids)) := by
  induction ids generalizing first rows with
  | nil =>
      have hid : rows.map (placed first []) = rows := by
        refine (List.map_congr_left fun r _ => ?_).trans (List.map_id rows)
        exact placed_of_notMem List.not_mem_nil
      rw [patches, RedisData.patchRows, hid]
  | cons id ids ih =>
      rw [List.nodup_cons] at hids
      rw [patches, RedisData.patchRows, if_pos (hrows id List.mem_cons_self), ih hids.2, List.map_map]
      · refine congrArg Except.ok (List.map_congr_left fun r _ => ?_)
        exact placed_cons hids.1
      · intro other hother
        obtain ⟨r, hr, rfl⟩ := hrows other (List.mem_cons_of_mem _ hother)
        refine ⟨_, List.mem_map_of_mem hr, ?_⟩
        split_ifs <;> rfl

/-- A loop of statements that find their rows. -/
theorem patchEach_patches {ε : Type} {patch : ℕ → Table Item.id → String → ℤ → Table Item.id × Except ε Item}
    {t : Table Item.id} {n : ℕ} (hids : ids.Nodup) (hrows : ∀ id ∈ ids, t.get? id ≠ none)
    (hpatch : ∀ n (t : Table Item.id) r, ∀ p ∈ patches first ids, t.get? p.1 = some r →
      patch n t p.1 p.2 = (t.update p.1 (Item.update ⟨none, some p.2⟩) fun _ => rfl, .ok (r.update ⟨none, some p.2⟩))) :
    patchEach patch n (patches first ids) t = (t.map (placed first ids) (placed_id first ids),
      .ok (ids.filterMap (t.map (placed first ids) (placed_id first ids)).get?)) := by
  induction ids generalizing first t n with
  | nil =>
      have hsame : t.map (placed first []) (placed_id first []) = t := by
        refine Table.ext ((List.map_congr_left fun r _ => ?_).trans (List.map_id t.rows))
        exact placed_of_notMem List.not_mem_nil
      rw [patches, patchEach, hsame, List.filterMap_nil]
  | cons id ids ih =>
      rw [List.nodup_cons] at hids
      obtain ⟨r, hr⟩ := Option.ne_none_iff_exists'.mp (hrows id List.mem_cons_self)
      have hfirst := hpatch n t r (id, first) List.mem_cons_self hr
      have hset : ∀ r, (Item.update ⟨none, some first⟩ r).id = r.id := fun _ => rfl
      have hrest : ∀ other ∈ ids, (t.update id (Item.update ⟨none, some first⟩) hset).get? other ≠ none :=
        fun other hother => Table.get?_update_ne_none hset (hrows other (List.mem_cons_of_mem _ hother))
      have hloop := ih (n := n + 1) hids.2 hrest fun n t r p hp => hpatch n t r p (List.mem_cons_of_mem _ hp)
      have hmap : (t.update id (Item.update ⟨none, some first⟩) hset).map (placed (first + 1) ids)
          (placed_id (first + 1) ids) = t.map (placed first (id :: ids)) (placed_id first (id :: ids)) := by
        refine Table.ext ?_
        rw [Table.map_rows, Table.map_rows, Table.update_rows, List.map_map]
        exact List.map_congr_left fun r _ => placed_cons hids.1
      have hid : r.id = id := (Table.get?_eq_some.mp hr).2
      have hplaced : placed first (id :: ids) r = r.update ⟨none, some first⟩ := by
        rw [← placed_cons hids.1, if_pos hid]
        refine placed_of_notMem ?_
        change r.id ∉ ids
        rw [hid]
        exact hids.1
      rw [patches, patchEach]
      simp only [hfirst, hloop, hmap]
      rw [List.filterMap_cons_some ((Table.get?_map _).trans (congrArg _ hr)), hplaced]

/-! ## Sorting -/

instance : Std.Total Item.Before := ⟨fun a b => by unfold Item.Before; omega⟩

instance : IsTrans Item Item.Before := ⟨fun a b c => by unfold Item.Before; omega⟩

theorem sortItems_perm : (sortItems rows).Perm rows := List.perm_insertionSort ..

theorem eq_sortItems_of_perm (hperm : sorted.Perm rows) (hsorted : sorted.Pairwise Item.Before)
    (hinj : ∀ a ∈ rows, ∀ b ∈ rows, a.Before b → b.Before a → a = b) : sorted = sortItems rows := by
  refine (hperm.trans sortItems_perm.symm).eq_of_pairwise ?_ hsorted (List.pairwise_insertionSort ..)
  intro a b ha hb
  exact hinj a (hperm.subset ha) b (sortItems_perm.subset hb)

section

variable (hperm : sorted.Perm rows) (hsorted : sorted.Pairwise fun a b => a.sortIndex < b.sortIndex)

include hperm hsorted

theorem eq_of_sortIndex_eq {a b : Item} (ha : a ∈ rows) (hb : b ∈ rows) (h : a.sortIndex = b.sortIndex) : a = b := by
  have hnodup : (sorted.map Item.sortIndex).Nodup := List.pairwise_map.mpr (hsorted.imp fun hlt => hlt.ne)
  exact List.inj_on_of_nodup_map hnodup (hperm.symm.subset ha) (hperm.symm.subset hb) h

theorem sortItems_of_increasing : sortItems rows = sorted := by
  refine (eq_sortItems_of_perm hperm (hsorted.imp Or.inl) fun a ha b hb hab hba => ?_).symm
  refine eq_of_sortIndex_eq hperm hsorted ha hb ?_
  unfold Item.Before at hab hba
  omega

theorem sortByIndex_of_increasing : sortByIndex rows = sorted := by
  have hsort : (sortByIndex rows).Perm rows := List.perm_insertionSort ..
  have : Std.Total fun a b : Item => a.sortIndex ≤ b.sortIndex := ⟨fun a b => le_total ..⟩
  have : IsTrans Item fun a b => a.sortIndex ≤ b.sortIndex := ⟨fun a b c => le_trans⟩
  have hpairwise : (sortByIndex rows).Pairwise fun a b => a.sortIndex ≤ b.sortIndex := List.pairwise_insertionSort ..
  refine (hsort.trans hperm.symm).eq_of_pairwise ?_ hpairwise (hsorted.imp le_of_lt)
  intro a b ha hb hab hba
  exact eq_of_sortIndex_eq hperm hsorted (hsort.subset ha) (hperm.subset hb) (le_antisymm hab hba)

end

/-! ## The order that was asked for -/

theorem checkIds_ok (h : checkIds rows ids = .ok ()) : ids.Nodup ∧ ids.Perm (rows.map Item.id).dedup := by
  unfold checkIds at h
  by_cases hnodup : ids.Nodup
  · by_cases hsame : sortIds ids = sortIds (rows.map Item.id).dedup
    · have hperm : (sortIds ids).Perm (rows.map Item.id).dedup := hsame ▸ List.perm_insertionSort ..
      exact ⟨hnodup, (List.perm_insertionSort ..).symm.trans hperm⟩
    · simp [hnodup, hsame] at h
  · simp [hnodup] at h

variable {w : UserItems}

/-- The items of a request that has been accepted, in its order. -/
def UserItems.inOrder (w : UserItems) (ids : List String) : List Item := ids.filterMap (w.arrange ids).items.get?

theorem arrange_get? : (w.arrange ids).items.get? id = (w.items.get? id).map (placed 0 ids) :=
  Table.get?_map (placed_id 0 ids)

section

variable (h : checkIds (w.list market) ids = .ok ())

include h

theorem ids_perm : ids.Perm ((w.items.rows.filter fun i => i.market = market).map Item.id) := by
  have hrows : ((w.items.rows.filter fun i => i.market = market).map Item.id).Nodup :=
    w.items.keys.sublist (List.filter_sublist.map _)
  have hlist : ((w.list market).map Item.id).Perm ((w.items.rows.filter fun i => i.market = market).map Item.id) :=
    sortItems_perm.map _
  have hperm := (checkIds_ok h).2
  rw [(hlist.nodup_iff.mpr hrows).dedup] at hperm
  exact hperm.trans hlist

theorem get?_of_mem_ids {id : String} (hid : id ∈ ids) : ∃ r, w.items.get? id = some r ∧ r.market = market := by
  obtain ⟨r, hr, rfl⟩ := List.mem_map.mp ((ids_perm h).subset hid)
  rw [List.mem_filter, decide_eq_true_eq] at hr
  exact ⟨r, Table.get?_eq_some.mpr ⟨hr.1, rfl⟩, hr.2⟩

theorem inOrder_perm : (w.inOrder ids).Perm ((w.arrange ids).items.rows.filter fun i => i.market = market) := by
  have hids : ((w.arrange ids).items.rows.filter fun i => i.market = market).map Item.id =
      (w.items.rows.filter fun i => i.market = market).map Item.id := by
    change (((w.items.rows.map (placed 0 ids)).filter _).map _) = _
    rw [List.filter_map, List.map_map]
    have hmarket : ((fun i : Item => decide (i.market = market)) ∘ placed 0 ids) =
        fun i => decide (i.market = market) := by
      funext i
      exact congrArg (fun m => decide (m = market)) placed_market
    rw [hmarket]
    exact List.map_congr_left fun i _ => placed_id ..
  have hperm := (ids_perm h).filterMap (w.arrange ids).items.get?
  rw [← hids, List.filterMap_map] at hperm
  refine hperm.trans (List.Perm.of_eq ?_)
  refine (List.filterMap_congr fun i hi => ?_).trans List.filterMap_some
  exact Table.get?_eq_some.mpr ⟨(List.mem_filter.mp hi).1, rfl⟩

theorem inOrder_increasing : (w.inOrder ids).Pairwise fun a b => a.sortIndex < b.sortIndex := by
  have hindex : ∀ id ∈ ids, ∀ r, (w.arrange ids).items.get? id = some r → r.sortIndex = ids.idxOf id := by
    intro id hid r hr
    obtain ⟨i, hi, -⟩ := get?_of_mem_ids h hid
    rw [arrange_get?, hi, Option.map_some, Option.some.injEq] at hr
    have hiid : i.id = id := (Table.get?_eq_some.mp hi).2
    rw [← hr, placed_of_mem (hiid ▸ hid), hiid]
    exact zero_add _
  refine List.pairwise_filterMap.mpr ((pairwise_idxOf (checkIds_ok h).1).imp_of_mem ?_)
  intro a b ha hb hlt r hr s hs
  rw [hindex a ha r hr, hindex b hb s hs]
  exact Int.ofNat_lt.mpr hlt

theorem arrange_list : (w.arrange ids).list market = w.inOrder ids :=
  sortItems_of_increasing (inOrder_perm h) (inOrder_increasing h)

end

end

end CryptoAggHarmonic.Watchlist
