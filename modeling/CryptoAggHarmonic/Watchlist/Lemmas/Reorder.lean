import CryptoAggHarmonic.Watchlist.Lemmas.Stops

/-!
# What a reorder leaves

One lemma for each backend: the order that is shown afterwards, against what stops the reorder on its way.
-/

namespace CryptoAggHarmonic.Watchlist

/-- The rows of a market where the `UPDATE`s have stopped. -/
def Progress.rows (p : Progress) (market : String) (orderedIds : List String) : List Item :=
  (p.rest.rows.map (placed 0 (orderedIds.take p.carried))).filter fun i => i.market = market

section

variable {t : Rows} {ids : List String} {id market : String} {n : ℕ} {first : ℤ}

/-! ## The order that is shown -/

section

variable {order now : List String} {p : String → Prop} {rows rows' sorted : List Item}

theorem Keeps.refl : Keeps p order order := ⟨List.Sublist.refl _, fun _ hid => Or.inl hid⟩

theorem Keeps.eq (h : Keeps (fun _ => False) order now) (hnodup : order.Nodup) : now = order := by
  have hall : order ⊆ now := fun id hid => (h.rest id hid).resolve_right not_false
  exact h.sublist.eq_of_length_le (List.subperm_of_subset hnodup hall).length_le

/-- Ids that come as in a list without duplicates. -/
theorem sublist_of_increasing (hids : ids.Nodup) (hsub : ∀ id ∈ now, id ∈ ids)
    (h : now.Pairwise fun a b => ids.idxOf a < ids.idxOf b) : now.Sublist ids := by
  have hnow : now.Nodup := h.imp fun hlt heq => absurd hlt (by rw [heq]; exact lt_irrefl _)
  have hperm : now.Perm (ids.filter (· ∈ now)) := by
    refine (List.perm_ext_iff_of_nodup hnow (hids.filter _)).mpr fun id => ?_
    rw [List.mem_filter, decide_eq_true_eq]
    exact ⟨fun hid => ⟨hsub id hid, hid⟩, And.right⟩
  have hfilter := (pairwise_idxOf hids).sublist (List.filter_sublist (p := (· ∈ now)))
  have heq : now = ids.filter (· ∈ now) := by
    refine hperm.eq_of_pairwise (fun a b _ _ hab hba => ?_) h hfilter
    exact absurd hab (lt_asymm hba)
  rw [heq]
  exact List.filter_sublist

theorem sortItems_sublist (h : rows'.Sublist rows) : (sortItems rows').Sublist (sortItems rows) := by
  induction h with
  | slnil => exact List.Sublist.refl _
  | cons r _ ih => exact ih.trans (List.sublist_orderedInsert ..)
  | cons_cons r _ ih => exact ih.orderedInsert_sublist r (List.pairwise_insertionSort ..)

/-- Rows that are deleted leave the others in their order. -/
theorem Keeps.of_left (hsub : rows'.Sublist rows) (hrest : ∀ r ∈ rows, r ∈ rows' ∨ p r.id) :
    Keeps p ((sortItems rows).map Item.id) ((sortItems rows').map Item.id) := by
  refine ⟨(sortItems_sublist hsub).map Item.id, fun id hid => ?_⟩
  obtain ⟨r, hr, rfl⟩ := List.mem_map.mp hid
  refine (hrest r (sortItems_perm.subset hr)).imp_left fun hr => ?_
  exact List.mem_map_of_mem (sortItems_perm.symm.subset hr)

/-- Rows that all have their place in the request are shown in its order. -/
theorem Keeps.of_placed (hids : ids.Nodup) (hkeys : (rows.map Item.id).Nodup) (hin : ∀ r ∈ rows, r.id ∈ ids)
    (hrest : ∀ id ∈ ids, id ∈ rows.map Item.id ∨ p id) (hperm : sorted.Perm (rows.map (placed 0 ids)))
    (hsorted : sorted.Pairwise Item.Before) : Keeps p ids (sorted.map Item.id) := by
  have hsame : (rows.map (placed 0 ids)).map Item.id = rows.map Item.id := by
    rw [List.map_map]
    exact List.map_congr_left fun r _ => placed_id 0 ids r
  have hshown : (sorted.map Item.id).Perm (rows.map Item.id) := hsame ▸ hperm.map Item.id
  have hindex : ∀ r ∈ sorted, r.id ∈ ids ∧ r.sortIndex = ids.idxOf r.id := by
    intro r hr
    obtain ⟨r', hr', rfl⟩ := List.mem_map.mp (hperm.subset hr)
    rw [placed_id, placed_of_mem (hin r' hr')]
    exact ⟨hin r' hr', zero_add _⟩
  refine ⟨sublist_of_increasing hids ?_ ?_, fun id hid => (hrest id hid).imp_left fun h => hshown.symm.subset h⟩
  · intro id hid
    obtain ⟨r, hr, rfl⟩ := List.mem_map.mp hid
    exact (hindex r hr).1
  · have hdistinct : sorted.Pairwise fun a b => a.id ≠ b.id := List.pairwise_map.mp (hshown.nodup_iff.mpr hkeys)
    refine List.pairwise_map.mpr ((hsorted.and hdistinct).imp_of_mem fun {a b} ha hb hab => ?_)
    obtain ⟨hmem, hi⟩ := hindex a ha
    obtain ⟨-, hj⟩ := hindex b hb
    have hle : ids.idxOf a.id ≤ ids.idxOf b.id := by
      have hbefore := hab.1
      unfold Item.Before at hbefore
      omega
    refine lt_of_le_of_ne hle fun heq => hab.2 ?_
    exact (List.idxOf_inj hmem).mp heq

end

/-! ## The fallback -/

/-- The rows that the new order is made of are there. -/
def Fallback.Finds (c : Course) (market : String) (orderedIds : List String) (f : Fallback) : Prop :=
  match f.drop c.goneLoad with
  | .redis data => c.load = .answers ∧ ∀ id ∈ orderedIds, ∃ r ∈ data.rowsOf market, r.id = id
  | .memory rows => ∀ id ∈ orderedIds, ∃ r ∈ rows.rows, r.id = id

def Fallback.Saves (c : Course) : Fallback → Prop
  | .redis _ => c.save = .answers
  | .memory _ => True

section

variable {c : Course} {f : Fallback} {data : RedisData} {ε : Type}

theorem drop_redis (ids : List String) (data : RedisData) : ∃ data', (Fallback.redis data).drop ids = .redis data' ∧
    ∀ t : Table Item.id, data.Shows t → data'.Shows (Rows.drop ids t) := by
  induction ids generalizing data with
  | nil => exact ⟨data, rfl, fun t h => h⟩
  | cons id ids ih =>
      obtain ⟨data', hdrop, hshows⟩ := ih (data.delete id).1
      refine ⟨data', hdrop, fun t h => hshows (Table.delete t id) ?_⟩
      rcases h.delete id with ⟨hnone, hsame⟩ | ⟨r, -, hdeleted, -⟩
      · have hall : Table.delete t id = t := by
          refine Table.ext (List.filter_eq_self.mpr fun r hr => ?_)
          exact decide_eq_true (Table.get?_eq_none.mp hnone r hr)
        rw [hsame, hall]
        exact h
      · exact hdeleted

theorem drop_memory (ids : List String) (rows : MemoryRows) :
    (Fallback.memory rows).drop ids = .memory (Rows.drop ids rows) := by
  induction ids generalizing rows with
  | nil => rfl
  | cons id ids ih =>
      have hdelete : (rows.delete id).1 = Table.delete rows id := by
        unfold MemoryRows.delete
        cases hfound : rows.get? id with
        | none =>
            refine (Table.ext (List.filter_eq_self.mpr fun r hr => ?_)).symm
            exact decide_eq_true (Table.get?_eq_none.mp hfound r hr)
        | some r => rfl
      change (Fallback.memory (rows.delete id).1).drop ids = _
      rw [hdelete]
      exact ih _

theorem memory_patches (n : ℕ) (t : Rows) (id : String) :
    Patches .answers (fun _ => .missing) t id n (MemoryRows.patch t id n) := by
  unfold MemoryRows.patch MemoryRows.update
  cases hfound : t.get? id with
  | none =>
      have hnone := Table.get?_eq_none.mp hfound
      have hset : ∀ r, (Item.update ⟨none, some (n : ℤ)⟩ r).id = r.id := fun _ => rfl
      have hsame : (Table.update t id _ hset).rows = t.rows := Table.update_of_none hfound
      refine ⟨Table.ext hsame.symm, ?_⟩
      exact (if_neg (by simpa using hnone)).symm
  | some r =>
      obtain ⟨hr, hid⟩ := Table.get?_eq_some.mp hfound
      exact ⟨rfl, (if_pos ⟨r, hr, hid⟩).symm⟩

/-- A reorder in memory, as far as it gets. -/
theorem memory_reorder_follow (hids : ids.Nodup) (t : Rows) :
    (MemoryRows.reorder t (patches 0 ids)).1.rows = t.rows.map (placed 0 (ids.take
      (follow (fun _ => .answers) (fun _ => []) 0 ids t).carried)) ∧
    stopOf (fun _ => .missing) (MemoryRows.reorder t (patches 0 ids)).2 =
      (follow (fun _ => .answers) (fun _ => []) 0 ids t).stop := by
  have hwhy : ∀ e : WatchlistError, (fun _ : WatchlistError => Stop.missing) e ≠ .done := by simp
  have hloop := patchEach_follow (fun _ => .answers) (fun _ => []) hwhy hids
    (fun n t id _ => memory_patches n t id) 0 t
  rw [(follow_answered ids 0 t).1] at hloop
  refine ⟨hloop.1, ?_⟩
  rw [← hloop.2]
  change stopOf _ (Except.map sortByIndex _) = stopOf _ (patchEach (fun _ => MemoryRows.patch) 0 (patches 0 ids) t).2
  cases (patchEach (fun _ => MemoryRows.patch) 0 (patches 0 ids) t).2 <;> rfl

theorem exists_mem_patches (first : ℤ) (hid : id ∈ ids) : ∃ k, (id, k) ∈ patches first ids := by
  induction ids generalizing first with
  | nil => cases hid
  | cons other ids ih =>
      rcases List.mem_cons.mp hid with rfl | hid
      · exact ⟨first, List.mem_cons_self⟩
      · obtain ⟨k, hk⟩ := ih (first + 1) hid
        exact ⟨k, List.mem_cons_of_mem _ hk⟩

theorem patchRows_missing (first : ℤ) (h : ¬ ∀ id ∈ ids, ∃ r ∈ rows, r.id = id) :
    ∃ e, RedisData.patchRows (patches first ids) rows = .error e := by
  cases hresult : RedisData.patchRows (patches first ids) rows with
  | error e => exact ⟨e, rfl⟩
  | ok rows' =>
      refine absurd (fun id hid => ?_) h
      obtain ⟨k, hk⟩ := exists_mem_patches first hid
      exact (patchRows_eq_ok hresult).2 _ hk

/-- It returns where it finds the rows and can save them. -/
theorem reorderDuring_returns (hids : ids.Nodup) (f : Fallback) :
    (∃ rows, (f.reorderDuring c market (patches 0 ids)).2 = .ok rows) ↔ f.Finds c market ids ∧ f.Saves c := by
  unfold Fallback.reorderDuring Fallback.Finds
  cases f with
  | redis data =>
      obtain ⟨data', hdrop, -⟩ := drop_redis c.goneLoad data
      rw [hdrop]
      dsimp only [Fallback.Saves]
      by_cases hload : c.load = .answers
      · rw [if_neg (not_not.mpr hload)]
        by_cases hfound : ∀ id ∈ ids, ∃ r ∈ data'.rowsOf market, r.id = id
        · unfold RedisData.reorder
          rw [patchRows_patches hids hfound]
          cases hsave : c.save
          · exact ⟨fun _ => ⟨⟨hload, hfound⟩, rfl⟩, fun _ => ⟨_, rfl⟩⟩
          · simp
          · simp
        · obtain ⟨e, he⟩ := patchRows_missing 0 hfound
          unfold RedisData.reorder
          rw [he]
          exact ⟨fun h => absurd h (by simp), fun h => absurd h.1.2 hfound⟩
      · rw [if_pos hload]
        simp [hload]
  | memory rows =>
      rw [drop_memory]
      dsimp only [Fallback.Saves]
      have hstop := (memory_reorder_follow hids (Rows.drop c.goneLoad rows)).2
      have hall := (follow_answered ids 0 (Rows.drop c.goneLoad rows)).2
      rw [and_true, ← hall, ← hstop]
      change (∃ rows', Except.mapError some (MemoryRows.reorder (Rows.drop c.goneLoad rows) (patches 0 ids)).2 =
        .ok rows') ↔ _
      cases (MemoryRows.reorder (Rows.drop c.goneLoad rows) (patches 0 ids)).2 <;> simp [Except.mapError, stopOf]

end

/-! ## The store -/

/-- The request passes the checks. -/
def Store.Accepts (cfg : Config) (s : Store) (c : Course) (market : String) (orderedIds : List String) : Prop :=
  ∃ existing, s.listDuring cfg c market = some existing ∧ checkIds existing orderedIds = .ok ()

/-- What becomes of the `UPDATE`s: a position may be none of the column. -/
def Course.replyTo (c : Course) (n : ℕ) : Reply := if IsInteger n then c.reply (n + 1) else .raises

/-- No failure comes in between, or what it leaves is in the order that is promised then. -/
def Harmless (cfg : Config) (s : Store) (c : Course) (market : String) (orderedIds : List String) : Prop :=
  match s.table, s.fallback with
  | none, .redis data =>
      (Fallback.redis data).Finds c market orderedIds → c.save = .lost → s.order cfg market = orderedIds
  | none, .memory rows =>
      let p := follow (fun _ => .answers) (fun _ => []) 0 orderedIds (Rows.drop c.goneLoad rows)
      p.stop = .done ∨ Keeps c.Gone (s.order cfg market) ((sortItems (p.rows market orderedIds)).map Item.id)
  | some t, f =>
      let p := follow c.replyTo c.gone 0 orderedIds t
      let now := (cfg.orderBy (p.rows market orderedIds)).map Item.id
      match p.stop with
      | .done => c.reply 0 = .answers ∨ Keeps c.Gone orderedIds now
      | .missing => Keeps c.Gone (s.order cfg market) now
      | .failed =>
          (f.Finds c market orderedIds ∧ f.Saves c → Keeps c.Gone orderedIds now) ∧
          (¬ (f.Finds c market orderedIds ∧ f.Saves c) → Keeps c.Gone (s.order cfg market) now)

section

variable {cfg : Config} {s : Store} {c : Course}

/-- A request that is refused. -/
theorem exact_of_refused (h : ¬ s.Accepts cfg c market ids) : Exact cfg s c market ids := by
  unfold Exact Store.reorderDuring
  cases hlist : s.listDuring cfg c market with
  | none => exact Keeps.refl
  | some existing =>
      dsimp only
      cases hcheck : checkIds existing ids with
      | error e => exact Keeps.refl
      | ok _ => exact absurd ⟨existing, hlist, hcheck⟩ h

theorem exact_of_accepts (h : s.Accepts cfg c market ids) : Exact cfg s c market ids ↔
    match (s.reorderRowsDuring c market ids).2 with
    | .ok _ => Keeps c.Gone ids ((s.reorderRowsDuring c market ids).1.order cfg market)
    | .error _ => Keeps c.Gone (s.order cfg market) ((s.reorderRowsDuring c market ids).1.order cfg market) := by
  obtain ⟨existing, hlist, hcheck⟩ := h
  have hdone : s.reorderDuring cfg c market ids = s.reorderRowsDuring c market ids := by
    unfold Store.reorderDuring
    rw [hlist]
    dsimp only
    rw [hcheck]
  unfold Exact
  dsimp only
  generalize s.reorderDuring cfg c market ids = done at hdone ⊢
  subst hdone
  exact Iff.rfl

/-! ## Redis alone -/

theorem redis_reorder_rows {data : RedisData} (hids : ids.Nodup)
    (hfound : ∀ id ∈ ids, ∃ r ∈ data.rowsOf market, r.id = id) : ∃ saved sorted,
    data.reorder market (patches 0 ids) = (saved, .ok sorted) ∧
      saved.rowsOf market = (data.rowsOf market).map (placed 0 ids) := by
  unfold RedisData.reorder
  rw [patchRows_patches hids hfound]
  cases hget : data.get? market with
  | none =>
      refine ⟨data, _, rfl, ?_⟩
      rw [rowsOf_of_none hget]
      rfl
  | some e =>
      refine ⟨_, _, rfl, ?_⟩
      rw [rowsOf_put, if_pos rfl]

/-- The ids of a request that is accepted are those of the rows. -/
theorem mem_ids_of_accepted {existing : List Item} (h : checkIds existing ids = .ok ()) :
    ids.Nodup ∧ ∀ id, id ∈ ids ↔ id ∈ existing.map Item.id := by
  obtain ⟨hids, hperm⟩ := checkIds_ok h
  exact ⟨hids, fun id => hperm.mem_iff.trans List.mem_dedup⟩

theorem redis_left {data data' : RedisData} {t' : Rows} (h : data.Shows t) (h' : data'.Shows t')
    (hsub : t'.rows.Sublist t.rows) (hrest : ∀ r ∈ t.rows, r ∈ t'.rows ∨ c.Gone r.id) :
    Keeps c.Gone (Store.order cfg ⟨none, .redis data⟩ market) (Store.order cfg ⟨none, .redis data'⟩ market) := by
  change Keeps c.Gone ((sortItems (data.rowsOf market)).map Item.id) ((sortItems (data'.rowsOf market)).map Item.id)
  rw [h market, h' market]
  refine Keeps.of_left (hsub.filter _) fun r hr => ?_
  obtain ⟨hr, hmarket⟩ := List.mem_filter.mp hr
  exact (hrest r hr).imp_left fun hr => List.mem_filter.mpr ⟨hr, hmarket⟩

/-- Redis has the rows of the request: what is saved is the new order. -/
theorem redis_placed (cfg : Config) {data : RedisData} (hshows : data.Shows t) (hids : ids.Nodup)
    (hin : ∀ r ∈ data.rowsOf market, r.id ∈ ids) (hfound : ∀ id ∈ ids, ∃ r ∈ data.rowsOf market, r.id = id) :
    ∃ saved sorted, data.reorder market (patches 0 ids) = (saved, .ok sorted) ∧
      Store.order cfg ⟨none, .redis saved⟩ market = ids := by
  obtain ⟨saved, sorted, hreorder, hrows⟩ := redis_reorder_rows hids hfound
  have hkeys : ((data.rowsOf market).map Item.id).Nodup := by
    rw [hshows market]
    exact t.keys.sublist (List.filter_sublist.map _)
  have hperm : (sortItems (saved.rowsOf market)).Perm ((data.rowsOf market).map (placed 0 ids)) := hrows ▸ sortItems_perm
  have hall : ∀ id ∈ ids, id ∈ (data.rowsOf market).map Item.id ∨ False := by
    intro id hid
    obtain ⟨r, hr, hrid⟩ := hfound id hid
    exact Or.inl (List.mem_map.mpr ⟨r, hr, hrid⟩)
  refine ⟨saved, sorted, hreorder, ?_⟩
  exact (Keeps.of_placed hids hkeys hin hall hperm (List.pairwise_insertionSort ..)).eq hids

/-- Where the new order is saved and the call raises all the same. -/
theorem keeps_order_iff {data : RedisData} (hshows : data.Shows t)
    (hmem : ∀ id ∈ (data.list market).map Item.id, id ∈ ids) :
    Keeps c.Gone (Store.order cfg ⟨none, .redis data⟩ market) ids ↔
      Store.order cfg ⟨none, .redis data⟩ market = ids := by
  have hnodup : (Store.order cfg ⟨none, .redis data⟩ market).Nodup := by
    refine (sortItems_perm.map Item.id).nodup_iff.mpr ?_
    rw [hshows market]
    exact t.keys.sublist (List.filter_sublist.map _)
  constructor
  · intro hkeeps
    exact (hkeeps.sublist.eq_of_length_le (List.subperm_of_subset hnodup hmem).length_le).symm
  · intro hsame
    rw [hsame]
    exact Keeps.refl

theorem redis_exact {data : RedisData} (hshows : data.Shows t)
    (h : Store.Accepts cfg ⟨none, .redis data⟩ c market ids) :
    Exact cfg ⟨none, .redis data⟩ c market ids ↔
      ((Fallback.redis data).Finds c market ids → c.save = .lost →
        Store.order cfg ⟨none, .redis data⟩ market = ids) := by
  rw [exact_of_accepts h]
  obtain ⟨existing, hlist, hcheck⟩ := h
  have hexisting : existing = data.list market := by
    change (if c.listLoad = .answers then some (data.list market) else none) = _ at hlist
    split_ifs at hlist
    exact (Option.some.inj hlist).symm
  rw [hexisting] at hcheck
  obtain ⟨hids, hmem⟩ := mem_ids_of_accepted hcheck
  obtain ⟨data', hdrop, hkept⟩ := drop_redis c.goneLoad data
  obtain ⟨data₂, hdrop₂, hkept₂⟩ := drop_redis c.goneSave data'
  have hshows' := hkept t hshows
  have hleft : Keeps c.Gone (Store.order cfg ⟨none, .redis data⟩ market)
      (Store.order cfg ⟨none, .redis data'⟩ market) := by
    refine redis_left hshows hshows' (drop_sublist ..) fun r hr => ?_
    exact (mem_drop_or c.goneLoad hr).imp_right fun hgone => Or.inr (Or.inl hgone)
  have hin : ∀ r ∈ data'.rowsOf market, r.id ∈ ids := by
    intro r hr
    obtain ⟨hr, hmarket⟩ := hshows'.mem_rowsOf.mp hr
    have hbefore : r ∈ data.rowsOf market := hshows.mem_rowsOf.mpr ⟨(drop_sublist ..).subset hr, hmarket⟩
    exact (hmem r.id).mpr (List.mem_map_of_mem (sortItems_perm.symm.subset hbefore))
  unfold Store.reorderRowsDuring Fallback.reorderDuring Fallback.Finds
  dsimp only
  rw [hdrop]
  dsimp only
  by_cases hload : c.load = .answers
  · by_cases hfound : ∀ id ∈ ids, ∃ r ∈ data'.rowsOf market, r.id = id
    · obtain ⟨saved, sorted, hreorder, hplaced⟩ := redis_placed cfg hshows' hids hin hfound
      rw [if_neg (not_not.mpr hload), hreorder]
      dsimp only
      cases hsave : c.save with
      | answers =>
          change Keeps c.Gone ids (Store.order cfg ⟨none, .redis saved⟩ market) ↔ _
          rw [hplaced]
          exact iff_of_true Keeps.refl fun _ h => by cases h
      | lost =>
          change Keeps c.Gone _ (Store.order cfg ⟨none, .redis saved⟩ market) ↔ _
          rw [hplaced, keeps_order_iff hshows fun id hid => (hmem id).mpr hid]
          exact ⟨fun hsame _ _ => hsame, fun hsame => hsame ⟨hload, hfound⟩ rfl⟩
      | raises =>
          rw [hdrop₂]
          refine iff_of_true (redis_left hshows (hkept₂ _ hshows') ?_ fun r hr => ?_) fun _ h => by cases h
          · exact (drop_sublist ..).trans (drop_sublist ..)
          · rcases mem_drop_or c.goneLoad hr with hr | hgone
            · exact (mem_drop_or c.goneSave hr).imp_right fun hgone => Or.inr (Or.inr hgone)
            · exact Or.inr (Or.inr (Or.inl hgone))
    · obtain ⟨e, he⟩ := patchRows_missing 0 hfound
      have hreorder : data'.reorder market (patches 0 ids) = (data', .error e) := by
        unfold RedisData.reorder
        rw [he]
      rw [if_neg (not_not.mpr hload), hreorder]
      exact iff_of_true hleft fun h => absurd h.2 hfound
  · rw [if_pos hload]
    exact iff_of_true hleft fun h => absurd h.1 hload

/-! ## Rows that are updated one by one -/

/-- Every row of the request that is left has been given its position. -/
theorem keeps_done {p : String → Prop} {rest : Rows} {sorted : List Item} (hids : ids.Nodup)
    (hmem : ∀ id, id ∈ ids ↔ id ∈ (t.rows.filter fun i => i.market = market).map Item.id)
    (hsub : rest.rows.Sublist t.rows) (hrest : ∀ r ∈ t.rows, r ∈ rest.rows ∨ p r.id)
    (hperm : sorted.Perm ((rest.rows.map (placed 0 ids)).filter fun i => i.market = market))
    (hsorted : sorted.Pairwise Item.Before) : Keeps p ids (sorted.map Item.id) := by
  have hmarket : ((fun i : Item => decide (i.market = market)) ∘ placed 0 ids) = fun i => decide (i.market = market) := by
    funext i
    exact congrArg (fun m => decide (m = market)) placed_market
  rw [List.filter_map, hmarket] at hperm
  refine Keeps.of_placed hids (rest.keys.sublist (List.filter_sublist.map _)) (fun r hr => ?_) (fun id hid => ?_) hperm
    hsorted
  · exact (hmem r.id).mpr (List.mem_map_of_mem ((hsub.filter _).subset hr))
  · obtain ⟨r, hr, rfl⟩ := List.mem_map.mp ((hmem id).mp hid)
    obtain ⟨hr, hin⟩ := List.mem_filter.mp hr
    exact (hrest r hr).imp_left fun hr => List.mem_map_of_mem (List.mem_filter.mpr ⟨hr, hin⟩)

theorem memory_exact {rows : MemoryRows} (h : Store.Accepts cfg ⟨none, .memory rows⟩ c market ids) :
    Exact cfg ⟨none, .memory rows⟩ c market ids ↔ Harmless cfg ⟨none, .memory rows⟩ c market ids := by
  rw [exact_of_accepts h]
  obtain ⟨existing, hlist, hcheck⟩ := h
  have hexisting : existing = rows.list market := (Option.some.inj hlist).symm
  rw [hexisting] at hcheck
  obtain ⟨hids, hmem⟩ := mem_ids_of_accepted hcheck
  have hshown : ∀ id, id ∈ ids ↔ id ∈ (rows.rows.filter fun i => i.market = market).map Item.id :=
    fun id => (hmem id).trans (sortItems_perm.map Item.id).mem_iff
  obtain ⟨hrows, hstop⟩ := memory_reorder_follow hids (Rows.drop c.goneLoad rows)
  obtain ⟨hrest, -⟩ := follow_answered ids 0 (Rows.drop c.goneLoad rows)
  have hdone : Store.reorderRowsDuring ⟨none, .memory rows⟩ c market ids =
      ((MemoryRows.reorder (Rows.drop c.goneLoad rows) (patches 0 ids)).map .memory (Except.mapError some)).map
        (Store.mk none) id := by
    unfold Store.reorderRowsDuring Fallback.reorderDuring
    dsimp only
    rw [drop_memory]
  rw [hdone]
  unfold Harmless Progress.rows
  dsimp only
  rw [hrest]
  generalize hp : follow (fun _ => .answers) (fun _ => []) 0 ids (Rows.drop c.goneLoad rows) = p at hrows hstop hrest
  rcases hres : MemoryRows.reorder (Rows.drop c.goneLoad rows) (patches 0 ids) with ⟨rows', e | sorted⟩ <;>
    rw [hres] at hrows hstop <;> dsimp only at hrows
  · have hmissing : p.stop = .missing := hstop.symm
    change Keeps c.Gone _ ((sortItems (rows'.rows.filter fun i => i.market = market)).map Item.id) ↔ _
    rw [hrows, hmissing]
    exact (or_iff_right (by simp)).symm
  · have hfinished : p.stop = .done := hstop.symm
    have hall : ids.take p.carried = ids := by
      rw [← hp, follow_done ids 0 _ (hp ▸ hfinished), List.take_length]
    change Keeps c.Gone ids ((sortItems (rows'.rows.filter fun i => i.market = market)).map Item.id) ↔ _
    refine iff_of_true ?_ (Or.inl hfinished)
    rw [hrows, hall]
    refine keeps_done hids hshown (drop_sublist c.goneLoad rows) (fun r hr => ?_) sortItems_perm
      (List.pairwise_insertionSort ..)
    exact (mem_drop_or c.goneLoad hr).imp_right fun hgone => Or.inr (Or.inl hgone)

/-! ## The table -/

/-- An exception of the store's own means that there is no such row. -/
def Stop.ofError : Option WatchlistError → Stop
  | none => .failed
  | some _ => .missing

theorem table_patches (c : Course) (n : ℕ) (t : Rows) (hid : CanonicalId id) :
    Patches (c.replyTo n) Stop.ofError (t.drop (c.gone n)) id n (c.patch n t id n) := by
  have hcanonical : uuidText id = some id := hid
  have hstorable : (Updates.mk none (some (n : ℤ))).Storable ↔ IsInteger n := by simp [Updates.Storable]
  unfold Course.patch Store.patch Rows.update Course.replyTo
  rw [hcanonical]
  dsimp only
  by_cases hint : IsInteger n
  · rw [if_pos hint, if_neg (not_not.mpr (hstorable.mpr hint))]
    cases c.reply (n + 1) with
    | raises => exact ⟨rfl, rfl⟩
    | lost => exact ⟨rfl, rfl⟩
    | answers =>
        cases hfound : (t.drop (c.gone n)).get? id with
        | none =>
            have hnone := Table.get?_eq_none.mp hfound
            exact ⟨rfl, (if_neg (by simpa using hnone)).symm⟩
        | some r =>
            obtain ⟨hr, hrid⟩ := Table.get?_eq_some.mp hfound
            exact ⟨rfl, (if_pos ⟨r, hr, hrid⟩).symm⟩
  · rw [if_neg hint, if_pos fun h => hint (hstorable.mp h)]
    cases c.reply (n + 1) <;> exact ⟨rfl, rfl⟩

theorem table_order {f : Fallback} (htext : IsText market) : Store.order cfg ⟨some t, f⟩ market =
    (cfg.orderBy (t.rows.filter fun i => i.market = market)).map Item.id := by
  unfold Store.order Store.listItems Rows.select
  dsimp only
  rw [if_pos ⟨htext, rfl⟩]

/-- What the request is checked against. -/
theorem table_listDuring {f : Fallback} {existing : List Item} (htext : IsText market)
    (h : Store.listDuring cfg ⟨some t, f⟩ c market = some existing) :
    c.reply 0 = .answers ∧ existing = cfg.orderBy (t.rows.filter fun i => i.market = market) ∨
    c.reply 0 ≠ .answers ∧ ∀ r ∈ existing, r ∈ f.rows := by
  unfold Store.listDuring Rows.select at h
  dsimp only at h
  by_cases hreply : c.reply 0 = .answers
  · rw [if_pos ⟨htext, hreply⟩] at h
    exact Or.inl ⟨hreply, (Option.some.inj h).symm⟩
  · rw [if_neg fun hboth => hreply hboth.2] at h
    refine Or.inr ⟨hreply, fun r hr => ?_⟩
    cases f with
    | redis data =>
        change (if c.listLoad = .answers then some (data.list market) else none) = _ at h
        split_ifs at h
        rw [← Option.some.inj h] at hr
        exact mem_rows_of_rowsOf (sortItems_perm.subset hr)
    | memory rows =>
        rw [← Option.some.inj h] at hr
        exact (List.mem_filter.mp (sortItems_perm.subset hr)).1

theorem table_exact {f : Fallback} (hcfg : cfg.Orders) (htext : IsText market) (ht : t.Canonical)
    (hf : f.Canonical) (h : Store.Accepts cfg ⟨some t, f⟩ c market ids) :
    Exact cfg ⟨some t, f⟩ c market ids ↔ Harmless cfg ⟨some t, f⟩ c market ids := by
  rw [exact_of_accepts h]
  obtain ⟨existing, hlist, hcheck⟩ := h
  obtain ⟨hnodup, hmem⟩ := mem_ids_of_accepted hcheck
  obtain ⟨hperm, hsorted⟩ := hcfg (t.rows.filter fun i => i.market = market)
  have hcanonical : ∀ id ∈ ids, CanonicalId id := by
    intro id hid
    obtain ⟨r, hr, rfl⟩ := List.mem_map.mp ((hmem id).mp hid)
    rcases table_listDuring htext hlist with ⟨-, rfl⟩ | ⟨-, hrows⟩
    · exact ht r (List.mem_filter.mp (hperm.subset hr)).1
    · exact hf r (hrows r hr)
  have hwhy : ∀ e, Stop.ofError e ≠ .done := by
    rintro (_ | e) <;> simp [Stop.ofError]
  obtain ⟨hrows, hstop⟩ := patchEach_follow c.replyTo c.gone hwhy hnodup
    (fun n t id hid => table_patches c n t (hcanonical id hid)) 0 t
  have hrest : ∀ r ∈ t.rows, r ∈ (follow c.replyTo c.gone 0 ids t).rest.rows ∨ ∃ m, r.id ∈ c.gone m :=
    fun r hr => follow_rest ids 0 t hr
  have hsub : (follow c.replyTo c.gone 0 ids t).rest.rows.Sublist t.rows := follow_sublist ids 0 t
  have hcarried : (follow c.replyTo c.gone 0 ids t).stop = .done →
      (follow c.replyTo c.gone 0 ids t).carried = ids.length := follow_done ids 0 t
  rw [Nat.cast_zero] at hrows hstop
  unfold Store.reorderRowsDuring Harmless Progress.rows
  dsimp only
  generalize follow c.replyTo c.gone 0 ids t = p at hrows hstop hrest hsub hcarried
  rcases hres : patchEach c.patch 0 (patches 0 ids) t with ⟨t', (_ | e) | rows⟩ <;>
    rw [hres] at hrows hstop <;> dsimp only at hrows <;>
    have hnow : ∀ f', Store.order cfg ⟨some t', f'⟩ market =
      (cfg.orderBy (t'.rows.filter fun i => i.market = market)).map Item.id := fun _ => table_order htext
  · have hfailed : p.stop = .failed := hstop.symm
    have hreturns : (∃ rows, (f.reorderDuring c market (patches 0 ids)).2 = .ok rows) ↔
        f.Finds c market ids ∧ f.Saves c := reorderDuring_returns hnodup f
    rw [hfailed, ← hreturns, ← hrows]
    rcases hfallback : f.reorderDuring c market (patches 0 ids) with ⟨f', e | rows⟩
    · change Keeps c.Gone _ (Store.order cfg ⟨some t', f'⟩ market) ↔ _
      rw [hnow]
      simp
    · change Keeps c.Gone _ (Store.order cfg ⟨some t', f'⟩ market) ↔ _
      rw [hnow]
      simp
  · have hmissing : p.stop = .missing := hstop.symm
    rw [hmissing, ← hrows]
    change Keeps c.Gone _ (Store.order cfg ⟨some t', f⟩ market) ↔ _
    rw [hnow]
  · have hdone : p.stop = .done := hstop.symm
    have hall : ids.take p.carried = ids := by
      rw [hcarried hdone, List.take_length]
    rw [hdone, ← hrows]
    change Keeps c.Gone ids (Store.order cfg ⟨some t', _⟩ market) ↔ _
    rw [hnow]
    refine (or_iff_right_of_imp fun hreply => ?_).symm
    rcases table_listDuring htext hlist with ⟨-, rfl⟩ | ⟨hfailed, -⟩
    · rw [hall] at hrows
      refine keeps_done hnodup (fun id => (hmem id).trans (hperm.map Item.id).mem_iff) hsub (fun r hr => ?_) ?_
        (hcfg _).2
      · exact (hrest r hr).imp_right Or.inl
      · rw [hrows]
        exact (hcfg _).1
    · exact absurd hreply hfailed

end

end

end CryptoAggHarmonic.Watchlist
