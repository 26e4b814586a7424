import CryptoAggHarmonic.Watchlist.Lemmas.Stores

/-!
# The fallbacks against the specification

One lemma for each operation: it keeps the rows those of the specification and gives its result.
-/

namespace CryptoAggHarmonic.Watchlist

section

variable {w : UserItems} {i r : Item} {market itemId : String} {u : Updates} {ids : List String}

/-! ## The specification -/

/-- The item has an id of its own. -/
def UserItems.Fresh (w : UserItems) (id : String) : Prop := ∀ i ∈ w.items.rows, i.id ≠ id

instance (w : UserItems) (id : String) : Decidable (w.Fresh id) := inferInstanceAs (Decidable (∀ i ∈ _, _))

namespace UserItems

theorem add_of_pair (h : i.pair ∈ w.items.rows.map Item.pair) :
    w.add i = (w, .error (.duplicate i.symbol i.market)) := dif_pos h

theorem add_of_full (hpair : i.pair ∉ w.items.rows.map Item.pair) (h : maxItemsPerUser ≤ w.items.rows.length) :
    w.add i = (w, .error (.limitReached maxItemsPerUser)) := (dif_neg hpair).trans (dif_neg (Nat.not_lt.mpr h))

theorem add_of_room (hpair : i.pair ∉ w.items.rows.map Item.pair) (h : w.items.rows.length < maxItemsPerUser)
    (hfresh : w.Fresh i.id) : (w.add i).1.items.rows = w.items.rows ++ [i] ∧ (w.add i).2 = .ok i := by
  obtain ⟨items, hitems⟩ := Table.insert?_of_fresh hfresh
  unfold add
  rw [dif_neg hpair, dif_pos h]
  split
  · rename_i hnone
    rw [hitems] at hnone
    cases hnone
  · rename_i items' hsome
    exact ⟨(Table.insert?_eq_some hsome).1, rfl⟩

theorem modify_of_none (h : w.items.get? itemId = none) : w.modify itemId u = (w, .error (.notFound itemId)) := by
  unfold modify
  rw [h]

theorem modify_of_some (h : w.items.get? itemId = some r) :
    (w.modify itemId u).1.items.rows = w.items.rows.map (fun i => if i.id = itemId then i.update u else i) ∧
      (w.modify itemId u).2 = .ok (r.update u) := by
  unfold modify
  rw [h]
  exact ⟨rfl, rfl⟩

theorem remove_of_none (h : w.items.get? itemId = none) : w.remove itemId = (w, .error (.notFound itemId)) := by
  unfold remove
  rw [h]

theorem remove_of_some (h : w.items.get? itemId = some r) :
    (w.remove itemId).1.items = w.items.delete itemId ∧ (w.remove itemId).2 = .ok () := by
  unfold remove
  rw [h]
  exact ⟨rfl, rfl⟩

end UserItems

theorem mem_pairs : i.pair ∈ w.items.rows.map Item.pair ↔
    ∃ r ∈ w.items.rows, r.market = i.market ∧ r.symbol = i.symbol := by
  simp only [List.mem_map, Item.pair, Prod.mk.injEq]

/-! ## Memory -/

theorem memory_create (hfresh : w.Fresh i.id) :
    (MemoryRows.create w.items i).1 = (w.add i).1.items ∧ (MemoryRows.create w.items i).2 = (w.add i).2 := by
  unfold MemoryRows.create
  by_cases hpair : i.pair ∈ w.items.rows.map Item.pair
  · rw [if_pos (mem_pairs.mp hpair), UserItems.add_of_pair hpair]
    exact ⟨rfl, rfl⟩
  · rw [if_neg fun h => hpair (mem_pairs.mpr h)]
    by_cases hfull : maxItemsPerUser ≤ w.items.rows.length
    · rw [if_pos hfull, UserItems.add_of_full hpair hfull]
      exact ⟨rfl, rfl⟩
    · obtain ⟨hrows, hresult⟩ := UserItems.add_of_room hpair (Nat.not_le.mp hfull) hfresh
      rw [if_neg hfull, hresult]
      exact ⟨Table.ext ((Table.put_rows_of_fresh hfresh).trans hrows.symm), rfl⟩

theorem memory_update (w : UserItems) (itemId : String) (u : Updates) :
    (MemoryRows.update w.items itemId (Item.update u) fun _ => rfl).1 =
      (w.modify itemId u).1.items ∧
    (MemoryRows.update w.items itemId (Item.update u) fun _ => rfl).2 = (w.modify itemId u).2 := by
  unfold MemoryRows.update
  cases hrow : w.items.get? itemId with
  | none =>
      rw [UserItems.modify_of_none hrow]
      exact ⟨rfl, rfl⟩
  | some r =>
      obtain ⟨hrows, hresult⟩ := UserItems.modify_of_some (u := u) hrow
      rw [hresult]
      exact ⟨Table.ext hrows.symm, rfl⟩

theorem memory_delete (w : UserItems) (itemId : String) :
    (MemoryRows.delete w.items itemId).1 = (w.remove itemId).1.items ∧
    (MemoryRows.delete w.items itemId).2 = (w.remove itemId).2 := by
  unfold MemoryRows.delete
  cases hrow : w.items.get? itemId with
  | none =>
      rw [UserItems.remove_of_none hrow]
      exact ⟨rfl, rfl⟩
  | some r =>
      obtain ⟨hitems, hresult⟩ := UserItems.remove_of_some hrow
      rw [hitems, hresult]
      exact ⟨rfl, rfl⟩

theorem memory_reorder (h : checkIds (w.list market) ids = .ok ()) :
    MemoryRows.reorder w.items (patches 0 ids) = ((w.arrange ids).items, .ok ((w.arrange ids).list market)) := by
  have hrows : ∀ id ∈ ids, w.items.get? id ≠ none := fun id hid => by
    obtain ⟨r, hr, -⟩ := get?_of_mem_ids h hid
    rw [hr]
    exact Option.some_ne_none r
  have hpatch : ∀ (n : ℕ) (t : Table Item.id) r, ∀ p ∈ patches 0 ids, t.get? p.1 = some r → MemoryRows.patch t p.1 p.2 =
      (t.update p.1 (Item.update ⟨none, some p.2⟩) fun _ => rfl, .ok (r.update ⟨none, some p.2⟩)) := by
    intro n t r p _ hr
    unfold MemoryRows.patch MemoryRows.update
    rw [hr]
  unfold MemoryRows.reorder
  rw [patchEach_patches (checkIds_ok h).1 hrows hpatch, arrange_list h]
  exact congrArg (Prod.mk _) (congrArg Except.ok
    (sortByIndex_of_increasing (List.Perm.refl (w.inOrder ids)) (inOrder_increasing h)))

/-! ## Redis -/

/-- Under each market its items, as they were added. -/
def RedisData.Holds (data : RedisData) (w : UserItems) : Prop :=
  ∀ market, data.rowsOf market = w.items.rows.filter fun i => i.market = market

/-- The limit of a market is met with the limit of the user, or before it. -/
def UserItems.LimitInMarket (w : UserItems) (market : String) : Prop :=
  w.items.rows.length < maxItemsPerUser ∨
    maxItemsPerUser ≤ (w.items.rows.filter fun i => i.market = market).length

instance (w : UserItems) (market : String) : Decidable (w.LimitInMarket market) := inferInstanceAs (Decidable (_ ∨ _))

section

variable {data : RedisData} {m : String}

namespace RedisData.Holds

variable (h : data.Holds w)

include h

theorem shows : data.Shows w.items := h

theorem mem_rowsOf : r ∈ data.rowsOf market ↔ r ∈ w.items.rows ∧ r.market = market := h.shows.mem_rowsOf

theorem list : data.list market = w.list market := congrArg sortItems (h market)

theorem create (hfresh : w.Fresh i.id) (hlimit : i.pair ∈ w.items.rows.map Item.pair ∨ w.LimitInMarket i.market) :
    (data.create i).1.Holds (w.add i).1 ∧ (data.create i).2 = (w.add i).2 := by
  unfold RedisData.create
  have hdup : (∃ r ∈ data.rowsOf i.market, r.symbol = i.symbol) ↔ i.pair ∈ w.items.rows.map Item.pair := by
    rw [mem_pairs]
    constructor
    · rintro ⟨r, hr, hsymbol⟩
      exact ⟨r, (h.mem_rowsOf.mp hr).1, (h.mem_rowsOf.mp hr).2, hsymbol⟩
    · rintro ⟨r, hr, hmarket, hsymbol⟩
      exact ⟨r, h.mem_rowsOf.mpr ⟨hr, hmarket⟩, hsymbol⟩
  dsimp only
  by_cases hpair : i.pair ∈ w.items.rows.map Item.pair
  · rw [if_pos (hdup.mpr hpair), UserItems.add_of_pair hpair]
    exact ⟨h, rfl⟩
  · have hlength : (data.rowsOf i.market).length ≤ w.items.rows.length := by
      rw [h]
      exact List.length_filter_le ..
    rw [if_neg fun hex => hpair (hdup.mp hex)]
    rcases hlimit.resolve_left hpair with hroom | hfull
    · obtain ⟨hrows, hresult⟩ := UserItems.add_of_room hpair hroom hfresh
      rw [if_neg (Nat.not_le.mpr (hlength.trans_lt hroom)), hresult]
      exact ⟨h.shows.put_append hrows, rfl⟩
    · rw [← h] at hfull
      rw [if_pos hfull, UserItems.add_of_full hpair (hfull.trans hlength)]
      exact ⟨h, rfl⟩

theorem update (itemId : String) (u : Updates) :
    (data.update itemId (Item.update u)).1.Holds (w.modify itemId u).1 ∧
      (data.update itemId (Item.update u)).2 = (w.modify itemId u).2 := by
  rcases h.shows.update itemId (Item.update u) (fun _ => rfl) (fun _ => rfl) with ⟨hitem, hnone⟩ | ⟨r, hitem, hshows, hok⟩
  · rw [hnone, UserItems.modify_of_none hitem]
    exact ⟨h, rfl⟩
  · obtain ⟨hrows, hresult⟩ := UserItems.modify_of_some (u := u) hitem
    rw [hok, hresult]
    refine ⟨fun m => ?_, rfl⟩
    rw [hrows]
    exact hshows m

theorem delete (itemId : String) :
    (data.delete itemId).1.Holds (w.remove itemId).1 ∧ (data.delete itemId).2 = (w.remove itemId).2 := by
  rcases h.shows.delete itemId with ⟨hitem, hnone⟩ | ⟨r, hitem, hshows, hok⟩
  · rw [hnone, UserItems.remove_of_none hitem]
    exact ⟨h, rfl⟩
  · obtain ⟨hitems, hresult⟩ := UserItems.remove_of_some hitem
    rw [hok, hresult]
    refine ⟨fun m => ?_, rfl⟩
    rw [hitems]
    exact hshows m

theorem reorder (hids : checkIds (w.list market) ids = .ok ()) :
    (data.reorder market (patches 0 ids)).1.Holds (w.arrange ids) ∧
      (data.reorder market (patches 0 ids)).2 = .ok ((w.arrange ids).list market) := by
  have hrows : ∀ id ∈ ids, ∃ r ∈ data.rowsOf market, r.id = id := fun id hid => by
    obtain ⟨r, hr, hmarket⟩ := get?_of_mem_ids hids hid
    obtain ⟨hmem, rfl⟩ := Table.get?_eq_some.mp hr
    exact ⟨r, h.mem_rowsOf.mpr ⟨hmem, hmarket⟩, rfl⟩
  have hfilter : ∀ m, ((w.arrange ids).items.rows.filter fun i => i.market = m) =
      (data.rowsOf m).map (placed 0 ids) := by
    intro m
    change ((w.items.rows.map (placed 0 ids)).filter _) = _
    have hmarket : ((fun i : Item => decide (i.market = m)) ∘ placed 0 ids) = fun i => decide (i.market = m) := by
      funext i
      exact congrArg (fun m' => decide (m' = m)) placed_market
    rw [List.filter_map, hmarket, h]
  have hother : ∀ m, m ≠ market → (data.rowsOf m).map (placed 0 ids) = data.rowsOf m := by
    intro m hm
    refine (List.map_congr_left fun x hx => placed_of_notMem fun hid => ?_).trans (List.map_id _)
    obtain ⟨r, hr, hmarket⟩ := get?_of_mem_ids hids hid
    exact h.shows.rowsOf_of_ne hr (hmarket ▸ hm) x hx rfl
  unfold RedisData.reorder
  rw [patchRows_patches (checkIds_ok hids).1 hrows]
  refine ⟨fun m => ?_, ?_⟩
  · rw [hfilter]
    dsimp only
    split
    · rename_i hnone
      by_cases hm : m = market
      · have hempty : data.rowsOf m = [] := by
          unfold RedisData.rowsOf
          rw [hm, hnone]
          rfl
        rw [hempty, List.map_nil]
      · exact (hother m hm).symm
    · rw [rowsOf_put]
      split_ifs with hm
      · rw [hm]
      · exact (hother m hm).symm
  · rw [arrange_list hids]
    refine congrArg Except.ok (sortByIndex_of_increasing ?_ (inOrder_increasing hids))
    rw [← hfilter]
    exact inOrder_perm hids

end RedisData.Holds

end

end

end CryptoAggHarmonic.Watchlist

/-!
# The mirror of the table

The rows that are mirrored have the ids of rows of the table. A text that is no `UUID` raises there, and the fallback
does not find it either.
-/

namespace CryptoAggHarmonic.Watchlist

/-- A text that the table shows as it is. -/
def CanonicalId (id : String) : Prop := uuidText id = some id

instance (id : String) : Decidable (CanonicalId id) := inferInstanceAs (Decidable (_ = _))

/-- The ids of the fallback are those of rows of the table. -/
def Fallback.Canonical (f : Fallback) : Prop := ∀ r ∈ f.rows, CanonicalId r.id

section

variable {f : Fallback} {data : RedisData} {r row : Item} {market itemId : String} {u : Updates} {rows : List Item}
  {ids : List String}

/-! ## The mirror -/

theorem mem_rows_of_rowsOf (hr : r ∈ data.rowsOf market) : r ∈ (Fallback.redis data).rows :=
  List.mem_flatMap.mpr ⟨_, mem_of_mem_rowsOf hr, hr⟩

theorem canonical_put (h : (Fallback.redis data).Canonical) (hrows : ∀ r ∈ rows, CanonicalId r.id) :
    (Fallback.redis (data.put (market, rows))).Canonical := by
  intro r hr
  obtain ⟨e, he, hre⟩ := List.mem_flatMap.mp hr
  rcases Table.mem_put.mp he with rfl | ⟨he, -⟩
  · exact hrows r hre
  · exact h r (List.mem_flatMap.mpr ⟨e, he, hre⟩)

theorem canonical_redis_update {set : Item → Item} (hset : ∀ r, (set r).id = r.id)
    (h : (Fallback.redis data).Canonical) : (Fallback.redis (data.update itemId set).1).Canonical := by
  unfold RedisData.update
  cases hfound : data.locate itemId with
  | none => exact h
  | some located =>
      obtain ⟨e, r⟩ := located
      obtain ⟨he, -, -⟩ := locate_eq_some hfound
      refine canonical_put h fun x hx => ?_
      obtain ⟨y, hy, rfl⟩ := List.mem_map.mp hx
      have hcanonical : CanonicalId y.id := h y (List.mem_flatMap.mpr ⟨e, he, hy⟩)
      split_ifs
      · rw [hset]
        exact hcanonical
      · exact hcanonical

theorem canonical_memory_update {t : MemoryRows} {set : Item → Item} {hset : ∀ r, (set r).id = r.id}
    (h : (Fallback.memory t).Canonical) : (Fallback.memory (t.update itemId set hset).1).Canonical := by
  unfold MemoryRows.update
  cases hfound : t.get? itemId with
  | none => exact h
  | some r =>
      intro x hx
      obtain ⟨y, hy, rfl⟩ := Rows.mem_update.mp hx
      have hcanonical : CanonicalId y.id := h y hy
      split_ifs
      · rw [hset]
        exact hcanonical
      · exact hcanonical

theorem patchEach_kept {σ ε α : Type} {patch : ℕ → σ → String → ℤ → σ × Except ε α} {P : σ → Prop}
    (hpatch : ∀ n s id k, P s → P (patch n s id k).1) {n : ℕ} {ps : List (String × ℤ)} {s : σ} (h : P s) :
    P (patchEach patch n ps s).1 := by
  induction ps generalizing n s with
  | nil => exact h
  | cons p ps ih =>
      obtain ⟨id, k⟩ := p
      have hfirst : P (patch n s id k).1 := hpatch n s id k h
      have hrest : P (patchEach patch (n + 1) ps (patch n s id k).1).1 := ih hfirst
      unfold patchEach
      rcases hres : patch n s id k with ⟨s', _ | r⟩
      · rw [hres] at hfirst
        exact hfirst
      · rw [hres] at hrest
        dsimp only
        rcases hloop : patchEach patch (n + 1) ps s' with ⟨s'', _ | rs⟩ <;> rw [hloop] at hrest <;> exact hrest

namespace Fallback.Canonical

variable (h : f.Canonical)

include h

theorem mirrorCreate (hrow : CanonicalId row.id) : (f.mirrorCreate row).Canonical := by
  cases f with
  | redis data =>
      change (Fallback.redis (data.create row).1).Canonical
      unfold RedisData.create
      dsimp only
      split_ifs
      · exact h
      · exact h
      · refine canonical_put h fun r hr => ?_
        rcases List.mem_append.mp hr with hr | hr
        · exact h r (mem_rows_of_rowsOf hr)
        · rw [List.mem_singleton.mp hr]
          exact hrow
  | memory t =>
      change (Fallback.memory (t.create row).1).Canonical
      unfold MemoryRows.create
      split_ifs
      · exact h
      · exact h
      · intro r hr
        rcases Table.mem_put.mp hr with rfl | ⟨hr, -⟩
        · exact hrow
        · exact h r hr

theorem mirrorUpdate : (f.mirrorUpdate itemId row).Canonical := by
  cases f with
  | redis data => exact canonical_redis_update (fun _ => rfl) h
  | memory t => exact canonical_memory_update h

theorem mirrorDelete : (f.mirrorDelete itemId).Canonical := by
  cases f with
  | redis data =>
      change (Fallback.redis (data.delete itemId).1).Canonical
      unfold RedisData.delete
      cases hfound : data.locate itemId with
      | none => exact h
      | some located =>
          obtain ⟨e, r⟩ := located
          obtain ⟨he, -, -⟩ := locate_eq_some hfound
          refine canonical_put h fun x hx => ?_
          exact h x (List.mem_flatMap.mpr ⟨e, he, (List.mem_filter.mp hx).1⟩)
  | memory t =>
      change (Fallback.memory (t.delete itemId).1).Canonical
      unfold MemoryRows.delete
      cases hfound : t.get? itemId with
      | none => exact h
      | some r => exact fun x hx => h x (Table.mem_delete.mp hx).1

theorem mirrorReorder (hrows : ∀ r ∈ rows, CanonicalId r.id) : (f.mirrorReorder market rows).Canonical := by
  cases f with
  | redis data => exact canonical_put h hrows
  | memory t =>
      exact patchEach_kept (P := fun t => (Fallback.memory t).Canonical)
        (fun _ _ _ _ h => canonical_memory_update h) h

/-- What is no `UUID` is not in the fallback. -/
theorem ne_of_uuidText (hid : uuidText itemId = none) (hr : r ∈ f.rows) : r.id ≠ itemId := by
  rintro rfl
  have hcanonical : uuidText r.id = some r.id := h r hr
  rw [hid] at hcanonical
  cases hcanonical

end Fallback.Canonical

theorem locate_of_uuidText (h : (Fallback.redis data).Canonical) (hid : uuidText itemId = none) :
    data.locate itemId = none := by
  cases hfound : data.locate itemId with
  | none => rfl
  | some located =>
      obtain ⟨e, r⟩ := located
      obtain ⟨he, hr, heq⟩ := locate_eq_some hfound
      exact absurd heq (h.ne_of_uuidText hid (List.mem_flatMap.mpr ⟨e, he, hr⟩))

theorem get?_of_uuidText {t : MemoryRows} (h : (Fallback.memory t).Canonical) (hid : uuidText itemId = none) :
    t.get? itemId = none := Table.get?_eq_none.mpr fun _ hr => h.ne_of_uuidText hid hr

namespace Fallback.Canonical

variable (h : f.Canonical)

include h

theorem update_of_uuidText (hid : uuidText itemId = none) : f.update itemId u = (f, .error (.notFound itemId)) := by
  cases f with
  | redis data =>
      have hupdate : data.update itemId (Item.update u) = (data, .error (.notFound itemId)) := by
        unfold RedisData.update
        rw [locate_of_uuidText h hid]
      exact congrArg (Prod.map Fallback.redis id) hupdate
  | memory t =>
      have hupdate : t.update itemId (Item.update u) (fun _ => rfl) = (t, .error (.notFound itemId)) := by
        unfold MemoryRows.update
        rw [get?_of_uuidText h hid]
      exact congrArg (Prod.map Fallback.memory id) hupdate

theorem delete_of_uuidText (hid : uuidText itemId = none) : f.delete itemId = (f, .error (.notFound itemId)) := by
  cases f with
  | redis data =>
      have hdelete : data.delete itemId = (data, .error (.notFound itemId)) := by
        unfold RedisData.delete
        rw [locate_of_uuidText h hid]
      exact congrArg (Prod.map Fallback.redis id) hdelete
  | memory t =>
      have hdelete : t.delete itemId = (t, .error (.notFound itemId)) := by
        unfold MemoryRows.delete
        rw [get?_of_uuidText h hid]
      exact congrArg (Prod.map Fallback.memory id) hdelete

end Fallback.Canonical

end

end CryptoAggHarmonic.Watchlist
