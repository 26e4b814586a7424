import CryptoAggHarmonic.Watchlist.Lemmas.Fallback

/-!
# One call

Every backend against the specification: what a call needs there, and that it then does and answers the same. The
checks before the backend are the same for all of them.
-/

namespace CryptoAggHarmonic.Watchlist

inductive Backend
  | redis
  | memory
  /-- with the fallback that mirrors it -/
  | supabase (inRedis : Bool)

def Backend.start : Backend → Store
  | .redis => ⟨none, .redis .empty⟩
  | .memory => ⟨none, .memory .empty⟩
  | .supabase true => ⟨some .empty, .redis .empty⟩
  | .supabase false => ⟨some .empty, .memory .empty⟩

/-- The row that a call adds once its checks have passed. -/
def Adds (cfg : Config) (w : UserItems) (call : Op × Env) (i : Item) : Prop :=
  match call.1 with
  | .create market m note => validateNote note = .ok () ∧ ensureWhitelisted cfg m = .ok () ∧
      i = payload call.2 market m note (nextSortIndex (w.list market))
  | _ => False

/-- A row the backend takes or refuses as it has to. -/
def Backend.Takes (w : UserItems) (i : Item) : Backend → Prop
  | .redis => i.pair ∈ w.items.rows.map Item.pair ∨ w.LimitInMarket i.market
  | .memory => True
  | .supabase _ => (i.pair ∈ w.items.rows.map Item.pair ∨ w.items.rows.length < maxItemsPerUser) ∧
      CanonicalId i.id ∧ i.Storable ∧ ∀ r ∈ w.items.rows, r.createdAt < i.createdAt

instance (w : UserItems) (i : Item) : (b : Backend) → Decidable (b.Takes w i)
  | .redis => inferInstanceAs (Decidable (_ ∨ _))
  | .memory => inferInstanceAs (Decidable True)
  | .supabase _ => inferInstanceAs (Decidable (_ ∧ _))

/-- An id of the table, or what cannot be one. -/
def Legible (itemId : String) : Prop := CanonicalId itemId ∨ uuidText itemId = none

/-- Supabase answers the statements of a call, and they can be put there. -/
def Backend.Answers (call : Op × Env) : Backend → Prop
  | .redis => True
  | .memory => True
  | .supabase _ => (∀ k, call.2.reply k = .answers) ∧
      match call.1 with
      | .list market => IsText market
      | .create .. => True
      | .update itemId u => Legible itemId ∧ u.Storable
      | .delete itemId => Legible itemId
      | .reorder market _ => IsText market

def Clear (cfg : Config) (b : Backend) (w : UserItems) (call : Op × Env) : Prop :=
  b.Answers call ∧ ∀ i, Adds cfg w call i → w.Fresh i.id ∧ b.Takes w i

/-- What `ORDER BY sort_index, created_at` promises. -/
def Config.Orders (cfg : Config) : Prop :=
  ∀ rows, (cfg.orderBy rows).Perm rows ∧ (cfg.orderBy rows).Pairwise Item.Before

/-- The table has the items, and the fallback mirrors rows of it. -/
structure Served (s : Store) (w : UserItems) : Prop where
  table : s.table = some w.items
  canonical : ∀ i ∈ w.items.rows, CanonicalId i.id
  created : (w.items.rows.map Item.createdAt).Nodup
  mirror : s.fallback.Canonical

def Backend.Agrees (s : Store) (w : UserItems) : Backend → Prop
  | .redis => ∃ data, s = ⟨none, .redis data⟩ ∧ data.Holds w
  | .memory => s = ⟨none, .memory w.items⟩
  | .supabase _ => Served s w

section

variable {cfg : Config} {b : Backend} {s : Store} {w : UserItems} {env : Env} {i : Item} {market itemId : String}
  {u : Updates} {ids : List String}

/-! ## Supabase -/

section

variable (h : Served s w)

include h

theorem Served.list (hcfg : cfg.Orders) (htext : IsText market) (hreply : env.reply 0 = .answers) :
    s.listItems cfg env market = w.list market := by
  have hselect : Rows.select cfg.orderBy w.items market (env.reply 0) =
      .ok (cfg.orderBy (w.items.rows.filter fun i => i.market = market)) := if_pos ⟨htext, hreply⟩
  unfold Store.listItems
  rw [h.table]
  dsimp only
  rw [hselect]
  obtain ⟨hperm, hsorted⟩ := hcfg (w.items.rows.filter fun i => i.market = market)
  refine eq_sortItems_of_perm hperm hsorted fun a ha c hc hac hca => ?_
  refine List.inj_on_of_nodup_map h.created (List.mem_filter.mp ha).1 (List.mem_filter.mp hc).1 ?_
  unfold Item.Before at hac hca
  omega

theorem Served.create (hreply : env.reply 1 = .answers) (hfresh : w.Fresh i.id)
    (htakes : (Backend.supabase false).Takes w i) :
    Served (s.createRow env i).1 (w.add i).1 ∧ (s.createRow env i).2 = (w.add i).2 := by
  obtain ⟨hroom, hid, hstorable, hcreated⟩ := htakes
  unfold Store.createRow
  rw [h.table]
  dsimp only
  by_cases hpair : i.pair ∈ w.items.rows.map Item.pair
  · have hinsert : Rows.insert w.items i (env.reply 1) = (w.items, .error .uniqueViolation) := by
      unfold Rows.insert
      rw [hreply, hid]
      dsimp only [Rows.replied]
      rw [if_neg (not_not.mpr hstorable), if_pos (mem_pairs.mp hpair)]
    rw [hinsert, UserItems.add_of_pair hpair]
    exact ⟨⟨rfl, h.canonical, h.created, h.mirror⟩, rfl⟩
  · obtain ⟨hrows, hresult⟩ := UserItems.add_of_room hpair (hroom.resolve_left hpair) hfresh
    have hinsert : Rows.insert w.items i (env.reply 1) = ((w.add i).1.items, .ok i) := by
      obtain ⟨t, ht⟩ := Table.insert?_of_fresh hfresh
      have hsame : w.items.insert? { i with id := i.id } = some t := ht
      unfold Rows.insert
      rw [hreply, hid]
      dsimp only [Rows.replied]
      rw [if_neg (not_not.mpr hstorable), if_neg fun hex => hpair (mem_pairs.mpr hex), hsame]
      exact congrArg (Prod.mk · _) (Table.ext ((Table.insert?_eq_some ht).1.trans hrows.symm))
    rw [hinsert, hresult]
    refine ⟨⟨rfl, ?_, ?_, h.mirror.mirrorCreate hid⟩, rfl⟩
    · intro r hr
      rw [hrows, List.mem_append, List.mem_singleton] at hr
      rcases hr with hr | rfl
      · exact h.canonical r hr
      · exact hid
    · rw [hrows, List.map_append, List.map_singleton]
      refine List.nodup_append_comm.mp (List.nodup_cons.mpr ⟨fun hmem => ?_, h.created⟩)
      obtain ⟨r, hr, heq⟩ := List.mem_map.mp hmem
      exact absurd heq (hcreated r hr).ne

/-- The items with other values. -/
theorem Served.change {w' : UserItems} {f : Fallback} {set : Item → Item} (hid : ∀ i, (set i).id = i.id)
    (hcreated : ∀ i, (set i).createdAt = i.createdAt) (hrows : w'.items.rows = w.items.rows.map set)
    (hmirror : f.Canonical) : Served ⟨some w'.items, f⟩ w' := by
  refine ⟨rfl, fun i hi => ?_, ?_, hmirror⟩
  · rw [hrows] at hi
    obtain ⟨r, hr, rfl⟩ := List.mem_map.mp hi
    rw [hid]
    exact h.canonical r hr
  · have hsame : (w.items.rows.map set).map Item.createdAt = w.items.rows.map Item.createdAt := by
      rw [List.map_map]
      exact List.map_congr_left fun i _ => hcreated i
    rw [hrows, hsame]
    exact h.created

theorem Served.get?_of_uuidText (hid : uuidText itemId = none) : w.items.get? itemId = none := by
  refine Table.get?_eq_none.mpr fun r hr heq => ?_
  have hcanonical : uuidText r.id = some r.id := h.canonical r hr
  rw [heq, hid] at hcanonical
  cases hcanonical

theorem Served.update (hreply : env.reply 0 = .answers) (hid : Legible itemId) (hu : u.Storable) :
    Served (s.updateRow env itemId u).1 (w.modify itemId u).1 ∧
      (s.updateRow env itemId u).2 = (w.modify itemId u).2 := by
  unfold Store.updateRow
  rw [h.table]
  dsimp only
  rcases hid with hid | hid
  · have hupdate : Rows.update w.items itemId u (env.reply 0) =
        (Table.update w.items itemId (Item.update u) fun _ => rfl,
          .ok ((w.items.get? itemId).map (Item.update u))) := by
      unfold Rows.update
      rw [hreply, hid]
      exact if_neg (not_not.mpr hu)
    cases hitem : w.items.get? itemId with
    | none =>
        rw [hitem] at hupdate
        have hsame : (Table.update w.items itemId (Item.update u) fun _ => rfl) = w.items :=
          Table.ext (Table.update_of_none hitem)
        rw [hupdate, UserItems.modify_of_none hitem, hsame]
        exact ⟨⟨rfl, h.canonical, h.created, h.mirror⟩, rfl⟩
    | some r =>
        rw [hitem] at hupdate
        obtain ⟨hrows, hresult⟩ := UserItems.modify_of_some (u := u) hitem
        have hsame : (Table.update w.items itemId (Item.update u) fun _ => rfl) = (w.modify itemId u).1.items :=
          Table.ext hrows.symm
        rw [hupdate, hresult, hsame]
        refine ⟨h.change (fun i => ?_) (fun i => ?_) hrows h.mirror.mirrorUpdate, rfl⟩
        · split_ifs <;> rfl
        · split_ifs <;> rfl
  · have hupdate : Rows.update w.items itemId u (env.reply 0) = (w.items, .error .other) := by
      unfold Rows.update
      rw [hreply, hid]
      rfl
    have hitem := h.get?_of_uuidText hid
    rw [hupdate, UserItems.modify_of_none hitem]
    dsimp only
    rw [h.mirror.update_of_uuidText hid]
    exact ⟨⟨rfl, h.canonical, h.created, h.mirror⟩, rfl⟩

theorem Served.delete (hreply : env.reply 0 = .answers) (hid : Legible itemId) :
    Served (s.deleteItem env itemId).1 (w.remove itemId).1 ∧
      (s.deleteItem env itemId).2 = (w.remove itemId).2 := by
  unfold Store.deleteItem
  rw [h.table]
  dsimp only
  rcases hid with hid | hid
  · have hdelete : Rows.delete w.items itemId (env.reply 0) =
        (Table.delete w.items itemId, .ok (w.items.get? itemId)) := by
      unfold Rows.delete
      rw [hreply, hid]
      rfl
    cases hitem : w.items.get? itemId with
    | none =>
        rw [hitem] at hdelete
        have hsame : Table.delete w.items itemId = w.items := by
          refine Table.ext (List.filter_eq_self.mpr fun r hr => ?_)
          exact decide_eq_true (Table.get?_eq_none.mp hitem r hr)
        rw [hdelete, UserItems.remove_of_none hitem, hsame]
        exact ⟨⟨rfl, h.canonical, h.created, h.mirror⟩, rfl⟩
    | some r =>
        rw [hitem] at hdelete
        obtain ⟨hitems, hresult⟩ := UserItems.remove_of_some hitem
        rw [hdelete, hresult, ← hitems]
        refine ⟨⟨rfl, fun i hi => ?_, ?_, h.mirror.mirrorDelete⟩, rfl⟩
        · rw [hitems] at hi
          exact h.canonical i (Table.mem_delete.mp hi).1
        · rw [hitems]
          exact h.created.sublist (List.filter_sublist.map _)
  · have hdelete : Rows.delete w.items itemId (env.reply 0) = (w.items, .error .other) := by
      unfold Rows.delete
      rw [hreply, hid]
      rfl
    have hitem := h.get?_of_uuidText hid
    rw [hdelete, UserItems.remove_of_none hitem]
    dsimp only
    rw [h.mirror.delete_of_uuidText hid]
    exact ⟨⟨rfl, h.canonical, h.created, h.mirror⟩, rfl⟩

theorem Served.reorder (hreply : ∀ k, env.reply k = .answers) (hids : checkIds (w.list market) ids = .ok ()) :
    Served (s.reorderRows env market ids).1 (w.arrange ids) ∧
      (s.reorderRows env market ids).2 = .ok ((w.arrange ids).list market) := by
  have hrows : ∀ id ∈ ids, w.items.get? id ≠ none := fun id hid => by
    obtain ⟨r, hr, -⟩ := get?_of_mem_ids hids hid
    rw [hr]
    exact Option.some_ne_none r
  have hshort : ids.length ≤ 50 := by
    have hlength := (ids_perm hids).length_eq
    rw [List.length_map] at hlength
    rw [hlength]
    exact (List.length_filter_le ..).trans w.bounded
  have hpatch : ∀ (n : ℕ) (t : Table Item.id) r, ∀ p ∈ patches 0 ids, t.get? p.1 = some r →
      Store.patch env n t p.1 p.2 =
        (Table.update t p.1 (Item.update ⟨none, some p.2⟩) fun _ => rfl, .ok (r.update ⟨none, some p.2⟩)) := by
    intro n t r p hp hr
    obtain ⟨hmem, hlow, hhigh⟩ := mem_patches hp
    have hstorable : Updates.Storable ⟨none, some p.2⟩ := by
      refine ⟨fun note hnote => absurd hnote (Option.not_mem_none note), fun k hk => ?_⟩
      rw [Option.mem_some_iff] at hk
      unfold IsInteger
      omega
    obtain ⟨x, hx, -⟩ := get?_of_mem_ids hids hmem
    obtain ⟨hin, hid⟩ := Table.get?_eq_some.mp hx
    have hcanonical : uuidText p.1 = some p.1 := hid ▸ h.canonical x hin
    unfold Store.patch Rows.update
    rw [hreply, hcanonical]
    dsimp only [Rows.replied]
    rw [if_neg (not_not.mpr hstorable), hr]
    rfl
  have hinOrder : ∀ r ∈ w.inOrder ids, CanonicalId r.id := by
    intro r hr
    obtain ⟨id, -, hget⟩ := List.mem_filterMap.mp hr
    rw [arrange_get?, Option.map_eq_some_iff] at hget
    obtain ⟨x, hx, rfl⟩ := hget
    rw [placed_id]
    exact h.canonical x (Table.get?_eq_some.mp hx).1
  have hsort : sortByIndex (w.inOrder ids) = w.inOrder ids :=
    sortByIndex_of_increasing (List.Perm.refl _) (inOrder_increasing hids)
  unfold Store.reorderRows
  rw [h.table, arrange_list hids]
  dsimp only
  rw [patchEach_patches (checkIds_ok hids).1 hrows hpatch]
  change Served ⟨some (w.arrange ids).items, _⟩ _ ∧ Except.ok (sortByIndex (w.inOrder ids)) = _
  rw [hsort]
  refine ⟨h.change (placed_id 0 ids) (fun i => ?_) rfl (h.mirror.mirrorReorder ?_), rfl⟩
  · unfold placed
    split_ifs <;> rfl
  · exact fun r hr => hinOrder r (hsort ▸ hr)

end

/-! ## Every backend -/

namespace Backend.Agrees

variable (h : b.Agrees s w)

include h

theorem list (hcfg : cfg.Orders) (hans : b.Answers (.list market, env)) :
    s.listItems cfg env market = w.list market := by
  cases b with
  | redis =>
      obtain ⟨data, rfl, hdata⟩ := h
      exact hdata.list
  | memory =>
      cases h
      rfl
  | supabase inRedis => exact Served.list h hcfg hans.2 (hans.1 0)

theorem createRow {m : SymbolMeta} {note : String} (hans : b.Answers (.create market m note, env))
    (hfresh : w.Fresh i.id) (htakes : b.Takes w i) :
    b.Agrees (s.createRow env i).1 (w.add i).1 ∧ (s.createRow env i).2 = (w.add i).2 := by
  cases b with
  | redis =>
      obtain ⟨data, rfl, hdata⟩ := h
      obtain ⟨hholds, hresult⟩ := hdata.create hfresh htakes
      exact ⟨⟨_, rfl, hholds⟩, hresult⟩
  | memory =>
      cases h
      obtain ⟨hitems, hresult⟩ := memory_create hfresh
      exact ⟨congrArg (fun rows => Store.mk none (.memory rows)) hitems, hresult⟩
  | supabase inRedis => exact Served.create h (hans.1 1) hfresh htakes

theorem updateRow (hans : b.Answers (.update itemId u, env)) :
    b.Agrees (s.updateRow env itemId u).1 (w.modify itemId u).1 ∧
      (s.updateRow env itemId u).2 = (w.modify itemId u).2 := by
  cases b with
  | redis =>
      obtain ⟨data, rfl, hdata⟩ := h
      obtain ⟨hholds, hresult⟩ := hdata.update itemId u
      exact ⟨⟨_, rfl, hholds⟩, hresult⟩
  | memory =>
      cases h
      obtain ⟨hitems, hresult⟩ := memory_update w itemId u
      exact ⟨congrArg (fun rows => Store.mk none (.memory rows)) hitems, hresult⟩
  | supabase inRedis => exact Served.update h (hans.1 0) hans.2.1 hans.2.2

theorem deleteItem (hans : b.Answers (.delete itemId, env)) :
    b.Agrees (s.deleteItem env itemId).1 (w.remove itemId).1 ∧
      (s.deleteItem env itemId).2 = (w.remove itemId).2 := by
  cases b with
  | redis =>
      obtain ⟨data, rfl, hdata⟩ := h
      obtain ⟨hholds, hresult⟩ := hdata.delete itemId
      exact ⟨⟨_, rfl, hholds⟩, hresult⟩
  | memory =>
      cases h
      obtain ⟨hitems, hresult⟩ := memory_delete w itemId
      exact ⟨congrArg (fun rows => Store.mk none (.memory rows)) hitems, hresult⟩
  | supabase inRedis => exact Served.delete h (hans.1 0) hans.2

theorem reorderRows (hans : b.Answers (.reorder market ids, env)) (hids : checkIds (w.list market) ids = .ok ()) :
    b.Agrees (s.reorderRows env market ids).1 (w.arrange ids) ∧
      (s.reorderRows env market ids).2 = .ok ((w.arrange ids).list market) := by
  cases b with
  | redis =>
      obtain ⟨data, rfl, hdata⟩ := h
      obtain ⟨hholds, hresult⟩ := hdata.reorder hids
      exact ⟨⟨_, rfl, hholds⟩, hresult⟩
  | memory =>
      cases h
      obtain ⟨hitems, hresult⟩ := Prod.ext_iff.mp (memory_reorder hids)
      exact ⟨congrArg (fun rows => Store.mk none (.memory rows)) hitems, hresult⟩
  | supabase inRedis => exact Served.reorder h hans.1 hids

/-- **One call.** -/
theorem step {call : Op × Env} (hcfg : cfg.Orders) (hclear : Clear cfg b w call) :
    b.Agrees (s.step cfg call).1 (w.step cfg call).1 ∧ (s.step cfg call).2 = (w.step cfg call).2 := by
  obtain ⟨hans, hadds⟩ := hclear
  obtain ⟨op, env⟩ := call
  cases op with
  | list market => exact ⟨h, congrArg Response.items (h.list hcfg hans)⟩
  | create market m note =>
      change b.Agrees (s.createItem cfg env market m note).1 (w.create cfg env market m note).1 ∧
        respond .item (s.createItem cfg env market m note).2 = respond .item (w.create cfg env market m note).2
      unfold Store.createItem UserItems.create
      rcases hnote : validateNote note with e | ⟨⟩
      · exact ⟨h, rfl⟩
      · rcases hlisted : ensureWhitelisted cfg m with e | ⟨⟩
        · exact ⟨h, rfl⟩
        · obtain ⟨hfresh, htakes⟩ := hadds _ ⟨hnote, hlisted, rfl⟩
          have htext : b.Answers (.list market, env) := by
            cases b with
            | redis => trivial
            | memory => trivial
            | supabase inRedis => exact ⟨hans.1, htakes.2.2.1.1 market List.mem_cons_self⟩
          obtain ⟨hagrees, hresult⟩ := h.createRow hans hfresh htakes
          dsimp only
          rw [h.list hcfg htext]
          exact ⟨hagrees, congrArg (respond .item) hresult⟩
  | update itemId u =>
      change b.Agrees (s.updateItem env itemId u).1 (w.update itemId u).1 ∧
        respond .item (s.updateItem env itemId u).2 = respond .item (w.update itemId u).2
      unfold Store.updateItem UserItems.update
      rcases hchecked : checkUpdates u with e | ⟨⟩
      · exact ⟨h, rfl⟩
      · obtain ⟨hagrees, hresult⟩ := h.updateRow hans
        exact ⟨hagrees, congrArg (respond .item) hresult⟩
  | delete itemId =>
      obtain ⟨hagrees, hresult⟩ := h.deleteItem hans
      exact ⟨hagrees, congrArg (respond fun _ => .deleted) hresult⟩
  | reorder market ids =>
      change b.Agrees (s.reorder cfg env market ids).1 (w.reorder market ids).1 ∧
        respond .items (s.reorder cfg env market ids).2 = respond .items (w.reorder market ids).2
      unfold Store.reorder UserItems.reorder
      rw [h.list hcfg hans]
      rcases hids : checkIds (w.list market) ids with e | ⟨⟩
      · exact ⟨h, rfl⟩
      · obtain ⟨hagrees, hresult⟩ := h.reorderRows hans hids
        exact ⟨hagrees, congrArg (respond .items) hresult⟩

end Backend.Agrees

/-! ## How many items there are -/

theorem RedisData.Holds.length_le {data : RedisData} (h : data.Holds w) :
    (Fallback.redis data).rows.length ≤ w.items.rows.length := by
  have hnodup : w.items.rows.Nodup := w.items.keys.of_map
  refine (List.subperm_of_subset ?_ fun r hr => ?_).length_le
  · refine List.nodup_flatMap.mpr ⟨fun e he => ?_, ?_⟩
    · rw [← rowsOf_of_mem he, h]
      exact hnodup.filter _
    · refine (List.pairwise_map.mp data.keys).imp_of_mem fun he he' hne r hr hr' => hne ?_
      rw [← rowsOf_of_mem he] at hr
      rw [← rowsOf_of_mem he'] at hr'
      exact (h.mem_rowsOf.mp hr).2.symm.trans (h.mem_rowsOf.mp hr').2
  · obtain ⟨e, he, hre⟩ := List.mem_flatMap.mp hr
    rw [← rowsOf_of_mem he] at hre
    exact (h.mem_rowsOf.mp hre).1

theorem Backend.Agrees.length_le (h : b.Agrees s w) : s.items.length ≤ maxItemsPerUser := by
  cases b with
  | redis =>
      obtain ⟨data, rfl, hdata⟩ := h
      exact hdata.length_le.trans w.bounded
  | memory =>
      cases h
      exact w.bounded
  | supabase inRedis =>
      unfold Store.items
      rw [Served.table h]
      exact w.bounded

theorem agrees_start : b.Agrees b.start .empty := by
  have hredis : RedisData.Holds .empty .empty := fun _ => rfl
  cases b with
  | redis => exact ⟨_, rfl, hredis⟩
  | memory => rfl
  | supabase inRedis =>
      cases inRedis <;>
        exact ⟨rfl, fun i hi => absurd hi List.not_mem_nil, List.nodup_nil, fun r hr => absurd hr List.not_mem_nil⟩

end

end CryptoAggHarmonic.Watchlist
