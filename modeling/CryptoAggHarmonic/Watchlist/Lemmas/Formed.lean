import CryptoAggHarmonic.Watchlist.Lemmas.Steps
import CryptoAggHarmonic.Watchlist.Lemmas.Workers
import CryptoAggHarmonic.Lib.Steps

/-!
# The states of a store

Whatever becomes of the statements, the rows of a store that is alone have ids of their own, and with a table all ids
are as the table shows them.
-/

namespace CryptoAggHarmonic.Watchlist

def Rows.Canonical (t : Rows) : Prop := ∀ r ∈ t.rows, CanonicalId r.id

structure Store.Formed (s : Store) : Prop where
  alone : ∀ data, s.table = none → s.fallback = .redis data → ∃ t : Rows, data.Shows t
  served : ∀ t, s.table = some t → t.Canonical ∧ s.fallback.Canonical

theorem formed_redis {data : RedisData} (h : ∃ t : Rows, data.Shows t) : Store.Formed ⟨none, .redis data⟩ where
  alone := by
    rintro _ - ⟨⟩
    exact h
  served := by
    rintro _ ⟨⟩

theorem formed_memory (rows : MemoryRows) : Store.Formed ⟨none, .memory rows⟩ where
  alone := by
    rintro _ - ⟨⟩
  served := by
    rintro _ ⟨⟩

theorem formed_table {t : Rows} {f : Fallback} (ht : t.Canonical) (hf : f.Canonical) : Store.Formed ⟨some t, f⟩ where
  alone := by
    rintro _ ⟨⟩
  served := by
    rintro _ ⟨⟩
    exact ⟨ht, hf⟩

/-- A new row gets an id that is new, and that of a `UUID`. -/
def DrawsId (s : Store) (call : Op × Env) : Prop :=
  match call.1 with
  | .create .. => CanonicalId call.2.newId ∧ ∀ r ∈ s.fallback.rows, r.id ≠ call.2.newId
  | _ => True

section

variable {cfg : Config} {s : Store} {call : Op × Env} {env : Env} {t : Rows} {f : Fallback} {data : RedisData}
  {row : Item} {reply : Reply} {itemId market : String} {u : Updates} {ps : List (String × ℤ)}

/-! ## Redis alone -/

theorem Change.apply_error {change : Change} {e : WatchlistError} (h : (change.apply data).2 = .error e) :
    (change.apply data).1 = data := by
  cases change with
  | create payload =>
      change (data.create payload).1 = data
      change Except.map _ (data.create payload).2 = _ at h
      unfold RedisData.create at h ⊢
      dsimp only at h ⊢
      split_ifs at h ⊢
      · rfl
      · rfl
      · cases h
  | update itemId u =>
      change (data.update itemId _).1 = data
      change Except.map _ (data.update itemId _).2 = _ at h
      unfold RedisData.update at h ⊢
      cases hfound : data.locate itemId with
      | none => rfl
      | some located =>
          rw [hfound] at h
          cases h
  | delete itemId =>
      change (data.delete itemId).1 = data
      change Except.map _ (data.delete itemId).2 = _ at h
      unfold RedisData.delete at h ⊢
      cases hfound : data.locate itemId with
      | none => rfl
      | some located =>
          rw [hfound] at h
          cases h
  | reorder market ps =>
      change (data.reorder market ps).1 = data
      change Except.map _ (data.reorder market ps).2 = _ at h
      unfold RedisData.reorder at h ⊢
      cases hrows : RedisData.patchRows ps (data.rowsOf market) with
      | error e => rfl
      | ok rows =>
          rw [hrows] at h
          cases h

theorem Change.shows_apply {change : Change} (h : data.Shows t) (hfresh : change.Fresh t) :
    ∃ t' : Rows, (change.apply data).1.Shows t' := by
  cases hresult : (change.apply data).2 with
  | ok response => exact ⟨_, apply_shows h hfresh hresult⟩
  | error e =>
      rw [apply_error hresult]
      exact ⟨t, h⟩

/-! ## The table and what mirrors it -/

theorem replied_kept {α : Type} {P : Rows → Prop} {done : Rows × Except Failure α} (h : P t) (hdone : P done.1) :
    P (Rows.replied reply t done).1 := by
  cases reply with
  | answers => exact hdone
  | lost => exact hdone
  | raises => exact h

theorem insert_canonical (h : t.Canonical) (hid : CanonicalId row.id) : Rows.Canonical (t.insert row reply).1 := by
  have hcanonical : uuidText row.id = some row.id := hid
  refine replied_kept h ?_
  rw [hcanonical]
  dsimp only
  split_ifs
  · exact h
  · cases hinsert : Table.insert? t { row with id := row.id } with
    | none => exact h
    | some t' =>
        intro r hr
        rw [(Table.insert?_eq_some hinsert).1] at hr
        rcases List.mem_append.mp hr with hr | hr
        · exact h r hr
        · rw [List.mem_singleton.mp hr]
          exact hid
  · exact h

theorem update_canonical (h : t.Canonical) : Rows.Canonical (Rows.update t itemId u reply).1 := by
  refine replied_kept h ?_
  split
  · exact h
  · split_ifs
    · intro r hr
      obtain ⟨x, hx, rfl⟩ := Rows.mem_update.mp hr
      split_ifs <;> exact h x hx
    · exact h

/-- The row that is updated is one of the table. -/
theorem update_row_canonical (h : t.Canonical)
    (hok : (Rows.update t itemId u reply).2 = .ok (some row)) : CanonicalId row.id := by
  unfold Rows.update at hok
  cases reply with
  | raises => cases hok
  | lost => cases hok
  | answers =>
      dsimp only [Rows.replied] at hok
      split at hok
      · cases hok
      · split_ifs at hok
        rw [Except.ok.injEq, Option.map_eq_some_iff] at hok
        obtain ⟨r, hr, rfl⟩ := hok
        exact h r (Table.get?_eq_some.mp hr).1

theorem delete_canonical (h : t.Canonical) : Rows.Canonical (Rows.delete t itemId reply).1 := by
  refine replied_kept h ?_
  split
  · exact h
  · exact fun r hr => h r (Table.mem_delete.mp hr).1

theorem canonical_fallback_update (h : f.Canonical) : (f.update itemId u).1.Canonical := by
  cases f with
  | redis data => exact canonical_redis_update (Item.update_id u) h
  | memory rows => exact canonical_memory_update h

theorem canonical_fallback_reorder (h : f.Canonical) : (f.reorder market ps).1.Canonical := by
  cases f with
  | redis data =>
      change (Fallback.redis (data.reorder market ps).1).Canonical
      unfold RedisData.reorder
      cases hrows : RedisData.patchRows ps (data.rowsOf market) with
      | error e => exact h
      | ok rows =>
          cases data.get? market with
          | none => exact h
          | some e =>
              refine canonical_put h fun r hr => ?_
              rw [(patchRows_eq_ok hrows).1] at hr
              obtain ⟨x, hx, rfl⟩ := List.mem_map.mp hr
              rw [patched_id]
              exact h x (mem_rows_of_rowsOf hx)
  | memory rows =>
      exact patchEach_kept (P := fun t => (Fallback.memory t).Canonical)
        (fun _ _ _ _ h => canonical_memory_update h) h

/-- Every row that a loop of statements has given. -/
theorem patchEach_results {σ ε α : Type} {patch : ℕ → σ → String → ℤ → σ × Except ε α} {P : σ → Prop} {Q : α → Prop}
    (hkept : ∀ n s id k, P s → P (patch n s id k).1)
    (hresult : ∀ n s id k a, P s → (patch n s id k).2 = .ok a → Q a) {n : ℕ} {ps : List (String × ℤ)} {s : σ}
    {rows : List α} (h : P s) (hok : (patchEach patch n ps s).2 = .ok rows) : ∀ a ∈ rows, Q a := by
  induction ps generalizing n s rows with
  | nil =>
      cases hok
      simp
  | cons p ps ih =>
      obtain ⟨id, k⟩ := p
      have hfirst := hkept n s id k h
      have hgiven := hresult n s id k
      unfold patchEach at hok
      rcases hres : patch n s id k with ⟨s', e | a⟩
      · rw [hres] at hok
        cases hok
      · rw [hres] at hok hfirst hgiven
        dsimp only at hok hfirst
        rcases hloop : patchEach patch (n + 1) ps s' with ⟨s'', e | rest⟩
        · rw [hloop] at hok
          cases hok
        · rw [hloop] at hok
          cases hok
          have hrest : (patchEach patch (n + 1) ps s').2 = .ok rest := by rw [hloop]
          exact List.forall_mem_cons.mpr ⟨hgiven a h rfl, ih hfirst hrest⟩

/-! ## A call -/

theorem formed_redis_step {data : RedisData} (hshows : data.Shows t) (hdraws : DrawsId ⟨none, .redis data⟩ call) :
    (Store.step cfg ⟨none, .redis data⟩ call).1.Formed := by
  have hsame : Store.Formed ⟨none, .redis data⟩ := formed_redis ⟨t, hshows⟩
  have hstep : ∀ change : Change, change.Fresh t → Store.Formed ⟨none, .redis (change.apply data).1⟩ :=
    fun _ hfresh => formed_redis (Change.shows_apply hshows hfresh)
  obtain ⟨op, env⟩ := call
  cases op with
  | list market => exact hsame
  | create market m note =>
      change (Store.createItem cfg ⟨none, .redis data⟩ env market m note).1.Formed
      unfold Store.createItem
      cases validateNote note with
      | error e => exact hsame
      | ok _ =>
          cases ensureWhitelisted cfg m with
          | error e => exact hsame
          | ok _ =>
              refine hstep (.create (payload env market m note _)) fun r hr => ?_
              exact hdraws.2 r (mem_rows_of_rowsOf (hshows.mem_rowsOf.mpr ⟨hr, rfl⟩))
  | update itemId u =>
      change (Store.updateItem ⟨none, .redis data⟩ env itemId u).1.Formed
      unfold Store.updateItem
      cases checkUpdates u with
      | error e => exact hsame
      | ok _ => exact hstep (.update itemId u) trivial
  | delete itemId => exact hstep (.delete itemId) trivial
  | reorder market ids =>
      change (Store.reorder cfg ⟨none, .redis data⟩ env market ids).1.Formed
      unfold Store.reorder
      cases checkIds (Store.listItems cfg ⟨none, .redis data⟩ env market) ids with
      | error e => exact hsame
      | ok _ => exact hstep (.reorder market (patches 0 ids)) trivial

theorem formed_memory_step {rows : MemoryRows} : (Store.step cfg ⟨none, .memory rows⟩ call).1.Formed := by
  obtain ⟨op, env⟩ := call
  cases op with
  | list market => exact formed_memory rows
  | create market m note =>
      change (Store.createItem cfg ⟨none, .memory rows⟩ env market m note).1.Formed
      unfold Store.createItem
      cases validateNote note with
      | error e => exact formed_memory rows
      | ok _ => cases ensureWhitelisted cfg m <;> exact formed_memory _
  | update itemId u =>
      change (Store.updateItem ⟨none, .memory rows⟩ env itemId u).1.Formed
      unfold Store.updateItem
      cases checkUpdates u <;> exact formed_memory _
  | delete itemId => exact formed_memory _
  | reorder market ids =>
      change (Store.reorder cfg ⟨none, .memory rows⟩ env market ids).1.Formed
      unfold Store.reorder
      cases checkIds (Store.listItems cfg ⟨none, .memory rows⟩ env market) ids <;> exact formed_memory _

theorem formed_table_step {f : Fallback} (ht : t.Canonical) (hf : f.Canonical) (hdraws : DrawsId ⟨some t, f⟩ call) :
    (Store.step cfg ⟨some t, f⟩ call).1.Formed := by
  have hsame : Store.Formed ⟨some t, f⟩ := formed_table ht hf
  obtain ⟨op, env⟩ := call
  cases op with
  | list market => exact hsame
  | create market m note =>
      change (Store.createItem cfg ⟨some t, f⟩ env market m note).1.Formed
      unfold Store.createItem
      cases validateNote note with
      | error e => exact hsame
      | ok _ =>
          cases ensureWhitelisted cfg m with
          | error e => exact hsame
          | ok _ =>
              dsimp only
              generalize hrow : payload env market m note _ = row
              have hid : CanonicalId row.id := by
                rw [← hrow]
                exact hdraws.1
              have hinsert : Rows.Canonical (t.insert row (env.reply 1)).1 := insert_canonical ht hid
              unfold Store.createRow
              dsimp only
              rcases hres : t.insert row (env.reply 1) with ⟨t', (_ | _) | stored⟩ <;> rw [hres] at hinsert
              · exact formed_table hinsert hf
              · exact formed_table hinsert (hf.mirrorCreate hid)
              · exact formed_table hinsert (hf.mirrorCreate hid)
  | update itemId u =>
      change (Store.updateItem ⟨some t, f⟩ env itemId u).1.Formed
      unfold Store.updateItem
      cases checkUpdates u with
      | error e => exact hsame
      | ok _ =>
          have hupdate : Rows.Canonical (Rows.update t itemId u (env.reply 0)).1 := update_canonical ht
          dsimp only
          unfold Store.updateRow
          dsimp only
          rcases hres : Rows.update t itemId u (env.reply 0) with ⟨t', e | _ | updated⟩ <;> rw [hres] at hupdate
          · exact formed_table hupdate (canonical_fallback_update hf)
          · exact formed_table hupdate hf
          · exact formed_table hupdate hf.mirrorUpdate
  | delete itemId =>
      change (Store.deleteItem ⟨some t, f⟩ env itemId).1.Formed
      have hdelete : Rows.Canonical (Rows.delete t itemId (env.reply 0)).1 := delete_canonical ht
      unfold Store.deleteItem
      dsimp only
      rcases hres : Rows.delete t itemId (env.reply 0) with ⟨t', e | _ | deleted⟩ <;> rw [hres] at hdelete
      · exact formed_table hdelete hf.mirrorDelete
      · exact formed_table hdelete hf
      · exact formed_table hdelete hf.mirrorDelete
  | reorder market ids =>
      change (Store.reorder cfg ⟨some t, f⟩ env market ids).1.Formed
      unfold Store.reorder
      cases checkIds (Store.listItems cfg ⟨some t, f⟩ env market) ids with
      | error e => exact hsame
      | ok _ =>
          have hkept : ∀ n (t : Rows) id k, t.Canonical → Rows.Canonical (Store.patch env n t id k).1 := by
            intro n t id k h
            have hupdate : Rows.Canonical (Rows.update t id ⟨none, some k⟩ (env.reply (n + 1))).1 := update_canonical h
            unfold Store.patch
            rcases hres : Rows.update t id ⟨none, some k⟩ (env.reply (n + 1)) with ⟨t', e | _ | updated⟩ <;>
              rw [hres] at hupdate <;> exact hupdate
          have hgiven : ∀ n (t : Rows) id k row, t.Canonical → (Store.patch env n t id k).2 = .ok row →
              CanonicalId row.id := by
            intro n t id k row h hok
            unfold Store.patch at hok
            rcases hres : Rows.update t id ⟨none, some k⟩ (env.reply (n + 1)) with ⟨t', e | _ | updated⟩ <;>
              rw [hres] at hok <;> cases hok
            have hupdated : (Rows.update t id ⟨none, some k⟩ (env.reply (n + 1))).2 = .ok (some row) := by rw [hres]
            exact update_row_canonical h hupdated
          have hloop : Rows.Canonical (patchEach (Store.patch env) 0 (patches 0 ids) t).1 := patchEach_kept hkept ht
          have hrows : ∀ rows, (patchEach (Store.patch env) 0 (patches 0 ids) t).2 = .ok rows →
              ∀ r ∈ rows, CanonicalId r.id := fun rows hok => patchEach_results hkept hgiven ht hok
          dsimp only
          unfold Store.reorderRows
          dsimp only
          rcases hres : patchEach (Store.patch env) 0 (patches 0 ids) t with ⟨t', (_ | e) | rows⟩ <;>
            rw [hres] at hloop hrows
          · exact formed_table hloop (canonical_fallback_reorder hf)
          · exact formed_table hloop hf
          · refine formed_table hloop (hf.mirrorReorder fun r hr => ?_)
            exact hrows rows rfl r ((List.perm_insertionSort ..).subset hr)

theorem Store.Formed.step (h : s.Formed) (hdraws : DrawsId s call) : (s.step cfg call).1.Formed := by
  obtain ⟨_ | t, data | rows⟩ := s
  · obtain ⟨t, hshows⟩ := h.alone data rfl rfl
    exact formed_redis_step hshows hdraws
  · exact formed_memory_step
  · exact formed_table_step (h.served t rfl).1 (h.served t rfl).2 hdraws
  · exact formed_table_step (h.served t rfl).1 (h.served t rfl).2 hdraws

theorem formed_start (b : Backend) : b.start.Formed := by
  have hrows : Rows.Canonical (.empty : Rows) := fun _ hr => by cases hr
  match b with
  | .redis => exact formed_redis ⟨.empty, fun _ => rfl⟩
  | .memory => exact formed_memory _
  | .supabase true => exact formed_table hrows fun _ hr => by cases hr
  | .supabase false => exact formed_table hrows fun _ hr => by cases hr

/-- The states that calls reach. -/
theorem formed_run (b : Backend) {calls : List (Op × Env)}
    (h : Steps.Along (fun s call => (Store.step cfg s call).1) DrawsId b.start calls) :
    Steps.Always (fun s call => (Store.step cfg s call).1) Store.Formed b.start calls :=
  Steps.always_of_along (fun _ h => h) (fun _ _ h hdraws => h.step hdraws) (formed_start b) h

end

end CryptoAggHarmonic.Watchlist
