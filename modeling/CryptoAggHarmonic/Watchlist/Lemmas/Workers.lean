import CryptoAggHarmonic.Watchlist.Spec
import CryptoAggHarmonic.Watchlist.Lemmas.Stores

/-!
# What overlapping calls keep

Every save stores a copy that one operation has made of a blob that was stored, so that the symbols of a market stay
distinct in any run. The changes of the others it keeps where nothing was saved since its own load.
-/

namespace CryptoAggHarmonic.Watchlist

variable {ι : Type} {cfg : Config} {data : RedisData} {t t₀ : Table Item.id} {change : Change} {response : Response}
  {s : Shared} {c : Call} {w : Workers ι} {e : ι × Unit} {schedule : List (ι × Unit)} {calls : ι → Op × Env} {id : String}

/-! ## One change -/

/-- No two items of a market share a symbol. -/
def RedisData.SymbolsUnique (data : RedisData) : Prop := ∀ market, ((data.rowsOf market).map (·.symbol)).Nodup

theorem symbolsUnique_put {market : String} {rows : List Item} (h : data.SymbolsUnique)
    (hrows : (rows.map (·.symbol)).Nodup) : RedisData.SymbolsUnique (data.put (market, rows)) := by
  intro m
  rw [rowsOf_put]
  split_ifs
  · exact hrows
  · exact h m

theorem symbols_map {set : Item → Item} (rows : List Item) (hset : ∀ r, (set r).symbol = r.symbol) :
    (rows.map set).map (·.symbol) = rows.map (·.symbol) := by
  rw [List.map_map]
  exact List.map_congr_left fun r _ => hset r

theorem Change.apply_unique (h : data.SymbolsUnique) (hok : (change.apply data).2 = .ok response) :
    (change.apply data).1.SymbolsUnique := by
  cases change with
  | create payload =>
      cases hcreate : (data.create payload).2 with
      | error e => simp [apply, hcreate, Except.map] at hok
      | ok r =>
          obtain ⟨-, hdata, hfree⟩ := create_eq_ok hcreate
          change (data.create payload).1.SymbolsUnique
          rw [hdata]
          refine symbolsUnique_put h ?_
          rw [List.map_append, List.map_singleton]
          refine List.nodup_append_comm.mp (List.nodup_cons.mpr ⟨fun hmem => ?_, h _⟩)
          obtain ⟨r, hr, hsymbol⟩ := List.mem_map.mp hmem
          exact hfree r hr hsymbol
  | update itemId u =>
      change (data.update itemId (Item.update u)).1.SymbolsUnique
      unfold RedisData.update
      cases hfound : data.locate itemId with
      | none => exact h
      | some located =>
          obtain ⟨entry, r⟩ := located
          refine symbolsUnique_put h ?_
          rw [symbols_map, ← rowsOf_of_mem (locate_eq_some hfound).1]
          · exact h _
          · intro r
            split_ifs <;> rfl
  | delete itemId =>
      change (data.delete itemId).1.SymbolsUnique
      unfold RedisData.delete
      cases hfound : data.locate itemId with
      | none => exact h
      | some located =>
          obtain ⟨entry, r⟩ := located
          refine symbolsUnique_put h ?_
          rw [← rowsOf_of_mem (locate_eq_some hfound).1]
          exact (h _).sublist (List.filter_sublist.map _)
  | reorder market ps =>
      cases hreorder : (data.reorder market ps).2 with
      | error e => simp [apply, hreorder, Except.map] at hok
      | ok sorted =>
          intro m
          change (((data.reorder market ps).1.rowsOf m).map _).Nodup
          rw [(reorder_eq_ok hreorder).1]
          split_ifs
          · rw [symbols_map _ fun r => congrArg (·.2.2.symbol) (patched_identity ps r)]
            exact h m
          · exact h m

/-- The item a change adds has an id that is not taken. -/
def Change.Fresh (t : Table Item.id) : Change → Prop
  | .create payload => ∀ r ∈ t.rows, r.id ≠ payload.id
  | _ => True

/-- What an acknowledged change does to the data it does to the items. -/
theorem Change.apply_shows (h : data.Shows t) (hfresh : change.Fresh t) (hok : (change.apply data).2 = .ok response) :
    (change.apply data).1.Shows (change.done t) := by
  cases change with
  | create payload =>
      cases hcreate : (data.create payload).2 with
      | error e => simp [apply, hcreate, Except.map] at hok
      | ok r =>
          change (data.create payload).1.Shows (t.put payload)
          rw [(create_eq_ok hcreate).2.1]
          exact h.put_append (Table.put_rows_of_fresh hfresh)
  | update itemId u =>
      rcases h.update itemId (Item.update u) (Item.update_id u) fun _ => rfl with ⟨-, hnone⟩ | ⟨r, -, hshows, -⟩
      · simp [apply, hnone, Except.map] at hok
      · exact hshows
  | delete itemId =>
      rcases h.delete itemId with ⟨-, hnone⟩ | ⟨r, -, hshows, -⟩
      · simp [apply, hnone, Except.map] at hok
      · exact hshows
  | reorder market ps =>
      cases hreorder : (data.reorder market ps).2 with
      | error e => simp [apply, hreorder, Except.map] at hok
      | ok sorted => exact h.reorder hreorder

theorem Change.identity_done (hfresh : change.Fresh t) {r : Item} (hr : r ∈ t.rows)
    (hkept : change ≠ .delete r.id) : ∃ r' ∈ (change.done t).rows, r'.identity = r.identity := by
  cases change with
  | create payload => exact ⟨r, Table.mem_put.mpr (Or.inr ⟨hr, hfresh r hr⟩), rfl⟩
  | update itemId u =>
      refine ⟨_, List.mem_map_of_mem hr, ?_⟩
      split_ifs <;> rfl
  | delete itemId =>
      refine ⟨r, Table.mem_delete.mpr ⟨hr, ?_⟩, rfl⟩
      rintro rfl
      exact hkept rfl
  | reorder market ps => exact ⟨_, List.mem_map_of_mem hr, patched_identity ps r⟩

/-- An item was there before, or is the one that the change adds. -/
theorem Change.mem_done {r : Item} (hr : r ∈ (change.done t).rows) :
    (∃ r₀ ∈ t.rows, r₀.id = r.id) ∨ ∃ payload, change = .create payload ∧ payload.id = r.id := by
  cases change with
  | create payload =>
      rcases Table.mem_put.mp hr with rfl | ⟨hr, -⟩
      · exact Or.inr ⟨_, rfl, rfl⟩
      · exact Or.inl ⟨r, hr, rfl⟩
  | update itemId u =>
      obtain ⟨r₀, hr₀, rfl⟩ := List.mem_map.mp hr
      refine Or.inl ⟨r₀, hr₀, ?_⟩
      split_ifs <;> rfl
  | delete itemId => exact Or.inl ⟨r, (Table.mem_delete.mp hr).1, rfl⟩
  | reorder market ps =>
      obtain ⟨r₀, hr₀, rfl⟩ := List.mem_map.mp hr
      exact Or.inl ⟨r₀, hr₀, (patched_id ps r₀).symm⟩

/-! ## One step -/

theorem callStep_cases (cfg : Config) (s : Shared) (c : Call) :
    (c.phase = .called ∧ callStep cfg () s c = (s, c.goto (prepare cfg s.data c.env c.op))) ∨
    (∃ change, c.phase = .prepared change ∧ callStep cfg () s c = (s, c.goto (.loaded change s.data))) ∨
    (∃ change data e, c.phase = .loaded change data ∧ callStep cfg () s c = (s, c.goto (.answered (.raised e)))) ∨
    (∃ change data response, c.phase = .loaded change data ∧ (change.apply data).2 = .ok response ∧
      callStep cfg () s c = ({ data := (change.apply data).1, acks := s.acks ++ [change] },
        c.goto (.acknowledged change response))) ∨
    callStep cfg () s c = (s, c) := by
  unfold callStep
  cases hphase : c.phase with
  | called => exact Or.inl ⟨rfl, rfl⟩
  | prepared change => exact Or.inr (Or.inl ⟨change, rfl, rfl⟩)
  | loaded change data =>
      rcases happly : change.apply data with ⟨saved, e | response⟩
      · exact Or.inr (Or.inr (Or.inl ⟨change, data, e, rfl, by simp [happly]⟩))
      · exact Or.inr (Or.inr (Or.inr (Or.inl ⟨change, data, response, rfl, by simp [happly], by simp [happly]⟩)))
  | acknowledged change response => exact Or.inr (Or.inr (Or.inr (Or.inr rfl)))
  | answered response => exact Or.inr (Or.inr (Or.inr (Or.inr rfl)))

/-- The change a call is to make, or has made. -/
def CallPhase.change? : CallPhase → Option Change
  | .prepared change | .loaded change _ | .acknowledged change _ => some change
  | _ => none

theorem prepare_cases (cfg : Config) (data : RedisData) (env : Env) (op : Op) :
    (∃ change, prepare cfg data env op = .prepared change ∧ ∀ payload, change = .create payload → payload.id = env.newId) ∨
    ∃ response, prepare cfg data env op = .answered response := by
  cases op with
  | list market => exact Or.inr ⟨_, rfl⟩
  | create market m note =>
      cases hnote : validateNote note with
      | error e => exact Or.inr ⟨.raised e, by simp [prepare, hnote]⟩
      | ok u =>
          cases hlisted : ensureWhitelisted cfg m with
          | error e => exact Or.inr ⟨.raised e, by simp [prepare, hnote, hlisted]⟩
          | ok u =>
              refine Or.inl ⟨.create (payload env market m note (nextSortIndex (data.list market))), ?_, ?_⟩
              · simp [prepare, hnote, hlisted]
              · rintro _ ⟨⟩
                rfl
  | update itemId u =>
      cases hcheck : checkUpdates u with
      | error e => exact Or.inr ⟨.raised e, by simp [prepare, hcheck]⟩
      | ok _ => exact Or.inl ⟨.update itemId u, by simp [prepare, hcheck], nofun⟩
  | delete itemId => exact Or.inl ⟨.delete itemId, rfl, nofun⟩
  | reorder market orderedIds =>
      cases hcheck : checkIds (data.list market) orderedIds with
      | error e => exact Or.inr ⟨.raised e, by simp [prepare, hcheck]⟩
      | ok _ => exact Or.inl ⟨.reorder market (patches 0 orderedIds), by simp [prepare, hcheck], nofun⟩

/-! ## Every run -/

/-- A copy has distinct symbols, too. -/
def Call.CopiesUnique (c : Call) : Prop := ∀ change data, c.phase = .loaded change data → data.SymbolsUnique

theorem symbolsUnique_step [DecidableEq ι]
    (h : Interleave.Holds (fun s : Shared => s.data.SymbolsUnique) (fun _ => Call.CopiesUnique) w) :
    Interleave.Holds (fun s : Shared => s.data.SymbolsUnique) (fun _ => Call.CopiesUnique)
      (Interleave.step (callStep cfg) w e) := by
  refine h.step ?_ fun _ _ hcopies => hcopies
  obtain ⟨hshared, hcopies⟩ := h
  rcases callStep_cases cfg w.shared (w.procs e.1) with
    ⟨-, hstep⟩ | ⟨_, -, hstep⟩ | ⟨_, _, _, -, hstep⟩ | ⟨_, _, _, hphase, hok, hstep⟩ | hstep
  · rw [hstep]
    refine ⟨hshared, fun change data hphase => ?_⟩
    rcases prepare_cases cfg w.shared.data (w.procs e.1).env (w.procs e.1).op with ⟨_, hnext, -⟩ | ⟨_, hnext⟩
    · simp [Call.goto, hnext] at hphase
    · simp [Call.goto, hnext] at hphase
  · rw [hstep]
    refine ⟨hshared, ?_⟩
    rintro _ _ ⟨⟩
    exact hshared
  · rw [hstep]
    exact ⟨hshared, fun _ _ hnow => by cases hnow⟩
  · rw [hstep]
    exact ⟨Change.apply_unique (hcopies e.1 _ _ hphase) hok, fun _ _ hnow => by cases hnow⟩
  · rw [hstep]
    exact ⟨hshared, hcopies e.1⟩

/-! ## Saves on what was loaded -/

/-- The calls draw ids of their own. -/
structure NewIds (t₀ : Table Item.id) (calls : ι → Op × Env) : Prop where
  unused : ∀ c, ∀ r ∈ t₀.rows, r.id ≠ (calls c).2.newId
  distinct : ∀ c d, (calls c).2.newId = (calls d).2.newId → c = d

/-- The id was given to an item, which may have been deleted since. -/
def Workers.Used (t₀ : Table Item.id) (w : Workers ι) (id : String) : Prop :=
  (∃ r ∈ t₀.rows, r.id = id) ∨
    ∃ c payload response, (w.procs c).phase = .acknowledged (.create payload) response ∧ payload.id = id

/-- The data shows what is acknowledged. -/
structure Kept (t₀ : Table Item.id) (calls : ι → Op × Env) (w : Workers ι) : Prop where
  env : ∀ c, (w.procs c).env = (calls c).2
  payload : ∀ c payload, (w.procs c).phase.change? = some (.create payload) → payload.id = (calls c).2.newId
  shows : w.shared.data.Shows (w.shared.expected t₀)
  logged : ∀ c change response, (w.procs c).phase = .acknowledged change response → change ∈ w.shared.acks
  used : ∀ r ∈ (w.shared.expected t₀).rows, w.Used t₀ r.id
  created : ∀ payload, .create payload ∈ w.shared.acks → .delete payload.id ∉ w.shared.acks →
    ∃ r ∈ (w.shared.expected t₀).rows, r.identity = payload.identity
  deleted : ∀ id, .delete id ∈ w.shared.acks → w.Used t₀ id ∧ ∀ r ∈ (w.shared.expected t₀).rows, r.id ≠ id

theorem kept_start (h : data.Shows t₀) : Kept t₀ calls (Workers.start data calls) where
  env _ := rfl
  payload _ _ hchange := by cases hchange
  shows := h
  logged _ _ _ hphase := by cases hphase
  used r hr := Or.inl ⟨r, hr, rfl⟩
  created _ hacks := by cases hacks
  deleted _ hacks := by cases hacks

/-- Nothing was saved since the call that saves has loaded. -/
def SavesOnLoaded (w : Workers ι) (e : ι × Unit) : Prop :=
  ∀ change data response, (w.procs e.1).phase = .loaded change data → (change.apply data).2 = .ok response →
    w.shared.data = data

/-- The id of an item that is not created yet is not in use. -/
theorem Kept.not_used (h : Kept t₀ calls w) (hnew : NewIds t₀ calls) {payload : Item} {c : ι}
    (hchange : (w.procs c).phase.change? = some (.create payload))
    (hpending : ∀ change response, (w.procs c).phase ≠ .acknowledged change response) : ¬ w.Used t₀ payload.id := by
  have hid := h.payload c payload hchange
  rintro (⟨r, hr, hsame⟩ | ⟨d, other, response, hphase, hsame⟩)
  · exact hnew.unused c r hr (hsame.trans hid)
  · have hother := h.payload d other (by rw [hphase]; rfl)
    have hcd : c = d := hnew.distinct c d (hid.symm.trans (hsame.symm.trans hother))
    exact hpending _ _ (hcd ▸ hphase)

section

variable [DecidableEq ι]

theorem Workers.Used.step (h : w.Used t₀ id) : Workers.Used t₀ (Interleave.step (callStep cfg) w e) id := by
  rcases h with h | ⟨c, payload, response, hphase, hid⟩
  · exact Or.inl h
  · refine Or.inr ⟨c, payload, response, ?_, hid⟩
    by_cases hc : c = e.1
    · subst hc
      simp [callStep, hphase]
    · rw [Interleave.step_procs_other hc]
      exact hphase

namespace Kept

variable (h : Kept t₀ calls w)

include h

/-- A step that saves nothing. -/
theorem aside {c' : Call} (hstep : callStep cfg e.2 w.shared (w.procs e.1) = (w.shared, c'))
    (henv : c'.env = (w.procs e.1).env)
    (hpayload : ∀ payload, c'.phase.change? = some (.create payload) → payload.id = (calls e.1).2.newId)
    (hphase : ∀ change response, c'.phase = .acknowledged change response →
      (w.procs e.1).phase = .acknowledged change response) :
    Kept t₀ calls (Interleave.step (callStep cfg) w e) := by
  have hshared : (Interleave.step (callStep cfg) w e).shared = w.shared := by rw [Interleave.step_shared, hstep]
  constructor
  · refine Interleave.forall_procs_step (P := fun c (p : Call) => p.env = (calls c).2) ?_ fun c _ => h.env c
    rw [hstep]
    exact henv.trans (h.env e.1)
  · refine Interleave.forall_procs_step
      (P := fun c (p : Call) => ∀ payload, p.phase.change? = some (.create payload) → payload.id = (calls c).2.newId)
      ?_ fun c _ => h.payload c
    rw [hstep]
    exact hpayload
  · rw [hshared]
    exact h.shows
  · rw [hshared]
    refine Interleave.forall_procs_step
      (P := fun _ (p : Call) => ∀ change response, p.phase = .acknowledged change response → change ∈ w.shared.acks)
      ?_ fun c _ => h.logged c
    rw [hstep]
    exact fun change response hnow => h.logged e.1 change response (hphase change response hnow)
  · rw [hshared]
    exact fun r hr => (h.used r hr).step
  · rw [hshared]
    exact h.created
  · rw [hshared]
    exact fun id hid => ⟨(h.deleted id hid).1.step, (h.deleted id hid).2⟩

/-- A save on what its call has loaded. -/
theorem save (hnew : NewIds t₀ calls)
    (hphase : (w.procs e.1).phase = .loaded change w.shared.data) (hok : (change.apply w.shared.data).2 = .ok response) :
    Kept t₀ calls (Interleave.step (callStep cfg) w e) := by
  have hstep : callStep cfg e.2 w.shared (w.procs e.1) =
      ({ data := (change.apply w.shared.data).1, acks := w.shared.acks ++ [change] },
        (w.procs e.1).goto (.acknowledged change response)) := by
    rcases happly : change.apply w.shared.data with ⟨saved, result⟩
    rw [happly] at hok
    cases hok
    simp [callStep, hphase, happly]
  have hacks : (Interleave.step (callStep cfg) w e).shared.acks = w.shared.acks ++ [change] := by
    rw [Interleave.step_shared, hstep]
  have hexpected : (Interleave.step (callStep cfg) w e).shared.expected t₀ = change.done (w.shared.expected t₀) := by
    unfold Shared.expected
    rw [hacks, List.foldl_append]
    rfl
  have hchange : (w.procs e.1).phase.change? = some change := by rw [hphase]; rfl
  have hunused : ∀ payload, change = .create payload → ¬ w.Used t₀ payload.id := by
    rintro payload rfl
    exact h.not_used hnew hchange (by simp [hphase])
  have hfresh : change.Fresh (w.shared.expected t₀) := by
    cases hkind : change with
    | create payload => exact fun r hr hid => hunused payload hkind (hid ▸ h.used r hr)
    | _ => trivial
  have hown : ∀ payload, change = .create payload →
      Workers.Used t₀ (Interleave.step (callStep cfg) w e) payload.id := by
    rintro payload rfl
    refine Or.inr ⟨e.1, payload, response, ?_, rfl⟩
    rw [Interleave.step_procs_self, hstep]
    rfl
  constructor
  · refine Interleave.forall_procs_step (P := fun c (p : Call) => p.env = (calls c).2) ?_ fun c _ => h.env c
    rw [hstep]
    exact h.env e.1
  · refine Interleave.forall_procs_step
      (P := fun c (p : Call) => ∀ payload, p.phase.change? = some (.create payload) → payload.id = (calls c).2.newId)
      ?_ fun c _ => h.payload c
    rw [hstep]
    rintro payload hcreate
    exact h.payload e.1 payload (hchange.trans hcreate)
  · rw [hexpected, Interleave.step_shared, hstep]
    exact Change.apply_shows h.shows hfresh hok
  · rw [hacks]
    refine Interleave.forall_procs_step
      (P := fun _ (p : Call) => ∀ made response, p.phase = .acknowledged made response →
        made ∈ w.shared.acks ++ [change]) ?_ fun c _ made response hmade => ?_
    · rw [hstep]
      rintro _ _ ⟨⟩
      exact List.mem_append_right _ List.mem_cons_self
    · exact List.mem_append_left _ (h.logged c made response hmade)
  · intro r hr
    rw [hexpected] at hr
    rcases Change.mem_done hr with ⟨r₀, hr₀, hid⟩ | ⟨payload, hcreate, hid⟩
    · exact hid ▸ (h.used r₀ hr₀).step
    · exact hid ▸ hown payload hcreate
  · intro payload hcreated hkept
    rw [hacks, List.mem_append, List.mem_singleton] at hcreated hkept
    rw [not_or] at hkept
    rw [hexpected]
    rcases hcreated with hcreated | rfl
    · obtain ⟨r, hr, hsame⟩ := h.created payload hcreated hkept.1
      have hid : r.id = payload.id := congrArg Prod.fst hsame
      obtain ⟨r', hr', hidentity⟩ := Change.identity_done hfresh hr (by rw [hid]; exact Ne.symm hkept.2)
      exact ⟨r', hr', hidentity.trans hsame⟩
    · exact ⟨payload, Table.mem_put.mpr (Or.inl rfl), rfl⟩
  · intro id hdeleted
    rw [hacks, List.mem_append, List.mem_singleton] at hdeleted
    rw [hexpected]
    rcases hdeleted with hdeleted | rfl
    · obtain ⟨hused, hgone⟩ := h.deleted id hdeleted
      refine ⟨hused.step, fun r hr => ?_⟩
      rcases Change.mem_done hr with ⟨r₀, hr₀, hid⟩ | ⟨payload, hcreate, hid⟩
      · exact hid ▸ hgone r₀ hr₀
      · rintro rfl
        exact hunused payload hcreate (hid ▸ hused)
    · rcases h.shows.delete id with ⟨-, hnone⟩ | ⟨r, hr, -, -⟩
      · simp [Change.apply, hnone, Except.map] at hok
      · obtain ⟨hmem, rfl⟩ := Table.get?_eq_some.mp hr
        exact ⟨(h.used r hmem).step, fun r hr => (Table.mem_delete.mp hr).2⟩

theorem step (hnew : NewIds t₀ calls) (hok : SavesOnLoaded w e) :
    Kept t₀ calls (Interleave.step (callStep cfg) w e) := by
  rcases callStep_cases cfg w.shared (w.procs e.1) with
    ⟨-, hstep⟩ | ⟨change, hphase, hstep⟩ | ⟨_, _, _, -, hstep⟩ | ⟨change, data, response, hphase, hresult, hstep⟩ | hstep
  · rcases prepare_cases cfg w.shared.data (w.procs e.1).env (w.procs e.1).op with
      ⟨change, hnext, hcreate⟩ | ⟨response, hnext⟩
    · rw [hnext] at hstep
      refine h.aside hstep rfl (fun payload hchange => ?_) fun _ _ hnow => by cases hnow
      rw [hcreate payload (Option.some.inj hchange), h.env]
    · rw [hnext] at hstep
      exact h.aside hstep rfl (fun _ hchange => by cases hchange) fun _ _ hnow => by cases hnow
  · refine h.aside hstep rfl (fun payload hchange => ?_) fun _ _ hnow => by cases hnow
    exact h.payload e.1 payload (by rw [hphase]; exact hchange)
  · exact h.aside hstep rfl (fun _ hchange => by cases hchange) fun _ _ hnow => by cases hnow
  · have hdata := hok change data response hphase hresult
    subst hdata
    exact h.save hnew hphase hresult
  · exact h.aside hstep rfl (h.payload e.1) fun _ _ hnow => hnow

end Kept

end

end CryptoAggHarmonic.Watchlist
