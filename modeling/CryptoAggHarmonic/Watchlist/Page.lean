import CryptoAggHarmonic.Watchlist.Theorems

/-!
# The watchlist page

`hooks/use-watchlist.ts` over the routes of the watchlist. The page shows an add and a move before the server has
answered; any request may be refused, may not arrive, or may be carried out without its answer arriving. One call of
the hook has ended when the next begins.
-/

namespace CryptoAggHarmonic.Watchlist.Page

def defaultMarket : String := "futures"

/-- What becomes of a request. -/
inductive Trip
  /-- `getToken` has none. -/
  | noToken
  /-- Refused before the store, or never there. -/
  | unsent
  /-- Carried out, but the answer does not arrive. -/
  | lost
  | answered
  deriving DecidableEq

/-- The server, and the `items` of the page. -/
structure World (σ : Type) where
  server : σ
  items : List Item

inductive Event
  | reload (trip : Trip) (env : Env)
  | add (symbol note : String) (now : ℕ) (trip : Trip) (env : Env) (again : Trip × Env)
  | update (id note : String) (trip : Trip) (env : Env)
  | remove (id : String) (trip : Trip) (env : Env)
  | move (id : String) (up : Bool) (trip : Trip) (env : Env) (again : Trip × Env)

def optimisticId (symbol : String) (now : ℕ) : String := "optimistic-" ++ symbol ++ "-" ++ toString now

def optimisticItem (symbol note : String) (now : ℕ) : Item where
  symbol := symbol
  baseAsset := ""
  quoteAsset := ""
  contractType := ""
  underlyingType := none
  underlyingSubTypes := []
  pricePrecision := 0
  quantityPrecision := 0
  isTradfi := false
  id := optimisticId symbol now
  market := defaultMarket
  note := note
  sortIndex := 0
  createdAt := 0

/-- `add_to_watchlist` asks the store for a symbol of the cache that is quoted in USDT. -/
def addCall (cache : String → Option SymbolMeta) (symbol note : String) (env : Env) : Option (Op × Env) :=
  match cache symbol with
  | none => none
  | some m => if m.quoteAsset = "USDT" then some (.create defaultMarket m note, env) else none

/-- The two `splice`s. -/
def moveItem (items : List Item) (idx target : ℕ) : List Item :=
  match items[idx]? with
  | none => items
  | some moved => (items.eraseIdx idx).insertIdx target moved

/-- Where a move leads, if it stays on the page. -/
def moveTarget (items : List Item) (idx : ℕ) (up : Bool) : Option ℕ :=
  if up then (if idx = 0 then none else some (idx - 1))
  else if idx + 1 < items.length then some (idx + 1) else none

def numbered (items : List Item) : List Item := items.mapIdx fun k it => { it with sortIndex := k }

section

variable {σ : Type} (serve : σ → Op × Env → σ × Response) (cache : String → Option SymbolMeta)

namespace World

/-- A request, and its answer if there is one. -/
def ask (w : World σ) (trip : Trip) (call : Op × Env) : World σ × Option Response :=
  match trip with
  | .noToken | .unsent => (w, none)
  | .lost => ({ w with server := (serve w.server call).1 }, none)
  | .answered => ({ w with server := (serve w.server call).1 }, some (serve w.server call).2)

def reload (w : World σ) (trip : Trip) (env : Env) : World σ :=
  match w.ask serve trip (.list defaultMarket, env) with
  | (w, some (.items rows)) => { w with items := rows }
  | (w, _) => w

/-- A request that the route may refuse. -/
def askRoute (w : World σ) (trip : Trip) : Option (Op × Env) → World σ × Option Response
  | none => (w, none)
  | some call => w.ask serve trip call

def add (w : World σ) (symbol note : String) (now : ℕ) (trip : Trip) (env : Env) (again : Trip × Env) : World σ :=
  if trip = .noToken then w
  else
    let shifted := w.items.map fun it => { it with sortIndex := it.sortIndex + 1 }
    let shown := { w with items := optimisticItem symbol note now :: shifted }
    match shown.askRoute serve trip (addCall cache symbol note env) with
    | (w, some (.item _)) => w.reload serve again.1 again.2
    | (w, _) => { w with items := w.items.filter fun it => it.id ≠ optimisticId symbol now }

/-- With the note alone, as the page calls it. -/
def update (w : World σ) (id note : String) (trip : Trip) (env : Env) : World σ :=
  match w.ask serve trip (.update id ⟨some note, none⟩, env) with
  | (w, some (.item row)) => { w with items := w.items.map fun it => if it.id = id then row else it }
  | (w, _) => w

def remove (w : World σ) (id : String) (trip : Trip) (env : Env) : World σ :=
  match w.ask serve trip (.delete id, env) with
  | (w, some .deleted) => { w with items := w.items.filter fun it => it.id ≠ id }
  | (w, _) => w

/-- The new order is on the page before there is a token. -/
def moveTo (w : World σ) (reordered : List Item) (trip : Trip) (env : Env) (again : Trip × Env) : World σ :=
  let shown := { w with items := numbered reordered }
  if trip = .noToken then shown
  else
    match shown.ask serve trip (.reorder defaultMarket (reordered.map Item.id), env) with
    | (w, some (.items _)) => w
    | (w, _) => w.reload serve again.1 again.2

def move (w : World σ) (id : String) (up : Bool) (trip : Trip) (env : Env) (again : Trip × Env) : World σ :=
  match w.items.findIdx? fun it => it.id = id with
  | none => w
  | some idx =>
      match moveTarget w.items idx up with
      | none => w
      | some target => w.moveTo serve (moveItem w.items idx target) trip env again

def step (w : World σ) : Event → World σ
  | .reload trip env => w.reload serve trip env
  | .add symbol note now trip env again => w.add serve cache symbol note now trip env again
  | .update id note trip env => w.update serve id note trip env
  | .remove id trip env => w.remove serve id trip env
  | .move id up trip env again => w.move serve id up trip env again

end World

end

/-! ## What the page shows of a row -/

/-- All but its place. -/
def face (i : Item) : Item := { i with sortIndex := 0 }

@[simp] theorem face_id (i : Item) : (face i).id = i.id := rfl

theorem face_sortIndex (i : Item) (k : ℤ) : face { i with sortIndex := k } = face i := rfl

theorem face_placed (ids : List String) (i : Item) : face (placed 0 ids i) = face i := by
  unfold placed
  split_ifs <;> rfl

theorem faces_numbered (items : List Item) : (numbered items).map face = items.map face := by
  refine List.ext_getElem? fun k => ?_
  simp only [numbered, List.getElem?_map, List.getElem?_mapIdx, Option.map_map]
  rfl

theorem ids_of_faces {l l' : List Item} (h : l.map face = l'.map face) : l.map Item.id = l'.map Item.id := by
  have := congrArg (List.map Item.id) h
  simpa [List.map_map, Function.comp_def] using this

theorem faces_filter (items : List Item) (p : String → Bool) :
    (items.filter fun it => p it.id).map face = (items.map face).filter fun it => p it.id := by
  rw [List.filter_map]
  rfl

/-- Where every item of an id shows the row, so does the list. -/
theorem faces_replace (items : List Item) (id : String) (row : Item) (set : Item → Item)
    (hset : ∀ it ∈ items, it.id = id → face (set it) = face row) :
    (items.map fun it => if it.id = id then set it else it).map face =
      (items.map face).map fun it => if it.id = id then face row else it := by
  rw [List.map_map, List.map_map]
  refine List.map_congr_left fun it hit => ?_
  by_cases hid : it.id = id
  · simp [hid, hset it hit hid]
  · simp [hid]

/-! ## The list of the server -/

variable {w : UserItems} {id note market : String} {cfg : Config} {call : Op × Env}

theorem sortItems_map (rows : List Item) (set : Item → Item) (hindex : ∀ i, (set i).sortIndex = i.sortIndex)
    (hcreated : ∀ i, (set i).createdAt = i.createdAt) : sortItems (rows.map set) = (sortItems rows).map set := by
  unfold sortItems
  refine (List.map_insertionSort Item.Before Item.Before set rows fun a _ b _ => ?_).symm
  unfold Item.Before
  rw [hindex, hindex, hcreated, hcreated]

theorem sortItems_filter (rows : List Item) (p : Item → Bool) :
    sortItems (rows.filter p) = (sortItems rows).filter p := by
  have hall : ∀ r ∈ sortItems (rows.filter p), p r := fun r hr => (List.mem_filter.mp (sortItems_perm.subset hr)).2
  have hsub : (sortItems (rows.filter p)).Sublist ((sortItems rows).filter p) := by
    rw [← List.filter_eq_self.mpr hall]
    exact (sortItems_sublist List.filter_sublist).filter p
  exact hsub.eq_of_length ((sortItems_perm.trans (sortItems_perm.symm.filter p)).length_eq)

theorem list_modify {u : Updates} {i : Item} (hi : w.items.get? id = some i) (hu : u.sortIndex = none) :
    (w.modify id u).1.list market = (w.list market).map fun i => if i.id = id then i.update u else i := by
  unfold UserItems.list
  rw [(UserItems.modify_of_some hi).1, List.filter_map, ← sortItems_map]
  · congr 2
    refine List.filter_congr fun i _ => ?_
    dsimp only [Function.comp_apply]
    split_ifs <;> rfl
  · intro i
    split_ifs
    · simp [Item.update, hu]
    · rfl
  · intro i
    split_ifs <;> rfl

theorem list_remove {i : Item} (hi : w.items.get? id = some i) :
    (w.remove id).1.list market = (w.list market).filter fun i => i.id ≠ id := by
  unfold UserItems.list
  rw [(UserItems.remove_of_some hi).1, ← sortItems_filter]
  change sortItems ((w.items.rows.filter _).filter _) = _
  rw [List.filter_comm]

theorem checkIds_of_perm {rows : List Item} {ids : List String} (hrows : (rows.map Item.id).Nodup)
    (hperm : ids.Perm (rows.map Item.id)) : checkIds rows ids = .ok () := by
  have hsame : sortIds ids = sortIds (rows.map Item.id).dedup := by
    rw [hrows.dedup]
    have hsorted : ∀ l : List String, (sortIds l).Pairwise (· ≤ ·) := fun l => List.pairwise_insertionSort ..
    have hids : ∀ l : List String, (sortIds l).Perm l := fun l => List.perm_insertionSort ..
    have hsorts := (hids _).trans (hperm.trans (hids _).symm)
    exact hsorts.eq_of_pairwise (fun a b _ _ => le_antisymm) (hsorted _) (hsorted _)
  unfold checkIds
  simp [hperm.nodup_iff.mpr hrows, hsame]

theorem list_ids_nodup (w : UserItems) (market : String) : ((w.list market).map Item.id).Nodup :=
  (sortItems_perm.map Item.id).nodup_iff.mpr (w.items.keys.sublist (List.filter_sublist.map _))

theorem filterMap_faces {items : List Item} {get : Item → Option Item}
    (h : ∀ it ∈ items, ∃ r, get it = some r ∧ face r = face it) : (items.filterMap get).map face = items.map face := by
  induction items with
  | nil => rfl
  | cons it items ih =>
      obtain ⟨⟨r, hr, hface⟩, hrest⟩ := List.forall_mem_cons.mp h
      rw [List.filterMap_cons_some hr, List.map_cons, List.map_cons, hface, ih hrest]

/-- A new order of the rows that are shown is taken as it is. -/
theorem faces_arrange {items : List Item} {reordered : List Item} (hfaces : items.map face = (w.list market).map face)
    (hperm : reordered.Perm items) : checkIds (w.list market) (reordered.map Item.id) = .ok () ∧
      ((w.arrange (reordered.map Item.id)).list market).map face = reordered.map face := by
  have hids : (reordered.map Item.id).Perm ((w.list market).map Item.id) :=
    (hperm.map Item.id).trans (List.Perm.of_eq (ids_of_faces hfaces))
  have hcheck := checkIds_of_perm (list_ids_nodup w market) hids
  refine ⟨hcheck, ?_⟩
  rw [arrange_list hcheck, UserItems.inOrder, List.filterMap_map]
  refine filterMap_faces fun it hit => ?_
  obtain ⟨r, hr, hface⟩ := List.mem_map.mp (hfaces ▸ List.mem_map_of_mem (hperm.subset hit))
  have hid : r.id = it.id := by
    simpa using congrArg Item.id hface
  have hrow : w.items.get? it.id = some r :=
    Table.get?_eq_some.mpr ⟨(List.mem_filter.mp (sortItems_perm.subset hr)).1, hid⟩
  refine ⟨placed 0 (reordered.map Item.id) r, ?_, (face_placed ..).trans hface⟩
  rw [Function.comp_apply, arrange_get?, hrow, Option.map_some]

/-! ## One call of the hook -/

/-- The ids of the server are not those of the page: a uuid begins with a hexadecimal digit. -/
def ServerId (id : String) : Prop := id.toList.head? ≠ some 'o'

theorem ServerId.ne_optimistic (h : ServerId id) (symbol : String) (now : ℕ) : id ≠ optimisticId symbol now := by
  rintro rfl
  exact h (by simp [optimisticId])

def ServerIds (w : UserItems) : Prop := ∀ r ∈ w.items.rows, ServerId r.id

/-- The page shows the items of the server, in its order. -/
def Mirrors (w : World UserItems) : Prop := w.items.map face = (w.server.list defaultMarket).map face

theorem respond_raised {α : Type} {ok : α → Response} (hok : ∀ a e, ok a ≠ .raised e) {x : Except WatchlistError α}
    {e : WatchlistError} (h : respond ok x = .raised e) : x = .error e := by
  cases x with
  | ok a => exact absurd h (hok a e)
  | error e' =>
      cases h
      rfl

theorem add_error {i : Item} {e : WatchlistError} : (w.add i).2 = .error e → (w.add i).1 = w := by
  unfold UserItems.add
  split_ifs
  · exact fun _ => rfl
  · split
    · exact fun _ => rfl
    · exact fun h => nomatch h
  · exact fun _ => rfl

theorem create_error {env : Env} {m : SymbolMeta} {e : WatchlistError} :
    (w.create cfg env market m note).2 = .error e → (w.create cfg env market m note).1 = w := by
  unfold UserItems.create
  split
  · exact fun _ => rfl
  · exact fun _ => rfl
  · exact add_error

theorem update_error {u : Updates} {e : WatchlistError} : (w.update id u).2 = .error e → (w.update id u).1 = w := by
  unfold UserItems.update
  split
  · exact fun _ => rfl
  · cases hi : w.items.get? id with
    | none =>
        rw [UserItems.modify_of_none hi]
        exact fun _ => rfl
    | some i =>
        rw [(UserItems.modify_of_some hi).2]
        exact fun h => nomatch h

theorem remove_error {e : WatchlistError} : (w.remove id).2 = .error e → (w.remove id).1 = w := by
  cases hi : w.items.get? id with
  | none =>
      rw [UserItems.remove_of_none hi]
      exact fun _ => rfl
  | some i =>
      rw [(UserItems.remove_of_some hi).2]
      exact fun h => nomatch h

theorem reorder_error {ids : List String} {e : WatchlistError} :
    (w.reorder market ids).2 = .error e → (w.reorder market ids).1 = w := by
  unfold UserItems.reorder
  split
  · exact fun _ => rfl
  · exact fun h => nomatch h

/-- A call that raises changes nothing. -/
theorem step_raised {e : WatchlistError} (h : (UserItems.step cfg w call).2 = .raised e) :
    (UserItems.step cfg w call).1 = w := by
  obtain ⟨op, env⟩ := call
  cases op with
  | list market => rfl
  | create market m note => exact create_error (respond_raised (fun _ _ => Response.noConfusion) h)
  | update itemId u => exact update_error (respond_raised (fun _ _ => Response.noConfusion) h)
  | delete itemId => exact remove_error (respond_raised (fun _ _ => Response.noConfusion) h)
  | reorder market ids => exact reorder_error (respond_raised (fun _ _ => Response.noConfusion) h)

variable {p : World UserItems} {cache : String → Option SymbolMeta} {trip : Trip} {env : Env} {again : Trip × Env}

theorem reload_answered : Mirrors (p.reload (UserItems.step cfg) .answered env) := rfl

theorem Mirrors.reload (h : Mirrors p) : Mirrors (p.reload (UserItems.step cfg) trip env) := by
  cases trip with
  | answered => exact reload_answered
  | noToken => exact h
  | unsent => exact h
  | lost => exact h

/-- The rows that are shown are again those of before. -/
theorem rollback_faces {items : List Item} (symbol note : String) (now : ℕ) (hids : ∀ it ∈ items, ServerId it.id) :
    ((optimisticItem symbol note now :: items.map fun it => { it with sortIndex := it.sortIndex + 1 }).filter
      fun it => it.id ≠ optimisticId symbol now).map face = items.map face := by
  have hall : ∀ it ∈ items, decide (it.id ≠ optimisticId symbol now) = true := fun it hit =>
    decide_eq_true ((hids it hit).ne_optimistic symbol now)
  rw [List.filter_cons_of_neg (by simp [optimisticItem]), List.filter_map, List.map_map]
  have hkept : items.filter ((fun it : Item => decide (it.id ≠ optimisticId symbol now)) ∘
      fun it => { it with sortIndex := it.sortIndex + 1 }) = items := List.filter_eq_self.mpr hall
  rw [hkept]
  rfl

theorem Mirrors.serverIds (h : Mirrors p) (hids : ServerIds p.server) : ∀ it ∈ p.items, ServerId it.id := by
  intro it hit
  have hmem : it.id ∈ (p.server.list defaultMarket).map Item.id := ids_of_faces h ▸ List.mem_map_of_mem hit
  obtain ⟨r, hr, hid⟩ := List.mem_map.mp hmem
  exact hid ▸ hids r (List.mem_filter.mp (sortItems_perm.subset hr)).1

theorem addCall_eq_some {symbol note : String} (h : addCall cache symbol note env = some call) :
    ∃ m, call = (.create defaultMarket m note, env) := by
  unfold addCall at h
  split at h
  · cases h
  · rename_i m _
    split_ifs at h
    exact ⟨m, (Option.some.inj h).symm⟩

theorem update_eq_ok {u : Updates} {row : Item} (h : (w.update id u).2 = .ok row) :
    ∃ i, w.items.get? id = some i ∧ row = i.update u ∧ (w.update id u).1 = (w.modify id u).1 := by
  unfold UserItems.update at h ⊢
  cases hchecked : checkUpdates u with
  | error e =>
      rw [hchecked] at h
      cases h
  | ok done =>
      rw [hchecked] at h
      cases hi : w.items.get? id with
      | none =>
          simp only [UserItems.modify_of_none hi] at h
          cases h
      | some i =>
          simp only [(UserItems.modify_of_some hi).2] at h
          exact ⟨i, rfl, (Except.ok.inj h).symm, rfl⟩

theorem Mirrors.add (h : Mirrors p) (hids : ServerIds p.server) {symbol note : String} {now : ℕ}
    (htrip : trip ≠ .lost) (hagain : trip = .answered → again.1 = .answered) :
    Mirrors (p.add (UserItems.step cfg) cache symbol note now trip env again) := by
  have hrollback := rollback_faces symbol note now (h.serverIds hids)
  unfold World.add
  split_ifs with htoken
  · exact h
  · cases hcall : addCall cache symbol note env with
    | none => exact hrollback.trans h
    | some call =>
        cases trip with
        | noToken => exact absurd rfl htoken
        | unsent => exact hrollback.trans h
        | lost => exact absurd rfl htrip
        | answered =>
            obtain ⟨m, rfl⟩ := addCall_eq_some hcall
            cases hcreate : (p.server.create cfg env defaultMarket m note).2 with
            | ok row =>
                have hresponse : (UserItems.step cfg p.server (.create defaultMarket m note, env)).2 = .item row :=
                  congrArg (respond .item) hcreate
                simp only [World.askRoute, World.ask, hresponse, hagain]
                exact reload_answered
            | error e =>
                have hresponse : (UserItems.step cfg p.server (.create defaultMarket m note, env)).2 = .raised e :=
                  congrArg (respond .item) hcreate
                simp only [World.askRoute, World.ask, hresponse, step_raised hresponse]
                exact hrollback.trans h

theorem Mirrors.update (h : Mirrors p) {id note : String} (htrip : trip ≠ .lost) :
    Mirrors (p.update (UserItems.step cfg) id note trip env) := by
  cases trip with
  | noToken => exact h
  | unsent => exact h
  | lost => exact absurd rfl htrip
  | answered =>
      cases hupdate : (p.server.update id ⟨some note, none⟩).2 with
      | error e =>
          have hresponse : (UserItems.step cfg p.server (.update id ⟨some note, none⟩, env)).2 = .raised e :=
            congrArg (respond .item) hupdate
          simp only [World.update, World.ask, hresponse, step_raised hresponse]
          exact h
      | ok row =>
          have hresponse : (UserItems.step cfg p.server (.update id ⟨some note, none⟩, env)).2 = .item row :=
            congrArg (respond .item) hupdate
          simp only [World.update, World.ask, hresponse]
          obtain ⟨i, hi, hrow, hserver⟩ := update_eq_ok hupdate
          subst hrow
          unfold Mirrors
          have hlist : (UserItems.step cfg p.server (.update id ⟨some note, none⟩, env)).1.list defaultMarket =
              (p.server.list defaultMarket).map fun it => if it.id = id then it.update ⟨some note, none⟩ else it := by
            change (p.server.update id ⟨some note, none⟩).1.list defaultMarket = _
            rw [hserver]
            exact list_modify hi rfl
          rw [hlist, faces_replace p.items id (i.update ⟨some note, none⟩) (fun _ => i.update ⟨some note, none⟩)
            fun _ _ _ => rfl, h]
          refine (faces_replace _ id (i.update ⟨some note, none⟩) (Item.update ⟨some note, none⟩) ?_).symm
          intro it hit hid
          have hmem := (List.mem_filter.mp (sortItems_perm.subset hit)).1
          have hsame : it = i := Option.some.inj ((Table.get?_eq_some.mpr ⟨hmem, hid⟩).symm.trans hi)
          rw [hsame]

theorem Mirrors.remove (h : Mirrors p) {id : String} (htrip : trip ≠ .lost) :
    Mirrors (p.remove (UserItems.step cfg) id trip env) := by
  cases trip with
  | noToken => exact h
  | unsent => exact h
  | lost => exact absurd rfl htrip
  | answered =>
      cases hremove : (p.server.remove id).2 with
      | error e =>
          have hresponse : (UserItems.step cfg p.server (.delete id, env)).2 = .raised e :=
            congrArg (respond fun _ => .deleted) hremove
          simp only [World.remove, World.ask, hresponse, step_raised hresponse]
          exact h
      | ok done =>
          have hresponse : (UserItems.step cfg p.server (.delete id, env)).2 = .deleted :=
            congrArg (respond fun _ => .deleted) hremove
          simp only [World.remove, World.ask, hresponse]
          cases hi : p.server.items.get? id with
          | none =>
              rw [UserItems.remove_of_none hi] at hremove
              cases hremove
          | some i =>
              have hlist : (UserItems.step cfg p.server (.delete id, env)).1.list defaultMarket =
                  (p.server.list defaultMarket).filter fun it => it.id ≠ id := list_remove hi
              unfold Mirrors
              rw [hlist, faces_filter p.items fun other => other ≠ id, h]
              exact (faces_filter _ fun other => other ≠ id).symm

theorem moveTarget_lt {items : List Item} {idx target : ℕ} {up : Bool} (hidx : idx < items.length)
    (h : moveTarget items idx up = some target) : target < items.length := by
  unfold moveTarget at h
  split_ifs at h <;> simp at h <;> omega

theorem moveItem_perm {items : List Item} {idx target : ℕ} (hidx : idx < items.length)
    (htarget : target < items.length) : (moveItem items idx target).Perm items := by
  simp only [moveItem, List.getElem?_eq_getElem hidx]
  refine (List.perm_insertIdx _ _ ?_).trans (List.getElem_cons_eraseIdx_perm hidx)
  rw [List.length_eraseIdx_of_lt hidx]
  omega

theorem Mirrors.move (h : Mirrors p) {id : String} {up : Bool} (htoken : trip ≠ .noToken)
    (hheard : trip = .unsent → again.1 = .answered) :
    Mirrors (p.move (UserItems.step cfg) id up trip env again) := by
  unfold World.move
  cases hidx : p.items.findIdx? fun it => it.id = id with
  | none => exact h
  | some idx =>
      cases htarget : moveTarget p.items idx up with
      | none => simpa [htarget] using h
      | some target =>
          have hlt : idx < p.items.length := (List.findIdx?_eq_some_iff_findIdx_eq.mp hidx).1
          have hperm := moveItem_perm hlt (moveTarget_lt hlt htarget)
          obtain ⟨hcheck, hfaces⟩ := faces_arrange h hperm
          have hreorder : UserItems.step cfg p.server
              (.reorder defaultMarket ((moveItem p.items idx target).map Item.id), env) =
              (p.server.arrange ((moveItem p.items idx target).map Item.id),
                .items ((p.server.arrange ((moveItem p.items idx target).map Item.id)).list defaultMarket)) := by
            change (fun d : UserItems × Except WatchlistError (List Item) => (d.1, respond .items d.2))
              (p.server.reorder ..) = _
            unfold UserItems.reorder
            rw [hcheck]
            rfl
          have hshown : (numbered (moveItem p.items idx target)).map face =
              ((p.server.arrange ((moveItem p.items idx target).map Item.id)).list defaultMarket).map face :=
            (faces_numbered _).trans hfaces.symm
          simp only [htarget, World.moveTo, if_neg htoken]
          cases trip with
          | noToken => exact absurd rfl htoken
          | unsent =>
              rw [show again = (.answered, again.2) from Prod.ext (hheard rfl) rfl]
              exact reload_answered
          | lost =>
              simp only [World.ask, hreorder]
              exact Mirrors.reload hshown
          | answered =>
              simp only [World.ask, hreorder]
              exact hshown

/-! ## The page over a backend -/

variable {b : Backend}

theorem serverId_of_canonical (h : CanonicalId id) : ServerId id := by
  intro hhead
  obtain ⟨cs, hcs⟩ : ∃ cs, id.toList = 'o' :: cs := by
    cases hchars : id.toList with
    | nil =>
        rw [hchars] at hhead
        cases hhead
    | cons c cs =>
        rw [hchars] at hhead
        cases hhead
        exact ⟨cs, rfl⟩
  have hnone : uuidText id = none := by
    unfold uuidText
    rw [hcs]
    cases cs <;> rfl
  rw [CanonicalId, hnone] at h
  cases h

theorem serverIds_of_rows {w' : UserItems} (h : ServerIds w)
    (hrows : ∀ r ∈ w'.items.rows, ServerId r.id ∨ ∃ r' ∈ w.items.rows, r'.id = r.id) : ServerIds w' := by
  intro r hr
  rcases hrows r hr with hid | ⟨r', hr', hid⟩
  · exact hid
  · exact hid ▸ h r' hr'

theorem serverIds_change (h : ServerIds w) (set : Item → Item) (hid : ∀ i, (set i).id = i.id)
    (hpair : ∀ i, (set i).pair = i.pair) : ServerIds (w.change set hid hpair) := by
  refine serverIds_of_rows h fun r hr => ?_
  obtain ⟨r', hr', rfl⟩ := List.mem_map.mp hr
  exact Or.inr ⟨r', hr', (hid r').symm⟩

theorem serverIds_add {i : Item} (h : ServerIds w) (hi : ServerId i.id) : ServerIds (w.add i).1 := by
  unfold UserItems.add
  split_ifs
  · exact h
  · split
    · exact h
    · rename_i items hinsert
      intro r hr
      have hmem : r ∈ items.rows := hr
      rw [(Table.insert?_eq_some hinsert).1, List.mem_append, List.mem_singleton] at hmem
      rcases hmem with hmem | rfl
      · exact h r hmem
      · exact hi
  · exact h

/-- The ids of the server are kept by every call, if it draws its own. -/
theorem serverIds_step (h : ServerIds w) (hid : ServerId call.2.newId) : ServerIds (UserItems.step cfg w call).1 := by
  obtain ⟨op, env⟩ := call
  cases op with
  | list market => exact h
  | create market m note =>
      change ServerIds (w.create cfg env market m note).1
      unfold UserItems.create
      split
      · exact h
      · exact h
      · exact serverIds_add h hid
  | update itemId u =>
      change ServerIds (w.update itemId u).1
      unfold UserItems.update UserItems.modify
      split
      · exact h
      · split
        · exact h
        · refine serverIds_change h _ (fun i => ?_) (fun i => ?_) <;> split_ifs <;> rfl
  | delete itemId =>
      change ServerIds (w.remove itemId).1
      unfold UserItems.remove
      split
      · exact h
      · exact fun r hr => h r (Table.mem_delete.mp hr).1
  | reorder market ids =>
      change ServerIds (w.reorder market ids).1
      unfold UserItems.reorder
      split
      · exact h
      · exact serverIds_change h _ (placed_id 0 ids) (placed_pair 0 ids)

def Trip.Carried (trip : Trip) : Prop := trip = .lost ∨ trip = .answered

/-- A request finds a backend that answers, and draws an id. -/
def Asks (cfg : Config) (b : Backend) (w : UserItems) (trip : Trip) (call : Op × Env) : Prop :=
  trip.Carried → Clear cfg b w call ∧ CanonicalId call.2.newId

/-- Every request of the event does so. -/
def Event.Clear (cfg : Config) (b : Backend) (cache : String → Option SymbolMeta) (v : World UserItems) : Event → Prop
  | .reload trip env => Asks cfg b v.server trip (.list defaultMarket, env)
  | .add symbol note _ trip env again =>
      (∀ call ∈ addCall cache symbol note env, Asks cfg b v.server trip call) ∧
        ∀ w, Asks cfg b w again.1 (.list defaultMarket, again.2)
  | .update id note trip env => Asks cfg b v.server trip (.update id ⟨some note, none⟩, env)
  | .remove id trip env => Asks cfg b v.server trip (.delete id, env)
  | .move _ _ trip env again =>
      (∀ ids, Asks cfg b v.server trip (.reorder defaultMarket ids, env)) ∧
        ∀ w, Asks cfg b w again.1 (.list defaultMarket, again.2)

/-- The page over a backend and the page over the specification. -/
structure Sim (b : Backend) (u : World Store) (v : World UserItems) : Prop where
  agrees : b.Agrees u.server v.server
  items : u.items = v.items
  serverIds : ServerIds v.server

variable {u : World Store} {v : World UserItems}

theorem Sim.show (h : Sim b u v) (set : List Item → List Item) :
    Sim b { u with items := set u.items } { v with items := set v.items } :=
  ⟨h.agrees, congrArg set h.items, h.serverIds⟩

theorem Sim.ask (hcfg : cfg.Orders) (h : Sim b u v) (hasks : Asks cfg b v.server trip call) :
    Sim b (u.ask (Store.step cfg) trip call).1 (v.ask (UserItems.step cfg) trip call).1 ∧
      (u.ask (Store.step cfg) trip call).2 = (v.ask (UserItems.step cfg) trip call).2 := by
  cases trip with
  | noToken => exact ⟨h, rfl⟩
  | unsent => exact ⟨h, rfl⟩
  | lost =>
      obtain ⟨hclear, hid⟩ := hasks (Or.inl rfl)
      obtain ⟨hagrees, -⟩ := h.agrees.step hcfg hclear
      exact ⟨⟨hagrees, h.items, serverIds_step h.serverIds (serverId_of_canonical hid)⟩, rfl⟩
  | answered =>
      obtain ⟨hclear, hid⟩ := hasks (Or.inr rfl)
      obtain ⟨hagrees, hresponse⟩ := h.agrees.step hcfg hclear
      exact ⟨⟨hagrees, h.items, serverIds_step h.serverIds (serverId_of_canonical hid)⟩, congrArg some hresponse⟩

theorem Sim.reload (hcfg : cfg.Orders) (h : Sim b u v) (hasks : Asks cfg b v.server trip (.list defaultMarket, env)) :
    Sim b (u.reload (Store.step cfg) trip env) (v.reload (UserItems.step cfg) trip env) := by
  obtain ⟨hsim, hresponse⟩ := h.ask hcfg hasks
  unfold World.reload
  rcases hu : u.ask (Store.step cfg) trip (.list defaultMarket, env) with ⟨u', answer⟩
  rcases hv : v.ask (UserItems.step cfg) trip (.list defaultMarket, env) with ⟨v', answer'⟩
  rw [hu, hv] at hsim hresponse
  cases hresponse
  rcases answer with _ | (rows | _ | _ | _)
  · exact hsim
  · exact hsim.show fun _ => rows
  · exact hsim
  · exact hsim
  · exact hsim

theorem Sim.askRoute (hcfg : cfg.Orders) (h : Sim b u v) {asked : Option (Op × Env)}
    (hasks : ∀ call ∈ asked, Asks cfg b v.server trip call) :
    Sim b (u.askRoute (Store.step cfg) trip asked).1 (v.askRoute (UserItems.step cfg) trip asked).1 ∧
      (u.askRoute (Store.step cfg) trip asked).2 = (v.askRoute (UserItems.step cfg) trip asked).2 := by
  cases asked with
  | none => exact ⟨h, rfl⟩
  | some call => exact h.ask hcfg (hasks call rfl)

theorem Sim.add (hcfg : cfg.Orders) (h : Sim b u v) {symbol note : String} {now : ℕ}
    (hclear : (Event.add symbol note now trip env again).Clear cfg b cache v) :
    Sim b (u.add (Store.step cfg) cache symbol note now trip env again)
      (v.add (UserItems.step cfg) cache symbol note now trip env again) := by
  unfold World.add
  split_ifs
  · exact h
  · have hshown := h.show fun items =>
      optimisticItem symbol note now :: items.map fun it => { it with sortIndex := it.sortIndex + 1 }
    obtain ⟨hsim, hresponse⟩ := hshown.askRoute hcfg hclear.1
    dsimp only at hsim hresponse ⊢
    generalize World.askRoute (Store.step cfg) _ trip _ = asked at hsim hresponse ⊢
    generalize World.askRoute (UserItems.step cfg) _ trip _ = asked' at hsim hresponse ⊢
    obtain ⟨u', answer⟩ := asked
    obtain ⟨v', answer'⟩ := asked'
    cases hresponse
    have hback := hsim.show fun items => items.filter fun it => it.id ≠ optimisticId symbol now
    rcases answer with _ | (_ | _ | _ | _)
    · exact hback
    · exact hback
    · exact hsim.reload hcfg (hclear.2 _)
    · exact hback
    · exact hback

theorem Sim.update (hcfg : cfg.Orders) (h : Sim b u v)
    (hasks : Asks cfg b v.server trip (.update id ⟨some note, none⟩, env)) :
    Sim b (u.update (Store.step cfg) id note trip env) (v.update (UserItems.step cfg) id note trip env) := by
  obtain ⟨hsim, hresponse⟩ := h.ask hcfg hasks
  unfold World.update
  rcases hu : u.ask (Store.step cfg) trip (.update id ⟨some note, none⟩, env) with ⟨u', answer⟩
  rcases hv : v.ask (UserItems.step cfg) trip (.update id ⟨some note, none⟩, env) with ⟨v', answer'⟩
  rw [hu, hv] at hsim hresponse
  cases hresponse
  rcases answer with _ | (_ | row | _ | _)
  · exact hsim
  · exact hsim
  · exact hsim.show fun items => items.map fun it => if it.id = id then row else it
  · exact hsim
  · exact hsim

theorem Sim.remove (hcfg : cfg.Orders) (h : Sim b u v) (hasks : Asks cfg b v.server trip (.delete id, env)) :
    Sim b (u.remove (Store.step cfg) id trip env) (v.remove (UserItems.step cfg) id trip env) := by
  obtain ⟨hsim, hresponse⟩ := h.ask hcfg hasks
  unfold World.remove
  rcases hu : u.ask (Store.step cfg) trip (.delete id, env) with ⟨u', answer⟩
  rcases hv : v.ask (UserItems.step cfg) trip (.delete id, env) with ⟨v', answer'⟩
  rw [hu, hv] at hsim hresponse
  cases hresponse
  rcases answer with _ | (_ | _ | _ | _)
  · exact hsim
  · exact hsim
  · exact hsim
  · exact hsim.show fun items => items.filter fun it => it.id ≠ id
  · exact hsim

theorem Sim.move (hcfg : cfg.Orders) (h : Sim b u v) {up : Bool}
    (hasks : ∀ ids, Asks cfg b v.server trip (.reorder defaultMarket ids, env))
    (hasksAgain : ∀ w, Asks cfg b w again.1 (.list defaultMarket, again.2)) :
    Sim b (u.move (Store.step cfg) id up trip env again) (v.move (UserItems.step cfg) id up trip env again) := by
  unfold World.move
  rw [h.items]
  cases v.items.findIdx? fun it => it.id = id with
  | none => exact h
  | some idx =>
      dsimp only
      cases moveTarget v.items idx up with
      | none => exact h
      | some target =>
          have hshown := h.show fun _ => numbered (moveItem v.items idx target)
          dsimp only [World.moveTo]
          split_ifs
          · exact hshown
          · obtain ⟨hsim, hresponse⟩ := hshown.ask hcfg (hasks ((moveItem v.items idx target).map Item.id))
            generalize World.ask (Store.step cfg) _ trip _ = asked at hsim hresponse ⊢
            generalize World.ask (UserItems.step cfg) _ trip _ = asked' at hsim hresponse ⊢
            obtain ⟨u', answer⟩ := asked
            obtain ⟨v', answer'⟩ := asked'
            cases hresponse
            have hagain := hsim.reload hcfg (hasksAgain v'.server)
            rcases answer with _ | (_ | _ | _ | _)
            · exact hagain
            · exact hsim
            · exact hagain
            · exact hagain
            · exact hagain

/-- One event keeps the two pages together. -/
theorem Sim.step (hcfg : cfg.Orders) (h : Sim b u v) {e : Event} (hclear : e.Clear cfg b cache v) :
    Sim b (u.step (Store.step cfg) cache e) (v.step (UserItems.step cfg) cache e) := by
  cases e with
  | reload trip env => exact h.reload hcfg hclear
  | add symbol note now trip env again => exact h.add hcfg hclear
  | update id note trip env => exact h.update hcfg hclear
  | remove id trip env => exact h.remove hcfg hclear
  | move id up trip env again => exact h.move hcfg hclear.1 hclear.2

/-- What the server carries out, the page hears of; and a move has a token. -/
def Event.Heard : Event → Prop
  | .reload _ _ => True
  | .add _ _ _ trip _ again => trip ≠ .lost ∧ (trip = .answered → again.1 = .answered)
  | .update _ _ trip _ => trip ≠ .lost
  | .remove _ trip _ => trip ≠ .lost
  | .move _ _ trip _ again => trip ≠ .noToken ∧ (trip = .unsent → again.1 = .answered)

theorem Mirrors.step (h : Mirrors p) (hids : ServerIds p.server) {e : Event} (hheard : e.Heard) :
    Mirrors (p.step (UserItems.step cfg) cache e) := by
  cases e with
  | reload trip env => exact h.reload
  | add symbol note now trip env again => exact h.add hids hheard.1 hheard.2
  | update id note trip env => exact h.update hheard
  | remove id trip env => exact h.remove hheard
  | move id up trip env again => exact h.move hheard.1 hheard.2

/-- The page shows what the store lists. -/
def Shows (cfg : Config) (b : Backend) (u : World Store) : Prop :=
  ∀ env, b.Answers (.list defaultMarket, env) →
    u.items.map face = (u.server.listItems cfg env defaultMarket).map face

/-- The listed coins. -/
def listed (symbol : String) : Option SymbolMeta := [coin 0, coin 1].find? fun m => m.symbol = symbol

/-- Two coins, a note, a move whose answer does not arrive, and the first one removed. -/
def visit : List Event :=
  [.add "0USDT" "" 0 .answered (Watchlist.env 0) (.answered, Watchlist.env 2),
    .add "1USDT" "" 1 .answered (Watchlist.env 1) (.answered, Watchlist.env 2),
    .update (rowId 1) "first" .answered (Watchlist.env 2),
    .move (rowId 1) true .lost (Watchlist.env 2) (.unsent, Watchlist.env 2),
    .remove (rowId 0) .answered (Watchlist.env 2)]

end CryptoAggHarmonic.Watchlist.Page
