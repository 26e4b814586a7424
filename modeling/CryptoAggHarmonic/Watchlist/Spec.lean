import CryptoAggHarmonic.Watchlist.Store
import CryptoAggHarmonic.Lib.Interleave

/-!
# What a watchlist is

A list of items with no market and symbol twice and no more than the limit. An operation that would break that is
refused; nothing here knows of a backend.
-/

namespace CryptoAggHarmonic.Watchlist

def Item.pair (i : Item) : String × String := (i.market, i.symbol)

/-- An item of the request gets its position in it. -/
def placed (first : ℤ) (orderedIds : List String) (i : Item) : Item :=
  if i.id ∈ orderedIds then { i with sortIndex := first + orderedIds.idxOf i.id } else i

theorem placed_id (first : ℤ) (orderedIds : List String) (i : Item) : (placed first orderedIds i).id = i.id := by
  unfold placed
  split_ifs <;> rfl

theorem placed_pair (first : ℤ) (orderedIds : List String) (i : Item) : (placed first orderedIds i).pair = i.pair := by
  unfold placed
  split_ifs <;> rfl

/-- A row after the patches of a request, one by one. -/
def patched (ps : List (String × ℤ)) (r : Item) : Item :=
  ps.foldl (fun r p => if r.id = p.1 then r.update ⟨none, some p.2⟩ else r) r

/-- What no update of an item changes. -/
def Item.identity (r : Item) : String × String × SymbolMeta := (r.id, r.market, r.toSymbolMeta)

theorem patched_identity (ps : List (String × ℤ)) (r : Item) : (patched ps r).identity = r.identity := by
  induction ps generalizing r with
  | nil => rfl
  | cons p ps ih =>
      refine (ih _).trans ?_
      dsimp only
      split_ifs <;> rfl

theorem patched_id (ps : List (String × ℤ)) (r : Item) : (patched ps r).id = r.id :=
  congrArg Prod.fst (patched_identity ps r)

structure UserItems where
  items : Table Item.id
  unique : (items.rows.map Item.pair).Nodup
  bounded : items.rows.length ≤ maxItemsPerUser

namespace UserItems

def empty : UserItems := ⟨.empty, List.nodup_nil, Nat.zero_le _⟩

variable (w : UserItems)

def list (market : String) : List Item := sortItems (w.items.rows.filter fun i => i.market = market)

def add (i : Item) : UserItems × Except WatchlistError Item :=
  if hpair : i.pair ∈ w.items.rows.map Item.pair then (w, .error (.duplicate i.symbol i.market))
  else if hroom : w.items.rows.length < maxItemsPerUser then
    match h : w.items.insert? i with
    | none => (w, .error (.duplicate i.symbol i.market))
    | some items => (⟨items, by
        rw [(Table.insert?_eq_some h).1, List.map_append, List.map_singleton]
        exact List.nodup_append_comm.mp (List.nodup_cons.mpr ⟨hpair, w.unique⟩), by
        rw [(Table.insert?_eq_some h).1, List.length_append]
        exact hroom⟩, .ok i)
  else (w, .error (.limitReached maxItemsPerUser))

/-- The items with other values, every one with its id and its pair. -/
def change (set : Item → Item) (hid : ∀ i, (set i).id = i.id) (hpair : ∀ i, (set i).pair = i.pair) : UserItems :=
  ⟨w.items.map set hid, by
    have hsame : (w.items.rows.map set).map Item.pair = w.items.rows.map Item.pair := by
      rw [List.map_map]
      exact List.map_congr_left fun i _ => hpair i
    rw [Table.map_rows, hsame]
    exact w.unique, by
    rw [Table.map_rows, List.length_map]
    exact w.bounded⟩

def modify (itemId : String) (u : Updates) : UserItems × Except WatchlistError Item :=
  match w.items.get? itemId with
  | none => (w, .error (.notFound itemId))
  | some i => (w.change (fun i => if i.id = itemId then i.update u else i)
      (fun i => by split_ifs <;> rfl) (fun i => by split_ifs <;> rfl), .ok (i.update u))

def remove (itemId : String) : UserItems × Except WatchlistError Unit :=
  match w.items.get? itemId with
  | none => (w, .error (.notFound itemId))
  | some _ => (⟨w.items.delete itemId, w.unique.sublist (List.filter_sublist.map _),
      (List.length_filter_le ..).trans w.bounded⟩, .ok ())

def arrange (orderedIds : List String) : UserItems :=
  w.change (placed 0 orderedIds) (placed_id 0 orderedIds) (placed_pair 0 orderedIds)

def create (cfg : Config) (env : Env) (market : String) (m : SymbolMeta) (note : String) :
    UserItems × Except WatchlistError Item :=
  match validateNote note, ensureWhitelisted cfg m with
  | .error e, _ => (w, .error e)
  | .ok _, .error e => (w, .error e)
  | .ok _, .ok _ => w.add (payload env market m note (nextSortIndex (w.list market)))

def update (itemId : String) (u : Updates) : UserItems × Except WatchlistError Item :=
  match checkUpdates u with
  | .error e => (w, .error e)
  | .ok _ => w.modify itemId u

def reorder (market : String) (orderedIds : List String) : UserItems × Except WatchlistError (List Item) :=
  match checkIds (w.list market) orderedIds with
  | .error e => (w, .error e)
  | .ok _ => (w.arrange orderedIds, .ok ((w.arrange orderedIds).list market))

end UserItems

def UserItems.step (cfg : Config) (w : UserItems) (call : Op × Env) : UserItems × Response :=
  match call.1 with
  | .list market => (w, .items (w.list market))
  | .create market m note => (w.create cfg call.2 market m note).map id (respond .item)
  | .update itemId u => (w.update itemId u).map id (respond .item)
  | .delete itemId => (w.remove itemId).map id (respond fun _ => .deleted)
  | .reorder market orderedIds => (w.reorder market orderedIds).map id (respond .items)

end CryptoAggHarmonic.Watchlist

/-!
# Several workers on one watchlist in Redis

Every operation loads the whole watchlist of the user, changes its copy and saves that in its place. A call is cut at
every load and at the save: `create_item` and `reorder` load once before, for the next `sort_index` and for the ids.
-/

namespace CryptoAggHarmonic.Watchlist

deriving instance DecidableEq for Updates

/-- What an operation does to the rows it has loaded. -/
inductive Change
  | create (payload : Item)
  | update (itemId : String) (u : Updates)
  | delete (itemId : String)
  | reorder (market : String) (ps : List (String × ℤ))
  deriving DecidableEq

def Change.apply (data : RedisData) : Change → RedisData × Except WatchlistError Response
  | .create payload => (data.create payload).map id (Except.map .item)
  | .update itemId u => (data.update itemId (Item.update u)).map id (Except.map .item)
  | .delete itemId => (data.delete itemId).map id (Except.map fun _ => .deleted)
  | .reorder market ps => (data.reorder market ps).map id (Except.map .items)

inductive CallPhase
  | called
  /-- Past its checks, on the rows of a first load. -/
  | prepared (change : Change)
  | loaded (change : Change) (data : RedisData)
  /-- Has saved its change. -/
  | acknowledged (change : Change) (response : Response)
  /-- Has returned rows, or raised, and saved nothing. -/
  | answered (response : Response)

structure Call where
  op : Op
  env : Env
  phase : CallPhase

def Call.goto (c : Call) (phase : CallPhase) : Call := { c with phase }

structure Shared where
  data : RedisData
  /-- The changes that are acknowledged, in the order of their saves. -/
  acks : List Change

/-- The checks of an operation, on the data of its first load. -/
def prepare (cfg : Config) (data : RedisData) (env : Env) : Op → CallPhase
  | .list market => .answered (.items (data.list market))
  | .create market m note =>
      match validateNote note, ensureWhitelisted cfg m with
      | .error e, _ => .answered (.raised e)
      | .ok _, .error e => .answered (.raised e)
      | .ok _, .ok _ => .prepared (.create (payload env market m note (nextSortIndex (data.list market))))
  | .update itemId u =>
      match checkUpdates u with
      | .error e => .answered (.raised e)
      | .ok _ => .prepared (.update itemId u)
  | .delete itemId => .prepared (.delete itemId)
  | .reorder market orderedIds =>
      match checkIds (data.list market) orderedIds with
      | .error e => .answered (.raised e)
      | .ok _ => .prepared (.reorder market (patches 0 orderedIds))

/-- The next step of a call. -/
def callStep (cfg : Config) (_ : Unit) (s : Shared) (c : Call) : Shared × Call :=
  match c.phase with
  | .called => (s, c.goto (prepare cfg s.data c.env c.op))
  | .prepared change => (s, c.goto (.loaded change s.data))
  | .loaded change data =>
      match change.apply data with
      | (_, .error e) => (s, c.goto (.answered (.raised e)))
      | (saved, .ok response) => ({ data := saved, acks := s.acks ++ [change] }, c.goto (.acknowledged change response))
  | .acknowledged _ _ => (s, c)
  | .answered _ => (s, c)

abbrev Workers (ι : Type) := Interleave.World ι Shared Call

/-- The calls, none of which has begun. -/
def Workers.start {ι : Type} (data : RedisData) (calls : ι → Op × Env) : Workers ι where
  shared := { data, acks := [] }
  procs := fun c => { op := (calls c).1, env := (calls c).2, phase := .called }

/-! ## What is acknowledged -/

/-- What a change is to do to the items of the user. -/
def Change.done (t : Table Item.id) : Change → Table Item.id
  | .create payload => t.put payload
  | .update itemId u => t.update itemId (Item.update u) (Item.update_id u)
  | .delete itemId => t.delete itemId
  | .reorder _ ps => t.map (patched ps) (patched_id ps)

/-- The items after all the acknowledged changes, in the order of their saves. -/
def Shared.expected (t₀ : Table Item.id) (s : Shared) : Table Item.id := s.acks.foldl Change.done t₀

end CryptoAggHarmonic.Watchlist
