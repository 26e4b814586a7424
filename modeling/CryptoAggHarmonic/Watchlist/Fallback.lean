import CryptoAggHarmonic.Lib.Table
import Mathlib.Data.List.Sort
import Mathlib.Data.List.Dedup
import Mathlib.Data.String.Basic

/-!
# The fallbacks of the watchlist store

One user's rows in Redis, a dictionary from markets to lists of rows, and in memory, a dictionary of rows. An operation
gives the new state, and its result or the exception it raises. `updated_at` is left out, nothing is read from it.
-/

namespace CryptoAggHarmonic.Watchlist

def maxItemsPerUser : ℕ := 50

def maxNoteLength : ℕ := 280

structure SymbolMeta where
  symbol : String
  baseAsset : String
  quoteAsset : String
  contractType : String
  underlyingType : Option String
  underlyingSubTypes : List String
  pricePrecision : ℤ
  quantityPrecision : ℤ
  isTradfi : Bool
  deriving DecidableEq

structure Item extends SymbolMeta where
  id : String
  market : String
  note : String
  sortIndex : ℤ
  /-- in microseconds -/
  createdAt : ℕ
  deriving DecidableEq

inductive WatchlistError
  | limitReached (limit : ℕ)
  | duplicate (symbol market : String)
  | notFound (itemId : String)
  /-- the `NotFoundError` of `reorder`, whose text shows both lists -/
  | idsMismatch (missing extra : List String)
  | unknownSymbol (symbol : String)
  | valueError (message : String)
  deriving DecidableEq

/-- What a request changes of a row. -/
structure Updates where
  note : Option String
  sortIndex : Option ℤ

namespace Item

def update (u : Updates) (r : Item) : Item :=
  { r with note := u.note.getD r.note, sortIndex := u.sortIndex.getD r.sortIndex }

theorem update_id (u : Updates) (r : Item) : (r.update u).id = r.id := rfl

/-- `(sort_index, created_at)` -/
def Before (a b : Item) : Prop :=
  a.sortIndex < b.sortIndex ∨ a.sortIndex = b.sortIndex ∧ a.createdAt ≤ b.createdAt

instance : DecidableRel Before := fun _ _ => inferInstanceAs (Decidable (_ ∨ _))

end Item

/-- `rows.sort(key=lambda r: (r["sort_index"], r["created_at"]))` -/
def sortItems (rows : List Item) : List Item := rows.insertionSort Item.Before

/-- `rows.sort(key=lambda r: r["sort_index"])` -/
def sortByIndex (rows : List Item) : List Item := rows.insertionSort fun a b => a.sortIndex ≤ b.sortIndex

def sortIds (ids : List String) : List String := ids.insertionSort (· ≤ ·)

/-- The ids of a request with their positions. -/
def patches (first : ℤ) : List String → List (String × ℤ)
  | [] => []
  | id :: ids => (id, first) :: patches (first + 1) ids

section

variable {σ ε α : Type}

/-- The `for` loop over the patches: the first exception ends it. -/
def patchEach (patch : ℕ → σ → String → ℤ → σ × Except ε α) : ℕ → List (String × ℤ) → σ → σ × Except ε (List α)
  | _, [], s => (s, .ok [])
  | n, (id, k) :: ps, s =>
      match patch n s id k with
      | (s, .error e) => (s, .error e)
      | (s, .ok r) =>
          match patchEach patch (n + 1) ps s with
          | (s, .error e) => (s, .error e)
          | (s, .ok rs) => (s, .ok (r :: rs))

end

/-! ## Redis -/

abbrev RedisData := Table (Prod.fst : String × List Item → String)

namespace RedisData

def rowsOf (data : RedisData) (market : String) : List Item := ((data.get? market).map Prod.snd).getD []

def list (data : RedisData) (market : String) : List Item := sortItems (data.rowsOf market)

def create (data : RedisData) (payload : Item) : RedisData × Except WatchlistError Item :=
  let rows := data.rowsOf payload.market
  if ∃ r ∈ rows, r.symbol = payload.symbol then (data, .error (.duplicate payload.symbol payload.market))
  else if rows.length ≥ maxItemsPerUser then (data, .error (.limitReached maxItemsPerUser))
  else (data.put (payload.market, rows ++ [payload]), .ok payload)

/-- The first market with that id, and its row. -/
def locate (data : RedisData) (itemId : String) : Option ((String × List Item) × Item) :=
  data.rows.findSome? fun e => (e.2.find? fun r => r.id = itemId).map (e, ·)

def update (data : RedisData) (itemId : String) (set : Item → Item) : RedisData × Except WatchlistError Item :=
  match data.locate itemId with
  | none => (data, .error (.notFound itemId))
  | some (e, r) => (data.put (e.1, e.2.map fun r => if r.id = itemId then set r else r), .ok (set r))

def delete (data : RedisData) (itemId : String) : RedisData × Except WatchlistError Unit :=
  match data.locate itemId with
  | none => (data, .error (.notFound itemId))
  | some (e, _) => (data.put (e.1, e.2.filter fun r => r.id ≠ itemId), .ok ())

def patchRows : List (String × ℤ) → List Item → Except WatchlistError (List Item)
  | [], rows => .ok rows
  | (id, k) :: ps, rows =>
      if ∃ r ∈ rows, r.id = id then
        patchRows ps (rows.map fun r => if r.id = id then r.update ⟨none, some k⟩ else r)
      else .error (.notFound id)

/-- The rows are sorted once they have been saved. -/
def reorder (data : RedisData) (market : String) (ps : List (String × ℤ)) :
    RedisData × Except WatchlistError (List Item) :=
  match patchRows ps (data.rowsOf market) with
  | .error e => (data, .error e)
  | .ok rows =>
      (match data.get? market with
        | none => data
        | some _ => data.put (market, rows), .ok (sortByIndex rows))

end RedisData

/-! ## Memory -/

abbrev MemoryRows := Table Item.id

namespace MemoryRows

def list (rows : MemoryRows) (market : String) : List Item := sortItems (rows.rows.filter fun r => r.market = market)

def create (rows : MemoryRows) (payload : Item) : MemoryRows × Except WatchlistError Item :=
  if ∃ r ∈ rows.rows, r.market = payload.market ∧ r.symbol = payload.symbol then
    (rows, .error (.duplicate payload.symbol payload.market))
  else if rows.rows.length ≥ maxItemsPerUser then (rows, .error (.limitReached maxItemsPerUser))
  else (rows.put payload, .ok payload)

def update (rows : MemoryRows) (itemId : String) (set : Item → Item) (hset : ∀ r, (set r).id = r.id) :
    MemoryRows × Except WatchlistError Item :=
  match rows.get? itemId with
  | none => (rows, .error (.notFound itemId))
  | some r => (Table.update rows itemId set hset, .ok (set r))

def delete (rows : MemoryRows) (itemId : String) : MemoryRows × Except WatchlistError Unit :=
  match rows.get? itemId with
  | none => (rows, .error (.notFound itemId))
  | some _ => (Table.delete rows itemId, .ok ())

def patch (rows : MemoryRows) (id : String) (k : ℤ) : MemoryRows × Except WatchlistError Item :=
  rows.update id (Item.update ⟨none, some k⟩) fun _ => rfl

def reorder (rows : MemoryRows) (ps : List (String × ℤ)) : MemoryRows × Except WatchlistError (List Item) :=
  (patchEach (fun _ => patch) 0 ps rows).map id (Except.map sortByIndex)

end MemoryRows

/-! ## The active fallback -/

inductive Fallback
  | redis (data : RedisData)
  | memory (rows : MemoryRows)

namespace Fallback

def list (market : String) : Fallback → List Item
  | .redis data => data.list market
  | .memory rows => rows.list market

def create (payload : Item) : Fallback → Fallback × Except WatchlistError Item
  | .redis data => (data.create payload).map .redis id
  | .memory rows => (rows.create payload).map .memory id

def update (itemId : String) (u : Updates) : Fallback → Fallback × Except WatchlistError Item
  | .redis data => (data.update itemId (Item.update u)).map .redis id
  | .memory rows => (rows.update itemId (Item.update u) fun _ => rfl).map .memory id

def delete (itemId : String) : Fallback → Fallback × Except WatchlistError Unit
  | .redis data => (data.delete itemId).map .redis id
  | .memory rows => (rows.delete itemId).map .memory id

def reorder (market : String) (ps : List (String × ℤ)) : Fallback → Fallback × Except WatchlistError (List Item)
  | .redis data => (data.reorder market ps).map .redis id
  | .memory rows => (rows.reorder ps).map .memory id

def rows : Fallback → List Item
  | .redis data => data.rows.flatMap Prod.snd
  | .memory rows => rows.rows

/-! What Supabase has done is mirrored, and what the fallback raises is logged only. -/

def mirrorCreate (payload : Item) (f : Fallback) : Fallback := (f.create payload).1

def mirrorUpdate (itemId : String) (updated : Item) : Fallback → Fallback
  | .redis data => .redis (data.update itemId fun r => { updated with id := r.id, market := r.market }).1
  | .memory rows => .memory (rows.update itemId (fun r => { updated with id := r.id }) fun _ => rfl).1

def mirrorDelete (itemId : String) (f : Fallback) : Fallback := (f.delete itemId).1

def mirrorReorder (market : String) (rows : List Item) : Fallback → Fallback
  | .redis data => .redis (data.put (market, rows))
  | .memory mirrored =>
      .memory (patchEach (fun _ => MemoryRows.patch) 0 (rows.map fun r => (r.id, r.sortIndex)) mirrored).1

end Fallback

end CryptoAggHarmonic.Watchlist
