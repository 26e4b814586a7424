import CryptoAggHarmonic.Watchlist.Spec

/-!
# A reorder among failures and other calls

`WatchlistStore.reorder` where any statement of the table and any access to Redis may fail, and where other calls delete
rows while it runs.
-/

namespace CryptoAggHarmonic.Watchlist

structure Course where
  /-- of the statements of the table: the `SELECT`, and the `UPDATE`s one by one -/
  reply : ℕ → Reply
  /-- the rows that are deleted from the table before an `UPDATE` -/
  gone : ℕ → List String
  /-- of the accesses to Redis: the load for the list, that for the new order, and its save -/
  listLoad : Reply
  load : Reply
  save : Reply
  /-- the rows that are deleted from the fallback before its new order is made, and before that is saved -/
  goneLoad : List String
  goneSave : List String

/-- Nobody deletes anything, and Redis answers. -/
def Course.alone (reply : ℕ → Reply) : Course where
  reply := reply
  gone := fun _ => []
  listLoad := .answers
  load := .answers
  save := .answers
  goneLoad := []
  goneSave := []

def Course.Gone (c : Course) (id : String) : Prop := (∃ n, id ∈ c.gone n) ∨ id ∈ c.goneLoad ∨ id ∈ c.goneSave

/-! ## The fallback -/

namespace Fallback

def drop (ids : List String) (f : Fallback) : Fallback := ids.foldl (fun f id => f.mirrorDelete id) f

/-- `list_items` of the fallback; nothing where it raises. -/
def listDuring (c : Course) (market : String) : Fallback → Option (List Item)
  | .redis data => if c.listLoad = .answers then some (data.list market) else none
  | .memory rows => some (rows.list market)

/-- An exception of Redis is no error of the store. -/
def reorderDuring (c : Course) (market : String) (ps : List (String × ℤ)) (f : Fallback) :
    Fallback × Except (Option WatchlistError) (List Item) :=
  match f.drop c.goneLoad with
  -- under its lock
  | .memory rows => (rows.reorder ps).map .memory (Except.mapError some)
  | .redis data =>
      if c.load ≠ .answers then (.redis data, .error none)
      else
        match data.reorder market ps with
        | (_, .error e) => (.redis data, .error (some e))
        | (saved, .ok rows) =>
            match c.save with
            -- what has been deleted since the load is there again
            | .answers => (.redis saved, .ok rows)
            | .lost => (.redis saved, .error none)
            | .raises => ((Fallback.redis data).drop c.goneSave, .error none)

def mirrorReorderDuring (c : Course) (market : String) (rows : List Item) (f : Fallback) : Fallback :=
  match f.drop c.goneLoad with
  | .memory mirrored => (Fallback.memory mirrored).mirrorReorder market rows
  | .redis data =>
      if c.load = .answers ∧ c.save ≠ .raises then (Fallback.redis data).mirrorReorder market rows
      else (Fallback.redis data).drop c.goneSave

end Fallback

/-! ## The store -/

def Rows.drop (ids : List String) (t : Rows) : Rows := ids.foldl Table.delete t

def Course.patch (c : Course) (n : ℕ) (t : Rows) (id : String) (k : ℤ) :
    Rows × Except (Option WatchlistError) Item :=
  Store.patch ⟨"", 0, c.reply⟩ n (t.drop (c.gone n)) id k

namespace Store

variable (cfg : Config)

def listDuring (s : Store) (c : Course) (market : String) : Option (List Item) :=
  match s.table with
  | none => s.fallback.listDuring c market
  | some t =>
      match t.select cfg.orderBy market (c.reply 0) with
      | .ok rows => some rows
      | .error _ => s.fallback.listDuring c market

def reorderRowsDuring (s : Store) (c : Course) (market : String) (orderedIds : List String) :
    Store × Except (Option WatchlistError) (List Item) :=
  match s.table with
  | none => (s.fallback.reorderDuring c market (patches 0 orderedIds)).map (Store.mk none) id
  | some t =>
      match patchEach c.patch 0 (patches 0 orderedIds) t with
      | (t, .ok rows) =>
          (⟨some t, s.fallback.mirrorReorderDuring c market (sortByIndex rows)⟩, .ok (sortByIndex rows))
      | (t, .error (some e)) => (⟨some t, s.fallback⟩, .error (some e))
      | (t, .error none) =>
          (s.fallback.reorderDuring c market (patches 0 orderedIds)).map (Store.mk (some t)) id

def reorderDuring (s : Store) (c : Course) (market : String) (orderedIds : List String) :
    Store × Except (Option WatchlistError) (List Item) :=
  match s.listDuring cfg c market with
  | none => (s, .error none)
  | some existing =>
      match checkIds existing orderedIds with
      | .error e => (s, .error (some e))
      | .ok _ => s.reorderRowsDuring c market orderedIds

/-- Left alone it is the `reorder` of the store. -/
theorem reorderDuring_alone (s : Store) (env : Env) (market : String) (orderedIds : List String) :
    s.reorderDuring cfg (.alone env.reply) market orderedIds =
      (s.reorder cfg env market orderedIds).map id (Except.mapError some) := by
  have hshown : s.fallback.listDuring (.alone env.reply) market = some (s.fallback.list market) := by
    rcases s with ⟨_, data | rows⟩ <;> rfl
  have hlist : s.listDuring cfg (.alone env.reply) market = some (s.listItems cfg env market) := by
    unfold listDuring listItems
    rw [hshown]
    cases s.table with
    | none => rfl
    | some t =>
        dsimp only [Course.alone]
        cases t.select cfg.orderBy market (env.reply 0) <;> rfl
  have hfallback : ∀ ps, s.fallback.reorderDuring (.alone env.reply) market ps =
      (s.fallback.reorder market ps).map id (Except.mapError some) := by
    intro ps
    unfold Fallback.reorderDuring Fallback.reorder Course.alone
    rcases s with ⟨_, data | rows⟩
    · dsimp only [Fallback.drop, List.foldl_nil]
      rw [if_neg (by simp)]
      unfold RedisData.reorder
      cases RedisData.patchRows ps (data.rowsOf market) <;> rfl
    · rfl
  have hmirror : ∀ rows, s.fallback.mirrorReorderDuring (.alone env.reply) market rows =
      s.fallback.mirrorReorder market rows := by
    intro rows
    unfold Fallback.mirrorReorderDuring Course.alone
    rcases s with ⟨_, data | rows⟩ <;> rfl
  have hpatch : (Course.alone env.reply).patch = patch env := rfl
  unfold reorderDuring reorder reorderRowsDuring reorderRows
  rw [hlist, hpatch]
  dsimp only
  cases checkIds (s.listItems cfg env market) orderedIds with
  | error e => rfl
  | ok _ =>
      dsimp only
      cases s.table with
      | none =>
          dsimp only
          rw [hfallback]
          rfl
      | some t =>
          dsimp only
          rcases patchEach (patch env) 0 (patches 0 orderedIds) t with ⟨t', (_ | e) | rows⟩
          · dsimp only
            rw [hfallback]
            rfl
          · rfl
          · dsimp only
            rw [hmirror]
            rfl

/-- The ids of what `list_items` then shows. -/
def order (s : Store) (market : String) : List String :=
  (s.listItems cfg ⟨"", 0, fun _ => .answers⟩ market).map Item.id

end Store

/-! ## What a reorder promises -/

/-- The ids are shown in that order, without some that are gone. -/
structure Keeps (gone : String → Prop) (order now : List String) : Prop where
  sublist : now.Sublist order
  rest : ∀ id ∈ order, id ∈ now ∨ gone id

/-- All of the new order, or nothing of it. -/
def Exact (cfg : Config) (s : Store) (c : Course) (market : String) (orderedIds : List String) : Prop :=
  let done := s.reorderDuring cfg c market orderedIds
  match done.2 with
  | .ok _ => Keeps c.Gone orderedIds (done.1.order cfg market)
  | .error _ => Keeps c.Gone (s.order cfg market) (done.1.order cfg market)

end CryptoAggHarmonic.Watchlist
