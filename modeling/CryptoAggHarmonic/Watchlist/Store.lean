import CryptoAggHarmonic.Watchlist.Fallback

/-!
# The watchlist store

`WatchlistStore` for one user. Without a Supabase client the fallback is the store; with one every operation runs its
statements on the table `watchlist_items`, mirrors what it did, and turns to the fallback where a statement raises.
-/

namespace CryptoAggHarmonic.Watchlist

/-! ## The table -/

/-- What becomes of a statement. -/
inductive Reply
  | answers
  /-- carried out, but the answer does not arrive -/
  | lost
  | raises
  deriving DecidableEq

inductive Failure
  | uniqueViolation
  | other
  deriving DecidableEq

def isHexDigit (c : Char) : Bool :=
  let n := c.toNat
  48 ≤ n && n ≤ 57 || 97 ≤ n && n ≤ 102 || 65 ≤ n && n ≤ 70

/-- `string_to_uuid` of PostgreSQL: a hyphen may follow every second byte. -/
def uuidDigits : ℕ → List Char → Option (List Char × List Char)
  | 0, cs => some ([], cs)
  | n + 1, a :: b :: cs =>
      if isHexDigit a && isHexDigit b then
        let rest := if n % 2 = 0 ∧ 0 < n ∧ cs.head? = some '-' then cs.tail else cs
        (uuidDigits n rest).map fun (digits, rest) => (a.toLower :: b.toLower :: digits, rest)
      else none
  | _, _ => none

/-- The digits in groups of 8, 4, 4, 4 and 12. -/
def hyphenate (digits : List Char) : String :=
  let part (a b : ℕ) := (digits.take b).drop a
  String.ofList (part 0 8 ++ '-' :: part 8 12 ++ '-' :: part 12 16 ++ '-' :: part 16 20 ++ '-' :: part 20 32)

/-- How the table shows an id that is written so; nothing where it is no `UUID`. -/
def uuidText (s : String) : Option String :=
  let braces := s.toList.head? = some '\x7b'
  match uuidDigits 16 (if braces then s.toList.tail else s.toList) with
  | some (digits, rest) => if rest = if braces then ['\x7d'] else [] then some (hyphenate digits) else none
  | none => none

/-- A text without the character that PostgreSQL does not store. -/
def IsText (s : String) : Prop := '\x00' ∉ s.toList

def IsSmallint (n : ℤ) : Prop := -2 ^ 15 ≤ n ∧ n < 2 ^ 15

def IsInteger (n : ℤ) : Prop := -2 ^ 31 ≤ n ∧ n < 2 ^ 31

instance (s : String) : Decidable (IsText s) := inferInstanceAs (Decidable (_ ∉ _))

instance (n : ℤ) : Decidable (IsSmallint n) := inferInstanceAs (Decidable (_ ∧ _))

instance (n : ℤ) : Decidable (IsInteger n) := inferInstanceAs (Decidable (_ ∧ _))

/-- The columns take the values of a row. -/
def Item.Storable (r : Item) : Prop :=
  (∀ s ∈ [r.market, r.symbol, r.baseAsset, r.quoteAsset, r.contractType, r.note] ++ r.underlyingType.toList ++
    r.underlyingSubTypes, IsText s) ∧
  IsSmallint r.pricePrecision ∧ IsSmallint r.quantityPrecision ∧ r.note.length ≤ 280 ∧ IsInteger r.sortIndex

instance (r : Item) : Decidable r.Storable := inferInstanceAs (Decidable (_ ∧ _))

def Updates.Storable (u : Updates) : Prop :=
  (∀ s ∈ u.note, IsText s ∧ s.length ≤ 280) ∧ ∀ k ∈ u.sortIndex, IsInteger k

instance (u : Updates) : Decidable u.Storable := inferInstanceAs (Decidable (_ ∧ _))

abbrev Rows := Table Item.id

namespace Rows

variable {α : Type}

def replied (reply : Reply) (t : Rows) (done : Rows × Except Failure α) : Rows × Except Failure α :=
  match reply with
  | .answers => done
  | .lost => (done.1, .error .other)
  | .raises => (t, .error .other)

/-- `ORDER BY sort_index, created_at` leaves open what comes first of two rows with the same values. -/
def select (orderBy : List Item → List Item) (t : Rows) (market : String) (reply : Reply) :
    Except Failure (List Item) :=
  if IsText market ∧ reply = .answers then .ok (orderBy (t.rows.filter fun r => r.market = market))
  else .error .other

def insert (t : Rows) (payload : Item) (reply : Reply) : Rows × Except Failure Item :=
  replied reply t <|
    match uuidText payload.id with
    | none => (t, .error .other)
    | some id =>
        if ¬ payload.Storable then (t, .error .other)
        -- UNIQUE (user_id, market, symbol)
        else if ∃ r ∈ t.rows, r.market = payload.market ∧ r.symbol = payload.symbol then (t, .error .uniqueViolation)
        else
          match t.insert? { payload with id := id } with
          | none => (t, .error .uniqueViolation)
          | some t' => (t', .ok { payload with id := id })

/-- The rows it changes are returned. -/
def update (t : Rows) (itemId : String) (u : Updates) (reply : Reply) : Rows × Except Failure (Option Item) :=
  replied reply t <|
    match uuidText itemId with
    | none => (t, .error .other)
    | some id =>
        if ¬ u.Storable then (t, .error .other)
        else (Table.update t id (Item.update u) (Item.update_id u), .ok ((t.get? id).map (Item.update u)))

def delete (t : Rows) (itemId : String) (reply : Reply) : Rows × Except Failure (Option Item) :=
  replied reply t <|
    match uuidText itemId with
    | none => (t, .error .other)
    | some id => (Table.delete t id, .ok (t.get? id))

end Rows

/-! ## The store -/

structure Config where
  whitelistResolver : Option (String → Option SymbolMeta)
  orderBy : List Item → List Item

/-- What the store is given: the table when there is a client, and the fallback. -/
structure Store where
  table : Option Rows
  fallback : Fallback

/-- The values a call draws, and what becomes of its statements. -/
structure Env where
  newId : String
  now : ℕ
  reply : ℕ → Reply

def validateNote (note : String) : Except WatchlistError Unit :=
  if note.length > maxNoteLength then .error (.valueError "note exceeds 280 chars") else .ok ()

def checkUpdates (u : Updates) : Except WatchlistError Unit :=
  if u.note = none ∧ u.sortIndex = none then .error (.valueError "update_item requires note or sort_index")
  else
    match u.note with
    | none => .ok ()
    | some note => validateNote note

def ensureWhitelisted (cfg : Config) (m : SymbolMeta) : Except WatchlistError Unit :=
  match cfg.whitelistResolver with
  | none => .ok ()
  | some resolver =>
      match resolver m.symbol with
      | none => .error (.unknownSymbol m.symbol)
      | some resolved =>
          if resolved.quoteAsset ≠ m.quoteAsset then .error (.unknownSymbol m.symbol) else .ok ()

/-- `max(sort_index) + 1` -/
def nextSortIndex (existing : List Item) : ℤ :=
  match (existing.map Item.sortIndex).max? with
  | none => 0
  | some k => k + 1

/-- The ids of the request are those of the market. -/
def checkIds (existing : List Item) (orderedIds : List String) : Except WatchlistError Unit :=
  let existingIds := (existing.map Item.id).dedup
  if ¬ orderedIds.Nodup then .error (.valueError "reorder received duplicate ids")
  else if sortIds orderedIds ≠ sortIds existingIds then
    .error (.idsMismatch (sortIds (existingIds.filter (· ∉ orderedIds)))
      (sortIds (orderedIds.filter (· ∉ existingIds)).dedup))
  else .ok ()

def payload (env : Env) (market : String) (m : SymbolMeta) (note : String) (sortIndex : ℤ) : Item where
  toSymbolMeta := m
  id := env.newId
  market := market
  note := note
  sortIndex := sortIndex
  createdAt := env.now

namespace Store

variable (cfg : Config)

def listItems (s : Store) (env : Env) (market : String) : List Item :=
  match s.table with
  | none => s.fallback.list market
  | some t =>
      match t.select cfg.orderBy market (env.reply 0) with
      | .ok rows => rows
      | .error _ => s.fallback.list market

/-- `create_item` once its checks have passed. -/
def createRow (s : Store) (env : Env) (row : Item) : Store × Except WatchlistError Item :=
  match s.table with
  | none => (s.fallback.create row).map (Store.mk none) id
  | some t =>
      match t.insert row (env.reply 1) with
      | (t, .ok stored) => (⟨some t, s.fallback.mirrorCreate row⟩, .ok stored)
      | (t, .error .uniqueViolation) => (⟨some t, s.fallback⟩, .error (.duplicate row.symbol row.market))
      | (t, .error .other) => (s.fallback.create row).map (Store.mk (some t)) id

def createItem (s : Store) (env : Env) (market : String) (m : SymbolMeta) (note : String) :
    Store × Except WatchlistError Item :=
  match validateNote note, ensureWhitelisted cfg m with
  | .error e, _ => (s, .error e)
  | .ok _, .error e => (s, .error e)
  | .ok _, .ok _ => s.createRow env (payload env market m note (nextSortIndex (s.listItems cfg env market)))

/-- `update_item` once its checks have passed. -/
def updateRow (s : Store) (env : Env) (itemId : String) (u : Updates) : Store × Except WatchlistError Item :=
  match s.table with
  | none => (s.fallback.update itemId u).map (Store.mk none) id
  | some t =>
      match t.update itemId u (env.reply 0) with
      | (t, .ok none) => (⟨some t, s.fallback⟩, .error (.notFound itemId))
      | (t, .ok (some updated)) => (⟨some t, s.fallback.mirrorUpdate itemId updated⟩, .ok updated)
      | (t, .error _) => (s.fallback.update itemId u).map (Store.mk (some t)) id

def updateItem (s : Store) (env : Env) (itemId : String) (u : Updates) : Store × Except WatchlistError Item :=
  match checkUpdates u with
  | .error e => (s, .error e)
  | .ok _ => s.updateRow env itemId u

def deleteItem (s : Store) (env : Env) (itemId : String) : Store × Except WatchlistError Unit :=
  match s.table with
  | none => (s.fallback.delete itemId).map (Store.mk none) id
  | some t =>
      match t.delete itemId (env.reply 0) with
      | (t, .ok none) => (⟨some t, s.fallback⟩, .error (.notFound itemId))
      | (t, .ok (some _)) => (⟨some t, s.fallback.mirrorDelete itemId⟩, .ok ())
      | (t, .error _) => (s.fallback.delete itemId).map (Store.mk (some t)) id

/-- One `UPDATE`; an exception of the statement is no error of the caller. -/
def patch (env : Env) (n : ℕ) (t : Rows) (id : String) (k : ℤ) : Rows × Except (Option WatchlistError) Item :=
  match t.update id ⟨none, some k⟩ (env.reply (n + 1)) with
  | (t, .ok none) => (t, .error (some (.notFound id)))
  | (t, .ok (some updated)) => (t, .ok updated)
  | (t, .error _) => (t, .error none)

/-- `reorder` once its checks have passed. -/
def reorderRows (s : Store) (env : Env) (market : String) (orderedIds : List String) :
    Store × Except WatchlistError (List Item) :=
  match s.table with
  | none => (s.fallback.reorder market (patches 0 orderedIds)).map (Store.mk none) id
  | some t =>
      match patchEach (patch env) 0 (patches 0 orderedIds) t with
      | (t, .ok rows) => (⟨some t, s.fallback.mirrorReorder market (sortByIndex rows)⟩, .ok (sortByIndex rows))
      | (t, .error (some e)) => (⟨some t, s.fallback⟩, .error e)
      | (t, .error none) => (s.fallback.reorder market (patches 0 orderedIds)).map (Store.mk (some t)) id

def reorder (s : Store) (env : Env) (market : String) (orderedIds : List String) :
    Store × Except WatchlistError (List Item) :=
  match checkIds (s.listItems cfg env market) orderedIds with
  | .error e => (s, .error e)
  | .ok _ => s.reorderRows env market orderedIds

end Store

/-! ## The calls of a user -/

inductive Op
  | list (market : String)
  | create (market : String) (m : SymbolMeta) (note : String)
  | update (itemId : String) (u : Updates)
  | delete (itemId : String)
  | reorder (market : String) (orderedIds : List String)

inductive Response
  | items (rows : List Item)
  | item (row : Item)
  | deleted
  | raised (e : WatchlistError)
  deriving DecidableEq

def respond {α : Type} (ok : α → Response) : Except WatchlistError α → Response
  | .ok a => ok a
  | .error e => .raised e

def Store.step (cfg : Config) (s : Store) (call : Op × Env) : Store × Response :=
  match call.1 with
  | .list market => (s, .items (s.listItems cfg call.2 market))
  | .create market m note => (s.createItem cfg call.2 market m note).map id (respond .item)
  | .update itemId u => (s.updateItem call.2 itemId u).map id (respond .item)
  | .delete itemId => (s.deleteItem call.2 itemId).map id (respond fun _ => .deleted)
  | .reorder market orderedIds => (s.reorder cfg call.2 market orderedIds).map id (respond .items)

/-- The items a user has. -/
def Store.items (s : Store) : List Item :=
  match s.table with
  | none => s.fallback.rows
  | some t => t.rows

end CryptoAggHarmonic.Watchlist
