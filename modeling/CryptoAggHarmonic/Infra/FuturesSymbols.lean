import Mathlib.Data.List.Sort
import Mathlib.Data.Rat.Floor
import CryptoAggHarmonic.Lib.Steps
import CryptoAggHarmonic.Python.Float

/-!
# Futures symbols

`app/infra/futures_symbols_cache.py`. A file is what reading it gives, and `json.loads` gives back what `json.dumps`
wrote. The calls of the caller, the background thread and the other processes that share the file come one after
another, each on the file as the one before left it. Symbols that are lists are not compared.
-/

namespace CryptoAggHarmonic.Infra

inductive Exc
  | typeError
  | valueError
  | keyError
  | overflowError
  | attributeError
  | osError
  | jsonDecodeError
  /-- What the fetcher raises. -/
  | fetch
  deriving DecidableEq

/-! ## Conversions -/

section

variable (intOf : String → Option ℤ)

/-- `int(v)`; `intOf` is `int` of a text. -/
def pyInt : PyValue → Except Exc ℤ
  | .int n => .ok n
  | .bool b => .ok (if b then 1 else 0)
  | .float (.finite x) => .ok (if 0 ≤ x then ⌊x⌋ else ⌈x⌉)
  | .float .nan => .error .valueError
  | .float _ => .error .overflowError
  | .str s => match intOf s with
    | some n => .ok n
    | none => .error .valueError
  | _ => .error .typeError

/-- `bool(v)` -/
def pyBool : PyValue → Bool
  | .none => false
  | .bool b => b
  | .int n => n ≠ 0
  | .float x => x ≠ .finite 0
  | .str s => s ≠ ""
  | .list xs => !xs.isEmpty
  | .dict items => !items.isEmpty
  | .other => true

/-- `list(v)` -/
def pyList : PyValue → Except Exc (List PyValue)
  | .list xs => .ok xs
  | .str s => .ok (s.toList.map fun c => .str (String.singleton c))
  | .dict items => .ok (items.map fun item => .str item.1)
  | _ => .error .typeError

/-- `list(v or [])` -/
def pyListOr (v : PyValue) : Except Exc (List PyValue) := if pyBool v then pyList v else .ok []

/-- `d[key]` -/
def pyItem (d : PyValue) (key : String) : Except Exc PyValue :=
  match d with
  | .dict items => match items.lookup key with
    | some v => .ok v
    | none => .error .keyError
  | _ => .error .typeError

/-- `d.get(key, default)` -/
def pyGet (d : PyValue) (key : String) (default : PyValue) : Except Exc PyValue :=
  match d with
  | .dict items => .ok ((items.lookup key).getD default)
  | _ => .error .attributeError

def isText (v : PyValue) (s : String) : Bool :=
  match v with
  | .str t => t = s
  | _ => false

/-! ## Entries -/

structure SymbolEntry where
  symbol : PyValue
  baseAsset : PyValue
  quoteAsset : PyValue
  contractType : PyValue
  underlyingType : PyValue
  underlyingSubTypes : List PyValue
  pricePrecision : ℤ
  quantityPrecision : ℤ
  isTradfi : Bool
  onboardDateMs : ℤ

def SymbolEntry.toDict (e : SymbolEntry) : PyValue :=
  .dict [("symbol", e.symbol),
    ("baseAsset", e.baseAsset),
    ("quoteAsset", e.quoteAsset),
    ("contractType", e.contractType),
    ("underlyingType", e.underlyingType),
    ("underlyingSubTypes", .list e.underlyingSubTypes),
    ("pricePrecision", .int e.pricePrecision),
    ("quantityPrecision", .int e.quantityPrecision),
    ("isTradfi", .bool e.isTradfi),
    ("onboardDate", .int e.onboardDateMs)]

/-- The body of the `try` of `_parse_entry`. -/
def parseBody (raw : PyValue) : Except Exc (Option SymbolEntry) := do
  let status ← pyGet raw "status" .none
  if !isText status "TRADING" then return none
  let quote ← pyGet raw "quoteAsset" .none
  if !isText quote "USDT" then return none
  let contract ← pyGet raw "contractType" .none
  -- What cannot be hashed is no contract type either: its `TypeError` is caught.
  if !(isText contract "PERPETUAL" || isText contract "TRADIFI_PERPETUAL") then return none
  let symbol ← pyItem raw "symbol"
  let baseAsset ← pyItem raw "baseAsset"
  let quoteAsset ← pyItem raw "quoteAsset"
  let contractType ← pyItem raw "contractType"
  let underlyingType ← pyGet raw "underlyingType" (.str "COIN")
  let underlyingSubTypes ← pyListOr (← pyGet raw "underlyingSubTypes" .none)
  let pricePrecision ← pyInt intOf (← pyGet raw "pricePrecision" (.int 2))
  let quantityPrecision ← pyInt intOf (← pyGet raw "quantityPrecision" (.int 3))
  let onboardDateMs ← pyInt intOf (← pyGet raw "onboardDate" (.int 0))
  return some {
    symbol, baseAsset, quoteAsset, contractType, underlyingType, underlyingSubTypes, pricePrecision,
    quantityPrecision, onboardDateMs
    isTradfi := isText contract "TRADIFI_PERPETUAL" }

/-- `_parse_entry` -/
def parseEntry (raw : PyValue) : Except Exc (Option SymbolEntry) :=
  match parseBody intOf raw with
  | .error .keyError => .ok none
  | .error .typeError => .ok none
  | .error .valueError => .ok none
  | r => r

/-- The value of a number. -/
def pyNumber : PyValue → Option PyFloat
  | .bool b => some (.finite (if b then 1 else 0))
  | .int n => some (.finite n)
  | .float x => some x
  | _ => none

/-- `a < b`; nothing where the types do not compare. -/
def pyLess (a b : PyValue) : Option Bool :=
  match a, b with
  | .str s, .str t => some (s < t)
  | a, b => match pyNumber a, pyNumber b with
    | some x, some y => some (y.gt x)
    | _, _ => none

/-- `out.sort(key=lambda e: e.symbol)` -/
def sortBySymbol (entries : List SymbolEntry) : Except Exc (List SymbolEntry) :=
  if entries.length ≤ 1 ∨ ∀ a ∈ entries, ∀ b ∈ entries, (pyLess a.symbol b.symbol).isSome then
    .ok (entries.insertionSort fun a b => pyLess b.symbol a.symbol ≠ some true)
  else .error .typeError

/-- `_entries_from_exchangeinfo` -/
def entriesFromExchangeinfo (raw : PyValue) : Except Exc (List SymbolEntry) := do
  let symbols ← pyListOr (← pyGet raw "symbols" .none)
  let out ← symbols.mapM (parseEntry intOf)
  sortBySymbol out.reduceOption

/-- `SymbolEntry(**_entry_from_dict(d))` -/
def entryFromDict (d : PyValue) : Except Exc SymbolEntry := do
  let symbol ← pyItem d "symbol"
  let baseAsset ← pyItem d "baseAsset"
  let quoteAsset ← pyItem d "quoteAsset"
  let contractType ← pyItem d "contractType"
  let underlyingType ← pyGet d "underlyingType" (.str "COIN")
  let underlyingSubTypes ← pyListOr (← pyGet d "underlyingSubTypes" .none)
  let pricePrecision ← pyInt intOf (← pyGet d "pricePrecision" (.int 2))
  let quantityPrecision ← pyInt intOf (← pyGet d "quantityPrecision" (.int 3))
  let tradfi ← pyGet d "isTradfi" (.bool false)
  let onboardDateMs ← pyInt intOf (← pyGet d "onboardDate" (.int 0))
  return { symbol, baseAsset, quoteAsset, contractType, underlyingType, underlyingSubTypes, pricePrecision,
           quantityPrecision, onboardDateMs, isTradfi := pyBool tradfi }

/-- The list comprehension over what the file holds. -/
def decodeAll (cached : PyValue) : Except Exc (List SymbolEntry) := do
  (← pyList cached).mapM (entryFromDict intOf)

end

/-! ## The file -/

inductive Content
  /-- Reading raises an `OSError`. -/
  | unreadable
  /-- The bytes are not UTF-8. -/
  | undecodable
  | malformed
  | json (v : PyValue)

structure CacheFile where
  content : Content
  mtime : ℤ

/-- `json.loads(path.read_text(encoding="utf-8"))` -/
def CacheFile.load (file : CacheFile) : Except Exc PyValue :=
  match file.content with
  | .unreadable => .error .osError
  | .undecodable => .error .valueError
  | .malformed => .error .jsonDecodeError
  | .json v => .ok v

/-- The exceptions after which the entries are looked for elsewhere. -/
def caughtOnLoad : Exc → Bool
  | .osError => true
  | .jsonDecodeError => true
  | .typeError => true
  | _ => false

/-- What becomes of a write: the file is replaced, an `OSError` of the write is logged, or there is no directory. -/
inductive Written
  | replaced
  | failed
  | noDirectory
  deriving DecidableEq

/-- What a call meets: the payload of the fetcher, if it gives one, the write, and the time. -/
structure CacheEnv where
  payload : Option PyValue
  write : Written := .replaced
  now : ℤ

structure SymbolsCache where
  file : Option CacheFile := none
  memory : Option PyValue := none
  mtimeAtLoad : ℤ := 0
  refreshInProgress : Bool := false

def STALENESS_SECONDS : ℤ := 7 * 24 * 3600

section

variable (intOf : String → Option ℤ) (s : SymbolsCache) (env : CacheEnv)

/-- `_write` -/
def writeEntries (entries : List SymbolEntry) : Except Exc (Option CacheFile) :=
  let payload : PyValue := .list (entries.map SymbolEntry.toDict)
  match env.write with
  | .noDirectory => .error .osError
  | written =>
      if !payload.dumps then .error .typeError
      else if written = .replaced then .ok (some ⟨.json payload, env.now⟩)
      else .ok s.file

/-- The fetch, the write and the copy in memory; the cache is left alone where one of them raises. -/
def fetchAndStore : Except Exc (SymbolsCache × List SymbolEntry) := do
  let raw ← match env.payload with
    | some raw => .ok raw
    | none => .error .fetch
  let entries ← entriesFromExchangeinfo intOf raw
  let file ← writeEntries s env entries
  return ({ s with
    file := file
    memory := some (.list (entries.map SymbolEntry.toDict))
    mtimeAtLoad := match file with
      | some file => file.mtime
      | none => 0 }, entries)

/-- `refresh` -/
def refresh : SymbolsCache × Except Exc ℕ :=
  match fetchAndStore intOf s env with
  | .ok (s, entries) => (s, .ok entries.length)
  | .error e => (s, .error e)

/-- A result of `_ensure_loaded`, and whether the fetcher was called for it. -/
structure Loaded where
  result : Except Exc (List SymbolEntry)
  fetched : Bool

/-- The synchronous fetch of `_ensure_loaded`. -/
def bootstrap : SymbolsCache × Loaded :=
  match fetchAndStore intOf s env with
  | .ok (s, entries) => (s, ⟨.ok entries, true⟩)
  | .error _ => ({ s with memory := some (.list []) }, ⟨.ok [], true⟩)

/-- The second `try` of `_ensure_loaded`: memory takes what the file holds before it is decoded. -/
def loadFile : SymbolsCache × Loaded :=
  match s.file with
  | none => bootstrap intOf s env
  | some file =>
      match file.load with
      | .error e => if caughtOnLoad e then bootstrap intOf s env else (s, ⟨.error e, false⟩)
      | .ok cached =>
          let s := { s with memory := some cached, mtimeAtLoad := file.mtime }
          match decodeAll intOf cached with
          | .ok entries => (s, ⟨.ok entries, false⟩)
          | .error e => if caughtOnLoad e then bootstrap intOf s env else (s, ⟨.error e, false⟩)

/-- `_ensure_loaded` -/
def ensureLoaded : SymbolsCache × Loaded :=
  match s.memory, s.file with
  | some _, some file =>
      if file.mtime = s.mtimeAtLoad then
        match file.load >>= decodeAll intOf with
        | .ok entries => (s, ⟨.ok entries, false⟩)
        | .error e => if caughtOnLoad e then loadFile intOf s env else (s, ⟨.error e, false⟩)
      else loadFile intOf s env
  | _, _ => loadFile intOf s env

/-- `_should_refresh` -/
def shouldRefresh : Bool :=
  !s.refreshInProgress &&
    match s.file with
    | none => true
    | some file => env.now - file.mtime > STALENESS_SECONDS

/-- `get`: the dicts it returns, and whether the caller waited for the fetcher. -/
def get : SymbolsCache × Except Exc (List PyValue) × Bool :=
  let (s, loaded) := ensureLoaded intOf s env
  match loaded.result with
  | .error e => (s, .error e, loaded.fetched)
  | .ok entries =>
      let s := if shouldRefresh s env then { s with refreshInProgress := true } else s
      (s, .ok (entries.map SymbolEntry.toDict), loaded.fetched)

end

/-! ## Runs -/

inductive CacheOp
  | get (env : CacheEnv)
  | refresh (env : CacheEnv)
  /-- The background thread, once it was started. -/
  | background (env : CacheEnv)
  /-- What others make of the file. -/
  | disk (file : Option CacheFile)

def cacheStep (intOf : String → Option ℤ) (s : SymbolsCache) : CacheOp → SymbolsCache
  | .get env => (get intOf s env).1
  | .refresh env => (refresh intOf s env).1
  | .background env =>
      if s.refreshInProgress then { (refresh intOf s env).1 with refreshInProgress := false } else s
  | .disk file => { s with file := file }

/-! ## Round trip -/

variable {intOf : String → Option ℤ} {s s' : SymbolsCache} {env : CacheEnv} {entries : List SymbolEntry}
  {op : CacheOp} {ops : List CacheOp}

theorem entryFromDict_toDict (e : SymbolEntry) : entryFromDict intOf e.toDict = .ok e := by
  have hlist : pyListOr (.list e.underlyingSubTypes) = .ok e.underlyingSubTypes := by
    cases h : e.underlyingSubTypes <;> simp [pyListOr, pyBool, pyList]
  simp [entryFromDict, SymbolEntry.toDict, pyItem, pyGet, List.lookup_cons, hlist, pyInt, pyBool, bind, Except.bind, pure,
    Except.pure]

/-- **What is written is read back.** -/
theorem decodeAll_toDict (entries : List SymbolEntry) :
    decodeAll intOf (.list (entries.map SymbolEntry.toDict)) = .ok entries := by
  have hall : (entries.map SymbolEntry.toDict).mapM (entryFromDict intOf) = .ok entries := by
    induction entries with
    | nil => rfl
    | cons e entries ih =>
        rw [List.map_cons, List.mapM_cons, entryFromDict_toDict, ih]
        rfl
  exact hall

/-! ## A stored snapshot -/

/-- The file holds a snapshot with these entries. -/
structure Stores (intOf : String → Option ℤ) (file : Option CacheFile) (entries : List SymbolEntry) : Prop where
  load : ∃ f, file = some f ∧ (f.load >>= decodeAll intOf) = .ok entries
  ne_nil : entries ≠ []

/-- The fetcher gives a payload without any entry, which replaces the file. -/
def Empties (intOf : String → Option ℤ) (env : CacheEnv) : Prop :=
  env.write = .replaced ∧ ∃ raw, env.payload = some raw ∧ entriesFromExchangeinfo intOf raw = .ok []

/-- A refresh does not empty the file, and what others make of it is a snapshot again. -/
def SafeOp (intOf : String → Option ℤ) : CacheOp → Prop
  | .get _ => True
  | .refresh env => ¬ Empties intOf env
  | .background env => ¬ Empties intOf env
  | .disk file => ∃ entries, Stores intOf file entries

theorem loadFile_of_stores (h : Stores intOf s.file entries) :
    (loadFile intOf s env).2 = ⟨.ok entries, false⟩ ∧ (loadFile intOf s env).1.file = s.file := by
  obtain ⟨f, hfile, hload⟩ := h.load
  unfold loadFile
  rw [hfile]
  cases hf : f.load with
  | error e =>
      rw [hf] at hload
      cases hload
  | ok cached =>
      rw [hf] at hload
      have hdecode : decodeAll intOf cached = .ok entries := hload
      simp [hf, hdecode]

/-- Either way the entries are those of the file. -/
theorem ensureLoaded_of_stores (h : Stores intOf s.file entries) (env : CacheEnv) :
    (ensureLoaded intOf s env).2 = ⟨.ok entries, false⟩ ∧ (ensureLoaded intOf s env).1.file = s.file := by
  obtain ⟨f, hfile, hload⟩ := h.load
  unfold ensureLoaded
  split
  · rename_i f' _ hfile'
    obtain rfl : f = f' := Option.some.inj (hfile.symm.trans hfile')
    split
    · rw [hload]
      exact ⟨rfl, rfl⟩
    · exact loadFile_of_stores h
  · exact loadFile_of_stores h

theorem get_of_stores (h : Stores intOf s.file entries) :
    (get intOf s env).2 = (.ok (entries.map SymbolEntry.toDict), false) ∧ (get intOf s env).1.file = s.file := by
  obtain ⟨hloaded, hfile⟩ := ensureLoaded_of_stores h env
  unfold get
  simp only [hloaded, true_and]
  split <;> exact hfile

theorem writeEntries_eq_ok {file : Option CacheFile} (h : writeEntries s env entries = .ok file) :
    env.write = .replaced ∧ file = some ⟨.json (.list (entries.map SymbolEntry.toDict)), env.now⟩ ∨
      env.write ≠ .replaced ∧ file = s.file := by
  unfold writeEntries at h
  dsimp only at h
  split at h
  · cases h
  · split_ifs at h with hdumps hwritten
    · cases h
      exact Or.inl ⟨hwritten, rfl⟩
    · cases h
      exact Or.inr ⟨hwritten, rfl⟩

theorem fetchAndStore_eq_ok (h : fetchAndStore intOf s env = .ok (s', entries)) :
    (∃ raw, env.payload = some raw ∧ entriesFromExchangeinfo intOf raw = .ok entries) ∧
      (env.write = .replaced ∧ s'.file = some ⟨.json (.list (entries.map SymbolEntry.toDict)), env.now⟩ ∨
        env.write ≠ .replaced ∧ s'.file = s.file) := by
  unfold fetchAndStore at h
  cases hpayload : env.payload with
  | none =>
      rw [hpayload] at h
      cases h
  | some raw =>
      rw [hpayload] at h
      cases hparsed : entriesFromExchangeinfo intOf raw with
      | error e =>
          simp only [bind, Except.bind, hparsed] at h
          cases h
      | ok parsed =>
          simp only [bind, Except.bind, hparsed] at h
          cases hwritten : writeEntries s env parsed with
          | error e =>
              rw [hwritten] at h
              cases h
          | ok file =>
              rw [hwritten] at h
              cases h
              exact ⟨⟨raw, rfl, hparsed⟩, writeEntries_eq_ok hwritten⟩

/-- A refresh that replaced the file has stored what it fetched. -/
theorem stores_refresh {n : ℕ} (h : (refresh intOf s env).2 = .ok n) (hn : n ≠ 0) (hwrite : env.write = .replaced) :
    ∃ entries, Stores intOf (refresh intOf s env).1.file entries := by
  unfold refresh at h ⊢
  cases hstored : fetchAndStore intOf s env with
  | error e =>
      rw [hstored] at h
      cases h
  | ok r =>
      obtain ⟨s', entries⟩ := r
      rw [hstored] at h
      cases h
      rcases (fetchAndStore_eq_ok hstored).2 with ⟨-, hfile⟩ | ⟨hne, -⟩
      · exact ⟨entries, ⟨_, hfile, decodeAll_toDict entries⟩, fun hnil => hn (by rw [hnil]; rfl)⟩
      · exact absurd hwrite hne

/-- Any other refresh leaves a snapshot, this one or the one before. -/
theorem Stores.refresh (h : Stores intOf s.file entries) (hsafe : ¬ Empties intOf env) :
    ∃ entries, Stores intOf (refresh intOf s env).1.file entries := by
  unfold Infra.refresh
  cases hstored : fetchAndStore intOf s env with
  | error e => exact ⟨entries, h⟩
  | ok r =>
      obtain ⟨s', fetched⟩ := r
      obtain ⟨⟨raw, hpayload, hparsed⟩, hfile⟩ := fetchAndStore_eq_ok hstored
      rcases hfile with ⟨hwrite, hfile⟩ | ⟨-, hfile⟩
      · refine ⟨fetched, ⟨_, hfile, decodeAll_toDict fetched⟩, ?_⟩
        rintro rfl
        exact hsafe ⟨hwrite, raw, hpayload, hparsed⟩
      · exact ⟨entries, by rw [hfile]; exact h⟩

/-- **One step** keeps a snapshot in the file. -/
theorem Stores.step (h : Stores intOf s.file entries) (hsafe : SafeOp intOf op) :
    ∃ entries, Stores intOf (cacheStep intOf s op).file entries := by
  cases op with
  | get env =>
      refine ⟨entries, ?_⟩
      change Stores intOf (get intOf s env).1.file entries
      rw [(get_of_stores h).2]
      exact h
  | refresh env => exact h.refresh hsafe
  | background env =>
      unfold cacheStep
      dsimp only
      split_ifs
      · exact h.refresh hsafe
      · exact ⟨entries, h⟩
  | disk file => exact hsafe

theorem Stores.run (h : Stores intOf s.file entries) (hsafe : ∀ op ∈ ops, SafeOp intOf op) :
    ∃ entries, Stores intOf (Steps.run (cacheStep intOf) s ops).file entries := by
  induction ops generalizing s entries with
  | nil => exact ⟨entries, h⟩
  | cons op ops ih =>
      obtain ⟨entries', h'⟩ := h.step (hsafe op List.mem_cons_self)
      exact ih h' fun op' hop' => hsafe op' (List.mem_cons_of_mem _ hop')

/-- What `get` owes its callers: the entries of the snapshot in the file, at least one, without a fetch, and as they
would be read back. -/
def Available (intOf : String → Option ℤ) (s : SymbolsCache) (env : CacheEnv) : Prop :=
  ∃ entries, Stores intOf s.file entries ∧
    (get intOf s env).2 = (.ok (entries.map SymbolEntry.toDict), false) ∧
    decodeAll intOf (.list (entries.map SymbolEntry.toDict)) = .ok entries

/-- **Availability.** Once a refresh has stored a snapshot, every `get` of a run whose steps are safe has it or a later
one. -/
theorem get_available (intOf : String → Option ℤ) (s : SymbolsCache) (stored : CacheEnv) (n : ℕ)
    (hrefresh : (refresh intOf s stored).2 = .ok n) (hn : n ≠ 0) (hwrite : stored.write = .replaced)
    (ops : List CacheOp) (hsafe : ∀ op ∈ ops, SafeOp intOf op) (env : CacheEnv) :
    Available intOf (Steps.run (cacheStep intOf) (refresh intOf s stored).1 ops) env := by
  obtain ⟨first, hfirst⟩ := stores_refresh hrefresh hn hwrite
  obtain ⟨entries, hstores⟩ := hfirst.run hsafe
  exact ⟨entries, hstores, (get_of_stores hstores).1, decodeAll_toDict entries⟩

/-- A contract in the payload of the exchange. -/
def contractOf (symbol base : String) : PyValue :=
  .dict [("symbol", .str symbol), ("baseAsset", .str base), ("quoteAsset", .str "USDT"),
    ("contractType", .str "PERPETUAL"), ("status", .str "TRADING"), ("pricePrecision", .int 2),
    ("onboardDate", .int 1569398400000)]

def exchange (symbols : List PyValue) : CacheEnv where
  payload := some (.dict [("symbols", .list symbols)])
  now := 0

theorem stale_available : Available (fun _ => none) (Steps.run (cacheStep fun _ => none)
      (refresh (fun _ => none) {} (exchange [contractOf "BTCUSDT" "BTC"])).1
      [.get { payload := none, now := 700000 }, .background { payload := none, now := 700000 }])
    { payload := none, now := 700001 } := by
  refine get_available (fun _ => none) {} (exchange [contractOf "BTCUSDT" "BTC"]) 1 rfl (by decide) rfl _ ?_ _
  intro op hop
  rcases List.mem_pair.mp hop with rfl | rfl
  · trivial
  · rintro ⟨-, raw, hraw, -⟩
    cases hraw

/-- The exchange answers without any symbol, and the callers have none either. -/
theorem emptied_unavailable : ¬ ∀ (intOf : String → Option ℤ) (s : SymbolsCache) (stored : CacheEnv) (n : ℕ),
    (refresh intOf s stored).2 = .ok n → n ≠ 0 → stored.write = .replaced → ∀ (ops : List CacheOp) (env : CacheEnv),
      Available intOf (Steps.run (cacheStep intOf) (refresh intOf s stored).1 ops) env := by
  intro h
  obtain ⟨entries, hstores, hget, -⟩ := h (fun _ => none) {} (exchange [contractOf "BTCUSDT" "BTC"]) 1 rfl (by decide)
    rfl [.refresh (exchange [])] (exchange [])
  have hnil : entries.map SymbolEntry.toDict = [] := by
    have hgot : (get (fun _ => none) (Steps.run (cacheStep fun _ => none)
        (refresh (fun _ => none) {} (exchange [contractOf "BTCUSDT" "BTC"])).1 [.refresh (exchange [])])
        (exchange [])).2 = (.ok [], false) := rfl
    rw [hgot] at hget
    injection hget with hresult
    injection hresult with hlist
    exact hlist.symm
  exact hstores.ne_nil (List.map_eq_nil_iff.mp hnil)

end CryptoAggHarmonic.Infra
