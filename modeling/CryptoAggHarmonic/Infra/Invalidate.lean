import CryptoAggHarmonic.Infra.KlineCache
import CryptoAggHarmonic.Lib.Steps
import CryptoAggHarmonic.Python.PurePath
import CryptoAggHarmonic.Infra.Lemmas.KlineCache
import CryptoAggHarmonic.Infra.Lemmas.MemoryCache

/-!
# Invalidation of the K-line cache

`make_key`, `set` and `invalidate` with the index of the keys by the text of their parameters. Redis looks for the
pattern in its keys, the memory for a regular expression made of it in the index.
-/

namespace CryptoAggHarmonic.Infra

open Glob PyOs

/-! ## The patterns of Redis -/

/-- The tokens of a pattern; in front of the rest of a bracket, what it has said so far. -/
def redisTokens : Option (Bool × List (Char × Char)) → Text → List (Token Char)
  | none, [] => []
  | none, '*' :: cs => .star :: redisTokens none cs
  | none, '?' :: cs => .any :: redisTokens none cs
  | none, '[' :: '^' :: cs => redisTokens (some (true, [])) cs
  | none, '[' :: cs => redisTokens (some (false, [])) cs
  | none, '\\' :: c :: cs => .lit c :: redisTokens none cs
  | none, c :: cs => .lit c :: redisTokens none cs
  -- A bracket that is not closed ends with the pattern.
  | some (negated, ranges), [] => [.within negated ranges]
  | some (negated, ranges), '\\' :: c :: cs => redisTokens (some (negated, ranges ++ [(c, c)])) cs
  | some (negated, ranges), ']' :: cs => .within negated ranges :: redisTokens none cs
  | some (negated, ranges), a :: '-' :: b :: cs => redisTokens (some (negated, ranges ++ [(min a b, max a b)])) cs
  | some (negated, ranges), a :: cs => redisTokens (some (negated, ranges ++ [(a, a)])) cs

def globMatch (pattern text : Text) : Bool := fits (redisTokens none pattern) text

/-! ## The cache with its index -/

/-- `hashlib.sha1(raw.encode()).hexdigest()` -/
structure Sha1 where
  hexdigest : Text → Text
  letters : ∀ raw, hexdigest raw ⊆ "0123456789abcdef".toList

/-- `_KEY_PREFIX` -/
def keyPrefix : Text := "kline:v1:".toList

structure Params where
  market : Text
  symbol : Text
  interval : Text
  limit : ℤ

def intText (n : ℤ) : Text := if n < 0 then '-' :: Nat.toDigits 10 n.natAbs else Nat.toDigits 10 n.natAbs

def Sha1.digest (sha1 : Sha1) (p : Params) : Text :=
  sha1.hexdigest (['|'].intercalate [p.market, p.symbol, p.interval, intText p.limit])

/-- `make_key` -/
def Sha1.makeKey (sha1 : Sha1) (p : Params) : Text := keyPrefix ++ sha1.digest p

/-- A frame with its `KLineMeta`; what `invalidate` does not read of them is `data`. -/
structure Stored (δ : Type) where
  exchange : Text
  symbol : Text
  interval : Text
  data : δ

variable {δ : Type}

/-- `f"{meta.exchange}:{meta.symbol}:{meta.interval}"` -/
def Stored.paramsKey (e : Stored δ) : Text := e.exchange ++ ':' :: (e.symbol ++ ':' :: e.interval)

/-- `_pattern_index`: sets of keys. -/
abbrev PatternIndex := List (Text × List Text)

namespace PatternIndex

/-- `if params_key not in index: index[params_key] = set()`, and `index[params_key].add(key)`. -/
def add : PatternIndex → Text → Text → PatternIndex
  | [], params, key => [(params, [key])]
  | (p, keys) :: index, params, key =>
      if p = params then (p, if keys.contains key then keys else keys ++ [key]) :: index
      else (p, keys) :: add index params key

/-- The keys go from every set, and the sets that are empty then. -/
def remove (index : PatternIndex) (gone : List Text) : PatternIndex :=
  (index.map fun item => (item.1, item.2.filter fun key => !gone.contains key)).filter fun item => !item.2.isEmpty

/-- `keys_to_delete` -/
def matching (index : PatternIndex) (search : Text → Bool) : List Text :=
  ((index.filter fun item => search item.1).flatMap Prod.snd).dedup

end PatternIndex

structure IndexedCache (δ : Type) extends KLineCache (Stored δ) where
  patternIndex : PatternIndex

/-- `pattern.replace("*", ".*").replace("?", ".")` -/
def regexPattern (pattern : Text) : Text :=
  pattern.flatMap fun c => if c = '*' then ['.', '*'] else if c = '?' then ['.'] else [c]

namespace IndexedCache

def new (enabled : Bool) (ttlSeconds : ℤ) (hasRedis : Bool) : IndexedCache δ where
  toKLineCache := .new enabled ttlSeconds hasRedis
  patternIndex := []

/-- "Store params for pattern-based invalidation (only for memory cache)" -/
def set (c : IndexedCache δ) (answers : Bool) (now : ℚ) (key : Text) (e : Stored δ) : IndexedCache δ where
  toKLineCache := c.toKLineCache.set answers now key e
  patternIndex :=
    if c.enabled then
      match c.backend with
      | .redis _ => c.patternIndex
      | .memory _ => c.patternIndex.add e.paramsKey key
    else c.patternIndex

/-- What `get` answers. -/
def served (c : IndexedCache δ) (now : ℚ) (key : Text) : Option (Stored δ) := (c.get true now key).2

/-- `for key in keys_to_delete: self._memory.delete(key)`; next to Redis the memory holds nothing. -/
def deleteKeys (keys : List Text) : Backend (Stored δ) → Backend (Stored δ)
  | .redis data => .redis data
  | .memory cache => .memory (keys.foldl (fun cache key => (cache.delete key).1) cache)

/-- "Memory cache invalidation" -/
def invalidateMemory (re : Re.Engine) (c : IndexedCache δ) (pattern : Text) : IndexedCache δ × ℕ :=
  match re.compile (regexPattern pattern) with
  | none => (c, 0)
  | some search =>
      let keysToDelete := c.patternIndex.matching search
      ({ c with backend := deleteKeys keysToDelete c.backend, patternIndex := c.patternIndex.remove keysToDelete },
        keysToDelete.length)

/-- `KEYS`: the keys that live and match. -/
def redisKeys (data : List (Text × ℚ × Stored δ)) (now : ℚ) (pattern : Text) : List Text :=
  (data.filter fun item => now < item.2.1 ∧ globMatch pattern item.1).map Prod.fst

/-- `answers`: Redis raises nothing. -/
def invalidate (re : Re.Engine) (c : IndexedCache δ) (answers : Bool) (now : ℚ) (pattern : Text) :
    IndexedCache δ × ℕ :=
  if c.enabled then
    match c.backend with
    | .redis data =>
        let keys := redisKeys data now (keyPrefix ++ pattern)
        if answers ∧ keys ≠ [] then
          ({ c with backend := .redis (data.filter fun item => !keys.contains item.1) }, keys.length)
        else c.invalidateMemory re pattern
    | .memory _ => c.invalidateMemory re pattern
  else (c, 0)

inductive Op (δ : Type)
  | set (params : Params) (e : Stored δ)
  | get (params : Params)
  | invalidate (pattern : Text)

/-- A call, at the time the clock shows, and whether Redis answers. -/
def step (re : Re.Engine) (sha1 : Sha1) (c : IndexedCache δ) (call : ℚ × Bool × Op δ) : IndexedCache δ :=
  match call.2.2 with
  | .set params e => c.set call.2.1 call.1 (sha1.makeKey params) e
  | .get params => { c with toKLineCache := (c.get call.2.1 call.1 (sha1.makeKey params)).1 }
  | .invalidate pattern => (c.invalidate re call.2.1 call.1 pattern).1

end IndexedCache

end CryptoAggHarmonic.Infra

/-!
# What an invalidation takes away

The entries under the keys that the code finds, whatever the pattern says of their parameters.
-/

namespace CryptoAggHarmonic.Infra

open Glob PyOs

variable {δ : Type} {re : Re.Engine} {sha1 : Sha1} {index : PatternIndex} {pattern key params line : Text}
  {search : Text → Bool} {gone keys : List Text} {now t : ℚ} {answers : Bool} {c : IndexedCache δ} {e : Stored δ}

/-! ## The index -/

namespace PatternIndex

def Holds (index : PatternIndex) (params key : Text) : Prop := ∃ item ∈ index, item.1 = params ∧ key ∈ item.2

theorem mem_matching : key ∈ index.matching search ↔ ∃ params, search params = true ∧ index.Holds params key := by
  simp only [matching, List.mem_dedup, List.mem_flatMap, List.mem_filter, Holds]
  constructor
  · rintro ⟨item, ⟨hitem, hsearch⟩, hkey⟩
    exact ⟨item.1, hsearch, item, hitem, rfl, hkey⟩
  · rintro ⟨params, hsearch, item, hitem, rfl, hkey⟩
    exact ⟨item, ⟨hitem, hsearch⟩, hkey⟩

theorem holds_add : (index.add params key).Holds params key := by
  induction index with
  | nil => exact ⟨(params, [key]), List.mem_singleton_self _, rfl, List.mem_singleton_self key⟩
  | cons item index ih =>
      obtain ⟨p, keys⟩ := item
      rw [add]
      split
      · rename_i hp
        refine ⟨_, List.mem_cons_self, hp, ?_⟩
        split
        · rename_i hkey
          exact List.contains_iff_mem.mp hkey
        · exact List.mem_append_right keys (List.mem_singleton_self key)
      · obtain ⟨item, hitem, hholds⟩ := ih
        exact ⟨item, List.mem_cons_of_mem _ hitem, hholds⟩

theorem Holds.add {p k : Text} (h : index.Holds p k) : (index.add params key).Holds p k := by
  induction index with
  | nil =>
      obtain ⟨item, hitem, -⟩ := h
      cases hitem
  | cons first index ih =>
      obtain ⟨q, keys⟩ := first
      obtain ⟨item, hitem, hp, hk⟩ := h
      rw [PatternIndex.add]
      obtain rfl | hitem := List.mem_cons.mp hitem
      · split
        · refine ⟨_, List.mem_cons_self, hp, ?_⟩
          split
          · exact hk
          · exact List.mem_append_left _ hk
        · exact ⟨_, List.mem_cons_self, hp, hk⟩
      · split
        · exact ⟨item, List.mem_cons_of_mem _ hitem, hp, hk⟩
        · obtain ⟨item, hitem, hholds⟩ := ih ⟨item, hitem, hp, hk⟩
          exact ⟨item, List.mem_cons_of_mem _ hitem, hholds⟩

theorem Holds.remove (h : index.Holds params key) (hkey : key ∉ gone) : (index.remove gone).Holds params key := by
  obtain ⟨item, hitem, hparams, hmem⟩ := h
  have hkept : key ∈ item.2.filter fun key => !gone.contains key := List.mem_filter.mpr ⟨hmem, by simpa using hkey⟩
  refine ⟨_, List.mem_filter.mpr ⟨List.mem_map_of_mem hitem, ?_⟩, hparams, hkept⟩
  cases hset : item.2.filter fun key => !gone.contains key with
  | nil =>
      rw [hset] at hkept
      cases hkept
  | cons k ks => rfl

end PatternIndex

/-! ## One invalidation -/

namespace IndexedCache

/-- The search of the code comes upon the key. -/
def Finds (re : Re.Engine) (c : IndexedCache δ) (answers : Bool) (pattern key : Text) : Prop :=
  match c.backend with
  | .redis _ => answers = true ∧ globMatch (keyPrefix ++ pattern) key = true
  | .memory _ => ∃ search, re.compile (regexPattern pattern) = some search ∧
      ∃ params, search params = true ∧ c.patternIndex.Holds params key

theorem served_disabled (h : c.enabled = false) : c.served now key = none := by
  simp [served, KLineCache.get, h]

theorem served_redis {data : List (Text × ℚ × Stored δ)} (henabled : c.enabled = true) (hdata : c.backend = .redis data) :
    c.served now key =
      (data.find? fun item => item.1 = key).bind fun item => if now < item.2.1 then some item.2.2 else none := by
  simp [served, KLineCache.get, henabled, hdata, Backend.getRaw]

theorem served_memory {cache : MemoryCache (Stored δ)} (henabled : c.enabled = true)
    (hcache : c.backend = .memory cache) :
    c.served now key =
      (cache.data.find? fun item => item.1 = key).bind fun item => if now ≤ item.2.1 then some item.2.2 else none := by
  simp only [served, KLineCache.get, henabled, if_true, hcache, Backend.getRaw, MemoryCache.get]
  cases cache.data.find? fun item => item.1 = key with
  | none => rfl
  | some item =>
      by_cases hold : now > item.2.1
      · simp [hold]
      · simp [hold, not_lt.mp hold]

theorem data_deleteAll (keys : List Text) (cache : MemoryCache (Stored δ)) :
    (keys.foldl (fun cache key => (cache.delete key).1) cache).data =
      cache.data.filter fun item => !keys.contains item.1 := by
  induction keys generalizing cache with
  | nil => simp
  | cons key keys ih =>
      rw [List.foldl_cons, ih, MemoryCache.delete_eq, List.filter_filter]
      refine List.filter_congr fun item _ => ?_
      simp [Bool.and_comm]

/-- The first item under a key, when the items under some keys are gone. -/
theorem find_without (keys : List Text) (data : List (Text × ℚ × Stored δ)) :
    ((data.filter fun item => !keys.contains item.1).find? fun item => item.1 = key) =
      if key ∈ keys then none else data.find? fun item => item.1 = key := by
  rw [List.find?_filter]
  split
  · rename_i hkey
    refine List.find?_eq_none.mpr fun item _ => ?_
    simp only [decide_eq_true_eq, not_and]
    rintro hother rfl
    simp [hkey] at hother
  · rename_i hkey
    congr 1
    funext item
    by_cases hitem : item.1 = key <;> simp [hitem, hkey]

theorem served_of_le (ht : now ≤ t) (h : c.served t key = some e) : c.served now key = some e := by
  cases henabled : c.enabled with
  | false =>
      rw [served_disabled henabled] at h
      cases h
  | true =>
      cases hbackend : c.backend with
      | redis data =>
          rw [served_redis henabled hbackend, Option.bind_eq_some_iff] at h ⊢
          obtain ⟨item, hfind, hlive⟩ := h
          refine ⟨item, hfind, ?_⟩
          split at hlive
          · rename_i hexpires
            rwa [if_pos (lt_of_le_of_lt ht hexpires)]
          · cases hlive
      | memory cache =>
          rw [served_memory henabled hbackend, Option.bind_eq_some_iff] at h ⊢
          obtain ⟨item, hfind, hlive⟩ := h
          refine ⟨item, hfind, ?_⟩
          split at hlive
          · rename_i hexpires
            rwa [if_pos (ht.trans hexpires)]
          · cases hlive

theorem mem_redisKeys {data : List (Text × ℚ × Stored δ)} :
    key ∈ redisKeys data now pattern ↔
      globMatch pattern key = true ∧ ∃ item ∈ data, item.1 = key ∧ now < item.2.1 := by
  simp only [redisKeys, List.mem_map, List.mem_filter, decide_eq_true_eq]
  constructor
  · rintro ⟨item, ⟨hitem, hlive, hmatch⟩, rfl⟩
    exact ⟨hmatch, item, hitem, rfl, hlive⟩
  · rintro ⟨hmatch, item, hitem, rfl, hlive⟩
    exact ⟨item, ⟨hitem, hlive, hmatch⟩, rfl⟩

theorem invalidateMemory_redis {data : List (Text × ℚ × Stored δ)} (henabled : c.enabled = true)
    (hdata : c.backend = .redis data) : (c.invalidateMemory re pattern).1.served t key = c.served t key := by
  have hbackend : (c.invalidateMemory re pattern).1.backend = .redis data ∧
      (c.invalidateMemory re pattern).1.enabled = true := by
    unfold invalidateMemory
    cases re.compile (regexPattern pattern) with
    | none => exact ⟨hdata, henabled⟩
    | some search => exact ⟨by simp [hdata, deleteKeys], henabled⟩
  rw [served_redis hbackend.2 hbackend.1, served_redis henabled hdata]

/-- A key that matches and is not found has no item that lives. -/
theorem dead_of_notMem {data : List (Text × ℚ × Stored δ)} (hkey : key ∉ redisKeys data now pattern)
    (hmatch : globMatch pattern key = true) (ht : now ≤ t) :
    ((data.find? fun item => item.1 = key).bind fun item => if t < item.2.1 then some item.2.2 else none) = none := by
  rw [Option.bind_eq_none_iff]
  intro item hfind
  refine if_neg fun hlive => hkey (mem_redisKeys.mpr ⟨hmatch, item, List.mem_of_find?_eq_some hfind, ?_, ?_⟩)
  · simpa using List.find?_some hfind
  · exact lt_of_le_of_lt ht hlive

theorem invalidate_redis {data : List (Text × ℚ × Stored δ)} (henabled : c.enabled = true)
    (hdata : c.backend = .redis data) (ht : now ≤ t) :
    (c.invalidate re answers now pattern).1.served t key =
      if answers = true ∧ globMatch (keyPrefix ++ pattern) key = true then none else c.served t key := by
  by_cases hkeys : answers = true ∧ redisKeys data now (keyPrefix ++ pattern) ≠ []
  · have hbackend : (c.invalidate re answers now pattern).1.enabled = true ∧
        (c.invalidate re answers now pattern).1.backend =
          .redis (data.filter fun item => !(redisKeys data now (keyPrefix ++ pattern)).contains item.1) := by
      simp only [invalidate, henabled, if_true, hdata, if_pos hkeys, and_self]
    rw [served_redis hbackend.1 hbackend.2, served_redis henabled hdata, find_without]
    by_cases hkey : key ∈ redisKeys data now (keyPrefix ++ pattern)
    · rw [if_pos hkey, if_pos ⟨hkeys.1, (mem_redisKeys.mp hkey).1⟩]
      rfl
    · rw [if_neg hkey]
      split
      · rename_i hfinds
        exact dead_of_notMem hkey hfinds.2 ht
      · rfl
  · have hmemory : c.invalidate re answers now pattern = c.invalidateMemory re pattern := by
      simp only [invalidate, henabled, if_true, hdata, if_neg hkeys]
    rw [hmemory, invalidateMemory_redis henabled hdata]
    split
    · rename_i hfinds
      have hkey : key ∉ redisKeys data now (keyPrefix ++ pattern) := by
        intro hkey
        exact hkeys ⟨hfinds.1, List.ne_nil_of_mem hkey⟩
      rw [served_redis henabled hdata]
      exact dead_of_notMem hkey hfinds.2 ht
    · rfl

theorem invalidate_memory {cache : MemoryCache (Stored δ)} (henabled : c.enabled = true)
    (hcache : c.backend = .memory cache) :
    (c.invalidate re answers now pattern).1.served t key =
      match re.compile (regexPattern pattern) with
      | none => c.served t key
      | some search => if key ∈ c.patternIndex.matching search then none else c.served t key := by
  have hmemory : c.invalidate re answers now pattern = c.invalidateMemory re pattern := by
    simp only [invalidate, henabled, if_true, hcache]
  rw [hmemory]
  cases hcompile : re.compile (regexPattern pattern) with
  | none => simp only [invalidateMemory, hcompile]
  | some search =>
      have hbackend : (c.invalidateMemory re pattern).1.enabled = true ∧
          (c.invalidateMemory re pattern).1.backend =
            .memory ((c.patternIndex.matching search).foldl (fun cache key => (cache.delete key).1) cache) := by
        simp only [invalidateMemory, hcompile, hcache, deleteKeys, henabled, and_self]
      rw [served_memory hbackend.1 hbackend.2, data_deleteAll, find_without, served_memory henabled hcache]
      dsimp only
      split <;> rfl

/-- **What is found is not served any more.** -/
theorem served_found (ht : now ≤ t) (h : c.Finds re answers pattern key) :
    (c.invalidate re answers now pattern).1.served t key = none := by
  cases henabled : c.enabled with
  | false =>
      simp [invalidate, henabled, served_disabled]
  | true =>
      cases hbackend : c.backend with
      | redis data =>
          rw [Finds, hbackend] at h
          rw [invalidate_redis henabled hbackend ht, if_pos h]
      | memory cache =>
          rw [Finds, hbackend] at h
          obtain ⟨search, hcompile, hfound⟩ := h
          rw [invalidate_memory henabled hbackend, hcompile]
          exact if_pos (PatternIndex.mem_matching.mpr hfound)

/-- **Everything else is served unchanged.** -/
theorem served_not_found (ht : now ≤ t) (h : ¬c.Finds re answers pattern key) :
    (c.invalidate re answers now pattern).1.served t key = c.served t key := by
  cases henabled : c.enabled with
  | false => simp [invalidate, henabled]
  | true =>
      cases hbackend : c.backend with
      | redis data =>
          rw [Finds, hbackend] at h
          rw [invalidate_redis henabled hbackend ht, if_neg h]
      | memory cache =>
          rw [Finds, hbackend] at h
          rw [invalidate_memory henabled hbackend]
          cases hcompile : re.compile (regexPattern pattern) with
          | none => rfl
          | some search =>
              exact if_neg fun hkey => h ⟨search, hcompile, PatternIndex.mem_matching.mp hkey⟩

/-! ## What the patterns find -/

theorem globMatch_keyPrefix {digest : Text} : globMatch (keyPrefix ++ pattern) (keyPrefix ++ digest) = globMatch pattern digest :=
  fits_append_lits (u := keyPrefix)

/-- A pattern that names a letter no digest has finds nothing in Redis. -/
theorem redis_finds_nothing {a : Char} {raw : Text} (hmem : .lit a ∈ redisTokens none pattern)
    (ha : a ∉ "0123456789abcdef".toList) : globMatch (keyPrefix ++ pattern) (keyPrefix ++ sha1.hexdigest raw) = false := by
  rw [globMatch_keyPrefix, Bool.eq_false_iff]
  intro hmatch
  exact ha (sha1.letters raw (mem_of_fits hmatch hmem))

/-- A pattern whose letters, but the stars and the question marks, stand for themselves in an expression. -/
def PlainPattern (pattern : Text) : Prop := ∀ c ∈ pattern, c = '*' ∨ c = '?' ∨ c ∉ Re.special

def atom (c : Char) : Re.Atom := if c = '*' then .dotStar else if c = '?' then .dot else .letter c

theorem PlainPattern.plain (h : PlainPattern pattern) : ∀ a ∈ pattern.map atom, a.Plain := by
  simp only [List.mem_map, forall_exists_index, and_imp, forall_apply_eq_imp_iff₂]
  intro c hc
  unfold atom
  split_ifs with hstar hmark
  · trivial
  · trivial
  · obtain rfl | rfl | hplain := h c hc
    · exact absurd rfl hstar
    · exact absurd rfl hmark
    · exact hplain

theorem regexPattern_eq : regexPattern pattern = (pattern.map atom).flatMap Re.Atom.text := by
  rw [regexPattern, List.flatMap_map]
  congr 1
  funext c
  unfold atom
  split_ifs <;> rfl

theorem redisTokens_lit {a : Char} {cs : Text} (ha : a ∉ ['*', '?', '[', '\\']) :
    redisTokens none (a :: cs) = .lit a :: redisTokens none cs := by
  simp only [List.mem_cons, List.not_mem_nil, or_false, not_or] at ha
  rw [redisTokens] <;> simp [ha]

theorem PlainPattern.tokens (h : PlainPattern pattern) (cs : Text) :
    redisTokens none (pattern ++ cs) = (pattern.map atom).map Re.Atom.token ++ redisTokens none cs := by
  induction pattern with
  | nil => rfl
  | cons a pattern ih =>
      specialize ih fun d hd => h d (List.mem_cons_of_mem a hd)
      rw [List.cons_append, List.map_cons, List.map_cons, List.cons_append, ← ih]
      obtain rfl | rfl | hplain := h a List.mem_cons_self
      · rfl
      · rfl
      · have hspecial : ∀ b ∈ ['*', '?', '[', '\\'], b ∈ Re.special := by simp [Re.special]
        have hother : a ∉ ['*', '?', '[', '\\'] := fun ha => hplain (hspecial a ha)
        rw [redisTokens_lit hother, atom, if_neg, if_neg]
        · rfl
        · rintro rfl
          exact hother (by decide)
        · rintro rfl
          exact hother (by decide)

/-- **The search comes upon a plain pattern anywhere** in a line. -/
theorem PlainPattern.compiled (h : PlainPattern pattern) (re : Re.Engine) :
    ∃ search, re.compile (regexPattern pattern) = some search ∧
      ∀ line, '\n' ∉ line → search line = globMatch ('*' :: (pattern ++ ['*'])) line := by
  obtain ⟨search, hcompile, hsearch⟩ := re.compile_atoms (pattern.map atom) h.plain
  rw [← regexPattern_eq] at hcompile
  refine ⟨search, hcompile, fun line hline => ?_⟩
  rw [hsearch line hline, Re.found, globMatch, redisTokens, h.tokens]
  rfl

/-! ## Runs -/

/-- The keys are made by `make_key`; in memory every entry is in the index under its own parameters. -/
structure Filed (sha1 : Sha1) (c : IndexedCache δ) : Prop where
  made : ∀ item ∈ c.backend.entries, ∃ p, item.1 = sha1.makeKey p
  indexed : ∀ cache, c.backend = .memory cache →
    ∀ item ∈ c.backend.entries, c.patternIndex.Holds item.2.paramsKey item.1

theorem mem_entries (h : c.served now key = some e) : (key, e) ∈ c.backend.entries := by
  unfold served KLineCache.get at h
  split at h
  · exact getRaw_eq_some h
  · cases h

theorem Filed.set (h : Filed sha1 c) (p : Params) : Filed sha1 (c.set answers now (sha1.makeKey p) e) := by
  cases henabled : c.enabled with
  | false => simpa only [IndexedCache.set, KLineCache.set, henabled, Bool.false_eq_true, if_false] using h
  | true =>
      constructor
      · intro item hitem
        simp only [IndexedCache.set, KLineCache.set, henabled, if_true] at hitem
        obtain rfl | hitem := entries_setRaw hitem
        · exact ⟨p, rfl⟩
        · exact h.made item hitem
      · intro cache hcache item hitem
        simp only [IndexedCache.set, KLineCache.set, henabled, if_true] at hcache hitem ⊢
        cases hbackend : c.backend with
        | redis data =>
            rw [hbackend, Backend.setRaw] at hcache
            split at hcache <;> cases hcache
        | memory old =>
            dsimp only
            obtain rfl | hitem := entries_setRaw hitem
            · exact PatternIndex.holds_add
            · exact (h.indexed old hbackend item hitem).add

theorem Filed.get (h : Filed sha1 c) :
    Filed sha1 { c with toKLineCache := (c.toKLineCache.get answers now key).1 } := by
  unfold KLineCache.get
  split
  · constructor
    · intro item hitem
      exact h.made item (entries_getRaw hitem)
    · intro cache hcache item hitem
      cases hbackend : c.backend with
      | redis data =>
          dsimp only at hcache
          rw [hbackend] at hcache
          cases hcache
      | memory old => exact h.indexed old hbackend item (entries_getRaw hitem)
  · exact h

theorem Filed.invalidateMemory (h : Filed sha1 c) : Filed sha1 (c.invalidateMemory re pattern).1 := by
  unfold IndexedCache.invalidateMemory
  cases re.compile (regexPattern pattern) with
  | none => exact h
  | some search =>
      dsimp only
      cases hbackend : c.backend with
      | redis data =>
          constructor
          · intro item hitem
            refine h.made item ?_
            rw [hbackend]
            exact hitem
          · intro cache hcache
            cases hcache
      | memory old =>
          have hkept : ∀ item ∈ (deleteKeys (c.patternIndex.matching search) (.memory old)).entries,
              item ∈ c.backend.entries ∧ item.1 ∉ c.patternIndex.matching search := by
            intro item hitem
            simp only [deleteKeys, Backend.entries, data_deleteAll, List.mem_map, List.mem_filter] at hitem
            obtain ⟨stored, ⟨hstored, hkey⟩, rfl⟩ := hitem
            rw [hbackend]
            exact ⟨List.mem_map_of_mem hstored, by simpa using hkey⟩
          constructor
          · intro item hitem
            exact h.made item (hkept item hitem).1
          · intro cache hcache item hitem
            exact (h.indexed old hbackend item (hkept item hitem).1).remove (hkept item hitem).2

theorem Filed.invalidate (h : Filed sha1 c) : Filed sha1 (c.invalidate re answers now pattern).1 := by
  unfold IndexedCache.invalidate
  split
  · cases hbackend : c.backend with
    | redis data =>
        dsimp only
        split
        · constructor
          · intro item hitem
            refine h.made item ?_
            rw [hbackend]
            obtain ⟨stored, hstored, rfl⟩ := List.mem_map.mp hitem
            exact List.mem_map_of_mem (List.mem_of_mem_filter hstored)
          · intro cache hcache
            cases hcache
        · exact h.invalidateMemory
    | memory cache => exact h.invalidateMemory
  · exact h

theorem Filed.step (h : Filed sha1 c) (call : ℚ × Bool × Op δ) : Filed sha1 (c.step re sha1 call) := by
  obtain ⟨now, answers, op⟩ := call
  cases op with
  | set p e => exact h.set p
  | get p => exact h.get
  | invalidate pattern => exact h.invalidate

theorem filed_run (enabled : Bool) (ttlSeconds : ℤ) (hasRedis : Bool) (calls : List (ℚ × Bool × Op δ)) :
    Filed sha1 (Steps.run (step re sha1) (new enabled ttlSeconds hasRedis) calls) := by
  refine Steps.run_kept (fun c call h => Filed.step h call) ?_
  have hempty : (new enabled ttlSeconds hasRedis : IndexedCache δ).backend.entries = [] := by
    cases hasRedis <;> rfl
  constructor
  · intro item hitem
    rw [hempty] at hitem
    cases hitem
  · intro cache hcache item hitem
    rw [hempty] at hitem
    cases hitem

def isRedis : Backend (Stored δ) → Bool
  | .redis _ => true
  | .memory _ => false

theorem isRedis_invalidateMemory : isRedis (c.invalidateMemory re pattern).1.backend = isRedis c.backend := by
  unfold invalidateMemory
  cases re.compile (regexPattern pattern) with
  | none => rfl
  | some search => cases hbackend : c.backend <;> rfl

theorem isRedis_step (call : ℚ × Bool × Op δ) : isRedis (c.step re sha1 call).backend = isRedis c.backend := by
  obtain ⟨now, answers, op⟩ := call
  cases op with
  | set p e =>
      simp only [step, set, KLineCache.set]
      split
      · cases hbackend : c.backend with
        | redis data =>
            simp only [Backend.setRaw]
            split <;> rfl
        | memory cache => rfl
      · rfl
  | get p =>
      simp only [step, KLineCache.get]
      split
      · cases hbackend : c.backend <;> rfl
      · rfl
  | invalidate pattern =>
      simp only [step, invalidate]
      split
      · cases hbackend : c.backend with
        | redis data =>
            dsimp only
            split
            · rfl
            · rw [isRedis_invalidateMemory, hbackend]
        | memory cache => rw [isRedis_invalidateMemory, hbackend]
      · rfl

theorem isRedis_run (enabled : Bool) (ttlSeconds : ℤ) (hasRedis : Bool) (calls : List (ℚ × Bool × Op δ)) :
    isRedis (Steps.run (step re sha1) (new enabled ttlSeconds hasRedis) calls).backend = hasRedis := by
  refine Steps.run_kept (I := fun c : IndexedCache δ => isRedis c.backend = hasRedis) ?_ ?_
  · intro c call h
    rw [isRedis_step, h]
  · cases hasRedis <;> rfl

/-- **The memory misses nothing**: it finds whatever a plain pattern matches. -/
theorem Filed.finds {cache : MemoryCache (Stored δ)} (h : Filed sha1 c) (hcache : c.backend = .memory cache)
    (hplain : PlainPattern pattern) (hserved : c.served now key = some e) (hline : '\n' ∉ e.paramsKey)
    (hmatch : globMatch pattern e.paramsKey = true) : c.Finds re answers pattern key := by
  obtain ⟨search, hcompile, hsearch⟩ := hplain.compiled re
  have hanywhere : globMatch ('*' :: (pattern ++ ['*'])) e.paramsKey = true := by
    rw [globMatch, redisTokens, hplain.tokens, ← List.append_nil e.paramsKey]
    rw [globMatch, ← List.append_nil pattern, hplain.tokens, redisTokens, List.append_nil] at hmatch
    exact fits_star.mpr ⟨_, List.suffix_refl _, fits_append hmatch rfl⟩
  rw [Finds, hcache]
  exact ⟨search, hcompile, e.paramsKey, (hsearch _ hline).trans hanywhere,
    h.indexed cache hcache (key, e) (mem_entries hserved)⟩

end IndexedCache

end CryptoAggHarmonic.Infra
