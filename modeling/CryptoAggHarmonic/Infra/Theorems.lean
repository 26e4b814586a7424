import CryptoAggHarmonic.Infra.Lemmas.Historical
import CryptoAggHarmonic.Infra.Invalidate
import CryptoAggHarmonic.Infra.Lemmas.KlineCache
import CryptoAggHarmonic.Infra.Lemmas.MemoryCache

/-!
# Market data
-/

namespace CryptoAggHarmonic.Infra

open Analyze PyOs

/-! ## The memory cache -/

/-- What a cache of a size and a time to live keeps of a history of operations, put by a read of each key at `now`. -/
structure CacheKept {β : Type} (maxSize ttlSeconds : ℤ) (empty : MemoryCache β) (ops : List (ℚ × MemoryCache.Op β))
    (now : ℚ) : Prop where
  bounded : ((Steps.run MemoryCache.step empty ops).data.length : ℤ) ≤ maxSize
  sound : ∀ key value, ((Steps.run MemoryCache.step empty ops).get now key).2 = some value →
    ∃ t, MemoryCache.lastSet key ops = some (t, value) ∧ now ≤ t + ttlSeconds
  retained : ∀ key t value, MemoryCache.lastSet key ops = some (t, value) → now ≤ t + ttlSeconds →
    ((MemoryCache.othersSince key empty ops).dedup.length : ℤ) < maxSize →
      ((Steps.run MemoryCache.step empty ops).get now key).2 = some value

/-- **A cache keeps what was last set** while fewer other keys than its size are used, and serves nothing else. -/
theorem memoryCache_kept {β : Type} {maxSize ttlSeconds : ℤ} {empty : MemoryCache β}
    (hnew : MemoryCache.new maxSize ttlSeconds = .ok empty) (ops : List (ℚ × MemoryCache.Op β)) (now : ℚ)
    (hclock : (ops.map Prod.fst ++ [now]).Pairwise (· ≤ ·)) : CacheKept maxSize ttlSeconds empty ops now := by
  have hpos : 0 < maxSize := by
    by_contra hnonpos
    rw [MemoryCache.new, if_pos (not_lt.mp hnonpos)] at hnew
    cases hnew
  rw [MemoryCache.new, if_neg (not_le.mpr hpos), Except.ok.injEq] at hnew
  subst hnew
  have htracks := MemoryCache.tracks_run (c := { maxSize := maxSize.toNat, ttlSeconds, data := [] }) rfl ops
  obtain ⟨hmax, httl⟩ := MemoryCache.run_config { maxSize := maxSize.toNat, ttlSeconds, data := [] } ops
  dsimp only at hmax httl
  have hbefore : ∀ o ∈ ops, o.1 ≤ now := fun o ho =>
    (List.pairwise_append.mp hclock).2.2 o.1 (List.mem_map_of_mem ho) now List.mem_cons_self
  constructor
  · have hlength := htracks.bounded.length
    rw [hmax] at hlength
    omega
  · intro key value hget
    have hsound := htracks.get_sound hget
    rw [httl] at hsound
    exact hsound
  · intro key t value hlast hlive hfew
    refine htracks.get_retained hlast hbefore ?_ ?_
    · rw [httl]
      exact hlive
    · rw [hmax]
      omega

/-- Two keys, and a third one that takes the place of the one not read since. -/
def threeKeys : List (ℚ × MemoryCache.Op ℕ) :=
  [(0, .set "a".toList 1), (1, .set "b".toList 2), (2, .get "a".toList), (3, .set "c".toList 3)]

theorem threeKeys_kept : CacheKept 2 60 (⟨2, 60, []⟩ : MemoryCache ℕ) threeKeys 4 :=
  memoryCache_kept rfl threeKeys 4 (by simp [threeKeys]; norm_num)

/-! ## The K-line cache -/

/-- Every call of a run, in the state it is made in. -/
theorem fetchMarketData_fresh (tt : TimeText) (feed : Provider → Feed) (enabled hasRedis : Bool) (ttlSeconds : ℤ)
    (start : ℚ) (calls : List Call)
    (h : Steps.Along (fun s c => (fetchMarketData tt feed s c).1) (Fresh feed)
      { now := start, cache := .new enabled ttlSeconds hasRedis } calls) :
    Steps.Along (fun s c => (fetchMarketData tt feed s c).1)
      (fun s c => Unchanged feed c (s.now + c.wait) (fetchMarketData tt feed s c).2 ∧
        Complete feed c (s.now + c.wait) (fetchMarketData tt feed s c).2)
      { now := start, cache := .new enabled ttlSeconds hasRedis } calls := by
  have hstart : Honest tt feed { now := start, cache := .new enabled ttlSeconds hasRedis } := by
    cases hasRedis <;> rintro item ⟨⟩
  rw [Steps.along_iff] at h ⊢
  intro before c after hsplit
  have hhonest : Honest tt feed (Steps.run (fun s c => (fetchMarketData tt feed s c).1)
      { now := start, cache := .new enabled ttlSeconds hasRedis } before) :=
    Steps.run_kept (fun _ _ => Honest.step) hstart
  exact ⟨hhonest.unchanged, hhonest.complete (h before c after hsplit)⟩

/-- A timestamp as its sign and digits, two of them as pandas writes them. -/
def signed : ℤ → Text
  | .ofNat n => '+' :: Nat.toDigits 10 n
  | .negSucc n => '-' :: Nat.toDigits 10 n

def unsigned : Text → Option ℤ
  | '+' :: digits => some (.ofNat (Nat.ofDigitChars 10 digits 0))
  | '-' :: digits => some (.negSucc (Nat.ofDigitChars 10 digits 0))
  | _ => none

theorem unsigned_signed {ns : ℤ} : unsigned (signed ns) = some ns := by
  cases ns <;> simp [signed, unsigned, Nat.ofDigitChars_ten_toDigits]

theorem signed_ne {ns : ℤ} {text : Text} (h : text.head? = some '1') : signed ns ≠ text := by
  rintro rfl
  cases ns <;> cases h

def firstMinute : Text := "1970-01-01T00:01:00+00:00".toList

def secondMinute : Text := "1970-01-01T00:02:00+00:00".toList

def minutes : TimeText where
  iso ns := if ns = 60000000000 then firstMinute else if ns = 120000000000 then secondMinute else signed ns
  parse text :=
    if text = firstMinute then some 60000000000 else if text = secondMinute then some 120000000000 else unsigned text
  parse_iso ns := by
    rcases eq_or_ne ns 60000000000 with rfl | hfirst
    · decide
    rcases eq_or_ne ns 120000000000 with rfl | hsecond
    · decide
    rw [if_neg hfirst, if_neg hsecond, if_neg (signed_ne (by decide)), if_neg (signed_ne (by decide)), unsigned_signed]
  str _ := []

def candle (close : ℚ) (closeTime : ℤ) : Row where
  openPrice := .finite 100
  high := .finite 110
  low := .finite 90
  close := .finite close
  volume := .finite 1
  closeTime := closeTime
  dts := closeTime * 1000000000

/-- A candle that closes after a minute, then the next one. -/
def minuteFeed : Feed where
  closed _ t := if 60 < t then [candle 105 60] else []
  forming _ t := some (if 60 < t then candle 106 120 else candle 101 60)
  grows _ t t' htt' := by
    split_ifs with ht ht'
    · exact List.prefix_refl _
    · exact absurd (lt_of_lt_of_le ht htt') ht'
    · exact List.nil_prefix
    · exact List.prefix_refl _
  lasts _ _ _ _ _ _ := rfl

def callAfter (wait : ℚ≥0) : Call where
  request := { series := { market := .binance, symbol := "BTCUSDT".toList, interval := .m1 }, candles := 1000 }
  forceRefresh := false
  wait := wait
  redisReads := true
  redisWrites := true
  bridgeUp := false
  tradingviewAnswers := false
  legacyAnswers := true

/-- Twenty seconds later the frame is served from the cache, an hour later it is fetched anew. -/
theorem minutes_fresh :
    Steps.Along (fun s c => (fetchMarketData minutes (fun _ => minuteFeed) s c).1)
      (fun s c =>
        Unchanged (fun _ => minuteFeed) c (s.now + c.wait) (fetchMarketData minutes (fun _ => minuteFeed) s c).2 ∧
          Complete (fun _ => minuteFeed) c (s.now + c.wait) (fetchMarketData minutes (fun _ => minuteFeed) s c).2)
      { now := 0, cache := .new true 900 true } [callAfter 30, callAfter 20, callAfter 3600] := by
  apply fetchMarketData_fresh
  decide +kernel

/-- The candle closes a minute after the epoch, and half a minute later the frame of before is served. -/
theorem stale_frame :
    (Steps.outputs (fetchMarketData minutes fun _ => minuteFeed) { now := 0, cache := .new true 900 true }
      [callAfter 30, callAfter 60]) =
      [.fetched .legacy (.ofRows [candle 101 60]),
        .cached { source := .legacy, exchange := .binance, fetchedAt := 30 } (.ofRows [candle 101 60])] ∧
    minuteFeed.due (callAfter 60).request.series 1000 90 = [candle 105 60] ∧
    (candle 105 60).cells ∉ (Frame.ofRows [candle 101 60]).data := by
  refine ⟨?_, ?_, ?_⟩ <;> decide +kernel

/-! ## Pages -/

/-- **The newest candles within the bounds** are what the pages make up, whatever number of requests the loop is given
beyond one for each candle. -/
theorem fetchPaginated_newest {v : Venue} (h : Window.Ascending Kline.openTime v.klines)
    (hanswers : ∀ i, v.failure i = none) (startTime endTime : Option ℤ) (numCandles : ℕ) :
    ∃ rows, (∀ n ≥ numCandles, paginate v startTime numCandles n 0 endTime [] = .ok rows) ∧
      fetchPaginated v startTime endTime numCandles = .ok rows ∧
      rows = (v.bounded startTime endTime).rtake numCandles ∧ Window.Ascending Kline.openTime rows ∧
      rows <:+ v.bounded startTime endTime ∧ rows.length = min numCandles (v.bounded startTime endTime).length := by
  have hsuffix : (v.bounded startTime endTime).rtake numCandles <:+ v.bounded startTime endTime :=
    List.drop_suffix _ _
  refine ⟨_, fun n hn => paginate_bounded h hanswers startTime endTime hn, ?_, rfl, ?_, hsuffix, ?_⟩
  · exact paginate_bounded h hanswers startTime endTime le_rfl
  · exact h.sublist (hsuffix.sublist.trans List.filter_sublist)
  · exact Window.length_rtake

/-- Three candles, a minute apart. -/
def threeCandles : Venue where
  klines := [⟨0, .finite 1, .finite 1, .finite 1, .finite 1, .finite 1, 59999⟩,
    ⟨60000, .finite 2, .finite 2, .finite 2, .finite 2, .finite 1, 119999⟩,
    ⟨120000, .finite 3, .finite 3, .finite 3, .finite 3, .finite 1, 179999⟩]
  failure _ := none

theorem threeCandles_newest : ∃ rows, (∀ n ≥ 2, paginate threeCandles none 2 n 0 (some 60000) [] = .ok rows) ∧
    fetchPaginated threeCandles none (some 60000) 2 = .ok rows ∧
    rows = (threeCandles.bounded none (some 60000)).rtake 2 ∧ Window.Ascending Kline.openTime rows ∧
    rows <:+ threeCandles.bounded none (some 60000) ∧
    rows.length = min 2 (threeCandles.bounded none (some 60000)).length :=
  fetchPaginated_newest (by simp [threeCandles, Window.Ascending]) (fun _ => rfl) none (some 60000) 2

/-! ## Historical windows -/

/-- A frame is the window of one venue, at most its newest `candleCap` candles; a year of them always fits. -/
def IsWindow (w : World) (symbol interval : Text) (lookbackDays : ℕ) (stop : ℤ) (df : Frame) : Prop :=
  ∃ v ∈ w.venues symbol interval, Window.Ascending Kline.openTime v.klines ∧
    v.window (toMs (stop - daysUs lookbackDays)) (toMs stop) ≠ [] ∧
    df = .ofRows (((v.window (toMs (stop - daysUs lookbackDays)) (toMs stop)).rtake candleCap).map Kline.toRow) ∧
    (lookbackDays ≤ 365 → df = .ofRows ((v.window (toMs (stop - daysUs lookbackDays)) (toMs stop)).map Kline.toRow))

theorem isWindow_of_fetchBinanceRange {w : World} {symbol interval : Text} {lookbackDays : ℕ} {stop : ℤ} {df : Frame}
    (h : fetchBinanceRange w symbol interval (stop - daysUs lookbackDays) stop = .ok df) :
    IsWindow w symbol interval lookbackDays stop df := by
  obtain ⟨ms, v, hms, hv, hspaced, hne, rfl⟩ := fetchBinanceRange_eq h
  refine ⟨v, hv, hspaced.ascending (intervalMs_pos hms), hne, rfl, fun hdays => ?_⟩
  rw [Window.rtake_of_length_le (length_window_of_year hms hspaced hdays)]

theorem fetchHistoricalData_window (w : World) (symbol interval : Text) (lookbackDays : ℕ) (stop : Option ℤ) :
    (∀ df, fetchHistoricalData w (marketValue .binance) symbol interval lookbackDays stop = .ok df →
      FromBridge w (marketValue .binance) symbol interval lookbackDays (stop.getD w.now) df ∨
        IsWindow w symbol interval lookbackDays (stop.getD w.now) df) ∧
    ((intervalMs interval).isSome → (∀ i, (w.binanceCom (w.upper symbol) interval).failure i = none) →
      (w.binanceCom (w.upper symbol) interval).window (toMs (stop.getD w.now - daysUs lookbackDays))
        (toMs (stop.getD w.now)) ≠ [] →
      ∃ df, fetchHistoricalData w (marketValue .binance) symbol interval lookbackDays stop = .ok df) ∧
    (∀ i, parseInterval interval = some i → ∀ df,
      fetchHistoricalData w (marketValue .yahoo) symbol interval lookbackDays stop = .ok df →
      FromBridge w (marketValue .yahoo) symbol interval lookbackDays (stop.getD w.now) df ∨
        fetchYahooRecent w symbol i lookbackDays = .ok df) := by
  refine ⟨fun df hdf => ?_, fun hinterval hfailure hwindow => ?_, fun i hi df hdf => ?_⟩
  · obtain hbridge | hrange := fetchHistoricalData_cases hdf
    · exact Or.inl hbridge
    · rw [fetchFallback_binance] at hrange
      exact Or.inr (isWindow_of_fetchBinanceRange hrange)
  · obtain ⟨df, hdf⟩ := fetchBinanceRange_ok hinterval hfailure hwindow
    rw [← fetchFallback_binance lookbackDays] at hdf
    exact fetchHistoricalData_ok hdf
  · obtain hbridge | hrecent := fetchHistoricalData_cases hdf
    · exact Or.inl hbridge
    · rw [fetchFallback_yahoo hi] at hrecent
      exact Or.inr hrecent

/-- A world with one candle of 1 January 2026, which Yahoo has, and nothing else. -/
def newYear : World where
  upper := id
  binanceCom _ _ := { klines := [], failure := fun _ => none }
  binanceUs _ _ := { klines := [], failure := fun _ => none }
  spaced _ _ _ _ := ⟨List.Pairwise.nil, List.Pairwise.nil⟩
  defaultBase := true
  tradingviewEnabled := false
  bridgeHealthy := false
  bridgeStillHealthy := false
  bridgeCandles _ _ _ _ _ := none
  marketData _ := .fetched .legacy (.ofRows [candle 105 1767225600])
  now := 1767312000000000

/-- Asked for the month before 1 March 2025, Yahoo serves the candle of ten months later. -/
theorem yahoo_after_end :
    fetchHistoricalData newYear (marketValue .yahoo) "AAPL".toList "1d".toList 30 (some 1740787200000000) =
      .ok (.ofRows [candle 105 1767225600]) ∧
    toMs 1740787200000000 < (candle 105 1767225600).closeTime * 1000 - 24 * 60 * 60 * 1000 := by
  decide

/-! ## Invalidation -/

namespace IndexedCache

variable {δ : Type} {re : Re.Engine} {c redis memory : IndexedCache δ} {answers : Bool} {now : ℚ} {pattern : Text}

/-- What matches is not served any more, what does not is served unchanged. -/
def Exact (re : Re.Engine) (c : IndexedCache δ) (answers : Bool) (now : ℚ) (pattern : Text) : Prop :=
  ∀ t, now ≤ t → ∀ key, (c.invalidate re answers now pattern).1.served t key =
    (c.served t key).filter fun e => !globMatch pattern e.paramsKey

/-- Of the keys that both caches serve, the same go. -/
def SameGone (re : Re.Engine) (redis memory : IndexedCache δ) (answers : Bool) (now : ℚ) (pattern : Text) : Prop :=
  ∀ key, (redis.served now key).isSome → (memory.served now key).isSome →
    ((redis.invalidate re answers now pattern).1.served now key = none ↔
      (memory.invalidate re answers now pattern).1.served now key = none)

theorem exact_iff :
    c.Exact re answers now pattern ↔ ∀ key e, c.served now key = some e →
      (c.Finds re answers pattern key ↔ globMatch pattern e.paramsKey = true) := by
  constructor
  · intro hexact key e hserved
    have hafter := hexact now le_rfl key
    rw [hserved, Option.filter_some] at hafter
    by_cases hfinds : c.Finds re answers pattern key
    · rw [served_found le_rfl hfinds] at hafter
      refine iff_of_true hfinds ?_
      by_contra hmatch
      rw [if_pos (by simpa using hmatch)] at hafter
      cases hafter
    · rw [served_not_found le_rfl hfinds, hserved] at hafter
      refine iff_of_false hfinds fun hmatch => ?_
      rw [if_neg (by simpa using hmatch)] at hafter
      cases hafter
  · intro hagree t ht key
    cases hserved : c.served t key with
    | none =>
        by_cases hfinds : c.Finds re answers pattern key
        · rw [served_found ht hfinds]
          rfl
        · rw [served_not_found ht hfinds, hserved]
          rfl
    | some e =>
        have hkey := hagree key e (served_of_le ht hserved)
        rw [Option.filter_some]
        by_cases hfinds : c.Finds re answers pattern key
        · rw [served_found ht hfinds, if_neg (by simpa using hkey.mp hfinds)]
        · rw [served_not_found ht hfinds, hserved, if_pos (by simpa using fun h => hfinds (hkey.mpr h))]

theorem gone_iff (hserved : (c.served now key).isSome) :
    (c.invalidate re answers now pattern).1.served now key = none ↔ c.Finds re answers pattern key := by
  constructor
  · intro hgone
    by_contra hfinds
    rw [served_not_found le_rfl hfinds] at hgone
    simp [hgone] at hserved
  · exact served_found le_rfl

/-- What `invalidate` looks at in Redis: the digest in the key. -/
def DigestMatches (sha1 : Sha1) (answers : Bool) (pattern : Text) (p : Params) : Prop :=
  answers = true ∧ globMatch pattern (sha1.digest p) = true

/-- What it looks at in memory: the parameters the key is in the index under. -/
def IndexMatches (re : Re.Engine) (index : PatternIndex) (pattern key : Text) : Prop :=
  ∃ search, re.compile (regexPattern pattern) = some search ∧ ∃ params, search params = true ∧ index.Holds params key

variable (re) in
/-- The cache after some calls. -/
def reached (sha1 : Sha1) (enabled : Bool) (ttlSeconds : ℤ) (hasRedis : Bool) (calls : List (ℚ × Bool × Op δ)) :
    IndexedCache δ :=
  Steps.run (step re sha1) (new enabled ttlSeconds hasRedis) calls

variable {sha1 : Sha1} {enabled : Bool} {ttlSeconds : ℤ} {calls : List (ℚ × Bool × Op δ)} {t : ℚ} {key : Text}
  {e : Stored δ}

theorem redis_finds {p : Params} :
    (reached re sha1 enabled ttlSeconds true calls).Finds re answers pattern (sha1.makeKey p) ↔
      DigestMatches sha1 answers pattern p := by
  have hkind : isRedis (reached re sha1 enabled ttlSeconds true calls).backend = true := isRedis_run _ _ _ _
  cases hbackend : (reached re sha1 enabled ttlSeconds true calls).backend with
  | redis data => rw [Finds, hbackend, Sha1.makeKey, globMatch_keyPrefix, DigestMatches]
  | memory cache =>
      rw [hbackend] at hkind
      cases hkind

theorem exists_memory (re : Re.Engine) (sha1 : Sha1) (enabled : Bool) (ttlSeconds : ℤ)
    (calls : List (ℚ × Bool × Op δ)) :
    ∃ cache, (reached re sha1 enabled ttlSeconds false calls).backend = .memory cache := by
  have hkind : isRedis (reached re sha1 enabled ttlSeconds false calls).backend = false := isRedis_run _ _ _ _
  cases hbackend : (reached re sha1 enabled ttlSeconds false calls).backend with
  | redis data =>
      rw [hbackend] at hkind
      cases hkind
  | memory cache => exact ⟨cache, rfl⟩

theorem memory_finds :
    (reached re sha1 enabled ttlSeconds false calls).Finds re answers pattern key ↔
      IndexMatches re (reached re sha1 enabled ttlSeconds false calls).patternIndex pattern key := by
  obtain ⟨cache, hbackend⟩ := exists_memory re sha1 enabled ttlSeconds calls
  rw [Finds, hbackend, IndexMatches]

/-- **An invalidation is exact** where what the code looks at matches just as the parameters of the entry do. -/
theorem invalidate_exact_iff (re : Re.Engine) (sha1 : Sha1) (enabled : Bool) (ttlSeconds : ℤ)
    (calls : List (ℚ × Bool × Op δ)) (answers : Bool) (now : ℚ) (pattern : Text) :
    ((reached re sha1 enabled ttlSeconds true calls).Exact re answers now pattern ↔
      ∀ p e, (reached re sha1 enabled ttlSeconds true calls).served now (sha1.makeKey p) = some e →
        (DigestMatches sha1 answers pattern p ↔ globMatch pattern e.paramsKey = true)) ∧
    ((reached re sha1 enabled ttlSeconds false calls).Exact re answers now pattern ↔
      ∀ key e, (reached re sha1 enabled ttlSeconds false calls).served now key = some e →
        (IndexMatches re (reached re sha1 enabled ttlSeconds false calls).patternIndex pattern key ↔
          globMatch pattern e.paramsKey = true)) ∧
    (SameGone re (reached re sha1 enabled ttlSeconds true calls) (reached re sha1 enabled ttlSeconds false calls)
        answers now pattern ↔
      ∀ p, ((reached re sha1 enabled ttlSeconds true calls).served now (sha1.makeKey p)).isSome →
        ((reached re sha1 enabled ttlSeconds false calls).served now (sha1.makeKey p)).isSome →
        (DigestMatches sha1 answers pattern p ↔
          IndexMatches re (reached re sha1 enabled ttlSeconds false calls).patternIndex pattern (sha1.makeKey p))) := by
  have hmade : ∀ key, ((reached re sha1 enabled ttlSeconds true calls).served now key).isSome →
      ∃ p, key = sha1.makeKey p := by
    intro key hsome
    obtain ⟨e, hserved⟩ := Option.isSome_iff_exists.mp hsome
    exact (filed_run enabled ttlSeconds true calls).made (key, e) (mem_entries hserved)
  refine ⟨?_, ?_, ?_⟩
  · rw [exact_iff]
    constructor
    · intro h p e hserved
      rw [← redis_finds]
      exact h _ e hserved
    · intro h key e hserved
      obtain ⟨p, rfl⟩ := hmade key (by rw [hserved]; rfl)
      rw [redis_finds]
      exact h p e hserved
  · rw [exact_iff]
    simp only [memory_finds]
  · unfold SameGone
    constructor
    · intro h p hredis hmemory
      rw [← redis_finds, ← memory_finds, ← gone_iff hredis, ← gone_iff hmemory]
      exact h _ hredis hmemory
    · intro h key hredis hmemory
      obtain ⟨p, rfl⟩ := hmade key hredis
      rw [gone_iff hredis, gone_iff hmemory, redis_finds, memory_finds]
      exact h p hredis hmemory

/-- A pattern with a letter no digest has changes nothing in Redis. -/
theorem redis_unchanged {a : Char} (hmem : .lit a ∈ redisTokens none pattern) (ha : a ∉ "0123456789abcdef".toList)
    (ht : now ≤ t) (p : Params) :
    ((reached re sha1 enabled ttlSeconds true calls).invalidate re answers now pattern).1.served t (sha1.makeKey p) =
      (reached re sha1 enabled ttlSeconds true calls).served t (sha1.makeKey p) := by
  refine served_not_found ht fun hfinds => ?_
  have hmatch := (redis_finds.mp hfinds).2
  rw [Sha1.digest, ← globMatch_keyPrefix, redis_finds_nothing hmem ha] at hmatch
  cases hmatch

/-- **In memory a plain pattern leaves nothing it matches.** -/
theorem memory_gone (hplain : PlainPattern pattern) (ht : now ≤ t)
    (hserved : (reached re sha1 enabled ttlSeconds false calls).served now key = some e) (hline : '\n' ∉ e.paramsKey)
    (hmatch : globMatch pattern e.paramsKey = true) :
    ((reached re sha1 enabled ttlSeconds false calls).invalidate re answers now pattern).1.served t key = none := by
  obtain ⟨cache, hbackend⟩ := exists_memory re sha1 enabled ttlSeconds calls
  exact served_found ht ((filed_run enabled ttlSeconds false calls).finds hbackend hplain hserved hline hmatch)

/-- `sha1("binance|BTCUSDT|4h|1000")`, whatever the text. -/
def btcDigest : Sha1 where
  hexdigest _ := "280cdfcd1574fac1a264fdef6e1889aaea7656a6".toList
  letters _ := by decide

def btcParams : Params := ⟨"binance".toList, "BTCUSDT".toList, "4h".toList, 1000⟩

/-- One entry that is set at the time 0. -/
def btcCalls : List (ℚ × Bool × Op Unit) :=
  [(0, true, .set btcParams ⟨"binance".toList, "BTCUSDT".toList, "4h".toList, ()⟩)]

/-- The pattern that names the entry leaves it in Redis; one that does not match it takes it from the memory. -/
theorem btc_not_exact :
    ¬(reached Re.atomsOnly btcDigest true 900 true btcCalls).Exact Re.atomsOnly true 1 "binance:BTCUSDT:*".toList ∧
    ¬(reached Re.atomsOnly btcDigest true 900 false btcCalls).Exact Re.atomsOnly true 1 "BTC*".toList := by
  constructor
  · intro hexact
    have hserved := hexact 1 le_rfl (btcDigest.makeKey btcParams)
    rw [redis_unchanged (a := ':') (by decide) (by decide) le_rfl] at hserved
    have hsome := congrArg Option.isSome hserved
    revert hsome
    decide +kernel
  · intro hexact
    have hserved := hexact 1 le_rfl (btcDigest.makeKey btcParams)
    have hsome := congrArg Option.isSome hserved
    revert hsome
    decide +kernel

end IndexedCache

end CryptoAggHarmonic.Infra
