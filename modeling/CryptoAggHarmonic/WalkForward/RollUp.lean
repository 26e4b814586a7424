import Mathlib.Algebra.Order.Ring.WithTop
import CryptoAggHarmonic.Lib.Groups
import CryptoAggHarmonic.WalkForward.Lib

/-!
# The daily roll-up

`aggregate_records` of `scripts/backtest_harmonic_lib.py`, and `run` of `scripts/run_backtest.py`. The records of one
symbol (`_run_symbol`) are the parameter `runSymbol`. Of the result of `run`, what describes the run itself (its
identifier, the time, the constants) is left out. Numbers are exact, and an `int` is not told from a `float`.
-/

namespace CryptoAggHarmonic.WalkForward

open Domain Engine Backtest Groups

/-! ## One list of records -/

/-- The counters of the loop of `aggregate_records`. -/
structure Counters where
  totalR : ℚ := 0
  winR : ℚ := 0
  lossR : ℚ := 0
  wins : ℕ := 0
  losses : ℕ := 0
  scratches : ℕ := 0
  skipped : ℕ := 0

def Counters.add (c : Counters) (r : BacktestSignalRecord) : Counters :=
  let c := { c with totalR := c.totalR + r.rMultiple }
  match r.result with
  | .traded .win => { c with wins := c.wins + 1, winR := c.winR + r.rMultiple }
  | .traded .loss => { c with losses := c.losses + 1, lossR := c.lossR + r.rMultiple }
  | .traded .scratch => { c with scratches := c.scratches + 1 }
  | .skipped => { c with skipped := c.skipped + 1 }

/-- An entry of `by_grade` or `by_family`. -/
structure Bucket where
  count : ℕ := 0
  wins : ℕ := 0
  losses : ℕ := 0
  r : ℚ := 0
  deriving DecidableEq

def Bucket.add (r : BacktestSignalRecord) (b : Bucket) : Bucket :=
  { count := b.count + 1
    wins := if r.result = .traded .win then b.wins + 1 else b.wins
    losses := if r.result = .traded .loss then b.losses + 1 else b.losses
    r := b.r + r.rMultiple }

def bucketsBy {κ : Type} [DecidableEq κ] (key : BacktestSignalRecord → κ) (records : List BacktestSignalRecord) :
    List (κ × Bucket) :=
  records.foldl (fun d r => bump (key r) (Bucket.add r) {} d) []

inductive SummaryValue
  | number (x : WithTop ℚ)
  | byGrade (buckets : List (Grade × Bucket))
  | byFamily (buckets : List (String × Bucket))
  deriving DecidableEq

abbrev Summary := List (String × SummaryValue)

def count (n : ℕ) : SummaryValue := .number ((n : ℚ) : WithTop ℚ)

def float (x : ℚ) : SummaryValue := .number (x : WithTop ℚ)

/-- `profit_factor`: no losses at all and losses of nothing are two branches of the source. -/
def Counters.profitFactor (c : Counters) : WithTop ℚ :=
  if c.losses = 0 then if 0 < c.wins then ⊤ else 0
  else if c.lossR = 0 then if 0 < c.wins then ⊤ else 0
  else ((c.winR / |c.lossR| : ℚ) : WithTop ℚ)

def aggregateRecords (records : List BacktestSignalRecord) : Summary :=
  let c := records.foldl Counters.add {}
  let decided := c.wins + c.losses
  let winRate : ℚ := if decided = 0 then 0 else c.wins / decided
  let avgR : ℚ := if records = [] then 0 else c.totalR / records.length
  [("total_signals", count records.length),
    ("skipped_signals", count c.skipped),
    ("decisions", count decided),
    ("wins", count c.wins),
    ("losses", count c.losses),
    ("scratches", count c.scratches),
    ("win_rate", float winRate),
    ("avg_r", float avgR),
    ("total_r", float c.totalR),
    ("profit_factor", .number c.profitFactor),
    ("by_grade", .byGrade (bucketsBy BacktestSignalRecord.grade records)),
    ("by_family", .byFamily (bucketsBy BacktestSignalRecord.family records))]

/-! ## All symbols -/

structure SymbolSummary where
  total : ℕ
  aggregated : Summary

def runSymbolAggregated (runSymbol : String → List BacktestSignalRecord) (symbol : String) :
    String × SymbolSummary :=
  let records := runSymbol symbol
  (symbol, { total := records.length, aggregated := if records = [] then [] else aggregateRecords records })

/-- The items that are `int` or `float`. -/
def numericItems (summary : Summary) : List (String × WithTop ℚ) :=
  summary.filterMap fun
    | (k, .number x) => some (k, x)
    | _ => none

structure RunResult where
  totalSignals : ℕ
  aggregated : List (String × WithTop ℚ)
  perSymbol : List (String × ℕ)

/-- `run`. The pool gives the summaries back in the order of the tasks. -/
def run (runSymbol : String → List BacktestSignalRecord) (symbols : List String) (nWorkers : ℤ) : RunResult :=
  let summaries :=
    if nWorkers ≤ 1 ∨ symbols.length = 1 then symbols.map (runSymbolAggregated runSymbol)
    else symbols.map (runSymbolAggregated runSymbol)
  let bySymbol := dictOf summaries
  let totalSignals : ℕ := (bySymbol.map fun s => s.2.total).sum
  let overall := bySymbol.foldl (fun overall s => addAll overall (numericItems s.2.aggregated))
    [("total_signals", ((totalSignals : ℚ) : WithTop ℚ))]
  { totalSignals
    aggregated := overall
    perSymbol := bySymbol.map fun s => (s.1, s.2.total) }

/-! ## What is added up -/

variable {runSymbol : String → List BacktestSignalRecord} {symbols : List String} {nWorkers : ℤ}
  {xs ys records : List BacktestSignalRecord} {k : String}

theorem foldl_counters (c : Counters) : records.foldl Counters.add c =
    { totalR := c.totalR + (records.map (·.rMultiple)).sum
      winR := c.winR + ((records.filter (·.result = .traded .win)).map (·.rMultiple)).sum
      lossR := c.lossR + ((records.filter (·.result = .traded .loss)).map (·.rMultiple)).sum
      wins := c.wins + records.countP (·.result = .traded .win)
      losses := c.losses + records.countP (·.result = .traded .loss)
      scratches := c.scratches + records.countP (·.result = .traded .scratch)
      skipped := c.skipped + records.countP (·.result = .skipped) } := by
  induction records generalizing c with
  | nil => simp
  | cons r records ih =>
      rw [List.foldl_cons, ih]
      cases hresult : r.result with
      | traded result => cases result <;> simp [Counters.add, hresult, add_assoc, add_comm]
      | skipped => simp [Counters.add, hresult, add_assoc, add_comm]

/-- What the numbers of a summary say under a key; nothing is zero. -/
def numberAt (k : String) (records : List BacktestSignalRecord) : WithTop ℚ :=
  totalAt k (numericItems (aggregateRecords records))

/-- The keys whose numbers are sums over the records. -/
def sumKeys : List String :=
  ["total_signals", "skipped_signals", "decisions", "wins", "losses", "scratches", "total_r"]

theorem numericItems_aggregateRecords : numericItems (aggregateRecords records) =
    let c := records.foldl Counters.add {}
    [("total_signals", ((records.length : ℚ) : WithTop ℚ)),
      ("skipped_signals", ((c.skipped : ℚ) : WithTop ℚ)),
      ("decisions", (((c.wins + c.losses : ℕ) : ℚ) : WithTop ℚ)),
      ("wins", ((c.wins : ℚ) : WithTop ℚ)),
      ("losses", ((c.losses : ℚ) : WithTop ℚ)),
      ("scratches", ((c.scratches : ℚ) : WithTop ℚ)),
      ("win_rate", ((if c.wins + c.losses = 0 then 0 else (c.wins : ℚ) / (c.wins + c.losses : ℕ) : ℚ) : WithTop ℚ)),
      ("avg_r", ((if records = [] then 0 else c.totalR / records.length : ℚ) : WithTop ℚ)),
      ("total_r", (c.totalR : WithTop ℚ)),
      ("profit_factor", c.profitFactor)] := rfl

theorem numberAt_nil : numberAt k [] = 0 := by
  have hzero : ∀ e ∈ numericItems (aggregateRecords []), e.2 = 0 := by
    intro e he
    rw [numericItems_aggregateRecords] at he
    simp only [List.foldl_nil, Counters.profitFactor, List.mem_cons, List.not_mem_nil, or_false] at he
    rcases he with rfl | rfl | rfl | rfl | rfl | rfl | rfl | rfl | rfl | rfl <;> simp
  rw [numberAt, totalAt]
  refine List.sum_eq_zero fun x hx => ?_
  obtain ⟨e, he, rfl⟩ := List.mem_map.mp hx
  exact hzero e (List.mem_of_mem_filter he)

theorem numberAt_append (h : k ∈ sumKeys) : numberAt k (xs ++ ys) = numberAt k xs + numberAt k ys := by
  simp only [sumKeys, List.mem_cons, List.not_mem_nil, or_false] at h
  rcases h with rfl | rfl | rfl | rfl | rfl | rfl | rfl <;>
    simp [numberAt, numericItems_aggregateRecords, totalAt, foldl_counters, add_assoc, add_left_comm]

theorem numberAt_flatMap (h : k ∈ sumKeys) :
    numberAt k (symbols.flatMap runSymbol) = (symbols.map fun s => numberAt k (runSymbol s)).sum := by
  induction symbols with
  | nil => exact numberAt_nil
  | cons s symbols ih => rw [List.flatMap_cons, numberAt_append h, ih, List.map_cons, List.sum_cons]

/-! ## What the roll-up says -/

theorem run_aggregated (hdistinct : symbols.Nodup) : (run runSymbol symbols nWorkers).aggregated =
    addAll [("total_signals", (((symbols.flatMap runSymbol).length : ℚ) : WithTop ℚ))]
      (symbols.flatMap fun s => numericItems (runSymbolAggregated runSymbol s).2.aggregated) := by
  have hkeys : ((symbols.map (runSymbolAggregated runSymbol)).map Prod.fst).Nodup := by
    rw [List.map_map]
    exact (List.map_id symbols).symm ▸ hdistinct
  have htotal : ((symbols.map (runSymbolAggregated runSymbol)).map fun s => s.2.total).sum =
      (symbols.flatMap runSymbol).length := by
    rw [List.map_map, List.length_flatMap]
    rfl
  simp only [run, ite_self, dictOf_of_nodup hkeys, htotal, List.foldl_map, addAll, List.foldl_flatMap]

theorem totalAt_numericItems (s : String) :
    totalAt k (numericItems (runSymbolAggregated runSymbol s).2.aggregated) = numberAt k (runSymbol s) := by
  by_cases h : runSymbol s = []
  · rw [h, numberAt_nil]
    simp [runSymbolAggregated, h, numericItems, totalAt]
  · simp [runSymbolAggregated, h, numberAt]

theorem totalAt_flatMap :
    totalAt k (symbols.flatMap fun s => numericItems (runSymbolAggregated runSymbol s).2.aggregated) =
    (symbols.map fun s => numberAt k (runSymbol s)).sum := by
  induction symbols with
  | nil => simp [totalAt]
  | cons s symbols ih =>
      rw [List.flatMap_cons, totalAt_append, totalAt_numericItems, ih, List.map_cons, List.sum_cons]

/-- Under every key the block has the sum of what the symbols say there, ratios like counts. -/
theorem getD_lookup_aggregated (hdistinct : symbols.Nodup) (hk : k ≠ "total_signals") :
    ((run runSymbol symbols nWorkers).aggregated.lookup k).getD 0 =
      (symbols.map fun s => numberAt k (runSymbol s)).sum := by
  rw [run_aggregated hdistinct, getD_lookup_addAll, totalAt_flatMap]
  simp [List.lookup_cons, beq_false_of_ne hk]

/-- The number of signals is there before the symbols add theirs. -/
theorem lookup_totalSignals (hdistinct : symbols.Nodup) :
    (run runSymbol symbols nWorkers).aggregated.lookup "total_signals" =
      some (((2 * (symbols.flatMap runSymbol).length : ℕ) : ℚ) : WithTop ℚ) := by
  have hsome : ((run runSymbol symbols nWorkers).aggregated.lookup "total_signals").isSome := by
    rw [run_aggregated hdistinct, isSome_lookup_addAll]
    exact Or.inl rfl
  have hvalue : ((run runSymbol symbols nWorkers).aggregated.lookup "total_signals").getD 0 =
      (((2 * (symbols.flatMap runSymbol).length : ℕ) : ℚ) : WithTop ℚ) := by
    rw [run_aggregated hdistinct, getD_lookup_addAll, totalAt_flatMap, ← numberAt_flatMap (by simp [sumKeys])]
    simp [numberAt, numericItems_aggregateRecords, totalAt, two_mul]
  obtain ⟨x, hx⟩ := Option.isSome_iff_exists.mp hsome
  rw [hx] at hvalue ⊢
  exact congrArg some hvalue

/-- The block has every number of the direct summary. -/
def RollsUp (block : List (String × WithTop ℚ)) (direct : Summary) : Prop :=
  ∀ e ∈ numericItems direct, block.lookup e.1 = some e.2

instance (block : List (String × WithTop ℚ)) (direct : Summary) : Decidable (RollsUp block direct) :=
  inferInstanceAs (Decidable (∀ e ∈ _, _))

/-- **The roll-up is not the summary of all records.** It never has every number of it: the signals are counted
twice, and without any signal the other keys are missing. Only the counts and the total are those of the records. -/
theorem rollUp_differs (runSymbol : String → List BacktestSignalRecord) (symbols : List String) (nWorkers : ℤ)
    (hdistinct : symbols.Nodup) :
    let block := (run runSymbol symbols nWorkers).aggregated
    let records := symbols.flatMap runSymbol
    ¬ RollsUp block (aggregateRecords records) ∧
      block.lookup "total_signals" = some (((2 * records.length : ℕ) : ℚ) : WithTop ℚ) ∧
      ∀ k ∈ sumKeys, k ≠ "total_signals" → (block.lookup k).getD 0 = numberAt k records := by
  refine ⟨fun hrolls => ?_, lookup_totalSignals hdistinct, fun k hsum hk => ?_⟩
  · have hsignals := hrolls ("total_signals", (((symbols.flatMap runSymbol).length : ℚ) : WithTop ℚ))
      (by simp [numericItems_aggregateRecords])
    rw [lookup_totalSignals hdistinct, Option.some.injEq, WithTop.coe_inj, Nat.cast_inj] at hsignals
    have hnone : symbols.flatMap runSymbol = [] := List.eq_nil_of_length_eq_zero (by omega)
    have hwins := hrolls ("wins", 0) (by simp [numericItems_aggregateRecords, hnone])
    have hempty : (symbols.flatMap fun s => numericItems (runSymbolAggregated runSymbol s).2.aggregated) = [] := by
      rw [List.flatMap_eq_nil_iff] at hnone ⊢
      intro s hs
      simp [runSymbolAggregated, hnone s hs, numericItems]
    rw [run_aggregated hdistinct, hempty] at hwins
    cases hwins
  · rw [getD_lookup_aggregated hdistinct hk, numberAt_flatMap hsum]

/-- A record of a trade that won one R. -/
def winner : BacktestSignalRecord where
  stepIndex := 239
  signalTime := 0
  direction := .long
  grade := .a
  patternName := "gartley"
  family := "XABCD"
  formed := true
  entryPrice := 100
  stopLoss := 97
  tp1 := some 103
  rr1 := 1
  entryReference := 100
  entryZone := (99, 101)
  horizon := 24
  result := .traded .win
  rMultiple := 1
  exitTime := none
  barsHeld := none

theorem oneWinner_differs :
    ¬ RollsUp (run (fun _ => [winner]) ["BTCUSDT"] 1).aggregated (aggregateRecords [winner]) :=
  (rollUp_differs (fun _ => [winner]) ["BTCUSDT"] 1 (by decide)).1

/-- Two symbols that each won their only trade: a win rate of two, and four signals. -/
theorem twoWinners_winRate : ¬ ∀ (runSymbol : String → List BacktestSignalRecord) (symbols : List String)
    (nWorkers : ℤ), symbols.Nodup →
      RollsUp (run runSymbol symbols nWorkers).aggregated (aggregateRecords (symbols.flatMap runSymbol)) ∧
      (∀ x ∈ (run runSymbol symbols nWorkers).aggregated.lookup "win_rate", 0 ≤ x ∧ x ≤ 1) ∧
      (run runSymbol symbols nWorkers).aggregated.lookup "total_signals" =
        some (((symbols.flatMap runSymbol).length : ℚ) : WithTop ℚ) := by
  intro hall
  have hrate : (run (fun _ => [winner]) ["BTCUSDT", "ETHUSDT"] 4).aggregated.lookup "win_rate" = some 2 := by
    decide +kernel
  have hle := ((hall (fun _ => [winner]) ["BTCUSDT", "ETHUSDT"] 4 (by decide)).2.1 2 hrate).2
  exact absurd hle (by decide)

end CryptoAggHarmonic.WalkForward
