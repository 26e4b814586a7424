import CryptoAggHarmonic.Bench.Stages
import CryptoAggHarmonic.Lib.KeepBest

/-!
# What is measured on the bars of a trade

The excursions and the touches of a bar, and what the walk over the bars keeps of them.
-/

namespace CryptoAggHarmonic.Bench

open Domain Peak

variable {direction : Direction} {entryPrice stopPrice targetPrice : ℚ} {zone : ℚ × ℚ} {rows : List Candle}
  {m : TradeMetrics} {rec rec' : SignalRecord}

/-! ## One bar -/

/-- How far a bar goes against the trade. -/
def adverseExcursion (direction : Direction) (entryPrice : ℚ) (row : Candle) : ℚ :=
  match direction with
  | .long => max (entryPrice - row.low) 0
  | .short => max (row.high - entryPrice) 0

/-- How far a bar goes with the trade. -/
def favourableExcursion (direction : Direction) (entryPrice : ℚ) (row : Candle) : ℚ :=
  match direction with
  | .long => max (row.high - entryPrice) 0
  | .short => max (entryPrice - row.low) 0

def reachesStop (direction : Direction) (stopPrice : ℚ) (row : Candle) : Bool :=
  match direction with
  | .long => decide (row.low ≤ stopPrice)
  | .short => decide (row.high ≥ stopPrice)

def reachesTarget (direction : Direction) (targetPrice : ℚ) (row : Candle) : Bool :=
  match direction with
  | .long => decide (row.high ≥ targetPrice)
  | .short => decide (row.low ≤ targetPrice)

theorem adverseExcursion_nonneg (row : Candle) : 0 ≤ adverseExcursion direction entryPrice row := by
  cases direction <;> exact le_max_right _ _

theorem favourableExcursion_nonneg (row : Candle) : 0 ≤ favourableExcursion direction entryPrice row := by
  cases direction <;> exact le_max_right _ _

/-! ## The walk -/

/-- Some bar reaches the stop, and none before it the target. -/
def StopFirst (direction : Direction) (stopPrice targetPrice : ℚ) (rows : List Candle) : Prop :=
  ∃ before row after, rows = before ++ row :: after ∧ reachesStop direction stopPrice row = true ∧
    ∀ r ∈ before, reachesTarget direction targetPrice r = false

def walked (direction : Direction) (entryPrice stopPrice targetPrice : ℚ) (zone : ℚ × ℚ) (rows : List Candle) : Walk :=
  rows.zipIdx.foldl (walkBar direction entryPrice stopPrice targetPrice zone) {}

/-- What the walk has kept. -/
structure Kept (direction : Direction) (entryPrice stopPrice targetPrice : ℚ) (rows : List Candle) (w : Walk) :
    Prop where
  mae : (w.maePrice, w.maeBarIndex) = peak 0 (rows.map (adverseExcursion direction entryPrice))
  mfe : w.mfePrice = (peak 0 (rows.map (favourableExcursion direction entryPrice))).1
  hitTarget : w.hitTarget = rows.any (reachesTarget direction targetPrice)
  hitStop : w.hitStop = true ↔ StopFirst direction stopPrice targetPrice rows

theorem walked_append (rows : List Candle) (row : Candle) :
    walked direction entryPrice stopPrice targetPrice zone (rows ++ [row]) =
      walkBar direction entryPrice stopPrice targetPrice zone
        (walked direction entryPrice stopPrice targetPrice zone rows) (row, rows.length) := by
  simp [walked, List.zipIdx_append]

theorem stopFirst_append {row : Candle} : StopFirst direction stopPrice targetPrice (rows ++ [row]) ↔
    StopFirst direction stopPrice targetPrice rows ∨
      reachesStop direction stopPrice row = true ∧ rows.any (reachesTarget direction targetPrice) = false := by
  constructor
  · rintro ⟨before, r, after, hrows, hstop, hbefore⟩
    cases after using List.reverseRecOn with
    | nil =>
        obtain ⟨rfl, hlast⟩ := List.append_inj' hrows rfl
        cases hlast
        exact Or.inr ⟨hstop, List.any_eq_false.mpr fun r hr => by simp [hbefore r hr]⟩
    | append_singleton after last =>
        rw [← List.cons_append, ← List.append_assoc] at hrows
        obtain ⟨rfl, -⟩ := List.append_inj' hrows rfl
        exact Or.inl ⟨before, r, after, rfl, hstop, hbefore⟩
  · rintro (⟨before, r, after, rfl, hstop, hbefore⟩ | ⟨hstop, hnone⟩)
    · exact ⟨before, r, after ++ [row], by simp, hstop, hbefore⟩
    · exact ⟨rows, row, [], rfl, hstop, fun r hr => by simpa using List.any_eq_false.mp hnone r hr⟩

theorem walkBar_eq (w : Walk) (row : Candle) (i : ℕ) :
    walkBar direction entryPrice stopPrice targetPrice zone w (row, i) =
      { maePrice := (raise (w.maePrice, w.maeBarIndex) (adverseExcursion direction entryPrice row, i)).1
        mfePrice := max w.mfePrice (favourableExcursion direction entryPrice row)
        maeBarIndex := (raise (w.maePrice, w.maeBarIndex) (adverseExcursion direction entryPrice row, i)).2
        stopZoneTouches := if row.low ≤ zone.2 ∧ row.high ≥ zone.1 then w.stopZoneTouches + 1 else w.stopZoneTouches
        hitStop := w.hitStop || reachesStop direction stopPrice row && !w.hitTarget
        hitTarget := w.hitTarget || reachesTarget direction targetPrice row } := by
  have hmax : ∀ x y : ℚ, (if y > x then y else x) = max x y := fun x y => (max_def_lt x y).symm
  have hsnd : ∀ (x y : ℚ) (j : Option ℕ), (raise (x, j) (y, i)).2 = if y > x then some i else j := by
    intro x y j
    simp only [raise, gt_iff_lt]
    split_ifs <;> rfl
  cases direction <;> simp only [walkBar, raise_fst, hmax, hsnd, decide_eq_true_eq] <;> rfl

/-- One bar. -/
theorem Kept.walkBar {w : Walk} (h : Kept direction entryPrice stopPrice targetPrice rows w) (row : Candle) :
    Kept direction entryPrice stopPrice targetPrice (rows ++ [row])
      (walkBar direction entryPrice stopPrice targetPrice zone w (row, rows.length)) := by
  obtain ⟨hmae, hmfe, htarget, hstop⟩ := h
  rw [walkBar_eq]
  refine ⟨?_, ?_, ?_, ?_⟩
  · rw [List.map_append, List.map_singleton, peak_append, ← hmae, List.length_map]
  · rw [List.map_append, List.map_singleton, peak_append, raise_fst (peak 0 _), ← hmfe]
  · rw [List.any_append, List.any_cons, List.any_nil, Bool.or_false, ← htarget]
  · rw [stopFirst_append, ← hstop, ← htarget, ← Bool.not_eq_true', ← Bool.and_eq_true, ← Bool.or_eq_true]

/-- **The walk.** -/
theorem kept_walked (direction : Direction) (entryPrice stopPrice targetPrice : ℚ) (zone : ℚ × ℚ) (rows : List Candle) :
    Kept direction entryPrice stopPrice targetPrice rows
      (walked direction entryPrice stopPrice targetPrice zone rows) := by
  induction rows using List.reverseRecOn with
  | nil =>
      refine ⟨rfl, rfl, rfl, iff_of_false (by simp [walked]) ?_⟩
      rintro ⟨before, row, after, hrows, -⟩
      simp at hrows
  | append_singleton rows row ih =>
      rw [walked_append]
      exact ih.walkBar row

/-! ## The metrics -/

/-- The levels of a trade that is measured. -/
structure ValidLevels (direction : Direction) (entryPrice stopPrice targetPrice : ℚ) : Prop where
  pos : 0 < entryPrice ∧ 0 < stopPrice ∧ 0 < targetPrice
  long : direction = .long → stopPrice < entryPrice ∧ entryPrice < targetPrice
  short : direction = .short → stopPrice > entryPrice ∧ entryPrice > targetPrice

theorem computeTradeMetrics_eq {atrAtEntry : ℚ} (hrows : rows ≠ [])
    (hlevels : ValidLevels direction entryPrice stopPrice targetPrice) (hatr : 0 < atrAtEntry) :
    ∃ m, computeTradeMetrics rows entryPrice stopPrice targetPrice direction atrAtEntry = .ok m ∧
      m.mae = (peak 0 (rows.map (adverseExcursion direction entryPrice))).1 ∧
      m.mfe = (peak 0 (rows.map (favourableExcursion direction entryPrice))).1 ∧
      m.callbackBars = (peak 0 (rows.map (adverseExcursion direction entryPrice))).2.elim 0 (· + 1) ∧
      (m.hitStopBeforeTp = true ↔ StopFirst direction stopPrice targetPrice rows ∧
        rows.any (reachesTarget direction targetPrice) = false) := by
  obtain ⟨⟨hentry, hstop, htarget⟩, hlong, hshort⟩ := hlevels
  unfold computeTradeMetrics
  rw [if_neg (by simpa using hrows), if_neg (by simp [hentry, hstop, htarget]), if_neg (not_le.mpr hatr),
    if_neg fun h => h.2 (hlong h.1), if_neg fun h => h.2 (hshort h.1)]
  obtain ⟨hmae, hmfe, hhitTarget, hhitStop⟩ :=
    kept_walked direction entryPrice stopPrice targetPrice (stopZone stopPrice atrAtEntry 0.1) rows
  refine ⟨_, rfl, ?_, hmfe, ?_, ?_⟩
  · exact congrArg Prod.fst hmae
  · exact congrArg (fun p : ℚ × Option ℕ => p.2.elim 0 (· + 1)) hmae
  · rw [← hhitStop, ← hhitTarget, ← Bool.not_eq_true', ← Bool.and_eq_true]
    exact Iff.rfl

/-- The peak of values over the floor is one of them. -/
theorem isGreatest_excursions {f : Candle → ℚ} (hrows : rows ≠ []) (hf : ∀ row, 0 ≤ f row) :
    IsGreatest {x | ∃ row ∈ rows, f row = x} (peak 0 (rows.map f)).1 := by
  obtain ⟨hmem, hle⟩ := isGreatest_peak 0 (rows.map f)
  have hbound : ∀ row ∈ rows, f row ≤ (peak 0 (rows.map f)).1 := fun row hrow =>
    hle (Set.mem_insert_of_mem _ (List.mem_map_of_mem hrow))
  refine ⟨?_, ?_⟩
  · rcases Set.mem_insert_iff.mp hmem with hzero | hmem
    · obtain ⟨row, hrow⟩ := List.exists_mem_of_ne_nil rows hrows
      exact ⟨row, hrow, le_antisymm (hbound row hrow) (hzero.le.trans (hf row))⟩
    · exact List.mem_map.mp hmem
  · rintro x ⟨row, hrow, rfl⟩
    exact hbound row hrow

end CryptoAggHarmonic.Bench
