import CryptoAggHarmonic.RsiTrend.Adapter
import CryptoAggHarmonic.RsiTrend.Lemmas.Prefix

/-!
# What the masks and the scan ask of a bar

Both sides as one condition on the bar: what they share, and what each asks on top of it.
-/

namespace CryptoAggHarmonic.RsiTrend

open Domain

variable {p : AdapterSettings} {o : ScanSettings} {direction : Direction} {row : IndicatorRow} {rewardRisk : ℚ} {i : ℕ}

/-! ## The conditions on a bar -/

def crossed (zone : RsiZone) (direction : Direction) (row : IndicatorRow) : Bool :=
  match direction with
  | .long => row.rsiPrev.test (· ≤ zone.bounds.1) && row.rsi.test (· > zone.bounds.1)
  | .short => row.rsiPrev.test (· ≥ zone.bounds.2) && row.rsi.test (· < zone.bounds.2)

/-- What both sides ask: the trend, the cross, the fast average, and the candle of a long or the RSI of a short. -/
def sharedSetup (p : AdapterSettings) (direction : Direction) (row : IndicatorRow) : Bool :=
  favours direction row.row.close row.ema200 && crossed p.buyRsiZone direction row &&
    (!p.sellUseEma50 || favours direction row.row.close row.ema50) &&
    match direction with
    | .long => !p.requireCandleColor || favours .long row.row.close row.row.openPrice
    | .short => row.rsiPrev.test (· ≥ p.buyShortRsiMin)

/-- What the masks ask on top: the volatility floor. -/
def volatile (p : AdapterSettings) (row : IndicatorRow) : Bool :=
  (npDiv row.atr row.row.close).ge (.finite (0.005 * p.buyAtrMult))

/-- The distance of the stop from the close. -/
def stopDistance (p : AdapterSettings) (direction : Direction) (row : IndicatorRow) : ℚ :=
  match direction with
  | .long => row.row.close - (row.row.low - p.buyAtrMult * row.atr)
  | .short => row.row.high + p.buyAtrMult * row.atr - row.row.close

/-- What the scan asks on top: a stop on its side, and the candle of a short. -/
def tradeable (p : AdapterSettings) (direction : Direction) (row : IndicatorRow) : Bool :=
  decide (0 < stopDistance p direction row) &&
    (decide (direction = .long) || !p.requireCandleColor || favours .short row.row.close row.row.openPrice)

/-- No row from the warm-up on has the cell that `float` does not take. -/
def Readable (rows : List IndicatorRow) : Prop := ∀ row ∈ rows.drop WARMUP_BARS, row.rsi ≠ .na

/-! ## The masks -/

theorem enters_entryFlags {volume : ℚ} (hvolume : 0 < volume) :
    (entryFlags p (0.005 * p.buyAtrMult) (adapterRow p row volume)).enters direction =
      (sharedSetup p direction row && volatile p row) := by
  cases direction with
  | long =>
      simp only [EntryFlags.enters, entryFlags, longCond, adapterRow, sharedSetup, crossed, favours, volatile,
        hvolume, gt_iff_lt, decide_true, Bool.and_true]
      ac_rfl
  | short =>
      simp only [EntryFlags.enters, entryFlags, shortCond, adapterRow, sharedSetup, crossed, favours, volatile,
        hvolume, gt_iff_lt, decide_true, Bool.and_true]
      ac_rfl

/-- The floor is the same on every row, so what the first row holds is the floor of each. -/
theorem head_atrMinPct {df : List (IndicatorRow × ℚ)} (h : df ≠ []) :
    ((populateIndicators p df).head?.map AdapterRow.atrMinPct).getD 0 = 0.005 * p.buyAtrMult := by
  cases df with
  | nil => exact absurd rfl h
  | cons x xs => rfl

/-- **The masks**: the adapter enters where the shared conditions hold and the bar is volatile. -/
theorem entersAt_iff {candles : List (Row × ℚ)} (hvolume : ∀ c ∈ candles, 0 < c.2) :
    EntersAt (adapterEntries p candles) direction i ↔
      ∃ row, (computeIndicators (candles.map Prod.fst))[i]? = some row ∧
        sharedSetup p direction row = true ∧ volatile p row = true := by
  have hlen : (computeIndicators (candles.map Prod.fst)).length = candles.length := by
    rw [length_computeIndicators, List.length_map]
  cases hrow : (computeIndicators (candles.map Prod.fst))[i]? with
  | none =>
      have hi : candles.length ≤ i := by
        rw [← hlen]
        exact List.getElem?_eq_none_iff.mp hrow
      simp [EntersAt, adapterEntries, populateEntryTrend, populateIndicators, List.getElem?_zip_eq_some, hrow]
  | some row =>
      have hi : i < candles.length := by
        rw [← hlen]
        exact (List.getElem?_eq_some_iff.mp hrow).1
      have hpos : 0 < candles[i].2 := hvolume _ (List.getElem_mem hi)
      have hzip : ((computeIndicators (candles.map Prod.fst)).zip (candles.map Prod.snd))[i]? =
          some (row, candles[i].2) := by
        rw [List.getElem?_zip_eq_some]
        exact ⟨hrow, by simp [hi]⟩
      have hne : (computeIndicators (candles.map Prod.fst)).zip (candles.map Prod.snd) ≠ [] := by
        intro h
        rw [h] at hzip
        cases hzip
      have hentry : (adapterEntries p candles)[i]? =
          some (entryFlags p (0.005 * p.buyAtrMult) (adapterRow p row candles[i].2)) := by
        rw [adapterEntries, populateEntryTrend, head_atrMinPct hne, populateIndicators, List.map_map,
          List.getElem?_map, hzip]
        rfl
      simp only [EntersAt, hentry, Option.some.injEq, exists_eq_left', enters_entryFlags hpos, Bool.and_eq_true]

/-! ## The scan -/

theorem signalQuality_nonneg (direction : Direction) (close ema200 ema50 rsi rsiPrev atr openPrice : ℚ) :
    0 ≤ signalQuality direction close ema200 ema50 rsi rsiPrev atr openPrice := by
  unfold signalQuality
  split
  · exact le_refl 0
  · rename_i hatr
    have hdisplacement : 0 ≤ |close - ema200| / atr := div_nonneg (abs_nonneg _) (not_le.mp hatr).le
    have htrend : 0 ≤ min (|close - ema200| / atr) 10 / 10 * 40 := by
      have := le_min hdisplacement (by norm_num : (0 : ℚ) ≤ 10)
      positivity
    have hmomentum : 0 ≤ min |rsi - rsiPrev| 20 / 20 * 25 := by
      have := le_min (abs_nonneg (rsi - rsiPrev)) (by norm_num : (0 : ℚ) ≤ 20)
      positivity
    have hema : (0 : ℚ) ≤ if favours direction close ema50 then 20 else 0 := by split <;> norm_num
    have hcolor : (0 : ℚ) ≤ if favours direction close openPrice then 15 else 0 := by split <;> norm_num
    exact le_min (by linarith) (by norm_num)

theorem scan_mem_iff {rows : List (IndicatorRow × ℕ)} {signals : List Signal} {s : Signal}
    (h : scan o rows = .ok signals) (hfloor : o.minQualityScore = 0) :
    s ∈ signals ↔ (∃ x ∈ rows, detectAt o x.1 x.2 = .ok (some s)) ∧ 0 ≤ s.qualityScore := by
  obtain ⟨found, hfound, rfl⟩ := scan_eq_ok h
  have hmin : max 0 (min o.minQualityScore 100) = 0 := by rw [hfloor]; norm_num
  rw [List.mem_filter, List.reduceOption_mem_iff, hmin, decide_eq_true_iff]
  refine and_congr_left fun _ => ?_
  clear h hmin
  induction hfound with
  | nil => simp
  | cons hx _ ih => simp [ih, hx, eq_comm]

theorem rsiZone_name (zone : RsiZone) : rsiZone zone.name = zone.bounds := by cases zone <;> rfl

theorem overbought_pos (zone : RsiZone) : 0 < zone.bounds.2 := by cases zone <;> norm_num [RsiZone.bounds]

theorem longEntry_iff {rsiNow rsiPrev : ℚ} :
    (∃ s, longEntry (p.scanSettings rewardRisk) row rsiNow rsiPrev i = some s ∧ s.direction = direction) ↔
      direction = .long ∧ entryFilters (p.scanSettings rewardRisk) .long row = true ∧
        0 < stopDistance p .long row := by
  have hrisk : row.row.close - (row.row.low - (p.scanSettings rewardRisk).atrMult * row.atr) =
      stopDistance p .long row := rfl
  simp only [longEntry, hrisk]
  split
  · rename_i hfilters
    simp_all
  · rename_i hfilters
    have hf : entryFilters (p.scanSettings rewardRisk) .long row = true := by simpa using hfilters
    split
    · rename_i hle
      simp [hle]
    · rename_i hle
      constructor
      · rintro ⟨s, hs, rfl⟩
        cases hs
        exact ⟨rfl, hf, not_le.mp hle⟩
      · rintro ⟨rfl, -, -⟩
        exact ⟨_, rfl, rfl⟩

/-- A previous RSI over the overbought bound is positive, so a floor at or under zero is passed, as if it were off. -/
theorem shortEntry_iff {rsiNow rsiPrev : ℚ} (hprev : 0 < rsiPrev) :
    (∃ s, shortEntry (p.scanSettings rewardRisk) row rsiNow rsiPrev i = some s ∧ s.direction = direction) ↔
      direction = .short ∧ entryFilters (p.scanSettings rewardRisk) .short row = true ∧
        p.buyShortRsiMin ≤ rsiPrev ∧ 0 < stopDistance p .short row := by
  have hrisk : row.row.high + (p.scanSettings rewardRisk).atrMult * row.atr - row.row.close =
      stopDistance p .short row := rfl
  have hfloor : ((p.scanSettings rewardRisk).shortRsiMin > 0 ∧ rsiPrev < (p.scanSettings rewardRisk).shortRsiMin) ↔
      ¬ p.buyShortRsiMin ≤ rsiPrev := by
    have : (p.scanSettings rewardRisk).shortRsiMin = p.buyShortRsiMin := rfl
    rw [this, not_le]
    exact ⟨fun h => h.2, fun h => ⟨hprev.trans h, h⟩⟩
  simp only [shortEntry, hrisk, hfloor]
  split
  · rename_i hfilters
    simp_all
  · rename_i hfilters
    have hf : entryFilters (p.scanSettings rewardRisk) .short row = true := by simpa using hfilters
    split
    · rename_i hmin
      simp [hmin]
    · rename_i hmin
      split
      · rename_i hle
        simp [hle]
      · rename_i hle
        constructor
        · rintro ⟨s, hs, rfl⟩
          cases hs
          exact ⟨rfl, hf, not_not.mp hmin, not_le.mp hle⟩
        · rintro ⟨rfl, -, -, -⟩
          exact ⟨_, rfl, rfl⟩

theorem entryFilters_scanSettings : entryFilters (p.scanSettings rewardRisk) direction row =
    ((!p.sellUseEma50 || favours direction row.row.close row.ema50) &&
      (!p.requireCandleColor || favours direction row.row.close row.row.openPrice)) := rfl

/-- **One row of the scan**: a signal is found where the shared conditions hold and the bar is tradeable. -/
theorem detectAt_iff :
    (∃ s, detectAt (p.scanSettings rewardRisk) row i = .ok (some s) ∧ s.direction = direction) ↔
      sharedSetup p direction row = true ∧ tradeable p direction row = true := by
  cases hrsi : row.rsi with
  | na => cases direction <;> simp [detectAt, hrsi, sharedSetup, crossed, Cell.test, Cell.value]
  | nan => cases direction <;> simp [detectAt, hrsi, sharedSetup, crossed, Cell.test, Cell.value]
  | num rsiNow =>
      cases hprev : row.rsiPrev.value with
      | none => cases direction <;> simp [detectAt, hrsi, hprev, sharedSetup, crossed, Cell.test]
      | some rsiPrev =>
          have hnow : row.rsi.value = some rsiNow := by rw [hrsi]; rfl
          have hup : crossed p.buyRsiZone .long row = true ↔
              rsiPrev ≤ p.buyRsiZone.bounds.1 ∧ rsiNow > p.buyRsiZone.bounds.1 := by
            simp [crossed, Cell.test, hnow, hprev]
          have hdown : crossed p.buyRsiZone .short row = true ↔
              rsiPrev ≥ p.buyRsiZone.bounds.2 ∧ rsiNow < p.buyRsiZone.bounds.2 := by
            simp [crossed, Cell.test, hnow, hprev]
          have hzone : rsiZone (p.scanSettings rewardRisk).rsiZone = p.buyRsiZone.bounds := rsiZone_name _
          simp only [detectAt, hrsi, hprev, hzone, ← hup, ← hdown, Except.ok.injEq]
          split
          · rename_i hlong
            rw [longEntry_iff, entryFilters_scanSettings]
            cases direction with
            | long => simp [sharedSetup, tradeable, favours, hlong.1, hlong.2, and_assoc]
            | short => simp [sharedSetup, favours, not_lt.mpr hlong.2.le]
          · rename_i hlong
            split
            · rename_i hshort
              have hpos : 0 < rsiPrev := (overbought_pos p.buyRsiZone).trans_le (hdown.mp hshort.1).1
              rw [shortEntry_iff hpos, entryFilters_scanSettings]
              cases direction with
              | long => simp [sharedSetup, favours, not_lt.mpr hshort.2.le]
              | short =>
                  simp [sharedSetup, tradeable, favours, hshort.1, hshort.2, Cell.test, hprev]
                  constructor
                  · rintro ⟨⟨hema, hcolor⟩, hmin, hstop⟩
                    exact ⟨⟨hema, hmin⟩, hstop, hcolor⟩
                  · rintro ⟨⟨hema, hmin⟩, hstop, hcolor⟩
                    exact ⟨⟨hema, hcolor⟩, hmin, hstop⟩
            · rename_i hshort
              cases direction with
              | long => simpa [sharedSetup, favours] using fun hema hcross => absurd ⟨hcross, hema⟩ hlong
              | short => simpa [sharedSetup, favours] using fun hema hcross => absurd ⟨hcross, hema⟩ hshort

/-- The quality of what the scan finds is at least the floor of zero. -/
theorem detectAt_quality {s : Signal} (h : detectAt o row i = .ok (some s)) : 0 ≤ s.qualityScore := by
  unfold detectAt at h
  split at h
  · cases h
  · cases h
  · cases h
  · simp only [Except.ok.injEq] at h
    split at h
    · simp only [longEntry] at h
      split_ifs at h
      cases h
      exact signalQuality_nonneg ..
    · split at h
      · simp only [shortEntry] at h
        split_ifs at h
        cases h
        exact signalQuality_nonneg ..
      · cases h

theorem scan_returns_iff {rows : List (IndicatorRow × ℕ)} :
    (∃ signals, scan o rows = .ok signals) ↔ ∀ x ∈ rows, x.1.rsi ≠ .na := by
  constructor
  · rintro ⟨signals, h⟩ x hx hna
    rw [scan_of_na hx hna] at h
    cases h
  · intro hread
    cases h : scan o rows with
    | error e =>
        obtain ⟨x, hx, hna, -⟩ := scan_eq_error h
        exact absurd hna (hread x hx)
    | ok signals => exact ⟨signals, rfl⟩

theorem readable_iff {rows : List IndicatorRow} :
    Readable rows ↔ ∀ x ∈ rows.zipIdx.drop WARMUP_BARS, x.1.rsi ≠ .na := by
  constructor
  · intro h x hx
    obtain ⟨hi, hrow⟩ := mem_zipIdx_drop.mp hx
    refine h x.1 (List.mem_of_getElem? (i := x.2 - WARMUP_BARS) ?_)
    rw [List.getElem?_drop, Nat.add_sub_cancel' hi, hrow]
  · intro h row hrow
    obtain ⟨j, hj⟩ := List.mem_iff_getElem?.mp hrow
    rw [List.getElem?_drop] at hj
    exact h (row, WARMUP_BARS + j) (mem_zipIdx_drop.mpr ⟨Nat.le_add_right _ _, hj⟩)

/-- **The scan**: it has a signal where it reads every row, the shared conditions hold and the bar is tradeable. -/
theorem emitsAt_iff {df : List Row} :
    EmitsAt (p.scanSettings rewardRisk) df direction i ↔
      Readable (computeIndicators df) ∧ WARMUP_BARS ≤ i ∧ ∃ row, (computeIndicators df)[i]? = some row ∧
        sharedSetup p direction row = true ∧ tradeable p direction row = true := by
  rcases Nat.lt_or_ge WARMUP_BARS df.length with hlen | hlen
  · rw [EmitsAt, detectSignalsCore_long hlen, readable_iff]
    constructor
    · rintro ⟨signals, hscan, s, hs, rfl, rfl⟩
      obtain ⟨x, hx, hfound⟩ := ((scan_mem_iff hscan rfl).mp hs).1
      obtain ⟨hi, hrow⟩ := mem_zipIdx_drop.mp hx
      rw [detectAt_index hfound]
      exact ⟨scan_returns_iff.mp ⟨signals, hscan⟩, hi, x.1, hrow, detectAt_iff.mp ⟨s, hfound, rfl⟩⟩
    · rintro ⟨hread, hi, row, hrow, hsetup⟩
      obtain ⟨signals, hscan⟩ := scan_returns_iff.mpr hread
      obtain ⟨s, hfound, hs⟩ := detectAt_iff.mpr hsetup
      refine ⟨signals, hscan, s, (scan_mem_iff hscan rfl).mpr ⟨⟨(row, i), ?_, hfound⟩, detectAt_quality hfound⟩, hs,
        detectAt_index hfound⟩
      exact mem_zipIdx_drop.mpr ⟨hi, hrow⟩
  · rw [EmitsAt, detectSignalsCore_short hlen]
    constructor
    · rintro ⟨signals, hnone, s, hs, -⟩
      cases hnone
      cases hs
    · rintro ⟨-, hi, row, hrow, -⟩
      have hlt := (List.getElem?_eq_some_iff.mp hrow).1
      rw [length_computeIndicators] at hlt
      omega

end CryptoAggHarmonic.RsiTrend
