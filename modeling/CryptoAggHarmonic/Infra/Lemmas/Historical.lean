import CryptoAggHarmonic.Infra.Historical
import CryptoAggHarmonic.Lib.Window

/-!
# What the pages make up

Walking back page by page collects the newest candles of the window, all of them where there are no more than asked for.
-/

namespace CryptoAggHarmonic.Infra

open Analyze PyOs Window

variable {v : Venue} {com us : Venue} {w : World} {defaultBase : Bool} {lo hi : ℤ} {numCandles : ℕ}
  {rows collected : List Kline} {symbol interval : Text} {start stop ms : ℤ} {df : Frame}

/-- The candles of a venue that open in a window. -/
def Venue.window (v : Venue) (lo hi : ℤ) : List Kline := between Kline.openTime lo hi v.klines

theorem page_filter (h : Ascending Kline.openTime v.klines) (limit : ℕ) :
    (v.page limit (some hi)).filter (fun k => (some lo).all (· ≤ k.openTime)) = (v.window lo hi).rtake limit := by
  have hbelow : Ascending Kline.openTime (v.klines.filter fun k => k.openTime ≤ hi) := h.sublist List.filter_sublist
  simp only [Venue.page, Option.all_some]
  rw [rtake_filter hbelow, List.filter_filter, Venue.window, between]
  simp only [← Bool.decide_and]

/-- Walking back from `hi`: what is still missing of the window is put in front of what has been collected. -/
theorem paginate_eq (h : Ascending Kline.openTime v.klines) (n i : ℕ) (hfuel : numCandles ≤ n + collected.length)
    (hlen : collected.length ≤ numCandles)
    (hrows : paginate v (some lo) numCandles n i (some hi) collected = .ok rows) :
    rows = (v.window lo hi).rtake (numCandles - collected.length) ++ collected := by
  induction n generalizing i hi collected with
  | zero =>
      rw [paginate, Except.ok.injEq] at hrows
      subst hrows
      have : numCandles - collected.length = 0 := by omega
      simp [this, List.rtake]
  | succ n ih =>
      rw [paginate] at hrows
      split at hrows
      · rename_i hmore
        have hbatch : min (numCandles - collected.length) maxCandles ≤ numCandles - collected.length := min_le_left _ _
        have hpos : 0 < min (numCandles - collected.length) maxCandles := lt_min (by omega) (by decide)
        simp only [page_filter h] at hrows
        generalize min (numCandles - collected.length) maxCandles = batchSize at hrows hbatch hpos
        have hsplit : (v.window lo hi).rdrop batchSize ++ (v.window lo hi).rtake batchSize = v.window lo hi :=
          rdrop_append_rtake
        have hsize : ((v.window lo hi).rtake batchSize).length = min batchSize (v.window lo hi).length := length_rtake
        split at hrows
        · cases hrows
        · generalize hpage : (v.window lo hi).rtake batchSize = page at hrows hsplit hsize
          cases page with
          | nil =>
              rw [Except.ok.injEq] at hrows
              subst hrows
              rw [List.length_nil] at hsize
              have hnone : v.window lo hi = [] := List.length_eq_zero_iff.mp (by omega)
              simp [hnone, List.rtake]
          | cons first batch =>
              simp only at hrows
              have hbefore : v.window lo (first.openTime - 1) = (v.window lo hi).rdrop batchSize :=
                between_before h hsplit.symm
              split at hrows
              · rename_i hshort
                rw [Except.ok.injEq] at hrows
                subst hrows
                rw [← hpage, rtake_of_length_le (by omega), rtake_of_length_le (by omega)]
              · rename_i hfull
                have hlength : (first :: batch).length = batchSize := by omega
                have hmissing : (v.window lo hi).rtake (numCandles - collected.length) ++ collected =
                    ((v.window lo hi).rdrop batchSize).rtake
                      (numCandles - (first :: batch ++ collected).length) ++ (first :: batch ++ collected) := by
                  rw [List.length_append, hlength, ← List.append_assoc, ← rtake_append hlength, hsplit]
                  congr 2
                  omega
                rw [hmissing]
                split at hrows
                · rename_i hbound
                  rw [Except.ok.injEq] at hrows
                  subst hrows
                  have hnone : (v.window lo hi).rdrop batchSize = [] := by
                    rw [← hbefore, List.eq_nil_iff_forall_not_mem]
                    intro k hk
                    have hlo := (mem_between.mp hk).2
                    simp only [Option.any_some, decide_eq_true_eq] at hbound
                    omega
                  simp [hnone, List.rtake]
                · rw [← hbefore]
                  refine ih (i + 1) ?_ ?_ hrows
                  · rw [List.length_append, hlength]
                    omega
                  · rw [List.length_append, hlength]
                    omega
      · rw [Except.ok.injEq] at hrows
        subst hrows
        have : numCandles - collected.length = 0 := by omega
        simp [this, List.rtake]

theorem fetchPaginated_eq (h : Ascending Kline.openTime v.klines)
    (hrows : fetchPaginated v (some lo) (some hi) numCandles = .ok rows) :
    rows = (v.window lo hi).rtake numCandles := by
  have := paginate_eq h numCandles 0 (by simp) (by simp) hrows
  simpa using this

/-- Where every request is answered the walk comes to its end. -/
theorem paginate_ok (h : ∀ i, v.failure i = none) (startTime endTime : Option ℤ) (n i : ℕ) :
    ∃ rows, paginate v startTime numCandles n i endTime collected = .ok rows := by
  induction n generalizing i endTime collected with
  | zero => exact ⟨collected, rfl⟩
  | succ n ih =>
      rw [paginate]
      split
      · simp only [h i]
        split
        · exact ⟨_, rfl⟩
        · split
          · exact ⟨_, rfl⟩
          · split
            · exact ⟨_, rfl⟩
            · exact ih ..
      · exact ⟨_, rfl⟩

/-! ## Bounds that need not be there -/

/-- The candles of a venue within the bounds that there are. -/
def Venue.bounded (v : Venue) (startTime endTime : Option ℤ) : List Kline :=
  v.klines.filter fun k => startTime.all (· ≤ k.openTime) ∧ endTime.all (k.openTime ≤ ·)

theorem exists_bounds (ks : List Kline) : ∃ lo hi, ∀ k ∈ ks, lo < k.openTime ∧ k.openTime ≤ hi := by
  induction ks with
  | nil => exact ⟨0, 0, fun k hk => absurd hk List.not_mem_nil⟩
  | cons k ks ih =>
      obtain ⟨lo, hi, hks⟩ := ih
      refine ⟨min lo (k.openTime - 1), max hi k.openTime, fun a ha => ?_⟩
      rcases List.mem_cons.mp ha with rfl | ha
      · exact ⟨by omega, le_max_right _ _⟩
      · have := hks a ha
        omega

theorem page_subset (limit : ℕ) (endTime : Option ℤ) : v.page limit endTime ⊆ v.klines := by
  intro k hk
  exact (List.mem_filter.mp (List.mem_of_mem_drop hk)).1

/-- A start before every candle leaves out none. -/
theorem paginate_start (h : ∀ k ∈ v.klines, lo < k.openTime) (n i : ℕ) (endTime : Option ℤ) :
    paginate v none numCandles n i endTime collected = paginate v (some lo) numCandles n i endTime collected := by
  induction n generalizing i endTime collected with
  | zero => rfl
  | succ n ih =>
      have hpage (limit : ℕ) : (v.page limit endTime).filter (fun k => (none : Option ℤ).all (· ≤ k.openTime)) =
          (v.page limit endTime).filter fun k => (some lo).all (· ≤ k.openTime) := by
        refine List.filter_congr fun k hk => ?_
        simpa using (h k (page_subset limit endTime hk)).le
      rw [paginate, paginate]
      simp only [hpage]
      split
      · split
        · rfl
        · split
          · rfl
          · rename_i first batch heq
            have hfirst : lo < first.openTime := by
              have hmem : first ∈ first :: batch := List.mem_cons_self
              rw [← heq] at hmem
              exact h first (page_subset _ _ (List.mem_filter.mp hmem).1)
            have hbound : ¬ first.openTime - 1 < lo := by omega
            simp only [ih, Option.any_none, Option.any_some, hbound, decide_false]
      · rfl

/-- An end behind every candle leaves out none. -/
theorem paginate_end (h : ∀ k ∈ v.klines, k.openTime ≤ hi) (startTime : Option ℤ) (n i : ℕ) :
    paginate v startTime numCandles n i none collected = paginate v startTime numCandles n i (some hi) collected := by
  have hpage (limit : ℕ) : v.page limit none = v.page limit (some hi) := by
    have hall : v.klines.filter (fun k => (some hi).all (k.openTime ≤ ·)) = v.klines :=
      List.filter_eq_self.mpr fun k hk => by simpa using h k hk
    rw [Venue.page, Venue.page, hall]
    simp
  cases n with
  | zero => rfl
  | succ n =>
      rw [paginate, paginate]
      simp only [hpage]

/-- Bounds to put in the place of those that are missing. -/
theorem exists_window (v : Venue) (startTime endTime : Option ℤ) :
    ∃ lo hi, v.bounded startTime endTime = v.window lo hi ∧ ∀ numCandles n i collected,
      paginate v startTime numCandles n i endTime collected =
        paginate v (some lo) numCandles n i (some hi) collected := by
  obtain ⟨lo, hi, hall⟩ := exists_bounds v.klines
  have hstart : ∃ lo', (∀ k ∈ v.klines, startTime.all (· ≤ k.openTime) = decide (lo' ≤ k.openTime)) ∧
      ∀ numCandles n i endTime collected, paginate v startTime numCandles n i endTime collected =
        paginate v (some lo') numCandles n i endTime collected := by
    cases startTime with
    | none =>
        refine ⟨lo, fun k hk => ?_, fun numCandles n i endTime collected => ?_⟩
        · simpa using (hall k hk).1.le
        · exact paginate_start (fun k hk => (hall k hk).1) n i endTime
    | some lo' => exact ⟨lo', fun k _ => rfl, fun _ _ _ _ _ => rfl⟩
  have hend : ∃ hi', (∀ k ∈ v.klines, endTime.all (k.openTime ≤ ·) = decide (k.openTime ≤ hi')) ∧
      ∀ startTime numCandles n i collected, paginate v startTime numCandles n i endTime collected =
        paginate v startTime numCandles n i (some hi') collected := by
    cases endTime with
    | none =>
        refine ⟨hi, fun k hk => ?_, fun startTime numCandles n i collected => ?_⟩
        · simpa using (hall k hk).2
        · exact paginate_end (fun k hk => (hall k hk).2) startTime n i
    | some hi' => exact ⟨hi', fun k _ => rfl, fun _ _ _ _ _ => rfl⟩
  obtain ⟨lo', hlo, hfrom⟩ := hstart
  obtain ⟨hi', hhi, hto⟩ := hend
  refine ⟨lo', hi', ?_, fun numCandles n i collected => ?_⟩
  · refine List.filter_congr fun k hk => ?_
    simp [hlo k hk, hhi k hk]
  · rw [hfrom, hto]

/-- **The newest candles within the bounds,** however many more requests the loop may make. -/
theorem paginate_bounded (h : Ascending Kline.openTime v.klines) (hanswers : ∀ i, v.failure i = none)
    (startTime endTime : Option ℤ) {n : ℕ} (hn : numCandles ≤ n) :
    paginate v startTime numCandles n 0 endTime [] = .ok ((v.bounded startTime endTime).rtake numCandles) := by
  obtain ⟨lo, hi, hbounded, hsame⟩ := exists_window v startTime endTime
  obtain ⟨rows, hrows⟩ : ∃ rows, paginate v (some lo) numCandles n 0 (some hi) [] = .ok rows :=
    paginate_ok hanswers (some lo) (some hi) n 0
  have heq := paginate_eq h n 0 (by simpa using hn) (by simp) hrows
  rw [hsame, hrows, hbounded, heq]
  simp

/-! ## Candles from a venue -/

theorem rtake_ne_nil {α : Type} {l : List α} {n : ℕ} (hl : l ≠ []) (hn : 0 < n) : l.rtake n ≠ [] := by
  intro hnil
  have hlength : (l.rtake n).length = min n l.length := length_rtake
  rw [hnil, List.length_nil] at hlength
  have := List.length_pos_iff.mpr hl
  omega

theorem fetchRows_eq (hcom : Ascending Kline.openTime com.klines) (hus : Ascending Kline.openTime us.klines)
    (h : fetchRows com us defaultBase numCandles (some lo) (some hi) = .ok rows) :
    ∃ v, (v = com ∨ v = us) ∧ rows = (v.window lo hi).rtake numCandles := by
  unfold fetchRows at h
  split at h
  · rename_i rows' hrows
    cases h
    exact ⟨com, Or.inl rfl, fetchPaginated_eq hcom hrows⟩
  · split at h
    · exact ⟨us, Or.inr rfl, fetchPaginated_eq hus h⟩
    · cases h

theorem getCandles_eq (hcom : Ascending Kline.openTime com.klines) (hus : Ascending Kline.openTime us.klines)
    (h : getCandles com us defaultBase numCandles (some lo) (some hi) = .ok df) :
    ∃ v, (v = com ∨ v = us) ∧ v.window lo hi ≠ [] ∧
      df = .ofRows (((v.window lo hi).rtake numCandles).map Kline.toRow) := by
  unfold getCandles at h
  split at h
  · cases h
  · cases h
  · rename_i rows hne hrows
    cases h
    obtain ⟨v, hv, rfl⟩ := fetchRows_eq hcom hus hrows
    refine ⟨v, hv, ?_, ?_⟩
    · intro hnone
      rw [hnone] at hne
      exact hne (by simp [List.rtake])
    · rw [rtake_of_length_le (l := (v.window lo hi).rtake numCandles)]
      rw [length_rtake]
      exact min_le_left _ _

theorem getCandles_ok (hcom : Ascending Kline.openTime com.klines) (hfailure : ∀ i, com.failure i = none)
    (hwindow : com.window lo hi ≠ []) (hnum : 0 < numCandles) :
    ∃ df, getCandles com us defaultBase numCandles (some lo) (some hi) = .ok df := by
  obtain ⟨rows, hrows⟩ : ∃ rows, fetchPaginated com (some lo) (some hi) numCandles = .ok rows :=
    paginate_ok hfailure ..
  have hne : rows ≠ [] := by
    rw [fetchPaginated_eq hcom hrows]
    exact rtake_ne_nil hwindow hnum
  obtain ⟨k, rest, rfl⟩ := List.exists_cons_of_ne_nil hne
  refine ⟨.ofRows (((k :: rest).rtake numCandles).map Kline.toRow), ?_⟩
  simp only [getCandles, fetchRows, hrows]

/-! ## How many candles a window holds -/

theorem intervalMs_pos (h : intervalMs interval = some ms) : 0 < ms := by
  unfold intervalMs at h
  split at h <;> cases h <;> decide

theorem length_window (hms : 0 < ms) (h : Spaced Kline.openTime ms v.klines) :
    (v.window lo hi).length ≤ estimatedCandles lo hi ms := by
  rcases eq_or_ne (v.window lo hi) [] with hnone | hne
  · simp [hnone]
  · have hspaced : Spaced Kline.openTime ms (v.window lo hi) := h.sublist List.filter_sublist
    have := hspaced.length_le hms (fun k hk => (mem_between.mp hk).2.1) (fun k hk => (mem_between.mp hk).2.2) hne
    have hmax := le_max_left ((hi - lo) / ms) 1
    unfold estimatedCandles
    omega

/-- The estimate never cuts a window, the cap does. -/
theorem rtake_estimated (hms : 0 < ms) (h : Spaced Kline.openTime ms v.klines) :
    (v.window lo hi).rtake (min (estimatedCandles lo hi ms) candleCap) = (v.window lo hi).rtake candleCap := by
  have hlength : (v.window lo hi).length ≤ estimatedCandles lo hi ms := length_window hms h
  rcases Nat.le_total candleCap (estimatedCandles lo hi ms) with hcap | hcap
  · rw [Nat.min_eq_right hcap]
  · rw [Nat.min_eq_left hcap, rtake_of_length_le hlength, rtake_of_length_le (hlength.trans hcap)]

/-- The pair as the two exchanges list it. -/
def World.venues (w : World) (symbol interval : Text) : List Venue :=
  [w.binanceCom (w.upper symbol) interval, w.binanceUs (w.upper symbol) interval]

theorem fetchBinanceRange_eq (h : fetchBinanceRange w symbol interval start stop = .ok df) :
    ∃ ms v, intervalMs interval = some ms ∧ v ∈ w.venues symbol interval ∧ Spaced Kline.openTime ms v.klines ∧
      v.window (toMs start) (toMs stop) ≠ [] ∧
        df = .ofRows (((v.window (toMs start) (toMs stop)).rtake candleCap).map Kline.toRow) := by
  unfold fetchBinanceRange at h
  split at h
  · cases h
  · rename_i ms hms
    have hpos := intervalMs_pos hms
    obtain ⟨hcom, hus⟩ := w.spaced (w.upper symbol) interval ms hms
    obtain ⟨v, hv, hne, rfl⟩ := getCandles_eq (Spaced.ascending hcom hpos) (Spaced.ascending hus hpos) h
    have hspaced : Spaced Kline.openTime ms v.klines := by
      rcases hv with rfl | rfl
      · exact hcom
      · exact hus
    refine ⟨ms, v, hms, ?_, hspaced, hne, by rw [rtake_estimated hpos hspaced]⟩
    rcases hv with rfl | rfl <;> simp [World.venues]

theorem fetchBinanceRange_ok (hinterval : (intervalMs interval).isSome)
    (hfailure : ∀ i, (w.binanceCom (w.upper symbol) interval).failure i = none)
    (hwindow : (w.binanceCom (w.upper symbol) interval).window (toMs start) (toMs stop) ≠ []) :
    ∃ df, fetchBinanceRange w symbol interval start stop = .ok df := by
  obtain ⟨ms, hms⟩ := Option.isSome_iff_exists.mp hinterval
  have hcom := (w.spaced (w.upper symbol) interval ms hms).1
  simp only [fetchBinanceRange, hms]
  refine getCandles_ok (Spaced.ascending hcom (intervalMs_pos hms)) hfailure hwindow (lt_min ?_ (by decide))
  have := le_max_right ((toMs stop - toMs start) / ms) 1
  unfold estimatedCandles
  omega

theorem toMs_near (dt : ℤ) : 1000 * toMs dt - 999 ≤ dt ∧ dt ≤ 1000 * toMs dt + 999 := by
  have hsplit : 1000 * toMs dt + dt.tmod 1000 = dt := Int.mul_tdiv_add_tmod dt 1000
  have hupper : dt.tmod 1000 < 1000 := Int.tmod_lt_of_pos dt (by decide)
  have hlower : -1000 < dt.tmod 1000 := Int.lt_tmod_of_pos dt (by decide)
  omega

/-- A window of the documented length stays below the cap. -/
theorem length_window_of_year (hinterval : intervalMs interval = some ms) (h : Spaced Kline.openTime ms v.klines)
    {lookbackDays : ℕ} (hdays : lookbackDays ≤ 365) :
    (v.window (toMs (stop - daysUs lookbackDays)) (toMs stop)).length ≤ candleCap := by
  have hms : 900000 ≤ ms := by
    unfold intervalMs at hinterval
    split at hinterval <;> cases hinterval <;> decide
  have hlength : (v.window (toMs (stop - daysUs lookbackDays)) (toMs stop)).length ≤
      estimatedCandles (toMs (stop - daysUs lookbackDays)) (toMs stop) ms := length_window (by omega) h
  have hspan : toMs stop - toMs (stop - daysUs lookbackDays) ≤ 365 * 86400000 + 1 := by
    have hstop := (toMs_near stop).1
    have hstart := (toMs_near (stop - daysUs lookbackDays)).2
    unfold daysUs at *
    omega
  have hcount : (toMs stop - toMs (stop - daysUs lookbackDays)) / ms < 40000 :=
    Int.ediv_lt_of_lt_mul (by omega) (by omega)
  unfold estimatedCandles at hlength
  unfold candleCap
  omega

/-! ## Which source serves -/

variable {market : Text} {lookbackDays : ℕ} {untilTime : Option ℤ}

/-- The frame the bridge gave, trimmed to the window. -/
def FromBridge (w : World) (market symbol interval : Text) (lookbackDays : ℕ) (stop : ℤ) (df : Frame) : Prop :=
  (w.tradingviewEnabled && w.bridgeHealthy) = true ∧
    fetchTradingviewRange w symbol interval (stop - daysUs lookbackDays) stop market = .ok df

theorem fetchHistoricalData_cases (h : fetchHistoricalData w market symbol interval lookbackDays untilTime = .ok df) :
    FromBridge w market symbol interval lookbackDays (untilTime.getD w.now) df ∨
      fetchFallback w market symbol interval lookbackDays (untilTime.getD w.now - daysUs lookbackDays)
        (untilTime.getD w.now) = .ok df := by
  simp only [fetchHistoricalData] at h
  split at h
  · rename_i hbridge
    split at h
    · rename_i df' hrange
      cases h
      exact Or.inl ⟨hbridge, hrange⟩
    · exact Or.inr h
  · exact Or.inr h

theorem fetchHistoricalData_ok
    (h : fetchFallback w market symbol interval lookbackDays (untilTime.getD w.now - daysUs lookbackDays)
      (untilTime.getD w.now) = .ok df) :
    ∃ df, fetchHistoricalData w market symbol interval lookbackDays untilTime = .ok df := by
  simp only [fetchHistoricalData]
  split
  · split
    · exact ⟨_, rfl⟩
    · exact ⟨df, h⟩
  · exact ⟨df, h⟩

theorem fetchFallback_binance (lookbackDays : ℕ) :
    fetchFallback w (marketValue .binance) symbol interval lookbackDays start stop =
      fetchBinanceRange w symbol interval start stop := by
  simp [fetchFallback]

theorem fetchFallback_yahoo {i : Interval} (h : parseInterval interval = some i) :
    fetchFallback w (marketValue .yahoo) symbol interval lookbackDays start stop =
      fetchYahooRecent w symbol i lookbackDays := by
  have hmarket : marketValue .yahoo ≠ marketValue .binance := by decide
  simp [fetchFallback, hmarket, h]

end CryptoAggHarmonic.Infra
