import Mathlib.Data.List.ReduceOption
import Mathlib.Tactic.Linarith
import CryptoAggHarmonic.Lib.Causal
import CryptoAggHarmonic.RsiTrend.Signals

/-!
# The indicators and the scan on a prefix of the frame

Every indicator column is causal, so a row has the same values in every frame that begins with the same bars, and the
scan gives the same on it.
-/

namespace CryptoAggHarmonic.RsiTrend

open Domain Causality

/-! ## Causal columns -/

theorem causal_ewm (α : ℚ) : Causal (ewm α) := causal_recurrence rfl fun _ _ => rfl

theorem causal_rsiOfChanges (window : ℕ) : Causal (rsiOfChanges window) :=
  ((causal_ewm _).comp (causal_map _)).zipWith rsiCell ((causal_ewm _).comp (causal_map _))

theorem causal_rsiSeries (window : ℕ) : Causal fun closes => rsiSeries closes window :=
  (causal_rsiOfChanges window).pairs (h := fun cur prev => cur - prev) rfl fun _ _ => rfl

theorem causal_trueRanges : Causal trueRanges :=
  (causal_map id).pairs (h := trueRange) rfl fun x xs => by rw [List.map_id]; rfl

theorem causal_shiftRsi : Causal shiftRsi :=
  (causal_map id).pairs (h := fun _ prev => prev) rfl fun x xs => by rw [List.map_id]; rfl

theorem causal_computeIndicators : Causal computeIndicators := by
  have hclose : Causal (List.map Row.close) := causal_map _
  have hema (span : ℕ) : Causal fun df : List Row => emaSeries (df.map Row.close) span := (causal_ewm _).comp hclose
  have hrsi : Causal fun df : List Row => rsiSeries (df.map Row.close) RSI_WINDOW := (causal_rsiSeries _).comp hclose
  have hatr : Causal fun df : List Row => atrSeries df := (causal_ewm _).comp causal_trueRanges
  exact (((((causal_map _).zipWith _ (hema _)).zipWith _ (hema _)).zipWith _ hrsi).zipWith _
    (causal_shiftRsi.comp hrsi)).zipWith _ hatr

/-! ## Lengths -/

theorem length_ewm (α : ℚ) (xs : List ℚ) : (ewm α xs).length = xs.length := by
  cases xs <;> simp [ewm]

theorem length_diffs (x : ℚ) (xs : List ℚ) : (diffs (x :: xs)).length = xs.length := by
  simp [diffs]

theorem length_rsiSeries (closes : List ℚ) (window : ℕ) : (rsiSeries closes window).length = closes.length := by
  cases closes with
  | nil => rfl
  | cons x xs => simp [rsiSeries, rsiOfChanges, length_ewm, length_diffs]

theorem length_shiftRsi (cells : List Cell) : (shiftRsi cells).length = cells.length := by
  cases cells <;> simp [shiftRsi]

theorem length_atrSeries (df : List Row) (window : ℕ) : (atrSeries df window).length = df.length := by
  cases df <;> simp [atrSeries, trueRanges, length_ewm]

theorem length_computeIndicators (df : List Row) : (computeIndicators df).length = df.length := by
  simp [computeIndicators, assign, emaSeries, ewmSpan, length_ewm, length_rsiSeries, length_shiftRsi,
    length_atrSeries]

/-! ## Where the RSI is missing -/

theorem ewm_succ (α : ℚ) (xs : List ℚ) (k : ℕ) (x : ℚ) (hx : xs[k + 1]? = some x) :
    ∃ y, (ewm α xs)[k]? = some y ∧ (ewm α xs)[k + 1]? = some ((1 - α) * y + α * x) := by
  cases xs with
  | nil => cases hx
  | cons x₀ xs =>
      rw [List.getElem?_cons_succ] at hx
      obtain ⟨hk, -⟩ := List.getElem?_eq_some_iff.mp hx
      refine ⟨_, List.getElem?_scanl .. |>.trans (if_pos hk.le), ?_⟩
      rw [ewm, List.getElem?_scanl, if_pos (show k + 1 ≤ xs.length by omega), List.take_add_one, hx,
        Option.toList_some, List.foldl_append]
      rfl

theorem ewm_nonneg {α : ℚ} (h₀ : 0 ≤ α) (h₁ : α ≤ 1) {xs : List ℚ} (hxs : ∀ x ∈ xs, 0 ≤ x) (k : ℕ) (y : ℚ)
    (hy : (ewm α xs)[k]? = some y) : 0 ≤ y := by
  induction k generalizing y with
  | zero =>
      cases xs with
      | nil => cases hy
      | cons x xs =>
          simp only [ewm, List.getElem?_scanl, List.take_zero, List.foldl_nil, zero_le, ↓reduceIte,
            Option.some.injEq] at hy
          exact hy ▸ hxs x (by simp)
  | succ k ih =>
      obtain ⟨hk, -⟩ := List.getElem?_eq_some_iff.mp hy
      rw [length_ewm] at hk
      obtain ⟨z, hz, hnext⟩ := ewm_succ α xs k xs[k + 1] (List.getElem?_eq_getElem hk)
      rw [hnext] at hy
      have hx := hxs xs[k + 1] (List.getElem_mem hk)
      have hzpos := ih z hz
      rw [← Option.some.inj hy]
      exact add_nonneg (mul_nonneg (by linarith) hzpos) (mul_nonneg h₀ hx)

/-- An average of values that are not negative is zero only if it has been zero all along. -/
theorem ewm_eq_zero_before {α : ℚ} (h₀ : 0 ≤ α) (h₁ : α < 1) {xs : List ℚ} (hxs : ∀ x ∈ xs, 0 ≤ x) {k j : ℕ}
    (hkj : k ≤ j) (hj : (ewm α xs)[j]? = some 0) : (ewm α xs)[k]? = some 0 := by
  induction j with
  | zero => rwa [Nat.le_zero.mp hkj]
  | succ j ih =>
      rcases Nat.lt_or_eq_of_le hkj with hlt | rfl
      · refine ih (by omega) ?_
        obtain ⟨hlen, -⟩ := List.getElem?_eq_some_iff.mp hj
        rw [length_ewm] at hlen
        obtain ⟨y, hy, hnext⟩ := ewm_succ α xs j xs[j + 1] (List.getElem?_eq_getElem hlen)
        rw [hnext, Option.some.injEq] at hj
        have hypos := ewm_nonneg h₀ h₁.le hxs j y hy
        have hx := mul_nonneg h₀ (hxs xs[j + 1] (List.getElem_mem hlen))
        have hfactor := mul_nonneg (show 0 ≤ 1 - α by linarith) hypos
        have hzero : (1 - α) * y = 0 := by linarith
        rcases mul_eq_zero.mp hzero with h | h
        · linarith
        · rw [hy, h]
      · exact hj

theorem rsiCell_eq_na {gain loss : ℚ} : rsiCell gain loss = .na ↔ loss = 0 ∧ gain ≤ 0 := by
  unfold rsiCell
  split_ifs with hloss hgain
  · simp [hgain]
  · simp [hloss, not_lt.mp hgain]
  · simp [hloss]

/-- A bar without an RSI has none before it but the first, which is NaN. -/
theorem rsiSeries_na_before {closes : List ℚ} {window : ℕ} (hwindow : 1 < window) {k j : ℕ} (hk : 0 < k) (hkj : k ≤ j)
    (hj : (rsiSeries closes window)[j]? = some .na) : (rsiSeries closes window)[k]? = some .na := by
  cases closes with
  | nil => cases hj
  | cons x xs =>
      obtain ⟨k, rfl⟩ : ∃ i, k = i + 1 := ⟨k - 1, by omega⟩
      obtain ⟨j, rfl⟩ : ∃ i, j = i + 1 := ⟨j - 1, by omega⟩
      have hα₀ : (0 : ℚ) ≤ 1 / window := by positivity
      have hα₁ : (1 : ℚ) / window < 1 := by
        rw [div_lt_one (by exact_mod_cast Nat.zero_lt_of_lt hwindow)]
        exact_mod_cast hwindow
      simp only [rsiSeries, rsiOfChanges, List.getElem?_cons_succ, List.getElem?_zipWith] at hj ⊢
      have hgains : ∀ d ∈ (diffs (x :: xs)).map (max · 0), 0 ≤ d := by
        intro d hd
        obtain ⟨e, -, rfl⟩ := List.mem_map.mp hd
        exact le_max_right e 0
      have hlosses : ∀ d ∈ (diffs (x :: xs)).map fun d => -min d 0, 0 ≤ d := by
        intro d hd
        obtain ⟨e, -, rfl⟩ := List.mem_map.mp hd
        linarith [min_le_right e 0]
      split at hj
      · rename_i gain loss hgain hloss
        obtain ⟨hl, hg⟩ := rsiCell_eq_na.mp (Option.some.inj hj)
        have hg0 : gain = 0 := le_antisymm hg (ewm_nonneg hα₀ hα₁.le hgains j gain hgain)
        rw [hg0] at hgain
        rw [hl] at hloss
        rw [ewm_eq_zero_before hα₀ hα₁ hgains (by omega) hgain, ewm_eq_zero_before hα₀ hα₁ hlosses (by omega) hloss]
        exact congrArg some (rsiCell_eq_na.mpr ⟨rfl, le_refl _⟩)
      · cases hj

/-! ## The scan -/

section

variable {ε α β : Type} {f : α → Except ε β} {xs : List α} {ys : List β} {e : ε}

theorem mapM_eq_ok (h : xs.mapM f = .ok ys) : List.Forall₂ (fun x y => f x = .ok y) xs ys := by
  induction xs generalizing ys with
  | nil =>
      cases h
      exact .nil
  | cons x xs ih =>
      rw [List.mapM_cons] at h
      cases hx : f x with
      | error e => simp [hx, bind, Except.bind] at h
      | ok y =>
          cases hxs : xs.mapM f with
          | error e => simp [hx, hxs, bind, Except.bind] at h
          | ok zs =>
              simp only [hx, hxs, bind, Except.bind, pure, Except.pure, Except.ok.injEq] at h
              exact h ▸ .cons hx (ih hxs)

theorem mapM_eq_error (h : xs.mapM f = .error e) : ∃ x ∈ xs, f x = .error e := by
  induction xs with
  | nil => cases h
  | cons x xs ih =>
      rw [List.mapM_cons] at h
      cases hx : f x with
      | error e' =>
          simp only [hx, bind, Except.bind, Except.error.injEq] at h
          exact ⟨x, List.mem_cons_self, h ▸ hx⟩
      | ok y =>
          cases hxs : xs.mapM f with
          | error e' =>
              simp only [hx, hxs, bind, Except.bind, Except.error.injEq] at h
              obtain ⟨z, hz, hfz⟩ := ih (h ▸ hxs)
              exact ⟨z, List.mem_cons_of_mem _ hz, hfz⟩
          | ok zs => simp [hx, hxs, bind, Except.bind, pure, Except.pure] at h

end

variable {o : ScanSettings} {row : IndicatorRow} {i m : ℕ}

theorem detectAt_index {s : Signal} (h : detectAt o row i = .ok (some s)) : s.index = i := by
  unfold detectAt at h
  split at h
  · cases h
  · cases h
  · cases h
  · simp only [Except.ok.injEq] at h
    split_ifs at h
    · unfold longEntry at h
      simp only at h
      split_ifs at h
      rw [← Option.some.inj h]
    · unfold shortEntry at h
      simp only at h
      split_ifs at h
      rw [← Option.some.inj h]

theorem detectAt_eq_error {e : TypeError} : detectAt o row i = .error e ↔ row.rsi = .na ∧ e = {} := by
  unfold detectAt
  split
  · rename_i hna
    simp [hna, eq_comm]
  · rename_i hnan
    simp [hnan]
  · rename_i hnum _
    simp [hnum]
  · rename_i hnum _
    simp [hnum]

theorem scan_eq_ok {rows : List (IndicatorRow × ℕ)} {signals : List Signal} (h : scan o rows = .ok signals) :
    ∃ found, List.Forall₂ (fun x y => detectAt o x.1 x.2 = .ok y) rows found ∧
      signals = found.reduceOption.filter fun s => s.qualityScore ≥ max 0 (min o.minQualityScore 100) := by
  unfold scan at h
  cases hfound : rows.mapM fun x => detectAt o x.1 x.2 with
  | error e => simp [hfound, bind, Except.bind] at h
  | ok found =>
      simp only [hfound, bind, Except.bind, pure, Except.pure, Except.ok.injEq] at h
      exact ⟨found, mapM_eq_ok hfound, h.symm⟩

theorem scan_eq_error {rows : List (IndicatorRow × ℕ)} {e : TypeError} (h : scan o rows = .error e) :
    ∃ x ∈ rows, x.1.rsi = .na ∧ e = {} := by
  unfold scan at h
  cases hfound : rows.mapM fun x => detectAt o x.1 x.2 with
  | error e' =>
      simp only [hfound, bind, Except.bind, Except.error.injEq] at h
      obtain ⟨x, hx, hfx⟩ := mapM_eq_error hfound
      obtain ⟨hna, rfl⟩ := detectAt_eq_error.mp hfx
      exact ⟨x, hx, hna, h.symm⟩
  | ok found => simp [hfound, bind, Except.bind, pure, Except.pure] at h

theorem scan_of_na {rows : List (IndicatorRow × ℕ)} {x : IndicatorRow × ℕ} (hx : x ∈ rows) (hna : x.1.rsi = .na) :
    scan o rows = .error {} := by
  cases h : scan o rows with
  | error e =>
      obtain ⟨-, -, -, rfl⟩ := scan_eq_error h
      rfl
  | ok signals =>
      obtain ⟨found, hfound, -⟩ := scan_eq_ok h
      clear h
      induction hfound with
      | nil => cases hx
      | cons hy _ ih =>
          rcases List.mem_cons.mp hx with rfl | hx
          · rw [detectAt_eq_error.mpr ⟨hna, rfl⟩] at hy
            cases hy
          · exact ih hx

theorem scan_append {xs ys : List (IndicatorRow × ℕ)} {signals : List Signal} (h : scan o (xs ++ ys) = .ok signals) :
    ∃ a b, scan o xs = .ok a ∧ scan o ys = .ok b ∧ signals = a ++ b := by
  unfold scan at h ⊢
  rw [List.mapM_append] at h
  cases hxs : xs.mapM fun x => detectAt o x.1 x.2 with
  | error e => simp [hxs, bind, Except.bind] at h
  | ok found =>
      cases hys : ys.mapM fun x => detectAt o x.1 x.2 with
      | error e => simp [hxs, hys, bind, Except.bind] at h
      | ok later =>
          simp only [hxs, hys, bind, Except.bind, pure, Except.pure, Except.ok.injEq, List.reduceOption_append,
            List.filter_append] at h
          exact ⟨_, _, rfl, rfl, h.symm⟩

/-- The signals found on rows carry the positions of those rows. -/
theorem scan_index {rows : List (IndicatorRow × ℕ)} {signals : List Signal} {p : ℕ → Prop}
    (h : scan o rows = .ok signals) (hrows : ∀ x ∈ rows, p x.2) : ∀ s ∈ signals, p s.index := by
  obtain ⟨found, hfound, rfl⟩ := scan_eq_ok h
  intro s hs
  have hmem : some s ∈ found := List.reduceOption_mem_iff.mp (List.mem_filter.mp hs).1
  clear hs h
  induction hfound with
  | nil => cases hmem
  | cons hx _ ih =>
      rcases List.mem_cons.mp hmem with rfl | hmem
      · rw [detectAt_index hx]
        exact hrows _ List.mem_cons_self
      · exact ih (fun x hx => hrows x (List.mem_cons_of_mem _ hx)) hmem

/-- The rows to scan, cut at `m`: those of the prefix, then those from `m` on. -/
theorem zipIdx_drop_split {α : Type} (data : List α) {k : ℕ} (hkm : k ≤ m) :
    ∃ later, data.zipIdx.drop k = (data.take m).zipIdx.drop k ++ later ∧ ∀ x ∈ later, m ≤ x.2 := by
  rcases Nat.lt_or_ge data.length m with hlen | hlen
  · exact ⟨[], by rw [List.take_of_length_le hlen.le, List.append_nil], by simp⟩
  · have htake : (data.take m).length = m := by rw [List.length_take, Nat.min_eq_left hlen]
    refine ⟨(data.drop m).zipIdx m, ?_, fun x hx => List.le_snd_of_mem_zipIdx hx⟩
    conv_lhs => rw [← List.take_append_drop m data, List.zipIdx_append, htake, Nat.zero_add]
    exact List.drop_append_of_le_length (by rw [List.length_zipIdx, htake]; exact hkm)

theorem mem_zipIdx_drop {α : Type} {data : List α} {x : α × ℕ} {k : ℕ} :
    x ∈ data.zipIdx.drop k ↔ k ≤ x.2 ∧ data[x.2]? = some x.1 := by
  rw [List.mem_iff_getElem?]
  constructor
  · rintro ⟨j, hj⟩
    rw [List.getElem?_drop, List.getElem?_zipIdx, Option.map_eq_some_iff] at hj
    obtain ⟨a, ha, rfl⟩ := hj
    exact ⟨by simp, by simpa using ha⟩
  · rintro ⟨hk, hx⟩
    refine ⟨x.2 - k, ?_⟩
    rw [List.getElem?_drop, List.getElem?_zipIdx, Nat.add_sub_cancel' hk, hx]
    simp

theorem getElem?_assign {α β : Type} {rows : List (α → β)} {column : List α} {b : β}
    (h : (assign rows column)[i]? = some b) : ∃ f x, rows[i]? = some f ∧ column[i]? = some x ∧ b = f x := by
  rw [assign, List.getElem?_zipWith] at h
  split at h
  · rename_i f x hf hx
    exact ⟨f, x, hf, hx, (Option.some.inj h).symm⟩
  · cases h

theorem rsi_computeIndicators {df : List Row} (h : (computeIndicators df)[i]? = some row) :
    (rsiSeries (df.map Row.close))[i]? = some row.rsi := by
  obtain ⟨f₄, atr, hf₄, -, rfl⟩ := getElem?_assign h
  obtain ⟨f₃, rsiPrev, hf₃, -, rfl⟩ := getElem?_assign hf₄
  obtain ⟨f₂, rsi, hf₂, hrsi, rfl⟩ := getElem?_assign hf₃
  obtain ⟨f₁, ema50, hf₁, -, rfl⟩ := getElem?_assign hf₂
  obtain ⟨f, ema200, hf, -, rfl⟩ := getElem?_assign hf₁
  rw [List.getElem?_map, Option.map_eq_some_iff] at hf
  obtain ⟨first, -, rfl⟩ := hf
  exact hrsi

/-- A scan that fails on some bar fails on the first bar it reads. -/
theorem rsi_na_at_warmup {df : List Row} (hi : WARMUP_BARS ≤ i) (h : (computeIndicators df)[i]? = some row)
    (hna : row.rsi = .na) : ∃ first, (computeIndicators df)[WARMUP_BARS]? = some first ∧ first.rsi = .na := by
  obtain ⟨hlen, -⟩ := List.getElem?_eq_some_iff.mp h
  have hfirst := List.getElem?_eq_getElem (show WARMUP_BARS < (computeIndicators df).length by omega)
  have hrsi := rsi_computeIndicators h
  rw [hna] at hrsi
  have hall := rsiSeries_na_before (by decide) (by decide) hi hrsi
  rw [rsi_computeIndicators hfirst, Option.some.injEq] at hall
  exact ⟨_, hfirst, hall⟩

/-! ## The scan on a prefix -/

theorem detectSignalsCore_short {df : List Row} (h : df.length ≤ WARMUP_BARS) : detectSignalsCore o df = .ok [] :=
  if_pos h

theorem detectSignalsCore_long {df : List Row} (h : WARMUP_BARS < df.length) :
    detectSignalsCore o df = scan o ((computeIndicators df).zipIdx.drop WARMUP_BARS) :=
  if_neg (not_le.mpr h)

theorem detectSignalsCore_index {df : List Row} {signals : List Signal} (h : detectSignalsCore o df = .ok signals) :
    ∀ s ∈ signals, WARMUP_BARS ≤ s.index ∧ s.index < df.length := by
  rcases Nat.lt_or_ge WARMUP_BARS df.length with hlen | hlen
  · rw [detectSignalsCore_long hlen] at h
    refine scan_index (p := fun i => WARMUP_BARS ≤ i ∧ i < df.length) h fun x hx => ?_
    obtain ⟨hwarm, hget⟩ := mem_zipIdx_drop.mp hx
    obtain ⟨hlt, -⟩ := List.getElem?_eq_some_iff.mp hget
    exact ⟨hwarm, by rwa [length_computeIndicators] at hlt⟩
  · rw [detectSignalsCore_short hlen] at h
    cases h
    simp

theorem detectSignalsCore_take_of_ok {df : List Row} {signals : List Signal}
    (h : detectSignalsCore o df = .ok signals) :
    detectSignalsCore o (df.take m) = .ok (signals.filter (·.index < m)) := by
  have hindex := detectSignalsCore_index h
  rcases Nat.lt_or_ge WARMUP_BARS (df.take m).length with hlen | hlen
  · have hlen' := hlen
    rw [List.length_take, Nat.lt_min] at hlen'
    rw [detectSignalsCore_long hlen'.2] at h
    rw [detectSignalsCore_long hlen, causal_computeIndicators]
    obtain ⟨later, hsplit, hlater⟩ := zipIdx_drop_split (computeIndicators df) hlen'.1.le
    rw [hsplit] at h
    obtain ⟨a, b, ha, hb, rfl⟩ := scan_append h
    have hbefore : ∀ s ∈ a, s.index < m := scan_index (p := (· < m)) ha fun x hx => by
      obtain ⟨hlt, -⟩ := List.getElem?_eq_some_iff.mp (mem_zipIdx_drop.mp hx).2
      rw [List.length_take] at hlt
      omega
    have hafter : ∀ s ∈ b, m ≤ s.index := scan_index hb hlater
    rw [ha, List.filter_append, List.filter_eq_self.mpr (by simpa using hbefore),
      List.filter_eq_nil_iff.mpr (by simpa using hafter), List.append_nil]
  · rw [detectSignalsCore_short hlen, List.filter_eq_nil_iff.mpr]
    intro s hs
    have := hindex s hs
    rw [List.length_take] at hlen
    simp only [decide_eq_true_eq]
    omega

theorem detectSignalsCore_take_of_error {df : List Row} {e : TypeError} (h : detectSignalsCore o df = .error e)
    (hm : WARMUP_BARS < m) : detectSignalsCore o (df.take m) = .error e := by
  have hlen : WARMUP_BARS < df.length := by
    by_contra hnot
    rw [detectSignalsCore_short (not_lt.mp hnot)] at h
    cases h
  rw [detectSignalsCore_long hlen] at h
  obtain ⟨x, hx, hna, rfl⟩ := scan_eq_error h
  obtain ⟨hwarm, hget⟩ := mem_zipIdx_drop.mp hx
  obtain ⟨first, hfirst, hfirstNa⟩ := rsi_na_at_warmup hwarm hget hna
  rw [detectSignalsCore_long (by rw [List.length_take, Nat.lt_min]; exact ⟨hm, hlen⟩), causal_computeIndicators]
  refine scan_of_na (x := (first, WARMUP_BARS)) (mem_zipIdx_drop.mpr ⟨le_refl _, ?_⟩) hfirstNa
  rw [List.getElem?_take_of_lt hm, hfirst]

end CryptoAggHarmonic.RsiTrend
