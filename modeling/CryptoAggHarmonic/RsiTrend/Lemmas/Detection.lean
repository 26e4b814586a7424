import CryptoAggHarmonic.RsiTrend.Lemmas.Prefix
import Mathlib.Tactic.Positivity

/-!
# What the scan finds

The entry rule of a bar, the signal it gives, and the list of the signals of a frame.
-/

namespace CryptoAggHarmonic.RsiTrend

open Domain

variable {o : ScanSettings} {direction : Direction} {row : IndicatorRow} {now prev : ℚ} {i : ℕ} {s : Signal}

/-! ## The entry rule -/

/-- The distance of the stop from the close. -/
def riskAt (o : ScanSettings) (direction : Direction) (row : IndicatorRow) : ℚ :=
  match direction with
  | .long => row.row.close - (row.row.low - o.atrMult * row.atr)
  | .short => row.row.high + o.atrMult * row.atr - row.row.close

/-- The RSI crosses the bound of the zone: up through the lower one, down through the upper one. -/
def crosses (zone : ℚ × ℚ) (direction : Direction) (now prev : ℚ) : Prop :=
  match direction with
  | .long => prev ≤ zone.1 ∧ zone.1 < now
  | .short => zone.2 ≤ prev ∧ now < zone.2

instance (zone : ℚ × ℚ) (direction : Direction) (now prev : ℚ) : Decidable (crosses zone direction now prev) :=
  match direction with
  | .long => inferInstanceAs (Decidable (_ ∧ _))
  | .short => inferInstanceAs (Decidable (_ ∧ _))

/-- The documented rule with its filters, where the RSI of the bar and of the one before are these. -/
structure Enters (o : ScanSettings) (direction : Direction) (row : IndicatorRow) (now prev : ℚ) : Prop where
  rsi : row.rsi = .num now
  rsiPrev : row.rsiPrev.value = some prev
  trend : favours direction row.row.close row.ema200 = true
  cross : crosses (rsiZone o.rsiZone) direction now prev
  shortRsi : direction = .short → 0 < o.shortRsiMin → o.shortRsiMin ≤ prev
  fast : o.useEma50 = true → favours direction row.row.close row.ema50 = true
  color : o.requireCandleColor = true → favours direction row.row.close row.row.openPrice = true
  risk : 0 < riskAt o direction row

/-- `qs` of the bar. -/
def qualityAt (direction : Direction) (row : IndicatorRow) (now prev : ℚ) : ℚ :=
  signalQuality direction row.row.close row.ema200 row.ema50 now prev row.atr row.row.openPrice

/-- What the signal of a bar says. -/
structure SignalOf (o : ScanSettings) (row : IndicatorRow) (i : ℕ) (now prev : ℚ) (s : Signal) : Prop where
  index : s.index = i
  entry : s.entryPrice = row.row.close
  stop : s.stopLoss = s.entryPrice - (if s.direction = .long then 1 else -1) * riskAt o s.direction row
  target : s.targetPrice =
    s.entryPrice + (if s.direction = .long then 1 else -1) * (o.rewardRisk * riskAt o s.direction row)
  quality : s.qualityScore = qualityAt s.direction row now prev

theorem entryFilters_iff : entryFilters o direction row = true ↔
    (o.useEma50 = true → favours direction row.row.close row.ema50 = true) ∧
      (o.requireCandleColor = true → favours direction row.row.close row.row.openPrice = true) := by
  simp only [entryFilters, Bool.and_eq_true, Bool.or_eq_true, Bool.not_eq_true']
  cases o.useEma50 <;> cases o.requireCandleColor <;> simp

/-! ## One bar -/

theorem longEntry_cases (o : ScanSettings) (row : IndicatorRow) (now prev : ℚ) (i : ℕ) :
    (entryFilters o .long row = true ∧ 0 < riskAt o .long row ∧
      ∃ s, longEntry o row now prev i = some s ∧ s.direction = .long ∧ SignalOf o row i now prev s) ∨
    ¬ (entryFilters o .long row = true ∧ 0 < riskAt o .long row) ∧ longEntry o row now prev i = none := by
  have hrisk : row.row.close - (row.row.low - o.atrMult * row.atr) = riskAt o .long row := rfl
  simp only [longEntry, hrisk]
  split_ifs with hfilters hle
  · simp_all
  · exact Or.inr ⟨fun h => absurd h.2 (not_lt.mpr hle), rfl⟩
  · refine Or.inl ⟨by simpa using hfilters, not_le.mp hle, _, rfl, rfl, rfl, rfl, ?_, ?_, rfl⟩
    · simp [riskAt]
    · simp

theorem shortEntry_cases (o : ScanSettings) (row : IndicatorRow) (now prev : ℚ) (i : ℕ) :
    (entryFilters o .short row = true ∧ (0 < o.shortRsiMin → o.shortRsiMin ≤ prev) ∧
      0 < riskAt o .short row ∧
      ∃ s, shortEntry o row now prev i = some s ∧ s.direction = .short ∧ SignalOf o row i now prev s) ∨
    ¬ (entryFilters o .short row = true ∧ (0 < o.shortRsiMin → o.shortRsiMin ≤ prev) ∧ 0 < riskAt o .short row) ∧
      shortEntry o row now prev i = none := by
  have hrisk : row.row.high + o.atrMult * row.atr - row.row.close = riskAt o .short row := rfl
  simp only [shortEntry, hrisk]
  split_ifs with hfilters hmin hle
  · simp_all
  · exact Or.inr ⟨fun h => absurd (h.2.1 hmin.1) (not_le.mpr hmin.2), rfl⟩
  · exact Or.inr ⟨fun h => absurd h.2.2 (not_lt.mpr hle), rfl⟩
  · refine Or.inl ⟨by simpa using hfilters, fun hpos => not_lt.mp fun hlt => hmin ⟨hpos, hlt⟩, not_le.mp hle, _, rfl,
      rfl, rfl, rfl, ?_, ?_, rfl⟩
    · simp [riskAt]
    · simp [sub_eq_add_neg]

/-- The branches of the scan for a bar whose two RSI values are numbers. -/
theorem detectAt_num (hnow : row.rsi = .num now) (hprev : row.rsiPrev.value = some prev) : detectAt o row i =
    .ok (if crosses (rsiZone o.rsiZone) .long now prev ∧ favours .long row.row.close row.ema200 = true then
        longEntry o row now prev i
      else if crosses (rsiZone o.rsiZone) .short now prev ∧ favours .short row.row.close row.ema200 = true then
        shortEntry o row now prev i
      else none) := by
  simp only [detectAt, hnow, hprev, crosses, favours, decide_eq_true_eq, gt_iff_lt, ge_iff_le]

/-- **Sound**: what is found on a bar, its rule asks for. -/
theorem enters_of_detectAt (h : detectAt o row i = .ok (some s)) :
    ∃ now prev, Enters o s.direction row now prev ∧ SignalOf o row i now prev s := by
  cases hnow : row.rsi with
  | na => simp [detectAt, hnow] at h
  | nan => simp [detectAt, hnow] at h
  | num now =>
      cases hprev : row.rsiPrev.value with
      | none => simp [detectAt, hnow, hprev] at h
      | some prev =>
          rw [detectAt_num hnow hprev, Except.ok.injEq] at h
          refine ⟨now, prev, ?_⟩
          split_ifs at h with hlong hshort
          · rcases longEntry_cases o row now prev i with
              ⟨hfilters, hrisk, s', hs', hdirection, hof⟩ | ⟨-, hnone⟩
            · rw [hs', Option.some.injEq] at h
              subst h
              obtain ⟨hfast, hcolor⟩ := entryFilters_iff.mp hfilters
              rw [hdirection]
              exact ⟨⟨hnow, hprev, hlong.2, hlong.1, by simp, hfast, hcolor, hrisk⟩, hof⟩
            · rw [hnone] at h
              cases h
          · rcases shortEntry_cases o row now prev i with
              ⟨hfilters, hmin, hrisk, s', hs', hdirection, hof⟩ | ⟨-, hnone⟩
            · rw [hs', Option.some.injEq] at h
              subst h
              obtain ⟨hfast, hcolor⟩ := entryFilters_iff.mp hfilters
              rw [hdirection]
              exact ⟨⟨hnow, hprev, hshort.2, hshort.1, fun _ => hmin, hfast, hcolor, hrisk⟩, hof⟩
            · rw [hnone] at h
              cases h

/-- The two sides of the EMA200 exclude each other, so the first branch takes nothing from the second. -/
theorem Enters.not_long (h : Enters o .short row now prev) :
    ¬ (crosses (rsiZone o.rsiZone) .long now prev ∧ favours .long row.row.close row.ema200 = true) := by
  rintro ⟨-, hlong⟩
  have hshort := h.trend
  simp only [favours, decide_eq_true_eq] at hlong hshort
  linarith

/-- **Complete**: a bar that satisfies the rule is found. -/
theorem Enters.detectAt (h : Enters o direction row now prev) (i : ℕ) :
    ∃ s, detectAt o row i = .ok (some s) ∧ s.direction = direction ∧ SignalOf o row i now prev s := by
  rw [detectAt_num h.rsi h.rsiPrev]
  have hfilters := entryFilters_iff.mpr ⟨h.fast, h.color⟩
  cases direction with
  | long =>
      rw [if_pos ⟨h.cross, h.trend⟩]
      rcases longEntry_cases o row now prev i with
        ⟨-, -, s, hs, hdirection, hof⟩ | ⟨hout, -⟩
      · exact ⟨s, by rw [hs], hdirection, hof⟩
      · exact absurd ⟨hfilters, h.risk⟩ hout
  | short =>
      rw [if_neg h.not_long, if_pos ⟨h.cross, h.trend⟩]
      rcases shortEntry_cases o row now prev i with
        ⟨-, -, -, s, hs, hdirection, hof⟩ | ⟨hout, -⟩
      · exact ⟨s, by rw [hs], hdirection, hof⟩
      · exact absurd ⟨hfilters, h.shortRsi rfl, h.risk⟩ hout

/-! ## The list of the signals -/

theorem found_mem_iff {rows : List (IndicatorRow × ℕ)} {found : List (Option Signal)}
    (hfound : List.Forall₂ (fun x y => detectAt o x.1 x.2 = .ok y) rows found) :
    s ∈ found.reduceOption ↔ ∃ x ∈ rows, detectAt o x.1 x.2 = .ok (some s) := by
  rw [List.reduceOption_mem_iff]
  induction hfound with
  | nil => simp
  | cons hx _ ih => simp [ih, hx, eq_comm]

/-- The signals that are found have the indices of their bars, which increase. -/
theorem found_increasing {rows : List (IndicatorRow × ℕ)} {found : List (Option Signal)}
    (hfound : List.Forall₂ (fun x y => detectAt o x.1 x.2 = .ok y) rows found)
    (hrows : rows.Pairwise fun x y => x.2 < y.2) : found.reduceOption.Pairwise fun a b => a.index < b.index := by
  induction hfound with
  | nil => exact .nil
  | @cons x y rows found hx hrest ih =>
      obtain ⟨hfirst, hlater⟩ := List.pairwise_cons.mp hrows
      cases y with
      | none =>
          rw [List.reduceOption_cons_of_none]
          exact ih hlater
      | some s =>
          rw [List.reduceOption_cons_of_some]
          refine List.pairwise_cons.mpr ⟨fun b hb => ?_, ih hlater⟩
          obtain ⟨z, hz, hzb⟩ := (found_mem_iff hrest).mp hb
          rw [detectAt_index hx, detectAt_index hzb]
          exact hfirst z hz

theorem pairwise_zipIdx_drop {α : Type} (data : List α) (k : ℕ) :
    (data.zipIdx.drop k).Pairwise fun x y => x.2 < y.2 := by
  have hall : data.zipIdx.Pairwise fun x y => x.2 < y.2 := by
    rw [← List.pairwise_map (f := Prod.snd) (R := (· < ·)), List.zipIdx_map_snd]
    exact List.pairwise_lt_range'
  exact hall.sublist (List.drop_sublist k _)

theorem signalQuality_le (direction : Direction) (close ema200 ema50 rsi rsiPrev atr openPrice : ℚ) :
    signalQuality direction close ema200 ema50 rsi rsiPrev atr openPrice ≤ 100 := by
  unfold signalQuality
  split
  · norm_num
  · exact min_le_right _ _

/-! ## Where the scan fails -/

/-- An average of values that are not negative is zero only where they all have been zero. -/
theorem ewm_eq_zero_iff {α : ℚ} (h₀ : 0 < α) (h₁ : α < 1) {xs : List ℚ} (hxs : ∀ x ∈ xs, 0 ≤ x) {k : ℕ}
    (hk : k < xs.length) : (ewm α xs)[k]? = some 0 ↔ ∀ j ≤ k, xs[j]? = some 0 := by
  induction k with
  | zero =>
      cases xs with
      | nil => cases hk
      | cons x xs => simp [ewm]
  | succ k ih =>
      obtain ⟨y, hy, hnext⟩ := ewm_succ α xs k xs[k + 1] (List.getElem?_eq_getElem hk)
      have hx := List.getElem?_eq_getElem hk
      constructor
      · intro hzero
        have hbefore := ewm_eq_zero_before h₀.le h₁ hxs (Nat.le_succ k) hzero
        rw [hbefore, Option.some.injEq] at hy
        rw [hnext, Option.some.injEq, ← hy, mul_zero, zero_add, mul_eq_zero] at hzero
        intro j hj
        rcases Nat.lt_or_eq_of_le hj with hlt | rfl
        · exact (ih (Nat.lt_of_succ_lt hk)).mp hbefore j (Nat.lt_succ_iff.mp hlt)
        · rw [hx, hzero.resolve_left h₀.ne']
      · intro hall
        have hbefore := (ih (Nat.lt_of_succ_lt hk)).mpr fun j hj => hall j (Nat.le_succ_of_le hj)
        rw [hbefore, Option.some.injEq] at hy
        have hlast := hall (k + 1) le_rfl
        rw [hx, Option.some.injEq] at hlast
        rw [hnext, hlast, ← hy, mul_zero, mul_zero, add_zero]

theorem gain_loss_zero {d : ℚ} : max d 0 = 0 ∧ -min d 0 = 0 ↔ d = 0 := by
  rw [neg_eq_zero, max_eq_right_iff, min_eq_right_iff]
  exact ⟨fun h => le_antisymm h.1 h.2, fun h => by simp [h]⟩

theorem diffs_zero_iff {closes : List ℚ} {k : ℕ} (hk : k + 1 < closes.length) :
    (∀ j ≤ k, (diffs closes)[j]? = some 0) ↔ ∀ j ≤ k + 1, closes[j]? = closes[0]? := by
  have hdiff : ∀ j ≤ k, (diffs closes)[j]? = some 0 ↔ closes[j + 1]? = closes[j]? := by
    intro j hj
    rw [diffs, List.getElem?_zipWith, List.getElem?_tail, List.getElem?_eq_getElem (by omega : j + 1 < closes.length),
      List.getElem?_eq_getElem (by omega : j < closes.length)]
    simp [sub_eq_zero]
  constructor
  · intro h j hj
    induction j with
    | zero => rfl
    | succ j ih => exact ((hdiff j (by omega)).mp (h j (by omega))).trans (ih (by omega))
  · intro h j hj
    rw [hdiff j hj, h (j + 1) (by omega), h j (by omega)]

/-- The RSI is missing where no close has changed. -/
theorem rsiSeries_na_iff (closes : List ℚ) {window k : ℕ} (hwindow : 1 < window) (hk : k + 1 < closes.length) :
    (rsiSeries closes window)[k + 1]? = some .na ↔ ∀ j ≤ k + 1, closes[j]? = closes[0]? := by
  rw [← diffs_zero_iff hk]
  cases closes with
  | nil => cases hk
  | cons x xs =>
      have hα₀ : (0 : ℚ) < 1 / window := one_div_pos.mpr (by exact_mod_cast Nat.zero_lt_of_lt hwindow)
      have hα₁ : (1 : ℚ) / window < 1 := by
        rw [div_lt_one (by exact_mod_cast Nat.zero_lt_of_lt hwindow)]
        exact_mod_cast hwindow
      have hlen : k < (diffs (x :: xs)).length := by
        rw [length_diffs]
        simpa using hk
      have hgains : ∀ d ∈ (diffs (x :: xs)).map (max · 0), 0 ≤ d := by
        simp only [List.mem_map]
        rintro d ⟨e, -, rfl⟩
        exact le_max_right e 0
      have hlosses : ∀ d ∈ (diffs (x :: xs)).map fun d => -min d 0, 0 ≤ d := by
        simp only [List.mem_map]
        rintro d ⟨e, -, rfl⟩
        exact neg_nonneg.mpr (min_le_right e 0)
      obtain ⟨gain, hgain⟩ : ∃ gain, (ewm (1 / window) ((diffs (x :: xs)).map (max · 0)))[k]? = some gain :=
        ⟨_, List.getElem?_eq_getElem (by rwa [length_ewm, List.length_map])⟩
      obtain ⟨loss, hloss⟩ : ∃ loss, (ewm (1 / window) ((diffs (x :: xs)).map fun d => -min d 0))[k]? = some loss :=
        ⟨_, List.getElem?_eq_getElem (by rwa [length_ewm, List.length_map])⟩
      have hzero : gain ≤ 0 ↔ gain = 0 :=
        ⟨fun h => le_antisymm h (ewm_nonneg hα₀.le hα₁.le hgains k gain hgain), fun h => h.le⟩
      have hgain₀ := ewm_eq_zero_iff hα₀ hα₁ hgains (k := k) (by rwa [List.length_map])
      have hloss₀ := ewm_eq_zero_iff hα₀ hα₁ hlosses (k := k) (by rwa [List.length_map])
      rw [hgain, Option.some.injEq] at hgain₀
      rw [hloss, Option.some.injEq] at hloss₀
      rw [rsiSeries, List.getElem?_cons_succ, rsiOfChanges, List.getElem?_zipWith, hgain, hloss]
      simp only [Option.some.injEq]
      rw [rsiCell_eq_na, hzero, hgain₀, hloss₀]
      simp only [List.getElem?_map, Option.map_eq_some_iff]
      constructor
      · rintro ⟨hl, hg⟩ j hj
        obtain ⟨d, hd, hd₀⟩ := hg j hj
        obtain ⟨d', hd', hd'₀⟩ := hl j hj
        rw [hd, Option.some.injEq] at hd'
        subst hd'
        rw [hd, gain_loss_zero.mp ⟨hd₀, hd'₀⟩]
      · intro h
        exact ⟨fun j hj => ⟨0, h j hj, by simp⟩, fun j hj => ⟨0, h j hj, by simp⟩⟩

end CryptoAggHarmonic.RsiTrend
