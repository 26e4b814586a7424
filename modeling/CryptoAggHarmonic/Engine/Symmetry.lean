import Mathlib.Tactic.Ring
import Mathlib.Tactic.Linarith
import Mathlib.Tactic.FieldSimp
import CryptoAggHarmonic.Domain.Signals
import CryptoAggHarmonic.Engine.Confluence

/-!
# Longs and shorts score alike

The mirror image of what `confluence_score` reads, and when both images get the same factors.
-/

namespace CryptoAggHarmonic.Engine

open Config Domain

/-! ## Mirror images -/

/-- Prices are reflected about `l`. -/
def reflect (l p : ℚ) : ℚ := 2 * l - p

def mirrorCandle (l : ℚ) (bar : Candle) : Candle :=
  { bar with
    openPrice := reflect l bar.openPrice
    high := reflect l bar.low
    low := reflect l bar.high
    close := reflect l bar.close }

def mirrorFrame (l : ℚ) (df : Frame) : Frame := df.withRows (df.rows.map (mirrorCandle l))

def mirrorCandidate (l : ℚ) (c : Candidate) : Candidate :=
  { c with
    bullish := !c.bullish
    points := c.points.map (reflect l)
    completionMin := reflect l c.completionMin
    completionMax := reflect l c.completionMax
    points_length := by simpa using c.points_length }

def mirrorTrend : Trend → Trend
  | .bullish => .bearish
  | .bearish => .bullish
  | .unknown => .unknown

def mirrorDivergence (d : Divergence) : Divergence := { d with bullish := d.bullish.map not }

def mirrorDivergences (divs : Divergences) : Divergences where
  entries := divs.entries.map fun e => (e.1, e.2.map mirrorDivergence)
  nodup := by simpa [Function.comp_def] using divs.nodup

def mirrorMomentum (m : Momentum) : Momentum where
  rsiSeries := m.rsiSeries.map (Option.map fun x => 100 - x)
  macdLine := -m.macdLine
  macdHistogram := -m.macdHistogram
  macdHistogramPrev := -m.macdHistogramPrev

/-- The arguments of `confluence_score`. -/
structure ConfluenceArgs where
  df : Frame
  candidate : Candidate
  atr : ℚ
  rsi : ℚ
  trend : Trend
  divergences : Divergences
  paScale : ℚ
  momentum : Momentum

namespace ConfluenceArgs

def mirror (l : ℚ) (x : ConfluenceArgs) : ConfluenceArgs where
  df := mirrorFrame l x.df
  candidate := mirrorCandidate l x.candidate
  atr := x.atr
  rsi := 100 - x.rsi
  trend := mirrorTrend x.trend
  divergences := mirrorDivergences x.divergences
  paScale := x.paScale
  momentum := mirrorMomentum x.momentum

def factors (t : TuningConstants) (x : ConfluenceArgs) : List (String × ℚ) :=
  confluenceFactors t x.df x.candidate x.atr x.rsi x.trend x.divergences x.paScale x.momentum

def score (t : TuningConstants) (x : ConfluenceArgs) : Except PyError (ℚ × List (String × ℚ)) :=
  confluenceScore t x.df x.candidate x.atr x.rsi x.trend x.divergences x.paScale x.momentum

end ConfluenceArgs

variable {t : TuningConstants} {x : ConfluenceArgs} {l rsi cap : ℚ} {bullish : Bool} {series : List (Option ℚ)}

/-! ## One factor at a time -/

theorem min_reflect (l p q : ℚ) : min (reflect l p) (reflect l q) = reflect l (max p q) := by
  unfold reflect
  rcases le_total p q with h | h
  · rw [max_eq_right h, min_eq_right (by linarith)]
  · rw [max_eq_left h, min_eq_left (by linarith)]

theorem max_reflect (l p q : ℚ) : max (reflect l p) (reflect l q) = reflect l (min p q) := by
  unfold reflect
  rcases le_total p q with h | h
  · rw [min_eq_left h, max_eq_left (by linarith)]
  · rw [min_eq_right h, max_eq_right (by linarith)]

theorem isReversalCandle_mirror (l : ℚ) (bar : Candle) (bullish : Bool) :
    isReversalCandle (mirrorCandle l bar) (!bullish) = isReversalCandle bar bullish := by
  cases bullish <;> simp only [isReversalCandle, mirrorCandle, min_reflect, max_reflect] <;>
    simp [reflect]

theorem last_mirrorFrame {df : Frame} (h : df.rows ≠ []) : (mirrorFrame l df).last = mirrorCandle l df.last := by
  unfold Frame.last mirrorFrame Frame.withRows
  rw [List.getLastD_eq_getLast?, List.getLastD_eq_getLast?, List.getLast?_map, List.getLast?_eq_some_getLast h]
  rfl

@[simp] theorem volumes_mirrorFrame (df : Frame) : (mirrorFrame l df).volumes = df.volumes := by
  simp [Frame.volumes, mirrorFrame, Frame.withRows, Function.comp_def, mirrorCandle]

theorem lows_mirrorFrame (df : Frame) : (mirrorFrame l df).lows = df.highs.map (reflect l) := by
  simp [Frame.lows, Frame.highs, mirrorFrame, Frame.withRows, Function.comp_def, mirrorCandle]

theorem highs_mirrorFrame (df : Frame) : (mirrorFrame l df).highs = df.lows.map (reflect l) := by
  simp [Frame.lows, Frame.highs, mirrorFrame, Frame.withRows, Function.comp_def, mirrorCandle]

theorem tailN_map {α β : Type} (f : α → β) (n : ℕ) (xs : List α) : tailN n (xs.map f) = (tailN n xs).map f := by
  simp [tailN, List.map_drop]

theorem foldl_min_reflect (p : ℚ) (xs : List ℚ) :
    (xs.map (reflect l)).foldl min (reflect l p) = reflect l (xs.foldl max p) := by
  induction xs generalizing p with
  | nil => rfl
  | cons q xs ih => rw [List.map_cons, List.foldl_cons, min_reflect, ih, List.foldl_cons]

theorem foldl_max_reflect (p : ℚ) (xs : List ℚ) :
    (xs.map (reflect l)).foldl max (reflect l p) = reflect l (xs.foldl min p) := by
  induction xs generalizing p with
  | nil => rfl
  | cons q xs ih => rw [List.map_cons, List.foldl_cons, max_reflect, ih, List.foldl_cons]

theorem minOf_reflect {xs : List ℚ} (h : xs ≠ []) : minOf (xs.map (reflect l)) = reflect l (maxOf xs) := by
  cases xs with
  | nil => exact absurd rfl h
  | cons p xs => exact foldl_min_reflect p xs

theorem maxOf_reflect {xs : List ℚ} (h : xs ≠ []) : maxOf (xs.map (reflect l)) = reflect l (minOf xs) := by
  cases xs with
  | nil => exact absurd rfl h
  | cons p xs => exact foldl_max_reflect p xs

theorem przLow_mirror (l : ℚ) (c : Candidate) : (mirrorCandidate l c).przLow = reflect l c.przHigh :=
  min_reflect l _ _

theorem przHigh_mirror (l : ℚ) (c : Candidate) : (mirrorCandidate l c).przHigh = reflect l c.przLow :=
  max_reflect l _ _

theorem przMid_mirror (l : ℚ) (c : Candidate) :
    ((mirrorCandidate l c).przLow + (mirrorCandidate l c).przHigh) / 2 = reflect l ((c.przLow + c.przHigh) / 2) := by
  rw [przLow_mirror, przHigh_mirror]
  unfold reflect
  ring

/-- The recent extreme on the side of the stop. -/
def swing (t : TuningConstants) (df : Frame) (bullish : Bool) : ℚ :=
  if bullish then minOf (tailN t.swingLookback.toNat df.lows) else maxOf (tailN t.swingLookback.toNat df.highs)

theorem tailN_ne_nil {α : Type} {n : ℕ} {xs : List α} (hn : 0 < n) (h : xs ≠ []) : tailN n xs ≠ [] := by
  have := List.length_pos_iff.mpr h
  rw [tailN, ne_eq, List.drop_eq_nil_iff]
  omega

theorem swingLookback_pos (t : TuningConstants) : 0 < t.swingLookback.toNat := by
  have := t.int_pos t.swingLookback (by simp [TuningFields.intFields])
  omega

theorem swing_mirror {df : Frame} (h : df.rows ≠ []) (bullish : Bool) :
    swing t (mirrorFrame l df) (!bullish) = reflect l (swing t df bullish) := by
  cases bullish with
  | true =>
      have hne : tailN t.swingLookback.toNat df.lows ≠ [] :=
        tailN_ne_nil (swingLookback_pos t) (by simpa [Frame.lows] using h)
      simp only [swing, Bool.not_true, Bool.false_eq_true, ↓reduceIte, highs_mirrorFrame, tailN_map, maxOf_reflect hne]
  | false =>
      have hne : tailN t.swingLookback.toNat df.highs ≠ [] :=
        tailN_ne_nil (swingLookback_pos t) (by simpa [Frame.highs] using h)
      simp only [swing, Bool.not_false, Bool.false_eq_true, ↓reduceIte, lows_mirrorFrame, tailN_map, minOf_reflect hne]

theorem reflect_sub_reflect (l p q : ℚ) : |reflect l p - reflect l q| = |p - q| := by
  rw [reflect, reflect, sub_sub_sub_cancel_left, abs_sub_comm]

theorem hasDivergence_mirror (divs : List Divergence) (name : String) (bullish : Bool) :
    hasDivergence (divs.map mirrorDivergence) name (!bullish) = hasDivergence divs name bullish := by
  unfold hasDivergence
  rw [List.any_map]
  refine List.any_congr rfl fun d => ?_
  cases d with
  | mk dname dbull => cases dbull with
    | none => rfl
    | some b => cases b <;> cases bullish <;> rfl

theorem divergenceScore_mirror (divs : List Divergence) (bullish : Bool) (regular : ℤ) :
    divergenceScore (divs.map mirrorDivergence) (!bullish) regular = divergenceScore divs bullish regular := by
  simp only [divergenceScore, hasDivergence_mirror]

theorem family_mirror (divs : Divergences) (key : String) :
    ((mirrorDivergences divs).get? key).getD [] = ((divs.get? key).getD []).map mirrorDivergence := by
  have hlookup : (mirrorDivergences divs).get? key = (divs.get? key).map (List.map mirrorDivergence) := by
    unfold Dict.get? mirrorDivergences
    dsimp only
    induction divs.entries with
    | nil => rfl
    | cons e entries ih =>
        obtain ⟨k, ds⟩ := e
        rw [List.map_cons, List.lookup_cons, List.lookup_cons]
        cases key == k with
        | true => rfl
        | false => exact ih
  rw [hlookup]
  cases divs.get? key <;> rfl

/-! ## The trend of the RSI -/

/-- The first and the last of the recent values, when the series has two and neither is NA. -/
def rsiEnds (series : List (Option ℚ)) : Option (ℚ × ℚ) :=
  if series.length ≥ 2 then
    match (tailN 5 series).head?, (tailN 5 series).getLast? with
    | some (some first), some (some last) => some (first, last)
    | _, _ => none
  else none

theorem rsiRising_eq (series : List (Option ℚ)) : rsiRising series = (rsiEnds series).any fun e => e.1 < e.2 := by
  unfold rsiRising rsiEnds
  by_cases hlen : series.length ≥ 2
  · have hrecent : 2 ≤ (tailN 5 series).length := by
      simp only [tailN, List.length_drop]
      omega
    simp only [hlen, ↓reduceIte]
    generalize tailN 5 series = recent at hrecent ⊢
    match recent, hrecent with
    | none :: second :: rest, _ => simp
    | some first :: second :: rest, _ =>
        simp only [List.head?_cons, List.getLastD_cons, List.getLast?_cons, Option.getD_some]
        cases hlast : rest.getLastD second with
        | none => simp_all
        | some last => simp_all
  · simp [hlen]

theorem rsiEnds_mirror (series : List (Option ℚ)) :
    rsiEnds (series.map (Option.map fun x => 100 - x)) = (rsiEnds series).map fun e => (100 - e.1, 100 - e.2) := by
  unfold rsiEnds
  rw [List.length_map, tailN_map, List.head?_map, List.getLast?_map]
  split_ifs with hlen
  · cases (tailN 5 series).head? with
    | none => rfl
    | some first => cases (tailN 5 series).getLast? with
      | none => cases first <;> rfl
      | some last => cases first <;> cases last <;> rfl
  · rfl

/-- The recent RSI ends above or below where it began. -/
def RsiMoves (series : List (Option ℚ)) : Prop := ∃ e ∈ rsiEnds series, e.1 ≠ e.2

/-- A falling RSI is not the mirror image of one that is not rising. -/
theorem rsiRising_mirror_iff (series : List (Option ℚ)) :
    rsiRising (series.map (Option.map fun x => 100 - x)) = !rsiRising series ↔ RsiMoves series := by
  rw [rsiRising_eq, rsiRising_eq, rsiEnds_mirror]
  unfold RsiMoves
  cases rsiEnds series with
  | none => simp
  | some e =>
      simp only [Option.map_some, Option.any_some, sub_lt_sub_iff_left, Option.mem_some_iff, exists_eq_left',
        Bool.eq_not_iff, ne_eq, decide_eq_decide]
      constructor
      · rintro h heq
        exact h (by rw [heq])
      · intro hne h
        rcases lt_or_gt_of_ne hne with hlt | hgt
        · exact absurd (h.mpr hlt) (not_lt.mpr hlt.le)
        · exact absurd (h.mp hgt) (not_lt.mpr hgt.le)

/-! ## The zone of the RSI -/

/-- The RSI is on the side of the middle that speaks for a reversal. -/
def InZone (rsi : ℚ) (bullish : Bool) : Prop := if bullish then rsi ≤ 50 else 50 ≤ rsi

/-- The RSI is oversold for a long, overbought for a short. -/
def Extreme (rsi : ℚ) (bullish : Bool) : Prop := if bullish then rsi ≤ 30 else 70 ≤ rsi

def zonePoints (rsi : ℚ) (bullish : Bool) : ℤ :=
  if bullish then (if rsi ≤ 30 then 7 else if rsi ≤ 40 then 5 else if rsi ≤ 50 then 2 else 0)
  else if rsi ≥ 70 then 7 else if rsi ≥ 60 then 5 else if rsi ≥ 50 then 2 else 0

def cautionPoints (rsi : ℚ) (bullish : Bool) : ℤ :=
  if bullish then (if rsi ≥ 60 then 3 else 0) else if rsi ≤ 40 then 3 else 0

/-- A bullish pattern wants a rising RSI, a bearish one an RSI that is not rising. -/
def trendPoints (rsi : ℚ) (bullish : Bool) (series : List (Option ℚ)) : ℤ :=
  if zonePoints rsi bullish > 0 ∧ rsiRising series = bullish then 3 else 0

theorem rsiZoneScore_eq (rsi : ℚ) (bullish : Bool) (series : List (Option ℚ)) :
    rsiZoneScore rsi bullish series =
      zonePoints rsi bullish + trendPoints rsi bullish series - cautionPoints rsi bullish := by
  cases bullish <;> simp [rsiZoneScore, zonePoints, trendPoints, cautionPoints]

theorem zonePoints_mirror (rsi : ℚ) (bullish : Bool) : zonePoints (100 - rsi) (!bullish) = zonePoints rsi bullish := by
  have h (a b : ℚ) (hab : a + b = 100) : 100 - rsi ≥ a ↔ rsi ≤ b := by constructor <;> intro <;> linarith
  have h' (a b : ℚ) (hab : a + b = 100) : 100 - rsi ≤ a ↔ rsi ≥ b := by constructor <;> intro <;> linarith
  cases bullish
  · simp only [zonePoints, Bool.not_false, ↓reduceIte, Bool.false_eq_true, h' 30 70 (by norm_num),
      h' 40 60 (by norm_num), h' 50 50 (by norm_num)]
  · simp only [zonePoints, Bool.not_true, ↓reduceIte, Bool.false_eq_true, h 70 30 (by norm_num), h 60 40 (by norm_num),
      h 50 50 (by norm_num)]

theorem cautionPoints_mirror (rsi : ℚ) (bullish : Bool) :
    cautionPoints (100 - rsi) (!bullish) = cautionPoints rsi bullish := by
  have h : 100 - rsi ≤ 40 ↔ rsi ≥ 60 := by constructor <;> intro <;> linarith
  have h' : 100 - rsi ≥ 60 ↔ rsi ≤ 40 := by constructor <;> intro <;> linarith
  cases bullish
  · simp only [cautionPoints, Bool.not_false, ↓reduceIte, Bool.false_eq_true, h']
  · simp only [cautionPoints, Bool.not_true, ↓reduceIte, Bool.false_eq_true, h]

theorem zonePoints_pos_iff (rsi : ℚ) (bullish : Bool) : 0 < zonePoints rsi bullish ↔ InZone rsi bullish := by
  unfold zonePoints InZone
  cases bullish <;> simp only [Bool.false_eq_true, ↓reduceIte] <;> split_ifs <;> constructor <;> intro <;>
    first | omega | linarith

/-- In the zone there is no caution, and a regular divergence fills the factor at the extreme only. -/
theorem zone_cases (h : InZone rsi bullish) : cautionPoints rsi bullish = 0 ∧ 2 ≤ zonePoints rsi bullish ∧
    (Extreme rsi bullish ∧ zonePoints rsi bullish = 7 ∨ ¬ Extreme rsi bullish ∧ zonePoints rsi bullish ≤ 5) := by
  cases bullish with
  | true =>
      have hle : rsi ≤ 50 := h
      refine ⟨by rw [cautionPoints, if_pos rfl, if_neg (by linarith)], ?_⟩
      simp only [zonePoints, Extreme, ↓reduceIte, hle]
      split_ifs <;> simp_all
  | false =>
      have hge : 50 ≤ rsi := h
      refine ⟨by rw [cautionPoints, if_neg Bool.false_ne_true, if_neg (by linarith)], ?_⟩
      simp only [zonePoints, Extreme, Bool.false_eq_true, ↓reduceIte, ge_iff_le, hge]
      split_ifs <;> simp_all

theorem trendPoints_of_not_inZone (h : ¬ InZone rsi bullish) : trendPoints rsi bullish series = 0 := by
  rw [← zonePoints_pos_iff] at h
  exact if_neg fun hboth => h hboth.1

/-- The mirror image gets the trend points of the original when the RSI moves, and otherwise the bearish of the two gets
them alone. -/
theorem trendPoints_mirror (h : InZone rsi bullish) :
    (RsiMoves series → trendPoints (100 - rsi) (!bullish) (series.map (Option.map fun x => 100 - x)) =
      trendPoints rsi bullish series) ∧
    (¬ RsiMoves series → trendPoints rsi bullish series = (if bullish then 0 else 3) ∧
      trendPoints (100 - rsi) (!bullish) (series.map (Option.map fun x => 100 - x)) = if bullish then 3 else 0) := by
  have hzone := (zonePoints_pos_iff rsi bullish).mpr h
  have hzone' : 0 < zonePoints (100 - rsi) (!bullish) := by rwa [zonePoints_mirror]
  unfold trendPoints
  simp only [gt_iff_lt, hzone, hzone', true_and]
  constructor
  · intro hmoves
    rw [(rsiRising_mirror_iff series).mpr hmoves]
    cases rsiRising series <;> cases bullish <;> rfl
  · intro hstill
    have hrising : rsiRising series = false ∧ rsiRising (series.map (Option.map fun x => 100 - x)) = false := by
      rw [rsiRising_eq, rsiRising_eq, rsiEnds_mirror]
      unfold RsiMoves at hstill
      cases hends : rsiEnds series with
      | none => exact ⟨rfl, rfl⟩
      | some e =>
          have heq : e.1 = e.2 := by
            by_contra hne
            exact hstill ⟨e, hends, hne⟩
          simp [heq]
    rw [hrising.1, hrising.2]
    cases bullish <;> exact ⟨rfl, rfl⟩

/-! ## The factor of the RSI -/

def rsiCap (t : TuningConstants) : ℚ := (t.confluenceWeights.get? "rsi").getD 15

def rsiDivergences (x : ConfluenceArgs) : List Divergence := (x.divergences.get? "rsi").getD []

/-- The raw score out of 15. -/
def rsiScore (x : ConfluenceArgs) : ℤ :=
  divergenceScore (rsiDivergences x) x.candidate.bullish 8 +
    rsiZoneScore x.rsi x.candidate.bullish x.momentum.rsiSeries

def rsiFactor (t : TuningConstants) (x : ConfluenceArgs) : ℚ := capped (rsiCap t) (rsiScore x / 15 * rsiCap t)

/-- Three points more make no difference under a weight that is not positive, and above the weight. -/
theorem capped_add_three_iff {s : ℤ} (hs : -15 ≤ s) :
    capped cap ((s + 3 : ℤ) / 15 * cap) = capped cap (s / 15 * cap) ↔ cap ≤ 0 ∨ 15 ≤ s := by
  have hs' : (-15 : ℚ) ≤ s := by exact_mod_cast hs
  unfold capped
  push_cast
  rcases le_or_gt cap 0 with hcap | hcap
  · have hfix (x : ℚ) : max (-cap) (min cap x) = -cap := max_eq_left ((min_le_left _ _).trans (by linarith))
    rw [hfix, hfix]
    simp [hcap]
  · have hlow : -cap ≤ s / 15 * cap := by nlinarith
    have hlow' : -cap ≤ (s + 3) / 15 * cap := by nlinarith
    rw [max_eq_right (le_min (by linarith) hlow), max_eq_right (le_min (by linarith) hlow')]
    constructor
    · intro h
      right
      by_contra hlt
      have hlt' : (s : ℚ) + 1 ≤ 15 := by exact_mod_cast not_le.mp hlt
      have hless : s / 15 * cap < cap := by nlinarith
      rw [min_eq_right hless.le] at h
      rcases min_choice cap ((s + 3) / 15 * cap) with hmin | hmin <;> rw [hmin] at h <;> nlinarith
    · rintro (h | h)
      · exact absurd hcap (not_lt.mpr h)
      · have h' : (15 : ℚ) ≤ s := by exact_mod_cast h
        rw [min_eq_left (by nlinarith), min_eq_left (by nlinarith)]

/-- When the two images agree on the RSI. -/
def RsiAgrees (t : TuningConstants) (x : ConfluenceArgs) : Prop :=
  RsiMoves x.momentum.rsiSeries ∨ ¬ InZone x.rsi x.candidate.bullish ∨ rsiCap t ≤ 0 ∨
    (hasDivergence (rsiDivergences x) "Regular" x.candidate.bullish ∧ Extreme x.rsi x.candidate.bullish)

theorem divergenceScore_cases (divs : List Divergence) (bullish : Bool) :
    divergenceScore divs bullish 8 ∈ [8, -5, 0] ∧
      (divergenceScore divs bullish 8 = 8 ↔ hasDivergence divs "Regular" bullish = true) := by
  unfold divergenceScore
  split_ifs with hregular <;> simp [hregular]

theorem rsiScore_mirror (l : ℚ) (x : ConfluenceArgs) : rsiScore (x.mirror l) =
    divergenceScore (rsiDivergences x) x.candidate.bullish 8 + (zonePoints x.rsi x.candidate.bullish +
      trendPoints (100 - x.rsi) (!x.candidate.bullish) (x.momentum.rsiSeries.map (Option.map fun r => 100 - r)) -
      cautionPoints x.rsi x.candidate.bullish) := by
  unfold rsiScore rsiDivergences
  simp only [ConfluenceArgs.mirror, mirrorCandidate, mirrorMomentum, family_mirror, divergenceScore_mirror]
  rw [rsiZoneScore_eq, zonePoints_mirror, cautionPoints_mirror]

/-- **The factor of the RSI is symmetric** exactly when the two images agree. -/
theorem rsiFactor_mirror_iff (t : TuningConstants) (l : ℚ) (x : ConfluenceArgs) :
    rsiFactor t (x.mirror l) = rsiFactor t x ↔ RsiAgrees t x := by
  have hscore : rsiScore x = divergenceScore (rsiDivergences x) x.candidate.bullish 8 +
      (zonePoints x.rsi x.candidate.bullish + trendPoints x.rsi x.candidate.bullish x.momentum.rsiSeries -
        cautionPoints x.rsi x.candidate.bullish) := by
    rw [rsiScore, rsiZoneScore_eq]
  unfold rsiFactor RsiAgrees
  rw [rsiScore_mirror, hscore]
  by_cases hzone : InZone x.rsi x.candidate.bullish
  · by_cases hmoves : RsiMoves x.momentum.rsiSeries
    · simp [(trendPoints_mirror hzone).1 hmoves, hmoves]
    · obtain ⟨horig, himage⟩ := (trendPoints_mirror hzone).2 hmoves
      obtain ⟨hcaution, htwo, hextreme⟩ := zone_cases hzone
      obtain ⟨hdiv, hregular⟩ := divergenceScore_cases (rsiDivergences x) x.candidate.bullish
      simp only [List.mem_cons, List.not_mem_nil, or_false] at hdiv
      generalize hs :
        divergenceScore (rsiDivergences x) x.candidate.bullish 8 + zonePoints x.rsi x.candidate.bullish = s
      have hlow : -15 ≤ s := by omega
      have hfull : 15 ≤ s ↔ hasDivergence (rsiDivergences x) "Regular" x.candidate.bullish = true ∧
          Extreme x.rsi x.candidate.bullish := by
        rw [← hregular]
        constructor
        · intro h
          rcases hextreme with ⟨hex, hseven⟩ | ⟨-, hle⟩
          · exact ⟨by omega, hex⟩
          · omega
        · rintro ⟨height, hex⟩
          rcases hextreme with ⟨-, hseven⟩ | ⟨hnot, -⟩
          · omega
          · exact absurd hex hnot
      rw [horig, himage, hcaution]
      simp only [hmoves, hzone, not_true_eq_false, false_or, ← hfull]
      have hthree (d : ℤ) (hd : d = 3 ∨ d = 0) : divergenceScore (rsiDivergences x) x.candidate.bullish 8 +
          (zonePoints x.rsi x.candidate.bullish + d - 0) = s + d := by omega
      rw [← capped_add_three_iff hlow]
      by_cases hbull : x.candidate.bullish = true
      · rw [if_pos hbull, if_pos hbull, hthree 3 (Or.inl rfl), hthree 0 (Or.inr rfl), add_zero]
      · rw [if_neg hbull, if_neg hbull, hthree 3 (Or.inl rfl), hthree 0 (Or.inr rfl), add_zero, eq_comm]
  · have hzone' : ¬ InZone (100 - x.rsi) (!x.candidate.bullish) := by
      rwa [← zonePoints_pos_iff, zonePoints_mirror, zonePoints_pos_iff]
    rw [trendPoints_of_not_inZone hzone, trendPoints_of_not_inZone hzone']
    simp [hzone]

/-! ## All factors -/

def paFactor (t : TuningConstants) (x : ConfluenceArgs) : ℚ :=
  let volMa := mean (tailN t.volumeMaWindow.toNat x.df.volumes)
  let pa : ℚ := if isReversalCandle x.df.last x.candidate.bullish then
      15 + (if volMa > 0 ∧ x.df.last.volume ≥ 3 / 2 * volMa then 10 else 0)
    else 0
  pa / 25 * (t.confluenceWeights.get? "price_action").getD 25 * x.paScale

def htfFactor (t : TuningConstants) (x : ConfluenceArgs) : ℚ :=
  let weight := (t.confluenceWeights.get? "htf_trend").getD 25
  if x.trend = (if x.candidate.bullish then .bullish else .bearish) then weight
  else if x.trend = .unknown then weight * (4 / 10)
  else 0

def structureFactor (t : TuningConstants) (x : ConfluenceArgs) : ℚ :=
  if |x.candidate.przMid - swing t x.df x.candidate.bullish| ≤ t.atrPrzSweep * x.atr then
    (t.confluenceWeights.get? "structure").getD 15
  else 0

def macdDivergences (x : ConfluenceArgs) : List Divergence := (x.divergences.get? "macd").getD []

def macdFactor (t : TuningConstants) (x : ConfluenceArgs) : ℚ :=
  let cap := (t.confluenceWeights.get? "macd").getD 10
  capped cap (divergenceScore (macdDivergences x) x.candidate.bullish 10 / 10 * cap)

def macdZeroFactor (x : ConfluenceArgs) : ℚ :=
  if x.candidate.bullish then (if x.momentum.macdLine < 0 then 8 else -4)
  else (if x.momentum.macdLine > 0 then 8 else -4)

def dualFactor (x : ConfluenceArgs) : ℚ :=
  let hasRsi := hasDivergence (rsiDivergences x) "Regular" x.candidate.bullish
  let hasMacd := hasDivergence (macdDivergences x) "Regular" x.candidate.bullish
  if hasRsi && hasMacd then 8 else if hasRsi || hasMacd then 3 else 0

def histogramFactor (x : ConfluenceArgs) : ℚ :=
  if x.candidate.bullish then
    (if x.momentum.macdHistogram > 0 ∧ x.momentum.macdHistogram > x.momentum.macdHistogramPrev then 5 else 0)
  else (if x.momentum.macdHistogram < 0 ∧ x.momentum.macdHistogram < x.momentum.macdHistogramPrev then 5 else 0)

theorem factors_eq (t : TuningConstants) (x : ConfluenceArgs) : x.factors t =
    [("price_action", paFactor t x), ("htf_trend", htfFactor t x), ("rsi", rsiFactor t x),
      ("structure", structureFactor t x), ("macd", macdFactor t x), ("macd_zero", macdZeroFactor x),
      ("dual_confirm", dualFactor x), ("histogram", histogramFactor x),
      ("funding", (t.confluenceWeights.get? "funding").getD 10 * (1 / 2))] := rfl

theorem paFactor_mirror (hrows : x.df.rows ≠ []) : paFactor t (x.mirror l) = paFactor t x := by
  unfold paFactor
  simp only [ConfluenceArgs.mirror, last_mirrorFrame hrows, volumes_mirrorFrame]
  simp only [mirrorCandidate, isReversalCandle_mirror]
  rfl

theorem htfFactor_mirror : htfFactor t (x.mirror l) = htfFactor t x := by
  unfold htfFactor
  cases hbull : x.candidate.bullish <;> cases htrend : x.trend <;>
    simp [ConfluenceArgs.mirror, mirrorCandidate, mirrorTrend, hbull, htrend]

theorem structureFactor_mirror (hrows : x.df.rows ≠ []) : structureFactor t (x.mirror l) = structureFactor t x := by
  have hdistance : |(x.mirror l).candidate.przMid - swing t (x.mirror l).df (x.mirror l).candidate.bullish| =
      |x.candidate.przMid - swing t x.df x.candidate.bullish| := by
    have hmid : (x.mirror l).candidate.przMid = reflect l x.candidate.przMid := przMid_mirror l x.candidate
    have hswing : swing t (x.mirror l).df (x.mirror l).candidate.bullish =
        reflect l (swing t x.df x.candidate.bullish) := swing_mirror hrows x.candidate.bullish
    rw [hmid, hswing, reflect_sub_reflect]
  unfold structureFactor
  rw [hdistance]
  rfl

theorem rsiDivergences_mirror : rsiDivergences (x.mirror l) = (rsiDivergences x).map mirrorDivergence :=
  family_mirror x.divergences "rsi"

theorem macdDivergences_mirror : macdDivergences (x.mirror l) = (macdDivergences x).map mirrorDivergence :=
  family_mirror x.divergences "macd"

theorem macdFactor_mirror : macdFactor t (x.mirror l) = macdFactor t x := by
  unfold macdFactor
  rw [macdDivergences_mirror]
  simp only [ConfluenceArgs.mirror, mirrorCandidate, divergenceScore_mirror]

theorem macdZeroFactor_mirror : macdZeroFactor (x.mirror l) = macdZeroFactor x := by
  unfold macdZeroFactor
  cases hbull : x.candidate.bullish <;> simp [ConfluenceArgs.mirror, mirrorCandidate, mirrorMomentum, hbull]

theorem dualFactor_mirror : dualFactor (x.mirror l) = dualFactor x := by
  unfold dualFactor
  rw [rsiDivergences_mirror, macdDivergences_mirror]
  simp only [ConfluenceArgs.mirror, mirrorCandidate, hasDivergence_mirror]

theorem histogramFactor_mirror : histogramFactor (x.mirror l) = histogramFactor x := by
  unfold histogramFactor
  cases hbull : x.candidate.bullish <;> simp [ConfluenceArgs.mirror, mirrorCandidate, mirrorMomentum, hbull]

/-- The other eight factors are symmetric. -/
theorem factors_mirror_iff (hrows : x.df.rows ≠ []) : (x.mirror l).factors t = x.factors t ↔ RsiAgrees t x := by
  rw [factors_eq, factors_eq, paFactor_mirror hrows, htfFactor_mirror, structureFactor_mirror hrows, macdFactor_mirror,
    macdZeroFactor_mirror, dualFactor_mirror, histogramFactor_mirror]
  simp only [List.cons.injEq, Prod.mk.injEq, true_and, and_true]
  exact rsiFactor_mirror_iff t l x

/-- The contracts of `confluence_score`. -/
structure ConfluenceArgs.Valid (x : ConfluenceArgs) : Prop where
  atr : x.atr ≥ 0
  rsi : 0 ≤ x.rsi ∧ x.rsi ≤ 100
  paScale : 0 ≤ x.paScale ∧ x.paScale ≤ 2
  prz : x.candidate.przLow > 0 ∧ x.candidate.przHigh > 0

theorem score_eq_ok {r : ℚ × List (String × ℚ)} :
    x.score t = .ok r ↔ x.Valid ∧ (((x.factors t).map Prod.snd).sum, x.factors t) = r := by
  simp only [ConfluenceArgs.score, confluenceScore, require_bind_eq_ok, pure_eq_ok, Except.ok.injEq]
  exact ⟨fun ⟨h1, h2, h3, h4, hr⟩ => ⟨⟨h1, h2, h3, h4⟩, hr⟩, fun ⟨h, hr⟩ => ⟨h.atr, h.rsi, h.paScale, h.prz, hr⟩⟩

theorem ConfluenceArgs.Valid.score (h : x.Valid) (t : TuningConstants) :
    x.score t = .ok (((x.factors t).map Prod.snd).sum, x.factors t) := score_eq_ok.mpr ⟨h, rfl⟩

/-- **The score is direction-symmetric**, factor by factor, exactly when the two images agree on the RSI: where the RSI
has no trend a short gets the points for it and a long does not. -/
theorem confluence_symmetric_iff (t : TuningConstants) (x : ConfluenceArgs) (l : ℚ) (r r' : ℚ × List (String × ℚ))
    (hrows : x.df.rows ≠ []) (h : x.score t = .ok r) (h' : (x.mirror l).score t = .ok r') :
    r' = r ↔ RsiAgrees t x := by
  obtain ⟨-, rfl⟩ := score_eq_ok.mp h
  obtain ⟨-, rfl⟩ := score_eq_ok.mp h'
  rw [← factors_mirror_iff (t := t) (l := l) hrows]
  constructor
  · intro heq
    exact (Prod.mk.inj heq).2
  · intro heq
    rw [heq]

def oversoldGartley : Candidate where
  family := "XABCD"
  name := "gartley"
  bullish := true
  formed := true
  points := [90, 110, 95]
  completionMin := 98
  completionMax := 102
  points_length := Nat.le_refl 3

/-- A long in the oversold zone, with the RSI series that is given. -/
def oversold (series : List (Option ℚ)) : ConfluenceArgs where
  df := { rows := [⟨100, 101, 99, 100, 1, 0, 0, 0⟩] }
  candidate := oversoldGartley
  atr := 1
  rsi := 30
  trend := .unknown
  divergences := ⟨[], by decide⟩
  paScale := 1
  momentum := ⟨series, 0, 0, 0⟩

theorem oversold_valid (series : List (Option ℚ)) : (oversold series).Valid ∧ ((oversold series).mirror 100).Valid := by
  have hprz : oversoldGartley.przLow > 0 ∧ oversoldGartley.przHigh > 0 := by decide
  have hprz' : (mirrorCandidate 100 oversoldGartley).przLow > 0 ∧
      (mirrorCandidate 100 oversoldGartley).przHigh > 0 := by decide +kernel
  refine ⟨⟨?_, ?_, ?_, hprz⟩, ⟨?_, ?_, ?_, hprz'⟩⟩ <;> norm_num [oversold, ConfluenceArgs.mirror]

theorem oversold_rising : ∃ r r', (oversold [some 25, some 30]).score TUNING = .ok r ∧
    ((oversold [some 25, some 30]).mirror 100).score TUNING = .ok r' ∧ r' = r := by
  have h := (oversold_valid [some 25, some 30]).1.score TUNING
  have h' := (oversold_valid [some 25, some 30]).2.score TUNING
  refine ⟨_, _, h, h', (confluence_symmetric_iff TUNING _ 100 _ _ (by simp [oversold]) h h').mpr ?_⟩
  exact Or.inl ⟨(25, 30), by decide, by norm_num⟩

/-- Without a series the short scores 10 points of 15 for its RSI and the long 7. -/
theorem oversold_flat : ¬ ∀ (t : TuningConstants) (x : ConfluenceArgs) (l : ℚ) (r r' : ℚ × List (String × ℚ)),
    x.df.rows ≠ [] → x.score t = .ok r → (x.mirror l).score t = .ok r' → r' = r := by
  intro hall
  have h := (oversold_valid []).1.score TUNING
  have h' := (oversold_valid []).2.score TUNING
  have heq := (Prod.mk.inj (hall TUNING (oversold []) 100 _ _ (by simp [oversold]) h h')).2
  revert heq
  decide +kernel

end CryptoAggHarmonic.Engine
