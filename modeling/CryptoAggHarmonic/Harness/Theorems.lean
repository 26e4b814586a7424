import CryptoAggHarmonic.Harness.Aggregate
import CryptoAggHarmonic.Harness.Lemmas.Lookahead
import CryptoAggHarmonic.Harness.Quarters

/-!
# What the fitness of a candidate rests on
-/

namespace CryptoAggHarmonic.Harness

open Config Domain Engine Rounding

/-! ## Look-ahead -/

/-- Every fresh pattern whose entry bar, and all bars before it, two frames share is decided in the same way on both. -/
def NoLookahead (num : Numeric) (t : TuningConstants) (symbol : String) (group : Group)
    (fresh : List (ℕ × Candidate)) (df4 df4' : Frame4h) : Prop :=
  ∀ p ∈ fresh, df4'.rows.take (p.1 + 2) = df4.rows.take (p.1 + 2) →
    decision num t symbol group df4' p.1 p.2 = decision num t symbol group df4 p.1 p.2

/-- A pattern that no bar after its entry can decide: there is no signal or no entry bar, or the discipline filters
refuse it, or TP2 was passed or the PRZ touched by then and, where the group takes it all the same, the days are too few
for the macro bias to look at them. -/
def Settled (num : Numeric) (t : TuningConstants) (group : Group) (df4 : Frame4h) (anchor : ℕ) (cand : Candidate) :
    Prop :=
  ∀ e, df4.rows[anchor + 1]? = some e → (signalAt num t df4.rows anchor cand).isSome →
    cand.przLow > 0 ∧ cand.przHigh > 0 → e.close > 0 →
      (pastTp2 t e.close cand || touchedBefore df4.rows anchor cand) = true ∧
        (takes group cand.formed (pastTp2 t e.close cand) (touchedBefore df4.rows anchor cand) = false ∨
          (horizon (df4.rows.take (anchor + 2)) e : ℤ) < t.minDailyBars ∨
          horizon (df4.rows.take (anchor + 2)) e < 2)

section

variable {num : Numeric} {t : TuningConstants} {symbol : String} {group : Group} {df4 df4' : Frame4h} {anchor : ℕ}
  {cand : Candidate} {signal : Signal} {e : Candle}

theorem length_overlay_days (hentry : df4.rows[anchor + 1]? = some e)
    (hagree : df4'.rows.take (anchor + 2) = df4.rows.take (anchor + 2)) :
    0 < (dailyUpTo (toDailyClose df4'.rows) e.dts).length ∧
      (dailyUpTo (toDailyClose df4'.rows) e.dts).length ≤ horizon (df4.rows.take (anchor + 2)) e := by
  have hrows : df4'.rows = df4.rows.take (anchor + 1) ++ [e] ++ df4'.rows.drop (anchor + 2) := by
    rw [← split_at_entry hentry, ← hagree, List.take_append_drop]
  have hsorted := df4'.increasing
  rw [hrows] at hsorted ⊢
  rw [split_at_entry hentry]
  exact length_dailyUpTo hsorted

/-- What is passed or touched at the entry stays so. -/
theorem takes_of_dead (group : Group) (formed : Bool) {past touched later : Bool} (hdead : (past || touched) = true)
    (hlater : touched = true → later = true) :
    takes group formed past later = takes group formed past touched ∧ (!later && !past) = false := by
  cases past with
  | true => cases group <;> cases formed <;> simp [takes]
  | false =>
      have htouched : touched = true := by simpa using hdead
      rw [hlater htouched, htouched]
      exact ⟨rfl, rfl⟩

theorem decision_of_settled (h : Settled num t group df4 anchor cand)
    (hagree : df4'.rows.take (anchor + 2) = df4.rows.take (anchor + 2)) :
    decision num t symbol group df4' anchor cand = decision num t symbol group df4 anchor cand := by
  cases hsignal : signalAt num t df4.rows anchor cand with
  | none => rw [decision_no_signal hsignal, decision_no_signal ((signalAt_congr hagree).trans hsignal)]
  | some signal =>
      cases hentry : df4.rows[anchor + 1]? with
      | none => rw [decision_no_entry hentry, decision_no_entry ((getElem?_congr hagree).trans hentry)]
      | some e =>
          by_cases hinput : (cand.przLow > 0 ∧ cand.przHigh > 0) ∧ e.close > 0
          · obtain ⟨hdead, hrest⟩ := h e hentry (by rw [hsignal]; rfl) hinput.1 hinput.2
            have hsignal' := (signalAt_congr hagree).trans hsignal
            have hentry' := (getElem?_congr hagree).trans hentry
            rw [decision_eq hsignal hentry hinput.1 hinput.2, decision_eq hsignal' hentry' hinput.1 hinput.2]
            have hlen := (List.getElem?_eq_some_iff.mp hentry).1
            have hlen' := (List.getElem?_eq_some_iff.mp hentry').1
            have htouch : touchedBefore df4'.rows anchor cand = touchedBefore df4.rows anchor cand := by
              rw [touchedBefore, touchedBefore, hagree]
            obtain ⟨htakes, hpassed⟩ := takes_of_dead group cand.formed hdead
              (breached_of_touchedBefore hlen)
            obtain ⟨htakes', hpassed'⟩ := takes_of_dead group cand.formed hdead
              fun ht => breached_of_touchedBefore hlen' (htouch.trans ht)
            rw [htakes, htakes', hpassed, hpassed']
            rcases hrest with hskip | hshort
            · rw [hskip]
              rfl
            · obtain ⟨hpos, hle⟩ := length_overlay_days hentry (rfl : df4.rows.take (anchor + 2) = _)
              obtain ⟨hpos', hle'⟩ := length_overlay_days hentry hagree
              obtain ⟨hmult, hdir⟩ := compute_short hshort hpos hpos' hle hle'
              rw [overlayAt, overlayAt, hmult, hdir]
          · rw [decision_refused hsignal hentry hagree hinput]

theorem exists_flat_continuation (hentry : df4.rows[anchor + 1]? = some e) (price : ℚ) (k : ℕ) :
    ∃ df4' : Frame4h, df4'.rows = df4.rows.take (anchor + 2) ++ flatBars e.dts price k ∧
      df4'.rows.take (anchor + 2) = df4.rows.take (anchor + 2) :=
  exists_continuation hentry _ (flatBars_slots (df4.slots e (List.mem_of_getElem? hentry)) price k)
    (flatBars_increasing e.dts price k) fun _ hb => lt_of_mem_flatBars hb

/-- A pattern that is neither passed nor touched at the entry can still be touched. -/
theorem touched_later (symbol : String) (group : Group) (hsignal : signalAt num t df4.rows anchor cand = some signal)
    (hentry : df4.rows[anchor + 1]? = some e) (hprz : cand.przLow > 0 ∧ cand.przHigh > 0) (hprice : e.close > 0)
    (hpast : pastTp2 t e.close cand = false) (htouched : touchedBefore df4.rows anchor cand = false) :
    ∃ later away : Frame4h, later.rows.take (anchor + 2) = df4.rows.take (anchor + 2) ∧
      away.rows.take (anchor + 2) = df4.rows.take (anchor + 2) ∧
      decision num t symbol group later anchor cand ≠ decision num t symbol group away anchor cand := by
  have horder : cand.przLow ≤ cand.przHigh := min_le_max
  have hlength : ∀ price, (flatBars e.dts price ((cIndex cand).natAbs + 2)).length = (cIndex cand).natAbs + 2 := by
    intro price
    simp [flatBars]
  obtain ⟨later, hlater, hagree⟩ := exists_flat_continuation hentry cand.przLow ((cIndex cand).natAbs + 2)
  obtain ⟨away, haway, hagree'⟩ := exists_flat_continuation hentry (cand.przHigh + 1) ((cIndex cand).natAbs + 2)
  refine ⟨later, away, hagree, hagree', ?_⟩
  have hb : breached later.frame cand = true := by
    refine breached_of_flatBars hlater (hlength _).ge fun b hb => ?_
    obtain ⟨i, -, rfl⟩ := List.mem_map.mp hb
    rw [touches, Bool.and_eq_true, decide_eq_true_eq, decide_eq_true_eq]
    exact ⟨le_refl _, horder⟩
  have hb' : breached away.frame cand = false := by
    refine not_breached_of_flatBars haway (hlength _).ge (fun b hb => ?_) htouched
    obtain ⟨i, -, rfl⟩ := List.mem_map.mp hb
    simp [touches, flatBar]
  rw [decision_eq ((signalAt_congr hagree).trans hsignal) ((getElem?_congr hagree).trans hentry) hprz hprice,
    decision_eq ((signalAt_congr hagree').trans hsignal) ((getElem?_congr hagree').trans hentry) hprz hprice, hpast,
    hb, hb']
  have htaken : takes group cand.formed false false = true := by
    cases group <;> cases cand.formed <;> rfl
  rw [htaken]
  intro heq
  cases htakes : takes group cand.formed false true with
  | false => simp [htakes] at heq
  | true => simp [htakes] at heq

/-- One bar after the entry can still turn the regime. -/
theorem regime_later (symbol : String) (hsignal : signalAt num t df4.rows anchor cand = some signal)
    (hentry : df4.rows[anchor + 1]? = some e) (hprz : cand.przLow > 0 ∧ cand.przHigh > 0) (hprice : e.close > 0)
    (hdead : (pastTp2 t e.close cand || touchedBefore df4.rows anchor cand) = true)
    (htaken : takes group cand.formed (pastTp2 t e.close cand) (touchedBefore df4.rows anchor cand) = true)
    (hdays : t.minDailyBars ≤ horizon (df4.rows.take (anchor + 2)) e)
    (htwo : 2 ≤ horizon (df4.rows.take (anchor + 2)) e) :
    ∃ up down : Frame4h, up.rows.take (anchor + 2) = df4.rows.take (anchor + 2) ∧
      down.rows.take (anchor + 2) = df4.rows.take (anchor + 2) ∧
      decision num t symbol group up anchor cand ≠ decision num t symbol group down anchor cand := by
  have hslot : 14400 ∣ decisiveSlot e := by
    have := df4.slots e (List.mem_of_getElem? hentry)
    unfold decisiveSlot dayOf
    split <;> omega
  -- The frame that goes on with one bar at the decisive slot.
  have hframe : ∀ price, ∃ df4' : Frame4h, df4'.rows = df4.rows.take (anchor + 2) ++ [flatBar (decisiveSlot e) price] ∧
      df4'.rows.take (anchor + 2) = df4.rows.take (anchor + 2) := by
    intro price
    refine exists_continuation hentry _ ?_ (by simp) ?_
    · simpa [flatBar] using hslot
    · simpa [flatBar] using lt_decisiveSlot e
  rw [split_at_entry hentry] at hdays htwo hframe
  obtain ⟨base, hlength, hbase⟩ := dailyUpTo_decisive (df4.rows.take (anchor + 1)) e
  have hne : base ≠ [] := by
    rintro rfl
    simp only [List.length_nil] at hlength
    omega
  have hlong : t.minDailyBars ≤ base.length + 1 := by exact_mod_cast hlength ▸ hdays
  -- Its decision takes the pattern, with the regime that the price gives.
  have hregime : ∀ (df4' : Frame4h) (price : ℚ),
      df4'.rows = df4.rows.take (anchor + 1) ++ [e] ++ [flatBar (decisiveSlot e) price] →
      df4'.rows.take (anchor + 2) = df4.rows.take (anchor + 2) →
      ∃ d : Decided, decision num t symbol group df4' anchor cand = .ok (some d) ∧
        d.macroRegime = if price > ema200 base then BULL else BEAR := by
    intro df4' price hrows hagree
    have hentry' := (getElem?_congr hagree).trans hentry
    have htouch : touchedBefore df4'.rows anchor cand = touchedBefore df4.rows anchor cand := by
      rw [touchedBefore, touchedBefore, hagree]
    obtain ⟨htakes, -⟩ := takes_of_dead group cand.formed hdead fun ht =>
      breached_of_touchedBefore (List.getElem?_eq_some_iff.mp hentry').1 (htouch.trans ht)
    rw [decision_eq ((signalAt_congr hagree).trans hsignal) hentry' hprz hprice, htakes, htaken]
    refine ⟨_, rfl, ?_⟩
    have hsorted := df4'.increasing
    rw [hrows] at hsorted
    simp only [overlayAt, hrows, hbase _ hsorted rfl]
    exact compute_macroDir hlong hne
  obtain ⟨up, hup, hagree⟩ := hframe (ema200 base + 1)
  obtain ⟨down, hdown, hagree'⟩ := hframe (ema200 base)
  rw [← split_at_entry hentry] at hagree hagree'
  refine ⟨up, down, hagree, hagree', ?_⟩
  obtain ⟨d, hd, hbull⟩ := hregime up _ hup hagree
  obtain ⟨d', hd', hbear⟩ := hregime down _ hdown hagree'
  rw [hd, hd']
  intro heq
  cases heq
  rw [hbull, if_pos (lt_add_one _), if_neg (lt_irrefl _)] at hbear
  exact absurd hbear (by decide)

end

/-- **When a frame gives nothing of its future away.** Exactly when every pattern is settled at its entry. -/
theorem noLookahead_iff (num : Numeric) (t : TuningConstants) (symbol : String) (group : Group)
    (fresh : List (ℕ × Candidate)) (df4 : Frame4h) :
    (∀ df4', NoLookahead num t symbol group fresh df4 df4') ↔
      ∀ p ∈ fresh, Settled num t group df4 p.1 p.2 := by
  constructor
  · intro h p hp e hentry hsignal hprz hprice
    obtain ⟨signal, hsignal⟩ := Option.isSome_iff_exists.mp hsignal
    -- No two continuations of the bars up to the entry are decided differently.
    have hsame : ∀ a b : Frame4h, a.rows.take (p.1 + 2) = df4.rows.take (p.1 + 2) →
        b.rows.take (p.1 + 2) = df4.rows.take (p.1 + 2) →
        decision num t symbol group a p.1 p.2 = decision num t symbol group b p.1 p.2 := by
      intro a b ha hb
      rw [h a p hp ha, h b p hp hb]
    have hdead : (pastTp2 t e.close p.2 || touchedBefore df4.rows p.1 p.2) = true := by
      by_contra halive
      rw [Bool.not_eq_true, Bool.or_eq_false_iff] at halive
      obtain ⟨later, away, hlater, haway, hne⟩ :=
        touched_later symbol group hsignal hentry hprz hprice halive.1 halive.2
      exact hne (hsame later away hlater haway)
    refine ⟨hdead, ?_⟩
    by_contra hopen
    simp only [not_or, Bool.not_eq_false, not_lt] at hopen
    obtain ⟨up, down, hup, hdown, hne⟩ :=
      regime_later symbol hsignal hentry hprz hprice hdead hopen.1 hopen.2.1 hopen.2.2
    exact hne (hsame up down hup hdown)
  · intro h df4' p hp hagree
    exact decision_of_settled (h p hp) hagree

/-! ## A dip after the entry -/

/-- A bar a day around its close. -/
def dayBar (i : ℤ) (close : ℚ) : Candle := ⟨close, close + 1, close - 1, close, 1000, 86400 * i, 86400 * i, i⟩

def dipNumeric : Numeric where
  sqrt x := (Nat.sqrt ⌊x * 10 ^ 12⌋.toNat : ℚ) / 10 ^ 6
  resampleLast series _ := (toDailyClose (series.map fun p => flatBar p.1 p.2)).map Prod.snd

def dipTuning : TuningConstants :=
  ⟨{ TuningFields.defaults with minCandles := 1, minDailyBars := 2, atrWindow := 1 }, by decide +kernel⟩

/-- A bullish Gartley whose PRZ lies under every bar up to the entry. -/
def waitingGartley : Candidate where
  family := "XABCD"
  name := "gartley"
  bullish := true
  formed := true
  points := [80, 130, 110, 120, 92]
  completionMin := 94
  completionMax := 98
  times := []
  indices := [0, 1, 2, 2, 3]
  points_length := by decide

def upToEntry : Frame4h where
  rows := [dayBar 0 100, dayBar 1 100, dayBar 2 100, dayBar 3 100, dayBar 4 101]
  slots := by decide
  increasing := by decide

def withDip : Frame4h where
  rows := [dayBar 0 100, dayBar 1 100, dayBar 2 100, dayBar 3 100, dayBar 4 101, dayBar 5 97]
  slots := by decide
  increasing := by decide

theorem dip_changes_verdict : ¬ NoLookahead dipNumeric dipTuning "BTC" .control [(3, waitingGartley)] upToEntry
    withDip := by
  intro h
  have hsame := h (3, waitingGartley) (List.mem_singleton.mpr rfl) rfl
  revert hsame
  decide +kernel

/-! ## The trend that a signal is with -/

section

variable {t : TuningConstants} {daily : List ℚ} {direction : Direction}

/-- The price is on the side of the EMA200 that the signal bets on. -/
def OnSide (daily : List ℚ) : Direction → Prop
  | .long => daily.getLastD 0 > ema200 daily
  | .short => daily.getLastD 0 ≤ ema200 daily

/-- The EMA200 moves in the direction of the signal. -/
def SlopeFollows (t : TuningConstants) (daily : List ℚ) : Direction → Prop
  | .long => slopePct daily ≥ t.slopeTrendUp
  | .short => slopePct daily ≤ t.slopeTrendDown

def Ranging (t : TuningConstants) (daily : List ℚ) : Prop :=
  slopePct daily < t.slopeTrendUp ∧ t.slopeTrendDown < slopePct daily

/-- A signal that is sized and labelled as one with the trend has price and slope behind it. -/
def WithTrendOnly (t : TuningConstants) (daily : List ℚ) (direction : Direction) : Prop :=
  (compute t daily direction).sizeMult = t.multTrendingAligned → (compute t daily direction).signalVsMacro = "顺势" →
    OnSide daily direction ∧ SlopeFollows t daily direction

theorem compute_bands (direction : Direction) (hlong : t.minDailyBars ≤ daily.length) :
    (compute t daily direction).sizeMult = (bands t daily (direction = .long)).1 ∧
      (compute t daily direction).signalVsMacro = (bands t daily (direction = .long)).2.2 := by
  unfold compute
  rw [if_neg (not_lt.mpr hlong)]
  exact ⟨rfl, rfl⟩

/-- On the side of the signal, a market that is not ranging is taken for a trend, whichever way it goes. -/
theorem bands_onSide (h : OnSide daily direction) :
    ((bands t daily (direction = .long)).1 = t.multTrendingAligned ∧ (bands t daily (direction = .long)).2.2 = "顺势") ↔
      ¬ (Ranging t daily ∧ t.multRangingAligned ≠ t.multTrendingAligned) := by
  have haligned : (decide (direction = .long) && priceAboveEma daily ||
      !decide (direction = .long) && !priceAboveEma daily) = true := by
    cases direction with
    | long => simpa [priceAboveEma, OnSide] using h
    | short => simpa [priceAboveEma, OnSide] using h
  unfold bands Ranging
  simp only [haligned]
  by_cases hup : slopePct daily ≥ t.slopeTrendUp
  · simp [hup, not_lt.mpr hup]
  · by_cases hdown : slopePct daily ≤ t.slopeTrendDown
    · simp [hdown, not_lt.mpr hdown]
    · simp [hup, hdown, not_le.mp hup, not_le.mp hdown]

theorem bands_against (h : ¬ OnSide daily direction) : (bands t daily (direction = .long)).2.2 ≠ "顺势" := by
  have hagainst : (decide (direction = .long) && priceAboveEma daily ||
      !decide (direction = .long) && !priceAboveEma daily) = false := by
    cases direction with
    | long => simpa [priceAboveEma, OnSide] using h
    | short => simpa [priceAboveEma, OnSide] using h
  unfold bands
  simp only [hagainst]
  split_ifs <;> simp_all

/-- **With the trend** is what a signal on its side of the EMA200 is called, so rightly where the slope follows it, or
where a ranging market has another multiplier. -/
theorem withTrendOnly_iff (hlong : t.minDailyBars ≤ daily.length) :
    WithTrendOnly t daily direction ↔ (OnSide daily direction → SlopeFollows t daily direction ∨
      (Ranging t daily ∧ t.multRangingAligned ≠ t.multTrendingAligned)) := by
  obtain ⟨hmult, hlabel⟩ := compute_bands direction hlong
  unfold WithTrendOnly
  rw [hmult, hlabel]
  by_cases hside : OnSide daily direction
  · have hbands := bands_onSide (t := t) hside
    constructor
    · intro h _
      by_cases hranging : Ranging t daily ∧ t.multRangingAligned ≠ t.multTrendingAligned
      · exact Or.inr hranging
      · obtain ⟨hsize, hwith⟩ := hbands.mpr hranging
        exact Or.inl (h hsize hwith).2
    · intro h hsize hwith
      exact ⟨hside, (h hside).resolve_right (hbands.mp ⟨hsize, hwith⟩)⟩
  · refine iff_of_true ?_ fun h => absurd h hside
    intro _ hwith
    exact absurd hwith (bands_against hside)

end

/-- Half a year at one price, and then three weeks above it. -/
def risingDays : List ℚ := List.replicate 190 100 ++ List.replicate 20 150

theorem rising_with_trend : WithTrendOnly TUNING risingDays .long := by
  have hlength : TUNING.minDailyBars ≤ risingDays.length := by
    simp only [risingDays, List.length_append, List.length_replicate]
    decide
  have hslope : slopePct risingDays ≥ TUNING.slopeTrendUp := by decide +kernel
  exact (withTrendOnly_iff hlength).mpr fun _ => Or.inl hslope

/-- Three weeks at half the price, and a day at the old one. -/
def reboundDays : List ℚ := List.replicate 190 100 ++ List.replicate 19 50 ++ [100]

/-- The EMA200 has lost eight percent in twenty days, and a long signal is sized and labelled as one with the trend. -/
theorem rebound_not_with_trend : (∀ close ∈ reboundDays, 0 < close) ∧ TUNING.minDailyBars ≤ reboundDays.length ∧
    slopePct reboundDays < -8 ∧ ¬ WithTrendOnly TUNING reboundDays .long := by
  have hpos : ∀ close ∈ reboundDays, 0 < close := by
    simp only [reboundDays, List.mem_append, List.mem_replicate, List.mem_singleton]
    rintro close ((⟨-, rfl⟩ | ⟨-, rfl⟩) | rfl) <;> norm_num
  have hlength : TUNING.minDailyBars ≤ reboundDays.length := by
    simp only [reboundDays, List.length_append, List.length_replicate, List.length_singleton]
    decide
  have hfalls : slopePct reboundDays < -8 := by decide +kernel
  have hside : reboundDays.getLastD 0 > ema200 reboundDays := by decide +kernel
  refine ⟨hpos, hlength, hfalls, fun h => ?_⟩
  have hup : TUNING.slopeTrendUp = 1 / 2 := rfl
  have hdown : TUNING.slopeTrendDown = -1 / 2 := rfl
  rcases (withTrendOnly_iff hlength).mp h hside with hfollows | ⟨⟨-, hranging⟩, -⟩
  · change slopePct reboundDays ≥ TUNING.slopeTrendUp at hfollows
    linarith
  · linarith

/-! ## Visits to the zone -/

section

variable {t : TuningConstants} {df : Frame} {c : Candidate} {price : ℚ} {ttl cIdx : ℤ}

/-- A bar after the pivot overlaps the band. -/
def Visited (df : Frame) (c : Candidate) (cIdx : ℤ) : Prop :=
  ∃ row ∈ df.rows.drop (cIdx + 1).toNat, row.low ≤ c.przHigh ∧ c.przLow ≤ row.high

/-- The price is beyond the second target of a fill in the middle of the band. -/
def BeyondTp2 (t : TuningConstants) (c : Candidate) (price : ℚ) : Prop :=
  if c.bullish then roundTo 8 (c.przMid + t.fibTp2 * |c.aPrice - c.przMid|) < price
  else price < roundTo 8 (c.przMid - t.fibTp2 * |c.aPrice - c.przMid|)

theorem pastTp2_iff (t : TuningConstants) (price : ℚ) (hprz : 0 < c.przLow ∧ 0 < c.przHigh) : pastTp2 t price c = true ↔ BeyondTp2 t c price := by
  have hmid : ¬ c.przMid ≤ 0 := by
    unfold Candidate.przMid
    linarith [hprz.1, hprz.2]
  rw [pastTp2, if_neg hmid, BeyondTp2]
  cases hbullish : c.bullish <;> simp [computeTargets, hbullish]

theorem visited_iff (df : Frame) (c : Candidate) (hc : 0 ≤ cIdx) :
    przWasTouched (if cIdx + 1 < df.len then ilocFrom (cIdx + 1) df.rows else []) c.przLow c.przHigh = true ↔
      Visited df c cIdx := by
  have hafter : (if cIdx + 1 < df.len then ilocFrom (cIdx + 1) df.rows else []) =
      df.rows.drop (cIdx + 1).toNat := by
    split_ifs with hinside
    · rw [ilocFrom, if_neg (by omega)]
    · refine (List.drop_eq_nil_of_le ?_).symm
      change ¬ cIdx + 1 < (df.rows.length : ℤ) at hinside
      omega
  rw [hafter, przWasTouched, List.any_eq_true, Visited]
  simp only [touches, Bool.and_eq_true, decide_eq_true_eq, ge_iff_le, and_comm]

/-- A candidate dies only after its zone was visited. -/
def DiesOnlyVisited (t : TuningConstants) (df : Frame) (c : Candidate) (price : ℚ) (maxTtl cIdx : Option ℤ) : Prop :=
  ∃ verdict, evaluateAt t df c price maxTtl cIdx = .ok verdict ∧
    (verdict.passed = true ↔ ¬ Visited df c (cIdx.getD (cIndex c))) ∧
    (verdict.metrics.pastTp2 = true → Visited df c (cIdx.getD (cIndex c)))

/-- **Discipline**: whatever the TTL, a candidate passes exactly when its zone was not visited and the price is not beyond
the second target. -/
theorem passes_iff (t : TuningConstants) (df : Frame) (c : Candidate) (price : ℚ) (maxTtl cIdx : Option ℤ)
    (hc : 0 ≤ cIdx.getD (cIndex c) ∧ cIdx.getD (cIndex c) < df.len) (hprz : 0 < c.przLow ∧ 0 < c.przHigh)
    (hprice : 0 < price) (httl : 0 ≤ maxTtl.getD t.defaultTtlBars) :
    ∃ verdict, evaluateAt t df c price maxTtl cIdx = .ok verdict ∧
      (verdict.passed = true ↔ ¬ Visited df c (cIdx.getD (cIndex c)) ∧ ¬ BeyondTp2 t c price) ∧
      (verdict.metrics.pastTp2 = true ↔ BeyondTp2 t c price) := by
  have hlen : df.len > 0 := by omega
  have hvisited := visited_iff df c hc.1
  have hpast := pastTp2_iff t price hprz
  simp only [evaluateAt, require, hlen, gt_iff_lt, ge_iff_le, hprz, hprice, httl, and_self, if_true]
  refine ⟨_, rfl, ?_, hpast⟩
  rw [← hvisited, ← hpast, Bool.and_eq_true, Bool.not_eq_true', Bool.not_eq_true', Bool.not_eq_true,
    Bool.not_eq_true]

/-- A forming gartley over two bars that stay above its zone. -/
def approachingGartley : Candidate where
  family := "XABCD"
  name := "gartley"
  bullish := true
  formed := false
  points := [95, 110, 100, 107, 102]
  completionMin := 100
  completionMax := 102
  points_length := by decide

def barsAbove (close : ℚ) : Frame where
  rows := List.replicate 2 ⟨close, close + 1 / 2, close - 1 / 2, close, 100, 0, 0, 0⟩

theorem approaching_passes : ∃ verdict, evaluateAt TUNING (barsAbove 105) approachingGartley 105 (some 5) (some 0) =
    .ok verdict ∧ verdict.passed = true := by
  obtain ⟨verdict, hverdict, hpassed, -⟩ := passes_iff TUNING (barsAbove 105) approachingGartley 105 (some 5) (some 0)
    (by decide) (by decide +kernel) (by norm_num) (by decide)
  refine ⟨verdict, hverdict, hpassed.mpr ⟨?_, by unfold BeyondTp2; decide +kernel⟩⟩
  rintro ⟨row, hrow, hlow, -⟩
  revert row
  decide +kernel

/-- The last close is beyond the second target, and no bar has come down to the zone. -/
theorem approaching_dies : ¬ ∀ (t : TuningConstants) (df : Frame) (c : Candidate) (maxTtl cIdx : Option ℤ),
    (∀ row ∈ df.rows, 0 < row.low) → 0 ≤ cIdx.getD (cIndex c) ∧ cIdx.getD (cIndex c) < df.len →
    0 < c.przLow ∧ 0 < c.przHigh → 0 ≤ maxTtl.getD t.defaultTtlBars →
    DiesOnlyVisited t df c df.last.close maxTtl cIdx := by
  intro h
  obtain ⟨verdict, hverdict, hpassed, -⟩ := h TUNING (barsAbove 110) approachingGartley (some 5) (some 0)
    (by decide +kernel) (by decide) (by decide +kernel) (by decide)
  have hfails : (evaluateAt TUNING (barsAbove 110) approachingGartley (barsAbove 110).last.close (some 5)
      (some 0)).toOption.map DisciplineResult.passed = some false := by decide +kernel
  rw [hverdict] at hfails
  have hdropped : verdict.passed = false := Option.some.inj hfails
  rw [hdropped] at hpassed
  refine absurd (hpassed.mpr ?_) (by decide)
  rintro ⟨row, hrow, hlow, -⟩
  revert row
  decide +kernel

end

/-! ## Quarters -/

section

variable {df4 : Frame4h}

/-- The bar is in the slice of the quarter. -/
def InSlice (df4 : Frame4h) (year : ℤ) (q : ℕ) (c : Candle) : Prop :=
  ∃ slice, quarterMask df4.rows (some (quarterLabel year q)) = some slice ∧ c ∈ slice

/-- What it is for the quarters to slice a frame. -/
structure SlicedByQuarter (df4 : Frame4h) : Prop where
  one : ∀ c ∈ df4.rows, ∃ year q, 1 ≤ q ∧ q ≤ 4 ∧ InQuarter year q c.dts ∧
    ∀ year' q', 1 ≤ q' → q' ≤ 4 → (InSlice df4 year' q' c ↔ year' = year ∧ q' = q)
  concat : ∀ startYear (n : ℕ), (∀ c ∈ df4.rows, ∃ i < n, InQuarter (startYear + i / 4) (i % 4 + 1) c.dts) →
    ∃ parts, slices df4.rows (listQuarters startYear n) = some parts ∧ parts.flatten = df4.rows

theorem exists_index (year : ℤ) {q : ℕ} (hq : 1 ≤ q) (hq' : q ≤ 4) : ∃ k, year = k / 4 ∧ q = (k % 4).toNat + 1 :=
  ⟨4 * year + (q - 1), by omega, by omega⟩

theorem inSlice_iff {k : ℤ} {c : Candle} : InSlice df4 (k / 4) ((k % 4).toNat + 1) c ↔
    c ∈ df4.rows ∧ quarterStart k ≤ ordinalOf c.dts ∧ c.dts ≤ lastMidnight k := by
  have hmask := quarterMask_labelAt df4.rows k
  rw [labelAt] at hmask
  simp [InSlice, hmask, sliceAt]

theorem quarter_unique {k k' date : ℤ} (h : quarterStart k ≤ date ∧ date < quarterStart (k + 1))
    (h' : quarterStart k' ≤ date ∧ date < quarterStart (k' + 1)) : k = k' := by
  have hlt := quarterStart_lt_iff.mp (h.1.trans_lt h'.2)
  have hlt' := quarterStart_lt_iff.mp (h'.1.trans_lt h.2)
  omega

/-- The bar of 31 March 2024, 04:00. -/
def lastOfMarch : Candle := { openPrice := 1, high := 1, low := 1, close := 1, volume := 1, dts := 1711857600 }

end

/-! ## Pooled metrics -/

/-- Whatever the order of the symbols, the metrics and the fitness are those of the trades as they were closed. -/
def PooledByExit (math : PyMath) (runs : List SymbolRun) (group : Group) : Prop :=
  ∀ order : List SymbolRun, order.Perm runs →
    (aggAll math order group).Same (aggregate math (byExit runs group)) ∧
      fitness math (aggAll math order group) = fitness math (aggregate math (byExit runs group))

/-- The losing runs of two lists of trades are equally deep: every run of consecutive trades of one has a run of the
other that loses at least as much. -/
def EquallyDeep (xs ys : List Trade) : Prop :=
  Drawdown.Outdone (xs.map Trade.rMultiple) (ys.map Trade.rMultiple) ∧
    Drawdown.Outdone (ys.map Trade.rMultiple) (xs.map Trade.rMultiple)

theorem maxDrawdown_eq_iff {xs ys : List Trade} :
    maxDrawdown (xs.map Trade.rMultiple) = maxDrawdown (ys.map Trade.rMultiple) ↔ EquallyDeep xs ys := by
  unfold EquallyDeep
  rw [← Drawdown.deepest_le_iff, ← Drawdown.deepest_le_iff]
  exact le_antisymm_iff

def tradeClosed (symbol : String) (exitBar : ℕ) (r : ℚ) : Trade where
  symbol := symbol
  pattern := "gartley"
  family := "XABCD"
  direction := .long
  entryBar := 0
  entryPrice := 100
  stopLoss := 95
  tp1 := some 105
  tp2 := some 110
  exitBar := exitBar
  exitPrice := 100 + 5 * r
  exitReason := if r < 0 then .stopLoss else .tp1
  rMultiple := r
  barsHeld := exitBar
  grade := .b
  widthPct := 1 / 100

/-- A symbol that loses on the first day and wins on the third. -/
def recovering : SymbolRun where
  rows := [dayBar 0 100, dayBar 1 95, dayBar 2 100, dayBar 3 105]
  trades _ := [tradeClosed "BTCUSD" 1 (-1), tradeClosed "BTCUSD" 3 1]

/-- A symbol that loses on the second day. -/
def losing : SymbolRun where
  rows := [dayBar 0 100, dayBar 1 100, dayBar 2 95, dayBar 3 95]
  trades _ := [tradeClosed "ETHUSD" 2 (-1)]

end CryptoAggHarmonic.Harness
