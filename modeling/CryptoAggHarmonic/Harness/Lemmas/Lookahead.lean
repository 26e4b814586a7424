import CryptoAggHarmonic.Harness.Runner

/-!
# The daily closes up to an entry

What the bars after the entry can change in them: the close of the entry's own day, and whether the next day is there.
-/

namespace CryptoAggHarmonic.Harness

open Config Domain

variable {rows pre rest : List Candle} {e row : Candle} {daily : List (ℤ × ℚ)} {t : TuningConstants}

/-! ## Labels -/

theorem dayOf_le (row : Candle) : dayOf row ≤ row.dts := by
  unfold dayOf
  omega

theorem lt_dayOf_add (row : Candle) : row.dts < dayOf row + 86400 := by
  unfold dayOf
  omega

theorem dayOf_mono {a b : Candle} (h : a.dts ≤ b.dts) : dayOf a ≤ dayOf b := by
  unfold dayOf
  omega

/-- Another day begins a day later. -/
theorem next_day {a b : Candle} (h : dayOf a < dayOf b) : a.dts < dayOf b := by
  unfold dayOf at *
  omega

theorem toDailyClose_concat (rows : List Candle) (row : Candle) :
    toDailyClose (rows ++ [row]) = addClose (toDailyClose rows) row := by
  simp [toDailyClose]

/-- The day of the last bar comes last, with its close. -/
theorem toDailyClose_last (rows : List Candle) (row : Candle) :
    ∃ init, toDailyClose (rows ++ [row]) = init ++ [(dayOf row, row.close)] := by
  rw [toDailyClose_concat, addClose]
  split
  · exact ⟨_, rfl⟩
  · exact ⟨_, rfl⟩

/-- A bar of the same day as the last one. -/
theorem addClose_same {init : List (ℤ × ℚ)} {d : ℤ × ℚ} (h : d.1 = dayOf row) :
    addClose (init ++ [d]) row = init ++ [(dayOf row, row.close)] := by
  simp [addClose, h]

/-- A bar of another day. -/
theorem addClose_other {init : List (ℤ × ℚ)} {d : ℤ × ℚ} (h : d.1 ≠ dayOf row) :
    addClose (init ++ [d]) row = init ++ [d] ++ [(dayOf row, row.close)] := by
  simp [addClose, h]

/-- The bars after the entry leave the labels up to it as they are, and add later ones. -/
theorem labels_append (hrows : (pre ++ [e] ++ rest).Pairwise fun a b => a.dts < b.dts) :
    ∃ more, (toDailyClose (pre ++ [e] ++ rest)).map Prod.fst = (toDailyClose (pre ++ [e])).map Prod.fst ++ more ∧
      ∀ label ∈ more, e.dts < label := by
  induction rest using List.reverseRecOn with
  | nil => exact ⟨[], by simp⟩
  | append_singleton rest row ih =>
      rw [← List.append_assoc] at hrows ⊢
      obtain ⟨more, hlabels, hmore⟩ := ih (List.pairwise_append.mp hrows).1
      rw [toDailyClose_concat]
      -- The last label before the row is the day of some bar that is not after it.
      obtain ⟨b, hb, init, hinit⟩ : ∃ b, (e.dts ≤ b.dts ∧ b.dts < row.dts) ∧
          ∃ init, toDailyClose (pre ++ [e] ++ rest) = init ++ [(dayOf b, b.close)] := by
        have hbefore := (List.pairwise_append.mp hrows).2.2
        cases rest using List.reverseRecOn with
        | nil => exact ⟨e, ⟨le_refl _, hbefore e (by simp) row (by simp)⟩, by simpa using toDailyClose_last pre e⟩
        | append_singleton rest b =>
            refine ⟨b, ⟨?_, hbefore b (by simp) row (by simp)⟩, ?_⟩
            · have hsplit := (List.pairwise_append.mp hrows).1
              exact ((List.pairwise_append.mp hsplit).2.2 e (by simp) b (by simp)).le
            · rw [← List.append_assoc]
              exact toDailyClose_last _ b
      rw [hinit] at hlabels ⊢
      by_cases hday : dayOf b = dayOf row
      · refine ⟨more, ?_, hmore⟩
        rw [addClose_same hday, ← hlabels]
        simp [hday]
      · have hlt : dayOf b < dayOf row := lt_of_le_of_ne (dayOf_mono hb.2.le) hday
        refine ⟨more ++ [dayOf row], ?_, ?_⟩
        · rw [addClose_other hday, List.map_append, hlabels]
          simp
        · intro label hlabel
          rcases List.mem_append.mp hlabel with hlabel | hlabel
          · exact hmore label hlabel
          · rw [List.mem_singleton.mp hlabel]
            exact hb.1.trans_lt (next_day hlt)

theorem labels_lt (hrows : (pre ++ [e]).Pairwise fun a b => a.dts < b.dts) :
    ∃ init, toDailyClose (pre ++ [e]) = init ++ [(dayOf e, e.close)] ∧ ∀ d ∈ init, d.1 < dayOf e := by
  induction pre using List.reverseRecOn generalizing e with
  | nil => exact ⟨[], rfl, by simp⟩
  | append_singleton pre b ih =>
      obtain ⟨init, hinit, hlt⟩ := ih (List.pairwise_append.mp hrows).1
      have hbe : b.dts < e.dts := (List.pairwise_append.mp hrows).2.2 b (by simp) e (by simp)
      rw [toDailyClose_concat, hinit]
      by_cases hday : dayOf b = dayOf e
      · exact ⟨init, addClose_same hday, fun d hd => hday ▸ hlt d hd⟩
      · refine ⟨_, addClose_other hday, ?_⟩
        have hbefore : dayOf b < dayOf e := lt_of_le_of_ne (dayOf_mono hbe.le) hday
        intro d hd
        rcases List.mem_append.mp hd with hd | hd
        · exact (hlt d hd).trans hbefore
        · rw [List.mem_singleton.mp hd]
          exact hbefore

/-! ## The days that the macro bias sees -/

/-- The most days that it can see at the entry. -/
def horizon (rows : List Candle) (e : Candle) : ℕ :=
  (toDailyClose rows).length + if dayOf e = e.dts then 0 else 1

theorem searchsorted_eq (hrows : (pre ++ [e] ++ rest).Pairwise fun a b => a.dts < b.dts) :
    ((toDailyClose (pre ++ [e] ++ rest)).filter fun d => d.1 < e.dts).length + 1 = horizon (pre ++ [e]) e := by
  obtain ⟨more, hlabels, hmore⟩ := labels_append hrows
  obtain ⟨init, hinit, hlt⟩ := labels_lt (List.pairwise_append.mp hrows).1
  have hcount : ∀ daily : List (ℤ × ℚ), (daily.filter fun d => d.1 < e.dts).length =
      ((daily.map Prod.fst).filter fun label => label < e.dts).length := by
    intro daily
    rw [List.filter_map, List.length_map]
    rfl
  have hnone : more.filter (fun label => label < e.dts) = [] := by
    simp only [List.filter_eq_nil_iff, decide_eq_true_eq, not_lt]
    exact fun label hlabel => (hmore label hlabel).le
  have hall : init.filter (fun d => d.1 < e.dts) = init := by
    simp only [List.filter_eq_self, decide_eq_true_eq]
    exact fun d hd => (hlt d hd).trans_le (dayOf_le e)
  rw [hcount, hlabels, List.filter_append, hnone, List.append_nil, ← hcount, hinit, List.filter_append, hall, horizon,
    hinit]
  by_cases hday : dayOf e = e.dts
  · simp [hday]
  · have hbefore : dayOf e < e.dts := lt_of_le_of_ne (dayOf_le e) hday
    simp [hday, hbefore]

theorem length_dailyUpTo (hrows : (pre ++ [e] ++ rest).Pairwise fun a b => a.dts < b.dts) :
    0 < (dailyUpTo (toDailyClose (pre ++ [e] ++ rest)) e.dts).length ∧
      (dailyUpTo (toDailyClose (pre ++ [e] ++ rest)) e.dts).length ≤ horizon (pre ++ [e]) e := by
  have hdays : 0 < (toDailyClose (pre ++ [e] ++ rest)).length := by
    obtain ⟨more, hlabels, -⟩ := labels_append hrows
    obtain ⟨init, hinit⟩ := toDailyClose_last pre e
    have hlength := congrArg List.length hlabels
    rw [hinit] at hlength
    simp only [List.length_map, List.length_append, List.length_singleton] at hlength
    omega
  rw [dailyUpTo, searchsorted_eq hrows, List.length_map, List.length_take, horizon]
  have hpre : 0 < (toDailyClose (pre ++ [e])).length := by
    obtain ⟨init, hinit⟩ := toDailyClose_last pre e
    simp [hinit]
  exact ⟨by omega, by omega⟩

/-- The start of the bar that the last of these days can end with: the next one of the same day where the entry begins
the day, and the first one of the next day elsewhere. -/
def decisiveSlot (e : Candle) : ℤ := if dayOf e = e.dts then e.dts + 14400 else dayOf e + 86400

theorem lt_decisiveSlot (e : Candle) : e.dts < decisiveSlot e := by
  unfold decisiveSlot
  split
  · omega
  · exact lt_dayOf_add e

/-- **The look-ahead**: one bar after the entry gives the last of the days its close. -/
theorem dailyUpTo_decisive (pre : List Candle) (e : Candle) : ∃ base, base.length + 1 = horizon (pre ++ [e]) e ∧
    ∀ row, (pre ++ [e] ++ [row]).Pairwise (fun a b => a.dts < b.dts) → row.dts = decisiveSlot e →
      dailyUpTo (toDailyClose (pre ++ [e] ++ [row])) e.dts = base ++ [row.close] := by
  obtain ⟨init, hinit⟩ := toDailyClose_last pre e
  by_cases hday : dayOf e = e.dts
  · refine ⟨init.map Prod.snd, by simp [horizon, hinit, hday], fun row hrows hslot => ?_⟩
    have hsame : dayOf e = dayOf row := by
      rw [decisiveSlot, if_pos hday] at hslot
      unfold dayOf at *
      omega
    rw [dailyUpTo, searchsorted_eq hrows, horizon, toDailyClose_concat (pre ++ [e]) row, hinit,
      addClose_same hsame]
    simp [hday]
  · refine ⟨(init ++ [(dayOf e, e.close)]).map Prod.snd, by simp [horizon, hinit, hday], fun row hrows hslot => ?_⟩
    have hother : dayOf e ≠ dayOf row := by
      rw [decisiveSlot, if_neg hday] at hslot
      unfold dayOf at *
      omega
    rw [dailyUpTo, searchsorted_eq hrows, horizon, toDailyClose_concat (pre ++ [e]) row, hinit,
      addClose_other hother]
    simp [hday]

end CryptoAggHarmonic.Harness

/-!
# What the bars after an entry can change

The PRZ can still be touched and the last daily close can still move; nothing else of a trade depends on them.
-/

namespace CryptoAggHarmonic.Harness

open Config Domain Engine

variable {num : Numeric} {t : TuningConstants} {symbol : String} {group : Group} {cand : Candidate} {anchor : ℕ}
  {df4 df4' : Frame4h} {signal : Signal} {rows rest : List Candle} {e : Candle} {base : List ℚ} {p : ℚ}
  {dir : Direction}

/-! ## The macro bias -/

theorem ema200_concat (hbase : base ≠ []) : ema200 (base ++ [p]) = (1 - 2 / 201) * ema200 base + 2 / 201 * p := by
  cases base with
  | nil => exact absurd rfl hbase
  | cons x xs =>
      simp only [ema200, ewmSpan, ewm, List.cons_append, List.getLastD_eq_getLast?, List.getLast?_scanl,
        Option.getD_some, List.foldl_append, List.foldl_cons, List.foldl_nil]
      norm_num

/-- The close is above the EMA exactly when it is above the one of the days before. -/
theorem priceAboveEma_concat (hbase : base ≠ []) : priceAboveEma (base ++ [p]) = decide (p > ema200 base) := by
  have hlast : (base ++ [p]).getLastD 0 = p := by simp
  simp only [priceAboveEma, hlast, ema200_concat hbase, decide_eq_decide]
  constructor <;> intro h <;> linarith

theorem compute_macroDir (hlong : t.minDailyBars ≤ base.length + 1) (hbase : base ≠ []) :
    (compute t (base ++ [p]) dir).macroDir = if p > ema200 base then BULL else BEAR := by
  have hnot : ¬ ((base ++ [p]).length : ℤ) < t.minDailyBars := by
    simp only [List.length_append, List.length_singleton, not_lt]
    exact_mod_cast hlong
  rw [compute, if_neg hnot]
  simp only [priceAboveEma_concat hbase, decide_eq_true_eq]

/-- The overlay does not depend on the closes when there are too few of them, or only one. -/
theorem compute_short {daily daily' : List ℚ} {h : ℕ} (hshort : (h : ℤ) < t.minDailyBars ∨ h < 2)
    (hpos : 0 < daily.length) (hpos' : 0 < daily'.length) (hle : daily.length ≤ h) (hle' : daily'.length ≤ h) :
    (compute t daily dir).sizeMult = (compute t daily' dir).sizeMult ∧
      (compute t daily dir).macroDir = (compute t daily' dir).macroDir := by
  rcases hshort with hshort | hone
  · have hlt : (daily.length : ℤ) < t.minDailyBars := by omega
    have hlt' : (daily'.length : ℤ) < t.minDailyBars := by omega
    simp [compute, hlt, hlt']
  · obtain ⟨x, rfl⟩ := List.length_eq_one_iff.mp (show daily.length = 1 by omega)
    obtain ⟨y, rfl⟩ := List.length_eq_one_iff.mp (show daily'.length = 1 by omega)
    have habove : ∀ z : ℚ, priceAboveEma [z] = false := by
      intro z
      simp [priceAboveEma, ema200, ewmSpan, ewm]
    have hdeviation : ∀ z : ℚ, deviationPct [z] = 0 := by
      intro z
      show (if z > 0 then (z / z - 1) * 100 else 0) = 0
      split
      · rename_i hz
        rw [div_self hz.ne']
        norm_num
      · rfl
    have hslope : ∀ z : ℚ, slopePct [z] = 0 := by
      intro z
      simp [slopePct, ewmSpan, ewm]
    simp only [compute, bands, habove, hdeviation, hslope, List.length_singleton, and_self]

/-! ## The discipline filters -/

/-- A bar after C and not after the entry was in the PRZ. -/
def touchedBefore (rows : List Candle) (anchor : ℕ) (c : Candidate) : Bool :=
  decide (-1 ≤ cIndex c) && ((rows.take (anchor + 2)).drop (cIndex c + 1).toNat).any (touches c.przLow c.przHigh)

theorem evaluate_ok {df : Frame} {price : ℚ} (hrows : df.rows ≠ []) (hprz : cand.przLow > 0 ∧ cand.przHigh > 0)
    (hprice : price > 0) : ∃ verdict, evaluate t df cand price = .ok verdict ∧
      verdict.passed = (!breached df cand && !pastTp2 t price cand) ∧
      verdict.metrics.pastTp2 = pastTp2 t price cand := by
  have hlen : df.len > 0 := List.length_pos_iff.mpr hrows
  have httl : t.defaultTtlBars ≥ 0 := (t.int_pos t.defaultTtlBars (by simp [TuningFields.intFields])).le
  simp only [evaluate, require, hlen, hprz, hprice, httl, and_self, if_true]
  exact ⟨_, rfl, rfl, rfl⟩

theorem evaluate_error {df df' : Frame} {price : ℚ} (hrows : df.rows ≠ []) (hrows' : df'.rows ≠ [])
    (h : ¬ ((cand.przLow > 0 ∧ cand.przHigh > 0) ∧ price > 0)) :
    ∃ error, evaluate t df cand price = .error error ∧ evaluate t df' cand price = .error error := by
  have hlen : df.len > 0 := List.length_pos_iff.mpr hrows
  have hlen' : df'.len > 0 := List.length_pos_iff.mpr hrows'
  simp only [evaluate, require, hlen, hlen', if_true]
  by_cases hprz : cand.przLow > 0 ∧ cand.przHigh > 0
  · have hprice : ¬ price > 0 := fun hprice => h ⟨hprz, hprice⟩
    simp only [hprz, hprice, and_self, if_true, if_false]
    exact ⟨_, rfl, rfl⟩
  · simp only [hprz, if_false]
    exact ⟨_, rfl, rfl⟩

theorem breached_of_touchedBefore (hentry : anchor + 1 < df4.rows.length)
    (h : touchedBefore df4.rows anchor cand = true) : breached df4.frame cand = true := by
  rw [touchedBefore, Bool.and_eq_true, decide_eq_true_eq, List.any_eq_true] at h
  obtain ⟨hc, row, hrow, htouch⟩ := h
  have hrow' : row ∈ df4.rows.drop (cIndex cand + 1).toNat := by
    have htake : (df4.rows.take (anchor + 2)).drop (cIndex cand + 1).toNat <+:
        df4.rows.drop (cIndex cand + 1).toNat := (List.take_prefix _ _).drop _
    exact htake.subset hrow
  have hlt : (cIndex cand + 1).toNat < df4.rows.length := by
    by_contra hge
    rw [List.drop_eq_nil_of_le (not_lt.mp hge)] at hrow'
    cases hrow'
  have hinside : cIndex cand + 1 < (df4.frame.len : ℤ) := by
    show cIndex cand + 1 < (df4.rows.length : ℤ)
    omega
  have hnonneg : ¬ cIndex cand + 1 < 0 := by omega
  have hafter : ilocFrom (cIndex cand + 1) df4.frame.rows = df4.rows.drop (cIndex cand + 1).toNat := by
    rw [ilocFrom, if_neg hnonneg]
    rfl
  simp only [breached, hinside, if_true, przWasTouched, hafter, List.any_eq_true]
  exact ⟨row, hrow', htouch⟩

/-! ## Other bars after the entry -/

/-- The first `n` bars, and others after them. -/
def Frame4h.continueWith (df4 : Frame4h) (n : ℕ) (bars : List Candle) (hslots : ∀ b ∈ bars, 14400 ∣ b.dts)
    (hbars : bars.Pairwise fun a b => a.dts < b.dts) (hafter : ∀ a ∈ df4.rows.take n, ∀ b ∈ bars, a.dts < b.dts) :
    Frame4h where
  rows := df4.rows.take n ++ bars
  slots := by
    intro c hc
    rcases List.mem_append.mp hc with hc | hc
    · exact df4.slots c (List.mem_of_mem_take hc)
    · exact hslots c hc
  increasing := List.pairwise_append.mpr ⟨df4.increasing.sublist (List.take_sublist _ _), hbars, hafter⟩

/-- A bar at one price. -/
def flatBar (dts : ℤ) (price : ℚ) : Candle := ⟨price, price, price, price, 0, dts, dts, 0⟩

/-- Bars at one price from a slot on. -/
def flatBars (start : ℤ) (price : ℚ) (k : ℕ) : List Candle :=
  (List.range k).map fun i : ℕ => flatBar (start + 14400 * ((i : ℤ) + 1)) price

theorem flatBars_slots {start : ℤ} (h : 14400 ∣ start) (price : ℚ) (k : ℕ) :
    ∀ b ∈ flatBars start price k, 14400 ∣ b.dts := by
  intro b hb
  obtain ⟨i, -, rfl⟩ := List.mem_map.mp hb
  show 14400 ∣ start + 14400 * ((i : ℤ) + 1)
  exact dvd_add h (dvd_mul_right _ _)

theorem flatBars_increasing (start : ℤ) (price : ℚ) (k : ℕ) :
    (flatBars start price k).Pairwise fun a b => a.dts < b.dts := by
  rw [flatBars, List.pairwise_map]
  refine List.pairwise_lt_range.imp fun {i j} hij => ?_
  show start + 14400 * ((i : ℤ) + 1) < start + 14400 * ((j : ℤ) + 1)
  omega

theorem lt_of_mem_flatBars {start : ℤ} {price : ℚ} {k : ℕ} {b : Candle} (hb : b ∈ flatBars start price k) :
    start < b.dts := by
  obtain ⟨i, -, rfl⟩ := List.mem_map.mp hb
  show start < start + 14400 * ((i : ℤ) + 1)
  omega

theorem split_at_entry (hentry : df4.rows[anchor + 1]? = some e) :
    df4.rows.take (anchor + 2) = df4.rows.take (anchor + 1) ++ [e] := by
  rw [List.take_add_one, hentry]
  rfl

theorem le_entry (hentry : df4.rows[anchor + 1]? = some e) : ∀ a ∈ df4.rows.take (anchor + 2), a.dts ≤ e.dts := by
  have hsorted := df4.increasing.sublist (List.take_sublist (anchor + 2) df4.rows)
  rw [split_at_entry hentry] at hsorted ⊢
  intro a ha
  rcases List.mem_append.mp ha with ha | ha
  · exact ((List.pairwise_append.mp hsorted).2.2 a ha e (by simp)).le
  · rw [List.mem_singleton.mp ha]

/-- The bars up to the entry, and others at later slots. -/
theorem exists_continuation (hentry : df4.rows[anchor + 1]? = some e) (bars : List Candle)
    (hslots : ∀ b ∈ bars, 14400 ∣ b.dts) (hbars : bars.Pairwise fun a b => a.dts < b.dts)
    (hafter : ∀ b ∈ bars, e.dts < b.dts) :
    ∃ df4' : Frame4h, df4'.rows = df4.rows.take (anchor + 2) ++ bars ∧
      df4'.rows.take (anchor + 2) = df4.rows.take (anchor + 2) := by
  refine ⟨df4.continueWith (anchor + 2) bars hslots hbars
    fun a ha b hb => (le_entry hentry a ha).trans_lt (hafter b hb), rfl, ?_⟩
  have hlength : (df4.rows.take (anchor + 2)).length = anchor + 2 := by
    have hlt := (List.getElem?_eq_some_iff.mp hentry).1
    rw [List.length_take]
    omega
  show (df4.rows.take (anchor + 2) ++ bars).take (anchor + 2) = _
  rw [List.take_append_of_le_length hlength.ge, List.take_take, min_self]

/-! ## What is seen of a pattern -/

/-- What must not depend on the bars after the entry. -/
structure Decided where
  entryPrice : ℚ
  stopLoss : ℚ
  tp1 : Option ℚ
  tp2 : Option ℚ
  disciplinePassed : Bool
  macroSizeMult : ℚ
  macroRegime : String
  deriving DecidableEq

def Trade.decided (trade : Trade) : Decided :=
  ⟨trade.entryPrice, trade.stopLoss, trade.tp1, trade.tp2, trade.disciplinePassed, trade.macroSizeMult,
    trade.macroRegime⟩

/-- The decision on a pattern: an exception, a skip, or the trade without its course. -/
def decision (num : Numeric) (t : TuningConstants) (symbol : String) (group : Group) (df4 : Frame4h) (anchor : ℕ)
    (cand : Candidate) : Except PyError (Option Decided) :=
  (patternTrade num t symbol group df4 anchor cand).map (Option.map Trade.decided)

def directionOf (cand : Candidate) : Direction := if cand.bullish then .long else .short

/-- The overlay at the entry. -/
def overlayAt (t : TuningConstants) (df4 : Frame4h) (e : Candle) (cand : Candidate) : MacroOverlay :=
  compute t (dailyUpTo (toDailyClose df4.rows) e.dts) (directionOf cand)

theorem simulateTrade_eq (symbol : String) (df : Frame) (entryBar : ℕ) (signal : Signal) :
    ∃ exitBar exitPrice reason r,
      simulateTrade symbol df entryBar signal = closedTrade symbol signal entryBar exitBar exitPrice reason r := by
  unfold simulateTrade
  simp only
  split
  · exact ⟨_, _, _, _, rfl⟩
  · split
    · exact ⟨_, _, _, _, rfl⟩
    · exact ⟨_, _, _, _, rfl⟩

theorem signalAt_congr (h : df4'.rows.take (anchor + 2) = df4.rows.take (anchor + 2)) :
    signalAt num t df4'.rows anchor cand = signalAt num t df4.rows anchor cand := by
  have htake : df4'.rows.take (anchor + 1) = df4.rows.take (anchor + 1) := by
    have := congrArg (List.take (anchor + 1)) h
    simpa [List.take_take] using this
  unfold signalAt subFrame
  rw [htake]

theorem getElem?_congr (h : df4'.rows.take (anchor + 2) = df4.rows.take (anchor + 2)) :
    df4'.rows[anchor + 1]? = df4.rows[anchor + 1]? := by
  have := congrArg (fun rows => rows[anchor + 1]?) h
  simpa [List.getElem?_take] using this

theorem decision_no_signal (h : signalAt num t df4.rows anchor cand = none) :
    decision num t symbol group df4 anchor cand = .ok none := by
  simp [decision, patternTrade, h, Except.map]

theorem decision_no_entry (h : df4.rows[anchor + 1]? = none) :
    decision num t symbol group df4 anchor cand = .ok none := by
  unfold decision patternTrade
  rw [h]
  split <;> rfl

/-- `accepts`, of what it looks at. -/
def takes (group : Group) (formed past touched : Bool) : Bool :=
  if group = .strict ∨ group = .experimental then if formed then !past else !touched && !past else true

/-- The decision where there is a signal and an entry bar that the discipline filters take. -/
theorem decision_eq (hsignal : signalAt num t df4.rows anchor cand = some signal)
    (hentry : df4.rows[anchor + 1]? = some e) (hprz : cand.przLow > 0 ∧ cand.przHigh > 0) (hprice : e.close > 0) :
    decision num t symbol group df4 anchor cand = .ok
      (if takes group cand.formed (pastTp2 t e.close cand) (breached df4.frame cand) then
        some ⟨(exitLevels signal).entry, (exitLevels signal).stop, (exitLevels signal).tp1, (exitLevels signal).tp2,
          !breached df4.frame cand && !pastTp2 t e.close cand,
          if group = .experimental then (overlayAt t df4 e cand).sizeMult else 1, (overlayAt t df4 e cand).macroDir⟩
      else none) := by
  have hrows : df4.frame.rows ≠ [] := by
    have := List.mem_of_getElem? hentry
    intro hnil
    rw [show df4.rows = [] from hnil] at this
    cases this
  obtain ⟨verdict, hverdict, hpassed, hpast⟩ := evaluate_ok (t := t) hrows hprz hprice
  obtain ⟨exitBar, exitPrice, reason, r, htrade⟩ := simulateTrade_eq symbol df4.frame (anchor + 1) signal
  have haccepts : accepts group cand verdict =
      takes group cand.formed (pastTp2 t e.close cand) (breached df4.frame cand) := by
    rw [accepts, takes, hpassed, hpast]
  simp only [decision, patternTrade, hsignal, hentry, hverdict, haccepts, bind, Except.bind, pure, Except.pure,
    Except.map, htrade, hpassed]
  cases takes group cand.formed (pastTp2 t e.close cand) (breached df4.frame cand) <;> rfl

/-- Where the discipline filters refuse the input, they do so whatever comes after the entry. -/
theorem decision_refused (hsignal : signalAt num t df4.rows anchor cand = some signal)
    (hentry : df4.rows[anchor + 1]? = some e) (hagree : df4'.rows.take (anchor + 2) = df4.rows.take (anchor + 2))
    (h : ¬ ((cand.przLow > 0 ∧ cand.przHigh > 0) ∧ e.close > 0)) :
    decision num t symbol group df4' anchor cand = decision num t symbol group df4 anchor cand := by
  have hne : ∀ {df : Frame4h}, df.rows[anchor + 1]? = some e → df.frame.rows ≠ [] := by
    intro df he hnil
    rw [show df.rows = [] from hnil] at he
    cases he
  have hentry' : df4'.rows[anchor + 1]? = some e := by rw [getElem?_congr hagree, hentry]
  have hsignal' : signalAt num t df4'.rows anchor cand = some signal := by rw [signalAt_congr hagree, hsignal]
  obtain ⟨error, h1, h2⟩ := evaluate_error (t := t) (hne hentry) (hne hentry') h
  simp only [decision, patternTrade, hsignal, hsignal', hentry, hentry', h1, h2, bind, Except.bind]

/-! ## Touching and leaving the PRZ after the entry -/

/-- Enough bars at a price in the PRZ touch it. -/
theorem breached_of_flatBars {bars : List Candle} (hrows : df4'.rows = rows ++ bars)
    (hlong : (cIndex cand).natAbs + 2 ≤ bars.length) (htouch : ∀ b ∈ bars, touches cand.przLow cand.przHigh b = true) :
    breached df4'.frame cand = true := by
  have hlen : df4'.frame.len = rows.length + bars.length := by
    show df4'.rows.length = _
    rw [hrows, List.length_append]
  have hinside : cIndex cand + 1 < (df4'.frame.len : ℤ) := by omega
  obtain ⟨b, hb⟩ : ∃ b, b ∈ ilocFrom (cIndex cand + 1) df4'.frame.rows ∧ b ∈ bars := by
    have hlast : bars ≠ [] := by
      rintro rfl
      simp at hlong
    refine ⟨bars.getLast hlast, ?_, List.getLast_mem hlast⟩
    have hdrop : ∀ k, k < df4'.rows.length → bars.getLast hlast ∈ df4'.rows.drop k := by
      intro k hk
      have hne : df4'.rows.drop k ≠ [] := by
        rw [Ne, List.drop_eq_nil_iff]
        omega
      have : (df4'.rows.drop k).getLast hne = bars.getLast hlast := by
        rw [List.getLast_drop]
        simp only [hrows, List.getLast_append_of_ne_nil _ hlast]
      rw [← this]
      exact List.getLast_mem hne
    refine hdrop _ ?_
    have : (df4'.frame.len : ℤ) = df4'.rows.length := rfl
    show (if cIndex cand + 1 < 0 then (df4'.rows.length : ℤ) + (cIndex cand + 1) else cIndex cand + 1).toNat <
      df4'.rows.length
    split <;> omega
  simp only [breached, hinside, if_true, przWasTouched, List.any_eq_true]
  exact ⟨b, hb.1, htouch b hb.2⟩

/-- Enough bars away from the PRZ leave it as it was at the entry. -/
theorem not_breached_of_flatBars {bars : List Candle} (hrows : df4'.rows = df4.rows.take (anchor + 2) ++ bars)
    (hlong : (cIndex cand).natAbs + 2 ≤ bars.length) (hbars : ∀ b ∈ bars, touches cand.przLow cand.przHigh b = false)
    (hbefore : touchedBefore df4.rows anchor cand = false) : breached df4'.frame cand = false := by
  have hlen : df4'.rows.length = (df4.rows.take (anchor + 2)).length + bars.length := by
    rw [hrows, List.length_append]
  have hinside : cIndex cand + 1 < (df4'.frame.len : ℤ) := by
    show cIndex cand + 1 < (df4'.rows.length : ℤ)
    omega
  simp only [breached, hinside, if_true, przWasTouched]
  rw [List.any_eq_false]
  intro row hrow
  rw [Bool.not_eq_true]
  have hdrop : row ∈ (df4.rows.take (anchor + 2)).drop
      (if cIndex cand + 1 < 0 then (df4'.rows.length : ℤ) + (cIndex cand + 1) else cIndex cand + 1).toNat ∨ row ∈ bars := by
    have hmem : row ∈ df4'.rows.drop
      (if cIndex cand + 1 < 0 then (df4'.rows.length : ℤ) + (cIndex cand + 1) else cIndex cand + 1).toNat := hrow
    rw [hrows, List.drop_append] at hmem
    rcases List.mem_append.mp hmem with hmem | hmem
    · rw [← hrows] at hmem
      exact Or.inl hmem
    · exact Or.inr (List.mem_of_mem_drop hmem)
  rcases hdrop with hdrop | hbar
  · by_cases hneg : cIndex cand + 1 < 0
    · rw [if_pos hneg, List.drop_eq_nil_of_le (by omega)] at hdrop
      cases hdrop
    · rw [if_neg hneg] at hdrop
      rw [touchedBefore, Bool.and_eq_false_iff] at hbefore
      rcases hbefore with hbefore | hbefore
      · rw [decide_eq_false_iff_not] at hbefore
        omega
      · rw [List.any_eq_false] at hbefore
        simpa using hbefore row hdrop
  · exact hbars row hbar

end CryptoAggHarmonic.Harness
