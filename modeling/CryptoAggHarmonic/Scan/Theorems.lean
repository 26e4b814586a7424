import CryptoAggHarmonic.Scan.Symbol
import CryptoAggHarmonic.Scan.Lemmas.Grade
import CryptoAggHarmonic.Scan.Lemmas.Discipline

/-!
# Properties of the watchlist scan

Which events are seen ahead, when a symbol is left out for one, whether the levels that are sent make a trade, how
evidence is graded, and what users are sent and told over whole runs.
-/

namespace CryptoAggHarmonic.Scan

/-! ## The events ahead -/

section

variable (known : List (ℤ × String)) (calendar : Calendar) (now : DateTime)

/-- `is_event_clear` where the built-in calendar knows other events. -/
def isEventClearWith : Bool × Option String :=
  let builtin : Bool × Option String :=
    match (List.range 3).findSome? fun ahead =>
      let day := now.date + ahead
      if day ∈ datesToCheck now then (known.find? fun e => e.1 = day).map Prod.snd else none with
    | some event => (false, some ("macro_event: " ++ event))
    | none => (true, none)
  match calendar with
  | .noClient => builtin
  | .failing => builtin
  | .table rows =>
      let data := highImpact rows (datesToCheck now)
      if data = [] then builtin
      else (false, some ("high_impact_events: " ++ ", ".intercalate (data.map CalendarRow.eventName)))

/-- The rows of the table that can be read. -/
def Calendar.rows : Calendar → List CalendarRow
  | .table rows => rows
  | _ => []

/-- A high-impact event is dated on the day. -/
def HighImpactOn (day : ℤ) : Prop :=
  (∃ row ∈ calendar.rows, row.eventDate = day ∧ row.impact = some "high") ∨ ∃ e ∈ known, e.1 = day

/-- `now + timedelta(hours=h)` -/
def DateTime.addHours (now : DateTime) (h : ℕ) : DateTime where
  date := now.date + (now.hour + h) / 24
  hour := (now.hour + h) % 24

/-- An event on the calendar day of now, of an hour later or of two hours later is reported. -/
def SeesEventsAhead : Prop :=
  ∀ h ≤ 2, HighImpactOn known calendar (now.addHours h).date → (isEventClearWith known calendar now).1 = false

variable {known calendar now}

theorem datesToCheck_eq : datesToCheck now = [now.date] := by
  simp [datesToCheck, nextHours, List.range_succ]

theorem findSome?_event :
    ((List.range 3).findSome? fun ahead =>
      let day := now.date + ahead
      if day ∈ datesToCheck now then (known.find? fun e => e.1 = day).map Prod.snd else none) =
    (known.find? fun e => e.1 = now.date).map Prod.snd := by
  rw [datesToCheck_eq]
  cases hfind : known.find? fun e => e.1 = now.date <;> simp [List.range_succ, hfind]

theorem highImpact_eq_nil_iff {rows : List CalendarRow} :
    highImpact rows (datesToCheck now) = [] ↔ ¬ ∃ row ∈ rows, row.eventDate = now.date ∧ row.impact = some "high" := by
  rw [datesToCheck_eq]
  simp [highImpact, List.filter_eq_nil_iff]

/-- Only the events of the day of now are looked for. -/
theorem isEventClearWith_iff : (isEventClearWith known calendar now).1 = false ↔ HighImpactOn known calendar now.date := by
  have hknown : (known.find? fun e => e.1 = now.date) = none ↔ ¬ ∃ e ∈ known, e.1 = now.date := by
    rw [List.find?_eq_none]
    simp only [decide_eq_true_eq, not_exists, not_and]
  unfold isEventClearWith HighImpactOn
  rw [findSome?_event]
  cases hfind : known.find? fun e => e.1 = now.date with
  | none =>
      rw [hfind, eq_self, true_iff] at hknown
      cases calendar with
      | noClient => simp [Calendar.rows, hknown]
      | failing => simp [Calendar.rows, hknown]
      | table rows =>
          by_cases hrows : highImpact rows (datesToCheck now) = []
          · simpa [Calendar.rows, hknown, hrows] using highImpact_eq_nil_iff.mp hrows
          · simpa [Calendar.rows, hknown, hrows] using (not_not.mp (mt highImpact_eq_nil_iff.mpr hrows))
  | some e =>
      have hevent : ∃ e ∈ known, e.1 = now.date :=
        ⟨e, List.mem_of_find?_eq_some hfind, by simpa using List.find?_some hfind⟩
      cases calendar with
      | noClient => simp [hevent]
      | failing => simp [hevent]
      | table rows =>
          refine iff_of_true ?_ (Or.inr hevent)
          dsimp only [Option.map_some]
          split_ifs <;> rfl

/-- **The events ahead are seen** before ten in the evening, and later where the next day has none or the day has one
itself. -/
theorem seesEventsAhead_iff (known : List (ℤ × String)) (calendar : Calendar) (now : DateTime) (hnow : now.hour < 24) :
    isEventClear calendar now = isEventClearWith builtinCalendar calendar now ∧
    (SeesEventsAhead known calendar now ↔
      now.hour < 22 ∨ ¬ HighImpactOn known calendar (now.date + 1) ∨ HighImpactOn known calendar now.date) := by
  refine ⟨by cases calendar <;> rfl, ?_⟩
  unfold SeesEventsAhead
  rw [isEventClearWith_iff]
  constructor
  · intro h
    by_cases hlate : now.hour < 22
    · exact Or.inl hlate
    by_cases hnext : HighImpactOn known calendar (now.date + 1)
    · refine Or.inr (Or.inr (h 2 le_rfl ?_))
      have hday : (now.addHours 2).date = now.date + 1 := by
        change now.date + ((now.hour : ℤ) + (2 : ℕ)) / 24 = now.date + 1
        omega
      rwa [hday]
    · exact Or.inr (Or.inl hnext)
  · intro hcases h hh hdue
    have hday : (now.addHours h).date = now.date ∨ (now.addHours h).date = now.date + 1 ∧ 22 ≤ now.hour := by
      change now.date + ((now.hour : ℤ) + (h : ℕ)) / 24 = now.date ∨
        now.date + ((now.hour : ℤ) + (h : ℕ)) / 24 = now.date + 1 ∧ 22 ≤ now.hour
      omega
    rcases hday with hsame | ⟨hnext, hlate⟩
    · rwa [hsame] at hdue
    · rw [hnext] at hdue
      rcases hcases with hearly | hnone | htoday
      · exact absurd hearly (not_lt.mpr hlate)
      · exact absurd hdue hnone
      · exact htoday

end

/-- At noon an event of the day is seen. -/
theorem noon_event_seen : SeesEventsAhead [] (.table [⟨0, "CPI", some "high"⟩]) ⟨0, 12⟩ :=
  ((seesEventsAhead_iff [] (.table [⟨0, "CPI", some "high"⟩]) ⟨0, 12⟩ (by decide)).2).mpr (Or.inl (by decide))

/-- The interest rates are decided on the next day, which begins in half an hour. -/
theorem midnight_event_missed : isEventClear (.table [⟨1, "FOMC", some "high"⟩]) ⟨0, 23⟩ = (true, none) ∧
    ¬ SeesEventsAhead [] (.table [⟨1, "FOMC", some "high"⟩]) ⟨0, 23⟩ := by
  have hclear : isEventClear (.table [⟨1, "FOMC", some "high"⟩]) ⟨0, 23⟩ = (true, none) := by decide
  refine ⟨hclear, fun h => ?_⟩
  have hseen := h 1 (by decide) (Or.inl ⟨_, List.mem_cons_self, rfl, rfl⟩)
  exact absurd hseen (by decide)

section

variable {pd : Pandas} {calendar : Calendar} {now : DateTime} {klines : String → List Bar} {symbol : String}
  {regimeResult : MarketRegimeResult} {result : ScanResult} {bars : List Bar}

/-! ## The event blackout -/

def EventSkip (result : ScanResult) : Prop := ∃ reason, result.skipReason = some (.eventBlocked reason)

/-- The symbol is left out for an event exactly when one is reported, and graded as clear of events exactly when none
is. -/
def EventPolarity (pd : Pandas) (calendar : Calendar) (now : DateTime) (klines : String → List Bar) (symbol : String) :
    Prop :=
  ∃ result, scanSymbol pd calendar now klines symbol = .ok result ∧
    (EventSkip result ↔ (isEventClear calendar now).1 = false) ∧
    (result.direction ≠ none → (result.eventOk = true ↔ (isEventClear calendar now).1 = true))

theorem getMarketRegime_event (hbars : EMA_PERIOD + 2 ≤ bars.length)
    (h : getMarketRegime pd calendar now bars = .ok regimeResult) :
    regimeResult.eventBlocked = (isEventClear calendar now).1 := by
  unfold getMarketRegime at h
  rw [if_neg (not_lt.mpr hbars)] at h
  cases hlast : pd.getItem (Domain.ewmSpan EMA_PERIOD (bars.map Bar.close)) (-1) with
  | error e => simp [hlast, bind, Except.bind] at h
  | ok last =>
      cases hprev : pd.getItem (Domain.ewmSpan EMA_PERIOD (bars.map Bar.close)) (-2) with
      | error e => simp [hlast, hprev, bind, Except.bind] at h
      | ok prev =>
          simp only [hlast, hprev, bind, Except.bind, pure, Except.pure, Except.ok.injEq] at h
          rw [← h]

theorem scanWith_eventSkip_iff (h : scanWith pd symbol regimeResult = .ok result) :
    EventSkip result ↔ regimeResult.eventBlocked = true := by
  rcases scanWith_cases h with ⟨hblocked, rfl⟩ | ⟨reason, hclear, hreason, rfl⟩ | ⟨bars, candidate, hclear, -, hgraded⟩
  · exact iff_of_true ⟨_, rfl⟩ hblocked
  · refine iff_of_false ?_ (by rw [hclear]; exact Bool.false_ne_true)
    rintro ⟨block, hblock⟩
    exact hreason block (Option.some.inj hblock)
  · refine iff_of_false ?_ (by rw [hclear]; exact Bool.false_ne_true)
    rintro ⟨block, hblock⟩
    obtain ⟨reasons, hreasons⟩ := (gradeCandidate_eq_ok hgraded).skip_reason _ hblock
    cases hreasons

theorem scanSymbol_eq_ok (h : scanSymbol pd calendar now klines symbol = .ok result) :
    ∃ regimeResult, getMarketRegime pd calendar now (fetch4hBars klines symbol) = .ok regimeResult ∧
      scanWith pd symbol regimeResult = .ok result := by
  unfold scanSymbol at h
  cases hregime : getMarketRegime pd calendar now (fetch4hBars klines symbol) with
  | error e => simp [hregime, bind, Except.bind] at h
  | ok regimeResult =>
      simp only [hregime, bind, Except.bind] at h
      exact ⟨regimeResult, rfl, h⟩

/-- What `is_event_clear` calls clear is taken for a block. -/
theorem eventSkip_iff_clear (hbars : EMA_PERIOD + 2 ≤ (fetch4hBars klines symbol).length)
    (h : scanSymbol pd calendar now klines symbol = .ok result) :
    EventSkip result ↔ (isEventClear calendar now).1 = true := by
  obtain ⟨regimeResult, hregime, hscan⟩ := scanSymbol_eq_ok h
  rw [scanWith_eventSkip_iff hscan, getMarketRegime_event hbars hregime]

/-- **The blackout is inverted** for every symbol with enough history, in every calendar and however pandas reads the
averages. -/
theorem blackout_inverted (hbars : EMA_PERIOD + 2 ≤ (fetch4hBars klines symbol).length) :
    ¬ EventPolarity pd calendar now klines symbol := by
  rintro ⟨result, hresult, hskip, -⟩
  rw [eventSkip_iff_clear hbars hresult] at hskip
  cases hclear : (isEventClear calendar now).1 <;> simp [hclear] at hskip

end

/-- A market that does not move. -/
def flatKlines (_ : String) : List Bar := List.replicate 74 ⟨100, 101, 99, 100, 1⟩

theorem flat_blackout_inverted :
    ¬ EventPolarity .byLabel (.table [⟨0, "CPI", some "high"⟩]) ⟨0, 12⟩ flatKlines "BTCUSDT" :=
  blackout_inverted (by decide +kernel)

/-- Nothing is on the calendar, and the symbol is left out as blocked by nothing; as pandas reads it, there is no result
at all. -/
theorem quiet_symbol_blocked :
    scanSymbol .byPosition (.table []) ⟨0, 12⟩ flatKlines "BTCUSDT" = .ok (makeSkip "BTCUSDT" (.eventBlocked none)) ∧
    ¬ EventPolarity .byPosition (.table []) ⟨0, 12⟩ flatKlines "BTCUSDT" ∧
    ¬ EventPolarity .byLabel (.table []) ⟨0, 12⟩ flatKlines "BTCUSDT" := by
  have hposition : scanSymbol .byPosition (.table []) ⟨0, 12⟩ flatKlines "BTCUSDT" =
      .ok (makeSkip "BTCUSDT" (.eventBlocked none)) := by decide +kernel
  have hlabel : scanSymbol .byLabel (.table []) ⟨0, 12⟩ flatKlines "BTCUSDT" = .error ⟨-1⟩ := by decide +kernel
  have hclear : (isEventClear (.table []) ⟨0, 12⟩).1 = true := by decide
  refine ⟨hposition, ?_, ?_⟩
  · rintro ⟨result, hresult, hskip, -⟩
    rw [hposition, Except.ok.injEq] at hresult
    have hblocked := hskip.mp ⟨none, by rw [← hresult]; rfl⟩
    rw [hclear] at hblocked
    cases hblocked
  · rintro ⟨result, hresult, -⟩
    rw [hlabel] at hresult
    cases hresult

/-! ## The candidate -/

/-- `_detect_harmonic_candidate` reports the best candidate of the engine, and falls back on the heuristic where the
engine raises only. -/
structure DetectsBest (contracts : Bool) (bars : List Bar) (best : Domain.Candidate) : Prop where
  reported : ∃ report, detectHarmonicCandidate contracts bars = some report ∧ report.pattern = best.name ∧
    (report.direction = .bullish ↔ best.bullish = true)
  from_engine : ∃ report, engineCandidate contracts bars = .ok (some report)

theorem engineCandidate_eq (contracts : Bool) (bars : List Bar) : engineCandidate contracts bars =
    if contracts then .error (.violation "detection_result must be a dict") else .ok none := by
  cases contracts <;> rfl

theorem detectHarmonicCandidate_eq (contracts : Bool) (bars : List Bar) : detectHarmonicCandidate contracts bars =
    if contracts then (fallbackCandidate bars).map fun candidate => { candidate with rawCandidate := none }
    else none := by
  cases contracts <;> rfl

/-- **The engine is never heard,** whatever candidates it has: the scan reports what the heuristic finds in the frame,
and without contracts nothing. -/
theorem engine_never_heard (contracts : Bool) (bars : List Bar) :
    (∀ report, detectHarmonicCandidate contracts bars = some report → report.rawCandidate = none) ∧
      ∀ best, ¬ DetectsBest contracts bars best := by
  constructor
  · intro report hreport
    rw [detectHarmonicCandidate_eq] at hreport
    cases contracts with
    | false => cases hreport
    | true =>
        obtain ⟨candidate, -, rfl⟩ := Option.map_eq_some_iff.mp hreport
        rfl
  · intro best h
    obtain ⟨report, hreport⟩ := h.from_engine
    rw [engineCandidate_eq] at hreport
    cases contracts <;> cases hreport

/-- A bullish bat at a price of one hundred. -/
def batPattern : Engine.RawPattern where
  y := some [95, 120, 105, 115, 100]
  x := []
  completionMinPrice := some 99
  completionMaxPrice := some 101
  name := some "bat"
  bullish := some true

def batDetection : Engine.Detection where
  hasPatterns := true
  rawAssessment := some ⟨[("XABCD", [batPattern])], []⟩
  divergences := none

/-- The engine has a bullish bat; the scan reports a bearish Gartley. -/
theorem bat_reported_gartley :
    (∃ best, Engine.extractCandidates batDetection none = [best] ∧ best.name = "bat" ∧ best.bullish = true ∧
      ¬ DetectsBest true (flatKlines "BTCUSDT") best) ∧
    (detectHarmonicCandidate true (flatKlines "BTCUSDT")).map (fun r => (r.pattern, r.direction)) =
      some ("Gartley", .bearish) := by
  constructor
  · refine ⟨_, rfl, rfl, rfl, fun h => ?_⟩
    obtain ⟨report, hreport⟩ := h.from_engine
    rw [engineCandidate_eq] at hreport
    cases hreport
  · rw [detectHarmonicCandidate_eq]
    decide +kernel

/-! ## The levels -/

theorem scanWith_levels {pd : Pandas} {symbol : String} {regimeResult : MarketRegimeResult} {result : ScanResult}
    {direction : Direction} (h : scanWith pd symbol regimeResult = .ok result)
    (hdirection : result.direction = some direction) :
    ∃ bars, regimeResult.bars4h = some bars ∧ result.levels = levels direction result.entryPrice bars := by
  rcases scanWith_cases h with ⟨-, rfl⟩ | ⟨reason, -, -, rfl⟩ | ⟨bars, candidate, -, hbars, hgraded⟩
  · cases hdirection
  · cases hdirection
  · have hresult := gradeCandidate_eq_ok hgraded
    rw [hresult.direction, Option.some.injEq] at hdirection
    exact ⟨bars, hbars, hdirection ▸ hresult.levels⟩

/-- **The levels form a trade** for bullish signals that the grid of prices resolves, and for no others. They are the
levels of every result past the candidate. -/
theorem levels_form_trade_iff (direction : Direction) (entry : ℚ) (bars : List Bar) :
    (FormsTrade direction entry (levels direction entry bars) ↔
      direction = .bullish ∧ Resolves entry (stopDistance entry bars)) ∧
    ∀ pd symbol regimeResult result, scanWith pd symbol regimeResult = .ok result →
      result.direction = some direction →
        ∃ bars, regimeResult.bars4h = some bars ∧ result.levels = levels direction result.entryPrice bars := by
  refine ⟨?_, fun pd symbol regimeResult result => scanWith_levels⟩
  cases direction with
  | bullish => rw [bullish_forms_trade_iff, eq_self, true_and]
  | bearish => exact iff_of_false (fun h => bearish_not_ordered entry bars h.ordered) fun h => by cases h.1

/-- From 100 with an ATR of 2 the bearish targets are 107.5 and 112.5. -/
theorem bearish_targets_above :
    ¬ ∀ direction entry bars, 0 < entry → FormsTrade direction entry (levels direction entry bars) := by
  intro h
  exact bearish_not_ordered 100 (flatKlines "") (h .bearish 100 (flatKlines "") (by norm_num)).ordered

/-! ## The grade -/

/-- What `grade_signal` makes of the evidence, and of the evidence with a piece more favourable. -/
structure WellGraded (e e' : Evidence) : Prop where
  nonneg : 0 ≤ e.graded.total
  le_hundred : e.graded.total ≤ 100
  low_ratio : e.rrRatio < MIN_RR_RATIO → e.graded.grade = .skip
  total_le : e.graded.total ≤ e'.graded.total
  grade_le : Evidence.gradeRank e.graded.grade ≤ Evidence.gradeRank e'.graded.grade

/-- **The grades** are sound but where a low ratio meets evidence of eighty points, and where a direction against the
market comes into a neutral one, whose credit is less. -/
theorem wellGraded_iff {e e' : Evidence} (h : e.Strengthens e') :
    WellGraded e e' ↔ ( MIN_RR_RATIO ≤ e.rrRatio ∨ e.points < 80) ∧
      ¬ (Evidence.LosesCredit e e' ∧ ( MIN_RR_RATIO ≤ e.rrRatio ∨ 20 < e.points)) := by
  rw [← h.total_le_iff]
  constructor
  · intro hgraded
    refine ⟨?_, hgraded.total_le⟩
    by_cases hratio : MIN_RR_RATIO ≤ e.rrRatio
    · exact Or.inl hratio
    · have hlow : e.rrRatio < MIN_RR_RATIO := not_le.mp hratio
      exact Or.inr ((Evidence.low_ratio_skipped_iff hlow).mp (hgraded.low_ratio hlow))
  · rintro ⟨hratio, htotal⟩
    constructor
    · exact e.graded_bounds.1
    · exact e.graded_bounds.2
    · intro hlow
      exact (Evidence.low_ratio_skipped_iff hlow).mpr (hratio.resolve_left (not_le.mpr hlow))
    · exact htotal
    · rw [Evidence.graded_grade, Evidence.graded_grade]
      exact Evidence.gradeRank_mono htotal

theorem one_normalised : (0 : ℚ) ≤ 1 ∧ (1 : ℚ) ≤ 1 := ⟨zero_le_one, le_rfl⟩

/-- Everything speaks for the signal but the ratio. -/
def fullEvidence (rrRatio : ℚ) : Evidence where
  patternScore := 1
  rsiDivergence := true
  volumeConfirm := true
  regimeResult := ⟨.bullMarket, .finite 1, 1, false, none, none⟩
  direction := .bullish
  rrRatio := rrRatio
  atrRatio := 1
  eventClear := true
  normalised := one_normalised

theorem good_ratio_graded : WellGraded (fullEvidence 2) (fullEvidence 3) :=
  (wellGraded_iff (.rrRatio (fullEvidence 2) (by norm_num [fullEvidence]))).mpr
    ⟨Or.inl (by norm_num [fullEvidence, MIN_RR_RATIO]), fun h => absurd h.1.1 (by decide)⟩

/-- A bearish signal in a bull market. -/
def againstMarket : Evidence := { fullEvidence 2 with direction := .bearish }

/-- The same signal in a neutral market. -/
def inNeutralMarket : Evidence := { againstMarket with regimeResult := ⟨.neutral, .finite 0, 1, false, none, none⟩ }

theorem againstMarket_strengthens : againstMarket.Strengthens inNeutralMarket :=
  .trend againstMarket (by decide)

/-- A ratio of one half is graded medium; against the market a signal has five points more than in a neutral one. -/
theorem poor_ratio_medium : (fullEvidence (1 / 2)).graded.grade = .medium ∧
    ¬ WellGraded (fullEvidence (1 / 2)) (fullEvidence 1) ∧
    ¬ ∀ e e' : Evidence, e.Strengthens e' → MIN_RR_RATIO ≤ e.rrRatio → e.graded.total ≤ e'.graded.total := by
  have hmedium : (fullEvidence (1 / 2)).graded.grade = .medium := by decide +kernel
  refine ⟨hmedium, fun h => ?_, fun h => ?_⟩
  · have hskip := h.low_ratio (by norm_num [fullEvidence, MIN_RR_RATIO])
    rw [hmedium] at hskip
    cases hskip
  · have hratio : MIN_RR_RATIO ≤ againstMarket.rrRatio := by norm_num [againstMarket, fullEvidence, MIN_RR_RATIO]
    have hle := h _ _ againstMarket_strengthens hratio
    exact absurd hle (by decide +kernel)

/-! ## Notifications -/

/-- **The discipline is kept** over every sequence of calls whose scans meet it, after each user and after each call. -/
theorem notification_discipline (calls : List (List Visit)) (h : Steps.Along visitUser Meets {} calls.flatten) :
    Steps.Always visitUser Discipline {} calls.flatten ∧ Discipline (Steps.run scanAllUsers {} calls) := by
  have halways : Steps.Always visitUser Discipline {} calls.flatten :=
    Steps.always_of_along (fun _ hk => hk.discipline) (fun _ _ hk hm => hk.visitUser hm) kept_start h
  exact ⟨halways, run_scanAllUsers {} calls ▸ halways.run⟩

/-- A signal as `scan_symbol` grades it in a market of its direction. -/
def mediumSignal (direction : Direction) : ScanResult where
  symbol := "BTCUSDT"
  pattern := "Gartley"
  direction := some direction
  score := 64
  grade := .medium
  entryPrice := 100
  skipped := false
  skipReason := none
  skipped_iff := by simp

/-- One signal on the watchlist of a user. -/
def oneSignal (prefs : NotificationPrefs) (direction : Direction) (wait : ℕ) (send : Message → SendOutcome) : Visit where
  userId := "alice"
  prefs := prefs
  wait := wait
  items := [⟨"BTCUSDT", .result (mediumSignal direction), true⟩]
  send := send

/-- Every post arrives. -/
def oneCall : List (List Visit) :=
  [[oneSignal { dingtalkWebhookUrl := some "https://oapi.dingtalk.com" } .bullish 0 fun _ => .delivered]]

theorem one_call_disciplined : Discipline (Steps.run scanAllUsers {} oneCall) := by
  have hmeets : Meets {} (oneSignal { dingtalkWebhookUrl := some "https://oapi.dingtalk.com" } .bullish 0
      fun _ => .delivered) := by
    refine ⟨rfl, fun s hs => absurd hs List.not_mem_nil, fun _ => ⟨fun n r _ => ?_, fun n r _ => ?_, fun d hd => ?_⟩⟩
    · exact ⟨by simp [oneSignal], rfl, rfl⟩
    · exact ⟨rfl, fun h => by cases h⟩
    · exact absurd hd List.not_mem_nil
  exact (notification_discipline oneCall ⟨hmeets, trivial⟩).2

def bearishOnly : NotificationPrefs where
  dingtalkWebhookUrl := some "https://oapi.dingtalk.com"
  notifyBearishOnly := true

/-- The webhook takes the summary and no signal. -/
def summariesOnly : Message → SendOutcome
  | .signal .. => .failed
  | .dailySummary .. => .delivered

/-- Two calls, two hours apart, for a user who wants bearish signals every four hours. -/
def twoCalls : List (List Visit) :=
  [[oneSignal bearishOnly .bullish 0 summariesOnly], [oneSignal bearishOnly .bullish (2 * HOUR) summariesOnly]]

def afterTwoCalls : World := Steps.run scanAllUsers {} twoCalls

theorem afterTwoCalls_dispatches : afterTwoCalls.dispatches =
    [⟨0, "alice", bearishOnly, 0, .signal 0 (mediumSignal .bullish), false⟩,
     ⟨0, "alice", bearishOnly, 0, .dailySummary 1 [] [(0, mediumSignal .bullish)], true⟩,
     ⟨1, "alice", bearishOnly, 2 * HOUR, .signal 0 (mediumSignal .bullish), false⟩,
     ⟨1, "alice", bearishOnly, 2 * HOUR, .dailySummary 1 [] [(0, mediumSignal .bullish)], true⟩] := by
  decide +kernel

theorem afterTwoCalls_log : afterTwoCalls.log =
    [logScan 0 0 "alice" 0 "BTCUSDT" (mediumSignal .bullish) true,
     logScan 1 0 "alice" (2 * HOUR) "BTCUSDT" (mediumSignal .bullish) true] := by
  decide +kernel

theorem afterTwoCalls_scans : afterTwoCalls.scans = [⟨"alice", 4, 0⟩, ⟨"alice", 4, 2 * HOUR⟩] := by
  decide +kernel

/-- The bullish signal is posted and logged as sent, which it is not; the second scan comes after two hours, with the
second summary of the day. -/
theorem two_calls_undisciplined : ¬ Discipline (Steps.run scanAllUsers {} twoCalls) ∧
    (∃ row ∈ afterTwoCalls.log, row.isSent = true ∧
      ∀ d ∈ afterTwoCalls.dispatches, ¬ (d.delivered = true ∧ d.Reports row)) ∧
    (∃ d ∈ afterTwoCalls.dispatches, ∃ n r, d.message = .signal n r ∧ ¬ Wanted d.prefs r) ∧
    (¬ afterTwoCalls.dispatches.Pairwise fun a b =>
      a.userId = b.userId → a.DailySummary → b.DailySummary → a.day ≠ b.day) ∧
    ¬ afterTwoCalls.scans.Pairwise fun a b =>
      a.userId = b.userId → (a.startedAt : ℤ) + b.intervalHours * HOUR ≤ b.startedAt := by
  have hunsent : ∃ row ∈ afterTwoCalls.log, row.isSent = true ∧
      ∀ d ∈ afterTwoCalls.dispatches, ¬ (d.delivered = true ∧ d.Reports row) := by
    rw [afterTwoCalls_log, afterTwoCalls_dispatches]
    exact ⟨_, List.mem_cons_self, rfl, by simp [Dispatch.Reports]⟩
  refine ⟨fun h => ?_, hunsent, ?_, ?_, ?_⟩
  · obtain ⟨row, hrow, hsent, hnone⟩ := hunsent
    obtain ⟨d, hd, hreports⟩ := (h.sent_iff row hrow).mp hsent
    exact hnone d hd hreports
  · rw [afterTwoCalls_dispatches]
    exact ⟨_, List.mem_cons_self, 0, _, rfl, fun h => by cases h.2.2 rfl⟩
  · rw [afterTwoCalls_dispatches]
    intro h
    have hsummaries := (List.pairwise_cons.mp (List.pairwise_cons.mp h).2).1 _
      (List.mem_cons_of_mem _ List.mem_cons_self)
    exact hsummaries rfl ⟨⟨_, _, _, rfl⟩, rfl⟩ ⟨⟨_, _, _, rfl⟩, rfl⟩ (by decide)
  · rw [afterTwoCalls_scans]
    intro h
    have hlate := (List.pairwise_cons.mp h).1 _ List.mem_cons_self rfl
    exact absurd hlate (by decide)

end CryptoAggHarmonic.Scan
