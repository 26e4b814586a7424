import CryptoAggHarmonic.RsiPlan.Service
import CryptoAggHarmonic.RsiTrend.Lemmas.Prefix
import CryptoAggHarmonic.RsiTrend.Lemmas.Trade
import CryptoAggHarmonic.Lib.Memo
import CryptoAggHarmonic.Lib.Steps

/-!
# The signal that a plan trades

When `build_plan` decides to trade, read off the rows: the last bar with an entry, and what the last bar of the frame
says about it.
-/

namespace CryptoAggHarmonic.RsiPlan

open RsiTrend
open Oriented (Lt)
open Domain (Direction)

/-! ## The last entry -/

theorem getLast?_filterMap_iff {α β : Type} {f : α → Option β} {xs : List α} {b : β} :
    (xs.filterMap f).getLast? = some b ↔
      ∃ (i : ℕ) (a : α), xs[i]? = some a ∧ f a = some b ∧ ∀ (j : ℕ) a', i < j → xs[j]? = some a' → f a' = none := by
  induction xs with
  | nil => simp
  | cons x xs ih =>
      constructor
      · intro h
        cases hlast : (xs.filterMap f).getLast? with
        | some b' =>
            have hb : b' = b := by
              cases hx : f x <;> simp_all [List.getLast?_cons]
            obtain ⟨i, a, ha, hfa, hlater⟩ := ih.mp (hlast.trans (congrArg some hb))
            refine ⟨i + 1, a, ha, hfa, fun j a' hj hj' => ?_⟩
            obtain ⟨j, rfl⟩ : ∃ k, j = k + 1 := ⟨j - 1, by omega⟩
            exact hlater j a' (by omega) hj'
        | none =>
            have hnil : xs.filterMap f = [] := List.getLast?_eq_none_iff.mp hlast
            have hx : f x = some b := by
              cases hx : f x <;> simp_all
            refine ⟨0, x, rfl, hx, fun j a' hj hj' => ?_⟩
            obtain ⟨j, rfl⟩ : ∃ k, j = k + 1 := ⟨j - 1, by omega⟩
            exact List.filterMap_eq_nil_iff.mp hnil a' (List.mem_of_getElem? hj')
      · rintro ⟨i, a, ha, hfa, hlater⟩
        cases i with
        | zero =>
            cases ha
            have hnil : xs.filterMap f = [] := by
              refine List.filterMap_eq_nil_iff.mpr fun a' ha' => ?_
              obtain ⟨j, hj⟩ := List.mem_iff_getElem?.mp ha'
              exact hlater (j + 1) a' (by omega) hj
            simp [hfa, hnil]
        | succ i =>
            have hlast := ih.mpr ⟨i, a, ha, hfa, fun j a' hj hj' => hlater (j + 1) a' (by omega) hj'⟩
            cases hx : f x <;> simp [hx, List.getLast?_cons, hlast]

section

variable {o : ScanSettings} {df : List Row} {rows : List (IndicatorRow × ℕ)} {row : IndicatorRow} {signals : List Signal}
  {s : Signal} {i : ℕ}

/-- What the scan keeps of a row. -/
def entryAt (o : ScanSettings) (row : IndicatorRow) (i : ℕ) : Option Signal :=
  match detectAt o row i with
  | .ok (some s) => if s.qualityScore ≥ max 0 (min o.minQualityScore 100) then some s else none
  | _ => none

theorem entryAt_eq_some (h : entryAt o row i = some s) : detectAt o row i = .ok (some s) := by
  unfold entryAt at h
  split at h
  · rename_i s' hs
    split_ifs at h
    rw [hs, Option.some.inj h]
  · cases h

theorem scan_eq_ok_iff : scan o rows = .ok signals ↔
    (∀ x ∈ rows, x.1.rsi ≠ .na) ∧ signals = rows.filterMap fun x => entryAt o x.1 x.2 := by
  have hkept : ∀ kept, scan o rows = .ok kept → kept = rows.filterMap fun x => entryAt o x.1 x.2 := by
    intro kept h
    obtain ⟨found, hfound, rfl⟩ := scan_eq_ok h
    clear h
    induction hfound with
    | nil => rfl
    | @cons x y _ _ hx _ ih =>
        have hentry : entryAt o x.1 x.2 = y.filter (·.qualityScore ≥ max 0 (min o.minQualityScore 100)) := by
          cases y with
          | none => simp [entryAt, hx]
          | some s => simp [entryAt, hx, Option.filter]
        rw [List.filterMap_cons, hentry, ← ih]
        cases y with
        | none => simp [List.reduceOption]
        | some s =>
            rw [List.reduceOption_cons_of_some, List.filter_cons]
            by_cases hs : s.qualityScore ≥ max 0 (min o.minQualityScore 100)
            · simp only [Option.filter, hs, decide_true, if_true]
            · simp only [Option.filter, hs, decide_false, Bool.false_eq_true, if_false]
  constructor
  · intro h
    refine ⟨fun x hx hna => ?_, hkept signals h⟩
    rw [scan_of_na hx hna] at h
    cases h
  · rintro ⟨hnum, rfl⟩
    cases h : scan o rows with
    | error e =>
        obtain ⟨x, hx, hna, -⟩ := scan_eq_error h
        exact absurd hna (hnum x hx)
    | ok kept => rw [hkept kept h]

/-- Row `i` is the last one with an entry, and the scan gets through. -/
structure LatestEntry (o : ScanSettings) (df : List Row) (i : ℕ) (row : IndicatorRow) (s : Signal) : Prop where
  warm : WARMUP_BARS ≤ i
  at_row : (computeIndicators df)[i]? = some row
  entry : entryAt o row i = some s
  none_later : ∀ j row', i < j → (computeIndicators df)[j]? = some row' → entryAt o row' j = none
  numbers : ∀ (j : ℕ) row', WARMUP_BARS ≤ j → (computeIndicators df)[j]? = some row' → row'.rsi ≠ .na

theorem LatestEntry.lt_length (h : LatestEntry o df i row s) : i < df.length := by
  have hlt := (List.getElem?_eq_some_iff.mp h.at_row).choose
  rwa [length_computeIndicators] at hlt

theorem latestEntry_iff : (∃ signals, detectSignalsCore o df = .ok signals ∧ signals.getLast? = some s) ↔
    ∃ i row, LatestEntry o df i row s := by
  constructor
  · rintro ⟨signals, hscan, hlast⟩
    have hlong : WARMUP_BARS < df.length := by
      by_contra hshort
      rw [detectSignalsCore_short (not_lt.mp hshort)] at hscan
      cases hscan
      cases hlast
    rw [detectSignalsCore_long hlong, scan_eq_ok_iff] at hscan
    obtain ⟨hnum, rfl⟩ := hscan
    obtain ⟨k, x, hx, hentry, hlater⟩ := getLast?_filterMap_iff.mp hlast
    rw [List.getElem?_drop, List.getElem?_zipIdx, Option.map_eq_some_iff] at hx
    obtain ⟨row, hrow, rfl⟩ := hx
    refine ⟨WARMUP_BARS + k, row, by omega, hrow, by simpa using hentry, fun j row' hj hrow' => ?_,
      fun j row' hj hrow' => hnum (row', j) (mem_zipIdx_drop.mpr ⟨hj, hrow'⟩)⟩
    refine hlater (j - WARMUP_BARS) (row', j) (by omega) ?_
    rw [List.getElem?_drop, List.getElem?_zipIdx, Nat.add_sub_cancel' (by omega), hrow']
    simp
  · rintro ⟨i, row, h⟩
    have hscan : detectSignalsCore o df = .ok (((computeIndicators df).zipIdx.drop WARMUP_BARS).filterMap
        fun x => entryAt o x.1 x.2) := by
      rw [detectSignalsCore_long (h.warm.trans_lt h.lt_length)]
      exact scan_eq_ok_iff.mpr ⟨fun x hx => h.numbers x.2 x.1 (mem_zipIdx_drop.mp hx).1 (mem_zipIdx_drop.mp hx).2, rfl⟩
    refine ⟨_, hscan, getLast?_filterMap_iff.mpr ⟨i - WARMUP_BARS, (row, i), ?_, h.entry, fun j x hj hx => ?_⟩⟩
    · rw [List.getElem?_drop, List.getElem?_zipIdx, Nat.add_sub_cancel' h.warm, h.at_row]
      simp
    · have hmem := mem_zipIdx_drop.mp (List.mem_of_getElem? hx)
      rw [List.getElem?_drop, List.getElem?_zipIdx, Option.map_eq_some_iff] at hx
      obtain ⟨row', hrow', rfl⟩ := hx
      exact h.none_later _ row' (by simp only; omega) hmem.2

/-! ## The levels -/

/-- The stop that an entry on the row has. -/
def stopLevel (o : ScanSettings) (direction : Direction) (row : IndicatorRow) : ℚ :=
  match direction with
  | .long => row.row.low - o.atrMult * row.atr
  | .short => row.row.high + o.atrMult * row.atr

structure EntryLevels (o : ScanSettings) (row : IndicatorRow) (i : ℕ) (s : Signal) : Prop where
  index : s.index = i
  entry : s.entryPrice = row.row.close
  stop : s.stopLoss = stopLevel o s.direction row
  stop_entry : Lt (s.direction = .long) s.stopLoss s.entryPrice

theorem longEntry_levels {x y : ℚ} (h : longEntry o row x y i = some s) : EntryLevels o row i s := by
  unfold longEntry at h
  simp only at h
  split_ifs at h with _ hrisk
  cases h
  exact ⟨rfl, rfl, rfl, by simpa [Lt] using hrisk⟩

theorem shortEntry_levels {x y : ℚ} (h : shortEntry o row x y i = some s) : EntryLevels o row i s := by
  unfold shortEntry at h
  simp only at h
  split_ifs at h with _ _ hrisk
  cases h
  exact ⟨rfl, rfl, rfl, by simpa [Lt] using hrisk⟩

theorem detectAt_levels (h : detectAt o row i = .ok (some s)) : EntryLevels o row i s := by
  unfold detectAt at h
  split at h
  · cases h
  · cases h
  · cases h
  · simp only [Except.ok.injEq] at h
    split_ifs at h
    · exact longEntry_levels h
    · exact shortEntry_levels h

theorem LatestEntry.levels (h : LatestEntry o df i row s) : EntryLevels o row i s :=
  detectAt_levels (entryAt_eq_some h.entry)

end

/-! ## The decision -/

def trendOf : Direction → Trend
  | .long => .bullish
  | .short => .bearish

/-- What the four layers ask of the last row and of a signal of that age. -/
structure Supports (last : IndicatorRow) (s : Signal) (age : ℕ) : Prop where
  trend : (stateOf last).trend = trendOf s.direction
  near : |(stateOf last).deviationPct| < DEVIATION_WATCH_PCT
  apart : (stateOf last).entangled = false
  fresh : age ≤ STALE_BARS
  quality : QUALITY_HARD_FLOOR ≤ s.qualityScore

theorem trendFilter_eq_ok_iff {overview : MarketOverview} {direction : Direction} :
    trendFilter overview = .ok direction ↔
      overview.trend = trendOf direction ∧ |overview.deviationPct| < DEVIATION_WATCH_PCT ∧
        overview.entangled = false := by
  unfold trendFilter
  cases htrend : overview.trend with
  | neutral => cases direction <;> simp [trendOf]
  | bullish =>
      simp only [if_true, ← not_le]
      split_ifs with hnear hentangled
      · simp [hnear]
      · simp [hentangled]
      · cases direction <;> simp [hnear, hentangled, trendOf]
  | bearish =>
      simp only [reduceCtorEq, if_false, ← not_le]
      split_ifs with hnear hentangled
      · simp [hnear]
      · simp [hentangled]
      · cases direction <;> simp [hnear, hentangled, trendOf]

theorem trendFilter_error {overview : MarketOverview} {decision : Decision}
    (h : trendFilter overview = .error decision) : decision.action = .watch := by
  unfold trendFilter at h
  split at h
  · cases h
    rfl
  · simp only at h
    split_ifs at h
    all_goals
      cases h
      rfl

theorem evaluateDecision_none (overview : MarketOverview) (quality : ℚ) (age : ℕ) :
    (evaluateDecision overview none quality age).action ≠ .trade := by
  unfold evaluateDecision
  split
  · rename_i decision h
    simp [trendFilter_error h]
  · simp

theorem evaluateDecision_trade_iff {overview : MarketOverview} {s : Signal} {quality : ℚ} {age : ℕ} :
    (evaluateDecision overview (some s) quality age).action = .trade ↔
      trendFilter overview = .ok s.direction ∧ age ≤ STALE_BARS ∧ QUALITY_HARD_FLOOR ≤ quality := by
  unfold evaluateDecision
  cases h : trendFilter overview with
  | error decision => simp [trendFilter_error h]
  | ok direction =>
      by_cases hdirection : s.direction = direction
      · by_cases hage : age ≤ STALE_BARS
        · by_cases hquality : QUALITY_HARD_FLOOR ≤ quality
          · simp [hdirection, hage, hquality, not_lt.mpr hage, not_lt.mpr hquality]
          · simp [hdirection, hquality, not_lt.mpr hage, not_le.mp hquality]
        · simp [hdirection, hage, not_le.mp hage]
      · simp [hdirection, Ne.symm hdirection]

theorem evaluateDecision_direction {overview : MarketOverview} {s : Signal} {quality : ℚ} {age : ℕ}
    (h : (evaluateDecision overview (some s) quality age).action = .trade) :
    (evaluateDecision overview (some s) quality age).direction = some s.direction := by
  obtain ⟨htrend, hage, hquality⟩ := evaluateDecision_trade_iff.mp h
  unfold evaluateDecision
  simp [htrend, not_lt.mpr hage, not_lt.mpr hquality]

theorem scanCore_eq_ok_iff {req : ScanRequest} {df : List Row} {core : ScanCore} :
    scanCore req df = .ok core ↔ WARMUP_BARS < df.length ∧
      ∃ signals, detectSignalsCore req.settings df = .ok signals ∧ core = ⟨df, currentStateCore df, signals⟩ := by
  unfold scanCore
  split_ifs with hempty hshort
  · simp [hempty]
  · simp [hshort]
  · cases detectSignalsCore req.settings df with
    | error e => simp
    | ok signals => simp [not_le.mp hshort, eq_comm]

theorem exists_lastRow {df : List Row} (h : 0 < df.length) : ∃ last, (computeIndicators df).getLast? = some last := by
  rw [← length_computeIndicators df] at h
  exact ⟨_, List.getLast?_eq_some_getLast (List.ne_nil_of_length_pos h)⟩

/-- **When it trades**: the last entry of the scan is supported by the last row. -/
theorem decide_trade_iff {req : ScanRequest} {df : List Row} {core : ScanCore} (h : scanCore req df = .ok core) :
    (decide core).action = .trade ↔ ∃ s last, core.signals.getLast? = some s ∧
      (computeIndicators df).getLast? = some last ∧ Supports last s (df.length - 1 - s.index) := by
  obtain ⟨hlong, signals, -, rfl⟩ := scanCore_eq_ok_iff.mp h
  obtain ⟨last, hlast⟩ := exists_lastRow (Nat.zero_lt_of_lt hlong)
  have hstate : currentStateCore df = some (stateOf last) := by
    simp [currentStateCore, not_le.mpr hlong, hlast]
  unfold decide
  cases hsignal : signals.getLast? with
  | none => simp [evaluateDecision_none]
  | some s =>
      simp only [hstate, evaluateDecision_trade_iff, trendFilter_eq_ok_iff, hlast, Option.some.injEq,
        buildMarketOverview, signalAge]
      constructor
      · rintro ⟨⟨htrend, hnear, hapart⟩, hage, hquality⟩
        exact ⟨s, last, rfl, rfl, htrend, hnear, hapart, hage, hquality⟩
      · rintro ⟨s', last', rfl, rfl, hs⟩
        exact ⟨⟨hs.trend, hs.near, hs.apart⟩, hs.fresh, hs.quality⟩

/-! ## The published plan -/

theorem buildPlan_eq_ok {out : Outside} {cache : AiCache} {call : PlanCall} {result : TradingPlan}
    (h : (buildPlan out cache call).2 = .ok result) :
    ∃ core, scanCore call.req call.df = .ok core ∧ result.decision = decide core ∧
      planFor (call.profiles call.userId) core = .ok result.plan := by
  unfold buildPlan at h
  cases hcore : scanCore call.req call.df with
  | error e => simp [hcore] at h
  | ok core =>
      cases hplan : planFor (call.profiles call.userId) core with
      | error e => simp [hcore, hplan] at h
      | ok plan =>
          cases hinsight : (insightFor out cache call.req (promptOf out.repr core plan)).2 with
          | error e => simp [hcore, hplan, hinsight, Except.map] at h
          | ok insight =>
              simp only [hcore, hplan, Prod.map_snd, hinsight, Except.map, Except.ok.injEq] at h
              exact ⟨core, rfl, by rw [← h], by rw [← h]; exact hplan⟩

/-- Without a configured position and without an answer of the LLM, nothing stops a plan. -/
theorem exists_buildPlan {req : ScanRequest} {df : List Row} {core : ScanCore} (h : scanCore req df = .ok core) :
    ∃ out cache userId profiles result, (buildPlan out cache ⟨req, userId, df, profiles⟩).2 = .ok result ∧
      result.decision = decide core := by
  refine ⟨⟨fun _ => "", fun _ => .invalid, fun _ => none⟩, [], "", fun _ => none, ?_⟩
  obtain ⟨plan, hplan⟩ : ∃ plan, planFor none core = .ok plan := by
    unfold planFor
    split
    · exact ⟨_, rfl⟩
    · exact ⟨_, rfl⟩
  unfold buildPlan
  cases hprompt : promptOf (fun _ => "") core plan with
  | none => simp [h, hplan, hprompt, insightFor, Except.map]
  | some prompt => simp [h, hplan, hprompt, insightFor, aiInsight, AiCache.get?, Except.map]

theorem planFor_trade {cfg : Option PositionConfigDict} {core : ScanCore} {s : Signal} {plan : Option Plan}
    (htrade : (decide core).action = .trade) (hs : core.signals.getLast? = some s) (h : planFor cfg core = .ok plan) :
    (decide core).direction = some s.direction ∧ ∃ p, plan = some p ∧ p.entry = s.entryPrice ∧ p.stop = s.stopLoss ∧
      p.targets = computeTargets s.entryPrice s.stopLoss s.direction := by
  have hdirection : (decide core).direction = some s.direction := by
    unfold decide at htrade ⊢
    rw [hs] at htrade ⊢
    exact evaluateDecision_direction htrade
  refine ⟨hdirection, ?_⟩
  simp only [planFor, htrade, hdirection, hs, planOf] at h
  cases hposition : loadPosition cfg s.entryPrice s.stopLoss (buildMarketOverview core.state).volatilityRegime with
  | error e => simp [hposition, Except.map] at h
  | ok position =>
      simp only [hposition, Except.map, Except.ok.injEq] at h
      exact ⟨_, h.symm, rfl, rfl, rfl⟩

end CryptoAggHarmonic.RsiPlan

/-!
# The cache of the insights

A call of `build_plan` asks the LLM with its prompt, under the key of its request; what it shows of the answer is
remembered under that key.
-/

namespace CryptoAggHarmonic.RsiPlan

variable {out : Outside} {cache : AiCache} {call : PlanCall} {calls : List PlanCall}

/-- The texts of an insight. -/
def Insight.texts (i : Insight) : String × String := (i.summary, i.riskNote)

/-- The insight that a call shows, without the mark that it was cached. -/
def shown (answer : Except PlanError TradingPlan) : Option (String × String) :=
  match answer with
  | .ok plan => plan.aiInsight.map Insight.texts
  | .error _ => none

/-- The prompt for the plan of a call. -/
def promptFor (repr : ℚ → String) (call : PlanCall) : Option String :=
  match scanCore call.req call.df with
  | .error _ => none
  | .ok core =>
      match planFor (call.profiles call.userId) core with
      | .error _ => none
      | .ok plan => promptOf repr core plan

/-- The insight that is generated from a prompt. -/
def generated (out : Outside) (prompt : String) : Option (String × String) :=
  (out.complete prompt).bind fun text =>
    match parseAiResponse out.loads text with
    | .ok insight => insight.map Insight.texts
    | .error _ => none

/-- What a call asks, and under which key. -/
def question (repr : ℚ → String) (call : PlanCall) : Option (String × String) :=
  (promptFor repr call).map (cacheKey call.req, ·)

/-- The texts that are cached. -/
def AiCache.texts (cache : AiCache) : List (String × String × String) := cache.map fun e => (e.1, e.2.texts)

theorem AiCache.get?_texts (cache : AiCache) (key : String) :
    Memo.get? cache.texts key = (cache.get? key).map Insight.texts := by
  unfold AiCache.get? Memo.get? AiCache.texts
  rw [List.find?_map, Option.map_map, Option.map_map]
  rfl

/-- The texts of what `_ai_insight` gives. -/
def answerTexts (answer : Except PlanError (Option Insight)) : Option (String × String) :=
  match answer with
  | .ok insight => insight.map Insight.texts
  | .error _ => none

theorem texts_cons (key : String) (insight : Insight) :
    AiCache.texts ((key, insight) :: cache) = (key, insight.texts) :: cache.texts := rfl

theorem aiInsight_eq (req : ScanRequest) (prompt : String) :
    ((aiInsight out cache req prompt).1.texts, answerTexts (aiInsight out cache req prompt).2) =
      Memo.ask (generated out) cache.texts (some (cacheKey req, prompt)) := by
  cases hkey : cache.get? (cacheKey req) with
  | some insight =>
      have hhit : Memo.get? cache.texts (cacheKey req) = some insight.texts := by rw [AiCache.get?_texts, hkey]; rfl
      rw [Memo.ask_hit hhit]
      simp [aiInsight, hkey, answerTexts, Insight.texts]
  | none =>
      have hmiss : Memo.get? cache.texts (cacheKey req) = none := by rw [AiCache.get?_texts, hkey]; rfl
      cases hcomplete : out.complete prompt with
      | none => simp [aiInsight, hkey, Memo.ask, hmiss, generated, hcomplete, answerTexts]
      | some text =>
          rcases hparse : parseAiResponse out.loads text with e | - | insight
          · simp [aiInsight, hkey, Memo.ask, hmiss, generated, hcomplete, hparse, answerTexts]
          · simp [aiInsight, hkey, Memo.ask, hmiss, generated, hcomplete, hparse, answerTexts]
          · simp [aiInsight, hkey, Memo.ask, hmiss, generated, hcomplete, hparse, answerTexts, texts_cons]

theorem buildPlan_eq (out : Outside) (cache : AiCache) (call : PlanCall) :
    ((buildPlan out cache call).1.texts, shown (buildPlan out cache call).2) =
      Memo.ask (generated out) cache.texts (question out.repr call) := by
  cases hcore : scanCore call.req call.df with
  | error e => simp [buildPlan, question, promptFor, hcore, shown, Memo.ask]
  | ok core =>
      cases hplan : planFor (call.profiles call.userId) core with
      | error e => simp [buildPlan, question, promptFor, hcore, hplan, shown, Memo.ask]
      | ok plan =>
          cases hprompt : promptOf out.repr core plan with
          | none =>
              simp [buildPlan, question, promptFor, hcore, hplan, hprompt, insightFor, shown, Memo.ask, Except.map]
          | some prompt =>
              have hquestion : question out.repr call = some (cacheKey call.req, prompt) := by
                simp [question, promptFor, hcore, hplan, hprompt]
              rw [hquestion, ← aiInsight_eq]
              simp only [buildPlan, hcore, hplan, hprompt, insightFor, id_eq, Prod.map_fst, Prod.map_snd]
              rcases (aiInsight out cache call.req prompt).2 with e | insight
              · rfl
              · rfl

/-- The texts a process shows. -/
def shownBy (out : Outside) (calls : List PlanCall) : List (Option (String × String)) :=
  (Steps.outputs (buildPlan out) [] calls).map shown

theorem shown_outputs (cache : AiCache) : (Steps.outputs (buildPlan out) cache calls).map shown =
    Memo.serve (generated out) cache.texts (calls.map (question out.repr)) := by
  induction calls generalizing cache with
  | nil => rfl
  | cons call calls ih =>
      have hcall := buildPlan_eq out cache call
      rw [Steps.outputs, List.map_cons, List.map_cons, Memo.serve, ih, ← hcall]

theorem shownBy_eq : shownBy out calls = Memo.serve (generated out) [] (calls.map (question out.repr)) :=
  shown_outputs []

end CryptoAggHarmonic.RsiPlan
