import CryptoAggHarmonic.RsiPlan.Lemmas.Live
import CryptoAggHarmonic.RsiTrend.Lemmas.Detection
import CryptoAggHarmonic.Capital.Calculator

/-!
# Properties of a trading plan

The size of its position in the unit of the capital, whose plan the insight is about, and whether the trade is still
there to be made.
-/

namespace CryptoAggHarmonic.RsiPlan

open Rounding RsiTrend
open Capital (parseCapitalInput)
open Domain (Direction)
open Oriented (Lt)

/-! ## The unit -/

/-- The size in U of a capital that is typed in U. -/
def sizeU (capitalU entry stop : ℚ) (appetite : RiskAppetite) (regime : VolatilityRegime) : ℚ :=
  capitalU * appetite.riskPct / (|entry - stop| / entry) * if regime = .high then 1 / 2 else 1

/-- The capital goes from U to WU as on the page, and the size of the plan comes back: both its amounts are those of
`sizeU`, as far as they are rounded. -/
def KeepsUnit (capitalU entry stop : ℚ) (appetite : RiskAppetite) (regime : VolatilityRegime) : Prop :=
  ∀ wu warning plan, parseCapitalInput capitalU = .ok wu warning →
    computePosition entry stop wu appetite regime = .ok plan → plan.configured = true →
      plan.positionSizeU = some (roundTo 4 (sizeU capitalU entry stop appetite regime)) ∧
      plan.positionSizeWu = some (roundTo 2 (sizeU capitalU entry stop appetite regime / Capital.WU_UNIT))

theorem parseCapitalInput_eq {capitalU : ℚ} (h : 0 < capitalU) :
    ∃ warning, parseCapitalInput capitalU = .ok (capitalU / Capital.WU_UNIT) warning := by
  unfold parseCapitalInput
  rw [if_neg (not_le.mpr h)]
  dsimp only
  split_ifs
  · exact ⟨_, rfl⟩
  · exact ⟨_, rfl⟩

/-- The size in WU, before it is rounded. -/
def sizeWu (entry stop totalCapitalWu : ℚ) (appetite : RiskAppetite) (regime : VolatilityRegime) : ℚ :=
  let sizeWu := totalCapitalWu * appetite.riskPct / (|entry - stop| / entry)
  if regime = .high then sizeWu * VOLATILITY_SIZE_REDUCTION else sizeWu

/-- What the plan shows of a position with a risk. -/
theorem computePosition_configured {entry stop : ℚ} (wu : ℚ) (appetite : RiskAppetite) (regime : VolatilityRegime)
    (hentry : 0 < entry) (hstop : entry ≠ stop) :
    ∃ plan, computePosition entry stop wu appetite regime = .ok plan ∧ plan.configured = true ∧
      plan.positionSizeWu = some (roundTo 2 (sizeWu entry stop wu appetite regime)) ∧
      plan.positionSizeU = some (roundTo 4 (sizeWu entry stop wu appetite regime / WU_UNIT)) := by
  have hrisk : 0 < |entry - stop| / entry := div_pos (abs_pos.mpr (sub_ne_zero.mpr hstop)) hentry
  unfold computePosition sizeWu
  simp only [hentry.ne', if_false, not_le.mpr hrisk]
  cases regime <;> simp

theorem computePosition_sizes {entry stop : ℚ} (capitalU : ℚ) (appetite : RiskAppetite) (regime : VolatilityRegime)
    (hentry : 0 < entry) (hstop : entry ≠ stop) :
    ∃ plan, computePosition entry stop (capitalU / Capital.WU_UNIT) appetite regime = .ok plan ∧
      plan.configured = true ∧
      plan.positionSizeWu = some (roundTo 2 (sizeU capitalU entry stop appetite regime / Capital.WU_UNIT)) ∧
      plan.positionSizeU = some (roundTo 4 (sizeU capitalU entry stop appetite regime / 10 ^ 8)) := by
  have hsize : sizeU capitalU entry stop appetite regime / Capital.WU_UNIT =
      sizeWu entry stop (capitalU / Capital.WU_UNIT) appetite regime := by
    simp only [sizeU, sizeWu, VOLATILITY_SIZE_REDUCTION]
    split_ifs <;> ring
  have hwu : sizeU capitalU entry stop appetite regime / 10 ^ 8 =
      sizeU capitalU entry stop appetite regime / Capital.WU_UNIT / WU_UNIT := by
    rw [div_div]
    norm_num [Capital.WU_UNIT, WU_UNIT]
  rw [hwu, hsize]
  exact computePosition_configured _ appetite regime hentry hstop

theorem riskPct_pos (appetite : RiskAppetite) : 0 < appetite.riskPct := by
  cases appetite <;> norm_num [RiskAppetite.riskPct]

theorem computePosition_without_risk {entry stop wu : ℚ} {appetite : RiskAppetite} {regime : VolatilityRegime}
    {plan : PositionPlan} (hrisk : |entry - stop| / entry ≤ 0)
    (hplan : computePosition entry stop wu appetite regime = .ok plan) : plan.configured = false := by
  by_cases hentry : entry = 0
  · simp [computePosition, hentry] at hplan
  · simp [computePosition, hentry, hrisk] at hplan
    rw [← hplan]

/-- **The unit is kept** only where there is nothing to size. -/
theorem keepsUnit_iff (capitalU entry stop : ℚ) (appetite : RiskAppetite) (regime : VolatilityRegime) :
    KeepsUnit capitalU entry stop appetite regime ↔
      capitalU ≤ 0 ∨ entry ≤ 0 ∨ entry = stop ∨ sizeU capitalU entry stop appetite regime ≤ 1 / 20000 := by
  by_cases hcapital : capitalU ≤ 0
  · refine iff_of_true (fun wu warning plan hparse => ?_) (Or.inl hcapital)
    simp [parseCapitalInput, hcapital] at hparse
  by_cases hentry : entry ≤ 0
  · refine iff_of_true (fun wu warning plan _ hplan hconfigured => ?_) (Or.inr (Or.inl hentry))
    have hrisk : |entry - stop| / entry ≤ 0 := div_nonpos_of_nonneg_of_nonpos (abs_nonneg _) hentry
    rw [computePosition_without_risk hrisk hplan] at hconfigured
    cases hconfigured
  by_cases hstop : entry = stop
  · refine iff_of_true (fun wu warning plan _ hplan hconfigured => ?_) (Or.inr (Or.inr (Or.inl hstop)))
    rw [computePosition_without_risk (by simp [hstop]) hplan] at hconfigured
    cases hconfigured
  rw [not_le] at hcapital hentry
  obtain ⟨warning, hparse⟩ := parseCapitalInput_eq hcapital
  obtain ⟨plan, hplan, hconfigured, hwu, hu⟩ := computePosition_sizes capitalU appetite regime hentry hstop
  have hpos : 0 < sizeU capitalU entry stop appetite regime := by
    have hrisk : 0 < |entry - stop| / entry := div_pos (abs_pos.mpr (sub_ne_zero.mpr hstop)) hentry
    have hpct := riskPct_pos appetite
    unfold sizeU
    split_ifs <;> positivity
  have hround := roundTo_div_eq_iff (d := 4) (c := 10 ^ 8) hpos (by norm_num)
  have hunit : (1 : ℚ) / 2 / 10 ^ 4 = 1 / 20000 := by norm_num
  rw [hunit] at hround
  simp only [hcapital.not_ge, hentry.not_ge, hstop, false_or, ← hround]
  constructor
  · intro hkept
    have hsame := (hkept _ _ plan hparse hplan hconfigured).1
    rwa [hu, Option.some.injEq] at hsame
  · rintro hsame wu' warning' plan' hparse' hplan' -
    rw [hparse] at hparse'
    cases hparse'
    rw [hplan] at hplan'
    cases hplan'
    exact ⟨hu.trans (congrArg some hsame), hwu⟩

/-- A hundred thousand U, a stop 5 % away: 20 000 U, and the plan shows 0.0002. -/
theorem unit_not_kept : ¬ ∀ capitalU entry stop appetite regime, KeepsUnit capitalU entry stop appetite regime := by
  intro h
  have hkept := (h 100000 100 95 .balanced .normal 10 none ⟨some 1, some 10, some (1 / 10), some 2, some (2 / 10000), "",
    true⟩ (by decide +kernel) (by decide +kernel) rfl).1
  exact absurd hkept (by decide +kernel)

/-! ## The risk budget -/

/-- The share of the capital that a trade may lose. -/
def riskShare (appetite : RiskAppetite) (regime : VolatilityRegime) : ℚ :=
  appetite.riskPct * if regime = .high then 1 / 2 else 1

/-- A position that loses its share of the capital at the stop. It is larger than the capital where the stop is closer to
the entry than that share. -/
structure Budgeted (entry stop capital : ℚ) (appetite : RiskAppetite) (regime : VolatilityRegime)
    (plan : PositionPlan) : Prop where
  shown : plan.positionSizeWu = some (roundTo 2 (sizeWu entry stop capital appetite regime))
  risk : sizeWu entry stop capital appetite regime * |entry - stop| / entry ≤ appetite.riskPct * capital
  half : regime = .high →
    sizeWu entry stop capital appetite regime * |entry - stop| / entry ≤ appetite.riskPct * capital / 2
  covered : sizeWu entry stop capital appetite regime ≤ capital ↔ riskShare appetite regime ≤ |entry - stop| / entry

theorem sizeWu_eq (entry stop capital : ℚ) (appetite : RiskAppetite) (regime : VolatilityRegime) :
    sizeWu entry stop capital appetite regime = capital * riskShare appetite regime / (|entry - stop| / entry) := by
  simp only [sizeWu, riskShare, VOLATILITY_SIZE_REDUCTION]
  split_ifs <;> ring

/-- What a position loses at the stop. -/
theorem sizeWu_mul {entry stop : ℚ} (capital : ℚ) (appetite : RiskAppetite) (regime : VolatilityRegime)
    (hentry : 0 < entry) (hstop : entry ≠ stop) :
    sizeWu entry stop capital appetite regime * |entry - stop| / entry = riskShare appetite regime * capital := by
  have hrisk : |entry - stop| ≠ 0 := abs_ne_zero.mpr (sub_ne_zero.mpr hstop)
  rw [sizeWu_eq]
  field_simp

theorem sizeWu_le_iff {entry stop capital : ℚ} (appetite : RiskAppetite) (regime : VolatilityRegime)
    (hentry : 0 < entry) (hstop : entry ≠ stop) (hcapital : 0 < capital) :
    sizeWu entry stop capital appetite regime ≤ capital ↔ riskShare appetite regime ≤ |entry - stop| / entry := by
  have hrisk : 0 < |entry - stop| / entry := div_pos (abs_pos.mpr (sub_ne_zero.mpr hstop)) hentry
  rw [sizeWu_eq, div_le_iff₀ hrisk, mul_le_mul_iff_right₀ hcapital]

/-- The levels of a signal are apart. -/
theorem ne_of_detected {o : ScanSettings} {df : List Row} {signals : List Signal} {s : Signal}
    (h : detectSignalsCore o df = .ok signals) (hs : s ∈ signals) : s.entryPrice ≠ s.stopLoss := by
  rcases Nat.lt_or_ge WARMUP_BARS df.length with hlen | hlen
  · rw [detectSignalsCore_long hlen] at h
    obtain ⟨found, hfound, rfl⟩ := scan_eq_ok h
    obtain ⟨x, -, hdetect⟩ := (found_mem_iff hfound).mp (List.mem_of_mem_filter hs)
    exact (detectAt_levels hdetect).stop_entry.ne.symm
  · rw [detectSignalsCore_short hlen, Except.ok.injEq] at h
    subst h
    cases hs

/-- **The risk budget** of every signal that the scan finds at a price. -/
theorem risk_budget (o : ScanSettings) (df : List Row) (signals : List Signal) (s : Signal) (capital : ℚ)
    (appetite : RiskAppetite) (regime : VolatilityRegime) (h : detectSignalsCore o df = .ok signals) (hs : s ∈ signals)
    (hentry : s.entryPrice ≠ 0) (hcapital : 0 < capital) :
    ∃ plan, computePosition s.entryPrice s.stopLoss capital appetite regime = .ok plan ∧
      (plan.configured = true ↔ 0 < s.entryPrice) ∧
      (plan.configured = true → Budgeted s.entryPrice s.stopLoss capital appetite regime plan) := by
  have hstop := ne_of_detected h hs
  rcases lt_or_gt_of_ne hentry with hneg | hpos
  · have hrisk : |s.entryPrice - s.stopLoss| / s.entryPrice ≤ 0 :=
      div_nonpos_of_nonneg_of_nonpos (abs_nonneg _) hneg.le
    have hplan : computePosition s.entryPrice s.stopLoss capital appetite regime =
        .ok { riskPerTradePct := some appetite.riskPct } := by
      simp [computePosition, hentry, hrisk]
    refine ⟨_, hplan, ?_⟩
    simp [hneg.le]
  · obtain ⟨plan, hplan, hconfigured, hwu, -⟩ := computePosition_configured capital appetite regime hpos hstop
    have hloss := sizeWu_mul capital appetite regime hpos hstop
    have hbudget : 0 < appetite.riskPct * capital := mul_pos (riskPct_pos appetite) hcapital
    refine ⟨plan, hplan, iff_of_true hconfigured hpos, fun _ => ⟨hwu, ?_, fun hhigh => ?_,
      sizeWu_le_iff appetite regime hpos hstop hcapital⟩⟩
    · rw [hloss, riskShare]
      split_ifs <;> linarith
    · rw [hloss, riskShare, if_pos hhigh]
      linarith

/-- Bars that open at the close before them. -/
def walk (start : ℚ) (changes : List ℚ) : List Row :=
  let closes := changes.scanl (· + ·) start
  List.zipWith (fun x y => ⟨x, max x y, min x y, y, ""⟩) closes closes.tail

/-- A rise, a pullback and the bar that ends it, which closes 0.56 % above the stop. -/
def pulledBack : List Row := walk 100 (List.replicate 195 (1 / 16) ++ List.replicate 12 (-1 / 8) ++ [1 / 2])

theorem pulledBack_signal : ∃ signals s, detectSignalsCore { rsiZone := "pullback" } pulledBack = .ok signals ∧
    s ∈ signals ∧ 0 < s.entryPrice ∧ |s.entryPrice - s.stopLoss| / s.entryPrice < 1 / 100 := by
  have hfound : ((detectSignalsCore { rsiZone := "pullback" } pulledBack).toOption.bind List.head?).any (fun s =>
      0 < s.entryPrice ∧ |s.entryPrice - s.stopLoss| / s.entryPrice < 1 / 100) = true := by
    decide +kernel
  cases hcore : detectSignalsCore { rsiZone := "pullback" } pulledBack with
  | error e =>
      rw [hcore] at hfound
      cases hfound
  | ok signals =>
      rw [hcore, Option.any_eq_true] at hfound
      obtain ⟨s, hs, hlevels⟩ := hfound
      exact ⟨signals, s, rfl, List.mem_of_mem_head? hs, of_decide_eq_true hlevels⟩

theorem pulledBack_budget : ∃ (s : Signal) (plan : PositionPlan),
    computePosition s.entryPrice s.stopLoss 10 .balanced .normal = .ok plan ∧
      Budgeted s.entryPrice s.stopLoss 10 .balanced .normal plan := by
  obtain ⟨signals, s, hsignals, hs, hentry, -⟩ := pulledBack_signal
  obtain ⟨plan, hplan, hconfigured, hbudgeted⟩ :=
    risk_budget _ _ signals s 10 .balanced .normal hsignals hs hentry.ne' (by norm_num)
  exact ⟨s, plan, hplan, hbudgeted (hconfigured.mpr hentry)⟩

/-- A hundredth of the capital at risk over half a hundredth of the price: a position of 17.7 WU for 10 WU. -/
theorem size_not_covered : ¬ ∀ o df signals s capital appetite regime plan, detectSignalsCore o df = .ok signals →
    s ∈ signals → 0 < capital → computePosition s.entryPrice s.stopLoss capital appetite regime = .ok plan →
      plan.configured = true → sizeWu s.entryPrice s.stopLoss capital appetite regime ≤ capital := by
  intro h
  obtain ⟨signals, s, hsignals, hs, hentry, hclose⟩ := pulledBack_signal
  have hstop := ne_of_detected hsignals hs
  obtain ⟨plan, hplan, hconfigured, -⟩ := computePosition_configured 10 .balanced .normal hentry hstop
  have hcovered := h _ _ signals s 10 .balanced .normal plan hsignals hs (by norm_num) hplan hconfigured
  rw [sizeWu_le_iff .balanced .normal hentry hstop (by norm_num)] at hcovered
  have hshare : riskShare .balanced .normal = 1 / 100 := by decide +kernel
  rw [hshare] at hcovered
  linarith

/-! ## The insight -/

/-- Every call is shown the insight that is generated from its own prompt. -/
def OwnInsights (out : Outside) (calls : List PlanCall) : Prop :=
  shownBy out calls = calls.map fun call => (promptFor out.repr call).bind (generated out)

/-- Two calls for one symbol and interval have the same prompt. -/
def SamePrompts (repr : ℚ → String) (calls : List PlanCall) : Prop :=
  calls.Pairwise fun a b => cacheKey a.req = cacheKey b.req →
    ∀ p q, promptFor repr a = some p → promptFor repr b = some q → p = q

/-- The same call for its user: configs of other users may differ. -/
structure AlikeFor (a b : PlanCall) : Prop where
  req : a.req = b.req
  userId : a.userId = b.userId
  df : a.df = b.df
  profile : a.profiles a.userId = b.profiles b.userId

theorem AlikeFor.prompt {a b : PlanCall} (h : AlikeFor a b) (repr : ℚ → String) :
    promptFor repr a = promptFor repr b := by
  unfold promptFor
  rw [h.req, h.df, h.profile]

theorem agree_question_iff {repr : ℚ → String} {calls : List PlanCall} :
    (calls.map (question repr)).Pairwise Memo.Agree ↔ SamePrompts repr calls := by
  rw [List.pairwise_map]
  refine List.Pairwise.iff fun a b => ?_
  simp only [Memo.Agree, question, Option.map_eq_some_iff, Prod.mk.injEq]
  constructor
  · intro h hkey p q hp hq
    exact h (cacheKey a.req) p q ⟨p, hp, rfl, rfl⟩ ⟨q, hq, hkey.symm, rfl⟩
  · rintro h k p q ⟨p', hp, hka, rfl⟩ ⟨q', hq, hkb, rfl⟩
    exact h (hka.trans hkb.symm) p' q' hp hq

theorem own_question {out : Outside} {calls : List PlanCall} :
    (calls.map (question out.repr)).map (Memo.own (generated out)) =
      calls.map fun call => (promptFor out.repr call).bind (generated out) := by
  rw [List.map_map]
  refine List.map_congr_left fun call _ => ?_
  simp only [Function.comp, Memo.own, question, Option.bind_map]

section

variable {repr : ℚ → String} {loads : String → Loaded} {calls calls' : List PlanCall}

theorem SamePrompts.own (h : SamePrompts repr calls) (complete : String → Option String) :
    OwnInsights ⟨repr, loads, complete⟩ calls := by
  unfold OwnInsights
  rw [shownBy_eq, ← own_question]
  exact Memo.serve_own (agree_question_iff.mpr h) fun k a hget => by cases hget

theorem samePrompts_of_own (hloads : loads "a" = .invalid ∧ loads "b" = .invalid)
    (h : ∀ complete, OwnInsights ⟨repr, loads, complete⟩ calls) : SamePrompts repr calls := by
  by_contra hdiffer
  have hagree : ¬ (calls.map (question repr)).Pairwise Memo.Agree := fun hp => hdiffer (agree_question_iff.mp hp)
  have hab : (("a", "") : String × String) ≠ ("b", "") := by decide
  obtain ⟨prompt, hstale⟩ := Memo.exists_stale hab hagree
  -- the LLM that tells this prompt from all others
  have hserved := h fun p => some (if p = prompt then "b" else "a")
  unfold OwnInsights at hserved
  rw [shownBy_eq, ← own_question] at hserved
  have hgenerated : generated ⟨repr, loads, fun p => some (if p = prompt then "b" else "a")⟩ =
      fun p => some (if p = prompt then ("b", "") else ("a", "")) := by
    funext p
    by_cases hp : p = prompt
    · simp [generated, hp, parseAiResponse, hloads.2, Insight.texts]
    · simp [generated, hp, parseAiResponse, hloads.1, Insight.texts]
  rw [hgenerated] at hserved
  exact hstale hserved

/-- **The insight of a call is its own**, whatever the LLM answers, exactly when one symbol and interval have one prompt.
Two histories of that kind then show a user the same where its own calls are the same. -/
theorem own_insights_iff (hloads : loads "a" = .invalid ∧ loads "b" = .invalid) (calls : List PlanCall) :
    ((∀ complete, OwnInsights ⟨repr, loads, complete⟩ calls) ↔ SamePrompts repr calls) ∧
    ∀ calls' : List PlanCall, SamePrompts repr calls → SamePrompts repr calls' → ∀ complete (n : ℕ) a b,
      calls[n]? = some a → calls'[n]? = some b → AlikeFor a b →
        (shownBy ⟨repr, loads, complete⟩ calls)[n]? = (shownBy ⟨repr, loads, complete⟩ calls')[n]? := by
  refine ⟨⟨samePrompts_of_own hloads, fun h => h.own⟩, ?_⟩
  intro calls' h h' complete n a b ha hb halike
  rw [h.own complete, h'.own complete, List.getElem?_map, List.getElem?_map, ha, hb, Option.map_some, Option.map_some,
    halike.prompt]

end

/-- A close, and then 100 for two hundred bars. -/
def frameAfter (first : ℚ) : List Row :=
  ⟨first, first, first, first, ""⟩ :: List.replicate 200 ⟨100, 100, 100, 100, ""⟩

def btcCall (first : ℚ) : PlanCall := ⟨⟨"BTCUSDT", .h4, {}⟩, "alice", frameAfter first, fun _ => none⟩

/-- No number is rendered apart. -/
def noNumbers (_ : ℚ) : String := ""

def noJson (_ : String) : Loaded := .invalid

theorem oneCall_own : OwnInsights ⟨noNumbers, noJson, fun _ => some "up"⟩ [btcCall 1] :=
  (own_insights_iff ⟨rfl, rfl⟩ [btcCall 1]).1.mpr (List.pairwise_singleton ..) _

/-- After the market has turned, the insight for the bar before is shown. -/
theorem stale_insight : ¬ ∀ repr loads complete calls, OwnInsights ⟨repr, loads, complete⟩ calls := by
  intro h
  have hown : ∀ complete, OwnInsights ⟨noNumbers, noJson, complete⟩ [btcCall 1000, btcCall 1] :=
    fun complete => h noNumbers noJson complete _
  have hsame : SamePrompts noNumbers [btcCall 1000, btcCall 1] := samePrompts_of_own ⟨rfl, rfl⟩ hown
  have hprompts : ∃ p ∈ promptFor noNumbers (btcCall 1000), ∃ q ∈ promptFor noNumbers (btcCall 1), p ≠ q := by
    decide +kernel
  obtain ⟨p, hp, q, hq, hne⟩ := hprompts
  exact hne (List.rel_of_pairwise_cons hsame List.mem_cons_self rfl p q hp hq)

/-! ## A live trade -/

/-- The price is strictly inside the trade. -/
def Inside (direction : Direction) (stop price target : ℚ) : Prop :=
  Lt (direction = .long) stop price ∧ Lt (direction = .long) price target

/-- No bar after bar `i` has hit one of the levels. -/
def Untouched (bars : List Bar) (direction : Direction) (i : ℕ) (stop target : ℚ) : Prop :=
  ∀ bar ∈ bars.drop (i + 1), stopHit direction bar stop = false ∧ targetHit direction bar target = false

structure StillLive (bars : List Bar) (direction : Direction) (i : ℕ) (stop target : ℚ) : Prop where
  untouched : Untouched bars direction i stop target
  inside : ∀ last ∈ bars.getLast?, Inside direction stop last.close target

/-- What the decision would have to check. The close of the last bar is a question only where no later bar with its close
in its range answers it. -/
structure Undisturbed (bars : List Bar) (direction : Direction) (i : ℕ) (stop target : ℚ) : Prop where
  untouched : Untouched bars direction i stop target
  inside : ∀ last ∈ bars.getLast?, i + 1 = bars.length ∨ ¬ last.WellFormed → Inside direction stop last.close target

theorem inside_of_not_hit {bar : Bar} {direction : Direction} {stop target : ℚ} (hbar : bar.WellFormed)
    (hstop : stopHit direction bar stop = false) (htarget : targetHit direction bar target = false) :
    Inside direction stop bar.close target := by
  cases direction with
  | long =>
      simp only [stopHit, targetHit, decide_eq_false_iff_not, not_le, ge_iff_le] at hstop htarget
      exact ⟨hstop.trans_le hbar.low_le, hbar.le_high.trans_lt htarget⟩
  | short =>
      simp only [stopHit, targetHit, decide_eq_false_iff_not, not_le, ge_iff_le] at hstop htarget
      exact ⟨hbar.le_high.trans_lt hstop, htarget.trans_le hbar.low_le⟩

theorem stillLive_iff {bars : List Bar} {direction : Direction} {i : ℕ} {stop target : ℚ} (hi : i < bars.length) :
    StillLive bars direction i stop target ↔ Undisturbed bars direction i stop target := by
  constructor
  · exact fun h => ⟨h.untouched, fun last hlast _ => h.inside last hlast⟩
  · refine fun h => ⟨h.untouched, fun last hlast => ?_⟩
    by_cases hopen : i + 1 = bars.length ∨ ¬ last.WellFormed
    · exact h.inside last hlast hopen
    · rw [not_or, not_not] at hopen
      have hmem : last ∈ bars.drop (i + 1) := by
        rw [List.getLast?_eq_getElem?] at hlast
        refine List.mem_of_getElem? (i := bars.length - 1 - (i + 1)) ?_
        rw [List.getElem?_drop, Nat.add_sub_cancel' (by omega)]
        exact hlast
      exact inside_of_not_hit hopen.2 (h.untouched last hmem).1 (h.untouched last hmem).2

/-- TP1 of an entry on the row. -/
def tp1Level (o : ScanSettings) (direction : Direction) (row : IndicatorRow) : ℚ :=
  roundTo 8 (row.row.close + sign direction * |row.row.close - stopLevel o direction row|)

/-- Every trade that `build_plan` decides on is the one of its latest signal, and still to be made. -/
def LivePlans (req : ScanRequest) (df : List Row) : Prop :=
  ∀ out cache userId profiles result, (buildPlan out cache ⟨req, userId, df, profiles⟩).2 = .ok result →
    result.decision.action = .trade →
      ∃ signals s plan tp1, detectSignalsCore req.settings df = .ok signals ∧ signals.getLast? = some s ∧
        result.plan = some plan ∧ plan.targets.head? = some tp1 ∧ result.decision.direction = some s.direction ∧
        plan.entry = s.entryPrice ∧ plan.stop = s.stopLoss ∧
        StillLive (enrich df) s.direction s.index plan.stop tp1.price

theorem EntryLevels.tp1 {o : ScanSettings} {row : IndicatorRow} {i : ℕ} {s : Signal} (h : EntryLevels o row i s) :
    ∃ tp1, (computeTargets s.entryPrice s.stopLoss s.direction).head? = some tp1 ∧
      tp1.price = tp1Level o s.direction row := by
  have hrisk : ¬ |s.entryPrice - s.stopLoss| ≤ 0 :=
    not_le.mpr (abs_pos.mpr (sub_ne_zero.mpr h.stop_entry.ne.symm))
  refine ⟨⟨"tp1", _, 1, 5 / 10⟩, by rw [computeTargets, if_neg hrisk]; rfl, ?_⟩
  rw [mul_one, tp1Level, h.entry, h.stop]

theorem length_enrich (df : List Row) : (enrich df).length = df.length := by
  rw [enrich, List.length_map, length_computeIndicators]

theorem LivePlans.undisturbed {req : ScanRequest} {df : List Row} {i : ℕ} {row last : IndicatorRow} {s : Signal}
    (h : LivePlans req df) (hentry : LatestEntry req.settings df i row s)
    (hlast : (computeIndicators df).getLast? = some last) (hs : Supports last s (df.length - 1 - i)) :
    Undisturbed (enrich df) s.direction i (stopLevel req.settings s.direction row)
      (tp1Level req.settings s.direction row) := by
  obtain ⟨signals, hsignals, hlatest⟩ := latestEntry_iff.mpr ⟨i, row, hentry⟩
  have hcore := scanCore_eq_ok_iff.mpr ⟨hentry.warm.trans_lt hentry.lt_length, signals, hsignals, rfl⟩
  have htrade := (decide_trade_iff hcore).mpr ⟨s, last, hlatest, hlast, hentry.levels.index ▸ hs⟩
  obtain ⟨out, cache, userId, profiles, result, hbuild, hdecision⟩ := exists_buildPlan hcore
  obtain ⟨signals', s', plan, tp1, hsignals', hlatest', hplan, htp1, -, hprice, hstop, hlive⟩ :=
    h out cache userId profiles result hbuild (hdecision ▸ htrade)
  rw [hsignals, Except.ok.injEq] at hsignals'
  rw [← hsignals', hlatest, Option.some.injEq] at hlatest'
  subst hlatest'
  obtain ⟨core', hcore', -, hplanFor⟩ := buildPlan_eq_ok hbuild
  rw [hcore, Except.ok.injEq] at hcore'
  rw [← hcore'] at hplanFor
  obtain ⟨-, p, hp, -, -, htargets⟩ := planFor_trade htrade hlatest hplanFor
  rw [hplan, Option.some.injEq] at hp
  obtain ⟨tp1', htp1', hlevel⟩ := hentry.levels.tp1
  rw [hp, htargets, htp1', Option.some.injEq] at htp1
  rw [hstop, ← htp1, hlevel, hentry.levels.stop, hentry.levels.index] at hlive
  exact (stillLive_iff (by rw [length_enrich]; exact hentry.lt_length)).mp hlive

/-- A rise, a pullback, the bar of the signal, and a bar that falls through its stop and comes back. -/
def spikedDown : List Row :=
  walk 100 (List.replicate 195 (1 / 16) ++ List.replicate 12 (-1 / 8) ++ [1 / 2]) ++ [⟨111, 111, 110, 111, ""⟩]

def pullbackRequest : ScanRequest := ⟨"BTCUSDT", .h4, { rsiZone := "pullback" }⟩

/-- The decision is to trade a signal whose stop a later bar has hit. -/
def stoppedOut (req : ScanRequest) (df : List Row) : Bool :=
  match scanCore req df with
  | .error _ => false
  | .ok core => (decide core).action = .trade && core.signals.getLast?.any fun s =>
      ((enrich df).drop (s.index + 1)).any fun bar => stopHit s.direction bar s.stopLoss

theorem not_live_of_stoppedOut {req : ScanRequest} {df : List Row} (h : stoppedOut req df = true) :
    ¬ LivePlans req df := by
  intro hlive
  unfold stoppedOut at h
  cases hcore : scanCore req df with
  | error e => simp [hcore] at h
  | ok core =>
      simp only [hcore, Bool.and_eq_true, decide_eq_true_eq, Option.any_eq_true, List.any_eq_true] at h
      obtain ⟨htrade, s, hlatest, bar, hbar, hhit⟩ := h
      obtain ⟨s', last, hlatest', hlast, hs⟩ := (decide_trade_iff hcore).mp htrade
      rw [hlatest, Option.some.injEq] at hlatest'
      subst hlatest'
      obtain ⟨-, signals, hsignals, rfl⟩ := scanCore_eq_ok_iff.mp hcore
      obtain ⟨i, row, hentry⟩ := latestEntry_iff.mp ⟨signals, hsignals, hlatest⟩
      rw [hentry.levels.index] at hs hbar
      have huntouched := (hlive.undisturbed hentry hlast hs).untouched bar hbar
      rw [← hentry.levels.stop, hhit] at huntouched
      cases huntouched.1

end CryptoAggHarmonic.RsiPlan
