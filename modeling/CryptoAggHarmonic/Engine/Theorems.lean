import Mathlib.Tactic.Ring
import CryptoAggHarmonic.Lib.OrientedOrder
import CryptoAggHarmonic.Engine.Lemmas.Score

/-!
# What a signal of `score_candidate` promises

The grade is decided on the first-pass stop and the geometry is checked on it; the signal carries the stop of the
second pass. The theorems say exactly when the promises carry over.
-/

namespace CryptoAggHarmonic.Engine

open Config Domain Rounding Oriented

variable {t : TuningConstants} {ctx : ScoreContext} {c : Candidate} {level : String} {g : Grade} {s : Signal}

/-! ## Two candidates -/

/-- A rejection candle at 100 after a dip to 98, and its mirror image. -/
def hammer : Candle := ⟨199 / 2, 501 / 5, 98, 100, 100, 0, 0, 0⟩

def shootingStar : Candle := ⟨201 / 2, 102, 499 / 5, 100, 100, 0, 0, 0⟩

/-- A bullish Gartley with the price in its zone. -/
def gartley : Candidate where
  family := "XABCD"
  name := "gartley"
  bullish := true
  formed := true
  points := [90, 110, 100, 106, 100]
  completionMin := 99
  completionMax := 101
  points_length := by decide

/-- Its bearish counterpart with A a tenth of the price. -/
def deepGartley : Candidate where
  family := "XABCD"
  name := "gartley"
  bullish := false
  formed := true
  points := [110, 10, 60, 30, 100]
  completionMin := 99
  completionMax := 101
  points_length := by decide

def alignedContext (bullish : Bool) (regime : Regime) : ScoreContext where
  df := { rows := [if bullish then hammer else shootingStar] }
  atr := 2
  rsi := if bullish then 25 else 75
  trend := if bullish then .bullish else .bearish
  sharpe := .val 0
  regime := regime
  aMin := 85
  paScale := 1
  positionMult := 6 / 10
  price := 100
  last := if bullish then hammer else shootingStar
  divergences := ⟨[], List.nodup_nil⟩
  volumeAuthenticity := 90
  macdLine := if bullish then -1 else 1

theorem exists_signal {x : Except PyError (Option Signal)} {β : Type} {f : Signal → β} {b : β}
    (h : x.map (Option.map f) = .ok (some b)) : ∃ s, x = .ok (some s) ∧ f s = b := by
  rcases x with e | (_ | s)
  · cases h
  · cases h
  · refine ⟨s, rfl, ?_⟩
    simpa [Except.map] using h

/-! ## Grade and ratios -/

/-- The hard gates of `grade`, on the ratios the signal carries. -/
def GradeAgrees (s : Signal) : Prop :=
  (s.grade = .a ∨ s.grade = .b → 1 ≤ s.netRrTp1 ∧ 3 / 2 ≤ s.netRrTp2) ∧ (s.grade = .a → 2 ≤ s.netRrTp2)

/-- The distance from the entry to the anchor moved out by the multiplier chain, rounded as a stop is. -/
def carriedRisk (t : TuningConstants) (ctx : ScoreContext) (c : Candidate) (level : String) (g : Grade) : ℚ :=
  |entryPrice ctx c - roundTo 8 (rawStop t c ctx.atr (StopLevel.resolve level) (finalOptions ctx c g))|

/-- What leg `fib` of the ladder pays at most per unit of risk, less the round trip's cost on both sides. -/
def riskBudget (t : TuningConstants) (ctx : ScoreContext) (c : Candidate) (fib ratio : ℚ) : ℚ :=
  (|roundTo 8 (rawLadder ctx c fib) - entryPrice ctx c| - roundTripCost t (entryPrice ctx c) none none) / ratio -
    roundTripCost t (entryPrice ctx c) none none

/-- The risk is positive, with and without cost, and within the budget. -/
structure RiskFits (t : TuningConstants) (ctx : ScoreContext) (c : Candidate) (level : String) (g : Grade)
    (fib ratio : ℚ) : Prop where
  risk_pos : 0 < carriedRisk t ctx c level g
  netRisk_pos : 0 < carriedRisk t ctx c level g + roundTripCost t (entryPrice ctx c) none none
  le_budget : carriedRisk t ctx c level g ≤ riskBudget t ctx c fib ratio

instance {fib ratio : ℚ} : Decidable (RiskFits t ctx c level g fib ratio) :=
  decidable_of_iff
    (0 < carriedRisk t ctx c level g ∧
      0 < carriedRisk t ctx c level g + roundTripCost t (entryPrice ctx c) none none ∧
      carriedRisk t ctx c level g ≤ riskBudget t ctx c fib ratio)
    ⟨fun ⟨h1, h2, h3⟩ => ⟨h1, h2, h3⟩, fun h => ⟨h.1, h.2, h.3⟩⟩

theorem affords_iff_riskFits {fib ratio : ℚ} (hratio : 0 < ratio) :
    Affords t (entryPrice ctx c) (finalStop t ctx c level g) (roundTo 8 (rawLadder ctx c fib)) ratio ↔
      RiskFits t ctx c level g fib ratio := by
  have hbudget : ∀ risk cost reward : ℚ, ratio * (risk + cost) ≤ reward - cost ↔
      risk ≤ (reward - cost) / ratio - cost := by
    intro risk cost reward
    rw [← le_div_iff₀' hratio]
    exact le_sub_iff_add_le.symm
  constructor
  · intro h
    exact ⟨h.risk_pos, h.netRisk_pos, (hbudget _ _ _).mp h.ratio_le⟩
  · intro h
    have hle := (hbudget _ _ _).mpr h.le_budget
    exact ⟨h.risk_pos, lt_of_lt_of_le (mul_pos hratio h.netRisk_pos) hle, h.netRisk_pos, hle⟩

/-- A ratio of the signal reaches an even threshold exactly when the risk fits its budget. -/
theorem le_rrAt_iff (hprz : 0 < c.przLow ∧ 0 < c.przHigh) {i : ℕ} {fib : ℚ}
    (hi : ladderPrice t ctx c i = roundTo 8 (rawLadder ctx c fib)) {k : ℤ} (hk : Even k) (hpos : 0 < k)
    {r : ℚ} (hr : (k : ℚ) / 10 ^ 4 = r) :
    r ≤ (rrAt t ctx c (finalStop t ctx c level g) i).getD 0 ↔ RiskFits t ctx c level g fib (r - 1 / 20000) := by
  have hbelow : ((k : ℚ) - 1 / 2) / 10 ^ 4 = r - 1 / 20000 := by rw [← hr]; ring
  have hratio : (0 : ℚ) < (k - 1 / 2) / 10 ^ 4 := by
    have : (1 : ℚ) ≤ k := by exact_mod_cast hpos
    exact div_pos (by linarith) (by norm_num)
  rw [← hr, rrAt, le_netRrBody_iff (entryPrice_pos hprz) hk hpos, hi, affords_iff_riskFits hratio, hbelow, hr]

/-- Long: `0 < stop < entry <= TP1 < TP2 < TP3`; short: `stop > entry >= TP1 > TP2 > TP3 > 0`. -/
def ValidGeometry (s : Signal) : Prop :=
  match s.direction with
  | .long => 0 < s.stopLoss ∧ s.stopLoss < s.entryReference ∧ s.entryReference ≤ targetPrice s.targets 0 ∧
      targetPrice s.targets 0 < targetPrice s.targets 1 ∧ targetPrice s.targets 1 < targetPrice s.targets 2
  | .short => s.stopLoss > s.entryReference ∧ s.entryReference ≥ targetPrice s.targets 0 ∧
      targetPrice s.targets 0 > targetPrice s.targets 1 ∧ targetPrice s.targets 1 > targetPrice s.targets 2 ∧
      targetPrice s.targets 2 > 0

def movedAnchor (t : TuningConstants) (ctx : ScoreContext) (c : Candidate) (level : String) (g : Grade) : ℚ :=
  rawStop t c ctx.atr (StopLevel.resolve level) (finalOptions ctx c g)

/-- The moved anchor and the entry are different prices after rounding, and a short's TP3 is one at all. -/
structure RoomForStop (t : TuningConstants) (ctx : ScoreContext) (c : Candidate) (level : String) (g : Grade) :
    Prop where
  beyond : Lt c.bullish (roundTo 8 (movedAnchor t ctx c level g)) (roundTo 8 (entryPrice ctx c))
  tp3_pos : c.bullish = false → 1 / 2 / 10 ^ 8 < rawLadder ctx c t.fibTp3

/-- The geometry of a signal: the ladder steps away from the entry by the check on the first-pass stop; what is
left is the second-pass stop and the sign of TP3. -/
theorem validGeometry_signalOf (hcon : ScoreContracts t ctx c level) (hgate : volumeGate t ctx c = false)
    (hveto : vetoed t ctx c level = false) (hg : firstGrade t ctx c level = some g) :
    ValidGeometry (signalOf t ctx c level g) ↔ RoomForStop t ctx c level g := by
  have hladder := ladder_of_not_vetoed hveto
  obtain ⟨e0, -, e2⟩ := ladderPrice_eq t ctx c
  have hstop : 0 < finalStop t ctx c level g := (hcon.final hgate hveto g hg).1.body_pos
  have hprice : ∀ i, targetPrice (signalOf t ctx c level g).targets i = ladderPrice t ctx c i := fun _ => rfl
  have hfinal : (signalOf t ctx c level g).stopLoss = roundTo 8 (movedAnchor t ctx c level g) := rfl
  have hentry : (signalOf t ctx c level g).entryReference = roundTo 8 (entryPrice ctx c) := rfl
  have hdir : (signalOf t ctx c level g).direction = if c.bullish then .long else .short := rfl
  have hpos : 0 < roundTo 8 (movedAnchor t ctx c level g) := hstop
  unfold ValidGeometry
  simp only [hdir, hprice, hfinal, hentry]
  cases hb : c.bullish with
  | true =>
      simp only [hb, ↓reduceIte] at hladder ⊢
      have hle : roundTo 8 (entryPrice ctx c) ≤ ladderPrice t ctx c 0 := by
        rw [e0] at hladder ⊢
        exact roundTo_le_of_le_roundTo hladder.1
      constructor
      · rintro ⟨-, hlt, -⟩
        exact ⟨by rw [hb]; exact hlt, fun h => by rw [hb] at h; cases h⟩
      · intro h
        have hlt := h.beyond
        rw [hb] at hlt
        exact ⟨hpos, hlt, hle, hladder.2.1, hladder.2.2⟩
  | false =>
      simp only [hb, Bool.false_eq_true, ↓reduceIte] at hladder ⊢
      have hle : ladderPrice t ctx c 0 ≤ roundTo 8 (entryPrice ctx c) := by
        rw [e0] at hladder ⊢
        exact le_roundTo_of_roundTo_le hladder.1
      have htp3 : 0 < ladderPrice t ctx c 2 ↔ 1 / 2 / 10 ^ 8 < rawLadder ctx c t.fibTp3 := by rw [e2, roundTo_pos]
      constructor
      · rintro ⟨hlt, -, -, -, h3⟩
        exact ⟨by rw [hb]; exact hlt, fun _ => htp3.mp h3⟩
      · intro h
        have hlt := h.beyond
        rw [hb] at hlt
        exact ⟨hlt, hle, hladder.2.1, hladder.2.2, htp3.mpr (h.tp3_pos hb)⟩

/-- A moved anchor more than `1e-8` away from the entry leaves room. -/
theorem RoomForStop.of_gap
    (hgap : Lt c.bullish (movedAnchor t ctx c level g) (back c.bullish (entryPrice ctx c) (1 / 10 ^ 8)))
    (htp3 : c.bullish = false → 1 / 2 / 10 ^ 8 < rawLadder ctx c t.fibTp3) : RoomForStop t ctx c level g := by
  refine ⟨?_, htp3⟩
  cases hb : c.bullish with
  | true =>
      rw [hb] at hgap
      have hlt : movedAnchor t ctx c level g < entryPrice ctx c - 1 / 10 ^ 8 := hgap
      exact roundTo_lt_roundTo (d := 8) (by linarith)
  | false =>
      rw [hb] at hgap
      exact roundTo_lt_roundTo (d := 8) hgap

/-- Away from the rounding and with a positive TP3 every signal has valid geometry. -/
theorem geometry_valid_of_gap (h : scoreCandidate t ctx c level = .ok (some s))
    (hgap : ∀ g ∈ firstGrade t ctx c level,
      Lt c.bullish (movedAnchor t ctx c level g) (back c.bullish (entryPrice ctx c) (1 / 10 ^ 8)))
    (htp3 : c.bullish = false → 1 / 2 / 10 ^ 8 < rawLadder ctx c t.fibTp3) : ValidGeometry s := by
  obtain ⟨hcon, hbody⟩ := scoreCandidate_eq_ok.mp h
  obtain ⟨hgate, hveto, g, hg, rfl⟩ := scoreBody_eq_some.mp hbody
  exact (validGeometry_signalOf hcon hgate hveto hg).mpr (RoomForStop.of_gap (hgap g hg) htp3)

end CryptoAggHarmonic.Engine
