import CryptoAggHarmonic.Domain.Signals
import CryptoAggHarmonic.Engine.SignalEngine
import CryptoAggHarmonic.Lib.KeepBest

/-!
# The scoring of one candidate without its contracts

`scoreBody` is `score_candidate` with the contracts taken out, `ScoreContracts` says when none of them is
violated, and `scoreCandidate_eq_ok` puts the two together.
-/

namespace CryptoAggHarmonic.Engine

open Config Domain Rounding

variable {t : TuningConstants} {ctx : ScoreContext} {c : Candidate} {level : String} {g : Grade}

/-! ## The values on the way -/

def entryPrice (ctx : ScoreContext) (c : Candidate) : ℚ := (entryOf ctx c).2

def firstStop (t : TuningConstants) (ctx : ScoreContext) (c : Candidate) (level : String) : ℚ :=
  (computeStopBody t c ctx.atr level (firstStopOptions ctx c)).1

def ladderPrice (t : TuningConstants) (ctx : ScoreContext) (c : Candidate) (i : ℕ) : ℚ :=
  targetPrice (computeTargets t c (entryPrice ctx c)) i

/-- The vetoes after the first-pass stop: trap, momentum and geometry. -/
def vetoed (t : TuningConstants) (ctx : ScoreContext) (c : Candidate) (level : String) : Bool :=
  (trapRisk ctx c).2.1 || adverseMomentumVeto c.direction ctx.sharpe t.adverseSharpeThreshold ||
    !directionInvariantOk c.direction (entryPrice ctx c) (firstStop t ctx c level)
      ((computeTargets t c (entryPrice ctx c)).map SignalTarget.price)

def factorsOf (t : TuningConstants) (ctx : ScoreContext) (c : Candidate) : List (String × ℚ) :=
  confluenceFactors t ctx.df c ctx.atr ctx.rsi ctx.trend ctx.divergences ctx.paScale ctx.momentum

def scoreOf (t : TuningConstants) (ctx : ScoreContext) (c : Candidate) : ℚ :=
  clampedScore t c ((factorsOf t ctx c).map Prod.snd).sum

def rrAt (t : TuningConstants) (ctx : ScoreContext) (c : Candidate) (stop : ℚ) (i : ℕ) : Option ℚ :=
  netRrBody t (entryPrice ctx c) stop (ladderPrice t ctx c i) none none

def firstGrade (t : TuningConstants) (ctx : ScoreContext) (c : Candidate) (level : String) : Option Grade :=
  let stop := firstStop t ctx c level
  gradeBody (scoreOf t ctx c) (rrAt t ctx c stop 0) (rrAt t ctx c stop 1) (htfAligned ctx c) (htfCounter ctx c)
    ctx.aMin (some (widthPct c))

def trapFactor (ctx : ScoreContext) (c : Candidate) : ℚ := trapStopMultiplierBody (trapRisk ctx c).1

def finalOptions (ctx : ScoreContext) (c : Candidate) (g : Grade) : StopOptions :=
  finalStopOptions ctx c (trapFactor ctx c) g

def finalStop (t : TuningConstants) (ctx : ScoreContext) (c : Candidate) (level : String) (g : Grade) : ℚ :=
  (computeStopBody t c ctx.atr level (finalOptions ctx c g)).1

/-- The signal of a graded candidate. -/
def signalOf (t : TuningConstants) (ctx : ScoreContext) (c : Candidate) (level : String) (g : Grade) : Signal :=
  let result := computeStopBody t c ctx.atr level (finalOptions ctx c g)
  let signal : Signal := {
    status := (entryOf ctx c).1
    grade := g
    direction := c.direction
    patternName := c.name
    family := c.family
    formed := c.formed
    entryZone := (c.przLow, c.przHigh)
    entryReference := roundTo 8 (entryPrice ctx c)
    stopLoss := result.1
    stopBasis := result.2.1
    stopLevel := level
    invalidationPoint := result.2.2
    targets := computeTargets t c (entryPrice ctx c)
    netRrTp1 := (rrAt t ctx c result.1 0).getD 0
    netRrTp2 := (rrAt t ctx c result.1 1).getD 0
    confluenceScore := halfEven (scoreOf t ctx c)
    confluence := factorsOf t ctx c
    htfTrend := ctx.trend
    sharpe := some (clampSharpe ctx.sharpe)
    regime := ctx.regime
    positionMultiplier := some ctx.positionMult
    trapScore := some (trapRisk ctx c).1
    tradable := decide (g ≠ .cRef)
    widthPct := some (roundTo 4 (widthPct c)) }
  { signal with reasoning := reasoningFromSignal signal }

def scoreBody (t : TuningConstants) (ctx : ScoreContext) (c : Candidate) (level : String) : Option Signal :=
  if volumeGate t ctx c ∨ vetoed t ctx c level then none
  else (firstGrade t ctx c level).map (signalOf t ctx c level)

/-! ## The contracts on the way -/

def RatiosOk (t : TuningConstants) (ctx : ScoreContext) (c : Candidate) (stop : ℚ) : Prop :=
  ∀ i ∈ [0, 1], RrContracts t (entryPrice ctx c) stop (ladderPrice t ctx c i)

/-- No contract on the path of the candidate through `score_candidate` is violated. -/
structure ScoreContracts (t : TuningConstants) (ctx : ScoreContext) (c : Candidate) (level : String) : Prop where
  level_ok : (StopLevel.parse level).isSome = true
  atr_pos : 0 < ctx.atr
  first : volumeGate t ctx c = false → StopContracts t c ctx.atr level (firstStopOptions ctx c)
  ratios : volumeGate t ctx c = false → vetoed t ctx c level = false →
    RatiosOk t ctx c (firstStop t ctx c level)
  confluence : volumeGate t ctx c = false → vetoed t ctx c level = false →
    (0 ≤ ctx.rsi ∧ ctx.rsi ≤ 100) ∧ (0 ≤ ctx.paScale ∧ ctx.paScale ≤ 2) ∧ 0 < ctx.aMin ∧ ctx.aMin ≤ 100
  final : volumeGate t ctx c = false → vetoed t ctx c level = false → ∀ g ∈ firstGrade t ctx c level,
    StopContracts t c ctx.atr level (finalOptions ctx c g) ∧ RatiosOk t ctx c (finalStop t ctx c level g)

/-! ## Contracts that always hold -/

theorem clampedScore_mem {total : ℚ} : 0 ≤ clampedScore t c total ∧ clampedScore t c total ≤ 100 :=
  ⟨le_max_left _ _, max_le (by norm_num) (min_le_left _ _)⟩

theorem not_aligned_and_counter : ¬ (htfAligned ctx c = true ∧ htfCounter ctx c = true) := by
  unfold htfAligned htfCounter
  cases c.bullish <;> cases ctx.trend <;> simp

theorem trapRisk_score_mem (ctx : ScoreContext) (c : Candidate) :
    10 ≤ (trapRisk ctx c).1 ∧ (trapRisk ctx c).1 ≤ 90 := by
  unfold trapRisk quantTrapRisk
  simp only
  split_ifs
  · decide
  all_goals exact ⟨le_min (by norm_num) (le_max_left _ _), min_le_left _ _⟩

theorem trapStopMultiplierBody_mem {s : ℤ} : 1 ≤ trapStopMultiplierBody s ∧ trapStopMultiplierBody s ≤ 2 := by
  unfold trapStopMultiplierBody
  split_ifs with h1 h2 h3
  · norm_num
  · have h1' : (60 : ℚ) ≤ s := by exact_mod_cast not_lt.mp h1
    have h2' : (s : ℚ) < 75 := by exact_mod_cast h2
    constructor <;> linarith
  · have h2' : (75 : ℚ) ≤ s := by exact_mod_cast not_lt.mp h2
    have h3' : (s : ℚ) < 85 := by exact_mod_cast h3
    constructor <;> linarith
  · have h3' : (85 : ℚ) ≤ s := by exact_mod_cast not_lt.mp h3
    exact ⟨le_min (by norm_num) (by linarith), min_le_left _ _⟩

theorem trapStopMultiplier_trapRisk : trapStopMultiplier (trapRisk ctx c).1 = .ok (trapFactor ctx c) := by
  obtain ⟨h1, h2⟩ := trapRisk_score_mem ctx c
  simp only [trapStopMultiplier, require_bind_eq_ok, pure_eq_ok]
  exact ⟨⟨by omega, by omega⟩, trapStopMultiplierBody_mem, rfl⟩

/-! ## The two together -/

theorem confluenceScore_eq_ok (hatr : 0 < ctx.atr) (hprz : 0 < c.przLow ∧ 0 < c.przHigh)
    {r : ℚ × List (String × ℚ)} :
    confluenceScore t ctx.df c ctx.atr ctx.rsi ctx.trend ctx.divergences ctx.paScale ctx.momentum = .ok r ↔
      ((0 ≤ ctx.rsi ∧ ctx.rsi ≤ 100) ∧ (0 ≤ ctx.paScale ∧ ctx.paScale ≤ 2)) ∧
        (((factorsOf t ctx c).map Prod.snd).sum, factorsOf t ctx c) = r := by
  simp only [confluenceScore, require_bind_eq_ok, pure_eq_ok, Except.ok.injEq, factorsOf]
  exact ⟨fun ⟨_, h1, h2, _, hr⟩ => ⟨⟨h1, h2⟩, hr⟩, fun ⟨⟨h1, h2⟩, hr⟩ => ⟨hatr.le, h1, h2, hprz, hr⟩⟩

theorem ScoreContracts.iff_of_reached (hgate : volumeGate t ctx c = false) (hveto : vetoed t ctx c level = false) :
    ScoreContracts t ctx c level ↔ (StopLevel.parse level).isSome = true ∧ 0 < ctx.atr ∧
      StopContracts t c ctx.atr level (firstStopOptions ctx c) ∧ RatiosOk t ctx c (firstStop t ctx c level) ∧
      ((0 ≤ ctx.rsi ∧ ctx.rsi ≤ 100) ∧ (0 ≤ ctx.paScale ∧ ctx.paScale ≤ 2)) ∧ (0 < ctx.aMin ∧ ctx.aMin ≤ 100) ∧
      ∀ g ∈ firstGrade t ctx c level, StopContracts t c ctx.atr level (finalOptions ctx c g) ∧
        RatiosOk t ctx c (finalStop t ctx c level g) := by
  constructor
  · intro h
    obtain ⟨h1, h2, h3⟩ := h.confluence hgate hveto
    exact ⟨h.level_ok, h.atr_pos, h.first hgate, h.ratios hgate hveto, ⟨h1, h2⟩, h3, h.final hgate hveto⟩
  · rintro ⟨h1, h2, h3, h4, ⟨h5, h6⟩, h7, h8⟩
    exact ⟨h1, h2, fun _ => h3, fun _ _ => h4, fun _ _ => ⟨h5, h6, h7⟩, fun _ _ => h8⟩

theorem ScoreContracts.iff_of_vetoed (hgate : volumeGate t ctx c = false) (hveto : vetoed t ctx c level = true) :
    ScoreContracts t ctx c level ↔ (StopLevel.parse level).isSome = true ∧ 0 < ctx.atr ∧
      StopContracts t c ctx.atr level (firstStopOptions ctx c) := by
  have hno {P : Prop} : vetoed t ctx c level = false → P := fun h => absurd (hveto.symm.trans h) (by simp)
  exact ⟨fun h => ⟨h.level_ok, h.atr_pos, h.first hgate⟩,
    fun ⟨h1, h2, h3⟩ => ⟨h1, h2, fun _ => h3, fun _ => hno, fun _ => hno, fun _ => hno⟩⟩

theorem ScoreContracts.iff_of_gated (hgate : volumeGate t ctx c = true) :
    ScoreContracts t ctx c level ↔ (StopLevel.parse level).isSome = true ∧ 0 < ctx.atr := by
  have hno {P : Prop} : volumeGate t ctx c = false → P := fun h => absurd (hgate.symm.trans h) (by simp)
  exact ⟨fun h => ⟨h.level_ok, h.atr_pos⟩, fun ⟨h1, h2⟩ => ⟨h1, h2, hno, hno, hno, hno⟩⟩

theorem ratiosOk_iff {stop : ℚ} : RatiosOk t ctx c stop ↔
    RrContracts t (entryPrice ctx c) stop (ladderPrice t ctx c 0) ∧
      RrContracts t (entryPrice ctx c) stop (ladderPrice t ctx c 1) := by
  simp [RatiosOk]

theorem ite_vetoed {α : Type} (a b : α) :
    (if (trapRisk ctx c).2.1 = true then a
      else if adverseMomentumVeto c.direction ctx.sharpe t.adverseSharpeThreshold = true then a
      else if ¬ directionInvariantOk c.direction (entryOf ctx c).2
          (computeStopBody t c ctx.atr level (firstStopOptions ctx c)).1
          ((computeTargets t c (entryOf ctx c).2).map SignalTarget.price) = true then a
      else b) = if vetoed t ctx c level = true then a else b := by
  unfold vetoed firstStop entryPrice
  cases (trapRisk ctx c).2.1 <;> cases adverseMomentumVeto c.direction ctx.sharpe t.adverseSharpeThreshold <;>
    cases directionInvariantOk c.direction (entryOf ctx c).2 _ _ <;> rfl

/-- **`score_candidate` returns exactly when no contract on its path is violated, and then gives its body.** -/
theorem scoreCandidate_eq_ok {r : Option Signal} : scoreCandidate t ctx c level = .ok r ↔
    ScoreContracts t ctx c level ∧ scoreBody t ctx c level = r := by
  simp only [scoreCandidate, require_bind_eq_ok, gt_iff_lt]
  cases hgate : volumeGate t ctx c with
  | true => simp [ScoreContracts.iff_of_gated hgate, scoreBody, hgate, and_assoc]
  | false =>
      simp only [Bool.false_eq_true, ↓reduceIte]
      rw [bind_eq_ok]
      simp only [computeStop_eq_ok, and_assoc, exists_and_left, exists_eq_left', ite_vetoed]
      cases hveto : vetoed t ctx c level with
      | true => simp [ScoreContracts.iff_of_vetoed hgate hveto, scoreBody, hveto, and_assoc]
      | false =>
          rw [ScoreContracts.iff_of_reached hgate hveto]
          simp only [and_assoc]
          refine and_congr_right fun _ => and_congr_right fun hatr => and_congr_right fun hstop => ?_
          simp only [Bool.false_eq_true, ↓reduceIte, bind_eq_ok, netRr_eq_ok, and_assoc, exists_and_left,
            exists_eq_left', confluenceScore_eq_ok hatr hstop.prz_pos,
            grade_eq_ok clampedScore_mem not_aligned_and_counter]
          rw [ratiosOk_iff, and_assoc]
          refine and_congr_right fun _ => and_congr_right fun _ => and_congr_right fun _ =>
            and_congr_right fun _ => and_congr_right fun _ => and_congr_right fun _ =>
            and_congr_right fun _ => and_congr_right fun _ => ?_
          generalize hg : gradeBody _ _ _ _ _ _ _ = graded
          have hfirst : firstGrade t ctx c level = graded := hg
          cases graded with
          | none => simp [scoreBody, hgate, hveto, hfirst]
          | some g =>
              have hbody : scoreBody t ctx c level = some (signalOf t ctx c level g) := by
                simp [scoreBody, hgate, hveto, hfirst]
              simp only [trapStopMultiplier_trapRisk, ok_bind, bind_eq_ok, computeStop_eq_ok, netRr_eq_ok, and_assoc,
                exists_and_left, exists_eq_left', pure_eq_ok, Except.ok.injEq, hfirst, Option.mem_some_iff,
                forall_eq', ratiosOk_iff, hbody]
              rfl

theorem scoreBody_eq_some {s : Signal} : scoreBody t ctx c level = some s ↔
    volumeGate t ctx c = false ∧ vetoed t ctx c level = false ∧
      ∃ g, firstGrade t ctx c level = some g ∧ signalOf t ctx c level g = s := by
  unfold scoreBody
  cases volumeGate t ctx c <;> cases vetoed t ctx c level <;> simp

/-! ## Entry and geometry of a signal -/

/-- Outside the zone the entry is its near edge, inside it is the price. -/
theorem entryPrice_pos (hprz : 0 < c.przLow ∧ 0 < c.przHigh) : 0 < entryPrice ctx c := by
  have hin : przState ctx.price c.przLow c.przHigh
      (isSwept ctx.last.low ctx.last.high ctx.price c.przLow c.przHigh) ≠ .approaching → 0 < ctx.price := by
    unfold przState isSwept
    split_ifs with h1 h2
    · intro _
      simp only [Bool.or_eq_true, Bool.and_eq_true, decide_eq_true_eq] at h1
      rcases h1 with h | h
      · exact hprz.1.trans_le h.1.2
      · exact hprz.1.trans_le h.2
    · exact fun _ => hprz.1.trans_le h2.1
    · exact fun h => absurd rfl h
  unfold entryPrice entryOf
  simp only
  split_ifs with h1 h2 h3 h4
  · rcases h1.1 with h | h <;> exact hin (by rw [h]; simp)
  · exact absurd (by simp) h2
  · exact absurd (by simp) h2
  · exact hin h4
  · exact hprz.2
  · exact hprz.1

def rawLadder (ctx : ScoreContext) (c : Candidate) (fib : ℚ) : ℚ :=
  if c.bullish then entryPrice ctx c + fib * |c.aPrice - entryPrice ctx c|
  else entryPrice ctx c - fib * |c.aPrice - entryPrice ctx c|

theorem ladderPrice_eq (t : TuningConstants) (ctx : ScoreContext) (c : Candidate) :
    ladderPrice t ctx c 0 = roundTo 8 (rawLadder ctx c t.fibTp1) ∧
    ladderPrice t ctx c 1 = roundTo 8 (rawLadder ctx c t.fibTp2) ∧
    ladderPrice t ctx c 2 = roundTo 8 (rawLadder ctx c t.fibTp3) := ⟨rfl, rfl, rfl⟩

/-- What is left of the geometry check once it has passed: the targets step away from the entry. -/
theorem ladder_of_not_vetoed (hveto : vetoed t ctx c level = false) :
    if c.bullish then
      entryPrice ctx c ≤ ladderPrice t ctx c 0 ∧ ladderPrice t ctx c 0 < ladderPrice t ctx c 1 ∧
        ladderPrice t ctx c 1 < ladderPrice t ctx c 2
    else
      ladderPrice t ctx c 0 ≤ entryPrice ctx c ∧ ladderPrice t ctx c 1 < ladderPrice t ctx c 0 ∧
        ladderPrice t ctx c 2 < ladderPrice t ctx c 1 := by
  simp only [vetoed, Bool.or_eq_false_iff, Bool.not_eq_false', directionInvariantOk, computeTargets, List.map_cons,
    Candidate.direction] at hveto
  obtain ⟨-, h⟩ := hveto
  obtain ⟨e0, e1, e2⟩ := ladderPrice_eq t ctx c
  rw [e0, e1, e2]
  unfold rawLadder
  cases hb : c.bullish <;>
    simp only [hb, Bool.false_eq_true, ↓reduceIte, Bool.and_eq_true, decide_eq_true_eq] at h ⊢
  · exact ⟨h.1.1.2, h.1.2, h.2⟩
  · exact ⟨h.1.1.2, h.1.2, h.2⟩

end CryptoAggHarmonic.Engine

/-!
# A list of candidates through `build_signal`

What one candidate contributes, when a contract is violated on its way, and the loops over the list.
-/

namespace CryptoAggHarmonic.Engine

open Config Domain Rounding

variable {t : TuningConstants} {ctx : ScoreContext} {c : Candidate} {cs : List Candidate} {level : String}
  {g : Grade} {fn : RejectionFn}

/-! ## The filter -/

/-- `rejection_reason` without the contracts of its stop. -/
def rejectionBody (t : TuningConstants) (c : Candidate) (price atr : ℚ) (closeTimes : Option (List ℤ)) :
    Option RejectReason :=
  let stop := (computeStopBody t c atr "standard" {}).1
  match stale t c price atr closeTimes with
  | some reason => some reason
  | none =>
      if atr > 0 ∧ (c.bullish ∧ price < stop ∨ ¬ c.bullish ∧ price > stop) then some .violated
      else if tradePlayedOut t c price then some .completed
      else none

theorem rejectionReason_eq_ok {price atr : ℚ} (hatr : 0 < atr) {closeTimes : Option (List ℤ)}
    {r : Option RejectReason} : rejectionReason t c price atr closeTimes = .ok r ↔
      (stale t c price atr closeTimes = none → StopContracts t c atr "standard" {}) ∧
        rejectionBody t c price atr closeTimes = r := by
  unfold rejectionReason rejectionBody
  cases hstale : stale t c price atr closeTimes with
  | some reason => simp
  | none =>
      simp only [gt_iff_lt, hatr, ↓reduceIte, bind_eq_ok, computeStop_eq_ok, and_assoc, exists_and_left,
        exists_eq_left', true_and, forall_const]
      refine and_congr_right fun _ => ?_
      split_ifs <;> simp

def RejectionFn.body (fn : RejectionFn) (t : TuningConstants) (ctx : ScoreContext) (c : Candidate) :
    Option RejectReason :=
  match fn with
  | .live => rejectionBody t c ctx.price ctx.atr ctx.df.closeTimes
  | .noop => none

theorem RejectionFn.apply_eq_ok (hatr : 0 < ctx.atr) {r : Option RejectReason} : fn.apply t ctx c = .ok r ↔
    (fn = .live → stale t c ctx.price ctx.atr ctx.df.closeTimes = none →
      StopContracts t c ctx.atr "standard" {}) ∧ fn.body t ctx c = r := by
  cases fn with
  | live => simpa [RejectionFn.apply, RejectionFn.body] using rejectionReason_eq_ok hatr
  | noop => simp [RejectionFn.apply, RejectionFn.body]

/-! ## One candidate -/

def outcome (fn : RejectionFn) (t : TuningConstants) (ctx : ScoreContext) (level : String) (c : Candidate) :
    Option Signal :=
  if fn.body t ctx c = none then scoreBody t ctx c level else none

/-- No contract is violated on the way of the candidate. -/
structure Passes (fn : RejectionFn) (t : TuningConstants) (ctx : ScoreContext) (level : String) (c : Candidate) :
    Prop where
  filter : fn = .live → stale t c ctx.price ctx.atr ctx.df.closeTimes = none →
    StopContracts t c ctx.atr "standard" {}
  score : fn.body t ctx c = none → ScoreContracts t ctx c level

/-! ## The loops -/

theorem filterCandidates_eq_ok {reject : Candidate → Except PyError (Option RejectReason)}
    {body : Candidate → Option RejectReason} (h : ∀ c ∈ cs, reject c = .ok (body c)) :
    ∃ rejected, filterCandidates reject cs = .ok (cs.filter fun c => (body c).isNone, rejected) := by
  induction cs with
  | nil => exact ⟨[], rfl⟩
  | cons c cs ih =>
      obtain ⟨rejected, hrest⟩ := ih fun c' hc' => h c' (List.mem_cons_of_mem _ hc')
      have hc := h c (by simp)
      cases hb : body c with
      | none => exact ⟨rejected, by simp [filterCandidates, hc, hrest, hb]⟩
      | some r => exact ⟨⟨c, r⟩ :: rejected, by simp [filterCandidates, hc, hrest, hb]⟩

theorem scoreAll_eq_ok {score : Candidate → Except PyError (Option Signal)} {body : Candidate → Option Signal}
    (h : ∀ c ∈ cs, score c = .ok (body c)) : scoreAll score cs = .ok (cs.filterMap body) := by
  induction cs with
  | nil => rfl
  | cons c cs ih =>
      have hrest := ih fun c' hc' => h c' (List.mem_cons_of_mem _ hc')
      have hc := h c (by simp)
      cases hb : body c <;> simp [scoreAll, hc, hrest, hb]

theorem filterMap_outcome : (cs.filter fun c => (fn.body t ctx c).isNone).filterMap
    (fun c => scoreBody t ctx c level) = cs.filterMap (outcome fn t ctx level) := by
  rw [List.filterMap_filter]
  congr 1
  funext c
  cases h : fn.body t ctx c <;> simp [outcome, h]

/-! ## The ranking -/

theorem rankSignals_eq (l : List Signal) :
    rankSignals l = FirstMax.firstMax rankOf (toLex (-1, toLex (-1, false))) l := rfl

theorem rankSignals_eq_some {l : List Signal} {s : Signal} (h : rankSignals l = some s) :
    s ∈ l ∧ ∀ s' ∈ l, rankOf s' ≤ rankOf s := FirstMax.firstMax_eq_some h

/-- Grades rank from 0 up, so the start of the loop loses to every signal. -/
theorem rankSignals_eq_none {l : List Signal} : rankSignals l = none ↔ l = [] := by
  rw [rankSignals_eq]
  refine FirstMax.firstMax_eq_none fun s => ?_
  rw [rankOf, Prod.Lex.toLex_lt_toLex]
  left
  show (-1 : ℤ) < gradeRank s.grade
  cases s.grade <;> decide

end CryptoAggHarmonic.Engine
