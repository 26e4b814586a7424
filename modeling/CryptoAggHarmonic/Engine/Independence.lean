import CryptoAggHarmonic.Engine.Theorems
import CryptoAggHarmonic.Engine.Lemmas.Score
import CryptoAggHarmonic.Engine.Lemmas.Context

/-!
# Candidates through `build_signal` independently of each other

The contracts of the stop and of the ratios are checked inside the loops over the candidates, so a candidate that
violates one takes the others with it. The theorem says on which candidates none does.
-/

namespace CryptoAggHarmonic.Engine

open Config Domain Rounding

variable {fn : RejectionFn} {t : TuningConstants} {ctx : ScoreContext} {level : String} {c : Candidate} {g : Grade}

/-! ## One call -/

/-- The arguments of a call of `build_signal` other than the candidates and the detector. -/
structure Request where
  num : Numeric
  t : TuningConstants
  fn : RejectionFn
  df : Frame
  interval : String
  divergences : Option Divergences
  stopLevel : String
  stopBufferAtr : Option ℚ

namespace Request

def build (r : Request) (cs : List Candidate) (detector : Option StabilityDetector) :
    Except PyError (Option Signal) :=
  buildSignal r.num r.t r.fn r.df r.interval cs r.divergences detector r.stopLevel r.stopBufferAtr

def context (r : Request) : Except PyError (Option ScoreContext) :=
  prepareScoreContext r.num r.t r.df r.interval r.divergences r.stopBufferAtr

def LongEnough (r : Request) : Prop := r.t.minCandles ≤ r.df.len

variable {r : Request} {cs : List Candidate} {detector : Option StabilityDetector}

/-- What `build_signal` does before it looks at a candidate. -/
theorem build_eq_ok {s : Option Signal} : r.build cs detector = .ok s ↔
    r.interval.length > 0 ∧ (StopLevel.parse r.stopLevel).isSome = true ∧
      if (r.df.len : ℤ) < r.t.minCandles ∨ cs = [] then none = s
      else ∃ octx, r.context = .ok octx ∧ match octx with
        | none => none = s
        | some ctx => ∃ vr, filterCandidates (r.fn.apply r.t ctx) cs = .ok vr ∧
            ∃ scored, scoreAll (fun c => scoreCandidate r.t ctx c r.stopLevel) vr.1 = .ok scored ∧
              applyStability r.t r.df (rankSignals scored) detector = s := by
  simp only [build, buildSignal, require_bind_eq_ok, context]
  refine and_congr_right fun _ => and_congr_right fun _ => ?_
  split_ifs
  · simp
  · simp only [bind_eq_ok]
    refine exists_congr fun octx => and_congr_right fun _ => ?_
    cases octx <;> simp [bind_eq_ok]

/-- The list goes through and the ranking sees what each candidate contributes. -/
theorem build_of_passes (hint : r.interval.length > 0) (hlevel : (StopLevel.parse r.stopLevel).isSome = true)
    (hlong : r.LongEnough) (hctx : r.context = .ok (some ctx)) (hpass : ∀ c ∈ cs, Passes r.fn r.t ctx r.stopLevel c) :
    r.build cs detector =
      .ok (applyStability r.t r.df (rankSignals (cs.filterMap (outcome r.fn r.t ctx r.stopLevel))) detector) := by
  have hatr := (prepareScoreContext_spec hctx).1
  have hnot : ¬ (r.df.len : ℤ) < r.t.minCandles := not_lt.mpr hlong
  rw [build_eq_ok]
  refine ⟨hint, hlevel, ?_⟩
  by_cases hnil : cs = []
  · subst hnil
    simp only [or_true, ↓reduceIte, List.filterMap_nil]
    cases detector <;> rfl
  · simp only [hnot, hnil, or_self, ↓reduceIte]
    have hreject : ∀ c ∈ cs, r.fn.apply r.t ctx c = .ok (r.fn.body r.t ctx c) := fun c hc =>
      (RejectionFn.apply_eq_ok hatr).mpr ⟨(hpass c hc).filter, rfl⟩
    obtain ⟨rejected, hfilter⟩ := filterCandidates_eq_ok hreject
    have hscore : ∀ c ∈ cs.filter fun c => (r.fn.body r.t ctx c).isNone,
        scoreCandidate r.t ctx c r.stopLevel = .ok (scoreBody r.t ctx c r.stopLevel) := by
      intro c hc
      obtain ⟨hmem, hb⟩ := List.mem_filter.mp hc
      exact scoreCandidate_eq_ok.mpr ⟨(hpass c hmem).score (Option.isNone_iff_eq_none.mp hb), rfl⟩
    exact ⟨_, hctx, _, hfilter, _, scoreAll_eq_ok hscore, by rw [filterMap_outcome]⟩

theorem passes_of_build (hlong : r.LongEnough) (hctx : r.context = .ok (some ctx))
    (h : Returns (r.build [c] detector)) : Passes r.fn r.t ctx r.stopLevel c := by
  have hatr := (prepareScoreContext_spec hctx).1
  have hnot : ¬ (r.df.len : ℤ) < r.t.minCandles := not_lt.mpr hlong
  obtain ⟨s, hs⟩ := h
  obtain ⟨-, -, hs⟩ := build_eq_ok.mp hs
  simp only [hnot, List.cons_ne_nil, or_self, ↓reduceIte, hctx, Except.ok.injEq, exists_eq_left'] at hs
  obtain ⟨vr, hfilter, scored, hscore, -⟩ := hs
  simp only [filterCandidates, bind_eq_ok, ok_bind] at hfilter
  obtain ⟨reason, hreason, hfilter⟩ := hfilter
  obtain ⟨hstop, hbody⟩ := (RejectionFn.apply_eq_ok hatr).mp hreason
  refine ⟨hstop, fun hnone => ?_⟩
  rw [← hbody, hnone] at hfilter
  cases hfilter
  simp only [scoreAll, bind_eq_ok, ok_bind] at hscore
  obtain ⟨signal, hsignal, -⟩ := hscore
  exact (scoreCandidate_eq_ok.mp hsignal).1

end Request

/-! ## When no contract is violated -/

/-- The net ratio of leg `fib` at a stop, where it is one at all, does not round to zero. -/
def RatioVisible (t : TuningConstants) (ctx : ScoreContext) (c : Candidate) (stop fib : ℚ) : Prop :=
  let cost := roundTripCost t (entryPrice ctx c) none none
  let risk := |entryPrice ctx c - stop|
  let reward := |roundTo 8 (rawLadder ctx c fib) - entryPrice ctx c| - cost
  0 < risk → 0 < reward → 0 < risk + cost → (risk + cost) / 20000 < reward

/-- The candidate gets as far as its targets: no filter, gate or veto has dropped it. -/
structure Reaches (fn : RejectionFn) (t : TuningConstants) (ctx : ScoreContext) (level : String) (c : Candidate) :
    Prop where
  kept : fn.body t ctx c = none
  gate : volumeGate t ctx c = false
  veto : vetoed t ctx c level = false

/-- No contract is violated, in terms of the context and the candidate: wherever a stop is computed the pivots, the
anchor and the moved anchor are positive after rounding; TP1 and TP2 are, and `a_min` is at most 100; and no net
ratio rounds to zero. -/
structure Unviolated (fn : RejectionFn) (t : TuningConstants) (ctx : ScoreContext) (level : String)
    (c : Candidate) : Prop where
  filter : fn = .live → stale t c ctx.price ctx.atr ctx.df.closeTimes = none →
    StopContracts t c ctx.atr "standard" {}
  first : fn.body t ctx c = none → volumeGate t ctx c = false →
    StopContracts t c ctx.atr level (firstStopOptions ctx c)
  ladder : Reaches fn t ctx level c → ctx.aMin ≤ 100 ∧ ∀ fib ∈ [t.fibTp1, t.fibTp2],
    1 / 2 / 10 ^ 8 < rawLadder ctx c fib ∧ RatioVisible t ctx c (firstStop t ctx c level) fib
  final : Reaches fn t ctx level c → ∀ g ∈ firstGrade t ctx c level,
    StopContracts t c ctx.atr level (finalOptions ctx c g) ∧
      ∀ fib ∈ [t.fibTp1, t.fibTp2], RatioVisible t ctx c (finalStop t ctx c level g) fib

theorem ratiosOk_iff_visible {stop : ℚ} (hprz : 0 < c.przLow ∧ 0 < c.przHigh) (hstop : 0 < stop) :
    RatiosOk t ctx c stop ↔ ∀ fib ∈ [t.fibTp1, t.fibTp2],
      1 / 2 / 10 ^ 8 < rawLadder ctx c fib ∧ RatioVisible t ctx c stop fib := by
  have hentry : 0 < entryPrice ctx c := entryPrice_pos hprz
  have hleg : ∀ i fib, ladderPrice t ctx c i = roundTo 8 (rawLadder ctx c fib) →
      (RrContracts t (entryPrice ctx c) stop (ladderPrice t ctx c i) ↔
        1 / 2 / 10 ^ 8 < rawLadder ctx c fib ∧ RatioVisible t ctx c stop fib) := by
    intro i fib hi
    rw [hi, ← roundTo_pos]
    constructor
    · intro h
      exact ⟨h.target_pos, (netRrBody_pos_iff hentry).mp h.ratio_pos⟩
    · rintro ⟨htarget, hvisible⟩
      exact ⟨hentry, hstop, htarget, (netRrBody_pos_iff hentry).mpr hvisible⟩
  obtain ⟨h0, h1, -⟩ := ladderPrice_eq t ctx c
  rw [ratiosOk_iff, hleg 0 _ h0, hleg 1 _ h1]
  simp

/-- In a context that `_prepare_score_context` has made, these are all the contracts on the way. -/
theorem passes_iff_unviolated (hlevel : (StopLevel.parse level).isSome = true) (hatr : 0 < ctx.atr)
    (hrsi : 0 ≤ ctx.rsi ∧ ctx.rsi ≤ 100) (hpa : 0 ≤ ctx.paScale ∧ ctx.paScale ≤ 2) (hmin : 0 < ctx.aMin) :
    Passes fn t ctx level c ↔ Unviolated fn t ctx level c := by
  constructor
  · intro h
    refine ⟨h.filter, fun hk hg => (h.score hk).first hg, fun hr => ?_, fun hr g hgrade => ?_⟩
    · have hs := h.score hr.kept
      have hfirst := hs.first hr.gate
      exact ⟨(hs.confluence hr.gate hr.veto).2.2.2,
        (ratiosOk_iff_visible hfirst.prz_pos hfirst.body_pos).mp (hs.ratios hr.gate hr.veto)⟩
    · obtain ⟨hstop, hratios⟩ := (h.score hr.kept).final hr.gate hr.veto g hgrade
      exact ⟨hstop, fun fib hfib => ((ratiosOk_iff_visible hstop.prz_pos hstop.body_pos).mp hratios fib hfib).2⟩
  · intro h
    refine ⟨h.filter, fun hk =>
      ⟨hlevel, hatr, h.first hk, fun hg hv => ?_, fun hg hv => ?_, fun hg hv g hgrade => ?_⟩⟩
    · have hfirst := h.first hk hg
      exact (ratiosOk_iff_visible hfirst.prz_pos hfirst.body_pos).mpr (h.ladder ⟨hk, hg, hv⟩).2
    · exact ⟨hrsi, hpa, hmin, (h.ladder ⟨hk, hg, hv⟩).1⟩
    · obtain ⟨hstop, hvisible⟩ := h.final ⟨hk, hg, hv⟩ g hgrade
      refine ⟨hstop, (ratiosOk_iff_visible hstop.prz_pos hstop.body_pos).mpr fun fib hfib => ?_⟩
      exact ⟨((h.ladder ⟨hk, hg, hv⟩).2 fib hfib).1, hvisible fib hfib⟩

/-! ## Independence -/

/-- Each candidate of the pool has a result of its own; the signal selected from any list over the pool is the
ranking's of these, checked for stability; and a candidate without a signal changes nothing for the others. -/
def Independent (r : Request) (pool : List Candidate) : Prop :=
  ∃ alone : Candidate → Option Signal,
    (∀ c ∈ pool, r.build [c] none = .ok (alone c)) ∧
    (∀ cs, cs ⊆ pool → ∀ detector, r.build cs detector =
      .ok (applyStability r.t r.df (rankSignals (cs.filterMap alone)) detector)) ∧
    ∀ c ∈ pool, alone c = none → ∀ cs₁ cs₂, cs₁ ⊆ pool → cs₂ ⊆ pool → ∀ detector,
      r.build (cs₁ ++ c :: cs₂) detector = r.build (cs₁ ++ cs₂) detector

theorem Independent.of_selection {r : Request} {pool : List Candidate} (alone : Candidate → Option Signal)
    (hsel : ∀ cs, cs ⊆ pool → ∀ detector, r.build cs detector =
      .ok (applyStability r.t r.df (rankSignals (cs.filterMap alone)) detector)) : Independent r pool := by
  refine ⟨alone, fun c hc => ?_, hsel, fun c hc hnone cs₁ cs₂ h₁ h₂ detector => ?_⟩
  · rw [hsel [c] (by simpa using hc) none]
    cases h : alone c with
    | none => simp [h, rankSignals, applyStability]
    | some s =>
        have hrank : rankSignals [s] = some s := by
          cases hr : rankSignals [s] with
          | none => exact absurd (rankSignals_eq_none.mp hr) (by simp)
          | some s' => rw [List.mem_singleton.mp (rankSignals_eq_some hr).1]
        simp [h, hrank, applyStability]
  · have hboth : cs₁ ++ c :: cs₂ ⊆ pool := by
      intro x hx
      rcases List.mem_append.mp hx with hx | hx
      · exact h₁ hx
      · rcases List.mem_cons.mp hx with rfl | hx
        · exact hc
        · exact h₂ hx
    rw [hsel _ hboth, hsel _ (List.append_subset.mpr ⟨h₁, h₂⟩)]
    simp [List.filterMap_append, hnone]

/-- What the call and its candidates must satisfy: arguments `build_signal` accepts, a second bar once the frame is
long enough, and no contract violated on the way of a candidate. -/
structure Clean (r : Request) (pool : List Candidate) : Prop where
  interval : r.interval.length > 0
  level : (StopLevel.parse r.stopLevel).isSome = true
  bars : r.LongEnough → pool ≠ [] → r.df.len ≥ 2
  candidates : ∀ ctx, r.LongEnough → r.context = .ok (some ctx) → ∀ c ∈ pool,
    Unviolated r.fn r.t ctx r.stopLevel c

/-- Without a candidate to score the ranking has nothing to rank. -/
theorem build_of_nothing {r : Request} {pool : List Candidate} (hclean : Clean r pool)
    (h : ¬ r.LongEnough ∨ pool = [] ∨ r.context = .ok none) : Independent r pool := by
  refine Independent.of_selection (fun _ => none) fun cs hcs detector => ?_
  have hnone : applyStability r.t r.df (rankSignals (cs.filterMap fun _ => none)) detector = none := by
    cases detector <;> simp [rankSignals, applyStability]
  rw [hnone, Request.build_eq_ok]
  refine ⟨hclean.interval, hclean.level, ?_⟩
  split_ifs with hshort
  · rfl
  · rw [not_or, not_lt] at hshort
    rcases h with h | h | h
    · exact absurd hshort.1 h
    · exact absurd (List.subset_nil.mp (h ▸ hcs)) hshort.2
    · exact ⟨none, h, rfl⟩

/-- **Independence of candidates.** `build_signal` treats the candidates of a pool independently exactly when none of
them violates a contract. -/
theorem candidates_independent_iff (r : Request) (pool : List Candidate) : Independent r pool ↔ Clean r pool := by
  constructor
  · rintro ⟨alone, halone, hsel, -⟩
    obtain ⟨hint, hlevel, -⟩ := Request.build_eq_ok.mp (hsel [] (List.nil_subset _) none)
    refine ⟨hint, hlevel, fun hlong hpool => ?_, fun ctx hlong hctx c hc => ?_⟩
    · obtain ⟨c, cs, rfl⟩ := List.exists_cons_of_ne_nil hpool
      obtain ⟨-, -, h⟩ := Request.build_eq_ok.mp (halone c (by simp))
      rw [if_neg (by simpa using not_lt.mpr hlong)] at h
      obtain ⟨octx, hctx, -⟩ := h
      exact (returns_prepareScoreContext hint).mp ⟨octx, hctx⟩
    · obtain ⟨hatr, hrsi, hpa, hmin⟩ := prepareScoreContext_spec hctx
      exact (passes_iff_unviolated hlevel hatr hrsi hpa hmin).mp
        (Request.passes_of_build hlong hctx ⟨_, halone c hc⟩)
  · intro hclean
    by_cases hlong : r.LongEnough
    · by_cases hpool : pool = []
      · exact build_of_nothing hclean (Or.inr (Or.inl hpool))
      · obtain ⟨octx, hctx⟩ := (returns_prepareScoreContext hclean.interval).mpr (hclean.bars hlong hpool)
        cases octx with
        | none => exact build_of_nothing hclean (Or.inr (Or.inr hctx))
        | some ctx =>
            obtain ⟨hatr, hrsi, hpa, hmin⟩ := prepareScoreContext_spec hctx
            refine Independent.of_selection (outcome r.fn r.t ctx r.stopLevel) fun cs hcs detector => ?_
            refine Request.build_of_passes hclean.interval hclean.level hlong hctx fun c hc => ?_
            exact (passes_iff_unviolated hclean.level hatr hrsi hpa hmin).mpr
              (hclean.candidates ctx hlong hctx c (hcs hc))
    · exact build_of_nothing hclean (Or.inl hlong)

/-! ## One leg too thin -/

/-- Sixty hourly bars at 100 with a regular bullish divergence of both indicators. -/
def hourly : Request where
  num := ⟨fun x => x, fun _ _ => List.replicate 15 100⟩
  t := TUNING
  fn := .live
  df := { rows := (List.range 60).map fun i => ⟨100, 101, 99, 100, 100, 3600 * i, 3600 * i, 3600 * i⟩ }
  interval := "1h"
  divergences := some ⟨[("rsi", [⟨some "Regular", some true⟩]), ("macd", [⟨some "Regular", some true⟩])],
    by decide⟩
  stopLevel := "standard"
  stopBufferAtr := none

/-- A Gartley whose A-D leg spans ten, and one whose leg pays the round trip and next to nothing more. -/
def fullLeg : Candidate := { gartley with completionMin := 983 / 10, completionMax := 1003 / 10 }

def thinLeg : Candidate where
  family := "XABCD"
  name := "gartley"
  bullish := true
  formed := true
  points := [90, 1007855 / 10000, 995 / 10, 1002 / 10, 100]
  completionMin := 995 / 10
  completionMax := 1005 / 10
  points_length := by decide

theorem hourly_fullLeg : ∃ s, hourly.build [fullLeg] none = .ok (some s) ∧ s.direction = .long ∧
    s.entryReference = 100 ∧ s.stopLoss = 981 / 10 ∧
      s.targets.map SignalTarget.price = [5191 / 50, 5309 / 50, 2818 / 25] := by
  obtain ⟨s, hs, hf⟩ := exists_signal
    (f := fun s : Signal => (s.direction, s.entryReference, s.stopLoss, s.targets.map SignalTarget.price))
    (b := (.long, 100, 981 / 10, [5191 / 50, 5309 / 50, 2818 / 25])) (x := hourly.build [fullLeg] none)
    (by decide +kernel)
  simpa [hs] using hf

/-- The full leg has a signal of its own; with the thin leg beside it the call raises. -/
theorem thinLeg_takes_fullLeg_along : (∃ s, hourly.build [fullLeg] none = .ok (some s)) ∧
    ¬ ∀ (r : Request) (pool : List Candidate), r.interval.length > 0 →
      (StopLevel.parse r.stopLevel).isSome = true → r.df.len ≥ 2 →
      (∀ c ∈ pool, 0 < c.completionMin ∧ 0 < c.completionMax) → Independent r pool := by
  constructor
  · obtain ⟨s, hs, -⟩ := hourly_fullLeg
    exact ⟨s, hs⟩
  · intro h
    obtain ⟨alone, -, hsel, -⟩ := h hourly [fullLeg, thinLeg] (by decide) (by decide) (by decide)
      (by decide +kernel)
    have hraise : (hourly.build [fullLeg, thinLeg] none).isOk = false := by decide +kernel
    rw [hsel _ (List.Subset.refl _) none] at hraise
    cases hraise

end CryptoAggHarmonic.Engine
