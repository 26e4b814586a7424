import CryptoAggHarmonic.Backtest.Lemmas.Fills
import CryptoAggHarmonic.Engine.Independence
import CryptoAggHarmonic.WalkForward.Lemmas.Walk

/-!
# What a walk evaluates

Which constants are in force while a window or a combination of the grid is evaluated, in which direction a signal is
simulated, and on which bars.
-/

namespace CryptoAggHarmonic.WalkForward

open Config Domain Engine Backtest

variable {num : Numeric} {detect : Detect} {p : Process} {df : Frame} {g : GridOptions} {ws : List (Dict ℚ)}

/-! ## Constants in force -/

def Process.scoped (p : Process) (t : TuningConstants) : Process := { p with tuning := p.tuning.enter t }

/-- The constants without `min_candles`, and without the sets and dicts that compare up to order. -/
def scalars (f : TuningFields) : TuningFields :=
  { f with
    extendedPatterns := []
    htfRule := ⟨[], List.nodup_nil⟩
    atrStopBuffer := ⟨[], List.nodup_nil⟩
    confluenceWeights := ⟨[], List.nodup_nil⟩
    patternBaseScore := ⟨[], List.nodup_nil⟩
    minCandles := 0 }

/-- Every tunable but `min_candles` has the same value. -/
structure AgreesExceptMinCandles (u t : TuningConstants) : Prop where
  scalars : scalars u.toTuningFields = scalars t.toTuningFields
  extendedPatterns : ∀ name, name ∈ u.extendedPatterns ↔ name ∈ t.extendedPatterns
  htfRule : u.htfRule.Same t.htfRule
  atrStopBuffer : u.atrStopBuffer.Same t.atrStopBuffer
  confluenceWeights : u.confluenceWeights.Same t.confluenceWeights
  patternBaseScore : u.patternBaseScore.Same t.patternBaseScore

/-- The relaxed constants are the defaults, whatever scope they are entered in. -/
theorem relaxedTuning_agrees_iff {t : TuningConstants} :
    AgreesExceptMinCandles relaxedTuning t ↔ AgreesExceptMinCandles TUNING t :=
  ⟨fun h => ⟨h.1, h.2, h.3, h.4, h.5, h.6⟩, fun h => ⟨h.1, h.2, h.3, h.4, h.5, h.6⟩⟩

/-- Each combination is in force while it is evaluated, one after the other as in `evalAll`. -/
def InForce (num : Numeric) (detect : Detect) (df : Frame) (g : GridOptions) : List (Dict ℚ) → Process → Prop
  | [], _ => True
  | w :: ws, p =>
      (∀ u ∈ readsSince p (evalWeights num detect df g w p).2, u.confluenceWeights.Same w) ∧
        match evalWeights num detect df g w p with
        | (.ok _, p) => InForce num detect df g ws p
        | (.error _, _) => True

theorem inForce_of_rejected {w : Dict ℚ} (h : Accepted w = false) : InForce num detect df g (w :: ws) p := by
  obtain ⟨e, he⟩ : ∃ e, evalWeights num detect df g w p = (.error e, p) := evalWeights_of_rejected h
  simp [InForce, he, readsSince]

theorem inForce_of_accepted {w : Dict ℚ} (h : Accepted w = true) : InForce num detect df g (w :: ws) p ↔
    (RunsBuild detect df g.symbol g.interval g.walk → TUNING.confluenceWeights.Same w) ∧
      (Returns (walkResult num detect df g.symbol g.interval g.walk) →
        InForce num detect df g ws (p.reading (walkReads detect df g.symbol g.interval g.walk))) := by
  simp only [InForce, evalWeights_of_accepted h, readsSince_reading, forall_mem_walkReads]
  refine and_congr_right fun _ => ?_
  cases walkResult num detect df g.symbol g.interval g.walk with
  | error e => simp [Except.map, Returns]
  | ok records => simp [Except.map]

theorem inForce_iff : InForce num detect df g ws p ↔ (RunsBuild detect df g.symbol g.interval g.walk →
    ∀ w ∈ ws.takeWhile Accepted, TUNING.confluenceWeights.Same w) := by
  induction ws generalizing p with
  | nil => simp [InForce]
  | cons w ws ih =>
      cases h : Accepted w with
      | false => simp [inForce_of_rejected h, h]
      | true =>
          rw [inForce_of_accepted h, List.takeWhile_cons_of_pos h, List.forall_mem_cons]
          by_cases hruns : RunsBuild detect df g.symbol g.interval g.walk
          · have hreturns : Returns (walkResult num detect df g.symbol g.interval g.walk) :=
              ⟨_, walkResult_of_walks hruns.1⟩
            simp [hruns, hreturns, ih]
          · simp [hruns, ih]

/-- **Constants in force.** A run of `build_signal` with relaxed filters inside `TuningScope(t)` reads `t` up to
`min_candles` exactly when it has no candidate or `t` is, up to `min_candles`, the defaults; and the grid search
evaluates its combinations in force exactly when no window has a candidate or all of them are the default weights. -/
theorem scope_in_force_iff (num : Numeric) (p : Process)
    (t : TuningConstants) (window : Frame) (interval : String) (detection : Detection)
    (detect : Detect) (df : Frame) (g : GridOptions) (ws : List (Dict ℚ)) :
    ((∀ u ∈ readsSince (p.scoped t) (extractSignal num (p.scoped t) window interval detection true).2,
      AgreesExceptMinCandles u t) ↔ windowCandidates window detection = [] ∨ AgreesExceptMinCandles TUNING t) ∧
    (InForce num detect df g ws p ↔ (RunsBuild detect df g.symbol g.interval g.walk →
      ∀ w ∈ ws.takeWhile Accepted, TUNING.confluenceWeights.Same w)) := by
  refine ⟨?_, inForce_iff⟩
  rw [extractSignal_relaxed, readsSince_reading]
  by_cases h : windowCandidates window detection = []
  · simp [windowReads, h]
  · simp [windowReads, h, relaxedTuning_agrees_iff]

/-! ## Weights that never take force -/

/-- All the weight of the trend on the candle. -/
def candleWeights : Dict ℚ :=
  ⟨[("price_action", 50), ("htf_trend", 0), ("rsi", 15), ("structure", 15), ("macd", 10), ("funding", 10)],
    by decide⟩

def candleTuning : TuningConstants := ⟨replaceWeights candleWeights, by decide +kernel⟩

def gartleyDetection : Detection where
  hasPatterns := true
  rawAssessment := some
    ⟨[("XABCD", [⟨some [90, 110, 100, 106, 100], [], some 99, some 101, some "gartley", some true⟩])], []⟩
  divergences := none

/-- The weights of the scope are not what the run of `build_signal` reads, nor what the grid search evaluates. -/
theorem candleWeights_not_in_force :
    (¬ ∀ (num : Numeric) (t : TuningConstants) (p : Process) (window : Frame) (interval : String)
      (detection : Detection),
      ∀ u ∈ readsSince (p.scoped t) (extractSignal num (p.scoped t) window interval detection true).2,
        AgreesExceptMinCandles u t) ∧
    (¬ ∀ (num : Numeric) (detect : Detect) (df : Frame) (g : GridOptions) (ws : List (Dict ℚ)) (p : Process),
      InForce num detect df g ws p) := by
  have hdiffer : ¬ TUNING.confluenceWeights.Same candleWeights := fun h =>
    absurd (h "price_action") (by decide)
  constructor
  · intro h
    have hreads := h hourly.num candleTuning {} hourly.df "1h" gartleyDetection
    rw [extractSignal_relaxed, readsSince_reading] at hreads
    have hmem : relaxedTuning ∈ windowReads hourly.df gartleyDetection :=
      mem_windowReads.mpr ⟨by decide, rfl⟩
    exact hdiffer (relaxedTuning_agrees_iff.mp (hreads _ hmem)).confluenceWeights
  · intro h
    have hruns : RunsBuild (fun _ _ _ => gartleyDetection) hourly.df "BTC" "1h"
        ⟨30, 24, 24, .close, .market, none⟩ :=
      ⟨by decide, 30, by decide, by decide⟩
    have haccepted : candleWeights ∈ [candleWeights].takeWhile Accepted := by decide +kernel
    exact hdiffer (inForce_iff.mp (h hourly.num (fun _ _ _ => gartleyDetection) hourly.df ⟨"BTC", "1h", 30, 24, 24⟩
      [candleWeights] {}) hruns _ haccepted)

/-! ## Direction -/

/-- What `simulate_trades` gives in a direction; a path without a trade is skipped. -/
def tradedIn (df : Frame) (direction : Direction) (entry stop target : ℚ) : ForwardOutcome × ℚ :=
  match simulateTrades df direction entry stop target none with
  | .ok (t :: _) => (.traded t.result, t.rMultiple)
  | _ => (.skipped, 0)

/-- The signal is simulated in its own direction. -/
def OwnDirection (forwardDf : Frame) (signal : Signal) (currentPrice entryPrice : Option ℚ) (tp1 : SignalTarget) :
    Prop :=
  let r := simulateOne forwardDf (some signal) currentPrice entryPrice none
  (r.result, r.rMultiple) =
    tradedIn forwardDf signal.direction (usedEntry signal currentPrice entryPrice) signal.stopLoss tp1.price

def Straddles (row : Candle) (entry : ℚ) : Prop := row.low ≤ entry ∧ entry ≤ row.high

theorem directionStr_ne_bullish (d : Direction) : directionStr d ≠ "bullish" := by
  cases d <;> decide

theorem tradedIn_eq_skipped {d : Direction} {entry stop target : ℚ} (h : ValidLevels d entry stop target) :
    tradedIn df d entry stop target = (.skipped, 0) ↔ ∀ row ∈ df.rows, ¬ Straddles row entry := by
  have hnil : fills (levelsOf d entry stop target (BacktestConfig.slip (Option.getD none {}))) df.rows = [] ↔
      ∀ row ∈ df.rows, ¬ Straddles row entry := by
    rw [fills_eq_nil]
    exact forall₂_congr fun row _ => by simp [Levels.touchedBy, levelsOf, Straddles]
  rw [tradedIn, simulateTrades_of_valid h (by decide), ← hnil]
  cases fills (levelsOf d entry stop target (BacktestConfig.slip (Option.getD none {}))) df.rows with
  | nil => simp
  | cons f rest => simp

theorem simulateOne_of_short {signal : Signal} {currentPrice entryPrice : Option ℚ} {tp1 : SignalTarget}
    {rest : List SignalTarget} (htargets : signal.targets = tp1 :: rest)
    (h : ValidLevels .short (usedEntry signal currentPrice entryPrice) signal.stopLoss tp1.price) :
    ((simulateOne df (some signal) currentPrice entryPrice none).result,
      (simulateOne df (some signal) currentPrice entryPrice none).rMultiple) =
    tradedIn df .short (usedEntry signal currentPrice entryPrice) signal.stopLoss tp1.price := by
  simp only [simulateOne, directionStr_ne_bullish, ↓reduceIte, htargets, Option.getD_none, h, not_true_eq_false,
    tradedIn]
  cases simulateTrades df .short (usedEntry signal currentPrice entryPrice) signal.stopLoss tp1.price none with
  | error e => rfl
  | ok trades => cases trades <;> rfl

/-- A long never passes the level check, which takes it for a short. -/
theorem simulateOne_of_long {signal : Signal} {currentPrice entryPrice : Option ℚ} {tp1 : SignalTarget}
    {rest : List SignalTarget} (htargets : signal.targets = tp1 :: rest)
    (h : ValidLevels .long (usedEntry signal currentPrice entryPrice) signal.stopLoss tp1.price) :
    simulateOne df (some signal) currentPrice entryPrice none = skippedResult := by
  have hnot : ¬ ValidLevels .short (usedEntry signal currentPrice entryPrice) signal.stopLoss tp1.price :=
    fun hshort => absurd h.1 (not_lt.mpr hshort.1.le)
  simp only [simulateOne, directionStr_ne_bullish, ↓reduceIte, htargets, Option.getD_none, hnot, not_false_eq_true]

/-- **Direction.** With the entry strictly between the stop and TP1 on the signal's side, the signal is simulated in
its own direction exactly when it is a short or no bar of the path touches the entry. -/
theorem own_direction_iff (forwardDf : Frame) (signal : Signal) (currentPrice entryPrice : Option ℚ)
    (tp1 : SignalTarget) (rest : List SignalTarget) (htargets : signal.targets = tp1 :: rest)
    (hlevels : ValidLevels signal.direction (usedEntry signal currentPrice entryPrice) signal.stopLoss tp1.price) :
    OwnDirection forwardDf signal currentPrice entryPrice tp1 ↔ signal.direction = .short ∨
      ∀ row ∈ forwardDf.rows, ¬ Straddles row (usedEntry signal currentPrice entryPrice) := by
  unfold OwnDirection
  cases hd : signal.direction with
  | short =>
      rw [hd] at hlevels
      simp [simulateOne_of_short htargets hlevels]
  | long =>
      rw [hd] at hlevels
      simp only [simulateOne_of_long htargets hlevels, reduceCtorEq, false_or, ← tradedIn_eq_skipped hlevels]
      exact eq_comm

def entryBar : Frame where
  rows := [⟨100, 101, 99, 100, 1, 0, 0, 0⟩]

def bearishGartley : Candidate :=
  { gartley with bullish := false, points := [110, 90, 100, 94, 100], points_length := by decide }

/-- Its short from 100 is simulated as a short. -/
theorem bearishGartley_direction : ∃ s tp1,
    scoreCandidate TUNING (alignedContext false .normal) bearishGartley "conservative" = .ok (some s) ∧
      s.direction = .short ∧ OwnDirection entryBar s none none tp1 := by
  obtain ⟨s, hs, hf⟩ := exists_signal
    (f := fun s : Signal => (s.direction, s.entryReference, s.stopLoss, s.targets.map SignalTarget.price))
    (b := (.short, 100, 103, [4809 / 50, 4691 / 50, 2182 / 25]))
    (x := scoreCandidate TUNING (alignedContext false .normal) bearishGartley "conservative") (by decide +kernel)
  simp only [Prod.mk.injEq] at hf
  obtain ⟨hd, hentry, hstop, htargets⟩ := hf
  obtain ⟨tp1, rest, hlist, htp1, -⟩ := List.map_eq_cons_iff.mp htargets
  refine ⟨s, tp1, hs, hd, (own_direction_iff entryBar s none none tp1 rest hlist ?_).mpr (Or.inl hd)⟩
  simp only [usedEntry, Option.getD_none, hd, hentry, hstop, htp1]
  decide +kernel

/-- A long from 100 whose entry the first bar touches is skipped, where its own direction has a trade. -/
theorem fullLeg_skipped : ¬ ∀ (r : Request) (cs : List Candidate) (s : Signal) (forwardDf : Frame)
    (currentPrice entryPrice : Option ℚ) (tp1 : SignalTarget) (rest : List SignalTarget),
    r.build cs none = .ok (some s) → s.targets = tp1 :: rest →
    ValidLevels s.direction (usedEntry s currentPrice entryPrice) s.stopLoss tp1.price →
    OwnDirection forwardDf s currentPrice entryPrice tp1 := by
  intro h
  obtain ⟨s, hs, hd, hentry, hstop, htargets⟩ := hourly_fullLeg
  obtain ⟨tp1, rest, hlist, htp1, -⟩ := List.map_eq_cons_iff.mp htargets
  have hused : usedEntry s none none = 100 := hentry
  have hlevels : ValidLevels .long (usedEntry s none none) s.stopLoss tp1.price := by
    rw [hused, hstop, htp1]
    decide +kernel
  have hown := h hourly [fullLeg] s entryBar none none tp1 rest hs hlist (by rwa [hd])
  rw [OwnDirection, hd, simulateOne_of_long hlist hlevels] at hown
  have htouch := (tradedIn_eq_skipped hlevels).mp hown.symm ⟨100, 101, 99, 100, 1, 0, 0, 0⟩ (by simp [entryBar])
  rw [hused] at htouch
  exact htouch (by constructor <;> norm_num)

/-! ## Horizon -/

/-- A record is evaluated on the `horizon` bars that follow its window. -/
def OnHorizon (df : Frame) (o : WalkOptions) (r : BacktestSignalRecord) : Prop :=
  let stop := (r.stepIndex + 1).toNat
  (forwardOf df o stop).rows = slice stop (stop + o.horizon) df.rows ∧ (forwardOf df o stop).len = o.horizon

/-- The window that ends before `stop` gives a record. -/
def emits (num : Numeric) (detect : Detect) (df : Frame) (symbol interval : String) (o : WalkOptions) (stop : ℕ) :
    Bool :=
  (windowSignal num (windowOf df o stop) interval (detect (windowOf df o stop) symbol interval)).any (passesMinGrade o)

theorem window_le_of_mem_stops {n stop : ℕ} {o : WalkOptions} (h : stop ∈ stops n o) : o.window ≤ stop := by
  obtain ⟨i, -, rfl⟩ := List.mem_range'.mp h
  exact Nat.le_add_right _ _

/-- The last window of a walk ends `horizon` bars before the end of the frame or earlier. -/
theorem le_of_mem_stops {stop : ℕ} {o : WalkOptions} (hwalks : Walks df o) (h : stop ∈ stops df.len o) :
    stop + o.horizon ≤ df.len := by
  obtain ⟨hlen, hstep⟩ := hwalks
  obtain ⟨i, hi, rfl⟩ := List.mem_range'.mp h
  have hlt := Nat.mul_le_of_le_div _ _ _ (Nat.succ_le_of_lt hi)
  rw [Nat.succ_mul, Nat.mul_comm] at hlt
  omega

theorem onHorizon_recordOf {stop : ℕ} {o : WalkOptions} {signal : Signal} (h : stop + o.horizon ≤ df.len) :
    OnHorizon df o (recordOf df o stop signal) ↔ stop + o.horizon = df.len := by
  have hstop : ((recordOf df o stop signal).stepIndex + 1).toNat = stop := by simp [recordOf]
  unfold OnHorizon
  rw [hstop]
  simp only [forwardOf, Frame.withRows, Frame.len, slice, List.length_drop, List.length_take] at h ⊢
  constructor
  · rintro ⟨-, hlength⟩
    omega
  · intro hlast
    refine ⟨?_, by omega⟩
    rw [List.take_of_length_le (by omega), List.take_of_length_le hlast.ge]

theorem stepRecords_eq (num : Numeric) (detect : Detect) (df : Frame) (symbol interval : String) (o : WalkOptions)
    (stop : ℕ) :
    (emits num detect df symbol interval o stop = false ∧ stepRecords num detect df symbol interval o stop = []) ∨
      (emits num detect df symbol interval o stop = true ∧ ∃ signal,
        stepRecords num detect df symbol interval o stop = [recordOf df o stop signal]) := by
  unfold emits stepRecords
  cases windowSignal num (windowOf df o stop) interval (detect (windowOf df o stop) symbol interval) with
  | none => simp
  | some signal => cases h : passesMinGrade o signal <;> simp [h]

/-- **Horizon.** Every record is evaluated on exactly the `horizon` bars behind its window when, and only when, no
window that ends earlier than `horizon` bars before the end of the frame gives one. -/
theorem onHorizon_iff (num : Numeric) (detect : Detect) (p : Process) (df : Frame) (symbol interval : String)
    (o : WalkOptions) (records : List BacktestSignalRecord)
    (h : (walkForward num detect p df symbol interval o).1 = .ok records) :
    (∀ r ∈ records, OnHorizon df o r) ↔ ∀ stop ∈ stops df.len o, stop + o.horizon < df.len →
      emits num detect df symbol interval o stop = false := by
  rw [walkForward_eq] at h
  simp only [walkResult] at h
  split_ifs at h with hlen hstep
  · cases h
    refine iff_of_true (by simp) fun stop hstop hlt => ?_
    have := window_le_of_mem_stops hstop
    omega
  · cases h
    have hwalks : Walks df o := ⟨not_lt.mp hlen, hstep⟩
    simp only [List.mem_flatMap, forall_exists_index, and_imp]
    constructor
    · intro hall stop hstop hlt
      rcases stepRecords_eq num detect df symbol interval o stop with ⟨hnone, -⟩ | ⟨-, signal, hrecords⟩
      · exact hnone
      · have hon := hall _ stop hstop (by rw [hrecords]; exact List.mem_singleton_self _)
        rw [onHorizon_recordOf (le_of_mem_stops hwalks hstop)] at hon
        omega
    · intro hall r stop hstop hr
      rcases stepRecords_eq num detect df symbol interval o stop with ⟨-, hnil⟩ | ⟨hsome, signal, hrecords⟩
      · rw [hnil] at hr
        cases hr
      · rw [hrecords] at hr
        obtain rfl := List.mem_singleton.mp hr
        have hle := le_of_mem_stops hwalks hstop
        rw [onHorizon_recordOf hle]
        by_contra hne
        rw [hall stop hstop (by omega)] at hsome
        cases hsome

/-- The full Gartley with its divergences. -/
def fullLegDetection : Detection where
  hasPatterns := true
  rawAssessment := some ⟨[("XABCD", [⟨some fullLeg.points, [], some fullLeg.completionMin, some fullLeg.completionMax,
    some "gartley", some true⟩])], []⟩
  divergences := hourly.divergences

/-- Nothing in the window that begins with the frame. -/
def detectLater (window : Frame) (_symbol _interval : String) : Detection :=
  if (window.rows.head?.map Candle.index) = some 0 then ⟨false, none, none⟩ else fullLegDetection

theorem detectLater_onHorizon : ∃ records,
    (walkForward hourly.num detectLater {} hourly.df "BTC" "1h" ⟨30, 1, 29, .close, .market, none⟩).1 = .ok records ∧
      ∀ r ∈ records, OnHorizon hourly.df ⟨30, 1, 29, .close, .market, none⟩ r := by
  obtain ⟨records, hrecords⟩ : ∃ records,
      (walkForward hourly.num detectLater {} hourly.df "BTC" "1h" ⟨30, 1, 29, .close, .market, none⟩).1 =
        .ok records := by
    have hwalks : Walks hourly.df ⟨30, 1, 29, .close, .market, none⟩ := by decide
    rw [walkForward_eq]
    exact ⟨_, walkResult_of_walks hwalks⟩
  refine ⟨records, hrecords, (onHorizon_iff _ _ _ _ _ _ _ records hrecords).mpr ?_⟩
  decide

/-- The only window ends 30 bars before the end of the frame, and its record is evaluated on all of them. -/
theorem fullLeg_beyond_horizon : ∃ records,
    (walkForward hourly.num (fun _ _ _ => fullLegDetection) {} hourly.df "BTC" "1h"
      ⟨30, 2, 29, .close, .market, none⟩).1 = .ok records ∧
      ¬ ∀ r ∈ records, OnHorizon hourly.df ⟨30, 2, 29, .close, .market, none⟩ r := by
  have hwalks : Walks hourly.df ⟨30, 2, 29, .close, .market, none⟩ := by decide
  rw [walkForward_eq]
  refine ⟨_, walkResult_of_walks hwalks, fun hall => ?_⟩
  have hstops : stops hourly.df.len ⟨30, 2, 29, .close, .market, none⟩ = [30] := by decide
  rw [hstops, List.flatMap_singleton] at hall
  rcases stepRecords_eq hourly.num (fun _ _ _ => fullLegDetection) hourly.df "BTC" "1h"
    ⟨30, 2, 29, .close, .market, none⟩ 30 with ⟨hnone, -⟩ | ⟨-, signal, hrecords⟩
  · exact absurd hnone (by decide +kernel)
  · rw [hrecords] at hall
    have hlen : hourly.df.len = 60 := by decide
    have hon := (onHorizon_recordOf (by rw [hlen]; decide)).mp (hall _ (List.mem_singleton_self _))
    rw [hlen] at hon
    exact absurd hon (by decide)

end CryptoAggHarmonic.WalkForward
