import CryptoAggHarmonic.Engine.Lemmas.Context
import CryptoAggHarmonic.WalkForward.Lib

/-!
# A walk over the windows, with the filters relaxed

What one window, one walk and one combination of the grid give, and the constants their runs of `build_signal` read.
Nothing else of the process changes.
-/

namespace CryptoAggHarmonic.WalkForward

open Config Domain Engine Backtest

variable {num : Numeric} {detect : Detect} {p : Process} {window df : Frame} {symbol interval : String}
  {detection : Detection} {o : WalkOptions} {g : GridOptions} {w : Dict ℚ}

def Process.reading (p : Process) (l : List TuningConstants) : Process := { p with reads := p.reads ++ l }

@[simp] theorem Process.reading_nil : p.reading [] = p := by simp [reading]

@[simp] theorem Process.reading_reading {l l' : List TuningConstants} :
    (p.reading l).reading l' = p.reading (l ++ l') := by simp [reading, List.append_assoc]

/-- The constants read between two states of the process. -/
def readsSince (p p' : Process) : List TuningConstants := p'.reads.drop p.reads.length

@[simp] theorem readsSince_reading {l : List TuningConstants} : readsSince p (p.reading l) = l := by
  simp [readsSince, Process.reading]

/-! ## One window -/

/-- The constants `_maybe_relax_filters` puts in force: the defaults with a lower `min_candles`. -/
def relaxedTuning : TuningConstants := ⟨{ TuningFields.defaults with minCandles := 30 }, by decide +kernel⟩

theorem fromDict_relaxed : fromDict [fun f => { f with minCandles := 30 }] = .ok relaxedTuning :=
  dif_pos relaxedTuning.checked

theorem relaxFilters_eq : relaxFilters p = .ok (p.validation, { p with
    tuning := p.tuning.enter relaxedTuning
    validation := { maxPrzDistanceAtr := 1000000000, maxDAgeBars := 1000000000, rejectionReason := .noop } }) := by
  rw [relaxFilters, fromDict_relaxed]
  rfl

/-- The signal of a window, the same in every process. -/
def windowSignal (num : Numeric) (window : Frame) (interval : String) (detection : Detection) : Option Signal :=
  let candidates := windowCandidates window detection
  if candidates = [] then none
  else (buildSignal num relaxedTuning .noop (sortedWindow window) interval candidates detection.divergences none
    "standard" none).toOption.join

/-- What the run of `build_signal` on a window reads, if there is one. -/
def windowReads (window : Frame) (detection : Detection) : List TuningConstants :=
  if windowCandidates window detection = [] then [] else [relaxedTuning]

theorem mem_windowReads {u : TuningConstants} :
    u ∈ windowReads window detection ↔ windowCandidates window detection ≠ [] ∧ u = relaxedTuning := by
  unfold windowReads
  split_ifs with h <;> simp [h]

theorem dropViolation_of_onlyViolates {x : Except PyError (Option Signal)} (h : OnlyViolates x) :
    dropViolation x = .ok x.toOption.join := by
  cases hx : x with
  | ok signal => rfl
  | error e =>
      obtain ⟨d, rfl⟩ := h e hx
      rfl

/-- **One window**: the relaxed filters decide the signal, and the process is as it was. -/
theorem extractSignal_relaxed : extractSignal num p window interval detection true =
    (.ok (windowSignal num window interval detection), p.reading (windowReads window detection)) := by
  unfold extractSignal windowSignal windowReads
  by_cases h : windowCandidates window detection = []
  · simp [h]
  · simp only [h, ↓reduceIte, relaxFilters_eq, runBuildSignal, getTuning_enter,
      dropViolation_of_onlyViolates onlyViolates_buildSignal]
    rfl

/-! ## A walk -/

def stepRecords (num : Numeric) (detect : Detect) (df : Frame) (symbol interval : String) (o : WalkOptions)
    (stop : ℕ) : List BacktestSignalRecord :=
  match windowSignal num (windowOf df o stop) interval (detect (windowOf df o stop) symbol interval) with
  | some s => if passesMinGrade o s then [recordOf df o stop s] else []
  | none => []

def stepReads (detect : Detect) (df : Frame) (symbol interval : String) (o : WalkOptions) (stop : ℕ) :
    List TuningConstants :=
  windowReads (windowOf df o stop) (detect (windowOf df o stop) symbol interval)

/-- **The loop**: the records of every window, and its reads. -/
theorem walkSteps_eq (stops : List ℕ) : walkSteps num detect df symbol interval o stops p =
    (.ok (stops.flatMap (stepRecords num detect df symbol interval o)),
      p.reading (stops.flatMap (stepReads detect df symbol interval o))) := by
  induction stops generalizing p with
  | nil => simp [walkSteps]
  | cons stop rest ih =>
      simp only [walkSteps, extractSignal_relaxed, ih, List.flatMap_cons, Process.reading_reading]
      rfl

def Walks (df : Frame) (o : WalkOptions) : Prop := o.window + o.horizon + 1 ≤ df.len ∧ o.step ≠ 0

instance : Decidable (Walks df o) := inferInstanceAs (Decidable (_ ∧ _))

def walkReads (detect : Detect) (df : Frame) (symbol interval : String) (o : WalkOptions) : List TuningConstants :=
  if Walks df o then (stops df.len o).flatMap (stepReads detect df symbol interval o) else []

/-- What `walk_forward` gives, the same in every process. -/
def walkResult (num : Numeric) (detect : Detect) (df : Frame) (symbol interval : String) (o : WalkOptions) :
    Except PyError (List BacktestSignalRecord) :=
  if df.len < o.window + o.horizon + 1 then .ok []
  else if o.step = 0 then .error (.valueError "range() arg 3 must not be zero")
  else .ok ((stops df.len o).flatMap (stepRecords num detect df symbol interval o))

theorem walkForward_eq : walkForward num detect p df symbol interval o =
    (walkResult num detect df symbol interval o, p.reading (walkReads detect df symbol interval o)) := by
  unfold walkForward walkResult walkReads
  by_cases hlen : df.len < o.window + o.horizon + 1
  · have hnot : ¬ Walks df o := fun h => absurd h.1 (not_le.mpr hlen)
    simp [hlen, hnot]
  · by_cases hstep : o.step = 0
    · have hnot : ¬ Walks df o := fun h => h.2 hstep
      simp [hlen, hstep, hnot]
    · have hwalks : Walks df o := ⟨not_lt.mp hlen, hstep⟩
      simp only [hlen, hstep, hwalks, ↓reduceIte, walkSteps_eq]

theorem walkResult_of_walks (h : Walks df o) : walkResult num detect df symbol interval o =
    .ok ((stops df.len o).flatMap (stepRecords num detect df symbol interval o)) := by
  simp only [walkResult, not_lt.mpr h.1, h.2, ↓reduceIte]

/-- Some window of the walk has a candidate. -/
def RunsBuild (detect : Detect) (df : Frame) (symbol interval : String) (o : WalkOptions) : Prop :=
  Walks df o ∧ ∃ stop ∈ stops df.len o,
    windowCandidates (windowOf df o stop) (detect (windowOf df o stop) symbol interval) ≠ []

theorem forall_mem_walkReads {P : TuningConstants → Prop} :
    (∀ u ∈ walkReads detect df symbol interval o, P u) ↔
      (RunsBuild detect df symbol interval o → P relaxedTuning) := by
  unfold walkReads RunsBuild
  by_cases h : Walks df o
  · simp only [h, ↓reduceIte, true_and, List.mem_flatMap, stepReads, mem_windowReads]
    constructor
    · rintro hall ⟨stop, hstop, hne⟩
      exact hall _ ⟨stop, hstop, hne, rfl⟩
    · rintro hP u ⟨stop, hstop, hne, rfl⟩
      exact hP ⟨stop, hstop, hne⟩
  · simp [h]

/-! ## One combination -/

def GridOptions.walk (g : GridOptions) : WalkOptions := { window := g.window, step := g.step, horizon := g.horizon }

/-- `dataclasses.replace` accepts the combination. -/
def Accepted (w : Dict ℚ) : Bool :=
  decide (∀ c ∈ (replaceWeights w).checks, c.1 = true)

theorem evalWeights_of_rejected (h : Accepted w = false) :
    ∃ e, evalWeights num detect df g w p = (.error e, p) := by
  have hconstruct : ∃ e, (replaceWeights w).construct = .error e := ⟨_, dif_neg (of_decide_eq_false h)⟩
  obtain ⟨e, he⟩ := hconstruct
  exact ⟨e, by simp only [evalWeights, he]⟩

/-- **One combination**: its scope is gone once it is evaluated, and it has changed nothing on the way. -/
theorem evalWeights_of_accepted (h : Accepted w = true) : evalWeights num detect df g w p =
    ((walkResult num detect df g.symbol g.interval g.walk).map (outcomeOf w),
      p.reading (walkReads detect df g.symbol g.interval g.walk)) := by
  have hconstruct : (replaceWeights w).construct = .ok ⟨replaceWeights w, of_decide_eq_true h⟩ :=
    dif_pos (of_decide_eq_true h)
  simp only [evalWeights, hconstruct, walkForward_eq]
  rfl

end CryptoAggHarmonic.WalkForward
