import CryptoAggHarmonic.Forming.Pipeline

/-!
# Wiring of the forming pipeline

Whether what the search finds reaches the signal engine.
-/

namespace CryptoAggHarmonic.Forming

open Domain Engine

/-- The settings of the engine, and the frame. -/
structure EngineInput where
  num : Numeric
  tuning : Config.TuningConstants
  fn : RejectionFn
  df : Frame
  interval : String

/-- What a forming analysis promises about a detection of what the search has found. -/
structure Wired (input : EngineInput) (search : Search) (limitTo : ℕ) (detection : Detection) : Prop where
  nonempty : extractCandidates detection none ≠ []
  complete : ∀ formed family pattern candidate, search.Found formed family pattern →
    toCandidate pattern.toRawPattern family.text formed none = some candidate →
      candidate ∈ extractCandidates detection none
  evaluated : (formingStep limitTo detection).raised = none ∧
    (formingStep limitTo detection).scored.Perm (formingStep limitTo detection).formingView
  signal : buildSignal input.num input.tuning input.fn input.df input.interval (extractCandidates detection none) none
    none "standard" none = .ok (formingStep limitTo detection).signal

/-- What the search has found, under the key that `extract_candidates` looks for. -/
def Search.assessment (search : Search) : Assessment where
  patterns := families.map fun family => (family.text, (search.formed family).map SearchPattern.toRawPattern)
  forming := families.map fun family => (family.text, (search.forming family).map SearchPattern.toRawPattern)

/-- The dict with the raw assessment kept. -/
def DetectionResult.withAssessment (result : DetectionResult) (search : Search) : Detection :=
  { result.detection with rawAssessment := some search.assessment }

section

variable {limitTo : ℕ} {search : Search} {detection : Detection}

theorem extractCandidates_detection (result : DetectionResult) : extractCandidates result.detection none = [] := rfl

theorem mem_extractGroup {formed : Bool} {found : Family → List SearchPattern} {family : Family}
    {pattern : SearchPattern} {candidate : Candidate} (hfound : pattern ∈ found family)
    (h : toCandidate pattern.toRawPattern family.text formed none = some candidate) :
    candidate ∈ extractGroup formed none
      (families.map fun family => (family.text, (found family).map SearchPattern.toRawPattern)) := by
  refine List.mem_flatMap.mpr ⟨_, List.mem_map_of_mem (?_ : family ∈ families), ?_⟩
  · cases family <;> simp [families]
  · exact List.mem_filterMap.mpr ⟨_, List.mem_map_of_mem hfound, h⟩

/-- With the assessment kept, everything with pivots and bounds is extracted. -/
theorem complete_withAssessment (result : DetectionResult) {formed : Bool} {family : Family} {pattern : SearchPattern}
    {candidate : Candidate} (hfound : search.Found formed family pattern)
    (h : toCandidate pattern.toRawPattern family.text formed none = some candidate) :
    candidate ∈ extractCandidates (result.withAssessment search) none := by
  cases formed with
  | true => exact List.mem_append_left _ (mem_extractGroup hfound h)
  | false => exact List.mem_append_right _ (mem_extractGroup hfound h)

/-- The first candidate ends the step. -/
theorem raised_of_candidates (hlimit : 0 < limitTo) (h : extractCandidates detection none ≠ []) :
    (formingStep limitTo detection).raised =
        some "evaluate() missing 2 required positional arguments: 'candidate' and 'current_price'" ∧
      (formingStep limitTo detection).signal = none := by
  obtain ⟨c, cs, hcs⟩ := List.exists_cons_of_ne_nil h
  obtain ⟨n, rfl⟩ : ∃ n, limitTo = n + 1 := ⟨limitTo - 1, by omega⟩
  unfold formingStep
  rw [hcs, List.take_succ_cons]
  exact ⟨rfl, rfl⟩

end

/-- **No forming analysis is wired**, whatever the search has found: the detection keeps no assessment, so nothing is
extracted. Nor would it be with the assessment kept: the evaluation of the first candidate raises. -/
theorem forming_not_wired (input : EngineInput) (levels : PositionLevels) (candleData : CandleData) (limitTo : ℕ)
    (search : Search) :
    ¬ Wired input search limitTo (detectPatterns levels candleData limitTo search).detection ∧
    (0 < limitTo →
      ¬ Wired input search limitTo ((detectPatterns levels candleData limitTo search).withAssessment search)) := by
  refine ⟨fun h => h.nonempty (extractCandidates_detection _), fun hlimit h => ?_⟩
  have hraised := (raised_of_candidates hlimit h.nonempty).1
  rw [h.evaluated.1] at hraised
  cases hraised

/-- A forming Gartley. -/
def gartley : SearchPattern where
  y := some [100, 130, 112, 124, 106]
  x := [.int 0, .int 10, .int 20, .int 30, .int 40]
  completionMinPrice := some 105
  completionMaxPrice := some 107
  name := some "gartley"
  bullish := some true

def oneForming : Search where
  formed := fun _ => []
  forming := fun family => match family with
    | .xabcd => [gartley]
    | _ => []
  divergences := []

/-- The pattern is reported as forming, it has what a candidate needs, and the analysis has no candidate. -/
theorem forming_pattern_lost :
    (reported oneForming).map (fun found => (found.1, found.2.1)) = some (true, .xabcd) ∧
      (toCandidate gartley.toRawPattern "XABCD" false none).isSome = true ∧
      extractCandidates (detectPatterns (fun _ _ => none) ⟨"BTCUSDT", "4h"⟩ 10 oneForming).detection none = [] ∧
      ∀ input, ¬ Wired input oneForming 10
        (detectPatterns (fun _ _ => none) ⟨"BTCUSDT", "4h"⟩ 10 oneForming).detection :=
  ⟨rfl, by decide, rfl, fun _ h => h.nonempty rfl⟩

end CryptoAggHarmonic.Forming
