import CryptoAggHarmonic.Engine.Confluence
import CryptoAggHarmonic.Engine.SignalEngine

/-!
# Detection adapter

`detect_patterns` of `app/infra/pyharmonics_adapter.py`. What the pattern search finds in a frame and what
`pyharmonics.positions.Position` makes of a pattern are part of the input.
-/

namespace CryptoAggHarmonic.Forming

open Engine (RawPattern Assessment Detection)

/-- A pattern with the further attributes that the adapter reads, `none` where it has no such attribute. -/
structure SearchPattern extends RawPattern where
  reversal : Option Bool := none
  direction : Option String := none
  htfTrend : Option String := none

inductive Family
  | xabcd
  | abcd
  | abc
  deriving DecidableEq

def Family.text : Family → String
  | .xabcd => "XABCD"
  | .abcd => "ABCD"
  | .abc => "ABC"

structure DivergencePattern where
  divType : Option String
  symbol : Option String
  interval : Option String

/-- What `HarmonicSearch` and `DivergenceSearch` have found in the frame. -/
structure Search where
  formed : Family → List SearchPattern
  forming : Family → List SearchPattern
  divergences : List (String × List DivergencePattern)

structure CandleData where
  symbol : String
  interval : String

/-! ## The position -/

/-- `Position(pattern, strike, 100)`: its stop and its targets, `none` where it raises. -/
abbrev PositionLevels := SearchPattern → ℚ → Option (Option ℚ × List ℚ)

def computeStrike (pattern : SearchPattern) (family : Family) : ℚ :=
  match pattern.completionMinPrice, pattern.completionMaxPrice with
  | some cMin, some cMax =>
      match family with
      | .abc => if cMax > 0 then cMax else 0
      | _ => if cMin > 0 ∧ cMax > 0 then (cMin + cMax) / 2 else 0
  | _, _ => 0

structure PatternPosition where
  symbol : String
  interval : String
  forming : Bool
  family : Family
  strike : ℚ
  stop : Option ℚ
  targets : List ℚ
  reversal : Option Bool
  direction : String
  htfTrend : Option String

def patternPosition (levels : PositionLevels) (pattern : SearchPattern) (candleData : CandleData) (forming : Bool)
    (family : Family) : PatternPosition :=
  let strike := computeStrike pattern family
  let pos := levels pattern strike
  { symbol := candleData.symbol
    interval := candleData.interval
    forming := forming
    family := family
    strike := strike
    -- a stop that is not positive counts as none
    stop := pos.bind fun pos => pos.1.filter (· > 0)
    targets := (pos.map Prod.snd).getD []
    reversal := pattern.reversal
    direction := (pattern.direction.filter (· ≠ "")).getD
      (if pattern.bullish = some true then "bullish" else "bearish")
    htfTrend := pattern.htfTrend }

/-! ## The detection -/

structure PatternsDict where
  symbol : String
  family : Family
  direction : String
  entry : ℚ
  stop : Option ℚ
  targets : List ℚ
  reversal : Option Bool
  forming : Bool

structure DivergenceItem where
  type : String
  symbol : String
  interval : String

/-- The dict that `detect_patterns` returns, with the keys it writes. -/
structure DetectionResult where
  patterns : Option PatternsDict := none
  position : Option PatternPosition := none
  htfTrend : Option String := none
  divergenceItems : List DivergenceItem := []

def families : List Family := [.xabcd, .abcd, .abc]

/-- The first pattern of the first family that has one. -/
def firstPattern (found : Family → List SearchPattern) : Option (Family × SearchPattern) :=
  families.findSome? fun family => (found family).head?.map fun pattern => (family, pattern)

/-- The pattern that is reported, and whether it is forming. -/
def reported (search : Search) : Option (Bool × Family × SearchPattern) :=
  match firstPattern search.formed with
  | some found => some (false, found)
  | none => (firstPattern search.forming).map fun found => (true, found)

def divergenceItems (candleData : CandleData) (limitTo : ℕ) (found : List (String × List DivergencePattern)) :
    List DivergenceItem :=
  found.flatMap fun (family, patterns) => (patterns.take limitTo).map fun pa =>
    { type := pa.divType.getD family
      symbol := pa.symbol.getD candleData.symbol
      interval := pa.interval.getD candleData.interval }

def detectPatterns (levels : PositionLevels) (candleData : CandleData) (limitTo : ℕ) (search : Search) :
    DetectionResult :=
  let items := divergenceItems candleData limitTo search.divergences
  match reported search with
  | none => { divergenceItems := items }
  | some (forming, family, pattern) =>
      let position := patternPosition levels pattern candleData forming family
      { patterns := some
          { symbol := candleData.symbol
            family := family
            direction := position.direction
            entry := position.strike
            stop := position.stop
            targets := position.targets
            reversal := position.reversal
            forming := forming }
        position := some position
        htfTrend := position.htfTrend
        divergenceItems := items }

/-- What `extract_candidates` reads of the dict: none of the keys is `raw_assessment`. -/
def DetectionResult.detection (result : DetectionResult) : Detection where
  hasPatterns := result.patterns.isSome
  rawAssessment := none
  divergences := none

/-- A pattern that the search has found. -/
def Search.Found (search : Search) (formed : Bool) (family : Family) (pattern : SearchPattern) : Prop :=
  pattern ∈ if formed then search.formed family else search.forming family

/-!
## The forming step of an analysis

Step 4 of `AnalysisOrchestrator.analyze` in `app/services/analysis.py`, whose `except` goes on without a signal.
-/

open Domain Engine

structure FormingStep where
  formingView : List Candidate := []
  /-- The candidates that discipline and macro bias have been evaluated for. -/
  scored : List Candidate := []
  signal : Option Signal := none
  /-- What the `except` has caught. -/
  raised : Option String := none

/-- `evaluate(c)`, which lacks two of its arguments. -/
def disciplineEvaluate (_ : Candidate) : Except String Unit :=
  .error "evaluate() missing 2 required positional arguments: 'candidate' and 'current_price'"

/-- No close times are given to `extract_candidates`. -/
def formingStep (limitTo : ℕ) (detection : Detection) : FormingStep :=
  let formingView := (extractCandidates detection none).take limitTo
  match formingView with
  | [] => {}
  | c :: _ =>
      match disciplineEvaluate c with
      | .error message => { formingView := formingView, raised := some message }
      -- no candidate gets here
      | .ok () => { formingView := formingView }

end CryptoAggHarmonic.Forming
