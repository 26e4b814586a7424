import CryptoAggHarmonic.Domain.Validation

/-!
# Indicators and the confluence score

`app/services/signal_engine.py`, first half: ATR, RSI, the higher-timeframe trend and the confluence factors.
-/

namespace CryptoAggHarmonic.Engine

open Config Domain

/-! ## Indicators -/

def trueRanges : List Candle → List ℚ
  | [] => []
  | bar :: bars => (bar.high - bar.low) :: List.zipWith
      (fun cur prev => max (max (cur.high - cur.low) |cur.high - prev.close|) |cur.low - prev.close|)
      bars (bar :: bars)

/-- The least of the short-window and the long-window mean of the true range. -/
def computeAtr (t : TuningConstants) (df : Frame) : Except PyError ℚ := do
  let window := t.atrWindow.toNat
  require (df.len ≥ 2) "df must have at least 2 bars"
  require (window ≥ 1) "window must be >= 1"
  let tr := trueRanges df.rows
  -- With fewer bars than the window the rolling mean is NaN.
  if df.len < window then
    return (maxOf (tailN window df.highs) - minOf (tailN window df.lows)) / window
  return min (mean (tailN window tr)) (mean (tailN t.atrLongWindow.toNat tr))

/-- `100 - 100 / (1 + rs)`, where a zero loss is replaced by NA. -/
def rsiOf (gain loss : ℚ) : Option ℚ := if loss = 0 then none else some (100 - 100 / (1 + gain / loss))

def avgGain (window : ℕ) (closes : List ℚ) : List ℚ := ewm (1 / window) ((diffs closes).map (max 0))

def avgLoss (window : ℕ) (closes : List ℚ) : List ℚ := ewm (1 / window) ((diffs closes).map fun d => -min d 0)

def computeRsi (t : TuningConstants) (closes : List ℚ) : ℚ :=
  let window := t.rsiWindow.toNat
  match (avgGain window closes).getLast?, (avgLoss window closes).getLast? with
  | some gain, some loss => (rsiOf gain loss).getD (if gain > 0 then 100 else 50)
  | _, _ => 50

/-- The RSI of every bar; the first has none. -/
def rsiSeries (t : TuningConstants) (closes : List ℚ) : List (Option ℚ) :=
  let window := t.rsiWindow.toNat
  none :: List.zipWith rsiOf (avgGain window closes) (avgLoss window closes)

def macdLineSeries (closes : List ℚ) : List ℚ := List.zipWith (· - ·) (ewmSpan 12 closes) (ewmSpan 26 closes)

def macdSignalSeries (closes : List ℚ) : List ℚ := ewmSpan 9 (macdLineSeries closes)

def macdHistogramSeries (closes : List ℚ) : List ℚ :=
  List.zipWith (· - ·) (macdLineSeries closes) (macdSignalSeries closes)

/-- EMA21 against EMA55 on the resampled higher timeframe. -/
def htfTrend (num : Numeric) (t : TuningConstants) (df : Frame) (interval : String) : Except PyError Trend := do
  require (interval.length > 0) "interval must be a non-empty string"
  match t.htfRule.get? interval with
  | none => return .unknown
  | some rule =>
      let closes := num.resampleLast (df.rows.map fun r => (r.dts, r.close)) rule
      let emaFast := (ewmSpan 21 closes).getLastD 0
      let emaSlow := (ewmSpan 55 closes).getLastD 0
      return if ¬ df.hasDts then .unknown
        else if closes.length < 55 then .unknown
        else if emaFast > emaSlow then .bullish
        else if emaFast < emaSlow then .bearish
        else .unknown

/-! ## Confluence -/

structure Divergence where
  name : Option String
  bullish : Option Bool
  deriving DecidableEq, Repr

abbrev Divergences := Dict (List Divergence)

def isReversalCandle (row : Candle) (bullish : Bool) : Bool :=
  let rng := row.high - row.low
  if rng ≤ 0 then false
  else if bullish then
    row.close > row.openPrice && min row.openPrice row.close - row.low ≥ 1 / 2 * rng
  else
    row.close < row.openPrice && row.high - max row.openPrice row.close ≥ 1 / 2 * rng

def rsiRising (series : List (Option ℚ)) : Bool :=
  let recent := if series.length ≥ 2 then tailN 5 series else []
  match recent with
  | some first :: _ :: _ => (recent.getLastD none).any (· > first)
  | _ => false

def rsiZoneScore (rsi : ℚ) (bullish : Bool) (series : List (Option ℚ)) : ℤ :=
  let rising := rsiRising series
  if bullish then
    let zone : ℤ := if rsi ≤ 30 then 7 else if rsi ≤ 40 then 5 else if rsi ≤ 50 then 2 else 0
    zone + (if zone > 0 ∧ rising then 3 else 0) - (if rsi ≥ 60 then 3 else 0)
  else
    let zone : ℤ := if rsi ≥ 70 then 7 else if rsi ≥ 60 then 5 else if rsi ≥ 50 then 2 else 0
    zone + (if zone > 0 ∧ ¬ rising then 3 else 0) - (if rsi ≤ 40 then 3 else 0)

/-- The divergences of a family in the direction of the candidate, by name. -/
def hasDivergence (divs : List Divergence) (name : String) (bullish : Bool) : Bool :=
  divs.any fun d => d.name == some name && d.bullish == some bullish

/-- A regular divergence adds `regular`, otherwise a hidden one costs 5. -/
def divergenceScore (divs : List Divergence) (bullish : Bool) (regular : ℤ) : ℤ :=
  if hasDivergence divs "Regular" bullish then regular
  else if hasDivergence divs "Hidden" bullish then -5
  else 0

def capped (cap x : ℚ) : ℚ := max (-cap) (min cap x)

structure Momentum where
  rsiSeries : List (Option ℚ)
  macdLine : ℚ
  macdHistogram : ℚ
  macdHistogramPrev : ℚ

def confluenceFactors (t : TuningConstants) (df : Frame) (c : Candidate) (atr rsi : ℚ) (trend : Trend)
    (divergences : Divergences) (paScale : ℚ) (m : Momentum) : List (String × ℚ) :=
  let cw (key : String) (dflt : ℚ) : ℚ := (t.confluenceWeights.get? key).getD dflt
  let last := df.last
  let volMa := mean (tailN t.volumeMaWindow.toNat df.volumes)
  let pa : ℚ := if isReversalCandle last c.bullish then
      15 + (if volMa > 0 ∧ last.volume ≥ 3 / 2 * volMa then 10 else 0)
    else 0
  let htfWeight := cw "htf_trend" 25
  let htf := if trend = (if c.bullish then .bullish else .bearish) then htfWeight
    else if trend = .unknown then htfWeight * (4 / 10)
    else 0
  let rsiDivs := (divergences.get? "rsi").getD []
  let rsiScore := divergenceScore rsiDivs c.bullish 8 + rsiZoneScore rsi c.bullish m.rsiSeries
  let rsiCap := cw "rsi" 15
  let lookback := t.swingLookback.toNat
  let swing := if c.bullish then minOf (tailN lookback df.lows) else maxOf (tailN lookback df.highs)
  let structure' := if |c.przMid - swing| ≤ t.atrPrzSweep * atr then cw "structure" 15 else 0
  let macdDivs := (divergences.get? "macd").getD []
  let macdCap := cw "macd" 10
  let macdZero : ℚ := if c.bullish then (if m.macdLine < 0 then 8 else -4)
    else (if m.macdLine > 0 then 8 else -4)
  let hasRsi := hasDivergence rsiDivs "Regular" c.bullish
  let hasMacd := hasDivergence macdDivs "Regular" c.bullish
  let dual : ℚ := if hasRsi && hasMacd then 8 else if hasRsi || hasMacd then 3 else 0
  let histogram : ℚ := if c.bullish then
      (if m.macdHistogram > 0 ∧ m.macdHistogram > m.macdHistogramPrev then 5 else 0)
    else (if m.macdHistogram < 0 ∧ m.macdHistogram < m.macdHistogramPrev then 5 else 0)
  [("price_action", pa / 25 * cw "price_action" 25 * paScale),
    ("htf_trend", htf),
    ("rsi", capped rsiCap (rsiScore / 15 * rsiCap)),
    ("structure", structure'),
    ("macd", capped macdCap (divergenceScore macdDivs c.bullish 10 / 10 * macdCap)),
    ("macd_zero", macdZero),
    ("dual_confirm", dual),
    ("histogram", histogram),
    ("funding", cw "funding" 10 * (1 / 2))]

def confluenceScore (t : TuningConstants) (df : Frame) (c : Candidate) (atr rsi : ℚ) (trend : Trend)
    (divergences : Divergences) (paScale : ℚ) (m : Momentum) : Except PyError (ℚ × List (String × ℚ)) := do
  require (atr ≥ 0) "atr must be non-negative"
  require (0 ≤ rsi ∧ rsi ≤ 100) "rsi must be in [0, 100]"
  require (0 ≤ paScale ∧ paScale ≤ 2) "pa_scale must be in [0, 2]"
  require (c.przLow > 0 ∧ c.przHigh > 0) "candidate PRZ bounds must be positive"
  let factors := confluenceFactors t df c atr rsi trend divergences paScale m
  return ((factors.map Prod.snd).sum, factors)

/-- The bump of the first family that is a prefix of the name. -/
def patternBaseScore (t : TuningConstants) (patternName : String) : ℤ :=
  if patternName = "" then 0
  else
    let name := patternName.toLower
    ((t.patternBaseScore.entries.find? fun e => name.startsWith e.1).map Prod.snd).getD 0

end CryptoAggHarmonic.Engine

/-!
# Candidates of a detection

`extract_candidates` of `app/services/signal_engine.py`: what the pattern search has found, as serializable
candidates. A pattern is an object of the search library, so any attribute the code reads may be missing or may
refuse the conversion; such an attribute is `none`.
-/

namespace CryptoAggHarmonic.Engine

open Domain

/-- An entry of `pattern.x`, a label of the index of the source frame. -/
inductive IndexLabel
  | int (position : ℤ)
  | timestamp (seconds : ℤ)
  | other
  deriving DecidableEq, Repr

structure RawPattern where
  y : Option (List ℚ)
  x : List IndexLabel
  completionMinPrice : Option ℚ
  completionMaxPrice : Option ℚ
  name : Option String
  bullish : Option Bool
  deriving DecidableEq, Repr

/-- `raw_assessment`: patterns by family, formed and forming. -/
structure Assessment where
  patterns : List (String × List RawPattern)
  forming : List (String × List RawPattern)
  deriving DecidableEq, Repr

structure Detection where
  /-- `detection["patterns"]` is there and not empty. -/
  hasPatterns : Bool
  rawAssessment : Option Assessment
  divergences : Option Divergences
  deriving DecidableEq

/-- `int(t)`, which a timestamp refuses. -/
def IndexLabel.toInt : IndexLabel → Option ℤ
  | .int n => some n
  | _ => none

/-- Epoch seconds of one label: the candle at an integer position, the time of a timestamp. -/
def labelTime (closeTimes : List ℤ) : IndexLabel → Option ℤ
  | .int n => if 0 ≤ n then closeTimes[n.toNat]? else none
  | .timestamp seconds => some seconds
  | .other => none

def extractTimes (p : RawPattern) (closeTimes : Option (List ℤ)) : List ℤ × List ℤ :=
  let indices := p.x.filterMap IndexLabel.toInt
  match closeTimes with
  | none => (if p.x.all (·.toInt.isSome) then indices else [], indices)
  | some times => (p.x.filterMap (labelTime times), indices)

def toCandidate (p : RawPattern) (family : String) (formed : Bool) (closeTimes : Option (List ℤ)) :
    Option Candidate :=
  match p.y, p.completionMinPrice, p.completionMaxPrice, p.name, p.bullish with
  | some points, some cMin, some cMax, some name, some bullish =>
      if h : points.length < 3 ∨ cMin ≤ 0 ∨ cMax ≤ 0 then none
      else
        let (times, indices) := extractTimes p closeTimes
        some {
          family := family
          name := name
          bullish := bullish
          formed := formed
          points := points
          completionMin := cMin
          completionMax := cMax
          times := times
          indices := indices
          points_length := by rw [not_or] at h; exact not_lt.mp h.1 }
  | _, _, _, _, _ => none

def extractGroup (formed : Bool) (closeTimes : Option (List ℤ)) (group : List (String × List RawPattern)) :
    List Candidate :=
  group.flatMap fun (family, patterns) => patterns.filterMap fun p => toCandidate p family formed closeTimes

def extractCandidates (detection : Detection) (closeTimes : Option (List ℤ)) : List Candidate :=
  match detection.rawAssessment with
  | none => []
  | some a => extractGroup true closeTimes a.patterns ++ extractGroup false closeTimes a.forming

theorem toCandidate_prz_pos {p : RawPattern} {family : String} {formed : Bool} {closeTimes : Option (List ℤ)}
    {c : Candidate} (h : toCandidate p family formed closeTimes = some c) :
    0 < c.completionMin ∧ 0 < c.completionMax := by
  unfold toCandidate at h
  split at h
  · split_ifs at h with hbad
    cases h
    simp only [not_or, not_lt, not_le] at hbad
    exact hbad.2
  · cases h

theorem extractCandidates_prz_pos {detection : Detection} {closeTimes : Option (List ℤ)} :
    ∀ c ∈ extractCandidates detection closeTimes, 0 < c.przLow ∧ 0 < c.przHigh := by
  intro c hc
  have hgroup : ∀ formed group, c ∈ extractGroup formed closeTimes group →
      0 < c.completionMin ∧ 0 < c.completionMax := by
    intro formed group hmem
    obtain ⟨⟨family, patterns⟩, -, hmem⟩ := List.mem_flatMap.mp hmem
    obtain ⟨p, -, hp⟩ := List.mem_filterMap.mp hmem
    exact toCandidate_prz_pos hp
  have hpos : 0 < c.completionMin ∧ 0 < c.completionMax := by
    unfold extractCandidates at hc
    split at hc
    · cases hc
    · rcases List.mem_append.mp hc with h | h
      · exact hgroup _ _ h
      · exact hgroup _ _ h
  exact ⟨lt_min hpos.1 hpos.2, hpos.1.trans_le (le_max_left _ _)⟩

end CryptoAggHarmonic.Engine
