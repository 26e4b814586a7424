import CryptoAggHarmonic.Domain.Frame
import CryptoAggHarmonic.Domain.Signals

/-!
# Signal validity verification

`app/domain/validation.py`. The defaults of `lookback` and `window` are those the source freezes at import time
from `TUNING`; what it reads at call time through `get_tuning()` is the argument `t`.
-/

namespace CryptoAggHarmonic.Domain

open Config Rounding

def FALSE_BREAK_VETO : ℚ := 25 / 100

def FALSE_BREAK_PENALTY : ℚ := 15 / 100

def FALSE_BREAK_WARN : ℚ := 8 / 100

def STOP_HUNT_PENALTY : ℚ := 10 / 100

def VOL_CLIMAX_PENALTY : ℚ := 12 / 100

/-! ## Candidate validity filter -/

inductive RejectReason
  | staleDistance
  | staleAge
  | degeneratePrz
  | violated
  | completed
  deriving DecidableEq, Repr

def Candidate.przMid (c : Candidate) : ℚ := (c.przLow + c.przHigh) / 2

/-- The gates of `rejection_reason` that come before its call of `compute_stop`. -/
def stale (t : TuningConstants) (c : Candidate) (price atr : ℚ) (closeTimes : Option (List ℤ)) :
    Option RejectReason :=
  let age (dTime : ℤ) (times : List ℤ) : ℤ := (times.filter fun ct => dTime < ct).length
  let width := c.przHigh - c.przLow
  if atr > 0 ∧ |price - c.przMid| > t.maxPrzDistanceAtr * atr then some .staleDistance
  else if ∃ times ∈ closeTimes, ∃ dTime ∈ c.times.getLast?, age dTime times > t.maxDAgeBars then some .staleAge
  else if ¬ c.formed ∧ (width ≤ 0 ∨ atr > 0 ∧ width > t.maxFormingPrzWidthAtr * atr) then some .degeneratePrz
  else none

def tradePlayedOut (t : TuningConstants) (c : Candidate) (price : ℚ) : Bool :=
  let tp2 := ((computeTargets t c c.przMid).map SignalTarget.price).getD 1 0
  if c.bullish then price > tp2 else price < tp2

def rejectionReason (t : TuningConstants) (c : Candidate) (price atr : ℚ) (closeTimes : Option (List ℤ)) :
    Except PyError (Option RejectReason) := do
  if let some reason := stale t c price atr closeTimes then
    return some reason
  if atr > 0 then
    let (stop, _, _) ← computeStop t c atr "standard" {}
    if c.bullish ∧ price < stop ∨ ¬ c.bullish ∧ price > stop then
      return some .violated
  if tradePlayedOut t c price then
    return some .completed
  return none

structure Rejection where
  candidate : Candidate
  reason : RejectReason
  deriving DecidableEq

/-- Split the candidates by `reject`, the function the module holds under the name `rejection_reason`. -/
def filterCandidates (reject : Candidate → Except PyError (Option RejectReason)) :
    List Candidate → Except PyError (List Candidate × List Rejection)
  | [] => .ok ([], [])
  | c :: cs => do
      let reason ← reject c
      let (valid, rejected) ← filterCandidates reject cs
      return match reason with
        | none => (c :: valid, rejected)
        | some r => (valid, ⟨c, r⟩ :: rejected)

/-- Long: `stop < entry <= TP1 < TP2 < TP3`, short mirrored. -/
def directionInvariantOk (direction : Direction) (entry stop : ℚ) : List ℚ → Bool
  | t1 :: t2 :: t3 :: _ =>
      match direction with
      | .long => stop < entry && entry ≤ t1 && t1 < t2 && t2 < t3
      | .short => stop > entry && entry ≥ t1 && t1 > t2 && t2 > t3
  | _ => false

/-! ## Quant-trap risk -/

/-- The share of bars that pierce a 5-bar extreme by over 1% and close back inside it. -/
def falseBreakRate (d : List Candle) : ℚ :=
  let highs := d.map Candle.high
  let lows := d.map Candle.low
  let closes := d.map Candle.close
  let count := countRange 5 d.length fun i =>
    let prevHigh := maxOf (slice (i - 5) i highs)
    let prevLow := minOf (slice (i - 5) i lows)
    (highs.getD i 0 > prevHigh * (101 / 100) && closes.getD i 0 < prevHigh) ||
      (lows.getD i 0 < prevLow * (99 / 100) && closes.getD i 0 > prevLow)
  count / (d.length - 5)

/-- The share of new 3-bar lows that the next bar recovers. -/
def stopHuntRate (d : List Candle) : ℚ :=
  let highs := d.map Candle.high
  let lows := d.map Candle.low
  let closes := d.map Candle.close
  let count := countRange 3 (d.length - 1) fun i =>
    lows.getD i 0 < minOf (slice (i - 3) i lows) * (995 / 1000) && closes.getD (i + 1) 0 > highs.getD i 0
  count / (d.length - 4)

/-- The share of bars with twice the volume of the bar before and a tiny body. -/
def volClimaxRate (d : List Candle) : ℚ :=
  let opens := d.map Candle.openPrice
  let closes := d.map Candle.close
  let vols := d.map Candle.volume
  let count := countRange 1 d.length fun i =>
    let body := |closes.getD i 0 - opens.getD i 0|
    let price := if closes.getD i 0 > 0 then closes.getD i 0 else opens.getD i 0
    vols.getD (i - 1) 0 > 0 && vols.getD i 0 > 2 * vols.getD (i - 1) 0 &&
      price > 0 && body / price < 15 / 1000
  count / (d.length - 1)

def przFailure (d : List Candle) (przLow przHigh : ℚ) (bullish : Bool) : Bool :=
  d.any fun bar =>
    if bullish then przLow ≤ bar.low && bar.low ≤ przHigh && bar.close < przLow
    else przLow ≤ bar.high && bar.high ≤ przHigh && bar.close > przHigh

/-- Score (10 to 90), veto and reasons. -/
def quantTrapRisk (df : Frame) (przLow przHigh : ℚ) (bullish : Bool) (lookback : ℕ) : ℤ × Bool × List String :=
  let d := tailN lookback df.rows
  if d.length < 15 then (50, false, [])
  else
    let fbRate := falseBreakRate d
    let shRate := stopHuntRate d
    let vcRate := volClimaxRate d
    let failed := przFailure d przLow przHigh bullish
    let (veto, fbPenalty, fbReasons) : Bool × ℤ × List String :=
      if fbRate > FALSE_BREAK_VETO then (true, 0, ["假突破率" ++ fmtPercent fbRate])
      else if fbRate > FALSE_BREAK_PENALTY then (false, 20, ["假突破频繁(" ++ fmtPercent fbRate ++ ")"])
      else if fbRate > FALSE_BREAK_WARN then (false, 8, ["存在假突破(" ++ fmtPercent fbRate ++ ")"])
      else (false, 0, [])
    let (shPenalty, shReasons) : ℤ × List String :=
      if shRate > STOP_HUNT_PENALTY then (15, ["止损猎杀(" ++ fmtPercent shRate ++ ")"]) else (0, [])
    let (vcPenalty, vcReasons) : ℤ × List String :=
      if vcRate > VOL_CLIMAX_PENALTY then (15, ["量能高潮(" ++ fmtPercent vcRate ++ ")"]) else (0, [])
    let failReasons := if failed then [if bullish then "PRZ支撑失败" else "PRZ阻力失败"] else []
    (min 90 (max 10 (50 - fbPenalty - shPenalty - vcPenalty)), veto || failed,
      fbReasons ++ shReasons ++ vcReasons ++ failReasons)

def trapStopMultiplierBody (trapScore : ℤ) : ℚ :=
  if trapScore < 60 then 1
  else if trapScore < 75 then 1 + (trapScore - 60) / 15 * (1 / 2)
  else if trapScore < 85 then 3 / 2 + (trapScore - 75) / 10 * (3 / 10)
  else min 2 (18 / 10 + (trapScore - 85) / 5 * (2 / 10))

def trapStopMultiplier (trapScore : ℤ) : Except PyError ℚ := do
  require (0 ≤ trapScore ∧ trapScore ≤ 100) "trap_score must be 0-100"
  let result := trapStopMultiplierBody trapScore
  require (1 ≤ result ∧ result ≤ 2) "trap multiplier must be in [1.0, 2.0]"
  return result

/-! ## Volume authenticity -/

def clampScore (score : ℚ) : ℤ := min 100 (max 0 (halfEven score))

def volumeAuthenticity (df : Frame) (window : ℕ) : ℤ :=
  let d := tailN window df.rows
  let n := d.length
  if n < 10 then 50
  else
    let closes := d.map Candle.close
    let vols := d.map Candle.volume
    let aligned := countRange 1 n fun i =>
      decide (closes.getD i 0 > closes.getD (i - 1) 0) == decide (vols.getD i 0 > vols.getD (i - 1) 0)
    let alignmentRate : ℚ := aligned / (n - 1)
    let volMean := mean vols
    let spikeRate : ℚ := if volMean > 0 then (vols.filter (· > volMean * (5 / 2))).length / n else 0
    let v := vols.map (· - volMean)
    let denom := (v.map fun x => x * x).sum
    let autocorr := if denom > 0 then (List.zipWith (· * ·) v.dropLast v.tail).sum / denom else 0
    let alignScore := alignmentRate * 100
    let spikeScore := max 0 (100 - spikeRate * 400)
    let autocorrScore := max 0 (50 + autocorr * 50)
    clampScore (alignScore * (40 / 100) + spikeScore * (40 / 100) + autocorrScore * (20 / 100))

/-! ## Multi-window stability -/

/-- Score and suspicion; a name that is missing or empty is no pattern. -/
def stabilityVerdict (full sub1 sub2 : Option String) : ℕ × Bool :=
  let found (s : Option String) : Bool := s.any (· ≠ "")
  if found full && found sub1 && found sub2 then
    if full = sub1 ∧ sub1 = sub2 then (85, false)
    else if full = sub1 ∨ full = sub2 then (55, false)
    else (25, false)
  else if found full && (found sub1 || found sub2) then (40, false)
  else if found full then (20, true)
  else (60, false)

/-! ## Quant regime -/

/-- `ndarray.std()`, the population standard deviation. -/
def popStd (num : Numeric) (xs : List ℚ) : ℚ :=
  num.sqrt (mean (xs.map fun x => (x - mean xs) * (x - mean xs)))

/-- The number of returns beyond three standard deviations. A division by a zero close makes the standard
deviation NaN, and then there are none. -/
def tailCount (num : Numeric) (closes : List ℚ) : ℕ :=
  if closes.dropLast.any (· = 0) then 0
  else
    let rets := List.zipWith (fun cur prev => (cur - prev) / prev) closes.tail closes
    let std := popStd num rets
    if std > 0 then (rets.filter fun r => |r - mean rets| > 3 * std).length else 0

def quantRegime (num : Numeric) (t : TuningConstants) (df : Frame) (window : ℕ) : ℤ × Regime :=
  let d := tailN window df.rows
  let n := d.length
  if n < 20 then (50, .normal)
  else
    let opens := d.map Candle.openPrice
    let closes := d.map Candle.close
    let vols := d.map Candle.volume
    let gaps := countRange 1 n fun i =>
      closes.getD (i - 1) 0 > 0 &&
        |opens.getD i 0 - closes.getD (i - 1) 0| / closes.getD (i - 1) 0 > 8 / 1000
    let gapFreq : ℚ := gaps / (n - 1)
    let reversals := (d.filter fun bar => bar.openPrice > 0 && bar.low > 0 &&
      (bar.high - bar.low) / bar.low > 3 / 100 && |bar.close - bar.openPrice| / bar.openPrice < 5 / 1000).length
    let reversalRate : ℚ := reversals / n
    let volMean := mean vols
    let volCv := if volMean > 0 then popStd num vols / volMean else 0
    let tailRate : ℚ := tailCount num closes / (n - 1)
    let gapScore := min 100 (gapFreq * 300)
    let reversalScore := min 100 (reversalRate * 500)
    let volScore := min 100 (volCv * 80)
    let tailScore := min 100 (tailRate * 1000)
    let score := clampScore (gapScore * (25 / 100) + reversalScore * (25 / 100) + volScore * (30 / 100) +
      tailScore * (20 / 100))
    (score, if score ≥ t.regimeHigh then .highQuant
      else if score ≥ t.regimeModerate then .moderateQuant
      else .normal)

/-! ## Statistical gates -/

inductive ExtRat
  | negInf
  | val (x : ℚ)
  | posInf
  deriving DecidableEq, Repr

def ExtRat.lt (s : ExtRat) (x : ℚ) : Bool :=
  match s with
  | .negInf => true
  | .val y => y < x
  | .posInf => false

def ExtRat.gt (s : ExtRat) (x : ℚ) : Bool :=
  match s with
  | .negInf => false
  | .val y => y > x
  | .posInf => true

/-- `closes.pct_change().dropna()`: the return on a zero close is infinite, or NaN when the price stays. -/
def pctChange (closes : List ℚ) : List ExtRat :=
  (List.zip closes.tail closes).filterMap fun (cur, prev) =>
    if prev ≠ 0 then some (.val ((cur - prev) / prev))
    else if cur > 0 then some .posInf
    else if cur < 0 then some .negInf
    else none

/-- The infinity on the side of `mean`, and 0 for a mean of 0. -/
def driftSharpe (mean : ℚ) : ExtRat :=
  if mean > 0 then .posInf else if mean < 0 then .negInf else .val 0

def perBarSharpe (num : Numeric) (closes : List ℚ) (window : ℕ) : ExtRat :=
  let rets := tailN window (pctChange closes)
  if rets.length < 3 then .val 0
  else
    -- An infinite return makes the deviation NaN; returns of both infinities make the mean NaN as well.
    match rets.contains .posInf, rets.contains .negInf with
    | true, true => .val 0
    | true, false => .posInf
    | false, true => .negInf
    | false, false =>
        let rets := rets.filterMap fun | .val x => some x | _ => none
        let m := mean rets
        let std := num.sqrt ((rets.map fun x => (x - m) * (x - m)).sum / (rets.length - 1))
        if std < 1 / 10 ^ 12 then driftSharpe m else .val (m / std)

def adverseMomentumVeto (direction : Direction) (sharpe : ExtRat) (threshold : ℚ) : Bool :=
  match direction with
  | .long => sharpe.lt (-threshold)
  | .short => sharpe.gt threshold

def volatilityMultiplier (atr close targetAtrPct : ℚ) : ℚ :=
  if close ≤ 0 then 1
  else
    let atrPct := atr / close * 100
    let mult := targetAtrPct / max atrPct (1 / 2)
    roundTo 4 (min (3 / 2) (max (1 / 2) mult))

end CryptoAggHarmonic.Domain
