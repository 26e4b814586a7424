import CryptoAggHarmonic.Bench.Stages

/-!
# The scores of a record

`bench/pipeline/stage1_validity.py`, `stage4a_callback.py` and `stage4b_technical.py`, and what may happen to a record on
its way through the stages.
-/

namespace CryptoAggHarmonic.Bench

open Domain Rounding

/-- The attributes that the signal engine sets and the scores read. -/
structure Attributes where
  entryPrice : ℚ
  stopPrice : ℚ
  tp1 : ℚ
  przWidthAtr : ℚ
  entryOffsetAtr : ℚ := 0
  grade : Grade
  confluenceScore : ℚ := 0
  stabilityVerdict : String := ""
  deriving DecidableEq, Repr

/-! ## Validity -/

def geometricSubscore (a : Attributes) : ℚ :=
  let w := a.przWidthAtr
  if w ≤ 0 then 4 else if w ≥ 1 then 0 else roundTo 4 (4 * (1 - w))

def przSubscore (a : Attributes) : ℚ :=
  let w := a.przWidthAtr
  if w < 0.5 then 2 else if w < 1 then 1 else 0

def stopSubscore (a : Attributes) (rec : SignalRecord) : ℚ :=
  if rec.atrAtEntry ≤ 0 then 0
  else
    let sdAtr := |a.entryPrice - a.stopPrice| / rec.atrAtEntry
    if 0.5 ≤ sdAtr ∧ sdAtr ≤ 3 then 2
    else if sdAtr < 0.5 then roundTo 4 (2 * (sdAtr / 0.5))
    else roundTo 4 (max 0 (2 * (1 - (sdAtr - 3) / 3)))

def dataSubscore (a : Attributes) (rec : SignalRecord) : ℚ :=
  if a.entryPrice ≤ 0 ∨ a.stopPrice ≤ 0 ∨ a.tp1 ≤ 0 then 0
  else
    match rec.direction with
    | .long => if a.stopPrice < a.entryPrice ∧ a.entryPrice < a.tp1 then 2 else 0
    | .short => if a.stopPrice > a.entryPrice ∧ a.entryPrice > a.tp1 then 2 else 0

def entryZoneSubscore (a : Attributes) : ℚ :=
  let off := a.entryOffsetAtr
  if off > 1.5 then 0 else if off ≤ 0.5 then 2 else roundTo 4 (2 - (off - 0.5))

/-- `stage1_score(rec)`, the record after it. -/
def stage1Score (a : Attributes) (rec : SignalRecord) : SignalRecord :=
  let total := geometricSubscore a + przSubscore a + stopSubscore a rec + dataSubscore a rec + entryZoneSubscore a
  { rec with stage1Score := some (roundTo 4 total), weakValidity := total < 4 }

/-! ## The quality of the callback -/

def maeMfeSubscore : Option ℚ → Option ℚ → ℚ
  | some mae, some mfe =>
      let ratio := if mfe ≤ 0 then 1 else mae / mfe
      if ratio < 0.2 then 6 else if ratio < 0.4 then 4 else if ratio < 0.6 then 2 else 0
  | _, _ => 0

def depthSubscore : Option ℚ → ℚ
  | none => 0
  | some depth => if depth < 0.3 then 5 else if depth < 0.6 then 3 else if depth < 1 then 1 else 0

def timeSubscore : Option ℕ → Option ℕ → ℚ
  | some callbackBars, some barsHeld =>
      if barsHeld = 0 then 0
      else
        let ratio : ℚ := callbackBars / barsHeld
        if ratio < 0.2 then 3 else if ratio < 0.4 then 2 else if ratio < 0.6 then 1 else 0
  | _, _ => 0

def volumeSubscore : Option ℚ → ℚ
  | none => 0
  | some volumeRatio => if volumeRatio < 0.8 then 3 else if volumeRatio ≤ 1.2 then 2 else 0

def stopBufferSubscore : Option ℚ → ℚ
  | none => 0
  | some buffer => if buffer < 0.3 then 3 else if buffer < 0.6 then 2 else if buffer < 0.9 then 1 else 0

def bufferConsumption (a : Attributes) (rec : SignalRecord) : Option ℚ :=
  match rec.mae with
  | none => none
  | some mae =>
      if rec.atrAtEntry ≤ 0 then none
      else
        let risk := |a.entryPrice - a.stopPrice|
        if risk ≤ 0 then none else some (mae / risk)

/-- `stage4a_score(rec)`, the record after it. -/
def stage4aScore (a : Attributes) (rec : SignalRecord) : SignalRecord :=
  let total := maeMfeSubscore rec.mae rec.mfe + depthSubscore rec.callbackDepth +
    timeSubscore rec.callbackBars rec.barsHeld + volumeSubscore rec.callbackVolumeRatio +
    stopBufferSubscore (bufferConsumption a rec)
  { rec with stage4aScore := some (roundTo 4 total) }

/-! ## The signal engine -/

/-- `_GRADE_SCORE` has no entry for the reference grade, which the walk-forward hands on as it is. -/
def gradeSubscore : Grade → Except Raised ℚ
  | .a => .ok 4
  | .b => .ok 2
  | .c => .ok 0
  | .cRef => .error (.error (.keyError "C(参考)"))

def confluenceSubscore (confluence : ℚ) : ℚ :=
  if confluence ≥ 3 then 3 else if confluence ≥ 2 then 2 else if confluence ≥ 1 then 1 else 0

def stabilitySubscore (verdict : String) : ℚ :=
  let v := verdict.toLower
  if v = "stable" then 3 else if v = "mixed" then 1 else 0

/-- `stage4b_score(rec)`, the record after it. -/
def stage4bScore (a : Attributes) (rec : SignalRecord) : Except Raised SignalRecord := do
  let grade ← gradeSubscore a.grade
  let total := grade + confluenceSubscore a.confluenceScore + stabilitySubscore a.stabilityVerdict
  return { rec with stage4bScore := some (roundTo 4 total) }

/-! ## The way of a record -/

/-- One stage. -/
inductive Scores : SignalRecord → SignalRecord → Prop
  | stage1 (a rec) : Scores rec (stage1Score a rec)
  | stage2 {rec df tp1 rec' trade} : stage2Backtest rec df tp1 = .ok (rec', trade) → Scores rec rec'
  | stage3 (rec) : Scores rec (stage3Score rec)
  | stage4a (a rec) : Scores rec (stage4aScore a rec)
  | stage4b {a rec rec'} : stage4bScore a rec = .ok rec' → Scores rec rec'
  /-- `rec.stage4a_score = 0.0` of the runner. -/
  | noCallback (rec) : Scores rec { rec with stage4aScore := some 0 }
  | signal (rec) : Scores rec (signalScore rec)

/-- A record after any stages in any order, from one without scores. -/
def Produced (rec : SignalRecord) : Prop :=
  ∃ fresh : SignalRecord, fresh.stage1Score = none ∧ fresh.stage3Score = none ∧ fresh.stage4aScore = none ∧
    fresh.stage4bScore = none ∧ fresh.signalScore = none ∧ Relation.ReflTransGen Scores fresh rec

/-- The ranges of the scores. The third is below zero only by its penalty. -/
structure InRange (rec : SignalRecord) : Prop where
  stage1 : ∀ s ∈ rec.stage1Score, s ∈ Set.Icc (0 : ℚ) MAX_STAGE1
  stage3 : ∀ s ∈ rec.stage3Score, s ∈ Set.Icc (-5 : ℚ) MAX_STAGE3
  stage4a : ∀ s ∈ rec.stage4aScore, s ∈ Set.Icc (0 : ℚ) MAX_STAGE4A
  stage4b : ∀ s ∈ rec.stage4bScore, s ∈ Set.Icc (0 : ℚ) MAX_STAGE4B
  signal : ∀ s ∈ rec.signalScore, s ∈ Set.Icc (-5 : ℚ) 100

/-- The ranges of the scores of a configuration. They are below zero only by a signal score or the R multiple of a winner
that is. -/
structure ConfigInRange (records : List SignalRecord) (config : ℚ) : Prop where
  le : config ≤ 100
  ge : (∀ rec ∈ records, rec.wins = true → ∀ r ∈ rec.netRr, 0 ≤ r) → -2 ≤ config
  nonneg : (∀ rec ∈ records, rec.wins = true → ∀ r ∈ rec.netRr, 0 ≤ r) →
    (∀ rec ∈ records, ∀ s ∈ rec.signalScore, 0 ≤ s) → 0 ≤ config

end CryptoAggHarmonic.Bench
