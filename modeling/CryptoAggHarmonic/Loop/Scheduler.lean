import Mathlib.Algebra.Order.Field.Rat
import Mathlib.Data.List.Sort
import Mathlib.Algebra.Order.Monoid.Unbundled.WithTop
import CryptoAggHarmonic.Lib.Stall
import CryptoAggHarmonic.Lib.Table

/-!
# The plateau of the scheduler

`plateau_count_from_history` of `app/loop/scheduler.py`: what it reads of the lines of `HISTORY.jsonl`.
-/

namespace CryptoAggHarmonic.Loop

/-- A float that is no NaN. -/
abbrev Fitness := WithBot (WithTop ℚ)

/-- The entries of a record that the count reads; some writers leave them out. -/
structure HistoryRecord where
  gen : Option ℤ
  decision : Option String
  fitness : Option Fitness
  deriving DecidableEq

def HistoryRecord.accepted (r : HistoryRecord) : Bool := r.decision = some "accepted"

/-- `rec.get("fitness") or 0.0` -/
def HistoryRecord.fitnessOrZero (r : HistoryRecord) : Fitness := r.fitness.getD 0

inductive HistoryLine
  | blank
  /-- Not JSON. -/
  | corrupt
  /-- JSON, but no object. -/
  | value
  | record (r : HistoryRecord)

inductive HistoryError
  | attributeError
  | typeError
  deriving DecidableEq, Repr

/-- `best_per_gen` -/
abbrev BestPerGen := Table (Prod.fst : Option ℤ × Fitness → Option ℤ)

def noteBest (best : BestPerGen) (r : HistoryRecord) : BestPerGen :=
  if r.accepted then
    match best.get? r.gen with
    | none => best.put (r.gen, r.fitnessOrZero)
    | some (_, fit) => if r.fitnessOrZero > fit then best.put (r.gen, r.fitnessOrZero) else best
  else best

/-- The loop over the lines. -/
def readLines (best : BestPerGen) : List HistoryLine → Except HistoryError BestPerGen
  | [] => .ok best
  | .blank :: lines => readLines best lines
  | .corrupt :: lines => readLines best lines
  | .value :: _ => .error .attributeError
  | .record r :: lines => readLines (noteBest best r) lines

/-- `sorted(best_per_gen.keys())`: no generation compares with an integer. -/
def sortedGens (keys : List (Option ℤ)) : Except HistoryError (List (Option ℤ)) :=
  if none ∈ keys ∧ 2 ≤ keys.length then .error .typeError
  else .ok (keys.insertionSort fun a b => a.getD 0 ≤ b.getD 0)

/-- `best_per_gen[g]` -/
def BestPerGen.at (best : BestPerGen) (gen : Option ℤ) : Fitness := ((best.get? gen).map Prod.snd).getD 0

/-- The best fitness so far and the generations since it grew. -/
def plateauStep (best : BestPerGen) (acc : Fitness × ℕ) (gen : Option ℤ) : Fitness × ℕ :=
  if best.at gen > acc.1 then (best.at gen, 0) else (acc.1, acc.2 + 1)

/-- `plateau_count_from_history`; `none` is a path that does not exist. -/
def plateauCountFromHistory : Option (List HistoryLine) → Except HistoryError ℕ
  | none => .ok 0
  | some lines => do
      let best ← readLines .empty lines
      match ← sortedGens (best.rows.map Prod.fst) with
      | [] => return 0
      | first :: rest => return (rest.foldl (plateauStep best) (best.at first, 0)).2

end CryptoAggHarmonic.Loop

/-!
# When the loop wakes

`next_wake_at` of `app/loop/scheduler.py`. A local time is its microseconds since the first of January of the year 1, a
Monday; what `datetime.fromtimestamp` makes of a time stamp is the parameter `fromTimestamp`, which may raise.
-/

namespace CryptoAggHarmonic.Loop

/-! ## Local times -/

def minuteMicros : ℕ := 60 * 10 ^ 6

def hourMicros : ℕ := 60 * minuteMicros

def dayMicros : ℕ := 24 * hourMicros

/-- The end of the year 9999. -/
def maxMicros : ℕ := 3652059 * dayMicros

structure Datetime where
  micros : ℕ
  lt_max : micros < maxMicros
  deriving DecidableEq

inductive WakeError
  | history (e : HistoryError)
  | overflowError
  /-- `fromtimestamp` has no time for the stamp. -/
  | timestampError
  deriving DecidableEq

namespace Datetime

def hour (t : Datetime) : ℕ := t.micros / hourMicros % 24

/-- Monday is 0. -/
def weekday (t : Datetime) : ℕ := t.micros / dayMicros % 7

/-- `t + timedelta(...)` -/
def add (t : Datetime) (delta : ℤ) : Except WakeError Datetime :=
  if h : 0 ≤ (t.micros : ℤ) + delta ∧ (t.micros : ℤ) + delta < maxMicros then
    .ok ⟨((t.micros : ℤ) + delta).toNat, by omega⟩
  else .error .overflowError

/-- `t.replace(minute=0, second=0, microsecond=0)` -/
def startOfHour (t : Datetime) : Datetime :=
  ⟨t.micros / hourMicros * hourMicros, (Nat.div_mul_le_self _ _).trans_lt t.lt_max⟩

end Datetime

/-! ## Active windows -/

structure SchedulerConfig where
  maxIntervalMinutes : ℤ := 60
  plateauBackoffGens : ℤ := 5
  quietHoursStart : ℤ := 23
  quietHoursEnd : ℤ := 7
  weekendSkip : Bool := false

def inQuietHours (now : Datetime) (cfg : SchedulerConfig) : Bool :=
  let h : ℤ := now.hour
  if cfg.quietHoursStart < cfg.quietHoursEnd then cfg.quietHoursStart ≤ h ∧ h < cfg.quietHoursEnd
  else h ≥ cfg.quietHoursStart ∨ h < cfg.quietHoursEnd

def isWeekend (now : Datetime) (cfg : SchedulerConfig) : Bool :=
  if !cfg.weekendSkip then false else now.weekday ≥ 5

/-- The loop of `_next_active_window`; `none` when it runs out. -/
def searchWindow (cfg : SchedulerConfig) : ℕ → Datetime → Except WakeError (Option Datetime)
  | 0, _ => .ok none
  | n + 1, candidate => do
      let candidate ← candidate.add hourMicros
      if !inQuietHours candidate cfg && !isWeekend candidate cfg then return some candidate.startOfHour
      else searchWindow cfg n candidate

def nextActiveWindow (now : Datetime) (cfg : SchedulerConfig) : Except WakeError Datetime := do
  match ← searchWindow cfg 48 now with
  | some wake => return wake
  | none => now.add (24 * hourMicros)

/-! ## The last improvement -/

section

variable {Stamp : Type}

/-- A line of the journal, and the `ts` of its record. -/
structure StampedLine (Stamp : Type) where
  line : HistoryLine
  ts : Option Stamp

/-- `best_per_gen` and `last_ts_per_gen` -/
abbrev GrowthPerGen (Stamp : Type) := Table (Prod.fst : ℤ × Fitness × Stamp → ℤ)

def noteGrowth (best : GrowthPerGen Stamp) (r : HistoryRecord) (ts : Option Stamp) : GrowthPerGen Stamp :=
  match r.accepted, r.gen, ts with
  | true, some gen, some ts =>
      match best.get? gen with
      | none => best.put (gen, r.fitnessOrZero, ts)
      | some (_, fit, _) => if r.fitnessOrZero > fit then best.put (gen, r.fitnessOrZero, ts) else best
  | _, _, _ => best

def readGrowth (best : GrowthPerGen Stamp) : List (StampedLine Stamp) → Except HistoryError (GrowthPerGen Stamp)
  | [] => .ok best
  | ⟨.blank, _⟩ :: lines => readGrowth best lines
  | ⟨.corrupt, _⟩ :: lines => readGrowth best lines
  | ⟨.value, _⟩ :: _ => .error .attributeError
  | ⟨.record r, ts⟩ :: lines => readGrowth (noteGrowth best r ts) lines

/-- The stamp of the last generation whose best fitness exceeds what came before it. -/
def lastGrowth (best : GrowthPerGen Stamp) : Option Stamp :=
  match best.rows.insertionSort fun a b => a.1 ≤ b.1 with
  | [] => none
  | first :: rest =>
      some (rest.foldl (fun acc row => if row.2.1 > acc.1 then (row.2.1, row.2.2) else acc) (first.2.1, first.2.2)).2

/-- `_last_improvement_age_hours`, in microseconds. -/
def lastImprovementAge (fromTimestamp : Stamp → Option Datetime) (now : Datetime) :
    Option (List (StampedLine Stamp)) → Except WakeError (Option ℤ)
  | none => .ok none
  | some lines => do
      let best ← (readGrowth .empty lines).mapError .history
      match lastGrowth best with
      | none => return none
      | some ts =>
          match fromTimestamp ts with
          | none => throw .timestampError
          | some grown => return some (now.micros - grown.micros)

/-! ## The decision -/

structure WakeDecision where
  wakeAt : Datetime
  reason : String
  plateauCount : ℕ
  lastImprovementAgeHours : Option ℚ
  deriving DecidableEq

/-- The delay by how long ago the last improvement was. -/
def idleDelay (cfg : SchedulerConfig) (age : Option ℤ) : ℤ :=
  match age with
  | none => cfg.maxIntervalMinutes * minuteMicros
  | some age =>
      if age < 24 * hourMicros then 15 * minuteMicros
      else if age < 24 * 7 * hourMicros then 30 * minuteMicros
      else cfg.maxIntervalMinutes * minuteMicros

def idleReason (cfg : SchedulerConfig) (age : Option ℤ) : String :=
  let none' := "no recent improvement (max " ++ toString cfg.maxIntervalMinutes ++ "m)"
  match age with
  | none => none'
  | some age =>
      if age < 24 * hourMicros then "last improvement < 24h"
      else if age < 24 * 7 * hourMicros then "last improvement < 7d"
      else none'

/-- `next_wake_at`; no list of lines is a journal that does not exist. -/
def nextWakeAt (fromTimestamp : Stamp → Option Datetime) (now : Datetime) (cfg : SchedulerConfig)
    (history : Option (List (StampedLine Stamp))) (pendingOperatorAction : Bool) : Except WakeError WakeDecision := do
  let plateau ← (plateauCountFromHistory (history.map fun lines => lines.map StampedLine.line)).mapError .history
  if inQuietHours now cfg || isWeekend now cfg then
    let wake ← nextActiveWindow now cfg
    return ⟨wake, "quiet hours/weekend (plateau=" ++ toString plateau ++ ")", plateau, none⟩
  if pendingOperatorAction then
    let wake ← now.add (5 * minuteMicros)
    return ⟨wake, "operator action pending in NEXT_QUEUE.md", plateau, none⟩
  if (plateau : ℤ) ≥ cfg.plateauBackoffGens then
    let wake ← nextActiveWindow now cfg
    return ⟨wake, "plateau reached " ++ toString plateau ++ " gens ≥ " ++ toString cfg.plateauBackoffGens ++
      " threshold — anti-plateau back-off", plateau, none⟩
  let age ← lastImprovementAge fromTimestamp now history
  let wake ← now.add (idleDelay cfg age)
  return ⟨wake, idleReason cfg age, plateau, age.map fun age => (age : ℚ) / hourMicros⟩

end

end CryptoAggHarmonic.Loop
