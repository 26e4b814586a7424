import CryptoAggHarmonic.Bench.Record

/-!
# The split of the dataset

`bench/dataset/dataset_builder.py`: the boundary between what a configuration is fitted on and what it is scored on, and
the records that cross it.
-/

namespace CryptoAggHarmonic.Bench

/-- The record with the two fields that the split alone writes. -/
structure SplitRecord extends SignalRecord where
  crossesBoundary : Bool := false
  boundaryDistanceBars : Option ℤ := none
  deriving DecidableEq, Repr

def splitBoundary (totalBars : ℤ) (isRatio : ℚ) : Except String ℤ :=
  if totalBars ≤ 0 then .error "total_bars must be positive"
  else if ¬(0 < isRatio ∧ isRatio < 1) then .error "is_ratio must be in (0, 1)"
  else .ok ⌊totalBars * isRatio⌋

/-- The body of the loop of `assign_split`. -/
def assignOne (barIndexOf : String → Option ℤ) (boundary : ℤ) (rec : SplitRecord) : SplitRecord :=
  match barIndexOf rec.signalId with
  | none => rec
  | some idx => { rec with split := some (if idx ≤ boundary then "is" else "oos") }

def assignSplit (records : List SplitRecord) (barIndexOf : String → Option ℤ) (boundary : ℤ) : List SplitRecord × ℕ :=
  (records.map (assignOne barIndexOf boundary), records.countP fun rec => (barIndexOf rec.signalId).isSome)

/-- The horizon of a record: `horizon_of` takes precedence over `horizon`. -/
def horizonFor (horizon : Option ℤ) (horizonOf : Option (String → Option ℤ)) (signalId : String) : Option ℤ :=
  match horizonOf with
  | some lookup => lookup signalId
  | none => horizon

def SplitRecord.unmarked (rec : SplitRecord) : SplitRecord :=
  { rec with crossesBoundary := false, boundaryDistanceBars := none }

/-- The body of the loop of `find_boundary_crossings`. -/
def markOne (barIndexOf : String → Option ℤ) (boundary : ℤ) (horizon : Option ℤ)
    (horizonOf : Option (String → Option ℤ)) (rec : SplitRecord) : SplitRecord :=
  match barIndexOf rec.signalId with
  | none => rec.unmarked
  | some idx =>
      match horizonFor horizon horizonOf rec.signalId with
      | none => rec.unmarked
      | some h =>
          let exitBar := idx + h - 1
          if h ≤ 0 then rec.unmarked
          else if idx ≤ boundary ∧ boundary < exitBar then
            { rec with crossesBoundary := true, boundaryDistanceBars := some (exitBar - boundary) }
          else rec.unmarked

def findBoundaryCrossings (records : List SplitRecord) (barIndexOf : String → Option ℤ) (boundary : ℤ)
    (horizon : Option ℤ) (horizonOf : Option (String → Option ℤ)) : Except String (List SplitRecord × ℕ) :=
  if horizonOf.isNone ∧ horizon.isNone then .error "either horizon or horizon_of must be provided"
  else if horizonOf.isNone ∧ horizon.any (· ≤ 0) then .error "horizon must be positive"
  else
    let marked := records.map (markOne barIndexOf boundary horizon horizonOf)
    .ok (marked, marked.countP (·.crossesBoundary))

def boundaryDiscount (rec : SplitRecord) (horizon : ℤ) : ℚ :=
  if rec.crossesBoundary = false then 1
  else
    match rec.boundaryDistanceBars with
    | none => 1
    | some distance =>
        if horizon ≤ 0 then 1
        else
          let discount : ℚ := 1 - distance / horizon
          if discount < 0 then 0 else discount

def partitionBySplit (records : List SplitRecord) : List SplitRecord × List SplitRecord :=
  (records.filter (·.split = some "is"), records.filter (·.split = some "oos"))

end CryptoAggHarmonic.Bench
