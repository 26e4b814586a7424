import CryptoAggHarmonic.Lib.HalfEven
import CryptoAggHarmonic.Lib.Retry
import CryptoAggHarmonic.Loop.Snapshot

/-!
# Mutations

`mutate_field` and `mutate_cluster` of `app/loop/mutation.py`. A random number generator is any state with draws from
it; `gauss` is the draw of `rng.gauss(0.0, sigma)`, which may be any float.
-/

namespace CryptoAggHarmonic.Loop

open PyOs (Text)

/-! ## The clusters -/

/-- The settings of a field that is a dict. -/
structure PerKey where
  perKey : ℚ := 1 / 10
  min : ℚ := -50
  max : ℚ := 200
  keysBounds : List (String × ℚ × ℚ) := []
  targetSum : Option ℤ := none

inductive Mutator
  | absSmall (min max : ℚ)
  | relLarge (min max : ℚ)
  | intWindow (min max : ℤ)
  | intThreshold (min max : ℤ)
  | dictPerKey (settings : PerKey)
  | enum (allowed : List Text)

structure FieldSpec where
  name : String
  kind : Mutator
  maxRetries : ℕ := 5

def atrStopBuffer : PerKey where
  perKey := 1 / 5
  keysBounds := [("conservative", 1 / 2, 2), ("standard", 1 / 5, 1 / 2), ("aggressive", 1 / 10, 2 / 5)]

def confluenceWeights : PerKey where
  perKey := 5
  targetSum := some 100

def confluenceSpec : FieldSpec := ⟨"confluence_weights", .dictPerKey confluenceWeights, 5⟩

/-- `DEFAULT_CLUSTER_MAP` -/
def defaultClusterMap : List (String × List FieldSpec) :=
  [("C1 Geometry",
    [⟨"atr_prz_sweep", .absSmall (1 / 20) 1, 5⟩,
      ⟨"fee_rate", .absSmall (2 / 10000) (5 / 1000), 5⟩,
      ⟨"slippage_rate", .absSmall (1 / 10000) (5 / 1000), 5⟩,
      ⟨"atr_stop_buffer", .dictPerKey atrStopBuffer, 5⟩]),
    ("C2 Discipline",
    [⟨"max_d_age_bars", .intThreshold 5 60, 5⟩,
      ⟨"max_prz_distance_atr", .absSmall 1 6, 5⟩,
      ⟨"max_forming_prz_width_atr", .absSmall (3 / 10) 3, 5⟩,
      ⟨"authenticity_halve", .intThreshold 30 70, 5⟩,
      ⟨"authenticity_veto", .intThreshold 10 40, 5⟩,
      ⟨"adverse_sharpe_threshold", .absSmall (1 / 2) (5 / 2), 5⟩,
      ⟨"regime_moderate", .intThreshold 20 50, 5⟩,
      ⟨"regime_high", .intThreshold 40 80, 5⟩,
      ⟨"target_atr_pct", .absSmall 1 5, 5⟩,
      ⟨"default_ttl_bars", .intThreshold 20 80, 5⟩]),
    ("C3 Confluence",
    [⟨"a_grade_min", .intThreshold 50 90, 5⟩,
      ⟨"a_grade_min_high_quant", .intThreshold 60 95, 5⟩,
      ⟨"high_quant_position_mult", .absSmall (3 / 10) 1, 5⟩,
      confluenceSpec,
      ⟨"pattern_base_score", .dictPerKey { perKey := 2 }, 5⟩,
      ⟨"stability_window", .intThreshold 3 15, 5⟩]),
    ("C4 Macro",
    [⟨"slope_trend_up", .absSmall (1 / 5) 1, 5⟩,
      ⟨"slope_trend_down", .absSmall (-1) (-1 / 5), 5⟩,
      ⟨"mult_trending_aligned", .absSmall (4 / 5) (3 / 2), 5⟩,
      ⟨"mult_ranging_aligned", .absSmall (4 / 5) (3 / 2), 5⟩,
      ⟨"mult_trending_inverse", .absSmall (3 / 10) (9 / 10), 5⟩,
      ⟨"mult_ranging_inverse", .absSmall (1 / 5) (9 / 10), 5⟩,
      ⟨"mult_extreme_inverse", .absSmall (9 / 10) (3 / 2), 5⟩,
      ⟨"mult_data_short", .absSmall (1 / 2) 1, 5⟩,
      ⟨"extreme_deviation_pct", .absSmall 10 40, 5⟩,
      ⟨"min_daily_bars", .intWindow 100 400, 5⟩]),
    ("C5 Windows",
    [⟨"min_candles", .intThreshold 30 200, 5⟩,
      ⟨"atr_window", .intWindow 5 50, 5⟩,
      ⟨"atr_long_window", .intWindow 50 200, 5⟩,
      ⟨"rsi_window", .intWindow 5 30, 5⟩,
      ⟨"volume_ma_window", .intWindow 5 50, 5⟩,
      ⟨"swing_lookback", .intWindow 20 120, 5⟩,
      ⟨"quant_trap_lookback", .intWindow 20 120, 5⟩,
      ⟨"volume_authenticity_window", .intWindow 20 120, 5⟩,
      ⟨"quant_regime_window", .intWindow 50 200, 5⟩,
      ⟨"per_bar_sharpe_window", .intWindow 5 50, 5⟩])]

/-- `DEFAULT_CLUSTER_MAP.get(cluster, [])` -/
def clusterSpecs (cluster : String) : List FieldSpec := (defaultClusterMap.lookup cluster).getD []

/-- `cluster_fields` -/
def clusterFields (cluster : String) : List String := (clusterSpecs cluster).map FieldSpec.name

/-! ## Draws and numbers -/

/-- A random number generator with its state. -/
structure Rng (σ : Type) where
  gauss : PyFloat → σ → PyFloat × σ
  random : σ → ℚ × σ
  /-- The position of the choice. -/
  choice : ℕ → σ → ℕ × σ
  /-- The positions of the sample. -/
  sample : ℕ → ℕ → σ → List ℕ × σ
  length_sample : ∀ n k s, k ≤ n → (sample n k s).1.length = k

inductive MutationError
  | tuning (e : TuningError)
  | overflowError
  | indexError
  deriving DecidableEq

/-- `except (ValueError, TypeError)` -/
def MutationError.caught : MutationError → Bool
  | .tuning (.valueError _) => true
  | .tuning .typeError => true
  | _ => false

/-- The float that an arithmetic operation with a float makes of a value. -/
def asFloat : Value → Except MutationError PyFloat
  | .plain (.int n) => if |(n : ℚ)| < PyFloat.limit then .ok (.finite n) else .error .overflowError
  | v => ((number? v).map Except.ok).getD (.error (.tuning .typeError))

/-- `int(round(x))` -/
def roundInt : PyFloat → Except MutationError ℤ
  | .finite x => .ok (Rounding.halfEven x)
  | .nan => .error (.tuning (.valueError "cannot convert float NaN to integer"))
  | _ => .error .overflowError

/-- `_clip` of a float: `min(hi, nan)` is `hi`. -/
def clip (x : PyFloat) (lo hi : ℚ) : ℚ :=
  match x with
  | .finite x => max lo (min hi x)
  | .negInf => lo
  | _ => max lo hi

/-! ## One mutation -/

variable {σ : Type} (rng : Rng σ)

/-- The bounds of a key. -/
def PerKey.bounds (p : PerKey) : Yaml → ℚ × ℚ
  | .str key => (p.keysBounds.lookup (String.ofList key)).getD (p.min, p.max)
  | _ => (p.min, p.max)

/-- The loop over the items of a dict. -/
def noisyItems (p : PerKey) (sigma : PyFloat) :
    List (Yaml × Yaml) → σ → Except MutationError (List (Yaml × ℚ)) × σ
  | [], s => (.ok [], s)
  | (key, v) :: entries, s =>
      let (g, s) := rng.gauss sigma s
      match asFloat (.plain v) with
      | .error e => (.error e, s)
      | .ok x =>
          match noisyItems p sigma entries s with
          | (.error e, s) => (.error e, s)
          | (.ok new, s) => (.ok ((key, clip (x.add g) (p.bounds key).1 (p.bounds key).2) :: new), s)

/-- `v * scale` for every value. -/
def shares (target : ℤ) (weights : List ℚ) : List PyFloat :=
  weights.map fun v => (PyFloat.finite v).mul (.ofRat (target / weights.sum))

/-- `scaled[last_key] += drift` -/
def addLast (drift : ℤ) : List ℤ → List ℤ
  | [] => []
  | [n] => [n + drift]
  | n :: m :: ns => n :: addLast drift (m :: ns)

/-- The values brought to the sum, as integers; they stay as they are where there is nothing to divide by. -/
def renormalise (target : ℤ) (weights : List ℚ) : Except MutationError (List Yaml) :=
  if weights.sum = 0 then .ok (weights.map float)
  else do
    let scaled ← (shares target weights).mapM roundInt
    return (addLast (target - scaled.sum) scaled).map .int

def perturbDict (p : PerKey) (cur : Value) (scale : PyFloat) (s : σ) : Except MutationError Value × σ :=
  match items cur with
  | .error e => (.error (.tuning e), s)
  | .ok entries =>
      match noisyItems rng p (scale.mul (.finite p.perKey)) entries s with
      | (.error e, s) => (.error e, s)
      | (.ok new, s) =>
          let values : Except MutationError (List Yaml) :=
            match p.targetSum with
            | none => .ok ((new.map Prod.snd).map float)
            | some target => renormalise target (new.map Prod.snd)
          (values.map fun values => .plain (.map ((new.map Prod.fst).zip values)), s)

def perturbAbs (lo hi : ℚ) (cur : Value) (scale : PyFloat) (s : σ) : Except MutationError Value × σ :=
  let (g, s) := rng.gauss (scale.mul (.finite (1 / 20))) s
  ((asFloat cur).map fun x => .plain (float (clip (x.add g) lo hi)), s)

def perturbRel (lo hi : ℚ) (cur : Value) (scale : PyFloat) (s : σ) : Except MutationError Value × σ :=
  let (g, s) := rng.gauss (scale.mul (.finite (1 / 20))) s
  ((asFloat cur).map fun x => .plain (float (clip (x.mul (PyFloat.add (.finite 1) g)) lo hi)), s)

/-- Both kinds of integers, which differ in their sigma. -/
def perturbInt (sigma : ℚ) (lo hi : ℤ) (cur : Value) (scale : PyFloat) (s : σ) : Except MutationError Value × σ :=
  let (g, s) := rng.gauss (scale.mul (.finite sigma)) s
  (do
    let x ← asFloat cur
    let new ← roundInt (x.add g)
    return .plain (.int (max lo (min hi new))), s)

/-- Another of the allowed texts, or nothing. -/
def perturbEnum (allowed : List Text) (cur : Value) (scale : PyFloat) (s : σ) :
    Except MutationError (Option Value) × σ :=
  match cur with
  | .plain (.str text) =>
      if allowed.contains text then
        let (r, s) := rng.random s
        if scale.gt (.finite r) then
          let others := allowed.filter (· ≠ text)
          if others.isEmpty then (.error .indexError, s)
          else
            let (i, s) := rng.choice others.length s
            (.ok (others[i]?.map fun text => .plain (.str text)), s)
        else (.ok none, s)
      else (.ok none, s)
  | _ => (.ok none, s)

/-- The new value of the field, before `replace`; nothing where the tuning stays as it is. -/
def perturb (kind : Mutator) (cur : Value) (scale : PyFloat) (s : σ) : Except MutationError (Option Value) × σ :=
  let changed (r : Except MutationError Value × σ) : Except MutationError (Option Value) × σ := (r.1.map some, r.2)
  match kind with
  | .absSmall lo hi => changed (perturbAbs rng lo hi cur scale s)
  | .relLarge lo hi => changed (perturbRel rng lo hi cur scale s)
  | .intWindow lo hi => changed (perturbInt rng 5 lo hi cur scale s)
  | .intThreshold lo hi => changed (perturbInt rng 3 lo hi cur scale s)
  | .dictPerKey p => changed (perturbDict rng p cur scale s)
  | .enum allowed => perturbEnum rng allowed cur scale s

/-- The values with another one for a field. -/
def setField (values : List Value) (name : String) (v : Value) : List Value :=
  (fieldNames.zip values).map fun field => if field.1 = name then v else field.2

/-- `replace(t, **{name: v})` -/
def replaceField (values : List Value) (name : String) (v : Value) : Except MutationError (List Value) :=
  match postInit (setField values name v) with
  | .ok () => .ok (setField values name v)
  | .error e => .error (.tuning e)

def applyOneMutation (spec : FieldSpec) (values : List Value) (scale : PyFloat) (s : σ) :
    Except MutationError (List Value) × σ :=
  let (new, s) := perturb rng spec.kind (fieldOf values spec.name) scale s
  (do
    match ← new with
    | none => return values
    | some v => replaceField values spec.name v, s)

def mutateField (spec : FieldSpec) (values : List Value) (scale : PyFloat) (s : σ) :
    Except MutationError (List Value) × σ :=
  Retry.run (applyOneMutation rng spec values scale) MutationError.caught values (spec.maxRetries + 1) s

/-! ## Several mutations -/

def mutateFields (scale : PyFloat) : List FieldSpec → List Value → σ → Except MutationError (List Value) × σ
  | [], values, s => (.ok values, s)
  | spec :: specs, values, s =>
      match mutateField rng spec values scale s with
      | (.error e, s) => (.error e, s)
      | (.ok values, s) => mutateFields scale specs values s

/-- `mutate_cluster` with the map of the defaults. -/
def mutateCluster (values : List Value) (cluster : String) (scale : PyFloat) (nMutations : Option ℤ) (s : σ) :
    Except MutationError (List Value) × σ :=
  let members := clusterSpecs cluster
  if members.isEmpty then (.ok values, s)
  else
    let n := min (nMutations.getD 1) members.length
    if n < 0 then (.error (.tuning (.valueError "Sample larger than population or is negative")), s)
    else
      let (chosen, s) := rng.sample members.length n.toNat s
      mutateFields rng scale (chosen.filterMap fun i => members[i]?) values s

end CryptoAggHarmonic.Loop
