import CryptoAggHarmonic.Python.Float
import CryptoAggHarmonic.Python.JsonText
import Mathlib.Data.List.Sort

/-!
# Tuning snapshots

`to_dict` and `from_dict` of `app/config/tuning.py` over values of any type, as they are where a tuning comes from a
file, the hand-rolled YAML of `write_tuning_snapshot` and of the worker, and the two readers of it.
-/

namespace CryptoAggHarmonic.Loop

open PyOs (Text)

/-- A value of a field: what a file can give, and the containers it cannot. The elements of a frozenset are texts, in
the order of `sorted`. -/
inductive Value
  | plain (v : Yaml)
  | tuple (xs : List Yaml)
  | frozenset (xs : List Text)

inductive TuningError
  | valueError (message : String)
  | typeError
  | attributeError
  deriving DecidableEq

/-! ## The fields -/

def float (x : ℚ) : Yaml := .float (.finite x)

def pair (key : String) (v : Yaml) : Yaml × Yaml := (.str key.toList, v)

def requiredExtendedFamilies : List Text :=
  ["butterfly", "crab", "deep butterfly", "deep crab", "deep shark", "shark"].map String.toList

def requiredPatternFamilies : List Text :=
  ["gartley", "bat", "butterfly", "crab", "deep crab", "shark"].map String.toList

def requiredConfluenceKeys : List Text :=
  ["price_action", "htf_trend", "rsi", "structure", "macd", "funding"].map String.toList

def requiredStopLossLevels : List Text := ["conservative", "standard", "aggressive"].map String.toList

def requiredHtfKeys : List Text := ["15m", "1h", "4h", "1d", "1w"].map String.toList

/-- The fields in the order of the dataclass, with their defaults. -/
def fields : List (String × Value) :=
  [("fib_tp1", .plain (float (382 / 1000))),
    ("fib_tp2", .plain (float (618 / 1000))),
    ("fib_tp3", .plain (float (1272 / 1000))),
    ("extended_patterns", .frozenset requiredExtendedFamilies),
    ("htf_rule", .plain (.map
      [pair "15m" (.str "1h".toList), pair "1h" (.str "4h".toList), pair "4h" (.str "1D".toList),
        pair "1d" (.str "1W".toList), pair "1w" (.str "1ME".toList)])),
    ("atr_stop_buffer", .plain (.map
      [pair "conservative" (float 1), pair "standard" (float (3 / 10)), pair "aggressive" (float (1 / 4))])),
    ("atr_prz_sweep", .plain (float (3 / 10))),
    ("tp_close_pcts", .tuple [.int 50, .int 30, .int 20]),
    ("fee_rate", .plain (float (1 / 1000))),
    ("slippage_rate", .plain (float (5 / 10000))),
    ("max_d_age_bars", .plain (.int 20)),
    ("max_prz_distance_atr", .plain (float 3)),
    ("max_forming_prz_width_atr", .plain (float 1)),
    ("authenticity_halve", .plain (.int 40)),
    ("authenticity_veto", .plain (.int 25)),
    ("adverse_sharpe_threshold", .plain (float 1)),
    ("regime_moderate", .plain (.int 35)),
    ("regime_high", .plain (.int 60)),
    ("target_atr_pct", .plain (float (5 / 2))),
    ("default_ttl_bars", .plain (.int 40)),
    ("funding_confluence_default", .plain (.int 5)),
    ("confluence_weights", .plain (.map
      [pair "price_action" (.int 25), pair "htf_trend" (.int 25), pair "rsi" (.int 15), pair "structure" (.int 15),
        pair "macd" (.int 10), pair "funding" (.int 10)])),
    ("a_grade_min", .plain (.int 70)),
    ("a_grade_min_high_quant", .plain (.int 85)),
    ("high_quant_position_mult", .plain (float (6 / 10))),
    ("pattern_base_score", .plain (.map
      [pair "gartley" (.int 5), pair "bat" (.int 2), pair "butterfly" (.int 0), pair "crab" (.int (-3)),
        pair "deep crab" (.int (-5)), pair "shark" (.int (-8))])),
    ("stability_window", .plain (.int 5)),
    ("min_candles", .plain (.int 60)),
    ("atr_window", .plain (.int 14)),
    ("atr_long_window", .plain (.int 100)),
    ("rsi_window", .plain (.int 14)),
    ("volume_ma_window", .plain (.int 20)),
    ("swing_lookback", .plain (.int 60)),
    ("quant_trap_lookback", .plain (.int 60)),
    ("volume_authenticity_window", .plain (.int 60)),
    ("quant_regime_window", .plain (.int 100)),
    ("per_bar_sharpe_window", .plain (.int 20)),
    ("slope_trend_up", .plain (float (1 / 2))),
    ("slope_trend_down", .plain (float (-1 / 2))),
    ("mult_trending_aligned", .plain (float 1)),
    ("mult_ranging_aligned", .plain (float 1)),
    ("mult_trending_inverse", .plain (float (6 / 10))),
    ("mult_ranging_inverse", .plain (float (1 / 2))),
    ("mult_extreme_inverse", .plain (float (12 / 10))),
    ("mult_data_short", .plain (float (8 / 10))),
    ("extreme_deviation_pct", .plain (float 20)),
    ("min_daily_bars", .plain (.int 210))]

def fieldNames : List String := fields.map Prod.fst

/-! ## `__post_init__` -/

def textLt : Text → Text → Bool
  | _, [] => false
  | [], _ :: _ => true
  | a :: as, b :: bs => a < b ∨ (a = b ∧ textLt as bs)

/-- A number, a boolean among them. -/
def number? : Value → Option PyFloat
  | .plain (.int n) => some (.finite n)
  | .plain (.float x) => some x
  | .plain (.bool b) => some (.finite (if b then 1 else 0))
  | _ => none

/-- `a < b` of two numbers or two texts. -/
def lt (a b : Value) : Except TuningError Bool :=
  match number? a, number? b with
  | some x, some y => .ok (y.gt x)
  | _, _ =>
      match a, b with
      | .plain (.str s), .plain (.str t) => .ok (textLt s t)
      | _, _ => .error .typeError

def numbers (xs : List Yaml) : Except TuningError (List PyFloat) :=
  xs.mapM fun x => ((number? (.plain x)).map Except.ok).getD (.error .typeError)

/-- `not abs(x - 100) > 1e-6`, which a NaN is as well. -/
def nearHundred : PyFloat → Bool
  | .finite x => |x - 100| ≤ 1 / 1000000
  | .nan => true
  | _ => false

def items : Value → Except TuningError (List (Yaml × Yaml))
  | .plain (.map entries) => .ok entries
  | _ => .error .attributeError

/-- What `set(value)` is made of. -/
def elements : Value → Except TuningError (List Yaml)
  | .plain v => (v.iter?.map Except.ok).getD (.error .typeError)
  | .tuple xs => .ok xs
  | .frozenset xs => .ok (xs.map .str)

def holdsAll (required : List Text) (keys : List Yaml) : Bool :=
  required.all fun key => keys.any fun k => match k with | .str s => s = key | _ => false

def check (ok : Bool) (message : String) : Except TuningError Unit :=
  if ok then .ok () else .error (.valueError message)

def positiveFields : List String :=
  ["max_d_age_bars", "default_ttl_bars", "atr_window", "atr_long_window", "rsi_window", "volume_ma_window",
    "swing_lookback", "stability_window", "min_candles", "min_daily_bars", "quant_trap_lookback",
    "volume_authenticity_window", "quant_regime_window", "per_bar_sharpe_window", "authenticity_halve",
    "authenticity_veto", "regime_moderate", "regime_high", "a_grade_min", "a_grade_min_high_quant"]

/-- The value of a field, given the values of all of them in their order. -/
def fieldOf (values : List Value) (name : String) : Value :=
  ((fieldNames.zip values).lookup name).getD (.plain .null)

/-- The orders of the first fields, and the legs. -/
def checkOrders (field : String → Value) : Except TuningError Unit := do
  check ((← lt (field "fib_tp1") (field "fib_tp2")) && (← lt (field "fib_tp2") (field "fib_tp3")))
    "fib_tp ordering violated"
  check (PyFloat.total (← numbers (← elements (field "tp_close_pcts"))) = .finite 100) "tp_close_pcts must sum to 100"
  check (← lt (field "authenticity_veto") (field "authenticity_halve")) "authenticity_veto must be < authenticity_halve"
  check (← lt (field "regime_moderate") (field "regime_high")) "regime_moderate must be < regime_high"

def checkWeights (weights : Value) : Except TuningError Unit := do
  let weights ← items weights
  check (nearHundred (PyFloat.total (← numbers (weights.map Prod.snd)))) "confluence_weights must sum to 100"
  check (holdsAll requiredConfluenceKeys (weights.map Prod.fst)) "confluence_weights missing keys"

def checkFamilies (families : Value) : Except TuningError Unit := do
  check (holdsAll requiredExtendedFamilies (← elements families)) "extended_patterns missing required families"

def checkBuffer (buffer : Value) : Except TuningError Unit := do
  let buffer ← items buffer
  check (holdsAll requiredStopLossLevels (buffer.map Prod.fst)) "atr_stop_buffer missing levels"
  match Yaml.lookup "standard".toList buffer with
  | none => .ok ()
  | some .null => .ok ()
  | some std =>
      check (!(← lt (.plain std) (.plain (float (1 / 5)))) && !(← lt (.plain (float (1 / 2))) (.plain std)))
        "atr_stop_buffer['standard'] out of bounds [0.2, 0.5]"

def checkKeys (required : List Text) (message : String) (mapping : Value) : Except TuningError Unit := do
  check (holdsAll required ((← items mapping).map Prod.fst)) message

/-- The bands of the macro overlay. -/
def checkBands (field : String → Value) : Except TuningError Unit := do
  let half : Value := .plain (float (1 / 2))
  let one : Value := .plain (float 1)
  let trending := field "mult_trending_inverse"
  let ranging := field "mult_ranging_inverse"
  let inverseMax := if ← lt trending ranging then ranging else trending
  let inverseMin := if ← lt ranging trending then ranging else trending
  check (!(← lt (field "mult_extreme_inverse") inverseMax)) "mult_extreme_inverse must be >= max(inverse bands)"
  check (!(← lt (field "mult_trending_aligned") inverseMin)) "mult_trending_aligned must be >= min(inverse bands)"
  check (!(← lt (field "mult_ranging_aligned") inverseMin)) "mult_ranging_aligned must be >= min(inverse bands)"
  check (!(← lt (field "mult_data_short") half) && !(← lt one (field "mult_data_short")))
    "mult_data_short must lie in [0.5, 1.0]"
  check (!(← lt (.plain (float (3 / 2))) (field "mult_extreme_inverse")))
    "mult_extreme_inverse violates risk-parity product ceiling"

def checkPositive (v : Value) : Except TuningError Unit := do
  check (← lt (.plain (.int 0)) v) "window/grade field must be > 0"

def checkWindows (field : String → Value) : Except TuningError Unit := do
  positiveFields.forM fun name => checkPositive (field name)
  check (!(← lt (field "atr_long_window") (field "atr_window"))) "atr_long_window must be >= atr_window"

def postInit (values : List Value) : Except TuningError Unit := do
  let field := fieldOf values
  checkOrders field
  checkWeights (field "confluence_weights")
  checkFamilies (field "extended_patterns")
  checkBuffer (field "atr_stop_buffer")
  checkKeys requiredHtfKeys "htf_rule missing intervals" (field "htf_rule")
  checkKeys requiredPatternFamilies "pattern_base_score missing families" (field "pattern_base_score")
  checkBands field
  checkWindows field

/-- `sorted` -/
def sortTexts (xs : List Text) : List Text := xs.insertionSort fun s t => !textLt t s

/-! ## Writing and reading -/

/-- What `to_dict` makes of a value; a tuple is written and hashed as a list is. -/
def Value.toPlain : Value → Yaml
  | .plain v => v
  | .tuple xs => .seq xs
  | .frozenset xs => .seq ((sortTexts xs).map .str)

def toDict (values : List Value) : List (String × Yaml) := fieldNames.zip (values.map Value.toPlain)

def text : Yaml → Except TuningError Text
  | .str s => .ok s
  | _ => .error .typeError

/-- The container of the default is made of a list. -/
def coerce : Value → Yaml → Except TuningError Value
  | .frozenset _, .seq xs => (xs.mapM text).map fun texts => .frozenset (sortTexts texts.dedup)
  | .tuple _, .seq xs => .ok (.tuple xs)
  | _, v => .ok (.plain v)

/-- A missing field keeps its default. -/
def readField (d : List (Yaml × Yaml)) (field : String × Value) : Except TuningError Value :=
  match Yaml.lookup field.1.toList d with
  | none => .ok field.2
  | some v => coerce field.2 v

/-- `from_dict(d)`: other entries are ignored. -/
def fromDict (d : List (Yaml × Yaml)) : Except TuningError (List Value) := do
  let values ← fields.mapM (readField d)
  postInit values
  return values

variable (ft : Yaml.FloatText)

/-- A key as an f-string renders it. -/
def keyText : Yaml → Text
  | .str s => s
  | _ => []

mutual

/-- `_yaml_scalar` -/
def yamlScalar : Yaml → Text
  | .bool b => if b then "true".toList else "false".toList
  | .int n => Yaml.strInt n
  | .float x => Yaml.strFloat ft x
  | .seq xs => '[' :: ([',', ' '].intercalate (yamlScalars xs) ++ [']'])
  | .map entries => '\x7b' :: ([',', ' '].intercalate (yamlEntries entries) ++ ['\x7d'])
  | .str s => JsonText.dumpsText s
  | _ => "None".toList

def yamlScalars : List Yaml → List Text
  | [] => []
  | x :: xs => yamlScalar x :: yamlScalars xs

def yamlEntries : List (Yaml × Yaml) → List Text
  | [] => []
  | (key, v) :: entries => (keyText key ++ [':', ' '] ++ yamlScalar v) :: yamlEntries entries

end

/-- The lines that `write_tuning_snapshot` and the worker write. -/
def snapshotText (values : List Value) : Text :=
  ['\n'].intercalate ((toDict values).map fun entry => entry.1.toList ++ [':', ' '] ++ yamlScalar ft entry.2) ++ ['\n']

/-- What `params_sha` hashes: the fields and the keys of a field sorted. -/
def paramsSha (values : List Value) : List (String × Yaml) :=
  let sorted (v : Yaml) : Yaml :=
    match v with
    | .map entries => .map (entries.insertionSort fun a b => !textLt (keyText b.1) (keyText a.1))
    | v => v
  ((toDict values).map fun entry => (entry.1, sorted entry.2)).insertionSort fun a b => a.1 ≤ b.1

/-- `from_dict` of what a file gives: `in` also asks lists and texts. -/
def fromLoaded : Yaml → Except TuningError (List Value)
  | .map d => fromDict d
  | .seq xs => if holdsAny xs then .error .typeError else fromDict []
  | .set xs => if holdsAny xs then .error .typeError else fromDict []
  | .str s => if fieldNames.any fun name => s.tails.any name.toList.isPrefixOf then .error .typeError else fromDict []
  | _ => .error .typeError
where
  holdsAny (xs : List Yaml) : Bool := fieldNames.any fun name => holdsAll [name.toList] xs

/-- `_load_tuning` of the harness; nothing where it raises. -/
def loadTuning (text : Text) : Option (List Value) :=
  (Yaml.safeLoad ft text).bind fun d => (if d.truthy then fromLoaded d else fromDict []).toOption

/-- `--parent-yaml` of the search -/
def loadParent (text : Text) : Option (List Value) :=
  (JsonText.loads ft text).bind fun d => (fromLoaded d).toOption

/-! ## Tunings -/

/-- What the annotation of a field allows. -/
inductive Kind
  | number
  | numbers
  | texts
  | families
  | legs

def fieldKind : Value → Kind
  | .plain (.map ((_, .str _) :: _)) => .texts
  | .plain (.map _) => .numbers
  | .plain _ => .number
  | .tuple _ => .legs
  | .frozenset _ => .families

/-- A number that is finite. -/
def Finite : Yaml → Prop
  | .int _ => True
  | .float (.finite x) => ft.IsFloat |x|
  | _ => False

def Kind.Allows : Kind → Value → Prop
  | .number, .plain v => Finite ft v
  | .numbers, .plain (.map entries) =>
      ∃ items : List (Text × Yaml), entries = items.map (fun item => (.str item.1, item.2)) ∧
        (items.map Prod.fst).Nodup ∧ ∀ item ∈ items, Finite ft item.2
  | .texts, .plain (.map entries) =>
      ∃ items : List (Text × Text), entries = items.map (fun item => (.str item.1, .str item.2)) ∧
        (items.map Prod.fst).Nodup
  | .families, .frozenset xs => xs.Nodup ∧ sortTexts xs = xs
  | .legs, .tuple xs => ∀ x ∈ xs, Finite ft x
  | _, _ => False

/-- A tuning that `__post_init__` has let pass, the values in the order of the fields. -/
structure Tuning where
  values : List Value
  typed : List.Forall₂ (fun field v => (fieldKind field.2).Allows ft v) fields values
  checked : postInit values = .ok ()

/-- A reader gives the tuning that was written, under the same hash. -/
def ReadsBack (load : Text → Option (List Value)) (t : Tuning ft) : Prop :=
  ∃ values, load (snapshotText ft t.values) = some values ∧ values = t.values ∧ paramsSha values = paramsSha t.values

/-- The snapshot of a tuning is faithful to both of its readers. -/
def Faithful (t : Tuning ft) : Prop := ReadsBack ft (loadTuning ft) t ∧ ReadsBack ft (loadParent ft) t

/-- A scalar that YAML reads as it was: a float whose text has a point, a text of characters with one escape each. -/
def PlainScalar : Yaml → Prop
  | .float (.finite x) => '.' ∈ ft.repr |x|
  | .str s => ∀ c ∈ s, c.toNat < 0x10000
  | _ => True

/-- The scalars of a value, and keys that need no quotes. -/
def Value.Plain : Value → Prop
  | .plain (.map entries) => ∀ entry ∈ entries, Yaml.plainKey true (keyText entry.1) ∧ PlainScalar ft entry.2
  | .plain v => PlainScalar ft v
  | .tuple xs => ∀ x ∈ xs, PlainScalar ft x
  | .frozenset xs => ∀ s ∈ xs, PlainScalar ft (.str s)

end CryptoAggHarmonic.Loop
