import CryptoAggHarmonic.Loop.Lemmas.Weights

/-!
# Mutations keep to their field

When `mutate_field` returns, and what it returns; when the weights it makes for the confluence are weights.
-/

namespace CryptoAggHarmonic.Loop

open PyOs (Text)

variable {σ : Type}

/-! ## Any field -/

/-- **A mutation is confined** to its field exactly when no attempt that is made overflows: `int(round(x))` of an
infinite number and the sum of a float with a huge integer raise what `mutate_field` does not catch. A cluster changes
in no more fields than asked for. -/
theorem mutation_confined_iff (rng : Rng σ) {values : List Value} (hvalid : Valid values) (scale : PyFloat) :
    (∀ spec ∈ allSpecs, ∀ s,
      (∃ new, (mutateField rng spec values scale s).1 = .ok new ∧ (new = values ∨ Confined spec values new)) ↔
        NoOverflow rng spec values scale s) ∧
    ∀ cluster nMutations s new, (mutateCluster rng values cluster scale nMutations s).1 = .ok new →
      Valid new ∧ ∃ changed : List String, changed.length ≤ (nMutations.getD 1).toNat ∧
        changed ⊆ clusterFields cluster ∧ ∀ name, name ∉ changed → fieldOf new name = fieldOf values name :=
  ⟨fun _ hspec _ => mutateField_iff (fine_of_mem hspec) hvalid, fun _ _ _ _ h => mutateCluster_ok hvalid h⟩

/-- A generator whose standard normal draws are all `z`. -/
def steady (z : ℚ) : Rng Unit where
  gauss sigma s := (sigma.mul (.finite z), s)
  random s := (0, s)
  choice _ s := (0, s)
  sample _ k s := (List.range k, s)
  length_sample _ _ _ _ := List.length_range

def defaults : List Value := fields.map Prod.snd

def maxAge : FieldSpec := ⟨"max_d_age_bars", .intThreshold 5 60, 5⟩

/-- The defaults, and what the steady draws make of them. -/
theorem defaults_evaluated : postInit defaults = .ok () ∧
    asFloat (fieldOf defaults maxAge.name) = .ok (.finite 20) ∧
    ((PyFloat.finite 20).add (((PyFloat.finite 1).mul (.finite 3)).mul (.finite 0))).isInf = false ∧
    (mutateField (steady 1) maxAge defaults .posInf ()).1.toBool = false ∧
    drawnWeights (steady 0) defaults (.finite 1) () = [25, 25, 15, 15, 10, 10] ∧
    shares 100 [25, 25, 15, 15, 10, 10] = [25, 25, 15, 15, 10, 10].map .finite := by
  decide +kernel

theorem valid_defaults : Valid defaults := ⟨by decide, defaults_evaluated.1⟩

theorem maxAge_mem : maxAge ∈ allSpecs := by
  simp [allSpecs, defaultClusterMap, maxAge]

theorem steady_confined : ∃ new, (mutateField (steady 0) maxAge defaults (.finite 1) ()).1 = .ok new ∧
    (new = defaults ∨ Confined maxAge defaults new) := by
  refine ((mutation_confined_iff (steady 0) valid_defaults (.finite 1)).1 maxAge maxAge_mem ()).mpr ?_
  obtain ⟨-, hvalue, hsum, -⟩ := defaults_evaluated
  rintro i - - (hhuge | ⟨x, hx, hinf⟩)
  · rw [← asFloat_overflow, hvalue] at hhuge
    cases hhuge
  · rw [hvalue] at hx
    cases hx
    simp [steady, hsum] at hinf

/-- With an infinite `sigma_scale` the number to round is infinite. -/
theorem infinite_scale_raises : maxAge ∈ allSpecs ∧ Valid defaults ∧
    ∀ new, (mutateField (steady 1) maxAge defaults .posInf ()).1 ≠ .ok new := by
  refine ⟨maxAge_mem, valid_defaults, fun new hnew => ?_⟩
  obtain ⟨-, -, -, hraises, -⟩ := defaults_evaluated
  rw [hnew] at hraises
  cases hraises

/-! ## The confluence weights -/

def defaultWeights : List (Yaml × Yaml) :=
  [pair "price_action" (.int 25), pair "htf_trend" (.int 25), pair "rsi" (.int 15), pair "structure" (.int 15),
    pair "macd" (.int 10), pair "funding" (.int 10)]

theorem weighted_defaults : Weighted defaults defaultWeights where
  valid := valid_defaults
  weights := rfl
  nonneg := ⟨[25, 25, 15, 15, 10, 10], ⟨_, rfl, by decide⟩, by decide⟩

/-- The weight of a factor. -/
def weightOf (values : List Value) (key : String) : Option PyFloat :=
  match fieldOf values "confluence_weights" with
  | .plain (.map entries) => (Yaml.lookup key.toList entries).bind fun v => number? (.plain v)
  | _ => none

/-- Every sixth draw is -2.2 standard deviations, the others are 0. -/
def everySixth : Rng ℕ where
  gauss sigma n := (sigma.mul (.finite (if n % 6 = 5 then -11 / 5 else 0)), n + 1)
  random n := (0, n)
  choice _ n := (0, n)
  sample _ k n := (List.range k, n)
  length_sample _ _ _ _ := List.length_range

end CryptoAggHarmonic.Loop
