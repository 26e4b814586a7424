import CryptoAggHarmonic.Loop.Lemmas.Mutation

/-!
# The confluence weights of a mutation

The weights of an attempt are clipped, brought to the sum of 100 and rounded, and the last one takes what is left.
-/

namespace CryptoAggHarmonic.Loop

open PyOs (Text)

variable {σ : Type} {rng : Rng σ} {values : List Value} {v : Value} {scale sigma : PyFloat} {s : σ} {p : PerKey}
  {entries : List (Yaml × Yaml)} {ws qs : List ℚ} {ns : List ℤ} {xs : List PyFloat}

/-- The rational values of the items of a dict. -/
def Weighs (v : Value) (ws : List ℚ) : Prop :=
  ∃ entries, v = .plain (.map entries) ∧ entries.map (fun entry => number? (itemValue entry)) = ws.map (some ∘ .finite)

/-- Weights from 0 to 100 that sum to 100. -/
def Balanced (v : Value) : Prop := ∃ ws, Weighs v ws ∧ ws.sum = 100 ∧ ∀ w ∈ ws, 0 ≤ w ∧ w ≤ 100

/-- The weights of an attempt, clipped, before they are brought to the sum. -/
def drawnWeights (rng : Rng σ) (values : List Value) (scale : PyFloat) (s : σ) : List ℚ :=
  match items (fieldOf values "confluence_weights") with
  | .error _ => []
  | .ok entries =>
      match (noisyItems rng confluenceWeights (scale.mul (.finite 5)) entries s).1 with
      | .error _ => []
      | .ok new => new.map Prod.snd

/-- An attempt with these weights is made again: there is nothing to divide by, or 0 is multiplied with infinity. -/
def Skipped (ws : List ℚ) : Prop := ws.sum = 0 ∨ FirstFails IsFinite (· = .nan) (shares 100 ws)

/-- The shares but the last are at least -1/2 and leave something of the 100 when they are rounded. -/
def Fair (ws : List ℚ) : Prop :=
  ws.sum ≠ 0 ∧ ∃ qs : List ℚ, shares 100 ws = qs.map .finite ∧ (∀ q ∈ qs.dropLast, -1 / 2 ≤ q) ∧
    (qs.dropLast.map Rounding.halfEven).sum ≤ (100 : ℤ)

/-! ## Rounded numbers -/

theorem roundAll_ok : xs.mapM roundInt = .ok ns ↔
    ∃ qs : List ℚ, xs = qs.map .finite ∧ ns = qs.map Rounding.halfEven := by
  induction xs generalizing ns with
  | nil =>
      simp only [List.mapM_nil, pure, Except.pure, Except.ok.injEq]
      constructor
      · rintro rfl
        exact ⟨[], rfl, rfl⟩
      · rintro ⟨qs, hqs, rfl⟩
        rw [List.map_eq_nil_iff.mp hqs.symm]
        rfl
  | cons x xs ih =>
      rw [List.mapM_cons]
      constructor
      · intro h
        cases x with
        | finite q =>
            cases hxs : xs.mapM roundInt with
            | error e =>
                rw [hxs] at h
                cases h
            | ok ms =>
                rw [hxs] at h
                cases h
                obtain ⟨qs, rfl, rfl⟩ := ih.mp hxs
                exact ⟨q :: qs, rfl, rfl⟩
        | _ => cases h
      · rintro ⟨qs, hqs, rfl⟩
        cases qs with
        | nil => cases hqs
        | cons q qs =>
            rw [List.map_cons, List.cons.injEq] at hqs
            obtain ⟨rfl, hqs⟩ := hqs
            rw [ih.mpr ⟨qs, hqs, rfl⟩]
            rfl

theorem roundAll_nan : (∃ e, xs.mapM roundInt = .error e ∧ e.caught = true) ↔
    FirstFails IsFinite (· = .nan) xs := by
  induction xs with
  | nil => simp [FirstFails, pure, Except.pure]
  | cons x xs ih =>
      rw [List.mapM_cons, FirstFails, ← ih]
      cases x with
      | finite q => cases xs.mapM roundInt <;> simp [roundInt, IsFinite, bind, Except.bind, pure, Except.pure]
      | nan => simp [roundInt, bind, Except.bind, MutationError.caught]
      | _ => simp [roundInt, IsFinite, bind, Except.bind, MutationError.caught]

theorem not_firstFails_finite {bad : PyFloat → Prop} (hbad : ∀ q, ¬ bad (.finite q)) :
    ¬ FirstFails IsFinite bad (qs.map .finite) := by
  induction qs with
  | nil => exact id
  | cons q qs ih =>
      rintro (h | ⟨-, h⟩)
      · exact hbad q h
      · exact ih h

/-! ## The last one takes what is left -/

theorem addLast_eq (hns : ns ≠ []) : addLast (100 - ns.sum) ns = ns.dropLast ++ [100 - ns.dropLast.sum] := by
  have hlast : ∀ (ms : List ℤ) (d : ℤ) (hms : ms ≠ []), addLast d ms = ms.dropLast ++ [ms.getLast hms + d] := by
    intro ms d hms
    induction ms with
    | nil => exact absurd rfl hms
    | cons m ms ih =>
        cases ms with
        | nil => rfl
        | cons k ms =>
            rw [addLast, ih (List.cons_ne_nil k ms)]
            simp
  have hsum : ns.sum = ns.dropLast.sum + ns.getLast hns := by
    conv_lhs => rw [← List.dropLast_append_getLast hns]
    rw [List.sum_append, List.sum_singleton]
  rw [hlast ns _ hns, hsum]
  congr 2
  ring

theorem sum_addLast (hns : ns ≠ []) : (addLast (100 - ns.sum) ns).sum = 100 := by
  rw [addLast_eq hns, List.sum_append, List.sum_singleton]
  ring

theorem addLast_bounds (hns : ns ≠ []) : (∀ n ∈ addLast (100 - ns.sum) ns, 0 ≤ n ∧ n ≤ 100) ↔
    (∀ n ∈ ns.dropLast, 0 ≤ n) ∧ ns.dropLast.sum ≤ 100 := by
  rw [addLast_eq hns]
  simp only [List.mem_append, List.mem_singleton]
  constructor
  · intro h
    refine ⟨fun n hn => (h n (Or.inl hn)).1, ?_⟩
    have := (h _ (Or.inr rfl)).1
    omega
  · rintro ⟨hnonneg, hsum⟩ n (hn | rfl)
    · exact ⟨hnonneg n hn, (List.single_le_sum hnonneg n hn).trans hsum⟩
    · have := List.sum_nonneg hnonneg
      omega

theorem halfEven_nonneg {q : ℚ} : 0 ≤ Rounding.halfEven q ↔ -1 / 2 ≤ q := by
  rw [Rounding.le_halfEven_of_even Even.zero]
  norm_num

/-! ## An attempt -/

theorem numbers_eq_ok {ys : List Yaml} {xs : List PyFloat} :
    numbers ys = .ok xs ↔ ys.map (fun y => number? (.plain y)) = xs.map some := by
  induction ys generalizing xs with
  | nil => cases xs <;> simp [numbers, pure, Except.pure]
  | cons y ys ih =>
      unfold numbers at ih ⊢
      rw [List.mapM_cons]
      simp only [tuning_bind_eq_ok]
      constructor
      · rintro ⟨x, hx, rest, hrest, h⟩
        cases h
        cases hy : number? (.plain y) with
        | none =>
            rw [hy] at hx
            cases hx
        | some x' =>
            rw [hy] at hx
            cases hx
            simp [hy, ih.mp hrest]
      · intro h
        cases xs with
        | nil => cases h
        | cons x xs =>
            rw [List.map_cons, List.map_cons, List.cons.injEq] at h
            exact ⟨x, by rw [h.1]; rfl, xs, ih.mpr h.2, rfl⟩

theorem weighs_iff : Weighs (.plain (.map entries)) ws ↔ numbers (entries.map Prod.snd) = .ok (ws.map .finite) := by
  rw [numbers_eq_ok]
  simp [Weighs, itemValue, Function.comp_def]

theorem fieldOf_setField {name : String} (hlength : values.length = fields.length) (h : name ∈ fieldNames) :
    fieldOf (setField values name v) = Function.update (fieldOf values) name v := by
  funext other
  by_cases heq : other = name
  · subst heq
    rw [Function.update_self, fieldOf_setField_self hlength h]
  · rw [Function.update_of_ne heq, fieldOf_setField_ne heq]

/-- The other constraints read no weights. -/
theorem postInit_setWeights (hvalid : Valid values) :
    postInit (setField values "confluence_weights" v) = .ok () ↔ checkWeights v = .ok () := by
  obtain ⟨horders, -, hfamilies, hbuffer, hhtf, hpattern, hbands, hwindows⟩ := postInit_eq_ok.mp hvalid.checked
  have hpositive : ∀ names : List String, "confluence_weights" ∉ names →
      (forM names fun name => checkPositive (Function.update (fieldOf values) "confluence_weights" v name)) =
        forM names fun name => checkPositive (fieldOf values name) := by
    intro names
    induction names with
    | nil => exact fun _ => rfl
    | cons name names ih =>
        intro h
        rw [List.mem_cons, not_or] at h
        rw [List.forM_cons, List.forM_cons, Function.update_of_ne (Ne.symm h.1), ih h.2]
  have horders' : checkOrders (Function.update (fieldOf values) "confluence_weights" v) =
      checkOrders (fieldOf values) := by
    simp only [checkOrders, Function.update_apply, String.reduceEq, if_false]
  have hbands' : checkBands (Function.update (fieldOf values) "confluence_weights" v) =
      checkBands (fieldOf values) := by
    simp only [checkBands, Function.update_apply, String.reduceEq, if_false]
  have hwindows' : checkWindows (Function.update (fieldOf values) "confluence_weights" v) =
      checkWindows (fieldOf values) := by
    have hfields := hpositive positiveFields (by decide)
    simp only [Function.update_apply] at hfields
    simp only [checkWindows, Function.update_apply, String.reduceEq, if_false]
    exact congrArg (· >>= _) hfields
  rw [postInit_eq_ok, fieldOf_setField hvalid.length_eq (by decide), horders', hbands', hwindows']
  simp [horders, hfamilies, hbuffer, hhtf, hpattern, hbands, hwindows]

theorem fits_of_small {w : ℚ} (h : number? v = some (.finite w)) (hw : |w| < PyFloat.limit) : Fits v := by
  unfold Fits asFloat
  split
  · rename_i n
    cases h
    exact ⟨_, if_pos hw⟩
  · exact ⟨.finite w, by rw [h]; rfl⟩

theorem noisyItems_fits (h : ∀ entry ∈ entries, Fits (itemValue entry)) :
    ∃ new, (noisyItems rng p sigma entries s).1 = .ok new := by
  induction entries generalizing s with
  | nil => exact ⟨[], rfl⟩
  | cons entry entries ih =>
      obtain ⟨key, w⟩ := entry
      obtain ⟨x, hx⟩ := h (key, w) List.mem_cons_self
      obtain ⟨new, hnew⟩ := ih (s := (rng.gauss sigma s).2) fun entry hentry => h entry (List.mem_cons_of_mem _ hentry)
      rcases hcall : noisyItems rng p sigma entries (rng.gauss sigma s).2 with ⟨r, s'⟩
      rw [hcall] at hnew
      cases hnew
      have hw : asFloat (.plain w) = .ok x := hx
      simp only [noisyItems, hw, hcall]
      exact ⟨_, rfl⟩

/-- A tuning with weights that are not negative. -/
structure Weighted (values : List Value) (entries : List (Yaml × Yaml)) : Prop where
  valid : Valid values
  weights : fieldOf values "confluence_weights" = .plain (.map entries)
  nonneg : ∃ ws, Weighs (.plain (.map entries)) ws ∧ ∀ w ∈ ws, 0 ≤ w

theorem Weighted.fits (h : Weighted values entries) : ∀ entry ∈ entries, Fits (itemValue entry) := by
  obtain ⟨ws, hws, hnonneg⟩ := h.nonneg
  obtain ⟨-, hcheck, -⟩ := postInit_eq_ok.mp h.valid.checked
  rw [h.weights] at hcheck
  obtain ⟨entries', xs, heq, hxs, hnear, -⟩ := checkWeights_eq_ok.mp hcheck
  cases heq
  rw [weighs_iff.mp hws] at hxs
  cases hxs
  rw [PyFloat.total_finite, nearHundred, decide_eq_true_eq, abs_le] at hnear
  obtain ⟨entries', heq, hnumbers⟩ := hws
  cases heq
  intro entry hentry
  have hmem : number? (itemValue entry) ∈ ws.map (some ∘ PyFloat.finite) := by
    rw [← hnumbers]
    exact List.mem_map_of_mem hentry
  obtain ⟨w, hw, hnumber⟩ := List.mem_map.mp hmem
  refine fits_of_small hnumber.symm ?_
  have hle : w ≤ ws.sum := List.single_le_sum hnonneg w hw
  have hlimit := PyFloat.thousand_lt_limit
  rw [abs_of_nonneg (hnonneg w hw)]
  linarith [hnear.2]

theorem Weighted.holdsAll (h : Weighted values entries) :
    holdsAll requiredConfluenceKeys (entries.map Prod.fst) = true := by
  obtain ⟨-, hcheck, -⟩ := postInit_eq_ok.mp h.valid.checked
  rw [h.weights] at hcheck
  obtain ⟨entries', xs, heq, -, -, hkeys⟩ := checkWeights_eq_ok.mp hcheck
  cases heq
  exact hkeys

/-- The values under the keys of the weights. -/
def underKeys (entries : List (Yaml × Yaml)) (ys : List Yaml) : Value := .plain (.map ((entries.map Prod.fst).zip ys))

/-- An attempt puts the drawn weights, brought to the sum, under the keys. -/
theorem Weighted.perturb_eq (h : Weighted values entries) (rng : Rng σ) (scale : PyFloat) (s : σ) :
    (perturb rng confluenceSpec.kind (fieldOf values confluenceSpec.name) scale s).1 =
      (renormalise 100 (drawnWeights rng values scale s)).map (fun ys => some (underKeys entries ys)) ∧
    (drawnWeights rng values scale s).length = entries.length := by
  obtain ⟨new, hnew⟩ : ∃ new, (noisyItems rng confluenceWeights (scale.mul (.finite 5)) entries s).1 = .ok new :=
    noisyItems_fits h.fits
  have hitems : items (fieldOf values "confluence_weights") = .ok entries := items_eq_ok.mpr h.weights
  have hordered : (Mutator.dictPerKey confluenceWeights).Ordered := by decide
  obtain ⟨hkeys, -⟩ := noisyItems_ok (bounds_ordered hordered) hnew
  have hdrawn : drawnWeights rng values scale s = new.map Prod.snd := by
    simp only [drawnWeights, hitems, hnew]
  rcases hcall : noisyItems rng confluenceWeights (scale.mul (.finite 5)) entries s with ⟨r, s'⟩
  rw [hcall] at hnew
  cases hnew
  constructor
  · have hcall' : noisyItems rng confluenceWeights (scale.mul (.finite confluenceWeights.perKey)) entries s =
        (.ok new, s') := hcall
    have htarget : confluenceWeights.targetSum = some 100 := rfl
    simp only [perturb, confluenceSpec, perturbDict, hitems, hcall', hdrawn, htarget, hkeys]
    cases renormalise 100 (new.map Prod.snd) <;> rfl
  · have hlength := congrArg List.length hkeys
    rw [List.length_map, List.length_map] at hlength
    rw [hdrawn, List.length_map, hlength]

theorem Weighted.checkWeights_iff (h : Weighted values entries) {ys : List Yaml} (hys : numbers ys = .ok xs)
    (hlength : ys.length = entries.length) :
    checkWeights (underKeys entries ys) = .ok () ↔ nearHundred (PyFloat.total xs) = true := by
  have hfst : ((entries.map Prod.fst).zip ys).map Prod.fst = entries.map Prod.fst :=
    List.map_fst_zip (by simp [hlength])
  have hsnd : ((entries.map Prod.fst).zip ys).map Prod.snd = ys := List.map_snd_zip (by simp [hlength])
  rw [checkWeights_eq_ok]
  constructor
  · rintro ⟨entries', xs', heq, hxs', hnear, -⟩
    cases heq
    rw [hsnd, hys] at hxs'
    cases hxs'
    exact hnear
  · intro hnear
    exact ⟨_, xs, rfl, by rw [hsnd, hys], hnear, by rw [hfst]; exact h.holdsAll⟩

theorem numbers_floats : numbers (ws.map float) = .ok (ws.map .finite) := by
  rw [numbers_eq_ok]
  simp [Function.comp_def, float, number?]

theorem numbers_ints : numbers (ns.map .int) = .ok ((ns.map fun n : ℤ => (n : ℚ)).map .finite) := by
  rw [numbers_eq_ok]
  simp [Function.comp_def, number?]

theorem renormalise_of_ne (h : ws.sum ≠ 0) : renormalise 100 ws =
    ((shares 100 ws).mapM roundInt).map fun ns => (addLast (100 - ns.sum) ns).map .int := by
  rw [renormalise, if_neg h]
  cases (shares 100 ws).mapM roundInt <;> rfl

theorem cast_sum (ns : List ℤ) : ((ns.sum : ℤ) : ℚ) = (ns.map fun n : ℤ => (n : ℚ)).sum :=
  map_list_sum (Int.castAddHom ℚ) ns

theorem length_addLast {d : ℤ} : (addLast d ns).length = ns.length := by
  induction ns with
  | nil => rfl
  | cons n ns ih =>
      cases ns with
      | nil => rfl
      | cons m ns =>
          rw [addLast, List.length_cons, ih]
          rfl

/-- Rounded shares make weights that pass. -/
theorem Weighted.rounded (h : Weighted values entries) (hne : ws.sum ≠ 0) (hlength : ws.length = entries.length)
    (hround : (shares 100 ws).mapM roundInt = .ok ns) :
    checkWeights (underKeys entries ((addLast (100 - ns.sum) ns).map .int)) = .ok () ∧ ns ≠ [] ∧
      ns.length = entries.length := by
  obtain ⟨qs, hqs, rfl⟩ := roundAll_ok.mp hround
  have hns : (qs.map Rounding.halfEven).length = ws.length := by
    have := congrArg List.length hqs
    simpa [shares] using this.symm
  have hnil : qs.map Rounding.halfEven ≠ [] := by
    intro hnil
    rw [hnil, List.length_nil, eq_comm, List.length_eq_zero_iff] at hns
    rw [hns] at hne
    exact hne rfl
  refine ⟨?_, hnil, hns.trans hlength⟩
  rw [h.checkWeights_iff numbers_ints (by rw [List.length_map, length_addLast, hns, hlength]), PyFloat.total_finite]
  have hsum : ((addLast (100 - (qs.map Rounding.halfEven).sum) (qs.map Rounding.halfEven)).map
      fun n : ℤ => (n : ℚ)).sum = 100 := by
    rw [← cast_sum, sum_addLast hnil]
    rfl
  rw [hsum]
  norm_num [nearHundred]

theorem balanced_ints (hlength : ns.length = entries.length) : Balanced (underKeys entries (ns.map .int)) ↔
    ns.sum = 100 ∧ ∀ n ∈ ns, 0 ≤ n ∧ n ≤ 100 := by
  have hsnd : ((entries.map Prod.fst).zip (ns.map Yaml.int)).map Prod.snd = ns.map Yaml.int :=
    List.map_snd_zip (by simp [hlength])
  have hweighs {ws : List ℚ} : Weighs (underKeys entries (ns.map .int)) ws ↔ ws = ns.map fun n : ℤ => (n : ℚ) := by
    rw [underKeys, weighs_iff, hsnd, numbers_ints, Except.ok.injEq]
    constructor
    · intro heq
      exact (List.map_injective_iff.mpr (fun a b hab => by cases hab; rfl) heq).symm
    · rintro rfl
      rfl
  unfold Balanced
  simp only [hweighs, exists_eq_left, List.forall_mem_map, ← cast_sum]
  norm_cast

/-- An attempt is rejected exactly when its weights are skipped. -/
theorem Weighted.rejected_iff (h : Weighted values entries) :
    Rejected rng confluenceSpec values scale s ↔ Skipped (drawnWeights rng values scale s) := by
  obtain ⟨hperturb, hlength⟩ := h.perturb_eq rng scale s
  have hfield : confluenceSpec.name = "confluence_weights" := rfl
  unfold Rejected Skipped
  rw [hperturb, hfield]
  by_cases hsum : (drawnWeights rng values scale s).sum = 0
  · refine iff_of_true (Or.inr ⟨underKeys entries ((drawnWeights rng values scale s).map float), ?_, ?_⟩) (Or.inl hsum)
    · rw [renormalise, if_pos hsum]
      rfl
    · rw [ne_eq, postInit_setWeights h.valid, h.checkWeights_iff numbers_floats (by simp [hlength]),
        PyFloat.total_finite, hsum]
      norm_num [nearHundred]
  · rw [or_iff_right hsum, ← roundAll_nan, renormalise_of_ne hsum]
    cases hround : (shares 100 (drawnWeights rng values scale s)).mapM roundInt with
    | error e => simp [Except.map]
    | ok ns =>
        have hpasses := (h.rounded hsum hlength hround).1
        simp only [Except.map, reduceCtorEq, false_and, exists_false, false_or, Except.ok.injEq, Option.some.injEq,
          exists_eq_left', iff_false, not_not, ne_eq]
        exact (postInit_setWeights h.valid).mpr hpasses

/-- An attempt that is not rejected gives balanced weights exactly when the drawn ones are fair. -/
theorem Weighted.balanced_iff (h : Weighted values entries) (hskipped : ¬ Skipped (drawnWeights rng values scale s)) :
    (∃ new, (applyOneMutation rng confluenceSpec values scale s).1 = .ok new ∧
      Balanced (fieldOf new "confluence_weights")) ↔ Fair (drawnWeights rng values scale s) := by
  obtain ⟨hperturb, hlength⟩ := h.perturb_eq rng scale s
  have hsum : (drawnWeights rng values scale s).sum ≠ 0 := fun hsum => hskipped (Or.inl hsum)
  rw [renormalise_of_ne hsum] at hperturb
  unfold Fair
  rcases hdraw : perturb rng confluenceSpec.kind (fieldOf values confluenceSpec.name) scale s with ⟨r, s'⟩
  rw [hdraw] at hperturb
  simp only [applyOneMutation, hdraw]
  cases hround : (shares 100 (drawnWeights rng values scale s)).mapM roundInt with
  | error e =>
      rw [hround] at hperturb
      cases hperturb
      constructor
      · rintro ⟨new, hnew, -⟩
        cases hnew
      · rintro ⟨-, qs, hqs, -⟩
        rw [roundAll_ok.mpr ⟨qs, hqs, rfl⟩] at hround
        cases hround
  | ok ns =>
      obtain ⟨hpasses, hnil, hns⟩ := h.rounded hsum hlength hround
      rw [hround] at hperturb
      cases hperturb
      have hcheck := (postInit_setWeights h.valid).mpr hpasses
      obtain ⟨qs, hqs, rfl⟩ := roundAll_ok.mp hround
      have hreplace : replaceField values confluenceSpec.name
          (underKeys entries ((addLast (100 - (qs.map Rounding.halfEven).sum) (qs.map Rounding.halfEven)).map .int)) =
            .ok (setField values "confluence_weights" (underKeys entries
              ((addLast (100 - (qs.map Rounding.halfEven).sum) (qs.map Rounding.halfEven)).map .int))) := by
        unfold replaceField
        exact (by rw [show confluenceSpec.name = "confluence_weights" from rfl, hcheck])
      simp only [bind, Except.bind, hreplace, Except.ok.injEq, exists_eq_left']
      rw [fieldOf_setField_self h.valid.length_eq (by decide), balanced_ints (by rw [length_addLast, hns]),
        addLast_bounds hnil, ← List.map_dropLast]
      constructor
      · rintro ⟨-, hnonneg, hle⟩
        refine ⟨hsum, qs, hqs, fun q hq => ?_, hle⟩
        exact halfEven_nonneg.mp (hnonneg _ (List.mem_map_of_mem hq))
      · rintro ⟨-, qs', hqs', hnonneg, hle⟩
        obtain rfl : qs' = qs := List.map_injective_iff.mpr (fun a b hab => by cases hab; rfl) (hqs'.symm.trans hqs)
        refine ⟨sum_addLast hnil, ?_, hle⟩
        intro n hn
        obtain ⟨q, hq, rfl⟩ := List.mem_map.mp hn
        exact halfEven_nonneg.mpr (hnonneg q hq)

theorem Fair.not_skipped (h : Fair ws) : ¬ Skipped ws := by
  obtain ⟨hsum, qs, hqs, -⟩ := h
  rintro (hzero | hfails)
  · exact hsum hzero
  · rw [hqs] at hfails
    exact not_firstFails_finite (fun q hq => by cases hq) hfails

end CryptoAggHarmonic.Loop
