import CryptoAggHarmonic.Loop.Lemmas.Constraints

/-!
# What a mutation can do

The value a mutation draws, how one fails, and what comes out of the attempts.
-/

namespace CryptoAggHarmonic.Loop

open PyOs (Text)

variable {values : List Value} {v cur : Value} {σ : Type} {rng : Rng σ} {s : σ} {scale sigma : PyFloat} {kind : Mutator}
  {p : PerKey} {entries : List (Yaml × Yaml)} {new : List (Yaml × ℚ)}

/-! ## Drawing a value -/

theorem clip_bounds {x : PyFloat} {lo hi : ℚ} (h : lo ≤ hi) : lo ≤ clip x lo hi ∧ clip x lo hi ≤ hi := by
  unfold clip
  split <;> simp [h]

/-- An integer that is no float. -/
def Huge : Value → Prop
  | .plain (.int n) => PyFloat.limit ≤ |(n : ℚ)|
  | _ => False

/-- The first of the elements that is not good is bad. -/
def FirstFails {α : Type} (good bad : α → Prop) : List α → Prop
  | [] => False
  | x :: xs => bad x ∨ good x ∧ FirstFails good bad xs

/-- A value that an operation with a float takes. -/
def Fits (v : Value) : Prop := ∃ x, asFloat v = .ok x

theorem asFloat_overflow : asFloat v = .error .overflowError ↔ Huge v := by
  unfold asFloat Huge
  split
  · split_ifs with h
    · simpa using h
    · simpa using h
  · cases number? v <;> simp_all

theorem asFloat_error {e : MutationError} (h : asFloat v = .error e) : e = .overflowError ∨ e.caught = true := by
  unfold asFloat at h
  split at h
  · split_ifs at h
    cases h
    exact Or.inl rfl
  · cases hnumber : number? v with
    | none =>
        rw [hnumber] at h
        cases h
        exact Or.inr rfl
    | some x =>
        rw [hnumber] at h
        cases h

theorem roundInt_overflow {x : PyFloat} : roundInt x = .error .overflowError ↔ x.isInf = true := by
  cases x <;> simp [roundInt, PyFloat.isInf]

theorem roundInt_error {x : PyFloat} {e : MutationError} (h : roundInt x = .error e) :
    e = .overflowError ∨ e.caught = true := by
  cases x <;> cases h <;> simp [MutationError.caught]

theorem roundAll_overflow {xs : List PyFloat} : xs.mapM roundInt = .error .overflowError ↔
    FirstFails (fun x => ∃ q, x = .finite q) (fun x => x.isInf = true) xs := by
  induction xs with
  | nil => simp [FirstFails, pure, Except.pure]
  | cons x xs ih =>
      rw [List.mapM_cons, FirstFails, ← ih]
      cases x <;> simp [roundInt, PyFloat.isInf, bind, Except.bind]
      cases xs.mapM roundInt <;> simp [pure, Except.pure]

theorem roundAll_error {xs : List PyFloat} {e : MutationError} (h : xs.mapM roundInt = .error e) :
    e = .overflowError ∨ e.caught = true := by
  induction xs with
  | nil => cases h
  | cons x xs ih =>
      rw [List.mapM_cons] at h
      cases hx : roundInt x with
      | error e' =>
          rw [hx] at h
          cases h
          exact roundInt_error hx
      | ok n =>
          cases hxs : xs.mapM roundInt with
          | error e' =>
              rw [hx, hxs] at h
              cases h
              exact ih hxs
          | ok ns =>
              rw [hx, hxs] at h
              cases h

/-- The value of an item. -/
def itemValue (entry : Yaml × Yaml) : Value := .plain entry.2

theorem noisyItems_overflow : (noisyItems rng p sigma entries s).1 = .error .overflowError ↔
    FirstFails (fun entry => Fits (itemValue entry)) (fun entry => Huge (itemValue entry)) entries := by
  induction entries generalizing s with
  | nil => simp [noisyItems, FirstFails]
  | cons entry entries ih =>
      obtain ⟨key, w⟩ := entry
      have hhuge : asFloat (.plain w) = .error .overflowError ↔ Huge (itemValue (key, w)) := asFloat_overflow
      have hrest := ih (s := (rng.gauss sigma s).2)
      rw [noisyItems, FirstFails, ← hhuge, Fits]
      cases hw : asFloat (.plain w) with
      | error e => simp [itemValue, hw]
      | ok x =>
          rcases hcall : noisyItems rng p sigma entries (rng.gauss sigma s).2 with ⟨r, s'⟩
          rw [hcall] at hrest
          cases r <;> simp_all [itemValue]

theorem noisyItems_error {e : MutationError} (h : (noisyItems rng p sigma entries s).1 = .error e) :
    e = .overflowError ∨ e.caught = true := by
  induction entries generalizing s with
  | nil => cases h
  | cons entry entries ih =>
      obtain ⟨key, w⟩ := entry
      rw [noisyItems] at h
      cases hw : asFloat (.plain w) with
      | error e' =>
          simp only [hw, Except.error.injEq] at h
          rw [← h]
          exact asFloat_error hw
      | ok x =>
          rcases hcall : noisyItems rng p sigma entries (rng.gauss sigma s).2 with ⟨r, s'⟩
          cases r with
          | error e' =>
              simp only [hw, hcall, Except.error.injEq] at h
              subst h
              exact ih (s := (rng.gauss sigma s).2) (by rw [hcall])
          | ok rest =>
              simp only [hw, hcall] at h
              cases h

theorem noisyItems_ok (hp : ∀ key, (p.bounds key).1 ≤ (p.bounds key).2)
    (h : (noisyItems rng p sigma entries s).1 = .ok new) : new.map Prod.fst = entries.map Prod.fst ∧
      ∀ entry ∈ new, (p.bounds entry.1).1 ≤ entry.2 ∧ entry.2 ≤ (p.bounds entry.1).2 := by
  induction entries generalizing s new with
  | nil =>
      cases h
      simp
  | cons entry entries ih =>
      obtain ⟨key, w⟩ := entry
      rw [noisyItems] at h
      cases hw : asFloat (.plain w) with
      | error e =>
          simp only [hw] at h
          cases h
      | ok x =>
          rcases hcall : noisyItems rng p sigma entries (rng.gauss sigma s).2 with ⟨r, s'⟩
          cases r with
          | error e =>
              simp only [hw, hcall] at h
              cases h
          | ok rest =>
              simp only [hw, hcall, Except.ok.injEq] at h
              subst h
              have hrest : (noisyItems rng p sigma entries (rng.gauss sigma s).2).1 = .ok rest := by rw [hcall]
              obtain ⟨hkeys, hbounds⟩ := ih hrest
              simp only [List.map_cons, hkeys, List.forall_mem_cons, true_and]
              exact ⟨clip_bounds (hp key), hbounds⟩

/-- A float that is finite. -/
def IsFinite (x : PyFloat) : Prop := ∃ q, x = .finite q

/-- The weights are brought to the sum by a factor, or rounded, and a number on the way is infinite. -/
def SharesOverflow (target : ℤ) (weights : List ℚ) : Prop :=
  weights.sum ≠ 0 ∧ FirstFails IsFinite (fun x => x.isInf = true) (shares target weights)

theorem renormalise_overflow {target : ℤ} {weights : List ℚ} :
    renormalise target weights = .error .overflowError ↔ SharesOverflow target weights := by
  unfold renormalise SharesOverflow IsFinite
  rw [← roundAll_overflow]
  by_cases hsum : weights.sum = 0
  · simp [hsum]
  · rw [if_neg hsum]
    cases (shares target weights).mapM roundInt <;> simp [hsum, bind, Except.bind, pure, Except.pure]

theorem renormalise_error {target : ℤ} {weights : List ℚ} {e : MutationError}
    (h : renormalise target weights = .error e) : e = .overflowError ∨ e.caught = true := by
  unfold renormalise at h
  split_ifs at h
  cases hround : (shares target weights).mapM roundInt with
  | error e' =>
      rw [hround] at h
      cases h
      exact roundAll_error hround
  | ok ns =>
      rw [hround] at h
      cases h

/-- A drawn number of an integer field is infinite, or its value is no float. -/
def IntOverflows (rng : Rng σ) (sigma : ℚ) (cur : Value) (scale : PyFloat) (s : σ) : Prop :=
  Huge cur ∨ ∃ x, asFloat cur = .ok x ∧ (x.add (rng.gauss (scale.mul (.finite sigma)) s).1).isInf = true

/-- What the attempt from a state converts or rounds is too large. -/
def Overflows (rng : Rng σ) (kind : Mutator) (cur : Value) (scale : PyFloat) (s : σ) : Prop :=
  match kind with
  | .absSmall _ _ => Huge cur
  | .relLarge _ _ => Huge cur
  | .intWindow _ _ => IntOverflows rng 5 cur scale s
  | .intThreshold _ _ => IntOverflows rng 3 cur scale s
  | .dictPerKey p => ∃ entries, cur = .plain (.map entries) ∧
      (FirstFails (fun entry => Fits (itemValue entry)) (fun entry => Huge (itemValue entry)) entries ∨
        ∃ target new, p.targetSum = some target ∧
          (noisyItems rng p (scale.mul (.finite p.perKey)) entries s).1 = .ok new ∧
            SharesOverflow target (new.map Prod.snd))
  | .enum _ => False

theorem perturbInt_overflow {sigma : ℚ} {lo hi : ℤ} :
    (perturbInt rng sigma lo hi cur scale s).1 = .error .overflowError ↔ IntOverflows rng sigma cur scale s := by
  simp only [perturbInt, IntOverflows, ← asFloat_overflow, ← roundInt_overflow]
  cases asFloat cur with
  | error e => simp [bind, Except.bind]
  | ok x =>
      simp only [bind, Except.bind, reduceCtorEq, false_or, Except.ok.injEq, exists_eq_left']
      cases roundInt (x.add (rng.gauss (scale.mul (.finite sigma)) s).1) <;> simp [pure, Except.pure]

theorem perturbInt_error {sigma : ℚ} {lo hi : ℤ} {e : MutationError}
    (h : (perturbInt rng sigma lo hi cur scale s).1 = .error e) : e = .overflowError ∨ e.caught = true := by
  simp only [perturbInt] at h
  cases hcur : asFloat cur with
  | error e' =>
      rw [hcur] at h
      cases h
      exact asFloat_error hcur
  | ok x =>
      cases hround : roundInt (x.add (rng.gauss (scale.mul (.finite sigma)) s).1) with
      | error e' =>
          simp only [hcur, hround, bind, Except.bind, Except.error.injEq] at h
          subst h
          exact roundInt_error hround
      | ok n =>
          simp only [hcur, hround, bind, Except.bind] at h
          cases h

theorem perturbDict_overflow : (perturbDict rng p cur scale s).1 = .error .overflowError ↔
    Overflows rng (.dictPerKey p) cur scale s := by
  unfold perturbDict Overflows
  cases hitems : items cur with
  | error e =>
      simp only [Except.error.injEq, reduceCtorEq, false_iff, not_exists, not_and]
      intro entries hcur
      rw [items_eq_ok.mpr hcur] at hitems
      cases hitems
  | ok entries =>
      obtain rfl := items_eq_ok.mp hitems
      simp only [Value.plain.injEq, Yaml.map.injEq, exists_eq_left']
      have hoverflow : (noisyItems rng p (scale.mul (.finite p.perKey)) entries s).1 = .error .overflowError ↔
          FirstFails (fun entry => Fits (itemValue entry)) (fun entry => Huge (itemValue entry)) entries :=
        noisyItems_overflow
      rw [← hoverflow]
      rcases hcall : noisyItems rng p (scale.mul (.finite p.perKey)) entries s with ⟨r, s'⟩
      cases r with
      | error e => simp
      | ok new =>
          simp only [Except.ok.injEq, reduceCtorEq, false_or]
          cases htarget : p.targetSum with
          | none => simp [Except.map]
          | some target =>
              constructor
              · intro h
                refine ⟨target, new, rfl, rfl, renormalise_overflow.mp ?_⟩
                cases hvalues : renormalise target (new.map Prod.snd) with
                | error e =>
                    simp only [hvalues, Except.map, Except.error.injEq] at h
                    rw [h]
                | ok values =>
                    simp only [hvalues, Except.map] at h
                    cases h
              · rintro ⟨_, _, heq, rfl, h⟩
                cases heq
                simp only [renormalise_overflow.mpr h, Except.map]

theorem perturbDict_error {e : MutationError} (hcur : IsMapping cur)
    (h : (perturbDict rng p cur scale s).1 = .error e) : e = .overflowError ∨ e.caught = true := by
  obtain ⟨entries, rfl⟩ := hcur
  simp only [perturbDict, items] at h
  rcases hcall : noisyItems rng p (scale.mul (.finite p.perKey)) entries s with ⟨r, s'⟩
  cases r with
  | error e' =>
      simp only [hcall, Except.error.injEq] at h
      subst h
      exact noisyItems_error (by rw [hcall])
  | ok new =>
      simp only [hcall] at h
      cases htarget : p.targetSum with
      | none =>
          simp only [htarget, Except.map] at h
          cases h
      | some target =>
          cases hvalues : renormalise target (new.map Prod.snd) with
          | error e' =>
              simp only [htarget, hvalues, Except.map, Except.error.injEq] at h
              subst h
              exact renormalise_error hvalues
          | ok values =>
              simp only [htarget, hvalues, Except.map] at h
              cases h

theorem perturb_overflow :
    (perturb rng kind cur scale s).1 = .error .overflowError ↔ Overflows rng kind cur scale s := by
  have hmap {α β : Type} {x : Except MutationError α} {f : α → β} :
      x.map f = .error .overflowError ↔ x = .error .overflowError := by
    cases x <;> simp [Except.map]
  cases kind with
  | absSmall lo hi => simp only [perturb, perturbAbs, hmap, asFloat_overflow, Overflows]
  | relLarge lo hi => simp only [perturb, perturbRel, hmap, asFloat_overflow, Overflows]
  | intWindow lo hi => simp only [perturb, hmap, perturbInt_overflow, Overflows]
  | intThreshold lo hi => simp only [perturb, hmap, perturbInt_overflow, Overflows]
  | dictPerKey p => simp only [perturb, hmap, perturbDict_overflow]
  | enum allowed =>
      simp only [perturb, perturbEnum, Overflows, iff_false]
      split
      · split_ifs <;> simp
      · simp

/-! ## What comes out -/

/-- The value is within the bounds of the field: a number, or every item of a dict that is not brought to a sum. -/
def Mutator.Within : Mutator → Value → Prop
  | .absSmall lo hi, v => ∃ q, v = .plain (float q) ∧ lo ≤ q ∧ q ≤ hi
  | .relLarge lo hi, v => ∃ q, v = .plain (float q) ∧ lo ≤ q ∧ q ≤ hi
  | .intWindow lo hi, v => ∃ n, v = .plain (.int n) ∧ lo ≤ n ∧ n ≤ hi
  | .intThreshold lo hi, v => ∃ n, v = .plain (.int n) ∧ lo ≤ n ∧ n ≤ hi
  | .dictPerKey p, v => ∃ entries, v = .plain (.map entries) ∧ (p.targetSum = none →
      ∀ entry ∈ entries, ∃ q, entry.2 = float q ∧ (p.bounds entry.1).1 ≤ q ∧ q ≤ (p.bounds entry.1).2)
  | .enum allowed, v => ∃ text ∈ allowed, v = .plain (.str text)

/-- No lower bound is above the upper one. -/
def Mutator.Ordered : Mutator → Prop
  | .absSmall lo hi => lo ≤ hi
  | .relLarge lo hi => lo ≤ hi
  | .intWindow lo hi => lo ≤ hi
  | .intThreshold lo hi => lo ≤ hi
  | .dictPerKey p => p.min ≤ p.max ∧ ∀ bounds ∈ p.keysBounds, bounds.2.1 ≤ bounds.2.2
  | .enum _ => True

instance : DecidablePred Mutator.Ordered := fun kind => by
  cases kind <;> unfold Mutator.Ordered <;> infer_instance

theorem bounds_ordered (h : (Mutator.dictPerKey p).Ordered) (key : Yaml) : (p.bounds key).1 ≤ (p.bounds key).2 := by
  cases key with
  | str key =>
      rw [PerKey.bounds]
      cases hlookup : p.keysBounds.lookup (String.ofList key) with
      | none => exact h.1
      | some bounds =>
          obtain ⟨before, after, heq, -⟩ := List.lookup_eq_some_iff.mp hlookup
          exact h.2 (String.ofList key, bounds) (by rw [heq]; simp)
  | _ => exact h.1

theorem perturbInt_ok {sigma : ℚ} {lo hi : ℤ} (h : lo ≤ hi)
    (hcall : (perturbInt rng sigma lo hi cur scale s).1 = .ok v) : ∃ n, v = .plain (.int n) ∧ lo ≤ n ∧ n ≤ hi := by
  simp only [perturbInt] at hcall
  cases hcur : asFloat cur with
  | error e =>
      rw [hcur] at hcall
      cases hcall
  | ok x =>
      cases hround : roundInt (x.add (rng.gauss (scale.mul (.finite sigma)) s).1) with
      | error e =>
          simp only [hcur, hround, bind, Except.bind] at hcall
          cases hcall
      | ok n =>
          simp only [hcur, hround, bind, Except.bind] at hcall
          cases hcall
          exact ⟨_, rfl, le_max_left _ _, max_le h (min_le_left _ _)⟩

theorem perturbDict_ok (h : (Mutator.dictPerKey p).Ordered) (hcall : (perturbDict rng p cur scale s).1 = .ok v) :
    (Mutator.dictPerKey p).Within v := by
  simp only [perturbDict] at hcall
  cases hitems : items cur with
  | error e =>
      simp only [hitems] at hcall
      cases hcall
  | ok entries =>
      rcases hnoisy : noisyItems rng p (scale.mul (.finite p.perKey)) entries s with ⟨r, s'⟩
      cases r with
      | error e =>
          simp only [hitems, hnoisy] at hcall
          cases hcall
      | ok new =>
          obtain ⟨-, hbounds⟩ := noisyItems_ok (bounds_ordered h) (by rw [hnoisy] :
            (noisyItems rng p (scale.mul (.finite p.perKey)) entries s).1 = .ok new)
          cases htarget : p.targetSum with
          | none =>
              simp only [hitems, hnoisy, htarget, Except.map, Except.ok.injEq] at hcall
              refine ⟨_, hcall.symm, fun _ entry hentry => ?_⟩
              rw [List.zip_map_right, List.zip_map', List.map_map] at hentry
              obtain ⟨row, hrow, rfl⟩ := List.mem_map.mp hentry
              exact ⟨row.2, rfl, hbounds row hrow⟩
          | some target =>
              cases hvalues : renormalise target (new.map Prod.snd) with
              | error e =>
                  simp only [hitems, hnoisy, htarget, hvalues, Except.map] at hcall
                  cases hcall
              | ok values =>
                  simp only [hitems, hnoisy, htarget, hvalues, Except.map, Except.ok.injEq] at hcall
                  exact ⟨_, hcall.symm, fun hnone => by rw [htarget] at hnone; cases hnone⟩

theorem perturb_ok (h : kind.Ordered) (hcall : (perturb rng kind cur scale s).1 = .ok (some v)) : kind.Within v := by
  have hmap {α : Type} {x : Except MutationError α} {f : α → Value} {w : Value}
      (hx : (x.map f).map some = .ok (some w)) : ∃ a, x = .ok a ∧ f a = w := by
    cases x with
    | error e => cases hx
    | ok a =>
        cases hx
        exact ⟨a, rfl, rfl⟩
  have hsome {x : Except MutationError Value} (hx : x.map some = .ok (some v)) : x = .ok v := by
    cases x with
    | error e => cases hx
    | ok a =>
        cases hx
        rfl
  cases kind with
  | absSmall lo hi =>
      obtain ⟨x, -, rfl⟩ := hmap hcall
      exact ⟨_, rfl, clip_bounds h⟩
  | relLarge lo hi =>
      obtain ⟨x, -, rfl⟩ := hmap hcall
      exact ⟨_, rfl, clip_bounds h⟩
  | intWindow lo hi => exact perturbInt_ok h (hsome hcall)
  | intThreshold lo hi => exact perturbInt_ok h (hsome hcall)
  | dictPerKey p => exact perturbDict_ok h (hsome hcall)
  | enum allowed =>
      simp only [perturb, perturbEnum] at hcall
      split at hcall
      · split_ifs at hcall
        · simp only [Except.ok.injEq, Option.map_eq_some_iff] at hcall
          obtain ⟨text, htext, rfl⟩ := hcall
          exact ⟨text, (List.mem_filter.mp (List.mem_of_getElem? htext)).1, rfl⟩
        · cases hcall
        · cases hcall
      · cases hcall

/-! ## One field -/

/-- A tuning that `__post_init__` lets pass, as the values of its fields. -/
structure Valid (values : List Value) : Prop where
  length_eq : values.length = fields.length
  checked : postInit values = .ok ()

/-- A tuning like the one before but for the field, which is within its bounds. -/
structure Confined (spec : FieldSpec) (values new : List Value) : Prop where
  valid : Valid new
  others : ∀ name, name ≠ spec.name → fieldOf new name = fieldOf values name
  within : spec.kind.Within (fieldOf new spec.name)

/-- The entry of a field in a map of clusters, as its kind requires it. -/
def FieldSpec.Fine (spec : FieldSpec) : Prop :=
  spec.name ∈ fieldNames ∧ spec.kind.Ordered ∧
    match spec.kind with
    | .dictPerKey _ => spec.name ∈ mappingFields
    | .enum _ => False
    | _ => spec.name ∉ mappingFields

instance : DecidablePred FieldSpec.Fine := fun spec => by
  unfold FieldSpec.Fine
  cases spec.kind <;> infer_instance

/-- The fields of all clusters. -/
def allSpecs : List FieldSpec := defaultClusterMap.flatMap Prod.snd

theorem fine_of_mem {spec : FieldSpec} (h : spec ∈ allSpecs) : spec.Fine := by
  have hall : ∀ spec ∈ allSpecs, spec.Fine := by decide +kernel
  exact hall spec h

variable {spec : FieldSpec}

theorem perturb_error {e : MutationError} (hfine : spec.Fine) (hvalid : Valid values)
    (h : (perturb rng spec.kind (fieldOf values spec.name) scale s).1 = .error e) :
    e = .overflowError ∨ e.caught = true := by
  have hmap {α β : Type} {x : Except MutationError α} {f : α → β} (hx : x.map f = .error e) : x = .error e := by
    cases x with
    | error e' =>
        cases hx
        rfl
    | ok a => cases hx
  obtain ⟨-, -, hkind⟩ := hfine
  cases hspec : spec.kind with
  | absSmall lo hi =>
      rw [hspec] at h
      exact asFloat_error (hmap (hmap h))
  | relLarge lo hi =>
      rw [hspec] at h
      exact asFloat_error (hmap (hmap h))
  | intWindow lo hi =>
      rw [hspec] at h
      exact perturbInt_error (hmap h)
  | intThreshold lo hi =>
      rw [hspec] at h
      exact perturbInt_error (hmap h)
  | dictPerKey p =>
      rw [hspec] at h hkind
      exact perturbDict_error (isMapping_of_postInit hvalid.checked _ hkind) (hmap h)
  | enum allowed =>
      rw [hspec] at hkind
      exact hkind.elim

/-- The mappings stay mappings. -/
theorem isMapping_setField (hfine : spec.Fine) (hvalid : Valid values) (hv : spec.kind.Within v) :
    ∀ name ∈ mappingFields, IsMapping (fieldOf (setField values spec.name v) name) := by
  intro name hname
  by_cases heq : name = spec.name
  · subst heq
    rw [fieldOf_setField_self hvalid.length_eq hfine.1]
    obtain ⟨-, -, hkind⟩ := hfine
    cases hspec : spec.kind with
    | dictPerKey p =>
        rw [hspec] at hv
        obtain ⟨entries, hv, -⟩ := hv
        exact ⟨entries, hv⟩
    | enum allowed =>
        rw [hspec] at hkind
        exact hkind.elim
    | _ =>
        rw [hspec] at hkind
        exact absurd hname hkind
  · rw [fieldOf_setField_ne heq]
    exact isMapping_of_postInit hvalid.checked name hname

theorem replaceField_error {e : MutationError} (hfine : spec.Fine) (hvalid : Valid values) (hv : spec.kind.Within v)
    (h : replaceField values spec.name v = .error e) : e.caught = true := by
  unfold replaceField at h
  cases hcheck : postInit (setField values spec.name v) with
  | ok u =>
      rw [hcheck] at h
      cases h
  | error e' =>
      rw [hcheck] at h
      cases h
      cases e' with
      | attributeError => exact absurd hcheck (postInit_ne_attribute (isMapping_setField hfine hvalid hv))
      | _ => rfl

/-- The attempt from a state fails with a NaN, or makes a tuning that `__post_init__` rejects. -/
def Rejected (rng : Rng σ) (spec : FieldSpec) (values : List Value) (scale : PyFloat) (s : σ) : Prop :=
  (∃ e, (perturb rng spec.kind (fieldOf values spec.name) scale s).1 = .error e ∧ e.caught = true) ∨
    ∃ v, (perturb rng spec.kind (fieldOf values spec.name) scale s).1 = .ok (some v) ∧
      postInit (setField values spec.name v) ≠ .ok ()

/-- The state of the generator after the draws of an attempt. -/
def afterDraws (rng : Rng σ) (spec : FieldSpec) (values : List Value) (scale : PyFloat) (s : σ) : σ :=
  (perturb rng spec.kind (fieldOf values spec.name) scale s).2

theorem after_applyOneMutation :
    Retry.after (applyOneMutation rng spec values scale) = afterDraws rng spec values scale := rfl

theorem caught_iff_rejected (hfine : spec.Fine) (hvalid : Valid values) :
    Retry.Caught (applyOneMutation rng spec values scale) MutationError.caught s ↔
      Rejected rng spec values scale s := by
  unfold Retry.Caught Rejected applyOneMutation
  rcases hdraw : perturb rng spec.kind (fieldOf values spec.name) scale s with ⟨r, s'⟩
  cases r with
  | error e => simp [bind, Except.bind]
  | ok new =>
      cases new with
      | none => simp [bind, Except.bind, pure, Except.pure]
      | some v =>
          have hv : spec.kind.Within v := perturb_ok hfine.2.1 (by rw [hdraw])
          simp only [bind, Except.bind, reduceCtorEq, false_and, exists_false, false_or, Except.ok.injEq,
            Option.some.injEq, exists_eq_left']
          constructor
          · rintro ⟨e, he, -⟩ hcheck
            simp [replaceField, hcheck] at he
          · intro hcheck
            cases hreplace : replaceField values spec.name v with
            | error e => exact ⟨e, rfl, replaceField_error hfine hvalid hv hreplace⟩
            | ok new =>
                unfold replaceField at hreplace
                split at hreplace
                · exact absurd ‹_› hcheck
                · cases hreplace

/-- An attempt that overflows is not made again. -/
theorem not_caught_of_overflows (h : Overflows rng spec.kind (fieldOf values spec.name) scale s) :
    (applyOneMutation rng spec values scale s).1 = .error .overflowError ∧
      ¬ Retry.Caught (applyOneMutation rng spec values scale) MutationError.caught s := by
  have hcall : (applyOneMutation rng spec values scale s).1 = .error .overflowError := by
    simp only [applyOneMutation, perturb_overflow.mpr h]
    rfl
  refine ⟨hcall, ?_⟩
  rintro ⟨e, he, hcaught⟩
  rw [hcall] at he
  cases he
  cases hcaught

/-- The attempt that is neither caught nor overflows gives the result. -/
theorem applyOneMutation_ok (hfine : spec.Fine) (hvalid : Valid values)
    (hcaught : ¬ Retry.Caught (applyOneMutation rng spec values scale) MutationError.caught s)
    (hoverflow : ¬ Overflows rng spec.kind (fieldOf values spec.name) scale s) :
    ∃ new, (applyOneMutation rng spec values scale s).1 = .ok new ∧ (new = values ∨ Confined spec values new) := by
  rw [caught_iff_rejected hfine hvalid] at hcaught
  rw [← perturb_overflow] at hoverflow
  rcases hdraw : perturb rng spec.kind (fieldOf values spec.name) scale s with ⟨r, s'⟩
  have hfst : (perturb rng spec.kind (fieldOf values spec.name) scale s).1 = r := by rw [hdraw]
  cases r with
  | error e =>
      rcases perturb_error hfine hvalid hfst with rfl | he
      · exact absurd hfst hoverflow
      · exact absurd (Or.inl ⟨e, hfst, he⟩) hcaught
  | ok new =>
      cases new with
      | none => exact ⟨values, by simp only [applyOneMutation, hdraw]; rfl, Or.inl rfl⟩
      | some v =>
          have hcheck : postInit (setField values spec.name v) = .ok () := by
            by_contra hcheck
            exact hcaught (Or.inr ⟨v, hfst, hcheck⟩)
          refine ⟨setField values spec.name v, ?_, Or.inr ⟨⟨length_setField hvalid.length_eq, hcheck⟩, ?_, ?_⟩⟩
          · simp only [applyOneMutation, hdraw, bind, Except.bind, replaceField, hcheck]
          · intro name hname
            exact fieldOf_setField_ne hname
          · rw [fieldOf_setField_self hvalid.length_eq hfine.1]
            exact perturb_ok hfine.2.1 hfst

/-- No attempt that is made overflows: those before it were all rejected. -/
def NoOverflow (rng : Rng σ) (spec : FieldSpec) (values : List Value) (scale : PyFloat) (s : σ) : Prop :=
  ∀ i ≤ spec.maxRetries, (∀ j < i, Rejected rng spec values scale ((afterDraws rng spec values scale)^[j] s)) →
    ¬ Overflows rng spec.kind (fieldOf values spec.name) scale ((afterDraws rng spec values scale)^[i] s)

theorem mutateField_iff (hfine : spec.Fine) (hvalid : Valid values) :
    (∃ new, (mutateField rng spec values scale s).1 = .ok new ∧ (new = values ∨ Confined spec values new)) ↔
      NoOverflow rng spec values scale s := by
  have hrejected {s : σ} : Retry.Caught (applyOneMutation rng spec values scale) MutationError.caught s ↔
      Rejected rng spec values scale s := caught_iff_rejected hfine hvalid
  have hdecides {i : ℕ}
      (hbefore : ∀ j < i, Rejected rng spec values scale ((afterDraws rng spec values scale)^[j] s))
      (hoverflow : Overflows rng spec.kind (fieldOf values spec.name) scale
        ((afterDraws rng spec values scale)^[i] s)) :
      Retry.Decides (applyOneMutation rng spec values scale) MutationError.caught s i :=
    ⟨fun j hj => hrejected.mpr (hbefore j hj), (not_caught_of_overflows hoverflow).2⟩
  constructor
  · rintro ⟨new, hnew, -⟩ i hi hbefore hoverflow
    rw [mutateField, (hdecides hbefore hoverflow).run_eq (Nat.lt_succ_of_le hi), after_applyOneMutation,
      (not_caught_of_overflows hoverflow).1] at hnew
    cases hnew
  · intro hno
    rcases Retry.exists_decides (spec.maxRetries + 1) s with ⟨i, hi, hdecides⟩ | hall
    · rw [mutateField, hdecides.run_eq hi]
      refine applyOneMutation_ok hfine hvalid hdecides.decided (hno i (Nat.le_of_lt_succ hi) fun j hj => ?_)
      exact hrejected.mp (hdecides.before j hj)
    · exact ⟨values, Retry.run_of_all_caught hall, Or.inl rfl⟩

theorem mutateField_ok {new : List Value} (hfine : spec.Fine) (hvalid : Valid values)
    (h : (mutateField rng spec values scale s).1 = .ok new) : new = values ∨ Confined spec values new := by
  rcases Retry.exists_decides (spec.maxRetries + 1) s with ⟨i, hi, hdecides⟩ | hall
  · rw [mutateField, hdecides.run_eq hi] at h
    obtain ⟨new', hnew, hconfined⟩ := applyOneMutation_ok hfine hvalid hdecides.decided fun hoverflow => by
      rw [(not_caught_of_overflows hoverflow).1] at h
      cases h
    rw [h] at hnew
    cases hnew
    exact hconfined
  · have hsame : (mutateField rng spec values scale s).1 = .ok values := Retry.run_of_all_caught hall
    rw [h] at hsame
    cases hsame
    exact Or.inl rfl

/-! ## Several fields -/

theorem mutateFields_ok {specs : List FieldSpec} {new : List Value} (hfine : ∀ spec ∈ specs, spec.Fine)
    (hvalid : Valid values) (h : (mutateFields rng scale specs values s).1 = .ok new) :
    Valid new ∧ ∀ name, name ∉ specs.map FieldSpec.name → fieldOf new name = fieldOf values name := by
  induction specs generalizing values s with
  | nil =>
      cases h
      exact ⟨hvalid, fun _ _ => rfl⟩
  | cons spec specs ih =>
      rw [mutateFields] at h
      rcases hcall : mutateField rng spec values scale s with ⟨r, s'⟩
      cases r with
      | error e =>
          rw [hcall] at h
          cases h
      | ok between =>
          rw [hcall] at h
          have hspec := mutateField_ok (hfine spec List.mem_cons_self) hvalid (by rw [hcall] :
            (mutateField rng spec values scale s).1 = .ok between)
          have hbetween : Valid between ∧ ∀ name, name ≠ spec.name → fieldOf between name = fieldOf values name := by
            rcases hspec with rfl | hconfined
            · exact ⟨hvalid, fun _ _ => rfl⟩
            · exact ⟨hconfined.valid, hconfined.others⟩
          obtain ⟨hnew, hothers⟩ := ih (fun spec hspec => hfine spec (List.mem_cons_of_mem _ hspec)) hbetween.1 h
          refine ⟨hnew, fun name hname => ?_⟩
          rw [List.map_cons, List.mem_cons, not_or] at hname
          rw [hothers name hname.2, hbetween.2 name hname.1]

theorem mem_allSpecs {cluster : String} (h : spec ∈ clusterSpecs cluster) : spec ∈ allSpecs := by
  unfold clusterSpecs at h
  cases hlookup : defaultClusterMap.lookup cluster with
  | none =>
      rw [hlookup] at h
      cases h
  | some specs =>
      rw [hlookup] at h
      obtain ⟨before, after, heq, -⟩ := List.lookup_eq_some_iff.mp hlookup
      exact List.mem_flatMap.mpr ⟨(cluster, specs), by rw [heq]; simp, h⟩

/-- What a mutation of a cluster returns differs in no more fields than asked for, all of the cluster. -/
theorem mutateCluster_ok {cluster : String} {nMutations : Option ℤ} {new : List Value} (hvalid : Valid values)
    (h : (mutateCluster rng values cluster scale nMutations s).1 = .ok new) :
    Valid new ∧ ∃ changed : List String, changed.length ≤ (nMutations.getD 1).toNat ∧
      changed ⊆ clusterFields cluster ∧ ∀ name, name ∉ changed → fieldOf new name = fieldOf values name := by
  simp only [mutateCluster] at h
  split_ifs at h with hempty hneg
  · cases h
    exact ⟨hvalid, [], by simp, by simp, fun _ _ => rfl⟩
  · set n := min (nMutations.getD 1) ((clusterSpecs cluster).length : ℤ) with hn
    set chosen := (rng.sample (clusterSpecs cluster).length n.toNat s).1 with hchosen
    have hmem : ∀ spec ∈ chosen.filterMap fun i => (clusterSpecs cluster)[i]?, spec ∈ clusterSpecs cluster := by
      intro spec hspec
      obtain ⟨i, -, hi⟩ := List.mem_filterMap.mp hspec
      exact List.mem_of_getElem? hi
    obtain ⟨hnew, hothers⟩ := mutateFields_ok (fun spec hspec => fine_of_mem (mem_allSpecs (hmem spec hspec))) hvalid h
    refine ⟨hnew, _, ?_, fun name hname => ?_, hothers⟩
    · have hlength : chosen.length = n.toNat := rng.length_sample _ _ _ (by omega)
      rw [List.length_map]
      exact (List.length_filterMap_le _ _).trans (by omega)
    · obtain ⟨spec, hspec, rfl⟩ := List.mem_map.mp hname
      exact List.mem_map_of_mem (hmem spec hspec)

end CryptoAggHarmonic.Loop
