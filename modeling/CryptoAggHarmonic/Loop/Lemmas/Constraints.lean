import CryptoAggHarmonic.Loop.Mutation

/-!
# The constraints of a tuning

Which fields `__post_init__` reads, and how it fails.
-/

namespace CryptoAggHarmonic.Loop

open PyOs (Text)

variable {values : List Value} {v : Value} {name : String} {e : TuningError} {entries : List (Yaml × Yaml)}

/-! ## The constraints -/

section

variable {α β : Type} {x : Except TuningError α} {f : α → Except TuningError β} {b : β}

theorem tuning_bind_eq_ok : (x >>= f) = .ok b ↔ ∃ a, x = .ok a ∧ f a = .ok b := by
  cases x <;> simp [bind, Except.bind]

theorem tuning_bind_eq_error : (x >>= f) = .error e ↔ x = .error e ∨ ∃ a, x = .ok a ∧ f a = .error e := by
  cases x <;> simp [bind, Except.bind]

end

theorem check_ne_attribute {b : Bool} {m : String} : check b m ≠ .error .attributeError := by
  cases b <;> simp [check]

theorem lt_ne_attribute {w : Value} : lt v w ≠ .error .attributeError := by
  unfold lt
  split
  · simp
  · split <;> simp

theorem checkPositive_ne_attribute : checkPositive v ≠ .error .attributeError := by
  simp [checkPositive, tuning_bind_eq_error, lt_ne_attribute, check_ne_attribute]

theorem elements_ne_attribute : elements v ≠ .error .attributeError := by
  cases v with
  | plain v => cases h : v.iter? <;> simp [elements, h]
  | _ => simp [elements]

theorem numbers_ne_attribute {xs : List Yaml} : numbers xs ≠ .error .attributeError := by
  induction xs with
  | nil => simp [numbers, pure, Except.pure]
  | cons x xs ih =>
      unfold numbers at ih ⊢
      rw [List.mapM_cons]
      cases h : number? (.plain x) with
      | none => simp [bind, Except.bind]
      | some y =>
          simp only [Option.map_some, Option.getD_some, ne_eq, tuning_bind_eq_error, not_or, not_exists, not_and]
          refine ⟨by simp, fun a _ => ⟨ih, fun b _ => ?_⟩⟩
          simp [pure, Except.pure]

theorem items_eq_ok : items v = .ok entries ↔ v = .plain (.map entries) := by
  unfold items
  split
  · simp
  · simp only [reduceCtorEq, false_iff]
    rintro rfl
    simp_all

/-- The constraints of a tuning, one for each group of fields. -/
theorem postInit_eq_ok : postInit values = .ok () ↔ checkOrders (fieldOf values) = .ok () ∧
    checkWeights (fieldOf values "confluence_weights") = .ok () ∧
    checkFamilies (fieldOf values "extended_patterns") = .ok () ∧
    checkBuffer (fieldOf values "atr_stop_buffer") = .ok () ∧
    checkKeys requiredHtfKeys "htf_rule missing intervals" (fieldOf values "htf_rule") = .ok () ∧
    checkKeys requiredPatternFamilies "pattern_base_score missing families" (fieldOf values "pattern_base_score") =
      .ok () ∧
    checkBands (fieldOf values) = .ok () ∧ checkWindows (fieldOf values) = .ok () := by
  simp [postInit, tuning_bind_eq_ok, Unique.exists_iff]

theorem checkWeights_eq_ok : checkWeights v = .ok () ↔ ∃ entries numbers', v = .plain (.map entries) ∧
    numbers (entries.map Prod.snd) = .ok numbers' ∧ nearHundred (PyFloat.total numbers') = true ∧
      holdsAll requiredConfluenceKeys (entries.map Prod.fst) = true := by
  simp only [checkWeights, tuning_bind_eq_ok, items_eq_ok, check]
  constructor
  · rintro ⟨entries, rfl, xs, hxs, u, hnear, hkeys⟩
    refine ⟨entries, xs, rfl, hxs, ?_, ?_⟩
    · by_contra hfar
      simp [hfar] at hnear
    · by_contra hmissing
      simp [hmissing] at hkeys
  · rintro ⟨entries, xs, rfl, hxs, hnear, hkeys⟩
    exact ⟨entries, rfl, xs, hxs, (), by simp [hnear], by simp [hkeys]⟩

/-- The fields that `__post_init__` asks for their keys. -/
def mappingFields : List String := ["confluence_weights", "atr_stop_buffer", "htf_rule", "pattern_base_score"]

/-- A mapping, as a value. -/
def IsMapping (v : Value) : Prop := ∃ entries, v = .plain (.map entries)

theorem isMapping_of_postInit (h : postInit values = .ok ()) :
    ∀ name ∈ mappingFields, IsMapping (fieldOf values name) := by
  obtain ⟨-, hweights, -, hbuffer, hhtf, hpattern, -, -⟩ := postInit_eq_ok.mp h
  have hkeys {required : List Text} {m : String} {v : Value} (h : checkKeys required m v = .ok ()) : IsMapping v := by
    simp only [checkKeys, tuning_bind_eq_ok, items_eq_ok] at h
    obtain ⟨entries, hv, -⟩ := h
    exact ⟨entries, hv⟩
  intro name hname
  simp only [mappingFields, List.mem_cons, List.not_mem_nil, or_false] at hname
  obtain rfl | rfl | rfl | rfl := hname
  · obtain ⟨entries, xs, hv, -⟩ := checkWeights_eq_ok.mp hweights
    exact ⟨entries, hv⟩
  · simp only [checkBuffer, tuning_bind_eq_ok, items_eq_ok] at hbuffer
    obtain ⟨entries, hv, -⟩ := hbuffer
    exact ⟨entries, hv⟩
  · exact hkeys hhtf
  · exact hkeys hpattern

theorem items_ne_attribute (h : IsMapping v) : items v ≠ .error .attributeError := by
  obtain ⟨entries, rfl⟩ := h
  simp [items]

/-- Where the mappings are some, nothing raises an `AttributeError`. -/
theorem postInit_ne_attribute (h : ∀ name ∈ mappingFields, IsMapping (fieldOf values name)) :
    postInit values ≠ .error .attributeError := by
  have hweights := items_ne_attribute (h "confluence_weights" (by decide))
  have hbuffer := items_ne_attribute (h "atr_stop_buffer" (by decide))
  have hhtf := items_ne_attribute (h "htf_rule" (by decide))
  have hpattern := items_ne_attribute (h "pattern_base_score" (by decide))
  have hpositive : ∀ names : List String, (forM names fun name => checkPositive (fieldOf values name)) ≠
      .error .attributeError := by
    intro names
    induction names with
    | nil => simp [pure, Except.pure]
    | cons name names ih =>
        rw [List.forM_cons]
        simp [tuning_bind_eq_error, checkPositive_ne_attribute, ih]
  simp only [postInit, ne_eq, tuning_bind_eq_error, not_or, not_exists, not_and]
  refine ⟨?_, fun _ _ => ⟨?_, fun _ _ => ⟨?_, fun _ _ => ⟨?_, fun _ _ => ⟨?_, fun _ _ => ⟨?_, fun _ _ => ⟨?_,
    fun _ _ => ?_⟩⟩⟩⟩⟩⟩⟩
  · simp [checkOrders, tuning_bind_eq_error, lt_ne_attribute, check_ne_attribute, elements_ne_attribute,
      numbers_ne_attribute]
  · simp [checkWeights, tuning_bind_eq_error, check_ne_attribute, numbers_ne_attribute, hweights]
  · simp [checkFamilies, tuning_bind_eq_error, check_ne_attribute, elements_ne_attribute]
  · simp only [checkBuffer, tuning_bind_eq_error, hbuffer, check_ne_attribute, false_or, not_exists,
      not_and]
    intro entries _ _ _
    split <;> simp [tuning_bind_eq_error, lt_ne_attribute, check_ne_attribute]
  · simp [checkKeys, tuning_bind_eq_error, check_ne_attribute, hhtf]
  · simp [checkKeys, tuning_bind_eq_error, check_ne_attribute, hpattern]
  · simp [checkBands, tuning_bind_eq_error, lt_ne_attribute, check_ne_attribute]
  · simp [checkWindows, tuning_bind_eq_error, lt_ne_attribute, check_ne_attribute, hpositive]

/-! ## The fields -/

theorem zip_map_zip {α β : Type} (xs : List α) (ys : List β) (g : α × β → β) :
    xs.zip ((xs.zip ys).map g) = (xs.zip ys).map fun p => (p.1, g p) := by
  induction xs generalizing ys with
  | nil => rfl
  | cons x xs ih =>
      cases ys with
      | nil => rfl
      | cons y ys => simp [ih]

theorem fieldOf_setField_ne {other : String} (h : other ≠ name) :
    fieldOf (setField values name v) other = fieldOf values other := by
  have hlookup (rows : List (String × Value)) :
      (rows.map fun p => (p.1, if p.1 = name then v else p.2)).lookup other = rows.lookup other := by
    induction rows with
    | nil => rfl
    | cons row rows ih =>
        rw [List.map_cons, List.lookup_cons, List.lookup_cons, ih]
        by_cases heq : other = row.1
        · rw [if_neg (heq ▸ h)]
        · rw [beq_eq_false_iff_ne.mpr heq]
  rw [fieldOf, fieldOf, setField, zip_map_zip, hlookup]

theorem fieldOf_setField_self (hlength : values.length = fields.length) (h : name ∈ fieldNames) :
    fieldOf (setField values name v) name = v := by
  have hlookup (rows : List (String × Value)) (h : name ∈ rows.map Prod.fst) :
      (rows.map fun p => (p.1, if p.1 = name then v else p.2)).lookup name = some v := by
    induction rows with
    | nil => cases h
    | cons row rows ih =>
        rw [List.map_cons, List.lookup_cons]
        by_cases heq : name = row.1
        · simp [heq]
        · have hrows : name ∈ rows.map Prod.fst := by simpa [heq] using h
          rw [beq_eq_false_iff_ne.mpr heq]
          exact ih hrows
  rw [fieldOf, setField, zip_map_zip, hlookup]
  · rfl
  · rwa [List.map_fst_zip]
    simp [fieldNames, hlength]

theorem length_setField (hlength : values.length = fields.length) :
    (setField values name v).length = fields.length := by
  simp [setField, fieldNames, hlength]

end CryptoAggHarmonic.Loop
