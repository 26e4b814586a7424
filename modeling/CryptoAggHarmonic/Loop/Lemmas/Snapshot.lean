import CryptoAggHarmonic.Loop.Snapshot
import CryptoAggHarmonic.Python.Lemmas.YamlText

/-!
# What a snapshot is read as

The YAML reader gives the tuning back where its floats and keys are plain. The JSON reader takes no snapshot.
-/

namespace CryptoAggHarmonic.Loop

open PyOs (Text)
open Yaml

variable {ft : FloatText} {v default : Value} {u : Yaml} {values : List Value}

/-! ## The values as texts -/

theorem yamlScalars_eq (xs : List Yaml) : yamlScalars ft xs = xs.map (yamlScalar ft) := by
  induction xs with
  | nil => rfl
  | cons x xs ih => simp [yamlScalars, ih]

theorem yamlEntries_eq (entries : List (Yaml × Yaml)) :
    yamlEntries ft entries = entries.map fun entry => keyText entry.1 ++ [':', ' '] ++ yamlScalar ft entry.2 := by
  induction entries with
  | nil => rfl
  | cons entry entries ih => simp [yamlEntries, ih]

theorem scalarText_finite (h : Finite ft u) (hplain : PlainScalar ft u) : ScalarText ft (yamlScalar ft u) u := by
  cases u with
  | int n =>
      rw [yamlScalar]
      exact scalarText_number numberText_strInt resolve_strInt
  | float x =>
      cases x with
      | finite x =>
          rw [yamlScalar]
          exact scalarText_number (numberText_strFloat h hplain) (resolve_strFloat h hplain)
      | _ => cases h
  | _ => cases h

theorem scalarText_str {s : Text} (hplain : PlainScalar ft (.str s)) :
    ScalarText ft (yamlScalar ft (.str s)) (.str s) := by
  rw [yamlScalar]
  exact scalarText_dumps hplain

theorem inline_of_ascii {c : Char} (h : 32 ≤ c.toNat ∧ c.toNat ≤ 126) : printable c ∧ c ≠ '\n' := by
  constructor
  · have hlow : ' ' ≤ c := char_le_iff.mpr h.1
    have hhigh : c ≤ '~' := char_le_iff.mpr h.2
    simp [printable, hlow, hhigh]
  · rintro rfl
    exact absurd h.1 (by decide)

/-- A value whose text is read back from the end of a line. -/
structure ValueReads (ft : FloatText) (u : Yaml) : Prop where
  line : readLineValue ft (yamlScalar ft u) = some u
  inline : ∀ c ∈ yamlScalar ft u, printable c ∧ c ≠ '\n'

theorem valueReads_scalar (h : ScalarText ft (yamlScalar ft u) u) : ValueReads ft u :=
  ⟨h.line, fun c hc => inline_of_ascii (h.ascii c hc)⟩

theorem valueReads_seq {xs : List Yaml} (h : ∀ x ∈ xs, ScalarText ft (yamlScalar ft x) x) :
    ValueReads ft (.seq xs) := by
  have hentries : ∀ e ∈ xs.map fun x => (yamlScalar ft x, x), ScalarText ft e.1 e.2 := by
    intro e he
    obtain ⟨x, hx, rfl⟩ := List.mem_map.mp he
    exact h x hx
  have htext : yamlScalar ft (.seq xs) =
      '[' :: ([',', ' '].intercalate ((xs.map fun x => (yamlScalar ft x, x)).map Prod.fst) ++ [']']) := by
    simp [yamlScalar, yamlScalars_eq, Function.comp_def]
  refine ⟨?_, fun c hc => ?_⟩
  · rw [htext, readLineValue_seq hentries]
    simp [Function.comp_def]
  · rw [yamlScalar, yamlScalars_eq] at hc
    simp only [List.mem_cons, List.mem_append, List.not_mem_nil, or_false] at hc
    obtain rfl | hc | rfl := hc
    · exact ⟨by decide, by decide⟩
    · obtain hc | ⟨t, ht, hc⟩ := mem_intercalate hc
      · simp only [List.mem_cons, List.not_mem_nil, or_false] at hc
        obtain rfl | rfl := hc <;> exact ⟨by decide, by decide⟩
      · obtain ⟨x, hx, rfl⟩ := List.mem_map.mp ht
        exact inline_of_ascii ((h x hx).ascii c hc)
    · exact ⟨by decide, by decide⟩

theorem valueReads_map {items : List (Text × Yaml)} (hkeys : (items.map Prod.fst).Nodup)
    (hplain : ∀ item ∈ items, plainKey true item.1) (h : ∀ item ∈ items, ScalarText ft (yamlScalar ft item.2) item.2) :
    ValueReads ft (.map (items.map fun item => (.str item.1, item.2))) := by
  have hentries : ∀ e ∈ items.map fun item => (item.1, yamlScalar ft item.2, item.2), EntryReads ft e := by
    intro e he
    obtain ⟨item, hitem, rfl⟩ := List.mem_map.mp he
    exact ⟨plainKey_iff.mp (hplain item hitem), h item hitem⟩
  have htext : yamlScalar ft (.map (items.map fun item => (.str item.1, item.2))) =
      '\x7b' :: ([',', ' '].intercalate
        ((items.map fun item => (item.1, yamlScalar ft item.2, item.2)).map entryText) ++ ['\x7d']) := by
    simp [yamlScalar, yamlEntries_eq, Function.comp_def, entryText, keyText]
  refine ⟨?_, fun c hc => ?_⟩
  · rw [htext, readLineValue_map hentries (by simpa [Function.comp_def] using hkeys)]
    simp [Function.comp_def, entryItem]
  · rw [htext] at hc
    simp only [List.mem_cons, List.mem_append, List.not_mem_nil, or_false] at hc
    obtain rfl | hc | rfl := hc
    · exact ⟨by decide, by decide⟩
    · obtain hc | ⟨t, ht, hc⟩ := mem_intercalate hc
      · simp only [List.mem_cons, List.not_mem_nil, or_false] at hc
        obtain rfl | rfl := hc <;> exact ⟨by decide, by decide⟩
      · obtain ⟨e, he, rfl⟩ := List.mem_map.mp ht
        obtain ⟨item, hitem, rfl⟩ := List.mem_map.mp he
        have hkey := plainKey_iff.mp (hplain item hitem)
        simp only [entryText, List.mem_append, List.mem_cons, List.not_mem_nil, or_false] at hc
        obtain (hc | rfl | rfl) | hc := hc
        · refine ⟨List.all_eq_true.mp hkey.printable c hc, ?_⟩
          rintro rfl
          exact hkey.no_newline hc
        · exact ⟨by decide, by decide⟩
        · exact ⟨by decide, by decide⟩
        · exact inline_of_ascii ((h item hitem).ascii c hc)
    · exact ⟨by decide, by decide⟩

theorem valueReads_of_allows {kind : Kind} (h : kind.Allows ft v) (hplain : v.Plain ft) : ValueReads ft v.toPlain := by
  cases kind with
  | number =>
      cases v with
      | plain u =>
          have hscalar : PlainScalar ft u := by
            cases u <;> first | exact hplain | cases h
          exact valueReads_scalar (scalarText_finite h hscalar)
      | _ => cases h
  | numbers =>
      cases v with
      | plain u =>
          cases u with
          | map entries =>
              obtain ⟨items, rfl, hkeys, hfinite⟩ := h
              refine valueReads_map hkeys (fun item hitem => ?_) fun item hitem => ?_
              · exact (hplain _ (List.mem_map_of_mem hitem)).1
              · exact scalarText_finite (hfinite item hitem) (hplain _ (List.mem_map_of_mem hitem)).2
          | _ => cases h
      | _ => cases h
  | texts =>
      cases v with
      | plain u =>
          cases u with
          | map entries =>
              obtain ⟨items, rfl, hkeys⟩ := h
              have hitems : items.map (fun item => (Yaml.str item.1, Yaml.str item.2)) =
                  (items.map fun item => (item.1, Yaml.str item.2)).map fun item => (Yaml.str item.1, item.2) := by simp
              simp only [Value.toPlain]
              rw [hitems]
              have hkeys' : ((items.map fun item => (item.1, Yaml.str item.2)).map Prod.fst).Nodup := by
                simpa [Function.comp_def] using hkeys
              refine valueReads_map hkeys' (fun item hitem => ?_) fun item hitem => ?_
              · obtain ⟨source, hsource, rfl⟩ := List.mem_map.mp hitem
                exact (hplain _ (List.mem_map_of_mem hsource)).1
              · obtain ⟨source, hsource, rfl⟩ := List.mem_map.mp hitem
                exact scalarText_str (hplain _ (List.mem_map_of_mem hsource)).2
          | _ => cases h
      | _ => cases h
  | families =>
      cases v with
      | frozenset xs =>
          simp only [Value.toPlain]
          rw [h.2]
          refine valueReads_seq fun x hx => ?_
          obtain ⟨s, hs, rfl⟩ := List.mem_map.mp hx
          exact scalarText_str (hplain s hs)
      | _ => cases h
  | legs =>
      cases v with
      | tuple xs => exact valueReads_seq fun x hx => scalarText_finite (h x hx) (hplain x hx)
      | _ => cases h

/-! ## Back to the fields -/

theorem mapM_text (xs : List Text) : (xs.map Yaml.str).mapM text = .ok xs := by
  induction xs with
  | nil => rfl
  | cons s xs ih =>
      rw [List.map_cons, List.mapM_cons, ih]
      rfl

theorem plain_of_allows {d : Yaml} (h : (fieldKind (.plain d)).Allows ft v) : ∃ u, v = .plain u := by
  have hkind : fieldKind (.plain d) = .texts ∨ fieldKind (.plain d) = .numbers ∨ fieldKind (.plain d) = .number := by
    unfold fieldKind
    split <;> simp_all
  cases v with
  | plain u => exact ⟨u, rfl⟩
  | _ => obtain hkind | hkind | hkind := hkind <;> rw [hkind] at h <;> cases h

/-- The container of the default is found again. -/
theorem coerce_toPlain (h : (fieldKind default).Allows ft v) : coerce default v.toPlain = .ok v := by
  cases default with
  | plain d =>
      obtain ⟨u, rfl⟩ := plain_of_allows h
      simp [coerce, Value.toPlain]
  | tuple xs =>
      cases v with
      | tuple ys => rfl
      | _ => cases h
  | frozenset xs =>
      cases v with
      | frozenset ys =>
          simp only [coerce, Value.toPlain]
          rw [mapM_text, h.2]
          simp only [Except.map]
          rw [List.Nodup.dedup h.1, h.2]
      | _ => cases h

/-- The lines of a snapshot: name, text and value of each field. -/
def snapshotLines (ft : FloatText) (values : List Value) : List (Text × Text × Yaml) :=
  (fields.zip values).map fun field => (field.1.1.toList, yamlScalar ft field.2.toPlain, field.2.toPlain)

theorem toDict_eq : toDict values = (fields.zip values).map fun field => (field.1.1, field.2.toPlain) := by
  rw [toDict, fieldNames, List.zip_map]
  rfl

theorem snapshotText_eq :
    snapshotText ft values = ['\n'].intercalate ((snapshotLines ft values).map entryText) ++ ['\n'] := by
  rw [snapshotText, toDict_eq, snapshotLines, List.map_map, List.map_map]
  rfl

theorem names_nodup : (fields.map fun field => field.1.toList).Nodup := by
  have hnames : (fields.map Prod.fst).Nodup := by decide
  have := hnames.map (f := String.toList) fun _ _ h => String.toList_injective h
  rwa [List.map_map] at this

theorem names_identifiers : ∀ field ∈ fields, Identifier field.1.toList := by
  have hnames : ∀ name ∈ fields.map fun field => field.1.toList, 5 < name.length ∧ name.length ≤ 1024 ∧
      (name.all fun c => IdentifierLetter c) ∧ name.any fun c => c ∈ wordLetters := by decide +kernel
  intro field hfield
  obtain ⟨hlong, hshort, hletters, hword⟩ := hnames _ (List.mem_map_of_mem hfield)
  exact ⟨hlong, hshort, by simpa using hletters, by simpa using hword⟩

/-- A value is found under its name. -/
theorem lookup_zip {fs : List (String × Value)} {field : String × Value} (hnames : (fs.map fun f => f.1.toList).Nodup)
    (hmem : (field, v) ∈ fs.zip values) :
    lookup field.1.toList ((fs.zip values).map fun f => (Yaml.str f.1.1.toList, f.2.toPlain)) = some v.toPlain := by
  induction fs generalizing values with
  | nil => cases hmem
  | cons f fs ih =>
      cases values with
      | nil => cases hmem
      | cons w values =>
          rw [List.map_cons, List.nodup_cons] at hnames
          rw [List.zip_cons_cons, List.map_cons, lookup]
          obtain hmem | hmem := List.mem_cons.mp hmem
          · cases hmem
            rw [if_pos rfl]
          · have hne : f.1.toList ≠ field.1.toList := by
              intro heq
              refine hnames.1 ?_
              rw [heq]
              exact List.mem_map_of_mem (List.of_mem_zip hmem).1
            rw [if_neg hne]
            exact ih hnames.2 hmem

theorem mapM_fields {fs : List (String × Value)} {d : List (Yaml × Yaml)}
    (htyped : List.Forall₂ (fun field v => (fieldKind field.2).Allows ft v) fs values)
    (hlookup : ∀ field v, (field, v) ∈ fs.zip values → lookup field.1.toList d = some v.toPlain) :
    fs.mapM (readField d) = .ok values := by
  induction htyped with
  | nil => rfl
  | cons hfield _ ih =>
      have hread := hlookup _ _ List.mem_cons_self
      rw [List.mapM_cons, ih fun field v hmem => hlookup field v (List.mem_cons_of_mem _ hmem), readField, hread]
      simp only [coerce_toPlain hfield]
      rfl

theorem fromDict_toDict (t : Tuning ft) :
    fromDict ((fields.zip t.values).map fun field => (Yaml.str field.1.1.toList, field.2.toPlain)) = .ok t.values := by
  unfold fromDict
  rw [mapM_fields t.typed fun field v hmem => lookup_zip names_nodup hmem]
  simp only [bind, Except.bind, t.checked]
  rfl

theorem snapshotLines_read (t : Tuning ft) (hplain : ∀ v ∈ t.values, v.Plain ft) :
    ∀ entry ∈ snapshotLines ft t.values, LineReads ft entry := by
  intro entry hentry
  obtain ⟨⟨field, v⟩, hmem, rfl⟩ := List.mem_map.mp hentry
  have hfield := (List.of_mem_zip hmem).1
  have hvalue := (List.of_mem_zip hmem).2
  have hallows : (fieldKind field.2).Allows ft v := by
    have := (List.forall₂_iff_zip.mp t.typed).2 hmem
    exact this
  have hreads := valueReads_of_allows hallows (hplain v hvalue)
  exact ⟨(names_identifiers field hfield).plainKey, hreads.line, hreads.inline⟩

/-- **The YAML reader gives a plain tuning back.** -/
theorem loadTuning_snapshot (t : Tuning ft) (hplain : ∀ v ∈ t.values, v.Plain ft) :
    loadTuning ft (snapshotText ft t.values) = some t.values := by
  have hlength : fields.length = t.values.length := t.typed.length_eq
  have hkeys : ((snapshotLines ft t.values).map Prod.fst).Nodup := by
    have heq : (snapshotLines ft t.values).map Prod.fst = fields.map fun field => field.1.toList := by
      have hzip : (fields.zip t.values).map Prod.fst = fields := List.map_fst_zip (by omega)
      rw [snapshotLines, List.map_map]
      conv_rhs => rw [← hzip, List.map_map]
      rfl
    rw [heq]
    exact names_nodup
  have hne : snapshotLines ft t.values ≠ [] := by
    intro heq
    have := congrArg List.length heq
    simp only [snapshotLines, List.length_map, List.length_zip, ← hlength, min_self, List.length_nil] at this
    exact absurd this (by decide)
  have hload := safeLoad_lines (snapshotLines_read t hplain) hkeys hne
  rw [← snapshotText_eq] at hload
  have hitems : (snapshotLines ft t.values).map entryItem =
      (fields.zip t.values).map fun field => (Yaml.str field.1.1.toList, field.2.toPlain) := by
    rw [snapshotLines, List.map_map]
    rfl
  have htruthy : (Yaml.map ((snapshotLines ft t.values).map entryItem)).truthy = true := by
    simpa [Yaml.truthy] using hne
  unfold loadTuning
  rw [hload, Option.bind_some, if_pos htruthy, fromLoaded, hitems, fromDict_toDict]
  rfl

/-! ## Values of the right kind -/

def isText : Yaml → Bool
  | .str _ => true
  | _ => false

theorem str_keyText {u : Yaml} (h : isText u) : Yaml.str (keyText u) = u := by
  cases u <;> first | rfl | cases h

def finite (isFloat : ℚ → Bool) : Yaml → Bool
  | .int _ => true
  | .float (.finite x) => isFloat |x|
  | _ => false

/-- `Kind.Allows`, computed. -/
def Kind.allows (isFloat : ℚ → Bool) : Kind → Value → Bool
  | .number, .plain u => finite isFloat u
  | .numbers, .plain (.map entries) =>
      entries.all (fun e => isText e.1 && finite isFloat e.2) && (entries.map fun e => keyText e.1).Nodup
  | .texts, .plain (.map entries) =>
      entries.all (fun e => isText e.1 && isText e.2) && (entries.map fun e => keyText e.1).Nodup
  | .families, .frozenset xs => xs.Nodup && sortTexts xs = xs
  | .legs, .tuple xs => xs.all (finite isFloat)
  | _, _ => false

variable {isFloat : ℚ → Bool}

theorem finite_of_check (hfloat : ∀ x, isFloat x = true → ft.IsFloat x) (h : finite isFloat u = true) :
    Finite ft u := by
  cases u with
  | int n => trivial
  | float x =>
      cases x with
      | finite x => exact hfloat _ h
      | _ => cases h
  | _ => cases h

theorem Kind.allows_sound (hfloat : ∀ x, isFloat x = true → ft.IsFloat x) {kind : Kind}
    (h : kind.allows isFloat v = true) : kind.Allows ft v := by
  cases kind with
  | number =>
      cases v with
      | plain u => exact finite_of_check hfloat h
      | _ => cases h
  | numbers =>
      cases v with
      | plain u =>
          cases u with
          | map entries =>
              simp only [Kind.allows, Bool.and_eq_true, List.all_eq_true, decide_eq_true_eq] at h
              refine ⟨entries.map fun e => (keyText e.1, e.2), ?_, by simpa [Function.comp_def] using h.2, ?_⟩
              · rw [List.map_map]
                symm
                refine (List.map_congr_left fun e he => ?_).trans (List.map_id entries)
                exact Prod.ext (str_keyText (h.1 e he).1) rfl
              · intro item hitem
                obtain ⟨e, he, rfl⟩ := List.mem_map.mp hitem
                exact finite_of_check hfloat (h.1 e he).2
          | _ => cases h
      | _ => cases h
  | texts =>
      cases v with
      | plain u =>
          cases u with
          | map entries =>
              simp only [Kind.allows, Bool.and_eq_true, List.all_eq_true, decide_eq_true_eq] at h
              refine ⟨entries.map fun e => (keyText e.1, keyText e.2), ?_, by simpa [Function.comp_def] using h.2⟩
              rw [List.map_map]
              symm
              refine (List.map_congr_left fun e he => ?_).trans (List.map_id entries)
              exact Prod.ext (str_keyText (h.1 e he).1) (str_keyText (h.1 e he).2)
          | _ => cases h
      | _ => cases h
  | families =>
      cases v with
      | frozenset xs => simpa [Kind.allows, Kind.Allows] using h
      | _ => cases h
  | legs =>
      cases v with
      | tuple xs =>
          intro x hx
          exact finite_of_check hfloat (List.all_eq_true.mp h x hx)
      | _ => cases h

/-- The kinds of all fields at once. -/
theorem typed_of_check (isFloat : ℚ → Bool) (hfloat : ∀ x, isFloat x = true → ft.IsFloat x)
    (hlength : fields.length = values.length)
    (h : (fields.zip values).all fun field => (fieldKind field.1.2).allows isFloat field.2) :
    List.Forall₂ (fun field v => (fieldKind field.2).Allows ft v) fields values := by
  rw [List.forall₂_iff_zip]
  refine ⟨hlength, fun {field v} hmem => ?_⟩
  exact Kind.allows_sound hfloat (List.all_eq_true.mp h (field, v) hmem)

/-! ## The JSON reader -/

/-- The first field begins with a letter that begins no JSON. -/
theorem loads_snapshot (t : Tuning ft) : JsonText.loads ft (snapshotText ft t.values) = none := by
  obtain ⟨v, rest, hvalues⟩ : ∃ v rest, t.values = v :: rest := by
    have hlength : fields.length = t.values.length := t.typed.length_eq
    exact List.exists_cons_of_length_pos (hlength ▸ by decide)
  have hlines : snapshotLines ft t.values =
      ("fib_tp1".toList, yamlScalar ft v.toPlain, v.toPlain) :: (snapshotLines ft t.values).tail := by
    rw [hvalues]
    rfl
  obtain ⟨more, hmore⟩ : ∃ more, snapshotText ft t.values = 'f' :: 'i' :: more := by
    rw [snapshotText_eq, hlines]
    cases (snapshotLines ft t.values).tail with
    | nil => exact ⟨_, by simp [entryText]; rfl⟩
    | cons line lines => exact ⟨_, by simp [entryText, List.intercalate_cons_cons]; rfl⟩
  have hskip : JsonText.skipSpace ('f' :: 'i' :: more) = 'f' :: 'i' :: more := by
    simp [JsonText.skipSpace, JsonText.space]
  have hscalar : JsonText.readScalar ft ('f' :: 'i' :: more) = none := by
    simp [JsonText.readScalar, JsonText.readNumber]
  have hread (n : ℕ) : JsonText.readValue ft (n + 1) ('f' :: 'i' :: more) = none := by
    rw [JsonText.readValue, hscalar] <;> simp
  rw [hmore, JsonText.loads, hskip, hread]

end CryptoAggHarmonic.Loop
