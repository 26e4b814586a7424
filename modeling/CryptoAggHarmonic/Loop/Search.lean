import CryptoAggHarmonic.Lib.Steps
import CryptoAggHarmonic.Loop.Confinement
import CryptoAggHarmonic.Loop.Lemmas.Snapshot

/-!
# The search

`check_safety`, `make_child_candidates` and `run_generation` of `app/loop/search.py`, with the report of
`app/loop/sensitivity.py`, and the lineages they make: the parent of a generation is the tuning of a candidate of an
earlier one, read back from its dict.
-/

namespace CryptoAggHarmonic.Loop.Search

open PyOs (Text)

/-! ## One generation -/

/-- `SensitivityReport`: the scale of each field it has seen. -/
structure SensitivityReport where
  fields : List (String × PyFloat)
  defaultSigmaScale : PyFloat

/-- `scale_for`: the first entry of the field. -/
def SensitivityReport.scaleFor (report : SensitivityReport) (field : String) : PyFloat :=
  (report.fields.lookup field).getD report.defaultSigmaScale

structure GenerationConfig where
  gen : ℤ
  cluster : String
  lambda : ℤ := 10
  sigmaScale : PyFloat := .finite 1
  nMutations : ℤ := 1
  timeoutSeconds : ℤ := 900
  weeklyBudgetUsd : ℚ := 25

structure SafetyCheck where
  name : String
  ok : Bool
  deriving DecidableEq

def checkSafety (cfg : GenerationConfig) (weeklySpendUsd : ℚ) : List SafetyCheck :=
  let overBudget : Bool := cfg.weeklyBudgetUsd > 0 ∧ weeklySpendUsd + cfg.lambda * (1 / 100) > cfg.weeklyBudgetUsd
  [⟨"diff_size", cfg.nMutations ≤ 5⟩, ⟨"timeout_floor", cfg.timeoutSeconds ≥ 60⟩, ⟨"weekly_budget", !overBudget⟩,
    ⟨"cluster_exists", defaultClusterMap.any fun entry => entry.1 = cfg.cluster⟩]

/-- `f"{i:03d}"` -/
def threeDigits (i : ℕ) : Text := List.replicate (3 - (Nat.toDigits 10 i).length) '0' ++ Nat.toDigits 10 i

def candidateId (gen : ℤ) (cluster : String) (i : ℕ) : Text :=
  "gen".toList ++ Yaml.strInt gen ++ '-' :: (cluster.toList.filter (· ≠ ' ') ++ '-' :: threeDigits i)

structure Candidate where
  candidateId : Text
  tuning : List (String × Yaml)

section

variable {σ : Type} (rng : Rng σ)

/-- Each chosen field with a scale of its own. -/
def mutateScaled (report : SensitivityReport) :
    List FieldSpec → List Value → σ → Except MutationError (List Value) × σ
  | [], values, s => (.ok values, s)
  | spec :: specs, values, s =>
      match mutateField rng spec values (report.scaleFor spec.name) s with
      | (.error e, s) => (.error e, s)
      | (.ok values, s) => mutateScaled report specs values s

/-- One child, with or without a report. -/
def makeChild (cfg : GenerationConfig) (sensitivity : Option SensitivityReport) (parent : List Value) (s : σ) :
    Except MutationError (List Value) × σ :=
  match sensitivity with
  | none => mutateCluster rng parent cfg.cluster cfg.sigmaScale (some cfg.nMutations) s
  | some report =>
      let members := clusterSpecs cfg.cluster
      let n := min cfg.nMutations members.length
      if n < 0 then (.error (.tuning (.valueError "Sample larger than population or is negative")), s)
      else
        let (chosen, s) := rng.sample members.length n.toNat s
        mutateScaled rng report (chosen.filterMap fun i => members[i]?) parent s

def childrenFrom (cfg : GenerationConfig) (sensitivity : Option SensitivityReport) (parent : List Value) :
    List ℕ → σ → Except MutationError (List Candidate)
  | [], _ => .ok []
  | i :: is, s =>
      match makeChild rng cfg sensitivity parent s with
      | (.error e, _) => .error e
      | (.ok child, s) =>
          (childrenFrom cfg sensitivity parent is s).map
            (⟨candidateId cfg.gen cfg.cluster i, toDict child⟩ :: ·)

/-- `make_child_candidates` -/
def makeChildCandidates (cfg : GenerationConfig) (sensitivity : Option SensitivityReport) (parent : List Value)
    (seed : σ) : Except MutationError (List Candidate) :=
  childrenFrom rng cfg sensitivity parent (List.range cfg.lambda.toNat) seed

structure GenerationResult where
  safety : List SafetyCheck
  skipped : Bool
  candidates : List Candidate

/-- `run_generation` -/
def runGeneration (cfg : GenerationConfig) (sensitivity : Option SensitivityReport) (weeklySpendUsd : ℚ)
    (parent : List Value) (seed : σ) : Except MutationError GenerationResult :=
  let safety := checkSafety cfg weeklySpendUsd
  if safety.all SafetyCheck.ok then
    (makeChildCandidates rng cfg sensitivity parent seed).map fun candidates => ⟨safety, false, candidates⟩
  else .ok ⟨safety, true, []⟩

/-! ## Lineages -/

/-- The dict of a candidate, as it is read. -/
def Candidate.dict (c : Candidate) : List (Yaml × Yaml) := c.tuning.map fun entry => (.str entry.1.toList, entry.2)

/-- A call of the search, and the candidate that is the next parent. -/
structure Generation (σ : Type) where
  cfg : GenerationConfig
  sensitivity : Option SensitivityReport
  weeklySpendUsd : ℚ
  seed : σ
  pick : ℕ

/-- The next parent: the one before where the call raises, is skipped or has no such candidate. -/
def nextParent (parent : List Value) (g : Generation σ) : List Value :=
  match runGeneration rng g.cfg g.sensitivity g.weeklySpendUsd parent g.seed with
  | .error _ => parent
  | .ok result =>
      match result.candidates[g.pick]? with
      | none => parent
      | some candidate => ((fromDict candidate.dict).toOption).getD parent

end

/-! ## Tunings the search makes -/

/-- The containers of the defaults are found again. -/
structure Carried (values : List Value) : Prop where
  valid : Valid values
  coerced : ∀ field ∈ fields, coerce field.2 (fieldOf values field.1).toPlain = .ok (fieldOf values field.1)

/-- Every field is as in the defaults, or within the bounds of its mutator. -/
def Bounded (values : List Value) : Prop :=
  ∀ spec ∈ allSpecs, fieldOf values spec.name = fieldOf defaults spec.name ∨ spec.kind.Within (fieldOf values spec.name)

/-- Two tunings differ in at most `n` fields, all of them allowed. -/
def ChangedIn (n : ℕ) (allowed : List String) (values new : List Value) : Prop :=
  ∃ changed : List String, changed.length ≤ n ∧ changed ⊆ allowed ∧
    ∀ name, name ∉ changed → fieldOf new name = fieldOf values name

variable {σ : Type} {rng : Rng σ} {values new : List Value} {s : σ} {scale : PyFloat} {spec : FieldSpec}

theorem ChangedIn.refl (n : ℕ) (allowed : List String) (values : List Value) : ChangedIn n allowed values values :=
  ⟨[], by simp, by simp, fun _ _ => rfl⟩

theorem ChangedIn.mono {n m : ℕ} {allowed more : List String} (h : ChangedIn n allowed values new) (hn : n ≤ m)
    (hsub : allowed ⊆ more) : ChangedIn m more values new := by
  obtain ⟨changed, hlength, hallowed, hothers⟩ := h
  exact ⟨changed, hlength.trans hn, fun _ hname => hsub (hallowed hname), hothers⟩

theorem ChangedIn.trans {n m : ℕ} {allowed more : List String} {last : List Value}
    (h : ChangedIn n allowed values new) (h' : ChangedIn m more new last) :
    ChangedIn (n + m) (allowed ++ more) values last := by
  obtain ⟨changed, hlength, hallowed, hothers⟩ := h
  obtain ⟨changed', hlength', hallowed', hothers'⟩ := h'
  refine ⟨changed ++ changed', by simp; omega, ?_, fun name hname => ?_⟩
  · intro name hname
    obtain hname | hname := List.mem_append.mp hname
    · exact List.mem_append_left _ (hallowed hname)
    · exact List.mem_append_right _ (hallowed' hname)
  · rw [List.mem_append, not_or] at hname
    rw [hothers' name hname.2, hothers name hname.1]

/-- A value stands under its name. -/
theorem fieldOf_of_mem {field : String × Value} {v : Value} (h : (field, v) ∈ fields.zip values) :
    fieldOf values field.1 = v := by
  have hlookup (fs : List (String × Value)) (values : List Value) (hnames : (fs.map Prod.fst).Nodup)
      (hmem : (field, v) ∈ fs.zip values) : ((fs.map Prod.fst).zip values).lookup field.1 = some v := by
    induction fs generalizing values with
    | nil => cases hmem
    | cons f fs ih =>
        cases values with
        | nil => cases hmem
        | cons w values =>
            rw [List.map_cons, List.nodup_cons] at hnames
            rw [List.map_cons, List.zip_cons_cons, List.lookup_cons]
            obtain hmem | hmem := List.mem_cons.mp hmem
            · cases hmem
              simp
            · have hne : field.1 ≠ f.1 := by
                intro heq
                exact hnames.1 (heq ▸ List.mem_map_of_mem (List.of_mem_zip hmem).1)
              rw [beq_eq_false_iff_ne.mpr hne]
              exact ih values hnames.2 hmem
  rw [fieldOf, fieldNames, hlookup fields values (by decide) h]
  rfl

theorem mapM_readField {d : List (Yaml × Yaml)} {fs : List (String × Value)} (hlength : values.length = fs.length)
    (hread : ∀ field v, (field, v) ∈ fs.zip values → readField d field = .ok v) :
    fs.mapM (readField d) = .ok values := by
  induction fs generalizing values with
  | nil =>
      cases List.length_eq_zero_iff.mp hlength
      rfl
  | cons f fs ih =>
      cases values with
      | nil => cases hlength
      | cons v values =>
          have hrest := ih (Nat.succ.inj hlength) fun field w hmem => hread field w (List.mem_cons_of_mem _ hmem)
          rw [List.mapM_cons, hread f v List.mem_cons_self, hrest]
          rfl

/-- What is written of such a tuning is read as that tuning. -/
theorem Carried.read (h : Carried values) (id : Text) : fromDict (Candidate.dict ⟨id, toDict values⟩) = .ok values := by
  have hdict : Candidate.dict ⟨id, toDict values⟩ =
      (fields.zip values).map fun field => (Yaml.str field.1.1.toList, field.2.toPlain) := by
    rw [Candidate.dict, toDict_eq, List.map_map]
    rfl
  have hfields : fields.mapM (readField (Candidate.dict ⟨id, toDict values⟩)) = .ok values := by
    refine mapM_readField h.valid.length_eq fun field v hmem => ?_
    have hv := h.coerced field (List.of_mem_zip hmem).1
    rw [fieldOf_of_mem hmem] at hv
    rw [readField, hdict, lookup_zip names_nodup hmem]
    exact hv
  unfold fromDict
  rw [hfields]
  simp only [bind, Except.bind, h.valid.checked]
  rfl

theorem fieldOf_defaults {field : String × Value} (h : field ∈ fields) : fieldOf defaults field.1 = field.2 := by
  have hzip : fields.zip defaults = fields.map fun field => (field, field.2) := by
    simpa [defaults] using @List.zip_map' _ _ _ id Prod.snd fields
  refine fieldOf_of_mem ?_
  rw [hzip]
  exact List.mem_map_of_mem h

theorem carried_defaults : Carried defaults := by
  have hfamilies : ∀ field ∈ fields, (fieldKind field.2).allows (fun _ => true) field.2 := by decide +kernel
  refine ⟨valid_defaults, fun field hfield => ?_⟩
  rw [fieldOf_defaults hfield]
  have hallows := hfamilies field hfield
  cases hdefault : field.2 with
  | plain u => rfl
  | tuple xs => rfl
  | frozenset xs =>
      rw [hdefault] at hallows
      simp only [fieldKind, Kind.allows, Bool.and_eq_true, decide_eq_true_eq] at hallows
      simp only [coerce, Value.toPlain, hallows.2, mapM_text, Except.map, List.Nodup.dedup hallows.1]

/-! ## What one mutation keeps -/

/-- What the mutations of the search keep. -/
structure Descends (values : List Value) : Prop where
  carried : Carried values
  bounded : Bounded values

theorem descends_defaults : Descends defaults := ⟨carried_defaults, fun _ _ => Or.inl rfl⟩

theorem spec_eq_of_name {spec' : FieldSpec} (h : spec ∈ allSpecs) (h' : spec' ∈ allSpecs)
    (hname : spec.name = spec'.name) : spec = spec' := by
  have hnodup : (allSpecs.map FieldSpec.name).Nodup := by decide +kernel
  exact List.inj_on_of_nodup_map hnodup h h' hname

def isPlain : Value → Bool
  | .plain _ => true
  | _ => false

/-- The defaults of the fields that are mutated are no containers that a file lacks. -/
theorem plain_default (h : spec ∈ allSpecs) {field : String × Value} (hfield : field ∈ fields)
    (hname : field.1 = spec.name) (v : Yaml) : coerce field.2 v = .ok (.plain v) := by
  have hplain : ∀ field ∈ fields, field.1 ∈ allSpecs.map FieldSpec.name → isPlain field.2 := by decide +kernel
  have hdefault := hplain field hfield (hname ▸ List.mem_map_of_mem h)
  cases hv : field.2 with
  | plain u => cases v <;> rfl
  | tuple xs =>
      rw [hv] at hdefault
      cases hdefault
  | frozenset xs =>
      rw [hv] at hdefault
      cases hdefault

theorem within_plain {kind : Mutator} {v : Value} (h : kind.Within v) : ∃ u, v = .plain u := by
  cases v with
  | plain u => exact ⟨u, rfl⟩
  | tuple xs => cases kind <;> simp [Mutator.Within] at h
  | frozenset xs => cases kind <;> simp [Mutator.Within] at h

theorem confined_descends (hspec : spec ∈ allSpecs) (h : Descends values) (hconfined : Confined spec values new) :
    Descends new := by
  refine ⟨⟨hconfined.valid, fun field hfield => ?_⟩, fun spec' hspec' => ?_⟩
  · by_cases hname : field.1 = spec.name
    · obtain ⟨u, hu⟩ := within_plain hconfined.within
      rw [hname, hu]
      exact plain_default hspec hfield hname u
    · rw [hconfined.others field.1 hname]
      exact h.carried.coerced field hfield
  · by_cases hname : spec'.name = spec.name
    · obtain rfl := spec_eq_of_name hspec' hspec hname
      exact Or.inr hconfined.within
    · rw [hconfined.others spec'.name hname]
      exact h.bounded spec' hspec'

theorem mutateField_descends (hspec : spec ∈ allSpecs) (h : Descends values)
    (hcall : (mutateField rng spec values scale s).1 = .ok new) :
    Descends new ∧ ∀ name, name ≠ spec.name → fieldOf new name = fieldOf values name := by
  rcases mutateField_ok (fine_of_mem hspec) h.carried.valid hcall with rfl | hconfined
  · exact ⟨h, fun _ _ => rfl⟩
  · exact ⟨confined_descends hspec h hconfined, hconfined.others⟩

/-! ## What one child keeps -/

theorem mutateFields_eq (rng : Rng σ) (scale : PyFloat) (specs : List FieldSpec) (values : List Value) (s : σ) :
    mutateFields rng scale specs values s = mutateScaled rng ⟨[], scale⟩ specs values s := by
  induction specs generalizing values s with
  | nil => rfl
  | cons spec specs ih =>
      rw [mutateFields, mutateScaled]
      have hscale : SensitivityReport.scaleFor ⟨[], scale⟩ spec.name = scale := rfl
      rw [hscale]
      rcases mutateField rng spec values scale s with ⟨_ | between, s'⟩
      · rfl
      · exact ih between s'

theorem mutateScaled_descends {report : SensitivityReport} {specs : List FieldSpec}
    (hspecs : ∀ spec ∈ specs, spec ∈ allSpecs) (h : Descends values)
    (hcall : (mutateScaled rng report specs values s).1 = .ok new) :
    Descends new ∧ ∀ name, name ∉ specs.map FieldSpec.name → fieldOf new name = fieldOf values name := by
  induction specs generalizing values s with
  | nil =>
      cases hcall
      exact ⟨h, fun _ _ => rfl⟩
  | cons spec specs ih =>
      rw [mutateScaled] at hcall
      rcases hfield : mutateField rng spec values (report.scaleFor spec.name) s with ⟨r, s'⟩
      rw [hfield] at hcall
      cases r with
      | error e => cases hcall
      | ok between =>
          have hbetween := mutateField_descends (hspecs spec List.mem_cons_self) h
            (congrArg Prod.fst hfield : (mutateField rng spec values (report.scaleFor spec.name) s).1 = .ok between)
          obtain ⟨hnew, hothers⟩ := ih (fun spec hspec => hspecs spec (List.mem_cons_of_mem _ hspec)) hbetween.1 hcall
          refine ⟨hnew, fun name hname => ?_⟩
          rw [List.map_cons, List.mem_cons, not_or] at hname
          rw [hothers name hname.2, hbetween.2 name hname.1]

/-- A sample of the members of a cluster, each mutated. -/
theorem sample_descends {report : SensitivityReport} {cluster : String} {n : ℕ} {s' : σ}
    (hn : n ≤ (clusterSpecs cluster).length) (h : Descends values)
    (hcall : (mutateScaled rng report ((rng.sample (clusterSpecs cluster).length n s).1.filterMap
      fun i => (clusterSpecs cluster)[i]?) values s').1 = .ok new) :
    Descends new ∧ ChangedIn n (clusterFields cluster) values new := by
  set chosen := (rng.sample (clusterSpecs cluster).length n s).1 with hchosen
  have hmem : ∀ spec ∈ chosen.filterMap fun i => (clusterSpecs cluster)[i]?, spec ∈ clusterSpecs cluster := by
    intro spec hspec
    obtain ⟨i, -, hi⟩ := List.mem_filterMap.mp hspec
    exact List.mem_of_getElem? hi
  obtain ⟨hnew, hothers⟩ := mutateScaled_descends (fun spec hspec => mem_allSpecs (hmem spec hspec)) h hcall
  refine ⟨hnew, _, ?_, fun name hname => ?_, hothers⟩
  · have hlength : chosen.length = n := rng.length_sample _ _ _ hn
    rw [List.length_map, ← hlength]
    exact List.length_filterMap_le _ _
  · obtain ⟨spec, hspec, rfl⟩ := List.mem_map.mp hname
    exact List.mem_map_of_mem (hmem spec hspec)

theorem makeChild_descends {cfg : GenerationConfig} {sensitivity : Option SensitivityReport} (h : Descends values)
    (hcall : (makeChild rng cfg sensitivity values s).1 = .ok new) :
    Descends new ∧ ChangedIn cfg.nMutations.toNat (clusterFields cfg.cluster) values new := by
  have hfew {n : ℕ} (hn : n ≤ cfg.nMutations.toNat)
      (hnew : Descends new ∧ ChangedIn n (clusterFields cfg.cluster) values new) :
      Descends new ∧ ChangedIn cfg.nMutations.toNat (clusterFields cfg.cluster) values new :=
    ⟨hnew.1, hnew.2.mono hn (List.Subset.refl _)⟩
  cases sensitivity with
  | none =>
      simp only [makeChild, mutateCluster, Option.getD_some] at hcall
      split_ifs at hcall with hempty hneg
      · cases hcall
        exact ⟨h, ChangedIn.refl _ _ _⟩
      · rw [mutateFields_eq] at hcall
        exact hfew (by omega) (sample_descends (by omega) h hcall)
  | some report =>
      simp only [makeChild] at hcall
      split_ifs at hcall with hneg
      exact hfew (by omega) (sample_descends (by omega) h hcall)

/-! ## What one generation keeps -/

theorem candidateId_injective (gen : ℤ) (cluster : String) : (candidateId gen cluster).Injective := by
  intro i j h
  have hdigits : threeDigits i = threeDigits j := by simpa [candidateId] using h
  have hnumber (n : ℕ) : Nat.ofDigitChars 10 (threeDigits n) 0 = n := by
    rw [threeDigits, Nat.ofDigitChars_append, Nat.ofDigitChars_replicate_zero, Nat.mul_zero,
      Nat.ofDigitChars_ten_toDigits]
  rw [← hnumber i, hdigits, hnumber]

variable {cfg : GenerationConfig} {sensitivity : Option SensitivityReport} {parent : List Value}

/-- A candidate whose tuning is a child of the parent. -/
def ChildOf (cfg : GenerationConfig) (parent : List Value) (c : Candidate) : Prop :=
  ∃ child, c.tuning = toDict child ∧ Descends child ∧
    ChangedIn cfg.nMutations.toNat (clusterFields cfg.cluster) parent child

theorem childrenFrom_ok {is : List ℕ} {candidates : List Candidate} (h : Descends parent)
    (hcall : childrenFrom rng cfg sensitivity parent is s = .ok candidates) :
    candidates.map Candidate.candidateId = is.map (candidateId cfg.gen cfg.cluster) ∧
      ∀ c ∈ candidates, ChildOf cfg parent c := by
  induction is generalizing s candidates with
  | nil =>
      cases hcall
      simp
  | cons i is ih =>
      rw [childrenFrom] at hcall
      rcases hchild : makeChild rng cfg sensitivity parent s with ⟨r, s'⟩
      rw [hchild] at hcall
      cases r with
      | error e => cases hcall
      | ok child =>
          simp only at hcall
          cases hrest : childrenFrom rng cfg sensitivity parent is s' with
          | error e =>
              rw [hrest] at hcall
              cases hcall
          | ok rest =>
              rw [hrest] at hcall
              cases hcall
              obtain ⟨hids, hchildren⟩ := ih hrest
              have hnew := makeChild_descends h
                (congrArg Prod.fst hchild : (makeChild rng cfg sensitivity parent s).1 = .ok child)
              refine ⟨by simp [hids], fun c hc => ?_⟩
              obtain rfl | hc := List.mem_cons.mp hc
              · exact ⟨child, rfl, hnew.1, hnew.2⟩
              · exact hchildren c hc

theorem runGeneration_ok {weeklySpendUsd : ℚ} {result : GenerationResult} (h : Descends parent)
    (hcall : runGeneration rng cfg sensitivity weeklySpendUsd parent s = .ok result) :
    result.safety = checkSafety cfg weeklySpendUsd ∧
      (result.skipped = true ↔ ∃ c ∈ checkSafety cfg weeklySpendUsd, c.ok = false) ∧
      result.candidates.length = (if result.skipped then 0 else cfg.lambda.toNat) ∧
      (result.candidates.map Candidate.candidateId).Nodup ∧ ∀ c ∈ result.candidates, ChildOf cfg parent c := by
  simp only [runGeneration] at hcall
  split_ifs at hcall with hsafe
  · cases hchildren : makeChildCandidates rng cfg sensitivity parent s with
    | error e =>
        rw [hchildren] at hcall
        cases hcall
    | ok candidates =>
        rw [hchildren] at hcall
        cases hcall
        obtain ⟨hids, hall⟩ := childrenFrom_ok h hchildren
        refine ⟨rfl, ?_, ?_, ?_, hall⟩
        · rw [List.all_eq_true] at hsafe
          simpa using fun c hc => hsafe c hc
        · have hlength := congrArg List.length hids
          simpa using hlength
        · rw [hids]
          exact List.nodup_range.map (candidateId_injective _ _)
  · cases hcall
    refine ⟨rfl, ?_, rfl, List.nodup_nil, by simp⟩
    simpa [List.all_eq_true] using hsafe

/-- A candidate is read as the child it was written from. -/
theorem ChildOf.read {c : Candidate} (h : ChildOf cfg parent c) :
    ∃ child, fromDict c.dict = .ok child ∧ toDict child = c.tuning ∧ Descends child ∧
      ChangedIn cfg.nMutations.toNat (clusterFields cfg.cluster) parent child := by
  obtain ⟨child, htuning, hdescends, hchanged⟩ := h
  have hread := hdescends.carried.read c.candidateId
  rw [← htuning] at hread
  exact ⟨child, hread, htuning.symm, hdescends, hchanged⟩

/-! ## Lineages of tunings -/

/-- The checks let no more than five mutations through. -/
theorem nMutations_le {w : ℚ} (h : ∀ c ∈ checkSafety cfg w, c.ok = true) : cfg.nMutations ≤ 5 := by
  simpa using h ⟨"diff_size", cfg.nMutations ≤ 5⟩ (by simp [checkSafety])

theorem nextParent_descends (rng : Rng σ) (g : Generation σ) (h : Descends parent) :
    Descends (nextParent rng parent g) ∧
      ChangedIn 5 (clusterFields g.cfg.cluster) parent (nextParent rng parent g) := by
  have hsame : Descends parent ∧ ChangedIn 5 (clusterFields g.cfg.cluster) parent parent := ⟨h, ChangedIn.refl _ _ _⟩
  unfold nextParent
  cases hresult : runGeneration rng g.cfg g.sensitivity g.weeklySpendUsd parent g.seed with
  | error e => exact hsame
  | ok result =>
      obtain ⟨-, hskipped, hlength, -, hchildren⟩ := runGeneration_ok h hresult
      cases hpick : result.candidates[g.pick]? with
      | none => simpa only [hpick] using hsame
      | some candidate =>
          have hmem := List.mem_of_getElem? hpick
          obtain ⟨child, hread, -, hdescends, hchanged⟩ := (hchildren candidate hmem).read
          have hfew : g.cfg.nMutations ≤ 5 := by
            refine nMutations_le (w := g.weeklySpendUsd) fun c hc => ?_
            by_contra hfails
            rw [if_pos (hskipped.mpr ⟨c, hc, by simpa using hfails⟩)] at hlength
            rw [List.length_eq_zero_iff.mp hlength] at hmem
            cases hmem
          simp only [hpick, hread, Except.toOption, Option.getD_some]
          exact ⟨hdescends, hchanged.mono (by omega) (List.Subset.refl _)⟩

theorem run_descends (rng : Rng σ) (gs : List (Generation σ)) (h : Descends parent) :
    Descends (Steps.run (nextParent rng) parent gs) ∧
      ChangedIn (5 * gs.length) (gs.flatMap fun g => clusterFields g.cfg.cluster) parent
        (Steps.run (nextParent rng) parent gs) := by
  induction gs generalizing parent with
  | nil => exact ⟨h, ChangedIn.refl _ _ _⟩
  | cons g gs ih =>
      obtain ⟨hnext, hstep⟩ := nextParent_descends rng g h
      obtain ⟨hlast, hrun⟩ := ih hnext
      rw [Steps.run_cons]
      refine ⟨hlast, (hstep.trans hrun).mono ?_ ?_⟩
      · rw [List.length_cons]
        omega
      · rw [List.flatMap_cons]
        exact List.Subset.refl _

/-- **Every lineage stays confined.** However many generations are run, and whichever candidate of each is the next
parent: the parent passes `__post_init__`, differs from the defaults in no more than five fields a generation, all of
the clusters asked for, and every field is its default or within the bounds of its mutator. A generation on it is
skipped exactly when a check fails; otherwise it gives as many candidates as asked for, under different ids, each read
back as the child that was written. -/
theorem lineage_confined (rng : Rng σ) (gs : List (Generation σ)) :
    let parent := Steps.run (nextParent rng) defaults gs
    Valid parent ∧ Bounded parent ∧
      ChangedIn (5 * gs.length) (gs.flatMap fun g => clusterFields g.cfg.cluster) defaults parent ∧
      ∀ (g : Generation σ) (result : GenerationResult),
        runGeneration rng g.cfg g.sensitivity g.weeklySpendUsd parent g.seed = .ok result →
          (result.skipped = true ↔ ∃ c ∈ checkSafety g.cfg g.weeklySpendUsd, c.ok = false) ∧
          result.candidates.length = (if result.skipped then 0 else g.cfg.lambda.toNat) ∧
          (result.candidates.map Candidate.candidateId).Nodup ∧
          ∀ c ∈ result.candidates, ∃ child, fromDict c.dict = .ok child ∧ toDict child = c.tuning ∧ Valid child ∧
            Bounded child ∧ ChangedIn g.cfg.nMutations.toNat (clusterFields g.cfg.cluster) parent child := by
  obtain ⟨hparent, hchanged⟩ := run_descends rng gs descends_defaults
  refine ⟨hparent.carried.valid, hparent.bounded, hchanged, fun g result hresult => ?_⟩
  obtain ⟨-, hskipped, hlength, hids, hchildren⟩ := runGeneration_ok hparent hresult
  refine ⟨hskipped, hlength, hids, fun c hc => ?_⟩
  obtain ⟨child, hread, htuning, hdescends, hchild⟩ := (hchildren c hc).read
  exact ⟨child, hread, htuning, hdescends.carried.valid, hdescends.bounded, hchild⟩

end CryptoAggHarmonic.Loop.Search
