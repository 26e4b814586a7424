import CryptoAggHarmonic.Loop.Search
import CryptoAggHarmonic.Python.JsonDumps

/-!
# From the search to the harness

The file `next_generation.json` that `run_generation` of `app/loop/search.py` writes, the jobs that `app/loop/driver.py`
makes of it, and what `run_candidate` of `app/loop/worker.py` makes of a job: the snapshot that the harness loads.
-/

namespace CryptoAggHarmonic.Loop.Search

open PyOs (Text)
open JsonText (IsJson ReprText dumps members)

/-! ## The file -/

/-- What `run_generation` is asked for, and the candidates it made. -/
structure CandidatesFile where
  gen : ℤ
  cluster : Text
  symbolSet : Text
  quarter : Option Text
  candidates : List Candidate

def Candidate.value (c : Candidate) : Yaml :=
  .map (members [("candidate_id".toList, .str c.candidateId), ("tuning".toList, .map c.dict)])

def quarterValue : Option Text → Yaml
  | none => .null
  | some quarter => .str quarter

/-- `cand_payload` -/
def CandidatesFile.payload (file : CandidatesFile) : Yaml :=
  .map (members [("gen".toList, .int file.gen), ("cluster".toList, .str file.cluster),
    ("symbol_set".toList, .str file.symbolSet), ("quarter".toList, quarterValue file.quarter),
    ("candidates".toList, .seq (file.candidates.map Candidate.value))])

variable (ft : Yaml.FloatText)

/-- The text of `next_generation.json`. -/
def CandidatesFile.text (file : CandidatesFile) : Text := dumps ft (some 2) file.payload

/-! ## The driver -/

structure Job where
  candidateId : Yaml
  tuning : Yaml
  symbolSet : Yaml
  quarter : Yaml

structure Batch where
  gen : Yaml
  cluster : Yaml
  jobs : List Job

/-- The job of a candidate; nothing where a key is missing. -/
def readJob (symbolSet quarter : Yaml) : Yaml → Option Job
  | .map c => do
      let candidateId ← Yaml.lookup "candidate_id".toList c
      let tuning ← Yaml.lookup "tuning".toList c
      return ⟨candidateId, tuning, symbolSet, quarter⟩
  | _ => none

/-- The driver up to its jobs; nothing where it raises. -/
def readBatch (text : Text) : Option Batch :=
  match JsonText.loads ft text with
  | some (.map cfg) => do
      let symbolSet := (Yaml.lookup "symbol_set".toList cfg).getD (.str "BTCUSD,ETHUSD,SOLUSD".toList)
      let quarter := (Yaml.lookup "quarter".toList cfg).getD .null
      let candidates ← (Yaml.lookup "candidates".toList cfg).bind Yaml.iter?
      let jobs ← candidates.mapM (readJob symbolSet quarter)
      return ⟨(Yaml.lookup "gen".toList cfg).getD (.int 0), (Yaml.lookup "cluster".toList cfg).getD (.str ['?']), jobs⟩
  | _ => none

/-! ## The worker -/

/-- The tuning that `run_candidate` makes of a job; nothing where it raises. -/
def Job.workerTuning (job : Job) : Option (List Value) :=
  match job.tuning with
  | .map d => (fromDict d).toOption
  | _ => none

/-- The tuning that the harness loads from the snapshot of the worker. -/
def Job.harnessTuning (job : Job) : Option (List Value) :=
  job.workerTuning.bind fun values => loadTuning ft (snapshotText ft values)

/-! ## Tunings are values of JSON -/

variable {ft : ReprText} {v : Value}

theorem isJson_finite {u : Yaml} (h : Finite ft.toFloatText u) : IsJson ft u := by
  cases u with
  | int n => exact .int n
  | float x =>
      cases x with
      | finite x => exact .float h
      | _ => cases h
  | _ => cases h

theorem isJson_of_allows {kind : Kind} (h : kind.Allows ft.toFloatText v) : IsJson ft v.toPlain := by
  cases kind with
  | number =>
      cases v with
      | plain u => exact isJson_finite h
      | _ => cases h
  | numbers =>
      cases v with
      | plain u =>
          cases u with
          | map entries =>
              obtain ⟨items, rfl, hkeys, hfinite⟩ := h
              exact .map hkeys fun item hitem => isJson_finite (hfinite item hitem)
          | _ => cases h
      | _ => cases h
  | texts =>
      cases v with
      | plain u =>
          cases u with
          | map entries =>
              obtain ⟨items, rfl, hkeys⟩ := h
              have hitems : items.map (fun item => (Yaml.str item.1, Yaml.str item.2)) =
                  members (items.map fun item => (item.1, Yaml.str item.2)) := by simp [members]
              rw [Value.toPlain, hitems]
              refine .map (by simpa [Function.comp_def] using hkeys) fun item hitem => ?_
              obtain ⟨source, -, rfl⟩ := List.mem_map.mp hitem
              exact .str source.2
          | _ => cases h
      | _ => cases h
  | families =>
      cases v with
      | frozenset xs =>
          refine .seq fun x hx => ?_
          obtain ⟨s, -, rfl⟩ := List.mem_map.mp hx
          exact .str s
      | _ => cases h
  | legs =>
      cases v with
      | tuple xs => exact .seq fun x hx => isJson_finite (h x hx)
      | _ => cases h

/-- The candidate that a tuning is written to. -/
def candidateOf (id : Text) (t : Tuning ft.toFloatText) : Candidate := ⟨id, toDict t.values⟩

theorem dict_candidateOf (id : Text) (t : Tuning ft.toFloatText) : (candidateOf id t).dict =
    (fields.zip t.values).map fun field => (Yaml.str field.1.1.toList, field.2.toPlain) := by
  rw [Candidate.dict, candidateOf, toDict_eq, List.map_map]
  rfl

theorem fromDict_candidateOf (id : Text) (t : Tuning ft.toFloatText) :
    fromDict (candidateOf id t).dict = .ok t.values := by
  rw [dict_candidateOf]
  exact fromDict_toDict t

theorem isJson_dict (id : Text) (t : Tuning ft.toFloatText) : IsJson ft (.map (candidateOf id t).dict) := by
  have hdict : (candidateOf id t).dict =
      members ((fields.zip t.values).map fun field => (field.1.1.toList, field.2.toPlain)) := by
    rw [dict_candidateOf, members, List.map_map]
    rfl
  rw [hdict]
  refine .map ?_ fun item hitem => ?_
  · have hzip : (fields.zip t.values).map Prod.fst = fields := List.map_fst_zip (by rw [t.typed.length_eq])
    have hnames : ((fields.zip t.values).map fun field => (field.1.1.toList, field.2.toPlain)).map Prod.fst =
        ((fields.zip t.values).map Prod.fst).map fun field => field.1.toList := by
      simp [Function.comp_def]
    rw [hnames, hzip]
    exact names_nodup
  · obtain ⟨⟨field, v⟩, hmem, rfl⟩ := List.mem_map.mp hitem
    exact isJson_of_allows ((List.forall₂_iff_zip.mp t.typed).2 hmem)

theorem isJson_value (id : Text) (t : Tuning ft.toFloatText) : IsJson ft (candidateOf id t).value := by
  have hkeys : (["candidate_id".toList, "tuning".toList] : List Text).Nodup := by decide
  refine .map hkeys ?_
  simp only [List.forall_mem_cons, List.not_mem_nil, false_implies, implies_true, and_true]
  exact ⟨.str _, isJson_dict id t⟩

/-! ## The jobs of a file -/

/-- A generation whose candidates are tunings, each under its id. -/
structure Handover (ft : ReprText) where
  gen : ℤ
  cluster : Text
  symbolSet : Text
  quarter : Option Text
  children : List (Text × Tuning ft.toFloatText)

def Handover.file (h : Handover ft) : CandidatesFile :=
  ⟨h.gen, h.cluster, h.symbolSet, h.quarter, h.children.map fun child => candidateOf child.1 child.2⟩

/-- The job of a child. -/
def Handover.job (h : Handover ft) (child : Text × Tuning ft.toFloatText) : Job :=
  ⟨.str child.1, .map (candidateOf child.1 child.2).dict, .str h.symbolSet, quarterValue h.quarter⟩

theorem isJson_quarter (quarter : Option Text) : IsJson ft (quarterValue quarter) := by
  cases quarter with
  | none => exact .null
  | some quarter => exact .str quarter

theorem Handover.isJson (h : Handover ft) : IsJson ft h.file.payload := by
  have hkeys : (["gen".toList, "cluster".toList, "symbol_set".toList, "quarter".toList, "candidates".toList] :
      List Text).Nodup := by decide
  refine .map hkeys ?_
  simp only [List.forall_mem_cons, List.not_mem_nil, false_implies, implies_true, and_true]
  refine ⟨.int _, .str _, .str _, isJson_quarter _, .seq fun x hx => ?_⟩
  obtain ⟨c, hc, rfl⟩ := List.mem_map.mp hx
  obtain ⟨child, -, rfl⟩ := List.mem_map.mp hc
  exact isJson_value child.1 child.2

theorem readJobs (h : Handover ft) (children : List (Text × Tuning ft.toFloatText)) :
    ((children.map fun child => candidateOf child.1 child.2).map Candidate.value).mapM
      (readJob (.str h.symbolSet) (quarterValue h.quarter)) = some (children.map h.job) := by
  induction children with
  | nil => rfl
  | cons child children ih =>
      rw [List.map_cons, List.map_cons, List.mapM_cons, ih]
      rfl

theorem readBatch_text (h : Handover ft) : readBatch ft.toFloatText (h.file.text ft.toFloatText) =
    some ⟨.int h.gen, .str h.cluster, h.children.map h.job⟩ := by
  have hloads : JsonText.loads ft.toFloatText (h.file.text ft.toFloatText) = some h.file.payload :=
    JsonText.loads_dumps h.isJson (some 2)
  rw [readBatch, hloads]
  change (((h.file.candidates.map Candidate.value).mapM (readJob (.str h.symbolSet) (quarterValue h.quarter))).bind
    fun jobs => some (Batch.mk (.int h.gen) (.str h.cluster) jobs)) = _
  rw [Handover.file, readJobs, Option.bind_some]

/-- **What the search hands over arrives.** The driver reads from the file the generation, the cluster, and a job for
every candidate in order, each with its id, the symbols and the quarter. The worker makes of each job the tuning that
was written, and where its scalars and keys are plain the harness loads that tuning again. -/
theorem handover_arrives (h : Handover ft) : ∃ batch,
    readBatch ft.toFloatText (h.file.text ft.toFloatText) = some batch ∧
    batch.gen = .int h.gen ∧ batch.cluster = .str h.cluster ∧
    batch.jobs.map (fun job => (job.candidateId, job.symbolSet, job.quarter)) =
      h.children.map (fun child => (.str child.1, .str h.symbolSet, quarterValue h.quarter)) ∧
    batch.jobs.map Job.workerTuning = h.children.map (fun child => some child.2.values) ∧
    ((∀ child ∈ h.children, ∀ v ∈ child.2.values, v.Plain ft.toFloatText) →
      batch.jobs.map (Job.harnessTuning ft.toFloatText) = h.children.map fun child => some child.2.values) := by
  have hworker (child : Text × Tuning ft.toFloatText) : (h.job child).workerTuning = some child.2.values := by
    simp only [Handover.job, Job.workerTuning, fromDict_candidateOf]
    rfl
  refine ⟨_, readBatch_text h, rfl, rfl, ?_, ?_, fun hplain => ?_⟩
  · rw [List.map_map]
    rfl
  · rw [List.map_map]
    exact List.map_congr_left fun child _ => hworker child
  · rw [List.map_map]
    refine List.map_congr_left fun child hchild => ?_
    rw [Function.comp_apply, Job.harnessTuning, hworker, Option.bind_some]
    exact loadTuning_snapshot child.2 (hplain child hchild)

end CryptoAggHarmonic.Loop.Search
