import CryptoAggHarmonic.Python.JsonDumps

/-!
# The review of candidates by hand

`app/loop/maker_checker/review.py`: the decisions of human reviewers, one JSON object on each line of
`HUMAN_REVIEW_LOG.jsonl`.
-/

namespace CryptoAggHarmonic.Loop

open PyOs (Text)
open JsonText (IsJson dumpsLine loadLines members)

/-! ## Decisions -/

def validDecisions : List Text := ["accept".toList, "reject".toList, "no_action".toList]

structure HumanReviewDecision where
  candidateId : Text
  decision : Text
  reviewer : Text
  timestamp : Text
  notes : Text
  valid : validDecisions.contains decision
  candidate : candidateId ≠ []
  reviewed : reviewer ≠ []

/-- What the command line passes on. -/
structure Request where
  candidateId : Text
  decision : Text
  reviewer : Text
  timestamp : Text
  notes : Text

/-- `__post_init__`, which raises a `ValueError` in the order of its checks. -/
def Request.decide (r : Request) : Except String HumanReviewDecision :=
  if valid : validDecisions.contains r.decision then
    if candidate : r.candidateId ≠ [] then
      if reviewed : r.reviewer ≠ [] then
        .ok { candidateId := r.candidateId, decision := r.decision, reviewer := r.reviewer, timestamp := r.timestamp,
              notes := r.notes, valid, candidate, reviewed }
      else .error "reviewer is required"
    else .error "candidate_id is required"
  else .error "decision must be one of ('accept', 'reject', 'no_action')"

/-- `to_dict`, with its keys sorted. -/
def HumanReviewDecision.toDict (d : HumanReviewDecision) : List (Text × Yaml) :=
  [("candidate_id".toList, .str d.candidateId), ("decision".toList, .str d.decision), ("notes".toList, .str d.notes),
    ("reviewer".toList, .str d.reviewer), ("timestamp".toList, .str d.timestamp)]

def HumanReviewDecision.entry (d : HumanReviewDecision) : Yaml := .map (members d.toDict)

/-! ## The log -/

section

variable (ft : Yaml.FloatText)

/-- The log with a decision appended; a file that is missing is made. -/
def appendDecision (log : Option Text) (d : HumanReviewDecision) : Option Text :=
  some (log.getD [] ++ dumpsLine ft d.entry)

/-- Nothing where `json.loads` raises. -/
def loadPending : Option Text → Option (List Yaml)
  | none => some []
  | some log => loadLines ft log

/-- The command `record`: a request that is no decision leaves the log alone. -/
def recordRequest (log : Option Text) (r : Request) : Option Text :=
  match r.decide with
  | .ok d => appendDecision ft log d
  | .error _ => log

/-- The entries that the command `list` shows. -/
def listEntries (log : Option Text) (limit : ℤ) : Option (List Yaml) :=
  (loadPending ft log).map fun entries => pySlice entries (-limit) entries.length

end

/-- The decisions among the requests, in their order. -/
def decisions (requests : List Request) : List HumanReviewDecision := requests.filterMap fun r => r.decide.toOption

/-! ## The log is read back -/

variable {ft : JsonText.ReprText}

theorem HumanReviewDecision.isJson (d : HumanReviewDecision) : IsJson ft d.entry := by
  refine .map ?_ ?_
  · simp only [HumanReviewDecision.toDict, List.map_cons, List.map_nil]
    decide
  · simp only [HumanReviewDecision.toDict, List.forall_mem_cons, List.not_mem_nil, false_implies, implies_true,
      and_true]
    exact ⟨.str _, .str _, .str _, .str _, .str _⟩

theorem toOption_cases (r : Request) : (∃ d, r.decide = .ok d ∧ r.decide.toOption = some d) ∨
    ∃ e, r.decide = .error e ∧ r.decide.toOption = none := by
  cases r.decide with
  | ok d => exact Or.inl ⟨d, rfl, rfl⟩
  | error e => exact Or.inr ⟨e, rfl, rfl⟩

/-- A run of requests appends the lines of the decisions among them. -/
theorem run_requests (ft : Yaml.FloatText) (requests : List Request) (log : Option Text) :
    (requests.foldl (recordRequest ft) log).getD [] =
      log.getD [] ++ ((decisions requests).map HumanReviewDecision.entry).flatMap (dumpsLine ft) := by
  induction requests generalizing log with
  | nil => simp [decisions]
  | cons r requests ih =>
      rw [List.foldl_cons, ih]
      obtain ⟨d, hd, hopt⟩ | ⟨e, he, hopt⟩ := toOption_cases r
      · have hcons : decisions (r :: requests) = d :: decisions requests := List.filterMap_cons_some hopt
        simp [recordRequest, hd, appendDecision, hcons]
      · have hcons : decisions (r :: requests) = decisions requests := List.filterMap_cons_none hopt
        simp [recordRequest, he, hcons]

theorem loadPending_getD (ft : Yaml.FloatText) (log : Option Text) :
    loadPending ft log = loadPending ft (some (log.getD [])) := by
  cases log with
  | none => rfl
  | some log => rfl

/-- `xs[-limit:]` -/
theorem pySlice_limit {α : Type} (xs : List α) (limit : ℤ) : pySlice xs (-limit) xs.length =
    xs.drop (if 0 < limit then xs.length - limit.toNat else (-limit).toNat) := by
  split_ifs with h
  · have hlast : pySlice xs (-(limit.toNat : ℤ)) xs.length = xs.drop (xs.length - limit.toNat) :=
      pySlice_last (by omega)
    rwa [Int.toNat_of_nonneg (by omega)] at hlast
  · rw [pySlice, clampIndex, clampIndex, if_neg (by omega : ¬ (xs.length : ℤ) < 0), if_neg (by omega : ¬ -limit < 0)]
    simp only [Int.toNat_natCast, Nat.min_self, List.take_length]
    rcases Nat.le_total (-limit).toNat xs.length with hle | hle
    · rw [Nat.min_eq_left hle]
    · rw [Nat.min_eq_right hle, List.drop_length, List.drop_eq_nil_of_le hle]

/-- **The review log gives back every decision,** whatever its texts are made of, and no other request; a limit of 0
shows them all, a negative one all but the oldest. -/
theorem review_readBack (ft : JsonText.ReprText) (requests : List Request) :
    let log := requests.foldl (recordRequest ft.toFloatText) none
    loadPending ft.toFloatText log = some ((decisions requests).map HumanReviewDecision.entry) ∧
      ∀ limit, listEntries ft.toFloatText log limit =
        some (((decisions requests).map HumanReviewDecision.entry).drop
          (if 0 < limit then (decisions requests).length - limit.toNat else (-limit).toNat)) := by
  have hload : loadPending ft.toFloatText (requests.foldl (recordRequest ft.toFloatText) none) =
      some ((decisions requests).map HumanReviewDecision.entry) := by
    rw [loadPending_getD, run_requests, Option.getD_none, List.nil_append]
    refine JsonText.loadLines_dumps fun v hv => ?_
    obtain ⟨d, -, rfl⟩ := List.mem_map.mp hv
    exact d.isJson
  refine ⟨hload, fun limit => ?_⟩
  rw [listEntries, hload, Option.map_some, pySlice_limit, List.length_map]

end CryptoAggHarmonic.Loop
