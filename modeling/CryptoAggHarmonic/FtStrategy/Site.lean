import CryptoAggHarmonic.Python.Text
import Mathlib.Data.List.Infix
import CryptoAggHarmonic.FtStrategy.EventLog
import Mathlib.Data.List.Sort
import Mathlib.Data.String.Basic
import Mathlib.Logic.Function.Basic

/-!
# The research note

`validate_research_md`: a note is long enough and has a heading for every section.
-/

namespace CryptoAggHarmonic.FtStrategy

def researchMdMinLength : ℕ := 200

def requiredSections : List String :=
  ["decision", "question", "motivation", "universe", "constraints", "failure modes", "open qs"]

def suggestedTemplate : String :=
  "## Decision\n(What business decision does this strategy support?)\n\n" ++
  "## Question\n(One-sentence research question — what is being tested?)\n\n" ++
  "## Motivation\n(Why this question matters; what makes it interesting?)\n\n" ++
  "## Universe\n(Pair list, timeframes, market regime scope — be specific.)\n\n" ++
  "## Constraints\n(Leverage, drawdown tolerance, position sizing, time budget, etc.)\n\n" ++
  "## Failure modes\n(How will we know this is *not* working? Sharpe diving, regime mismatch,\n" ++
  "oracle-gaming artifacts, etc.)\n\n" ++
  "## Open Qs\n(What do we still need to ask the user / clarify before generating code?)\n"

structure ResearchMdValidation where
  ok : Bool
  length : ℕ
  minLength : ℕ
  missingSections : List String
  presentSections : List String
  errors : List String
  suggestedTemplate : String
  deriving DecidableEq

/-! ## Headings -/

/-- What follows the one to six `#` of a heading; a blank comes next, or the end of the line. -/
def afterHashes? (line : List Char) : Option (List Char) :=
  let rest := line.dropWhile fun c => c = '#'
  let hashes := line.length - rest.length
  if 1 ≤ hashes ∧ hashes ≤ 6 ∧ rest.head?.all pyIsSpace then some rest else none

/-- The titles that are no blanks. After hashes alone the title is the next line that is not blank, whatever it is: the
blanks of the pattern go over the end of a line. -/
def titlesFrom (awaited : Bool) : List (List Char) → List (List Char)
  | [] => []
  | line :: lines =>
      if awaited then
        if pyStrip line = [] then titlesFrom true lines else pyStrip line :: titlesFrom false lines
      else
        match afterHashes? line with
        | none => titlesFrom false lines
        | some rest => if pyStrip rest = [] then titlesFrom true lines else pyStrip rest :: titlesFrom false lines

def extractTitles (md : List Char) : List (List Char) := titlesFrom false (md.splitOn '\n')

/-- `re.sub(r"\s+", " ", t)` -/
def collapseBlanks (afterBlank : Bool) : List Char → List Char
  | [] => []
  | c :: cs =>
      if pyIsSpace c then if afterBlank then collapseBlanks true cs else ' ' :: collapseBlanks true cs
      else c :: collapseBlanks false cs

def trailingPunctuation : List Char := "?:.!;,()[]\x7b\x7d".toList

/-- `_normalize`. Outside ASCII no lower case has a letter of a section where it would complete one. -/
def normalizeTitle (title : List Char) : List Char :=
  let t := collapseBlanks false ((pyStrip title).map Char.toLower)
  (t.reverse.dropWhile fun c => c ∈ trailingPunctuation).reverse

def hasSection (titles : List (List Char)) (sec : String) : Bool :=
  titles.any fun t => (normalizeTitle t).tails.any fun rest => sec.toList.isPrefixOf rest

def validateResearchMd (md : String) : ResearchMdValidation :=
  let titles := extractTitles md.toList
  let present := requiredSections.filter fun sec => hasSection titles sec
  let missing := requiredSections.filter fun sec => !hasSection titles sec
  let tooShort :=
    if md.length < researchMdMinLength then
      ["research_md must be >= " ++ toString researchMdMinLength ++ " characters (got " ++ toString md.length ++ ")"]
    else []
  let incomplete :=
    if missing ≠ [] then ["research_md is missing required sections: " ++ ", ".intercalate missing] else []
  let errors := tooShort ++ incomplete
  { ok := errors.isEmpty
    length := md.length
    minLength := researchMdMinLength
    missingSections := missing
    presentSections := present
    errors := errors
    suggestedTemplate := if errors.isEmpty then "" else suggestedTemplate }

/-!
# What the strategy endpoints work on

The database with the tables and columns that `Db` leaves out, the `.tsv` files, and the calls of the repository the
endpoints make on them.
-/

/-- A JSON object. -/
abbrev JsonObject (J : Type) := List (String × J)

/-- The other columns of a row of `ft_strategies`. -/
structure Columns (J : Type) where
  description : Option String
  marketType : String
  pair : String
  interval : String
  ideaSource : String
  ideaPayload : JsonObject J
  strategyFilePath : Option String
  /-- The whole object: `Strategy` has what the gate reads of it. -/
  latestResult : Option (JsonObject J)
  baselineComparison : Option (JsonObject J)
  deploymentPrUrl : Option String
  researchMd : Option String
  createdAt : String
  updatedAt : String

structure Run where
  id : String
  strategyId : String
  version : ℤ
  stage : String
  jobId : Option String
  status : String
  progressPct : ℤ
  result : Option String
  params : Option String
  startedAt : Option String
  finishedAt : Option String
  source : String
  createdAt : String

structure Job where
  jobId : String
  strategyId : String
  stage : String
  status : String
  progressPct : ℤ
  candidatesEvaluated : Option ℤ
  bestProfit : Option PyFloat
  error : Option String
  startedAt : Option String
  finishedAt : Option String
  resultSummary : Option String
  createdAt : String

structure Insight where
  id : String
  strategyId : Option String
  insightType : String
  content : String
  evidence : Option String
  confidence : Option String
  durableFactId : Option String
  createdAt : String

structure Site (J : Type) where
  db : Db
  /-- By the id of the row. -/
  columns : String → Columns J
  runs : List Run
  jobs : List Job
  insights : List Insight
  /-- By the id of the strategy. -/
  files : String → File

/-- What the request draws, and where the operating system lets the event log down. -/
structure Env where
  newId : String
  now : String
  /-- `CURRENT_TIMESTAMP` -/
  timestamp : String
  savepointId : String
  commit : Commit
  repr : PyFloat → String
  fault : Option Fault

/-- A row with all its columns. -/
structure StrategyDict (J : Type) where
  row : Strategy
  columns : Columns J

/-- `ORDER BY created_at DESC`: rows of the same time as they were inserted. -/
def newestFirst {α : Type} (createdAt : α → String) (rows : List α) : List α :=
  rows.insertionSort fun a b => createdAt b ≤ createdAt a

/-- `ORDER BY created_at` -/
def oldestFirst {α : Type} (createdAt : α → String) (rows : List α) : List α :=
  rows.insertionSort fun a b => createdAt a ≤ createdAt b

/-- `read_tsv_events`: every row with the names of the header. -/
def readTsvEvents (file : File) : List (List (List Char × List Char)) :=
  let lines := ((universalNewlines (file.getD [])).splitOn '\n').filter fun l => pyStrip l ≠ []
  match lines with
  | [] => []
  | header :: rows =>
      let columns := header.splitOn '\t'
      rows.map fun row =>
        let cells := row.splitOn '\t'
        columns.zip (cells ++ List.replicate (columns.length - cells.length) [])

namespace Site

variable {J : Type}

def dict (s : Site J) (row : Strategy) : StrategyDict J := ⟨row, s.columns row.id⟩

/-- An `UPDATE` of one row of `ft_strategies`, which sets `updated_at` as well. -/
def touched (s : Site J) (db : Db) (strategyId now : String) : Site J :=
  { s with
    db := db
    columns := Function.update s.columns strategyId { s.columns strategyId with updatedAt := now } }

def createStrategy (s : Site J) (env : Env) (user name : String) (columns : Columns J) :
    Except RepoError (StrategyDict J × Site J) := do
  let (row, db) ← s.db.createStrategy env.newId (some user) name
  return (⟨row, columns⟩, { s with db := db, columns := Function.update s.columns env.newId columns })

/-- With `ON DELETE CASCADE` in every table that refers to `ft_strategies`. -/
def deleteStrategy (s : Site J) (strategyId : String) : Site J :=
  { s with
    db := { s.db with
      strategies := s.db.strategies.filter fun t => t.id ≠ strategyId
      events := s.db.events.filter fun e => e.strategyId ≠ strategyId
      experiments := s.db.experiments.filter fun e => e.strategyId ≠ strategyId
      reports := s.db.reports.filter fun r => r.strategyId ≠ strategyId }
    runs := s.runs.filter fun r => r.strategyId ≠ strategyId
    jobs := s.jobs.filter fun j => j.strategyId ≠ strategyId
    insights := s.insights.filter fun i => i.strategyId ≠ some strategyId }

def refine (s : Site J) (env : Env) (strategyId : String) : Except RepoError (Site J) := do
  let db ← s.db.refine strategyId
  return s.touched db strategyId env.now

/-- `_enqueue_strategy_create`, whose exceptions are passed over. -/
def enqueueStrategyCreate (s : Site J) (env : Env) (strategyId : String) (version : ℕ) : Site J :=
  let jobId := "job-" ++ strategyId ++ "-" ++ toString version
  if !s.db.hasStrategy strategyId || s.jobs.any (fun j => j.jobId = jobId) then s
  else
    { s with jobs := s.jobs ++ [{
      jobId := jobId
      strategyId := strategyId
      stage := "code"
      status := "queued"
      progressPct := 0
      candidatesEvaluated := none
      bestProfit := none
      error := none
      startedAt := some env.now
      finishedAt := none
      resultSummary := none
      createdAt := env.timestamp }] }

def eventArgs (env : Env) (event strategyName : String) : EventArgs where
  event := event
  strategyName := strategyName
  sharpe := none
  maxDd := none
  note := ""
  version := none
  commit := env.commit

/-- `record_event_dual` from an endpoint, which passes over its exceptions. -/
def recordEvent (s : Site J) (env : Env) (strategyId event strategyName : String) : Site J :=
  let a := eventArgs env event strategyName
  let outcome := recordEventDual env.repr ⟨s.db, s.db, []⟩ (s.files strategyId) env.savepointId strategyId a env.fault
  match validateEvent s.db strategyId a with
  | .error _ => s
  | .ok _ =>
      { s.touched outcome.conn.committed strategyId env.now with
        files := Function.update s.files strategyId outcome.file }

end Site

end CryptoAggHarmonic.FtStrategy
