import CryptoAggHarmonic.FtStrategy.Repo

/-!
# The event log

`record_event_dual`: an event goes into the database and, as one row, into the `.tsv` file of its strategy. The
connection follows SQLite: a commit ends the transaction and every savepoint in it, and rolling back to a savepoint that
is gone is an error.
-/

namespace CryptoAggHarmonic.FtStrategy

inductive EventLogError
  | unknownEvent (event : String)
  | strategyNameEmpty
  | strategyNotFound (strategyId : String)
  | tsvWriteFailed
  | repo (error : RepoError)
  deriving DecidableEq

/-! ## Rows -/

/-- A short commit hash, or `no-git`. -/
structure Commit where
  text : List Char
  plain : ∀ c ∈ text, c.isAlphanum ∨ c = '-'

structure EventArgs where
  event : String
  strategyName : String
  sharpe : Option PyFloat
  maxDd : Option PyFloat
  note : String
  version : Option ℤ
  commit : Commit

def cleanChar (c : Char) : Char := if c = '\t' || c = '\n' then ' ' else c

def clean (s : List Char) : List Char := pyStrip (s.map cleanChar)

/-- `_format_row`, over the `repr` of floats. -/
def formatRow (repr : PyFloat → String) (a : EventArgs) : List Char :=
  let sharpe := (a.sharpe.map fun x => (repr x).toList).getD []
  let maxDd := (a.maxDd.map fun x => (repr x).toList).getD []
  ['\t'].intercalate [a.commit.text, clean a.event.toList, clean a.strategyName.toList, clean sharpe, clean maxDd,
    clean a.note.toList]

def line (row : List Char) : List Char := row ++ ['\n']

def header : List Char := "commit\tevent\tstrategy_name\tsharpe\tmax_dd\tnote".toList

/-- What `_append_crash_safe` writes to the temporary file. -/
def withRow (chunk row : List Char) : List Char :=
  chunk ++ (if chunk ≠ [] ∧ chunk.getLast? ≠ some '\n' then ['\n'] else []) ++ line row

/-! ## Writing the file -/

/-- Where the operating system lets the append down. -/
inductive Fault
  | mkdir
  | headerOpen
  /-- So many characters of the header get written. -/
  | headerWrite (written : ℕ)
  | mkstemp
  | copy
  | replace
  deriving DecidableEq

abbrev File := Option (List Char)

def File.isEmpty (file : File) : Bool := file.getD [] = []

/-- `_write_header_if_missing`: whether it raises, and the file afterwards. -/
def writeHeaderIfMissing (file : File) (fault : Option Fault) : Bool × File :=
  if file.isEmpty then
    match fault with
    | some .headerOpen => (true, file)
    | some (.headerWrite written) => (true, some ((line header).take written))
    | _ => (false, some (line header))
  else (false, file)

/-- `_append_crash_safe`: whether it raises, and the file afterwards. -/
def appendCrashSafe (file : File) (row : List Char) (fault : Option Fault) : Bool × File :=
  if fault = some .mkdir then (true, file)
  else
    match writeHeaderIfMissing file fault with
    | (true, file) => (true, file)
    | (false, file) =>
        match fault with
        | some .mkstemp | some .copy | some .replace => (true, file)
        | _ => (false, some (withRow (universalNewlines (file.getD [])) row))

/-- `EventLogEntry` -/
structure EventLogEntry where
  event : String
  strategyName : String
  sharpe : Option PyFloat := none
  maxDd : Option PyFloat := none
  note : String := ""

/-- What `_git_commit_short` returns: `sha or "no-git"`. -/
structure ShortCommit extends Commit where
  nonempty : text ≠ []

/-- An entry with the commit its row gets. -/
structure LogRow where
  commit : ShortCommit
  entry : EventLogEntry

def LogRow.args (r : LogRow) : EventArgs where
  event := r.entry.event
  strategyName := r.entry.strategyName
  sharpe := r.entry.sharpe
  maxDd := r.entry.maxDd
  note := r.entry.note
  version := none
  commit := r.commit.toCommit

/-- One append after the other, each of which goes through. -/
def appendRows (repr : PyFloat → String) (file : File) (rows : List LogRow) : File :=
  rows.foldl (fun file r => (appendCrashSafe file (formatRow repr r.args) none).2) file

/-! ## The connection -/

structure Conn where
  /-- What is durable, and what other connections see. -/
  committed : Db
  /-- What this connection sees. -/
  working : Db
  /-- The savepoints of the transaction, the newest first. -/
  savepoints : List (String × Db)

namespace Conn

def savepoint (c : Conn) (name : String) : Conn := { c with savepoints := (name, c.working) :: c.savepoints }

def commit (c : Conn) : Conn where
  committed := c.working
  working := c.working
  savepoints := []

/-- `ROLLBACK TO SAVEPOINT`, an error when there is none of that name. -/
def rollbackTo (c : Conn) (name : String) : Option Conn :=
  match c.savepoints.dropWhile fun s => s.1 ≠ name with
  | [] => none
  | s :: older => some { c with working := s.2, savepoints := s :: older }

/-- `RELEASE SAVEPOINT`, an error when there is none of that name. -/
def release (c : Conn) (name : String) : Option Conn :=
  match c.savepoints.dropWhile fun s => s.1 ≠ name with
  | [] => none
  | _ :: older => some { c with savepoints := older }

/-- `repo.record_event`, which commits after the insert and again after the mirror. -/
def recordEvent (c : Conn) (strategyId : String) (a : EventArgs) : Except RepoError (ℕ × Conn) :=
  match Event.ofText a.event with
  | none => .error (.ftStrategyError "unknown event: ")
  | some event => do
      let (id, db) ← c.working.insertEvent strategyId a.version event a.sharpe a.maxDd (some a.note)
      let inserted := { c with working := db }.commit
      return (id, { inserted with working := inserted.working.mirrorEvent strategyId event }.commit)

end Conn

/-! ## The dual write -/

structure Outcome where
  result : Except EventLogError ℕ
  conn : Conn
  file : File

def validateEvent (db : Db) (strategyId : String) (a : EventArgs) : Except EventLogError Unit :=
  if (Event.ofText a.event).isNone then .error (.unknownEvent a.event)
  else if pyStrip a.strategyName.toList = [] then .error .strategyNameEmpty
  else
    match db.getStrategy strategyId with
    | .ok _ => .ok ()
    | .error _ => .error (.strategyNotFound strategyId)

/-- The exit of `_event_log_transaction` after an exception: an error of the rollback is passed over. -/
def rolledBack (c : Conn) (savepointId : String) : Conn := (c.rollbackTo savepointId).getD c

def released (c : Conn) (savepointId : String) : Conn := (c.release savepointId).getD c

def recordEventDual (repr : PyFloat → String) (conn : Conn) (file : File) (savepointId strategyId : String)
    (a : EventArgs) (fault : Option Fault) : Outcome :=
  match validateEvent conn.working strategyId a with
  | .error e => { result := .error e, conn, file }
  | .ok _ =>
      let opened := conn.savepoint savepointId
      match opened.recordEvent strategyId a with
      | .error e => { result := .error (.repo e), conn := rolledBack opened savepointId, file }
      | .ok (id, recorded) =>
          match appendCrashSafe file (formatRow repr a) fault with
          | (true, file) => { result := .error .tsvWriteFailed, conn := rolledBack recorded savepointId, file }
          | (false, file) => { result := .ok id, conn := released recorded savepointId, file }

end CryptoAggHarmonic.FtStrategy
