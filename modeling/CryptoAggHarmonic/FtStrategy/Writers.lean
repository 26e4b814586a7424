import CryptoAggHarmonic.Lib.Interleave
import CryptoAggHarmonic.FtStrategy.EventLog
import CryptoAggHarmonic.FtStrategy.Repo

/-!
# Several writers of one event log

`record_event_dual` of one strategy from several callers, cut at every step another caller can come between: the two
commits, and on the file the look at its size, the opening and the write of the header, the read, the write of the
temporary file and the replace. Files are known by their inodes, since a caller goes on with the file it has opened
when another replaces its name.
-/

namespace CryptoAggHarmonic.FtStrategy

inductive WritePhase
  | validate
  | insert
  | mirror (id : ℕ) (event : Event)
  | stat (id : ℕ)
  | openHeader (id : ℕ)
  /-- Has opened, and so truncated, the file for the header. -/
  | writeHeader (id inode : ℕ)
  | read (id : ℕ)
  /-- Has read the file. -/
  | write (id : ℕ) (chunk : List Char)
  /-- Has written the temporary file. -/
  | replace (id : ℕ) (temp : List Char)
  | returned (id : ℕ)
  | raised (error : EventLogError)
  deriving DecidableEq

structure Writer where
  args : EventArgs
  phase : WritePhase

def Writer.goto (c : Writer) (phase : WritePhase) : Writer := { c with phase }

structure Store where
  db : Db
  /-- The contents of every file that was ever the `.tsv` file, by inode. -/
  inodes : List (List Char)
  /-- The inode that has the name of the `.tsv` file. -/
  path : Option ℕ

namespace Store

def content (s : Store) (inode : ℕ) : List Char := (s.inodes[inode]?).getD []

def file (s : Store) : File := s.path.map s.content

def text (s : Store) : List Char := s.file.getD []

/-- `open(path, "w")`: the inode, emptied, or made when there is none. -/
def openTruncated (s : Store) : Store × ℕ :=
  match s.path with
  | some inode => ({ s with inodes := s.inodes.set inode [] }, inode)
  | none => ({ s with inodes := s.inodes ++ [[]], path := some s.inodes.length }, s.inodes.length)

/-- A write at the start of an open file. -/
def writeFirst (s : Store) (inode : ℕ) (text : List Char) : Store :=
  { s with inodes := s.inodes.modify inode fun old => text ++ old.drop text.length }

/-- `os.replace(temp, path)` -/
def replaceBy (s : Store) (temp : List Char) : Store :=
  { s with inodes := s.inodes ++ [temp], path := some s.inodes.length }

end Store

/-- The next step of a call. A step on the file fails on `some written`; a failed write of the header has written so
many characters of it. -/
def writeStep (repr : PyFloat → String) (strategyId : String) (failed : Option ℕ) (s : Store) (c : Writer) :
    Store × Writer :=
  match c.phase with
  | .validate =>
      match validateEvent s.db strategyId c.args with
      | .ok _ => (s, c.goto .insert)
      | .error e => (s, c.goto (.raised e))
  | .insert =>
      match Event.ofText c.args.event with
      | none => (s, c.goto (.raised (.repo (.ftStrategyError "unknown event: "))))
      | some event =>
          match s.db.insertEvent strategyId c.args.version event c.args.sharpe c.args.maxDd (some c.args.note) with
          | .ok (id, db) => ({ s with db }, c.goto (.mirror id event))
          | .error e => (s, c.goto (.raised (.repo e)))
  | .mirror id event => ({ s with db := s.db.mirrorEvent strategyId event }, c.goto (.stat id))
  | .stat id =>
      if failed.isSome then (s, c.goto (.raised .tsvWriteFailed))
      else (s, c.goto (if s.file.isEmpty then .openHeader id else .read id))
  | .openHeader id =>
      if failed.isSome then (s, c.goto (.raised .tsvWriteFailed))
      else (s.openTruncated.1, c.goto (.writeHeader id s.openTruncated.2))
  | .writeHeader id inode =>
      match failed with
      | some written => (s.writeFirst inode ((line header).take written), c.goto (.raised .tsvWriteFailed))
      | none => (s.writeFirst inode (line header), c.goto (.read id))
  | .read id =>
      if failed.isSome || s.path.isNone then (s, c.goto (.raised .tsvWriteFailed))
      else (s, c.goto (.write id (universalNewlines s.text)))
  | .write id chunk =>
      if failed.isSome then (s, c.goto (.raised .tsvWriteFailed))
      else (s, c.goto (.replace id (withRow chunk (formatRow repr c.args))))
  | .replace id temp =>
      if failed.isSome then (s, c.goto (.raised .tsvWriteFailed))
      else (s.replaceBy temp, c.goto (.returned id))
  | .returned _ => (s, c)
  | .raised _ => (s, c)

abbrev Writers (ι : Type) := Interleave.World ι Store Writer

def logText (rows : List (List Char)) : List Char := line header ++ rows.flatMap line

/-- The calls, none of which has begun, on a file that is missing or holds the rows of earlier calls. -/
def Writers.start {ι : Type} (db : Db) (earlier : Option (List (List Char))) (args : ι → EventArgs) : Writers ι where
  shared := {
    db
    inodes := (earlier.map logText).toList
    path := earlier.map fun _ => 0 }
  procs := fun c => { args := args c, phase := .validate }

/-!
# Publishing a report from several callers

`publish_report` in its two steps on the database: the `SELECT` with the checks, and the `UPDATE`.
-/

inductive PublishPhase
  | start
  | selected
  | returned
  | raised (error : RepoError)
  deriving DecidableEq

structure PublishCall where
  reservedFinding : String
  phase : PublishPhase
  deriving DecidableEq

/-- The next step of a `publish_report` of the report, at the time `now`. -/
def publishStep (reportId now : String) (db : Db) (c : PublishCall) : Db × PublishCall :=
  match c.phase with
  | .start =>
      match db.publishCheck reportId c.reservedFinding with
      | .ok _ => (db, { c with phase := .selected })
      | .error e => (db, { c with phase := .raised e })
  | .selected => (db.publishUpdate reportId c.reservedFinding now, { c with phase := .returned })
  | .returned => (db, c)
  | .raised _ => (db, c)

def PublishCall.Over (c : PublishCall) : Prop := c.phase ≠ .start ∧ c.phase ≠ .selected

abbrev Publishers (ι : Type) := Interleave.World ι Db PublishCall

/-- The callers with their findings, none of which has begun. -/
def Publishers.start {ι : Type} (db : Db) (findings : ι → String) : Publishers ι where
  shared := db
  procs := fun c => { reservedFinding := findings c, phase := .start }

end CryptoAggHarmonic.FtStrategy
