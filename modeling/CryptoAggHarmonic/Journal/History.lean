import Mathlib.Algebra.GroupWithZero.Nat
import Mathlib.Data.List.Sort
import Mathlib.Data.String.Basic
import CryptoAggHarmonic.Lib.Interleave

/-!
# The journal of experiments

`append_history`, cut at every step another process can come between: the scan for a conflicting source, the append
and the rotation of `HISTORY.jsonl`. Files are known by their inodes, since a process goes on with the file it has
opened when another unlinks its name. The exclusive lock makes the write and the reading of the size one step, the
shared lock the scan.
-/

namespace CryptoAggHarmonic.Journal

structure Record where
  candidateId : Option String
  source : Option String
  /-- The other entries of the record. -/
  body : String
  /-- The length of its line in bytes. -/
  bytes : ℕ
  deriving DecidableEq

/-! ## The source mutex -/

def compatibleSources : List (String × String) :=
  [("freqtrade_hyperopt", "freqtrade_hyperopt"), ("okx_live", "okx_live"), ("okx_paper", "okx_paper"),
    ("okx_live", "okx_paper")]

def isConflictingSource (existing : Option String) (new : String) : Bool :=
  match existing with
  | none => false
  | some e =>
      if e = new then false
      else !compatibleSources.any fun p => p = (e, new) || p = (new, e)

/-- The scan for `new` raises at the line of `existing`. -/
def conflicts (existing new : Record) : Bool :=
  match new.candidateId, new.source with
  | some id, some source => existing.candidateId = some id && isConflictingSource existing.source source
  | _, _ => false

/-! ## The files -/

/-- `HISTORY-<ts>.jsonl.gz`, with the inode it was made from. -/
structure Archive where
  name : String
  inode : ℕ
  records : List Record
  deriving DecidableEq

structure Root where
  /-- The contents of every file that was ever `HISTORY.jsonl`, by inode. -/
  inodes : List (List Record)
  /-- The inode named `HISTORY.jsonl`. -/
  history : Option ℕ
  archives : List Archive
  /-- The records whose append succeeded, in that order. -/
  log : List Record
  deriving DecidableEq

def Root.empty : Root where
  inodes := []
  history := none
  archives := []
  log := []

namespace Root

def content (r : Root) (inode : ℕ) : List Record := (r.inodes[inode]?).getD []

/-- `os.open(path, O_WRONLY | O_CREAT | O_APPEND)`: the inode, made when there is none. -/
def openHistory (r : Root) : Root × ℕ :=
  match r.history with
  | some inode => (r, inode)
  | none => ({ r with inodes := r.inodes ++ [[]], history := some r.inodes.length }, r.inodes.length)

def write (r : Root) (inode : ℕ) (record : Record) : Root :=
  { r with inodes := r.inodes.modify inode (· ++ [record]), log := r.log ++ [record] }

def size (r : Root) (inode : ℕ) : ℕ := ((r.content inode).map Record.bytes).sum

/-- `gzip.open(name, "wb")`: an empty archive, whatever had the name. -/
def createArchive (r : Root) (name : String) (inode : ℕ) : Root :=
  { r with archives :=
      if r.archives.any fun a => a.name = name then
        r.archives.map fun a => if a.name = name then { name, inode, records := [] } else a
      else r.archives ++ [{ name, inode, records := [] }] }

/-- `shutil.copyfileobj`. -/
def fillArchive (r : Root) (name : String) (inode : ℕ) : Root :=
  { r with archives := r.archives.map fun a => if a.name = name then { a with records := r.content inode } else a }

end Root

def archiveName (ts : ℕ) : String := "HISTORY-" ++ toString ts ++ ".jsonl.gz"

/-- `replay_from_history`: the files in the order of their names, `HISTORY.jsonl` last. -/
def replayFromHistory (r : Root) : List Record :=
  ((r.archives.insertionSort fun a b => a.name ≤ b.name).flatMap Archive.records) ++
    match r.history with
    | some inode => r.content inode
    | none => []

/-! ## The calls -/

inductive Phase
  | start
  /-- Has opened `HISTORY.jsonl` for the scan. -/
  | scan (inode : ℕ)
  | openAppend
  /-- Has opened `HISTORY.jsonl` for the write. -/
  | append (inode : ℕ)
  | rotate
  /-- Has opened `HISTORY.jsonl` for the copy. -/
  | createArchive (name : String) (inode : ℕ)
  | copy (name : String) (inode : ℕ)
  | unlink (inode : ℕ)
  | returned
  /-- `SourceMutexError`. -/
  | raised
  deriving DecidableEq

structure Call where
  record : Record
  rotateBytes : ℕ
  phase : Phase
  deriving DecidableEq

def Call.goto (c : Call) (phase : Phase) : Call := { c with phase }

/-- The next step of a call of `append_history`, at the time `now` in seconds. -/
def act (now : ℕ) (r : Root) (c : Call) : Root × Call :=
  match c.phase with
  | .start =>
      if c.record.candidateId.isSome && c.record.source.isSome then
        match r.history with
        | some inode => (r, c.goto (.scan inode))
        | none => (r, c.goto .openAppend)
      else (r, c.goto .openAppend)
  | .scan inode =>
      if (r.content inode).any fun existing => conflicts existing c.record then (r, c.goto .raised)
      else (r, c.goto .openAppend)
  | .openAppend => (r.openHistory.1, c.goto (.append r.openHistory.2))
  | .append inode =>
      let written := r.write inode c.record
      let newSize := written.size inode
      (written, c.goto (if newSize ≠ 0 ∧ newSize ≥ c.rotateBytes then .rotate else .returned))
  | .rotate =>
      match r.history with
      | some inode => (r, c.goto (.createArchive (archiveName now) inode))
      | none => (r, c.goto .returned)
  | .createArchive name inode => (r.createArchive name inode, c.goto (.copy name inode))
  | .copy name inode => (r.fillArchive name inode, c.goto (.unlink inode))
  -- The name is unlinked, whatever file has it by now; when none has it the error is swallowed.
  | .unlink _ => ({ r with history := none }, c.goto .returned)
  | .returned => (r, c)
  | .raised => (r, c)

abbrev World (ι : Type) := Interleave.World ι Root Call

/-- The calls of the processes, none of which has begun, on an empty root. -/
def start {ι : Type} (calls : ι → Record × ℕ) : World ι where
  shared := .empty
  procs := fun c => { record := (calls c).1, rotateBytes := (calls c).2, phase := .start }

def Call.Over (c : Call) : Prop := c.phase = .returned ∨ c.phase = .raised

end CryptoAggHarmonic.Journal
