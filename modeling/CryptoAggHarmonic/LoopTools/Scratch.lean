import CryptoAggHarmonic.Lib.Interleave
import CryptoAggHarmonic.Lib.Table
import CryptoAggHarmonic.LoopTools.Gate
import Mathlib.Data.Rat.Defs

/-!
# Scratch and episodic memory

The threads of one process share the scratch dict and the episodic file. A step is one region under the lock, one look
at the file or one change of it; a thread that has returned starts the call it is given next. The clock and the gate
are read anew at every step.
-/

namespace CryptoAggHarmonic.LoopTools

open PyOs

/-! ## What is kept -/

/-- An entry of `_scratch`. Which of the puts it comes from is for the trail only, no step looks at it. -/
structure Entry where
  key : Text
  value : Text
  firstSeen : ℚ
  put : ℕ
  deriving DecidableEq

structure Record where
  ts : ℚ
  key : Text
  value : Text
  put : ℕ
  deriving DecidableEq

/-- A line of the episodic file. What stood there at the start has a time where it can be read as a record. -/
inductive Line
  | old (ts : Option ℚ)
  | record (r : Record)
  deriving DecidableEq

def Line.ts? : Line → Option ℚ
  | .old ts => ts
  | .record r => some r.ts

def Line.put? : Line → Option ℕ
  | .old _ => none
  | .record r => some r.put

/-- What has happened: the puts, those of which a record was written, those whose record was dropped for its age. -/
structure Trail where
  log : List Entry
  appended : List ℕ
  cleaned : List ℕ

structure Shared where
  scratch : Table Entry.key
  file : Option (List Line)
  trail : Trail

/-! ## The policy -/

inductive ScratchRaised
  /-- A pattern of the gate that is no text, or no list of patterns. -/
  | gate
  /-- `del _scratch[key]` -/
  | key
  /-- `remaining` was never assigned. -/
  | unbound
  deriving DecidableEq

def minValueLen : ℕ := 256

def minAgeHours : ℚ := 24

variable (lower : Text → Text)

/-- No pattern of the denylist occurs in the key or in the value. -/
def unlisted (key value : Text) : List Yaml → Except ScratchRaised Bool
  | [] => .ok true
  | .str pattern :: patterns =>
      if lower pattern <:+: lower key ∨ lower pattern <:+: lower value then .ok false
      else unlisted key value patterns
  | _ :: _ => .error .gate

/-- A configuration that does not load keeps the entry where it is. -/
def shouldPromote (now : ℚ) (gate : GateFile) (e : Entry) : Except ScratchRaised Bool :=
  if e.value.length < minValueLen then .ok false
  else if (now - e.firstSeen) / 3600 < minAgeHours then .ok false
  else
    match loadGateConfig gate with
    | .error _ => .ok false
    | .ok cfg =>
        match (cfg.get "denylist" (.seq [])).iter? with
        | none => .error .gate
        | some patterns => unlisted lower e.key e.value patterns

/-! ## The calls -/

inductive Call
  | scratchPut (key value : Text)
  | promoteAll
  | hygiene

/-- What a step finds outside: the call to start, the clock, and both for each entry that is looked at. -/
structure Input where
  call : Call
  clock : ℚ
  clockFor : Text → ℚ
  gateFor : Text → GateFile

inductive Result
  | stored
  | promoted (n : ℕ)
  | summary (promoted cleaned episodicRemaining scratchRemaining : ℕ)
  deriving DecidableEq

/-- `tidy`: the promotion is the first part of `hygiene`. -/
inductive Thread
  | returned (last : Option Result)
  | check (tidy : Bool)
  | create (tidy : Bool)
  | collect (tidy : Bool)
  | next (tidy : Bool) (toDelete : List Text) (promoted : ℕ)
  | append (tidy : Bool) (e : Entry) (toDelete : List Text) (promoted : ℕ)
  | delete (tidy : Bool) (e : Entry) (toDelete : List Text) (promoted : ℕ)
  | clean (promoted : ℕ)
  | rewrite (cutoff : ℚ) (remaining : List Line) (cleaned promoted : ℕ)
  | summarize (promoted cleaned : ℕ) (remaining : Option ℕ)
  | raised (e : ScratchRaised)
  deriving DecidableEq

/-- The keys to promote, in the order of the dict. -/
def eligible (inp : Input) : List Entry → Except ScratchRaised (List Text)
  | [] => .ok []
  | e :: entries => do
      let promotes ← shouldPromote lower (inp.clockFor e.key) (inp.gateFor e.key) e
      let rest ← eligible inp entries
      return if promotes then e.key :: rest else rest

def Shared.put (s : Shared) (now : ℚ) (key value : Text) : Shared :=
  let e : Entry := { key, value, firstSeen := now, put := s.trail.log.length }
  { s with scratch := s.scratch.put e, trail := { s.trail with log := s.trail.log ++ [e] } }

def Shared.append (s : Shared) (now : ℚ) (e : Entry) : Shared :=
  let r : Record := { ts := now, key := e.key, value := e.value, put := e.put }
  { s with file := some (s.file.getD [] ++ [.record r]),
           trail := { s.trail with appended := s.trail.appended ++ [e.put] } }

def maxAge : ℚ := 14 * 24 * 3600

def Line.tooOld (cutoff : ℚ) (line : Line) : Bool :=
  match line.ts? with
  | some ts => ts < cutoff
  | none => false

def Shared.rewrite (s : Shared) (cutoff : ℚ) (remaining : List Line) : Shared :=
  let dropped := ((s.file.getD []).filter (Line.tooOld cutoff)).filterMap Line.put?
  { s with file := some remaining, trail := { s.trail with cleaned := s.trail.cleaned ++ dropped } }

/-- One step of one thread. -/
def act (inp : Input) (s : Shared) : Thread → Shared × Thread
  | .returned _ =>
      match inp.call with
      | .scratchPut key value => (s.put inp.clock key value, .returned (some .stored))
      | .promoteAll => (s, .check false)
      | .hygiene => (s, .check true)
  | .check tidy => (s, if s.file.isSome then .collect tidy else .create tidy)
  | .create tidy => ({ s with file := some [] }, .collect tidy)
  | .collect tidy =>
      match eligible lower inp s.scratch.rows with
      | .ok toDelete => (s, .next tidy toDelete 0)
      | .error e => (s, .raised e)
  | .next tidy [] promoted => (s, if tidy then .clean promoted else .returned (some (.promoted promoted)))
  | .next tidy (key :: toDelete) promoted =>
      match s.scratch.get? key with
      | some e => (s, .append tidy e toDelete promoted)
      | none => (s, .next tidy toDelete promoted)
  | .append tidy e toDelete promoted => (s.append inp.clock e, .delete tidy e toDelete promoted)
  | .delete tidy e toDelete promoted =>
      match s.scratch.get? e.key with
      | some _ => ({ s with scratch := s.scratch.delete e.key }, .next tidy toDelete (promoted + 1))
      | none => (s, .raised .key)
  | .clean promoted =>
      match s.file with
      | none => (s, .summarize promoted 0 none)
      | some lines =>
          let cutoff := inp.clock - maxAge
          let remaining := lines.filter fun line => !line.tooOld cutoff
          (s, .rewrite cutoff remaining (lines.length - remaining.length) promoted)
  | .rewrite cutoff remaining cleaned promoted =>
      (s.rewrite cutoff remaining, .summarize promoted cleaned (some remaining.length))
  | .summarize promoted cleaned remaining =>
      let size := s.scratch.rows.length
      match s.file, remaining with
      | none, _ => (s, .returned (some (.summary promoted cleaned 0 size)))
      | some _, some n => (s, .returned (some (.summary promoted cleaned n size)))
      | some _, none => (s, .raised .unbound)
  | .raised e => (s, .raised e)

abbrev Threads (ι : Type) := Interleave.World ι Shared Thread

/-- The module has just been loaded: nothing in scratch, any file of earlier processes. -/
def start {ι : Type} (file : Option (List (Option ℚ))) : Threads ι where
  shared := { scratch := Table.empty, file := file.map (·.map .old), trail := ⟨[], [], []⟩ }
  procs _ := .returned none

end CryptoAggHarmonic.LoopTools
