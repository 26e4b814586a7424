import Mathlib.Data.List.Basic
import CryptoAggHarmonic.FtStrategy.EventLog
import CryptoAggHarmonic.Lib.Table
import CryptoAggHarmonic.FtStrategy.Runs

/-!
# What a dual write leaves behind

The two commits of `record_event` end the transaction, so nothing is left to roll back when the append raises.
-/

namespace CryptoAggHarmonic.FtStrategy

variable {conn : Conn} {db : Db} {file : File} {fault : Option Fault} {savepointId strategyId : String}
  {a : EventArgs} {event : Event}

/-! ## The database -/

def Db.mirror (db : Db) (strategyId : String) : Option (Option Event × ℕ) :=
  (db.strategy? strategyId).map fun s => (s.lastEvent, s.stagnationCount)

theorem strategy?_isSome : (db.strategy? strategyId).isSome = db.hasStrategy strategyId := by
  exact List.isSome_find?

theorem strategy?_updateStrategy {set : Strategy → Strategy} (hset : ∀ s, (set s).id = s.id) :
    (db.updateStrategy strategyId set).strategy? strategyId = (db.strategy? strategyId).map set := by
  exact Rows.find?_update hset

/-- The database with the event of the call and its mirror. -/
def Db.withEvent (db : Db) (strategyId : String) (event : Event) (a : EventArgs) : Db :=
  Db.mirrorEvent { db with
    events := db.events ++ [⟨db.nextEventId, strategyId, a.version, event, a.sharpe, a.maxDd, some a.note⟩]
    nextEventId := db.nextEventId + 1 } strategyId event

@[simp] theorem withEvent_events : (db.withEvent strategyId event a).events =
    db.events ++ [⟨db.nextEventId, strategyId, a.version, event, a.sharpe, a.maxDd, some a.note⟩] := rfl

theorem mirror_withEvent : (db.withEvent strategyId event a).mirror strategyId =
    (db.strategy? strategyId).map fun s => (some event, Db.stagnationAfter event s.stagnationCount) := by
  unfold Db.mirror Db.withEvent Db.mirrorEvent
  rw [strategy?_updateStrategy, Option.map_map]
  · rfl
  · exact fun _ => rfl

/-! ## The connection -/

/-- After the commits of `record_event`. -/
def Conn.recorded (conn : Conn) (strategyId : String) (event : Event) (a : EventArgs) : Conn where
  committed := conn.working.withEvent strategyId event a
  working := conn.working.withEvent strategyId event a
  savepoints := []

theorem recordEvent_eq (hevent : Event.ofText a.event = some event) (hknown : conn.working.hasStrategy strategyId) :
    conn.recordEvent strategyId a = .ok (conn.working.nextEventId, conn.recorded strategyId event a) := by
  simp [Conn.recordEvent, hevent, Db.insertEvent, hknown, bind, Except.bind, pure, Except.pure, Conn.commit,
    Conn.recorded, Db.withEvent]

/-- The savepoint around `record_event` is gone, so there is nothing to go back to. -/
theorem rolledBack_recorded : rolledBack (conn.recorded strategyId event a) savepointId =
    conn.recorded strategyId event a := rfl

theorem released_recorded : released (conn.recorded strategyId event a) savepointId =
    conn.recorded strategyId event a := rfl

/-! ## The checks -/

/-- The checks before the first write stop the call. -/
def Refused (db : Db) (strategyId : String) (a : EventArgs) : Prop :=
  Event.ofText a.event = none ∨ pyStrip a.strategyName.toList = [] ∨ db.hasStrategy strategyId = false

theorem validateEvent_eq_ok : validateEvent db strategyId a = .ok () ↔ ¬ Refused db strategyId a := by
  unfold validateEvent Refused Db.getStrategy
  cases hevent : Event.ofText a.event with
  | none => simp
  | some event =>
      by_cases hname : pyStrip a.strategyName.toList = []
      · simp [hname]
      · rw [← strategy?_isSome]
        cases db.strategy? strategyId with
        | none => simp [hname]
        | some s => simp [hname]

/-! ## The append -/

/-- The fault strikes on the way of this append. The header is written only into a file that is missing or empty. -/
def Strikes (file : File) : Option Fault → Prop
  | none => False
  | some .headerOpen | some (.headerWrite _) => file.isEmpty
  | some _ => True

/-- A file that had no content has no more than a part of the header afterwards, another one is as it was. -/
def NoRow (before after : File) : Prop := after = before ∨ (before.isEmpty ∧ after.getD [] <+: line header)

/-- The file as the append reads it. -/
def File.withHeader (file : File) : List Char := if file.isEmpty then line header else file.getD []

theorem appendCrashSafe_struck (row : List Char) (h : Strikes file fault) :
    (appendCrashSafe file row fault).1 = true ∧ NoRow file (appendCrashSafe file row fault).2 := by
  have hwritten : ∀ file : File, file.isEmpty → NoRow file (some (line header)) :=
    fun file hempty => Or.inr ⟨hempty, List.prefix_rfl⟩
  cases fault with
  | none => exact absurd h id
  | some fault =>
      cases hempty : file.isEmpty with
      | true =>
          cases fault with
          | mkdir => exact ⟨rfl, Or.inl rfl⟩
          | headerOpen => simp [appendCrashSafe, writeHeaderIfMissing, hempty, NoRow]
          | headerWrite written =>
              simp [appendCrashSafe, writeHeaderIfMissing, hempty, NoRow, List.take_prefix]
          | mkstemp | copy | replace =>
              simp [appendCrashSafe, writeHeaderIfMissing, hempty, hwritten]
      | false =>
          cases fault with
          | mkdir => exact ⟨rfl, Or.inl rfl⟩
          | headerOpen | headerWrite written => simp [Strikes, hempty] at h
          | mkstemp | copy | replace => simp [appendCrashSafe, writeHeaderIfMissing, hempty, NoRow]

theorem appendCrashSafe_returns (row : List Char) (h : ¬ Strikes file fault) :
    appendCrashSafe file row fault = (false, some (withRow (universalNewlines file.withHeader) row)) := by
  unfold File.withHeader
  cases hempty : file.isEmpty with
  | true =>
      cases fault with
      | none => simp [appendCrashSafe, writeHeaderIfMissing, hempty]
      | some fault => cases fault <;> simp [Strikes, hempty] at h
  | false =>
      cases fault with
      | none => simp [appendCrashSafe, writeHeaderIfMissing, hempty]
      | some fault =>
          cases fault with
          | headerOpen | headerWrite written => simp [appendCrashSafe, writeHeaderIfMissing, hempty]
          | mkdir | mkstemp | copy | replace => simp [Strikes] at h

/-! ## The dual write -/

theorem recordEventDual_refused (repr : PyFloat → String) (file : File) (savepointId : String) (fault : Option Fault)
    (h : Refused conn.working strategyId a) : ∃ e,
    recordEventDual repr conn file savepointId strategyId a fault = { result := .error e, conn, file } := by
  unfold recordEventDual
  cases hvalid : validateEvent conn.working strategyId a with
  | ok u => exact absurd h (validateEvent_eq_ok.mp hvalid)
  | error e => exact ⟨e, rfl⟩

/-- Past its checks the call commits the event, whatever comes of the append. -/
theorem recordEventDual_recorded (repr : PyFloat → String) (file : File) (savepointId : String) (fault : Option Fault)
    (h : ¬ Refused conn.working strategyId a) : ∃ event,
    Event.ofText a.event = some event ∧
    recordEventDual repr conn file savepointId strategyId a fault = {
      result := if (appendCrashSafe file (formatRow repr a) fault).1 then .error .tsvWriteFailed
        else .ok conn.working.nextEventId
      conn := conn.recorded strategyId event a
      file := (appendCrashSafe file (formatRow repr a) fault).2 } := by
  have hvalid := validateEvent_eq_ok.mpr h
  have hsome : Event.ofText a.event ≠ none := fun hnone => h (Or.inl hnone)
  obtain ⟨event, hevent⟩ := Option.ne_none_iff_exists'.mp hsome
  have hknown : conn.working.hasStrategy strategyId := by
    rw [← Bool.not_eq_false]
    exact fun hno => h (Or.inr (Or.inr hno))
  have hrecorded : (conn.savepoint savepointId).recordEvent strategyId a =
      .ok (conn.working.nextEventId, conn.recorded strategyId event a) := recordEvent_eq hevent hknown
  refine ⟨event, hevent, ?_⟩
  unfold recordEventDual
  simp only [hvalid, hrecorded]
  cases appendCrashSafe file (formatRow repr a) fault with
  | mk raises file =>
      cases raises with
      | true => simp [rolledBack_recorded]
      | false => simp [released_recorded]

/-! ## Rows -/

section

variable {c : Char} {s : List Char} {repr : PyFloat → String}

theorem mem_pyStrip (h : c ∈ pyStrip s) : c ∈ s := by
  unfold pyStrip at h
  rw [List.mem_reverse] at h
  have hinner := (List.dropWhile_sublist _).subset h
  rw [List.mem_reverse] at hinner
  exact (List.dropWhile_sublist _).subset hinner

theorem mem_clean (h : c ∈ clean s) : c ≠ '\t' ∧ c ≠ '\n' := by
  obtain ⟨d, -, rfl⟩ := List.mem_map.mp (mem_pyStrip h)
  unfold cleanChar
  split_ifs with hd
  · decide
  · simpa using hd

theorem Commit.no_break (commit : Commit) (h : c ∈ commit.text) : c ≠ '\t' ∧ c ≠ '\n' := by
  have hplain := commit.plain c h
  constructor
  · rintro rfl
    revert hplain
    decide
  · rintro rfl
    revert hplain
    decide

theorem newline_notMem_clean : '\n' ∉ clean s := fun h => (mem_clean h).2 rfl

theorem tab_notMem_clean : '\t' ∉ clean s := fun h => (mem_clean h).1 rfl

theorem newline_notMem_formatRow : '\n' ∉ formatRow repr a := by
  have hcommit : '\n' ∉ a.commit.text := fun h => (a.commit.no_break h).2 rfl
  simp [formatRow, List.intercalate, List.intersperse, hcommit, newline_notMem_clean]

/-- A row is its six fields. -/
theorem splitOn_formatRow : (formatRow repr a).splitOn '\t' =
    [a.commit.text, clean a.event.toList, clean a.strategyName.toList,
      clean ((a.sharpe.map fun x => (repr x).toList).getD []), clean ((a.maxDd.map fun x => (repr x).toList).getD []),
      clean a.note.toList] := by
  have hcommit : '\t' ∉ a.commit.text := fun h => (a.commit.no_break h).1 rfl
  refine List.splitOn_intercalate '\t' ?_ (List.cons_ne_nil _ _)
  simp [hcommit, tab_notMem_clean]

theorem clean_event_ne (hevent : Event.ofText a.event = some event) : clean a.event.toList ≠ "event".toList := by
  unfold Event.ofText at hevent
  split at hevent <;> rename_i htext
  case h_8 => cases hevent
  all_goals
    rw [htext]
    decide

theorem formatRow_ne_header (hevent : Event.ofText a.event = some event) : formatRow repr a ≠ header := by
  intro h
  have hheader : header.splitOn '\t' = ["commit".toList, "event".toList, "strategy_name".toList, "sharpe".toList,
      "max_dd".toList, "note".toList] := by decide
  have hfields := congrArg (List.splitOn '\t') h
  rw [splitOn_formatRow, hheader] at hfields
  injection hfields with _ hfields
  injection hfields with hfield _
  exact clean_event_ne hevent hfield
end

/-! ## The text of the file -/

theorem universalNewlines_eq_nil {s : List Char} : universalNewlines s = [] ↔ s = [] := by
  constructor
  · intro h
    unfold universalNewlines at h
    split at h
    · cases h
    · cases h
    · cases h
    · rfl
  · rintro rfl
    rfl

theorem withHeader_ne_nil : file.withHeader ≠ [] := by
  unfold File.withHeader
  split_ifs with hempty
  · simp [line]
  · simpa [File.isEmpty] using hempty

/-- The row comes last, on a line of its own, and everything that was in the file comes before. -/
theorem withRow_eq (file : File) (row : List Char) : ∃ earlier,
    withRow (universalNewlines file.withHeader) row = earlier ++ line row ∧
    earlier.getLast? = some '\n' ∧ universalNewlines (file.getD []) <+: earlier := by
  have hchunk : universalNewlines (file.getD []) <+: universalNewlines file.withHeader := by
    unfold File.withHeader
    split_ifs with hempty
    · have hnil : file.getD [] = [] := by simpa [File.isEmpty] using hempty
      rw [hnil]
      exact List.nil_prefix
    · exact List.prefix_rfl
  have hne : universalNewlines file.withHeader ≠ [] := fun h => withHeader_ne_nil (universalNewlines_eq_nil.mp h)
  by_cases hlast : (universalNewlines file.withHeader).getLast? = some '\n'
  · refine ⟨_, ?_, hlast, hchunk⟩
    simp [withRow, hlast]
  · refine ⟨universalNewlines file.withHeader ++ ['\n'], ?_, by simp, hchunk.trans (List.prefix_append ..)⟩
    simp [withRow, hne, hlast]

end CryptoAggHarmonic.FtStrategy
