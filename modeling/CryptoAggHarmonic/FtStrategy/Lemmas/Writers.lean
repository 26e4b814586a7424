import CryptoAggHarmonic.FtStrategy.Writers
import CryptoAggHarmonic.FtStrategy.Lemmas.EventLog

/-!
# What interleaved writers keep

Two invariants. In the database every call that has inserted its event has an id of its own. In the file the rows are
those of the calls that have returned, as long as no header empties a file with rows and no replace puts an outdated
copy in its place.
-/

namespace CryptoAggHarmonic.FtStrategy

variable {ι : Type} {repr : PyFloat → String} {strategyId : String} {failed : Option ℕ} {s : Store} {c : Writer}
  {w : Writers ι} {e : ι × Option ℕ} {earlier : Option (List (List Char))} {args : ι → EventArgs}
  {rows : List (ℕ × List Char)} {inode id : ℕ} {text temp : List Char}

/-! ## The files -/

namespace Store

def Named (s : Store) : Prop := ∀ inode, s.path = some inode → inode < s.inodes.length

theorem text_of_path (h : s.path = some inode) : s.text = s.content inode := by
  simp [text, file, h]

theorem text_of_no_path (h : s.path = none) : s.text = [] := by
  simp [text, file, h]

theorem openTruncated_path : s.openTruncated.1.path = some s.openTruncated.2 := by
  unfold openTruncated
  cases h : s.path with
  | none => rfl
  | some inode => rfl

@[simp] theorem openTruncated_db : s.openTruncated.1.db = s.db := by
  unfold openTruncated
  cases s.path <;> rfl

theorem openTruncated_lt (h : s.Named) : s.openTruncated.2 < s.openTruncated.1.inodes.length := by
  unfold openTruncated
  cases hpath : s.path with
  | none => simp
  | some inode => simpa using h inode hpath

theorem openTruncated_length : s.inodes.length ≤ s.openTruncated.1.inodes.length := by
  unfold openTruncated
  cases s.path <;> simp

theorem text_openTruncated : s.openTruncated.1.text = [] := by
  rw [text_of_path openTruncated_path]
  unfold openTruncated
  cases s.path with
  | none => simp [content]
  | some inode =>
      by_cases h : inode < s.inodes.length
      · simp [content, h]
      · simp [content, h]

theorem text_writeFirst_self (hnamed : s.Named) (h : s.path = some inode) :
    (s.writeFirst inode text).text = text ++ s.text.drop text.length := by
  have hlt := hnamed inode h
  rw [text_of_path h, text_of_path (s := s.writeFirst inode text) h]
  simp [content, writeFirst, hlt]

theorem text_writeFirst_other (h : s.path ≠ some inode) : (s.writeFirst inode text).text = s.text := by
  cases hpath : s.path with
  | none => rw [text_of_no_path hpath, text_of_no_path (s := s.writeFirst inode text) hpath]
  | some other =>
      have hne : inode ≠ other := fun heq => h (heq ▸ hpath)
      rw [text_of_path hpath, text_of_path (s := s.writeFirst inode text) hpath]
      simp [content, writeFirst, hne]

theorem named_openTruncated (h : s.Named) : s.openTruncated.1.Named := by
  intro inode hpath
  rw [openTruncated_path, Option.some.injEq] at hpath
  exact hpath ▸ openTruncated_lt h

theorem named_replaceBy : (s.replaceBy temp).Named := by
  intro inode hpath
  cases hpath
  simp [replaceBy]

theorem writeFirst_length : (s.writeFirst inode text).inodes.length = s.inodes.length := by
  simp [writeFirst]

theorem file_replaceBy : (s.replaceBy temp).file = some temp := by
  simp [file, content, replaceBy]

theorem text_replaceBy : (s.replaceBy temp).text = temp := by
  rw [text, file_replaceBy, Option.getD_some]

end Store

/-! ## The ids -/

/-- The id of the event of a call that has inserted it. -/
def Writer.id? (c : Writer) : Option ℕ :=
  match c.phase with
  | .mirror id _ | .stat id | .openHeader id | .writeHeader id _ | .read id | .write id _ | .replace id _
  | .returned id => some id
  | _ => none

theorem writeStep_args : (writeStep repr strategyId failed s c).2.args = c.args := by
  unfold writeStep
  split <;> first | rfl | (split <;> first | rfl | (split <;> rfl))

theorem insertEvent_eq_ok {db db' : Db} {version : Option ℤ} {event : Event} {sharpe maxDd : Option PyFloat}
    {note : Option String} (h : db.insertEvent strategyId version event sharpe maxDd note = .ok (id, db')) :
    id = db.nextEventId ∧ db'.nextEventId = db.nextEventId + 1 := by
  unfold Db.insertEvent at h
  split_ifs at h
  cases h
  exact ⟨rfl, rfl⟩

/-- A step gives the call the next id, or keeps what ids there are; a call that raises gives up its own. -/
theorem writeStep_id? (repr : PyFloat → String) (strategyId : String) (failed : Option ℕ) (s : Store) (c : Writer) :
    ((writeStep repr strategyId failed s c).1.db.nextEventId = s.db.nextEventId ∧
      ((writeStep repr strategyId failed s c).2.id? = c.id? ∨ (writeStep repr strategyId failed s c).2.id? = none)) ∨
    ((writeStep repr strategyId failed s c).1.db.nextEventId = s.db.nextEventId + 1 ∧
      (writeStep repr strategyId failed s c).2.id? = some s.db.nextEventId ∧
      ∃ event, Event.ofText c.args.event = some event) := by
  unfold writeStep
  cases hphase : c.phase with
  | validate =>
      dsimp only
      cases validateEvent s.db strategyId c.args with
      | ok u => exact Or.inl ⟨rfl, Or.inr rfl⟩
      | error error => exact Or.inl ⟨rfl, Or.inr rfl⟩
  | insert =>
      dsimp only
      cases hevent : Event.ofText c.args.event with
      | none => exact Or.inl ⟨rfl, Or.inr rfl⟩
      | some event =>
          dsimp only
          cases hinsert : s.db.insertEvent strategyId c.args.version event c.args.sharpe c.args.maxDd
              (some c.args.note) with
          | error error => exact Or.inl ⟨rfl, Or.inr rfl⟩
          | ok inserted =>
              obtain ⟨hid, hnext⟩ := insertEvent_eq_ok hinsert
              exact Or.inr ⟨hnext, congrArg some hid, event, rfl⟩
  | mirror id event => exact Or.inl ⟨rfl, Or.inl (by simp [Writer.id?, Writer.goto, hphase])⟩
  | stat id =>
      dsimp only
      split_ifs
      · exact Or.inl ⟨rfl, Or.inr rfl⟩
      · exact Or.inl ⟨rfl, Or.inl (by simp [Writer.id?, Writer.goto, hphase])⟩
      · exact Or.inl ⟨rfl, Or.inl (by simp [Writer.id?, Writer.goto, hphase])⟩
  | openHeader id =>
      dsimp only
      split_ifs
      · exact Or.inl ⟨rfl, Or.inr rfl⟩
      · exact Or.inl ⟨by simp, Or.inl (by simp [Writer.id?, Writer.goto, hphase])⟩
  | writeHeader id inode =>
      cases failed with
      | none => exact Or.inl ⟨rfl, Or.inl (by simp [Writer.id?, Writer.goto, hphase])⟩
      | some written => exact Or.inl ⟨rfl, Or.inr rfl⟩
  | read id =>
      dsimp only
      split_ifs
      · exact Or.inl ⟨rfl, Or.inr rfl⟩
      · exact Or.inl ⟨rfl, Or.inl (by simp [Writer.id?, Writer.goto, hphase])⟩
  | write id chunk =>
      dsimp only
      split_ifs
      · exact Or.inl ⟨rfl, Or.inr rfl⟩
      · exact Or.inl ⟨rfl, Or.inl (by simp [Writer.id?, Writer.goto, hphase])⟩
  | replace id temp =>
      dsimp only
      split_ifs
      · exact Or.inl ⟨rfl, Or.inr rfl⟩
      · exact Or.inl ⟨rfl, Or.inl (by simp [Writer.id?, Writer.goto, hphase])⟩
  | returned id => exact Or.inl ⟨rfl, Or.inl rfl⟩
  | raised error => exact Or.inl ⟨rfl, Or.inl rfl⟩

/-- The ids are those of the database, one for each call. -/
structure Numbered (w : Writers ι) : Prop where
  below : ∀ c id, (w.procs c).id? = some id → id < w.shared.db.nextEventId
  distinct : ∀ c d id, (w.procs c).id? = some id → (w.procs d).id? = some id → c = d
  known : ∀ c id, (w.procs c).id? = some id → ∃ event, Event.ofText (w.procs c).args.event = some event

theorem numbered_start {db : Db} : Numbered (Writers.start db earlier args) := by
  constructor
  · intro c id h
    cases h
  · intro c d id h
    cases h
  · intro c id h
    cases h

variable [DecidableEq ι]

theorem step_args (c : ι) : ((Interleave.step (writeStep repr strategyId) w e).procs c).args = (w.procs c).args :=
  Interleave.forall_procs_step (P := fun c (p : Writer) => p.args = (w.procs c).args) writeStep_args (fun _ _ => rfl) c

theorem Numbered.step (h : Numbered w) : Numbered (Interleave.step (writeStep repr strategyId) w e) := by
  have hdb : (Interleave.step (writeStep repr strategyId) w e).shared.db =
      (writeStep repr strategyId e.2 w.shared (w.procs e.1)).1.db := rfl
  rcases writeStep_id? repr strategyId e.2 w.shared (w.procs e.1) with ⟨hnext, hkept⟩ | ⟨hnext, hnew, hevent⟩
  · have hbefore : ∀ c id, ((Interleave.step (writeStep repr strategyId) w e).procs c).id? = some id →
        (w.procs c).id? = some id := by
      refine Interleave.forall_procs_step (P := fun c (p : Writer) => ∀ id, p.id? = some id → (w.procs c).id? = some id)
        ?_ fun c _ id hid => hid
      intro id hid
      rcases hkept with hkept | hnone
      · rw [← hkept, hid]
      · rw [hnone] at hid
        cases hid
    constructor
    · intro c id hid
      rw [hdb, hnext]
      exact h.below c id (hbefore c id hid)
    · intro c d id hc hd
      exact h.distinct c d id (hbefore c id hc) (hbefore d id hd)
    · intro c id hid
      rw [step_args]
      exact h.known c id (hbefore c id hid)
  · -- The new id is above all that are there.
    have hids : ∀ c id, ((Interleave.step (writeStep repr strategyId) w e).procs c).id? = some id →
        (c = e.1 ∧ id = w.shared.db.nextEventId) ∨ (w.procs c).id? = some id := by
      refine Interleave.forall_procs_step (P := fun c (p : Writer) => ∀ id, p.id? = some id →
        (c = e.1 ∧ id = w.shared.db.nextEventId) ∨ (w.procs c).id? = some id) ?_ fun c _ id hid => Or.inr hid
      intro id hid
      rw [hnew, Option.some.injEq] at hid
      exact Or.inl ⟨rfl, hid.symm⟩
    constructor
    · intro c id hid
      rw [hdb, hnext]
      rcases hids c id hid with ⟨-, rfl⟩ | hold
      · exact Nat.lt_succ_self _
      · exact Nat.lt_succ_of_lt (h.below c id hold)
    · intro c d id hc hd
      rcases hids c id hc with ⟨rfl, rfl⟩ | hc
      · rcases hids d _ hd with ⟨rfl, -⟩ | hd
        · rfl
        · exact absurd (h.below d _ hd) (lt_irrefl _)
      · rcases hids d id hd with ⟨-, rfl⟩ | hd
        · exact absurd (h.below c _ hc) (lt_irrefl _)
        · exact h.distinct c d id hc hd
    · intro c id hid
      rw [step_args]
      rcases hids c id hid with ⟨rfl, -⟩ | hold
      · exact hevent
      · exact h.known c id hold

/-! ## The file -/

/-- What a step does to the files. -/
inductive FileEffect (failed : Option ℕ) (s : Store) (c : Writer) : Store × Writer → Prop
  | ended : FileEffect failed s c (s, c)
  | aside (db : Db) (phase : WritePhase) (hbefore : ∀ id, c.phase ≠ .returned id) (hafter : ∀ id, phase ≠ .returned id)
      (hopened : ∀ id inode, phase ≠ .writeHeader id inode)
      (hempty : ∀ id, phase = .openHeader id → s.file.isEmpty) :
      FileEffect failed s c ({ s with db }, c.goto phase)
  | opened (id : ℕ) (hphase : c.phase = .openHeader id) (hfailed : failed = none) :
      FileEffect failed s c (s.openTruncated.1, c.goto (.writeHeader id s.openTruncated.2))
  | headed (id inode written : ℕ) (phase : WritePhase) (hphase : c.phase = .writeHeader id inode)
      (hwritten : failed = some written ∨ (line header).length ≤ written)
      (hafter : phase = .read id ∨ phase = .raised .tsvWriteFailed) :
      FileEffect failed s c (s.writeFirst inode ((line header).take written), c.goto phase)
  | replaced (id : ℕ) (temp : List Char) (hphase : c.phase = .replace id temp) (hfailed : failed = none) :
      FileEffect failed s c (s.replaceBy temp, c.goto (.returned id))

theorem FileEffect.raised {error : EventLogError} (hbefore : ∀ id, c.phase ≠ .returned id) :
    FileEffect failed s c (s, c.goto (.raised error)) := by
  refine .aside s.db _ hbefore ?_ ?_ ?_ <;> intros <;> simp_all

theorem writeStep_effect (repr : PyFloat → String) (strategyId : String) (failed : Option ℕ) (s : Store) (c : Writer) :
    FileEffect failed s c (writeStep repr strategyId failed s c) := by
  unfold writeStep
  cases hphase : c.phase with
  | validate =>
      have hbefore : ∀ id, c.phase ≠ .returned id := by simp [hphase]
      dsimp only
      cases validateEvent s.db strategyId c.args with
      | ok u => exact .aside s.db _ hbefore (by simp) (by simp) (by simp)
      | error error => exact .raised hbefore
  | insert =>
      have hbefore : ∀ id, c.phase ≠ .returned id := by simp [hphase]
      dsimp only
      cases Event.ofText c.args.event with
      | none => exact .raised hbefore
      | some event =>
          dsimp only
          cases s.db.insertEvent strategyId c.args.version event c.args.sharpe c.args.maxDd (some c.args.note) with
          | error error => exact .raised hbefore
          | ok inserted => exact .aside inserted.2 _ hbefore (by simp) (by simp) (by simp)
  | mirror id event => exact .aside _ _ (by simp [hphase]) (by simp) (by simp) (by simp)
  | stat id =>
      have hbefore : ∀ id, c.phase ≠ .returned id := by simp [hphase]
      dsimp only
      split_ifs with hfailed hempty
      · exact .raised hbefore
      · exact .aside s.db _ hbefore (by simp) (by simp) (fun _ _ => hempty)
      · exact .aside s.db _ hbefore (by simp) (by simp) (by simp)
  | openHeader id =>
      dsimp only
      split_ifs with hfailed
      · exact .raised (by simp [hphase])
      · exact .opened id hphase (by simpa using hfailed)
  | writeHeader id inode =>
      cases failed with
      | none =>
          have hall : line header = (line header).take (line header).length := List.take_length.symm
          dsimp only
          rw [hall]
          exact .headed id inode _ _ hphase (Or.inr le_rfl) (Or.inl rfl)
      | some written => exact .headed id inode written _ hphase (Or.inl rfl) (Or.inr rfl)
  | read id =>
      have hbefore : ∀ id, c.phase ≠ .returned id := by simp [hphase]
      dsimp only
      split_ifs
      · exact .raised hbefore
      · exact .aside s.db _ hbefore (by simp) (by simp) (by simp)
  | write id chunk =>
      have hbefore : ∀ id, c.phase ≠ .returned id := by simp [hphase]
      dsimp only
      split_ifs
      · exact .raised hbefore
      · exact .aside s.db _ hbefore (by simp) (by simp) (by simp)
  | replace id temp =>
      dsimp only
      split_ifs with hfailed
      · exact .raised (by simp [hphase])
      · exact .replaced id temp hphase (by simpa using hfailed)
  | returned id => exact .ended
  | raised error => exact .ended

/-- **When the log is complete.** The header is opened only while the file holds no row, and no part of it is left
there by a failed write. What a call puts in place is the file as it is by then, with the row of the call, its row has
no carriage return, and the calls that have returned have smaller ids. -/
def WriteSound (repr : PyFloat → String) (w : Writers ι) (e : ι × Option ℕ) : Prop :=
  match (w.procs e.1).phase with
  | .openHeader _ => e.2 = none → w.shared.text = [] ∨ w.shared.text = line header
  | .writeHeader _ inode => ∀ written, e.2 = some written → w.shared.path = some inode → w.shared.text = [] →
      written = 0 ∨ (line header).length ≤ written
  | .replace id temp => e.2 = none →
      temp = w.shared.file.withHeader ++ line (formatRow repr (w.procs e.1).args) ∧
      '\r' ∉ formatRow repr (w.procs e.1).args ∧ ∀ d other, (w.procs d).phase = .returned other → other < id
  | _ => True

theorem logText_ne_nil {rs : List (List Char)} : logText rs ≠ [] := by
  simp [logText, line]

theorem logText_eq_header {rs : List (List Char)} (h : logText rs = line header) : rs = [] := by
  have hnone : rs.flatMap line = [] := by simpa [logText] using h
  cases rs with
  | nil => rfl
  | cons r rs => simp [line] at hnone

theorem logText_snoc {rs : List (List Char)} {r : List Char} : logText (rs ++ [r]) = logText rs ++ line r := by
  simp [logText]

theorem length_lt_count_logText (rs : List (List Char)) : rs.length < (logText rs).count '\n' := by
  induction rs with
  | nil => decide
  | cons r rs ih =>
      simp only [logText, line, List.flatMap_cons, List.count_append, List.length_cons,
        List.count_singleton_self] at ih ⊢
      omega

/-- The text is the header and the rows; it may be missing before the first row. -/
def Holding (earlier : Option (List (List Char))) (rows : List (ℕ × List Char)) (text : List Char) : Prop :=
  text = logText (earlier.getD [] ++ rows.map Prod.snd) ∨ (earlier = none ∧ rows = [] ∧ text = [])

structure Logged (repr : PyFloat → String) (earlier : Option (List (List Char))) (args : ι → EventArgs)
    (rows : List (ℕ × List Char)) (w : Writers ι) : Prop where
  called : ∀ c, (w.procs c).args = args c
  named : w.shared.Named
  text : Holding earlier rows w.shared.text
  opening : ∀ c id, (w.procs c).phase = .openHeader id → earlier = none
  opened : ∀ c id inode, (w.procs c).phase = .writeHeader id inode →
    earlier = none ∧ inode < w.shared.inodes.length ∧ (w.shared.path = some inode → rows = [])
  sorted : rows.Pairwise fun a b => a.1 < b.1
  returned : ∀ id row, (id, row) ∈ rows ↔ ∃ c, (w.procs c).phase = .returned id ∧ row = formatRow repr (args c)
  oneLine : ∀ p ∈ rows, '\r' ∉ p.2

omit [DecidableEq ι] in
theorem logged_start {db : Db} : Logged repr earlier args [] (Writers.start db earlier args) where
  called := fun c => rfl
  named := by
    intro inode hpath
    cases earlier with
    | none => cases hpath
    | some rs =>
        cases hpath
        exact Nat.one_pos
  text := by
    cases earlier with
    | none => exact Or.inr ⟨rfl, rfl, rfl⟩
    | some rs => exact Or.inl (congrArg logText (List.append_nil rs).symm)
  opening := fun c id hphase => by cases hphase
  opened := fun c id inode hphase => by cases hphase
  sorted := List.Pairwise.nil
  returned := by
    intro id row
    refine iff_of_false List.not_mem_nil ?_
    rintro ⟨c, hphase, -⟩
    cases hphase
  oneLine := fun p hp => by cases hp

/-- A step after which no other call has returned and the same rows are there. -/
theorem Logged.same_rows (h : Logged repr earlier args rows w) {s' : Store} {phase : WritePhase}
    (hstep : writeStep repr strategyId e.2 w.shared (w.procs e.1) = (s', (w.procs e.1).goto phase))
    (hnamed : s'.Named) (htext : Holding earlier rows s'.text) (hlength : w.shared.inodes.length ≤ s'.inodes.length)
    (hpath : s'.path = w.shared.path ∨ rows = []) (hopening : ∀ id, phase = .openHeader id → earlier = none)
    (hopened : ∀ id inode, phase = .writeHeader id inode →
      earlier = none ∧ inode < s'.inodes.length ∧ (s'.path = some inode → rows = []))
    (hbefore : ∀ id, (w.procs e.1).phase ≠ .returned id) (hafter : ∀ id, phase ≠ .returned id) :
    Logged repr earlier args rows (Interleave.step (writeStep repr strategyId) w e) := by
  have hshared : (Interleave.step (writeStep repr strategyId) w e).shared = s' := by
    rw [Interleave.step_shared, hstep]
  have hreturned : ∀ c id, ((Interleave.step (writeStep repr strategyId) w e).procs c).phase = .returned id ↔
      (w.procs c).phase = .returned id := by
    refine Interleave.forall_procs_step
      (P := fun c (p : Writer) => ∀ id, p.phase = .returned id ↔ (w.procs c).phase = .returned id) ?_
      fun _ _ _ => Iff.rfl
    rw [hstep]
    exact fun id => iff_of_false (hafter id) (hbefore id)
  refine ⟨fun c => (step_args c).trans (h.called c), hshared ▸ hnamed, hshared ▸ htext, ?_, ?_, h.sorted, ?_,
    h.oneLine⟩
  · refine Interleave.forall_procs_step
      (P := fun (_ : ι) (p : Writer) => ∀ id, p.phase = .openHeader id → earlier = none) ?_ fun c _ => h.opening c
    rw [hstep]
    exact hopening
  · rw [hshared]
    refine Interleave.forall_procs_step (P := fun (_ : ι) (p : Writer) => ∀ id inode, p.phase = .writeHeader id inode →
      earlier = none ∧ inode < s'.inodes.length ∧ (s'.path = some inode → rows = [])) ?_ fun c _ id inode hphase => ?_
    · rw [hstep]
      exact hopened
    · obtain ⟨hnone, hlt, hrows⟩ := h.opened c id inode hphase
      refine ⟨hnone, hlt.trans_le hlength, fun hinode => ?_⟩
      rcases hpath with hpath | hempty
      · exact hrows (hpath ▸ hinode)
      · exact hempty
  · intro id row
    simp only [h.returned, hreturned]

theorem Holding.rows_eq_nil {text : List Char} (h : Holding earlier rows text)
    (htext : text = [] ∨ text = line header) : earlier.getD [] = [] ∧ rows = [] := by
  rcases h with h | ⟨rfl, rfl, -⟩
  · rcases htext with htext | htext
    · exact absurd (h.symm.trans htext) logText_ne_nil
    · have hnone := logText_eq_header (h.symm.trans htext)
      rw [List.append_eq_nil_iff, List.map_eq_nil_iff] at hnone
      exact hnone
  · exact ⟨rfl, rfl⟩

theorem Holding.earlier_eq_none {text : List Char} (h : Holding earlier rows text) (htext : text = []) :
    earlier = none := by
  rcases h with h | ⟨hnone, -, -⟩
  · exact absurd (h.symm.trans htext) logText_ne_nil
  · exact hnone

/-- The header over an empty file or over another header. -/
theorem writeFirst_header {old : List Char} {written : ℕ} (hold : old = [] ∨ old = line header)
    (hwritten : old = [] → written = 0 ∨ (line header).length ≤ written) :
    (line header).take written ++ old.drop ((line header).take written).length = [] ∨
      (line header).take written ++ old.drop ((line header).take written).length = line header := by
  rcases hold with rfl | rfl
  · rcases hwritten rfl with rfl | hall
    · exact Or.inl rfl
    · rw [List.take_of_length_le hall, List.drop_nil, List.append_nil]
      exact Or.inr rfl
  · right
    rw [List.length_take]
    rcases le_total written (line header).length with hle | hle
    · rw [min_eq_left hle, List.take_append_drop]
    · rw [min_eq_right hle, List.take_of_length_le hle, List.drop_length, List.append_nil]

theorem Holding.withHeader {file : File} (h : Holding earlier rows (file.getD [])) :
    file.withHeader = logText (earlier.getD [] ++ rows.map Prod.snd) := by
  unfold File.withHeader
  split_ifs with hempty
  · have hnil : file.getD [] = [] := by simpa [File.isEmpty] using hempty
    obtain ⟨hearlier, hrows⟩ := h.rows_eq_nil (Or.inl hnil)
    simp [hearlier, hrows, logText]
  · rcases h with h | ⟨-, -, hnil⟩
    · exact h
    · simp [File.isEmpty, hnil] at hempty

/-- The call that replaces the file has returned, with the largest id and the last row. -/
theorem Logged.replaced (h : Logged repr earlier args rows w) (hphase : (w.procs e.1).phase = .replace id temp)
    (hstep : writeStep repr strategyId e.2 w.shared (w.procs e.1) =
      (w.shared.replaceBy temp, (w.procs e.1).goto (.returned id)))
    (htemp : temp = w.shared.file.withHeader ++ line (formatRow repr (w.procs e.1).args))
    (hline : '\r' ∉ formatRow repr (w.procs e.1).args)
    (horder : ∀ d other, (w.procs d).phase = .returned other → other < id) :
    Logged repr earlier args (rows ++ [(id, formatRow repr (args e.1))])
      (Interleave.step (writeStep repr strategyId) w e) := by
  have hself : (Interleave.step (writeStep repr strategyId) w e).procs e.1 = (w.procs e.1).goto (.returned id) := by
    rw [Interleave.step_procs_self, hstep]
  have hshared : (Interleave.step (writeStep repr strategyId) w e).shared = w.shared.replaceBy temp := by
    rw [Interleave.step_shared, hstep]
  have hargs : (w.procs e.1).args = args e.1 := h.called e.1
  rw [hargs] at htemp hline
  refine ⟨fun c => (step_args c).trans (h.called c), ?_, ?_, ?_, ?_, ?_, ?_, ?_⟩
  · rw [hshared]
    exact Store.named_replaceBy
  · rw [hshared, Store.text_replaceBy, htemp, Holding.withHeader h.text]
    left
    rw [List.map_append, ← List.append_assoc]
    exact logText_snoc.symm
  · refine Interleave.forall_procs_step
      (P := fun (_ : ι) (p : Writer) => ∀ id, p.phase = .openHeader id → earlier = none) ?_ fun c _ => h.opening c
    rw [hstep]
    rintro other hopen
    cases hopen
  · rw [hshared]
    refine Interleave.forall_procs_step (P := fun (_ : ι) (p : Writer) => ∀ other inode,
      p.phase = .writeHeader other inode → earlier = none ∧ inode < (w.shared.replaceBy temp).inodes.length ∧
        ((w.shared.replaceBy temp).path = some inode → rows ++ [(id, formatRow repr (args e.1))] = [])) ?_ ?_
    · rw [hstep]
      rintro other inode hopen
      cases hopen
    · intro c _ other inode hopen
      obtain ⟨hnone, hlt, -⟩ := h.opened c other inode hopen
      refine ⟨hnone, by simpa [Store.replaceBy] using Nat.lt_succ_of_lt hlt, fun hinode => ?_⟩
      -- The name has gone to a new inode.
      cases hinode
      exact absurd hlt (lt_irrefl _)
  · rw [List.pairwise_append]
    refine ⟨h.sorted, List.pairwise_singleton .., ?_⟩
    rintro ⟨other, row⟩ hmem last hlast
    rw [List.mem_singleton] at hlast
    subst hlast
    obtain ⟨d, hd, -⟩ := (h.returned other row).mp hmem
    exact horder d other hd
  · intro other row
    rw [List.mem_append, List.mem_singleton, h.returned]
    constructor
    · rintro (⟨c, hc, hrow⟩ | hnew)
      · refine ⟨c, ?_, hrow⟩
        have hce : c ≠ e.1 := by
          rintro rfl
          rw [hphase] at hc
          cases hc
        rw [Interleave.step_procs_other hce]
        exact hc
      · cases hnew
        exact ⟨e.1, by rw [hself]; rfl, rfl⟩
    · rintro ⟨c, hc, hrow⟩
      by_cases hce : c = e.1
      · subst hce
        rw [hself] at hc
        cases hc
        exact Or.inr (by rw [hrow])
      · rw [Interleave.step_procs_other hce] at hc
        exact Or.inl ⟨c, hc, hrow⟩
  · intro p hp
    rw [List.mem_append, List.mem_singleton] at hp
    rcases hp with hp | rfl
    · exact h.oneLine p hp
    · exact hline

theorem Logged.step (h : Logged repr earlier args rows w) (hok : WriteSound repr w e) :
    ∃ rows, Logged repr earlier args rows (Interleave.step (writeStep repr strategyId) w e) := by
  have heffect := writeStep_effect repr strategyId e.2 w.shared (w.procs e.1)
  generalize hstep : writeStep repr strategyId e.2 w.shared (w.procs e.1) = next at heffect
  cases heffect with
  | ended =>
      refine ⟨rows, ?_⟩
      rw [Interleave.step_idle hstep]
      exact h
  | aside db phase hbefore hafter hopened hempty =>
      refine ⟨rows, h.same_rows hstep h.named h.text le_rfl (Or.inl rfl) ?_ ?_ hbefore hafter⟩
      · intro id hid
        exact h.text.earlier_eq_none (of_decide_eq_true (hempty id hid))
      · intro id inode hid
        exact absurd hid (hopened id inode)
  | opened id hphase hfailed =>
      simp only [WriteSound, hphase] at hok
      obtain ⟨-, hrows⟩ := h.text.rows_eq_nil (hok hfailed)
      have hnone := h.opening e.1 id hphase
      refine ⟨rows, h.same_rows hstep (Store.named_openTruncated h.named) ?_ Store.openTruncated_length (Or.inr hrows)
        (fun _ _ => hnone) ?_ (by simp [hphase]) (by simp)⟩
      · exact Or.inr ⟨hnone, hrows, Store.text_openTruncated⟩
      · intro id' inode hinode
        cases hinode
        exact ⟨hnone, Store.openTruncated_lt h.named, fun _ => hrows⟩
  | headed id inode written phase hphase hwritten hafter =>
      simp only [WriteSound, hphase] at hok
      obtain ⟨hnone, -, hpath⟩ := h.opened e.1 id inode hphase
      refine ⟨rows, h.same_rows hstep ?_ ?_ Store.writeFirst_length.ge (Or.inl rfl) (fun _ _ => hnone) ?_
        (by simp [hphase]) ?_⟩
      · intro inode' hinode'
        rw [Store.writeFirst_length]
        exact h.named inode' hinode'
      · by_cases hlive : w.shared.path = some inode
        · have hrows := hpath hlive
          rw [Store.text_writeFirst_self h.named hlive]
          have hold : w.shared.text = [] ∨ w.shared.text = line header := by
            rcases h.text with htext | ⟨-, -, htext⟩
            · right
              rw [htext, hnone, hrows]
              rfl
            · exact Or.inl htext
          have hheader := writeFirst_header hold fun hnil => hwritten.elim (fun hsome => hok written hsome hlive hnil)
            Or.inr
          rcases hheader with hnil | hfull
          · exact Or.inr ⟨hnone, hrows, hnil⟩
          · left
            rw [hfull, hnone, hrows]
            rfl
        · rw [Store.text_writeFirst_other hlive]
          exact h.text
      · rintro id' inode' rfl
        rcases hafter with h' | h' <;> cases h'
      · rintro id' rfl
        rcases hafter with h' | h' <;> cases h'
  | replaced id temp hphase hfailed =>
      simp only [WriteSound, hphase] at hok
      obtain ⟨htemp, hline, horder⟩ := hok hfailed
      exact ⟨_, h.replaced hphase hstep htemp hline horder⟩

end CryptoAggHarmonic.FtStrategy
