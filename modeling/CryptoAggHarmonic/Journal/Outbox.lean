import CryptoAggHarmonic.Journal.Theorems

/-!
# The writers of the journal

Every caller of `append_history`: the driver, the market data, and the two handshakes. A handshake puts its record in
a file of the outbox before it appends it, and removes the file when the append has returned. Any step of a writer may
fail, and a writer that takes no further step is one that was killed there.
-/

namespace CryptoAggHarmonic.Journal

/-! ## What they write -/

/-- `OKXFill`; what its record only carries is in `body`. -/
structure OKXFill where
  uuid : String
  paper : Bool
  source : String := ""
  body : String
  /-- The length of the record's line. -/
  bytes : ℕ

/-- `OKXFill.__post_init__`. -/
def OKXFill.postInit (fill : OKXFill) : OKXFill :=
  if fill.source = "" then { fill with source := if fill.paper then "okx_paper" else "okx_live" } else fill

/-- `HyperoptResult`; what its record only carries is in `body`. -/
structure HyperoptResult where
  uuid : String
  source : String := "freqtrade_hyperopt"
  body : String
  bytes : ℕ

inductive Writing
  /-- The record of a candidate, without a source. -/
  | driver (candidateId body : String) (bytes : ℕ)
  /-- `HistoryEntry` of the Binance handshake, without a candidate. -/
  | market (body : String) (bytes : ℕ)
  | fill (fill : OKXFill)
  | hyperopt (result : HyperoptResult)

namespace Writing

/-- `prefix + uuid[:12]`. -/
def shortId (loop uuid : String) : String := loop ++ String.ofList (uuid.toList.take 12)

def record : Writing → Record
  | driver candidateId body bytes => { candidateId := some candidateId, source := none, body, bytes }
  | market body bytes => { candidateId := none, source := some "binance_market", body, bytes }
  | fill f =>
      { candidateId := some (shortId "okx-" f.uuid), source := some f.postInit.source, body := f.body,
        bytes := f.bytes }
  | hyperopt result =>
      { candidateId := some (shortId "freqtrade-" result.uuid), source := some result.source, body := result.body,
        bytes := result.bytes }

/-- `OUTBOX_DIR / (uuid + ".json")`, by its uuid. -/
def file : Writing → Option String
  | driver .. => none
  | market .. => none
  | fill f => some f.uuid
  | hyperopt result => some result.uuid

end Writing

/-! ## The calls -/

inductive Stage
  | start
  /-- Has opened its file of the outbox. -/
  | writing
  | appending
  | unlinking
  /-- Has caught `SourceMutexError`. -/
  | refused
  | returned
  /-- Has returned with a warning that the record is left in the outbox. -/
  | left
  /-- The file of the outbox was not written. -/
  | failed
  /-- Has raised what `append_history` raised. -/
  | raised
  /-- The file of the refused record was not removed. -/
  | stuck
  deriving DecidableEq

/-- Where an error of `append_history` other than `SourceMutexError` leads: all but the driver swallow it. -/
def Writing.onError : Writing → Stage
  | .driver .. => .raised
  | _ => .left

/-- `write_hyperopt_to_history` and the market's `append` catch `SourceMutexError` with the others. -/
def Writing.onRefusal : Writing → Stage
  | .driver .. => .raised
  | .fill _ => .refused
  | _ => .left

/-- `outbox_file.unlink()` without `missing_ok`. -/
def Writing.mustExist : Writing → Bool
  | .hyperopt _ => true
  | _ => false

/-- The directory of the loop's state. -/
structure Desk where
  root : Root
  /-- The files of the outbox; one that was opened and not yet written is empty. -/
  outbox : String → Option (Option Record)

namespace Desk

def put (d : Desk) (file : Option String) (content : Option Record) : Desk :=
  match file with
  | none => d
  | some file => { d with outbox := Function.update d.outbox file (some content) }

def unlink (d : Desk) (file : Option String) : Desk :=
  match file with
  | none => d
  | some file => { d with outbox := Function.update d.outbox file none }

def missing (d : Desk) (file : Option String) : Bool := (file.bind d.outbox).isNone

end Desk

structure Writer where
  writing : Writing
  call : Call
  stage : Stage

def Writer.goto (w : Writer) (stage : Stage) : Writer := { w with stage }

/-- An error here is raised; those of the rotation are swallowed. -/
def Call.beforeWrite (c : Call) : Bool :=
  match c.phase with
  | .start | .scan _ | .openAppend | .append _ => true
  | _ => false

/-- The next step of a writer, at the time `answer.1`; whether it fails is `answer.2`. -/
def actWriter (answer : ℕ × Bool) (d : Desk) (w : Writer) : Desk × Writer :=
  match w.stage with
  | .start => if answer.2 then (d, w.goto .failed) else (d.put w.writing.file none, w.goto .writing)
  | .writing =>
      if answer.2 then (d, w.goto .failed)
      else (d.put w.writing.file (some w.writing.record), w.goto .appending)
  | .appending =>
      if w.call.phase = .returned then (d, w.goto (if w.writing.file.isSome then .unlinking else .returned))
      else if w.call.phase = .raised then (d, w.goto w.writing.onRefusal)
      else if answer.2 && w.call.beforeWrite then (d, w.goto w.writing.onError)
      else
        ({ d with root := (act answer.1 d.root w.call).1 }, { w with call := (act answer.1 d.root w.call).2 })
  | .unlinking =>
      if answer.2 || w.writing.mustExist && d.missing w.writing.file then (d, w.goto .left)
      else (d.unlink w.writing.file, w.goto .returned)
  | .refused => if answer.2 then (d, w.goto .stuck) else (d.unlink w.writing.file, w.goto .raised)
  | .returned | .left | .failed | .raised | .stuck => (d, w)

def rotateBytes : ℕ := 10 * 1024 * 1024

/-- The writers, none of which has begun, on an empty root and outbox. -/
def startWriters {ι : Type} (writings : ι → Writing) : Interleave.World ι Desk Writer where
  shared := { root := .empty, outbox := fun _ => none }
  procs := fun c => {
    writing := writings c
    call := { record := (writings c).record, rotateBytes, phase := .start }
    stage := if (writings c).file.isSome then .start else .appending }

/-! ## What the log holds -/

variable {ι : Type} {r : Root} {c : Call} {w : World ι} {e : ι × ℕ} {now : ℕ}

/-- The call has appended its record. -/
def Call.Written (c : Call) : Prop :=
  match c.phase with
  | .rotate | .createArchive _ _ | .copy _ _ | .unlink _ | .returned => True
  | _ => False

theorem act_record : (act now r c).2.record = c.record := by
  unfold act
  repeat' split
  all_goals rfl

theorem act_written (hphase : ∀ inode, c.phase ≠ .append inode) : (act now r c).2.Written ↔ c.Written := by
  cases h : c.phase with
  | append inode => exact absurd h (hphase inode)
  | start => simp only [act, h]; split_ifs <;> (try split) <;> simp [Call.Written, Call.goto, h]
  | scan inode => simp only [act, h]; split_ifs <;> simp [Call.Written, Call.goto, h]
  | rotate => simp only [act, h]; split <;> simp [Call.Written, Call.goto, h]
  | openAppend => simp [act, Call.Written, Call.goto, h]
  | createArchive name inode => simp [act, Call.Written, Call.goto, h]
  | copy name inode => simp [act, Call.Written, Call.goto, h]
  | unlink inode => simp [act, Call.Written, Call.goto, h]
  | returned => simp [act, Call.Written, h]
  | raised => simp [act, Call.Written, h]

/-- Every file holds only what was appended. -/
def Root.Within (r : Root) : Prop := ∀ inode, ∀ x ∈ r.content inode, x ∈ r.log

theorem Root.Within.act (h : r.Within) : (act now r c).1.Within := by
  unfold Journal.act
  split
  · split_ifs <;> (try split) <;> exact h
  · split_ifs <;> exact h
  · intro inode x hx
    rw [Root.openHistory_log]
    exact h inode x (Root.content_openHistory ▸ hx)
  · intro inode x hx
    rw [Root.write_log, List.mem_append, List.mem_singleton]
    exact (Root.mem_content_write hx).imp_left (h inode x)
  · split <;> exact h
  all_goals exact h

/-- A call raises at a record that conflicts with its own. -/
theorem act_raised (hwithin : r.Within) (h : (act now r c).2.phase = .raised) (hc : c.phase ≠ .raised) :
    ∃ x ∈ r.log, conflicts x c.record := by
  cases hphase : c.phase with
  | scan inode =>
      simp only [act, hphase] at h
      split_ifs at h with hany
      · obtain ⟨x, hx, hconflict⟩ := List.any_eq_true.mp hany
        exact ⟨x, hwithin inode x hx, hconflict⟩
      · simp [Call.goto] at h
  | raised => exact absurd hphase hc
  | start => simp only [act, hphase] at h; split_ifs at h <;> (try split at h) <;> simp [Call.goto] at h
  | append inode => simp only [act, hphase] at h; split_ifs at h <;> simp [Call.goto] at h
  | rotate => simp only [act, hphase] at h; split at h <;> simp [Call.goto] at h
  | openAppend => simp [act, hphase, Call.goto] at h
  | createArchive name inode => simp [act, hphase, Call.goto] at h
  | copy name inode => simp [act, hphase, Call.goto] at h
  | unlink inode => simp [act, hphase, Call.goto] at h
  | returned => simp [act, hphase] at h

theorem log_subset_act {x : Record} (h : x ∈ r.log) : x ∈ (act now r c).1.log := by
  by_cases hwrite : ∃ inode, c.phase = .append inode
  · obtain ⟨inode, hphase⟩ := hwrite
    simp only [act, hphase, Root.write_log]
    exact List.mem_append_left _ h
  · rw [act_log fun inode hphase => hwrite ⟨inode, hphase⟩]
    exact h

/-- The log is the records of the calls that have appended, each once; a call raised for a conflict with one of it. -/
structure Logged (w : World ι) : Prop where
  within : w.shared.Within
  order : ∃ order : List ι, order.Nodup ∧ w.shared.log = order.map (fun c => (w.procs c).record) ∧
    ∀ c, c ∈ order ↔ (w.procs c).Written
  raised : ∀ c, (w.procs c).phase = .raised → ∃ x ∈ w.shared.log, conflicts x (w.procs c).record

theorem logged_start (calls : ι → Record × ℕ) : Logged (start calls) where
  within := by simp [Root.Within, start, Root.empty, Root.content]
  order := ⟨[], by simp [start, Root.empty, Call.Written]⟩
  raised := by simp [start]

theorem record_step [DecidableEq ι] (d : ι) :
    ((Interleave.step act w e).procs d).record = (w.procs d).record :=
  Interleave.forall_procs_step (P := fun d (p : Call) => p.record = (w.procs d).record) act_record (fun _ _ => rfl) d

/-- **One step** of a call appends its own record, or nothing. -/
theorem logged_step [DecidableEq ι] (h : Logged w) : Logged (Interleave.step act w e) where
  within := h.within.act
  order := by
    obtain ⟨order, hnodup, hlog, hwritten⟩ := h.order
    by_cases hwrite : ∃ inode, (w.procs e.1).phase = .append inode
    · obtain ⟨inode, hphase⟩ := hwrite
      have hnew : e.1 ∉ order := by simp [hwritten, Call.Written, hphase]
      refine ⟨order ++ [e.1], List.nodup_append.mpr ⟨hnodup, List.nodup_singleton _, ?_⟩, ?_, ?_⟩
      · intro c hc d hd hcd
        rw [List.mem_singleton] at hd
        exact hnew (hd ▸ hcd ▸ hc)
      · simp only [record_step, List.map_append, List.map_singleton, Interleave.step_shared, act, hphase,
          Root.write_log, hlog]
      · refine Interleave.forall_procs_step (P := fun c (p : Call) => c ∈ order ++ [e.1] ↔ p.Written) ?_ fun c hc => ?_
        · simp only [act, hphase]
          split_ifs <;> simp [Call.Written, Call.goto]
        · simp [hc, hwritten]
    · have hphase : ∀ inode, (w.procs e.1).phase ≠ .append inode := fun inode hi => hwrite ⟨inode, hi⟩
      refine ⟨order, hnodup, ?_, ?_⟩
      · simp only [record_step, Interleave.step_shared, act_log hphase, hlog]
      · refine Interleave.forall_procs_step (P := fun c (p : Call) => c ∈ order ↔ p.Written) ?_ fun c _ => hwritten c
        rw [act_written hphase, hwritten]
  raised := by
    refine Interleave.forall_procs_step (P := fun _ (p : Call) => p.phase = .raised →
      ∃ x ∈ (Interleave.step act w e).shared.log, conflicts x p.record) (fun hraised => ?_) fun c _ hraised => ?_
    · rw [act_record]
      by_cases hc : (w.procs e.1).phase = .raised
      · obtain ⟨x, hx, hconflict⟩ := h.raised e.1 hc
        exact ⟨x, log_subset_act hx, hconflict⟩
      · obtain ⟨x, hx, hconflict⟩ := act_raised h.within hraised hc
        exact ⟨x, log_subset_act hx, hconflict⟩
    · obtain ⟨x, hx, hconflict⟩ := h.raised c hraised
      exact ⟨x, log_subset_act hx, hconflict⟩

theorem logged_run [DecidableEq ι] (calls : ι → Record × ℕ) (schedule : List (ι × ℕ)) :
    Logged (Interleave.run act (start calls) schedule) :=
  Interleave.run_kept (fun _ _ h => logged_step h) (logged_start calls)

theorem record_run [DecidableEq ι] (calls : ι → Record × ℕ) (schedule : List (ι × ℕ)) (c : ι) :
    ((Interleave.run act (start calls) schedule).procs c).record = (calls c).1 :=
  Interleave.run_kept (I := fun w : World ι => (w.procs c).record = (calls c).1)
    (fun _ _ h => (record_step c).trans h) rfl

/-! ## The calls of the writers are calls of the journal -/

variable {d : Desk} {p : Writer} {answer : ℕ × Bool} {file : String} {writings : ι → Writing}
  {ws : Interleave.World ι Desk Writer} {f : ι × (ℕ × Bool)}

/-- The journal as the writers use it. -/
def journalOf (ws : Interleave.World ι Desk Writer) : World ι where
  shared := ws.shared.root
  procs := fun c => (ws.procs c).call

@[simp] theorem put_root {content : Option Record} {file : Option String} : (d.put file content).root = d.root := by
  cases file <;> rfl

@[simp] theorem unlink_root {file : Option String} : (d.unlink file).root = d.root := by
  cases file <;> rfl

/-- A step of a writer is one of its call, or leaves the journal alone. -/
theorem actWriter_call (answer : ℕ × Bool) (d : Desk) (p : Writer) :
    ((actWriter answer d p).1.root, (actWriter answer d p).2.call) = act answer.1 d.root p.call ∨
    ((actWriter answer d p).1.root, (actWriter answer d p).2.call) = (d.root, p.call) := by
  unfold actWriter
  split
  · split_ifs <;> simp [Writer.goto]
  · split_ifs <;> simp [Writer.goto]
  · split_ifs with hreturned _ hraised hfails
    · exact Or.inr rfl
    · exact Or.inr rfl
    · exact Or.inr rfl
    · exact Or.inr rfl
    · exact Or.inl rfl
  · split_ifs <;> simp [Writer.goto]
  · split_ifs <;> simp [Writer.goto]
  all_goals exact Or.inr rfl

theorem journalOf_step [DecidableEq ι] (ws : Interleave.World ι Desk Writer) (f : ι × (ℕ × Bool)) :
    journalOf (Interleave.step actWriter ws f) = Interleave.step act (journalOf ws) (f.1, f.2.1) ∨
    journalOf (Interleave.step actWriter ws f) = journalOf ws := by
  have hprocs : (journalOf (Interleave.step actWriter ws f)).procs =
      Function.update (journalOf ws).procs f.1 (actWriter f.2 ws.shared (ws.procs f.1)).2.call := by
    funext c
    by_cases hc : c = f.1
    · subst hc
      simp [journalOf]
    · simp [journalOf, Interleave.step_procs_other hc, hc]
  rcases actWriter_call f.2 ws.shared (ws.procs f.1) with h | h
  · left
    exact congrArg₂ Interleave.World.mk (congrArg Prod.fst h)
      (hprocs.trans (congrArg (Function.update _ f.1) (congrArg Prod.snd h)))
  · right
    have hcall : (actWriter f.2 ws.shared (ws.procs f.1)).2.call = (journalOf ws).procs f.1 := congrArg Prod.snd h
    rw [hcall, Function.update_eq_self] at hprocs
    exact congrArg₂ Interleave.World.mk (congrArg Prod.fst h) hprocs

/-- **Refinement.** Whatever the writers do, and whatever fails, the journal sees a run of the calls. -/
theorem journalOf_run [DecidableEq ι] (writings : ι → Writing) (schedule : List (ι × (ℕ × Bool))) :
    ∃ calls, journalOf (Interleave.run actWriter (startWriters writings) schedule) =
      Interleave.run act (start fun c => ((writings c).record, rotateBytes)) calls := by
  refine Interleave.run_kept (I := fun ws => ∃ calls, journalOf ws =
    Interleave.run act (start fun c => ((writings c).record, rotateBytes)) calls) (fun ws f h => ?_) ⟨[], rfl⟩
  obtain ⟨calls, hcalls⟩ := h
  rcases journalOf_step ws f with hstep | hstep
  · refine ⟨calls ++ [(f.1, f.2.1)], ?_⟩
    rw [hstep, hcalls, Interleave.run_append]
    rfl
  · exact ⟨calls, hstep.trans hcalls⟩

/-! ## The outbox -/

/-- What a stage tells of a record with a file: whether it was appended or refused, and what the file holds. -/
def Stage.Tells (record : Record) (appended refused : Prop) (found : Option (Option Record)) : Stage → Prop
  | .start => ¬ appended ∧ found = none
  | .writing => ¬ appended ∧ found = some none
  | .appending => found = some (some record)
  | .unlinking => appended ∧ found = some (some record)
  | .refused => ¬ appended ∧ refused ∧ found = some (some record)
  | .returned => appended ∧ found = none
  | .left => found = some (some record)
  | .failed => ¬ appended ∧ (found = none ∨ found = some none)
  | .raised => ¬ appended ∧ refused ∧ found = none
  | .stuck => ¬ appended ∧ refused ∧ found = some (some record)

theorem Stage.Tells.imp {stage : Stage} {record : Record} {appended appended' refused refused' : Prop}
    {found : Option (Option Record)} (h : stage.Tells record appended refused found) (happended : appended ↔ appended')
    (hrefused : refused → refused') : stage.Tells record appended' refused' found := by
  rw [← propext happended]
  cases stage with
  | refused => exact ⟨h.1, hrefused h.2.1, h.2.2⟩
  | raised => exact ⟨h.1, hrefused h.2.1, h.2.2⟩
  | stuck => exact ⟨h.1, hrefused h.2.1, h.2.2⟩
  | _ => exact h

def Writer.Tells (d : Desk) (p : Writer) (file : String) : Prop :=
  p.stage.Tells p.writing.record p.call.Written (p.call.phase = .raised) (d.outbox file)

@[simp] theorem actWriter_writing : (actWriter answer d p).2.writing = p.writing := by
  unfold actWriter
  repeat' split
  all_goals rfl

@[simp] theorem put_outbox {content : Option Record} : (d.put (some file) content).outbox file = some content := by
  simp [Desk.put]

@[simp] theorem unlink_outbox : (d.unlink (some file)).outbox file = none := by
  simp [Desk.unlink]

/-- A writer touches no file but its own. -/
theorem actWriter_outbox (h : p.writing.file ≠ some file) :
    (actWriter answer d p).1.outbox file = d.outbox file := by
  have hput : ∀ content, (d.put p.writing.file content).outbox file = d.outbox file := by
    intro content
    cases hfile : p.writing.file with
    | none => rfl
    | some own => simp [Desk.put, show file ≠ own from fun he => h (hfile.trans (congrArg some he.symm))]
  have hunlink : (d.unlink p.writing.file).outbox file = d.outbox file := by
    cases hfile : p.writing.file with
    | none => rfl
    | some own => simp [Desk.unlink, show file ≠ own from fun he => h (hfile.trans (congrArg some he.symm))]
  unfold actWriter
  repeat' split
  all_goals first | rfl | exact hput _ | exact hunlink

theorem tells_act (hfile : p.writing.file = some file) (h : p.Tells d file) :
    (actWriter answer d p).2.Tells (actWriter answer d p).1 file := by
  unfold Writer.Tells at h ⊢
  cases hstage : p.stage with
  | start =>
      rw [hstage] at h
      simp only [actWriter, hstage, hfile]
      split_ifs
      · exact ⟨h.1, Or.inl h.2⟩
      · exact ⟨h.1, put_outbox⟩
  | writing =>
      rw [hstage] at h
      simp only [actWriter, hstage, hfile]
      split_ifs
      · exact ⟨h.1, Or.inr h.2⟩
      · exact put_outbox
  | appending =>
      rw [hstage] at h
      simp only [actWriter, hstage, hfile, Option.isSome_some, if_true]
      split_ifs with hreturned hraised _
      · exact ⟨by simp [Writer.goto, Call.Written, hreturned], h⟩
      · cases hw : p.writing with
        | fill f =>
            simp only [Writer.goto, Writing.onRefusal, hw]
            exact ⟨by simp [Call.Written, hraised], hraised, hw ▸ h⟩
        | hyperopt result =>
            simp only [Writer.goto, Writing.onRefusal, hw]
            exact hw ▸ h
        | driver candidateId body bytes => simp [hw, Writing.file] at hfile
        | market body bytes => simp [hw, Writing.file] at hfile
      · cases hw : p.writing with
        | fill f =>
            simp only [Writer.goto, Writing.onError, hw]
            exact hw ▸ h
        | hyperopt result =>
            simp only [Writer.goto, Writing.onError, hw]
            exact hw ▸ h
        | driver candidateId body bytes => simp [hw, Writing.file] at hfile
        | market body bytes => simp [hw, Writing.file] at hfile
      · simpa [hstage, Stage.Tells] using h
  | unlinking =>
      rw [hstage] at h
      simp only [actWriter, hstage, hfile]
      split_ifs
      · exact h.2
      · exact ⟨h.1, unlink_outbox⟩
  | refused =>
      rw [hstage] at h
      simp only [actWriter, hstage, hfile]
      split_ifs
      · exact h
      · exact ⟨h.1, h.2.1, unlink_outbox⟩
  | returned => simpa [actWriter, hstage] using h
  | left => simpa [actWriter, hstage] using h
  | failed => simpa [actWriter, hstage] using h
  | raised => simpa [actWriter, hstage] using h
  | stuck => simpa [actWriter, hstage] using h

/-- Each writer has its own record, and the outbox is as its stage tells. -/
structure Filed (writings : ι → Writing) (ws : Interleave.World ι Desk Writer) : Prop where
  writing : ∀ c, (ws.procs c).writing = writings c
  tells : ∀ c file, (writings c).file = some file → (ws.procs c).Tells ws.shared file

/-- No two writers have one file of the outbox. -/
def OwnFiles (writings : ι → Writing) : Prop :=
  ∀ c d file, (writings c).file = some file → (writings d).file = some file → c = d

theorem filed_start (writings : ι → Writing) : Filed writings (startWriters writings) where
  writing := fun _ => rfl
  tells := fun c file hfile => by
    simp [Writer.Tells, startWriters, hfile, Stage.Tells, Call.Written]

theorem filed_step [DecidableEq ι] (hfiles : OwnFiles writings) (h : Filed writings ws) :
    Filed writings (Interleave.step actWriter ws f) where
  writing := by
    refine Interleave.forall_procs_step (P := fun c (p : Writer) => p.writing = writings c) ?_ fun c _ => h.writing c
    rw [actWriter_writing, h.writing]
  tells := by
    refine Interleave.forall_procs_step (P := fun c (p : Writer) => ∀ file, (writings c).file = some file →
      p.Tells (Interleave.step actWriter ws f).shared file) (fun file hfile => ?_) fun c hc file hfile => ?_
    · exact tells_act (by rw [h.writing, hfile]) (h.tells f.1 file hfile)
    · have hother : (ws.procs f.1).writing.file ≠ some file := by
        rw [h.writing]
        exact fun hown => hc (hfiles c f.1 file hfile hown)
      unfold Writer.Tells
      rw [Interleave.step_shared, actWriter_outbox hother]
      exact h.tells c file hfile

/-- **No record of a handshake is lost or journalled twice.** In every interleaving of any writers, whatever fails and
wherever one is killed, the log is the records appended, each once, and a handshake's stage tells whether its record was
appended and what its file holds: one that has returned has appended it and left no file, one that has returned with
the warning has left the whole record in the outbox, and one that was refused has appended nothing and conflicts with
a record of the log. -/
theorem outbox_keeps [DecidableEq ι] (writings : ι → Writing) (hfiles : OwnFiles writings)
    (schedule : List (ι × (ℕ × Bool))) :
    ∃ order : List ι, order.Nodup ∧
      (Interleave.run actWriter (startWriters writings) schedule).shared.root.log =
        order.map (fun c => (writings c).record) ∧
      ∀ c file, (writings c).file = some file →
        ((Interleave.run actWriter (startWriters writings) schedule).procs c).stage.Tells (writings c).record
          (c ∈ order) (∃ d ∈ order, conflicts (writings d).record (writings c).record)
          ((Interleave.run actWriter (startWriters writings) schedule).shared.outbox file) := by
  have hfiled : Filed writings (Interleave.run actWriter (startWriters writings) schedule) :=
    Interleave.run_kept (fun _ _ h => filed_step hfiles h) (filed_start writings)
  obtain ⟨calls, hcalls⟩ := journalOf_run writings schedule
  have hlogged := logged_run (fun c => ((writings c).record, rotateBytes)) calls
  have hrecord := record_run (fun c => ((writings c).record, rotateBytes)) calls
  rw [← hcalls] at hlogged hrecord
  obtain ⟨order, hnodup, hlog, hwritten⟩ := hlogged.order
  simp only [hrecord] at hlog
  refine ⟨order, hnodup, hlog, fun c file hfile => ?_⟩
  have htells := hfiled.tells c file hfile
  unfold Writer.Tells at htells
  rw [hfiled.writing] at htells
  refine htells.imp (hwritten c).symm fun hraised => ?_
  obtain ⟨x, hx, hconflict⟩ := hlogged.raised c hraised
  rw [hlog] at hx
  obtain ⟨d, hd, rfl⟩ := List.mem_map.mp hx
  rw [hrecord c] at hconflict
  exact ⟨d, hd, hconflict⟩

/-- A fill and a hyperopt result that share the first characters of their uuids. -/
def twoWriters : Bool → Writing
  | false => .fill { uuid := "4f1c2e7a90b1-5", paper := true, body := "", bytes := 300 }
  | true => .hyperopt { uuid := "4f1c2e7a90b1-6", body := "", bytes := 500 }

/-- The fill is written; the append of the hyperopt result fails. -/
def oneFails : List (Bool × (ℕ × Bool)) :=
  List.replicate 9 (false, (1, false)) ++ [(true, (2, false)), (true, (2, false)), (true, (2, true))]

theorem twoWriters_keep : OwnFiles twoWriters ∧ ∃ order : List Bool, order.Nodup ∧
    (Interleave.run actWriter (startWriters twoWriters) oneFails).shared.root.log =
      order.map (fun c => (twoWriters c).record) ∧
    ∀ c file, (twoWriters c).file = some file →
      ((Interleave.run actWriter (startWriters twoWriters) oneFails).procs c).stage.Tells (twoWriters c).record
        (c ∈ order) (∃ d ∈ order, conflicts (twoWriters d).record (twoWriters c).record)
        ((Interleave.run actWriter (startWriters twoWriters) oneFails).shared.outbox file) := by
  have hne : "4f1c2e7a90b1-5" ≠ "4f1c2e7a90b1-6" := by decide
  have hfiles : OwnFiles twoWriters := by
    intro c d file hc hd
    cases c <;> cases d
    · rfl
    · exact absurd (Option.some.inj (hc.trans hd.symm)) hne
    · exact absurd (Option.some.inj (hd.trans hc.symm)) hne
    · rfl
  exact ⟨hfiles, outbox_keeps twoWriters hfiles oneFails⟩

/-! ## The sources of the writers -/

/-- The record has a source of its own loop. -/
def Writing.OwnSource : Writing → Prop
  | .driver .. => True
  | .market .. => True
  | .fill f => f.source = "" ∨ f.source = "okx_paper" ∨ f.source = "okx_live"
  | .hyperopt result => result.source = "freqtrade_hyperopt"

theorem Writing.OwnSource.fill {f : OKXFill} (h : (Writing.fill f).OwnSource) :
    f.postInit.source = "okx_paper" ∨ f.postInit.source = "okx_live" := by
  unfold OKXFill.postInit
  rcases h with h | h | h
  · rw [if_pos h]
    cases f.paper <;> simp
  · simp [h]
  · simp [h]

theorem shortId_ne (u v : String) : Writing.shortId "okx-" u ≠ Writing.shortId "freqtrade-" v := by
  intro h
  have hhead := congrArg (fun s : String => s.toList.head?) h
  simp [Writing.shortId] at hhead

/-- **The loops cannot meet.** Neither the candidate of a fill and of a hyperopt result, nor the sources of two records
of one loop, ever conflict. -/
theorem Writing.OwnSource.conflicts {a b : Writing} (ha : a.OwnSource) (hb : b.OwnSource) :
    conflicts a.record b.record = false := by
  rw [← Bool.not_eq_true, conflicts_iff]
  rintro ⟨id, s, t, hida, hidb, hs, ht, hconflict⟩
  cases a with
  | driver candidateId body bytes => cases hs
  | market body bytes => cases hida
  | fill f =>
      cases b with
      | driver candidateId body bytes => cases ht
      | market body bytes => cases hidb
      | fill g =>
          simp only [Writing.record, Option.some.injEq] at hs ht
          subst hs ht
          rcases ha.fill with hf | hf <;> rcases hb.fill with hg | hg <;> rw [hf, hg] at hconflict <;>
            exact absurd hconflict (by decide)
      | hyperopt result =>
          simp only [Writing.record, Option.some.injEq] at hida hidb
          exact shortId_ne _ _ (hida.trans hidb.symm)
  | hyperopt result =>
      cases b with
      | driver candidateId body bytes => cases ht
      | market body bytes => cases hidb
      | fill g =>
          simp only [Writing.record, Option.some.injEq] at hida hidb
          exact shortId_ne _ _ (hidb.trans hida.symm)
      | hyperopt other =>
          simp only [Writing.record, Option.some.injEq] at hs ht
          subst hs ht
          rw [show result.source = other.source from Eq.trans ha (Eq.symm hb)] at hconflict
          simp [isConflictingSource] at hconflict

/-- Calls with records of which no two conflict never raise, and keep the files consistent. -/
theorem consistent_run [DecidableEq ι] (calls : ι → Record × ℕ)
    (hapart : ∀ c d, conflicts (calls c).1 (calls d).1 = false) (schedule : List (ι × ℕ)) :
    (Interleave.run act (start calls) schedule).shared.Consistent := by
  have hkept : Logged (Interleave.run act (start calls) schedule) ∧
      (∀ c, ((Interleave.run act (start calls) schedule).procs c).record = (calls c).1) ∧
      (Interleave.run act (start calls) schedule).shared.Consistent := by
    refine Interleave.run_kept (I := fun w : World ι => Logged w ∧ (∀ c, (w.procs c).record = (calls c).1) ∧
      w.shared.Consistent) (fun w e h => ?_) ⟨logged_start calls, fun _ => rfl, consistent_empty⟩
    obtain ⟨hlogged, hrecord, hconsistent⟩ := h
    refine ⟨logged_step hlogged, fun c => (record_step c).trans (hrecord c), hconsistent.act fun _ _ x hx => ?_⟩
    obtain ⟨order, -, hlog, -⟩ := hlogged.order
    rw [hlog] at hx
    obtain ⟨d, -, rfl⟩ := List.mem_map.mp hx
    rw [hrecord, hrecord]
    exact hapart d e.1
  exact hkept.2.2

/-- **The mutex has nothing to refuse.** With the sources the loops give their records, in every interleaving of the
driver, the market data and both handshakes, whatever fails and however the file is rotated, no call ever raises
`SourceMutexError`, and no two replayed records conflict. -/
theorem no_writer_refused [DecidableEq ι] (writings : ι → Writing) (hsources : ∀ c, (writings c).OwnSource)
    (schedule : List (ι × (ℕ × Bool))) :
    (∀ c, ((Interleave.run actWriter (startWriters writings) schedule).procs c).call.phase ≠ .raised) ∧
    NoConflict (Interleave.run actWriter (startWriters writings) schedule).shared.root := by
  obtain ⟨calls, hcalls⟩ := journalOf_run writings schedule
  have hlogged := logged_run (fun c => ((writings c).record, rotateBytes)) calls
  have hrecord := record_run (fun c => ((writings c).record, rotateBytes)) calls
  have hconsistent := consistent_run (fun c => ((writings c).record, rotateBytes))
    (fun c d => (hsources c).conflicts (hsources d)) calls
  rw [← hcalls] at hlogged hrecord hconsistent
  refine ⟨fun c hraised => ?_, fun a ha b hb => ?_⟩
  · obtain ⟨x, hx, hconflict⟩ := hlogged.raised c hraised
    obtain ⟨order, -, hlog, -⟩ := hlogged.order
    rw [hlog] at hx
    obtain ⟨d, -, rfl⟩ := List.mem_map.mp hx
    rw [hrecord, hrecord, (hsources d).conflicts (hsources c)] at hconflict
    cases hconflict
  · exact hconsistent.free b (hconsistent.replay hb) a (hconsistent.replay ha)

theorem twoWriters_not_refused :
    (∀ c, ((Interleave.run actWriter (startWriters twoWriters) oneFails).procs c).call.phase ≠ .raised) ∧
    NoConflict (Interleave.run actWriter (startWriters twoWriters) oneFails).shared.root := by
  refine no_writer_refused twoWriters (fun c => ?_) oneFails
  cases c with
  | false => exact Or.inl rfl
  | true => exact rfl

end CryptoAggHarmonic.Journal
