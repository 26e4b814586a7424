import CryptoAggHarmonic.Journal.History

/-!
# What each step does to the files
-/

namespace CryptoAggHarmonic.Journal.Root

variable {r : Root} {inode i : ℕ} {name : String} {record x : Record} {a : Archive}

/-! ## `openHistory` -/

@[simp] theorem openHistory_log : r.openHistory.1.log = r.log := by
  unfold openHistory
  split <;> rfl

@[simp] theorem openHistory_archives : r.openHistory.1.archives = r.archives := by
  unfold openHistory
  split <;> rfl

@[simp] theorem content_openHistory : r.openHistory.1.content i = r.content i := by
  unfold openHistory
  split
  · rfl
  · simp only [content, List.getElem?_append]
    split_ifs with h
    · rfl
    · rw [List.getElem?_eq_none (not_lt.mp h)]
      cases i - r.inodes.length <;> rfl

/-! ## `write` -/

@[simp] theorem write_log : (r.write inode record).log = r.log ++ [record] := rfl

@[simp] theorem write_archives : (r.write inode record).archives = r.archives := rfl

@[simp] theorem write_history : (r.write inode record).history = r.history := rfl

theorem content_write_of_ne (h : i ≠ inode) : (r.write inode record).content i = r.content i := by
  simp [content, write, h.symm]

theorem content_write_self (h : inode < r.inodes.length) :
    (r.write inode record).content inode = r.content inode ++ [record] := by
  simp [content, write, List.getElem?_eq_getElem h]

theorem mem_content_write (h : x ∈ (r.write inode record).content i) : x ∈ r.content i ∨ x = record := by
  by_cases hi : i = inode
  · subst hi
    by_cases hlt : i < r.inodes.length
    · simpa [content_write_self hlt] using h
    · simp [content, write, List.getElem?_eq_none (not_lt.mp hlt)] at h
  · rw [content_write_of_ne hi] at h
    exact Or.inl h

/-! ## The archives -/

@[simp] theorem createArchive_log : (r.createArchive name inode).log = r.log := rfl

@[simp] theorem createArchive_inodes : (r.createArchive name inode).inodes = r.inodes := rfl

@[simp] theorem createArchive_history : (r.createArchive name inode).history = r.history := rfl

@[simp] theorem content_createArchive : (r.createArchive name inode).content i = r.content i := rfl

@[simp] theorem fillArchive_log : (r.fillArchive name inode).log = r.log := rfl

@[simp] theorem fillArchive_inodes : (r.fillArchive name inode).inodes = r.inodes := rfl

@[simp] theorem fillArchive_history : (r.fillArchive name inode).history = r.history := rfl

@[simp] theorem content_fillArchive : (r.fillArchive name inode).content i = r.content i := rfl

/-- A name that an archive has is truncated, a new one is added. -/
theorem mem_createArchive : a ∈ (r.createArchive name inode).archives ↔
    (a ∈ r.archives ∧ a.name ≠ name) ∨ a = ⟨name, inode, []⟩ := by
  unfold createArchive
  dsimp only
  split_ifs with hany
  · obtain ⟨b, hb, hbn⟩ := List.any_eq_true.mp hany
    simp only [List.mem_map]
    constructor
    · rintro ⟨c, hc, rfl⟩
      split_ifs with hcn
      · exact Or.inr rfl
      · exact Or.inl ⟨hc, hcn⟩
    · rintro (⟨ha, han⟩ | rfl)
      · exact ⟨a, ha, if_neg han⟩
      · exact ⟨b, hb, if_pos (of_decide_eq_true hbn)⟩
  · have hnone : ∀ b ∈ r.archives, b.name ≠ name := by simpa using hany
    simp only [List.mem_append, List.mem_singleton]
    exact or_congr_left ⟨fun ha => ⟨ha, hnone a ha⟩, fun ha => ha.1⟩

theorem mem_fillArchive : a ∈ (r.fillArchive name inode).archives ↔
    ∃ b ∈ r.archives, a = if b.name = name then { b with records := r.content inode } else b := by
  simp [fillArchive, eq_comm]

end CryptoAggHarmonic.Journal.Root

/-!
# The source mutex over interleaved calls

What keeps conflicting sources apart: a call that has passed its check conflicts with nothing in the log. It holds as
long as the check sees what was appended before it and nobody appends between the check and the write.
-/

namespace CryptoAggHarmonic.Journal

variable {ι : Type} {r : Root} {c d : Call} {a b x : Record} {w : World ι} {e : ι × ℕ}

theorem isConflictingSource_comm {s t : String} : isConflictingSource (some s) t = isConflictingSource (some t) s := by
  unfold isConflictingSource
  simp only [eq_comm (a := s) (b := t), Bool.or_comm]

theorem conflicts_iff : conflicts a b ↔ ∃ id s t, a.candidateId = some id ∧ b.candidateId = some id ∧
    a.source = some s ∧ b.source = some t ∧ isConflictingSource (some s) t := by
  unfold conflicts
  cases hb : b.candidateId with
  | none => simp
  | some id =>
      cases ht : b.source with
      | none => simp
      | some t =>
          cases hs : a.source with
          | none => simp [isConflictingSource]
          | some s => simp

theorem conflicts_comm : conflicts a b = conflicts b a := by
  rw [Bool.eq_iff_iff, conflicts_iff, conflicts_iff]
  constructor
  · rintro ⟨id, s, t, ha, hb, hs, ht, h⟩
    exact ⟨id, t, s, hb, ha, ht, hs, isConflictingSource_comm ▸ h⟩
  · rintro ⟨id, s, t, ha, hb, hs, ht, h⟩
    exact ⟨id, t, s, hb, ha, ht, hs, isConflictingSource_comm ▸ h⟩

theorem conflicts_self : conflicts a a = false := by
  rw [← Bool.not_eq_true, conflicts_iff]
  rintro ⟨id, s, t, -, -, hs, ht, h⟩
  rw [hs, Option.some.injEq] at ht
  simp [isConflictingSource, ht] at h

/-- Nothing that was appended conflicts with the record. -/
def Root.Free (r : Root) (record : Record) : Prop := ∀ x ∈ r.log, conflicts x record = false

/-- Between the check and the write. -/
def Call.Checked (c : Call) : Prop := c.phase = .openAppend ∨ ∃ inode, c.phase = .append inode

/-- The files hold what was appended, and no two of the appended records conflict. -/
structure Root.Consistent (r : Root) : Prop where
  files : ∀ inode, ∀ x ∈ r.content inode, x ∈ r.log
  archives : ∀ a ∈ r.archives, ∀ x ∈ a.records, x ∈ r.log
  free : ∀ x ∈ r.log, r.Free x

def Call.Passed (r : Root) (c : Call) : Prop := c.Checked → r.Free c.record

/-- **When the mutex works.** A check that finds no conflicting record in `HISTORY.jsonl`, or no such file, is made
when none of the records appended before conflicts, so none was moved to an archive; and no call appends while one with
a conflicting record is between its check and its write. -/
def CheckSound (w : World ι) (e : ι × ℕ) : Prop :=
  let c := w.procs e.1
  match c.phase with
  | .start => c.record.candidateId.isSome → c.record.source.isSome → w.shared.history = none → w.shared.Free c.record
  | .scan inode => (∀ x ∈ w.shared.content inode, conflicts x c.record = false) → w.shared.Free c.record
  | .append _ => ∀ d, d ≠ e.1 → (w.procs d).Checked → conflicts c.record (w.procs d).record = false
  | _ => True

theorem consistent_empty : Root.empty.Consistent where
  files := by simp [Root.empty, Root.content]
  archives := by simp [Root.empty]
  free := by simp [Root.empty]

theorem Root.Consistent.write {inode : ℕ} (h : r.Consistent) (hfree : r.Free a) : (r.write inode a).Consistent where
  files := fun i x hx => by
    rw [Root.write_log, List.mem_append, List.mem_singleton]
    exact (Root.mem_content_write hx).imp_left (h.files i x)
  archives := fun b hb x hx => List.mem_append_left _ (h.archives b hb x hx)
  free := fun x hx y hy => by
    rw [Root.write_log, List.mem_append, List.mem_singleton] at hx hy
    rcases hx with hx | rfl <;> rcases hy with hy | rfl
    · exact h.free x hx y hy
    · rw [conflicts_comm]
      exact hfree x hx
    · exact hfree y hy
    · exact conflicts_self

theorem Root.Consistent.openHistory (h : r.Consistent) : r.openHistory.1.Consistent where
  files := fun i x hx => by
    rw [Root.openHistory_log]
    exact h.files i x (Root.content_openHistory ▸ hx)
  archives := fun a ha x hx => by
    rw [Root.openHistory_log]
    exact h.archives a (Root.openHistory_archives ▸ ha) x hx
  free := fun x hx => by
    unfold Root.Free
    rw [Root.openHistory_log] at hx ⊢
    exact h.free x hx

theorem Root.Consistent.createArchive {name : String} {inode : ℕ} (h : r.Consistent) :
    (r.createArchive name inode).Consistent where
  files := h.files
  archives := fun a ha x hx => by
    rcases Root.mem_createArchive.mp ha with ⟨ha, -⟩ | rfl
    · exact h.archives a ha x hx
    · cases hx
  free := h.free

theorem Root.Consistent.fillArchive {name : String} {inode : ℕ} (h : r.Consistent) :
    (r.fillArchive name inode).Consistent where
  files := h.files
  archives := fun a ha x hx => by
    obtain ⟨b, hb, rfl⟩ := Root.mem_fillArchive.mp ha
    split_ifs at hx
    · exact h.files inode x hx
    · exact h.archives b hb x hx
  free := h.free

/-- A step other than a write appends nothing. -/
theorem act_log {now : ℕ} (hphase : ∀ inode, c.phase ≠ .append inode) : (act now r c).1.log = r.log := by
  unfold act
  split
  · split_ifs
    · split <;> rfl
    · rfl
  · split_ifs <;> rfl
  · exact Root.openHistory_log
  · rename_i inode h
    exact absurd h (hphase inode)
  · split <;> rfl
  all_goals rfl

theorem free_of_no_source (h : ¬ (c.record.candidateId.isSome ∧ c.record.source.isSome)) : r.Free c.record := by
  intro x _
  rw [← Bool.not_eq_true, conflicts_iff]
  rintro ⟨id, s, t, -, hid, -, ht, -⟩
  exact h ⟨by simp [hid], by simp [ht]⟩

theorem Root.Consistent.act {now : ℕ} (h : r.Consistent) (hfree : ∀ inode, c.phase = .append inode → r.Free c.record) :
    (act now r c).1.Consistent := by
  unfold Journal.act
  split
  · split_ifs
    · split <;> exact h
    · exact h
  · split_ifs <;> exact h
  · exact h.openHistory
  · rename_i inode hphase
    exact h.write (hfree inode hphase)
  · split <;> exact h
  · exact h.createArchive
  · exact h.fillArchive
  · exact ⟨h.files, h.archives, h.free⟩
  · exact h
  · exact h

/-- A call has passed its check with nothing in the log against it. -/
theorem passed_act (h : Interleave.Holds Root.Consistent Call.Passed w) (hok : CheckSound w e) :
    (act e.2 w.shared (w.procs e.1)).2.Passed (act e.2 w.shared (w.procs e.1)).1 := by
  intro hchecked
  have hpassed := h.2 e.1
  unfold CheckSound at hok
  cases hphase : (w.procs e.1).phase with
  | start =>
      simp only [hphase, act] at hok hchecked ⊢
      split_ifs at hchecked ⊢ with hsource
      · rw [Bool.and_eq_true] at hsource
        cases hhistory : w.shared.history with
        | none => exact hok hsource.1 hsource.2 hhistory
        | some inode => simp [hhistory, Call.goto, Call.Checked] at hchecked
      · exact free_of_no_source (c := w.procs e.1) (by simpa using hsource)
  | scan inode =>
      simp only [hphase, act] at hok hchecked ⊢
      split_ifs at hchecked ⊢ with hany
      · simp [Call.goto, Call.Checked] at hchecked
      · exact hok (by simpa using hany)
  | openAppend =>
      simp only [hphase, act]
      unfold Root.Free
      rw [Root.openHistory_log]
      exact hpassed (Or.inl hphase)
  | append inode =>
      simp only [hphase, act] at hchecked
      split_ifs at hchecked <;> simp [Call.goto, Call.Checked] at hchecked
  | rotate =>
      simp only [hphase, act] at hchecked
      split at hchecked <;> simp [Call.goto, Call.Checked] at hchecked
  | createArchive name inode => simp [hphase, act, Call.goto, Call.Checked] at hchecked
  | copy name inode => simp [hphase, act, Call.goto, Call.Checked] at hchecked
  | unlink inode => simp [hphase, act, Call.goto, Call.Checked] at hchecked
  | returned => simp [hphase, act, Call.Checked] at hchecked
  | raised => simp [hphase, act, Call.Checked] at hchecked

/-- **One step** keeps the log free of conflicts, and free for every call that has passed its check. -/
theorem passed_step [DecidableEq ι] (h : Interleave.Holds Root.Consistent Call.Passed w) (hok : CheckSound w e) :
    Interleave.Holds Root.Consistent Call.Passed (Interleave.step act w e) := by
  refine h.step ⟨h.1.act fun inode hphase => h.2 e.1 (Or.inr ⟨inode, hphase⟩), passed_act h hok⟩ fun d hd hpassed => ?_
  intro hchecked x hx
  by_cases hwrite : ∃ inode, (w.procs e.1).phase = .append inode
  · obtain ⟨inode, hphase⟩ := hwrite
    unfold CheckSound at hok
    simp only [hphase] at hok
    simp only [act, hphase, Root.write_log, List.mem_append, List.mem_singleton] at hx
    rcases hx with hx | rfl
    · exact hpassed hchecked x hx
    · exact hok d hd hchecked
  · rw [act_log fun inode hphase => hwrite ⟨inode, hphase⟩] at hx
    exact hpassed hchecked x hx

/-- What is replayed was appended. -/
theorem Root.Consistent.replay (h : r.Consistent) (hx : x ∈ replayFromHistory r) : x ∈ r.log := by
  unfold replayFromHistory at hx
  rcases List.mem_append.mp hx with hx | hx
  · obtain ⟨a, ha, hxa⟩ := List.mem_flatMap.mp hx
    exact h.archives a ((List.mem_insertionSort _).mp ha) x hxa
  · split at hx
    · exact h.files _ x hx
    · cases hx

end CryptoAggHarmonic.Journal
