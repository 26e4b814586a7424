import CryptoAggHarmonic.Journal.Lemmas.Sources

/-!
# Rotations over interleaved calls

The files in the order of their inodes are the log. All but the last are archived, in the order of the archives'
names, and the last is archived only while a call is about to unlink it.
-/

namespace CryptoAggHarmonic.Journal

variable {ι : Type} {r : Root} {c : Call} {w : World ι} {e : ι × ℕ} {i : ℕ} {a b : Archive}

structure Root.Shelved (r : Root) : Prop where
  log : r.log = r.inodes.flatten
  inodes : r.archives.map Archive.inode = List.range r.archives.length
  names : (r.archives.map Archive.name).Pairwise (· < ·)
  le : r.archives.length ≤ r.inodes.length
  current : ∀ i, r.history = some i → i + 1 = r.inodes.length ∧ i ≤ r.archives.length
  gone : r.history = none → r.archives.length = r.inodes.length

/-- What a rotating call knows of the file it has opened. -/
def Call.Placed (r : Root) (c : Call) : Prop :=
  match c.phase with
  | .createArchive _ i => i < r.archives.length ∨ r.history = some i
  | .copy name i => ∃ a ∈ r.archives, a.name = name ∧ a.inode = i
  | .unlink i => i < r.archives.length
  | _ => True

/-- Neither about to copy nor about to unlink. -/
def Call.Aside (c : Call) : Prop := (∀ name i, c.phase ≠ .copy name i) ∧ ∀ i, c.phase ≠ .unlink i

structure Rotating (w : World ι) : Prop where
  placed : Interleave.Holds Root.Shelved Call.Placed w
  complete : ∀ a ∈ w.shared.archives, a.records = w.shared.content a.inode ∨
    ∃ c, (w.procs c).phase = .copy a.name a.inode
  leaving : ∀ i, w.shared.history = some i → i < w.shared.archives.length →
    ∃ c, (w.procs c).phase = .unlink i ∨ ∃ name, (w.procs c).phase = .copy name i

/-- **When rotation keeps every record.** A record is written to the file that is still `HISTORY.jsonl` and that no
call is about to unlink; an archive is made of a file without one, under a name after those of all archives, or made
again under the same name of the same file; and a call unlinks only the file it has copied. -/
def RotationSound (w : World ι) (e : ι × ℕ) : Prop :=
  match (w.procs e.1).phase with
  | .append i => w.shared.history = some i ∧ ∀ c, (w.procs c).phase ≠ .unlink i
  | .createArchive name i => (∃ a ∈ w.shared.archives, a.name = name ∧ a.inode = i) ∨
      ∀ a ∈ w.shared.archives, a.name < name ∧ a.inode ≠ i
  | .unlink i => w.shared.history = none ∨ w.shared.history = some i
  | _ => True

/-! ## The shelf -/

namespace Root.Shelved

theorem inode_lt (h : r.Shelved) (ha : a ∈ r.archives) : a.inode < r.archives.length := by
  rw [← List.mem_range, ← h.inodes]
  exact List.mem_map_of_mem ha

theorem exists_archive (h : r.Shelved) (hi : i < r.archives.length) : ∃ a ∈ r.archives, a.inode = i := by
  rw [← List.mem_range, ← h.inodes, List.mem_map] at hi
  exact hi

theorem eq_of_name (h : r.Shelved) (ha : a ∈ r.archives) (hb : b ∈ r.archives) (hab : a.name = b.name) : a = b :=
  List.inj_on_of_nodup_map (h.names.imp fun hlt => hlt.ne) ha hb hab

theorem eq_of_inode (h : r.Shelved) (ha : a ∈ r.archives) (hb : b ∈ r.archives) (hab : a.inode = b.inode) : a = b :=
  List.inj_on_of_nodup_map (h.inodes ▸ List.nodup_range) ha hb hab

theorem openHistory (h : r.Shelved) : r.openHistory.1.Shelved := by
  unfold Root.openHistory
  split
  · exact h
  · rename_i hnone
    have hgone := h.gone hnone
    refine ⟨by simp [h.log], h.inodes, h.names, by simp; omega, fun i hi => ?_, by simp⟩
    cases hi
    exact ⟨by simp, hgone.ge⟩

theorem flatten_modify_last {α : Type} (ls : List (List α)) (x : α) (n : ℕ) (hn : n + 1 = ls.length) :
    (ls.modify n (· ++ [x])).flatten = ls.flatten ++ [x] := by
  induction ls generalizing n with
  | nil => cases hn
  | cons l ls ih =>
      cases n with
      | zero =>
          cases ls with
          | nil => simp
          | cons _ _ => simp at hn
      | succ n =>
          rw [List.modify_succ_cons, List.flatten_cons, List.flatten_cons, ih n (by simpa using hn), List.append_assoc]

theorem write (h : r.Shelved) (hi : r.history = some i) (record : Record) : (r.write i record).Shelved where
  log := by
    rw [write_log, h.log]
    exact (flatten_modify_last r.inodes record i (h.current i hi).1).symm
  inodes := h.inodes
  names := h.names
  le := by simpa [Root.write] using h.le
  current := fun j hj => by simpa [Root.write] using h.current j hj
  gone := fun hnone => by
    rw [write_history, hi] at hnone
    cases hnone

/-- The archive of a file is made again. -/
theorem createArchive_again (h : r.Shelved) (ha : a ∈ r.archives) : (r.createArchive a.name a.inode).Shelved := by
  have hany : (r.archives.any fun b => b.name = a.name) = true := List.any_eq_true.mpr ⟨a, ha, by simp⟩
  have hinodes : ∀ b ∈ r.archives, (if b.name = a.name then ⟨a.name, a.inode, []⟩ else b).inode = b.inode := by
    intro b hb
    split_ifs with hba
    · rw [h.eq_of_name hb ha hba]
    · rfl
  have hnames : ∀ b : Archive, (if b.name = a.name then ⟨a.name, a.inode, []⟩ else b).name = b.name := by
    intro b
    split_ifs with hba
    · exact hba.symm
    · rfl
  refine ⟨h.log, ?_, ?_, ?_, fun i hi => ?_, fun hnone => ?_⟩ <;>
    simp only [Root.createArchive, hany, if_true, List.map_map, List.length_map]
  · rw [← h.inodes]
    exact List.map_congr_left fun b hb => hinodes b hb
  · have : (Archive.name ∘ fun b => if b.name = a.name then ⟨a.name, a.inode, []⟩ else b) = Archive.name :=
      funext hnames
    rw [this]
    exact h.names
  · exact h.le
  · exact h.current i hi
  · exact h.gone hnone

/-- The first archive of the file that is `HISTORY.jsonl`. -/
theorem createArchive_new {name : String} (h : r.Shelved) (hi : r.history = some i)
    (hnew : ∀ a ∈ r.archives, a.name < name ∧ a.inode ≠ i) : (r.createArchive name i).Shelved ∧
      r.archives.length = i ∧ (r.createArchive name i).archives = r.archives ++ [⟨name, i, []⟩] := by
  obtain ⟨hlen, hle⟩ := h.current i hi
  have hfresh : r.archives.length = i := by
    refine le_antisymm (not_lt.mp fun hlt => ?_) hle
    obtain ⟨a, ha, hai⟩ := h.exists_archive hlt
    exact (hnew a ha).2 hai
  have hany : (r.archives.any fun b => b.name = name) = false := by
    rw [← Bool.not_eq_true, List.any_eq_true]
    rintro ⟨b, hb, hbn⟩
    exact (hnew b hb).1.ne (of_decide_eq_true hbn)
  have harchives : (r.createArchive name i).archives = r.archives ++ [⟨name, i, []⟩] := by
    simp [Root.createArchive, hany]
  refine ⟨⟨h.log, ?_, ?_, ?_, fun j hj => ?_, fun hnone => ?_⟩, hfresh, harchives⟩
  · rw [harchives, List.map_append, h.inodes, List.length_append, hfresh]
    exact (List.range_succ (n := i)).symm
  · rw [harchives, List.map_append, List.pairwise_append]
    refine ⟨h.names, by simp, fun n hn m hm => ?_⟩
    obtain ⟨b, hb, rfl⟩ := List.mem_map.mp hn
    rw [List.mem_singleton.mp hm]
    exact (hnew b hb).1
  · rw [harchives, List.length_append, createArchive_inodes, hfresh, ← hlen]
    rfl
  · rw [createArchive_history, hi] at hj
    cases hj
    rw [harchives, List.length_append, createArchive_inodes, hfresh]
    exact ⟨hlen, Nat.le_succ i⟩
  · rw [createArchive_history, hi] at hnone
    cases hnone

theorem fillArchive (h : r.Shelved) (name : String) (i : ℕ) : (r.fillArchive name i).Shelved := by
  have hkeep : ∀ b : Archive,
      (if b.name = name then { b with records := r.content i } else b).inode = b.inode ∧
        (if b.name = name then { b with records := r.content i } else b).name = b.name := by
    intro b
    split_ifs <;> exact ⟨rfl, rfl⟩
  have hinodes : (r.fillArchive name i).archives.map Archive.inode = r.archives.map Archive.inode := by
    simp only [Root.fillArchive, List.map_map]
    exact List.map_congr_left fun b _ => (hkeep b).1
  have hnames : (r.fillArchive name i).archives.map Archive.name = r.archives.map Archive.name := by
    simp only [Root.fillArchive, List.map_map]
    exact List.map_congr_left fun b _ => (hkeep b).2
  have hlength : (r.fillArchive name i).archives.length = r.archives.length := by simp [Root.fillArchive]
  exact ⟨h.log, by rw [hinodes, hlength, h.inodes], hnames ▸ h.names, hlength ▸ h.le,
    fun j hj => hlength ▸ h.current j hj, fun hnone => hlength ▸ h.gone hnone⟩

theorem unlink (h : r.Shelved) (hi : i < r.archives.length) (hown : r.history = none ∨ r.history = some i) :
    Root.Shelved { r with history := none } where
  log := h.log
  inodes := h.inodes
  names := h.names
  le := h.le
  current := by simp
  gone := fun _ => by
    rcases hown with hnone | hsome
    · exact h.gone hnone
    · exact le_antisymm h.le ((h.current i hsome).1 ▸ hi)

end Root.Shelved

/-! ## One step -/

/-- What a step of one call leaves true for the others. -/
structure Root.Grows (r r' : Root) : Prop where
  archives : ∀ a ∈ r.archives, ∃ b ∈ r'.archives, b.name = a.name ∧ b.inode = a.inode
  length : r.archives.length ≤ r'.archives.length
  history : ∀ i, r.history = some i → r'.history = some i ∨ i < r'.archives.length

theorem Root.Grows.of_eq {r' : Root} (harchives : r'.archives = r.archives)
    (hhistory : ∀ i, r.history = some i → r'.history = some i) : r.Grows r' where
  archives := fun a ha => ⟨a, harchives ▸ ha, rfl, rfl⟩
  length := by rw [harchives]
  history := fun i hi => Or.inl (hhistory i hi)

theorem Call.Placed.mono {r' : Root} (h : c.Placed r) (hgrows : r.Grows r') : c.Placed r' := by
  unfold Call.Placed at h ⊢
  split at h
  · rcases h with h | h
    · exact Or.inl (h.trans_le hgrows.length)
    · exact (hgrows.history _ h).symm
  · obtain ⟨a, ha, rfl, rfl⟩ := h
    exact hgrows.archives a ha
  · exact lt_of_lt_of_le h hgrows.length
  · trivial

section

variable [DecidableEq ι]

/-- A step that touches no archive, by a call that is not about to copy or to unlink. -/
theorem Rotating.step_aside (h : Rotating w) (r' : Root) (hr' : (Interleave.step act w e).shared = r')
    (hown : r'.Shelved ∧ (act e.2 w.shared (w.procs e.1)).2.Placed r')
    (harchives : r'.archives = w.shared.archives) (hcontent : ∀ i, r'.content i = w.shared.content i)
    (hhistory : ∀ i, w.shared.history = some i → r'.history = some i)
    (hnew : ∀ i, r'.history = some i → i < r'.archives.length → w.shared.history = some i)
    (haside : (w.procs e.1).Aside) : Rotating (Interleave.step act w e) := by
  subst hr'
  obtain ⟨hcopy, hunlink⟩ := haside
  have hgrows := Root.Grows.of_eq harchives hhistory
  refine ⟨h.placed.step hown fun d _ hd => hd.mono hgrows, fun a ha => ?_, fun i hi hlt => ?_⟩
  · rw [harchives] at ha
    rw [hcontent]
    exact (h.complete a ha).imp_right fun hpending =>
      Interleave.exists_procs_step (P := fun c : Call => c.phase = .copy a.name a.inode) hpending (hcopy _ _)
  · have hpending := h.leaving i (hnew i hi hlt) (harchives ▸ hlt)
    refine Interleave.exists_procs_step (P := fun c : Call => c.phase = .unlink i ∨ ∃ name, c.phase = .copy name i)
      hpending ?_
    rintro (hc | ⟨name, hc⟩)
    · exact hunlink _ hc
    · exact hcopy _ _ hc

theorem Rotating.step_write (h : Rotating w) (hphase : (w.procs e.1).phase = .append i)
    (hi : w.shared.history = some i) (hleaving : ∀ c, (w.procs c).phase ≠ .unlink i) :
    Rotating (Interleave.step act w e) := by
  have hshared : (Interleave.step act w e).shared = w.shared.write i (w.procs e.1).record := by
    rw [Interleave.step_shared, act, hphase]
  have hown : (act e.2 w.shared (w.procs e.1)).2.Placed (w.shared.write i (w.procs e.1).record) := by
    rw [act, hphase]
    dsimp only
    split_ifs <;> trivial
  refine ⟨h.placed.step ⟨?_, ?_⟩ fun d _ hd => ?_, fun a ha => ?_, fun j hj hlt => ?_⟩
  · rw [← Interleave.step_shared, hshared]
    exact h.placed.1.write hi _
  · rw [← Interleave.step_shared, hshared]
    exact hown
  · rw [← Interleave.step_shared, hshared]
    exact hd.mono (Root.Grows.of_eq rfl fun j hj => hj)
  · rw [hshared] at ha ⊢
    have hkeep : (∃ c, (w.procs c).phase = .copy a.name a.inode) →
        ∃ c, ((Interleave.step act w e).procs c).phase = .copy a.name a.inode := fun hpending =>
      Interleave.exists_procs_step (P := fun c : Call => c.phase = .copy a.name a.inode) hpending (by simp [hphase])
    by_cases hai : a.inode = i
    · -- The file has an archive already: the copy of the record is still to come.
      obtain ⟨c, hc | ⟨name, hc⟩⟩ := h.leaving i hi (hai ▸ h.placed.1.inode_lt ha)
      · exact absurd hc (hleaving c)
      · have hplaced := h.placed.2 c
        simp only [Call.Placed, hc] at hplaced
        obtain ⟨b, hb, hbn, hbi⟩ := hplaced
        have hba := h.placed.1.eq_of_inode hb ha (hbi.trans hai.symm)
        exact Or.inr (hkeep ⟨c, by rw [hc, ← hbn, hba, hai]⟩)
    · rw [Root.content_write_of_ne hai]
      exact (h.complete a ha).imp_right hkeep
  · rw [hshared] at hj hlt
    exact Interleave.exists_procs_step (P := fun c : Call => c.phase = .unlink j ∨ ∃ name, c.phase = .copy name j)
      (h.leaving j hj hlt) (by simp [hphase])

theorem Rotating.step_createArchive {name : String} (h : Rotating w)
    (hphase : (w.procs e.1).phase = .createArchive name i)
    (hok : (∃ a ∈ w.shared.archives, a.name = name ∧ a.inode = i) ∨
      ∀ a ∈ w.shared.archives, a.name < name ∧ a.inode ≠ i) : Rotating (Interleave.step act w e) := by
  have hact : act e.2 w.shared (w.procs e.1) = (w.shared.createArchive name i, (w.procs e.1).goto (.copy name i)) := by
    rw [act, hphase]
  have hnewmem : (⟨name, i, []⟩ : Archive) ∈ (w.shared.createArchive name i).archives :=
    Root.mem_createArchive.mpr (Or.inr rfl)
  have hself : ((Interleave.step act w e).procs e.1).phase = .copy name i := by
    rw [Interleave.step_procs_self, hact]
    rfl
  have hi : i < w.shared.archives.length ∨ w.shared.history = some i := by
    have := h.placed.2 e.1
    simpa only [Call.Placed, hphase] using this
  have hshelved : (w.shared.createArchive name i).Shelved ∧ w.shared.Grows (w.shared.createArchive name i) ∧
      ∀ j, w.shared.history = some j → j < (w.shared.createArchive name i).archives.length →
        j < w.shared.archives.length ∨ j = i := by
    rcases hok with ⟨a, ha, rfl, rfl⟩ | hnew
    · have hlength : (w.shared.createArchive a.name a.inode).archives.length = w.shared.archives.length := by
        have hany : (w.shared.archives.any fun b => b.name = a.name) = true := List.any_eq_true.mpr ⟨a, ha, by simp⟩
        simp [Root.createArchive, hany]
      refine ⟨h.placed.1.createArchive_again ha, ⟨fun b hb => ?_, hlength.ge, fun j hj => Or.inl hj⟩,
        fun j _ hlt => Or.inl (hlength ▸ hlt)⟩
      by_cases hba : b.name = a.name
      · rw [h.placed.1.eq_of_name hb ha hba]
        exact ⟨_, hnewmem, rfl, rfl⟩
      · exact ⟨b, Root.mem_createArchive.mpr (Or.inl ⟨hb, hba⟩), rfl, rfl⟩
    · have hcurrent : w.shared.history = some i := by
        refine hi.resolve_left fun hlt => ?_
        obtain ⟨a, ha, hai⟩ := h.placed.1.exists_archive hlt
        exact (hnew a ha).2 hai
      obtain ⟨hshelved, hlen, harchives⟩ := h.placed.1.createArchive_new hcurrent hnew
      refine ⟨hshelved, ⟨fun b hb => ⟨b, ?_, rfl, rfl⟩, by simp [harchives], fun j hj => Or.inl hj⟩,
        fun j hj _ => ?_⟩
      · rw [harchives]
        exact List.mem_append_left _ hb
      · rw [hcurrent] at hj
        exact Or.inr (Option.some.inj hj).symm
  refine ⟨h.placed.step ?_ fun d _ hd => ?_, fun a ha => ?_, fun j hj hlt => ?_⟩
  · rw [hact]
    exact ⟨hshelved.1, ⟨_, hnewmem, rfl, rfl⟩⟩
  · rw [hact]
    exact hd.mono hshelved.2.1
  · rw [Interleave.step_shared, hact] at ha ⊢
    rcases Root.mem_createArchive.mp ha with ⟨ha, -⟩ | rfl
    · exact (h.complete a ha).imp_right fun hpending =>
        Interleave.exists_procs_step (P := fun c : Call => c.phase = .copy a.name a.inode) hpending (by simp [hphase])
    · exact Or.inr ⟨e.1, hself⟩
  · rw [Interleave.step_shared, hact] at hj hlt
    rcases hshelved.2.2 j hj hlt with hold | rfl
    · exact Interleave.exists_procs_step (P := fun c : Call => c.phase = .unlink j ∨ ∃ name, c.phase = .copy name j)
        (h.leaving j hj hold) (by simp [hphase])
    · exact ⟨e.1, Or.inr ⟨name, hself⟩⟩

theorem Rotating.step_copy {name : String} (h : Rotating w) (hphase : (w.procs e.1).phase = .copy name i) :
    Rotating (Interleave.step act w e) := by
  have hact : act e.2 w.shared (w.procs e.1) = (w.shared.fillArchive name i, (w.procs e.1).goto (.unlink i)) := by
    rw [act, hphase]
  have hself : ((Interleave.step act w e).procs e.1).phase = .unlink i := by
    rw [Interleave.step_procs_self, hact]
    rfl
  have hlength : (w.shared.fillArchive name i).archives.length = w.shared.archives.length := by simp [Root.fillArchive]
  obtain ⟨a₀, ha₀, rfl, rfl⟩ : ∃ a ∈ w.shared.archives, a.name = name ∧ a.inode = i := by
    have := h.placed.2 e.1
    simpa only [Call.Placed, hphase] using this
  refine ⟨h.placed.step ?_ fun d _ hd => ?_, fun a ha => ?_, fun j hj hlt => ?_⟩
  · rw [hact]
    exact ⟨h.placed.1.fillArchive _ _, (h.placed.1.inode_lt ha₀).trans_eq hlength.symm⟩
  · rw [hact]
    refine hd.mono ⟨fun b hb => ⟨_, Root.mem_fillArchive.mpr ⟨b, hb, rfl⟩, ?_⟩, hlength.ge, fun j hj => Or.inl hj⟩
    split_ifs <;> exact ⟨rfl, rfl⟩
  · rw [Interleave.step_shared, hact] at ha ⊢
    obtain ⟨b, hb, rfl⟩ := Root.mem_fillArchive.mp ha
    split_ifs with hbn
    · rw [h.placed.1.eq_of_name hb ha₀ hbn]
      exact Or.inl rfl
    · refine (h.complete b hb).imp_right fun hpending =>
        Interleave.exists_procs_step (P := fun c : Call => c.phase = .copy b.name b.inode) hpending ?_
      rw [hphase, Phase.copy.injEq]
      exact fun hcopy => hbn hcopy.1.symm
  · rw [Interleave.step_shared, hact] at hj hlt
    by_cases hji : j = a₀.inode
    · exact ⟨e.1, Or.inl (hji ▸ hself)⟩
    · refine Interleave.exists_procs_step (P := fun c : Call => c.phase = .unlink j ∨ ∃ name, c.phase = .copy name j)
        (h.leaving j hj (hlength ▸ hlt)) ?_
      rw [hphase]
      rintro (hc | ⟨name, hc⟩)
      · cases hc
      · cases hc
        exact hji rfl

theorem Rotating.step_unlink (h : Rotating w) (hphase : (w.procs e.1).phase = .unlink i)
    (hok : w.shared.history = none ∨ w.shared.history = some i) : Rotating (Interleave.step act w e) := by
  have hact : act e.2 w.shared (w.procs e.1) = ({ w.shared with history := none }, (w.procs e.1).goto .returned) := by
    rw [act, hphase]
  have hi : i < w.shared.archives.length := by
    have := h.placed.2 e.1
    simpa only [Call.Placed, hphase] using this
  refine ⟨h.placed.step ?_ fun d _ hd => ?_, fun a ha => ?_, fun j hj => ?_⟩
  · rw [hact]
    exact ⟨h.placed.1.unlink hi hok, trivial⟩
  · rw [hact]
    refine hd.mono ⟨fun a ha => ⟨a, ha, rfl, rfl⟩, le_refl _, fun j hj => Or.inr ?_⟩
    rcases hok with hnone | hsome
    · rw [hnone] at hj
      cases hj
    · rw [hsome] at hj
      cases hj
      exact hi
  · rw [Interleave.step_shared, hact] at ha ⊢
    exact (h.complete a ha).imp_right fun hpending =>
      Interleave.exists_procs_step (P := fun c : Call => c.phase = .copy a.name a.inode) hpending (by simp [hphase])
  · rw [Interleave.step_shared, hact] at hj
    cases hj

/-- **One step** under the condition. -/
theorem rotating_step (h : Rotating w) (hok : RotationSound w e) : Rotating (Interleave.step act w e) := by
  unfold RotationSound at hok
  -- A step that leaves the root as it is, of a call that has nothing to copy or to unlink.
  have haside : ∀ phase, act e.2 w.shared (w.procs e.1) = (w.shared, (w.procs e.1).goto phase) →
      ((w.procs e.1).goto phase).Placed w.shared → (w.procs e.1).Aside → Rotating (Interleave.step act w e) :=
    fun phase hact hplaced => h.step_aside w.shared (by rw [Interleave.step_shared, hact])
      ⟨h.placed.1, by rw [hact]; exact hplaced⟩ rfl (fun _ => rfl) (fun _ hi => hi) fun _ hi _ => hi
  cases hphase : (w.procs e.1).phase with
  | start =>
      have hcall : (w.procs e.1).Aside := by simp [Call.Aside, hphase]
      by_cases hsource : (w.procs e.1).record.candidateId.isSome && (w.procs e.1).record.source.isSome
      · cases hhistory : w.shared.history with
        | some i => exact haside (.scan i) (by simp only [act, hphase, if_pos hsource, hhistory]) trivial hcall
        | none => exact haside .openAppend (by simp only [act, hphase, if_pos hsource, hhistory]) trivial hcall
      · exact haside .openAppend (by simp only [act, hphase, if_neg hsource]) trivial hcall
  | scan i =>
      have hcall : (w.procs e.1).Aside := by simp [Call.Aside, hphase]
      by_cases hany : (w.shared.content i).any fun existing => conflicts existing (w.procs e.1).record
      · exact haside .raised (by simp only [act, hphase, if_pos hany]) trivial hcall
      · exact haside .openAppend (by simp only [act, hphase, if_neg hany]) trivial hcall
  | openAppend =>
      refine h.step_aside w.shared.openHistory.1 (by simp only [Interleave.step_shared, act, hphase])
        ⟨h.placed.1.openHistory, by simp only [act, hphase]; trivial⟩ Root.openHistory_archives
        (fun _ => Root.content_openHistory) (fun i hi => ?_) (fun i hi hlt => ?_) (by simp [Call.Aside, hphase])
      · simp [Root.openHistory, hi]
      · unfold Root.openHistory at hi hlt
        split at hi
        · exact hi
        · -- The file is new, and everything before it is archived.
          rename_i hnone
          cases hi
          simp [hnone, h.placed.1.gone hnone] at hlt
  | append i =>
      simp only [hphase] at hok
      exact h.step_write hphase hok.1 hok.2
  | rotate =>
      have hcall : (w.procs e.1).Aside := by simp [Call.Aside, hphase]
      cases hhistory : w.shared.history with
      | some i =>
          exact haside (.createArchive (archiveName e.2) i) (by simp only [act, hphase, hhistory]) (Or.inr hhistory)
            hcall
      | none => exact haside .returned (by simp only [act, hphase, hhistory]) trivial hcall
  | createArchive name i =>
      simp only [hphase] at hok
      exact h.step_createArchive hphase hok
  | copy name i => exact h.step_copy hphase
  | unlink i =>
      simp only [hphase] at hok
      exact h.step_unlink hphase hok
  | returned =>
      have hgoto : (w.procs e.1).goto .returned = w.procs e.1 := by rw [Call.goto, ← hphase]
      exact haside .returned (by simp only [act, hphase, hgoto]) trivial (by simp [Call.Aside, hphase])
  | raised =>
      have hgoto : (w.procs e.1).goto .raised = w.procs e.1 := by rw [Call.goto, ← hphase]
      exact haside .raised (by simp only [act, hphase, hgoto]) trivial (by simp [Call.Aside, hphase])

end

/-! ## The end -/

theorem rotating_start (calls : ι → Record × ℕ) : Rotating (start calls) where
  placed := by
    refine ⟨⟨rfl, rfl, by simp [start, Root.empty], by simp [start, Root.empty], by simp [start, Root.empty],
      fun _ => rfl⟩, fun c => trivial⟩
  complete := by simp [start, Root.empty]
  leaving := by simp [start, Root.empty]

theorem flatten_eq_flatMap_range {α : Type} (ls : List (List α)) :
    (List.range ls.length).flatMap (fun i => (ls[i]?).getD []) = ls.flatten := by
  rw [List.flatMap_def]
  congr 1
  refine List.ext_getElem (by simp) fun i hi hi' => ?_
  simp [List.getElem?_eq_getElem hi']

/-- Once every call is over, the archives and `HISTORY.jsonl` are the log. -/
theorem Rotating.replay (h : Rotating w) (hover : ∀ c, (w.procs c).Over) :
    replayFromHistory w.shared = w.shared.log := by
  have hs := h.placed.1
  have hsorted : (w.shared.archives.insertionSort fun a b => a.name ≤ b.name) = w.shared.archives := by
    refine List.Pairwise.insertionSort_eq ?_
    exact (List.pairwise_map.mp hs.names).imp fun hlt => hlt.le
  have hrecords : ∀ a ∈ w.shared.archives, a.records = w.shared.content a.inode := by
    intro a ha
    refine (h.complete a ha).resolve_right ?_
    rintro ⟨c, hc⟩
    rcases hover c with hc' | hc' <;> simp [hc] at hc'
  have harchived : w.shared.archives.flatMap Archive.records =
      (List.range w.shared.archives.length).flatMap w.shared.content := by
    rw [← hs.inodes, List.flatMap_map, List.flatMap_def, List.flatMap_def]
    exact congrArg List.flatten (List.map_congr_left hrecords)
  rw [replayFromHistory, hsorted, harchived, hs.log, ← flatten_eq_flatMap_range]
  cases hhistory : w.shared.history with
  | none =>
      rw [hs.gone hhistory, List.append_nil]
      rfl
  | some i =>
      obtain ⟨hlen, hle⟩ := hs.current i hhistory
      have hcurrent : w.shared.archives.length = i := by
        refine le_antisymm (not_lt.mp fun hlt => ?_) hle
        obtain ⟨c, hc⟩ := h.leaving i hhistory hlt
        rcases hover c with hc' | hc' <;> simp [hc'] at hc
      rw [hcurrent, ← hlen, List.range_succ, List.flatMap_append, List.flatMap_singleton]
      rfl

end CryptoAggHarmonic.Journal
