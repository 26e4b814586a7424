import CryptoAggHarmonic.LoopTools.Scratch

/-!
# What overlapping promotions keep

A thread between its look at an entry and the deletion of it holds the entry. As long as no other thread puts or
promotes what is held, and nothing is appended to a file about to be replaced, every value put stays accounted for.
-/

namespace CryptoAggHarmonic.LoopTools

open PyOs

variable {ι : Type} {lower : Text → Text} {s : Shared} {t : Thread} {e e' : Entry} {inp : Input} {c d : ι}
  {key value : Text} {now cutoff : ℚ} {remaining : List Line}

/-! ## Conditions and properties -/

/-- The entry a thread has looked at and has still to delete. -/
def Thread.held : Thread → Option Entry
  | .append _ e _ _ => some e
  | .delete _ e _ _ => some e
  | _ => none

/-- The thread is about to replace the file by what it made of an earlier look at it. -/
def Thread.replaces : Thread → Bool
  | .create _ => true
  | .rewrite .. => true
  | _ => false

/-- Wherever the gate loads, its denylist is one of texts. -/
def TextDenylist (gate : GateFile) : Prop :=
  ∀ cfg, loadGateConfig gate = .ok cfg →
    ∃ patterns, (cfg.get "denylist" (.seq [])).iter? = some patterns ∧ ∀ x ∈ patterns, ∃ text, x = .str text

/-- The step of `e.1` falls between no two steps of another thread that belong together. -/
def Apart (w : Threads ι) (e : ι × Input) : Prop :=
  match w.procs e.1 with
  | .returned _ =>
      match e.2.call with
      | .scratchPut key _ => ∀ c held, (w.procs c).held = some held → held.key ≠ key
      | _ => True
  | .collect _ => ∀ key, TextDenylist (e.2.gateFor key)
  | .next _ (key :: _) _ => ∀ c held, (w.procs c).held = some held → held.key ≠ key
  | .append .. => ∀ c, (w.procs c).replaces = false
  | _ => True

def Entry.Superseded (e : Entry) (s : Shared) : Prop := ∃ e' ∈ s.trail.log, e'.key = e.key ∧ e.put < e'.put

/-- The episodic file has a record of the value. -/
def Entry.Recorded (e : Entry) (s : Shared) : Prop :=
  ∃ r, Line.record r ∈ s.file.getD [] ∧ r.key = e.key ∧ r.value = e.value ∧ r.put = e.put

/-- No call has raised, no value put is lost and none is recorded twice. -/
structure NothingLost (w : Threads ι) : Prop where
  quiet : ∀ c e, w.procs c ≠ .raised e
  kept : ∀ e ∈ w.shared.trail.log, w.shared.scratch.get? e.key = some e ∨ e.Superseded w.shared ∨
    e.Recorded w.shared ∨ e.put ∈ w.shared.trail.cleaned
  once : w.shared.trail.appended.Nodup
  /-- What has left scratch otherwise than by a later put has exactly one record written. -/
  promoted : ∀ e ∈ w.shared.trail.log, w.shared.scratch.get? e.key ≠ some e → ¬e.Superseded w.shared →
    w.shared.trail.appended.count e.put = 1

theorem put_mem_cleaned {r : Record} (hfile : Line.record r ∈ s.file.getD []) (hold : r.ts < cutoff) :
    r.put ∈ (s.rewrite cutoff remaining).trail.cleaned := by
  refine List.mem_append_right _ (List.mem_filterMap.mpr ⟨.record r, List.mem_filter.mpr ⟨hfile, ?_⟩, rfl⟩)
  simpa [Line.tooOld, Line.ts?] using hold

/-! ## The invariant -/

/-- What holds of the memory and its trail. -/
structure Sound (s : Shared) : Prop where
  numbered : s.trail.log.map Entry.put = List.range s.trail.log.length
  current : ∀ e ∈ s.scratch.rows, e ∈ s.trail.log ∧ ∀ e' ∈ s.trail.log, e'.key = e.key → e'.put ≤ e.put
  accounted : ∀ e ∈ s.trail.log, e ∈ s.scratch.rows ∨ e.Superseded s ∨ e.put ∈ s.trail.appended
  written : ∀ i ∈ s.trail.appended, i < s.trail.log.length
  once : s.trail.appended.Nodup
  recorded : ∀ e ∈ s.trail.log, e.put ∈ s.trail.appended → e.Recorded s ∨ e.put ∈ s.trail.cleaned

/-- What holds between the memory and a thread. -/
def Fits (s : Shared) : Thread → Prop
  | .returned _ => True
  | .check _ => True
  | .create _ => ∀ r, Line.record r ∈ s.file.getD [] → r.put ∈ s.trail.cleaned
  | .append _ e _ _ => s.file.isSome ∧ e ∈ s.scratch.rows ∧ e.put ∉ s.trail.appended
  | .delete _ e _ _ => s.file.isSome ∧ e ∈ s.scratch.rows ∧ e.put ∈ s.trail.appended
  | .rewrite cutoff remaining _ _ =>
      (∀ r, .record r ∈ s.file.getD [] → .record r ∈ remaining ∨ r.ts < cutoff ∨ r.put ∈ s.trail.cleaned) ∧
        ∀ r, .record r ∈ remaining → .record r ∈ s.file.getD [] ∨ r.put ∈ s.trail.cleaned
  | .summarize _ _ remaining => remaining.isSome
  | .raised _ => False
  | _ => s.file.isSome

structure Inv (w : Threads ι) : Prop where
  holds : Interleave.Holds Sound Fits w
  exclusive : ∀ c d e e', (w.procs c).held = some e → (w.procs d).held = some e' → e.key = e'.key → c = d
  /-- An entry that has a record and is still there is about to be deleted. -/
  pending : ∀ e ∈ w.shared.scratch.rows, e.put ∈ w.shared.trail.appended →
    ∃ c tidy toDelete promoted, w.procs c = .delete tidy e toDelete promoted

namespace Sound

theorem put_lt (h : Sound s) (he : e ∈ s.trail.log) : e.put < s.trail.log.length := by
  have hmem : e.put ∈ s.trail.log.map Entry.put := List.mem_map_of_mem he
  rw [h.numbered] at hmem
  exact List.mem_range.mp hmem

theorem eq_of_put (h : Sound s) (he : e ∈ s.trail.log) (he' : e' ∈ s.trail.log) (hput : e.put = e'.put) : e = e' := by
  have hnodup : (s.trail.log.map Entry.put).Nodup := by
    rw [h.numbered]
    exact List.nodup_range
  exact List.inj_on_of_nodup_map hnodup he he' hput

theorem eq_of_key (he : e ∈ s.scratch.rows) (he' : e' ∈ s.scratch.rows) (hkey : e.key = e'.key) : e = e' :=
  List.inj_on_of_nodup_map s.scratch.keys he he' hkey

theorem put (h : Sound s) : Sound (s.put now key value) where
  numbered := by
    simp [Shared.put, h.numbered, List.range_succ]
  current := by
    intro e he
    rcases Table.mem_put.mp he with rfl | ⟨he, hkey⟩
    · refine ⟨by simp [Shared.put], fun e' he' _ => ?_⟩
      rcases List.mem_append.mp he' with he' | he'
      · exact (h.put_lt he').le
      · rw [List.mem_singleton.mp he']
    · obtain ⟨hlog, hlast⟩ := h.current e he
      refine ⟨List.mem_append_left _ hlog, fun e' he' hsame => ?_⟩
      rcases List.mem_append.mp he' with he' | he'
      · exact hlast e' he' hsame
      · rw [List.mem_singleton.mp he'] at hsame
        exact absurd hsame.symm hkey
  accounted := by
    intro e he
    rcases List.mem_append.mp he with he | he
    · by_cases hkey : e.key = key
      · refine Or.inr (Or.inl ⟨_, List.mem_append_right _ (List.mem_singleton_self _), hkey.symm, h.put_lt he⟩)
      · rcases h.accounted e he with hrow | ⟨e', he', hlater⟩ | happended
        · exact Or.inl (Table.mem_put.mpr (Or.inr ⟨hrow, hkey⟩))
        · exact Or.inr (Or.inl ⟨e', List.mem_append_left _ he', hlater⟩)
        · exact Or.inr (Or.inr happended)
    · rw [List.mem_singleton.mp he]
      exact Or.inl (Table.mem_put.mpr (Or.inl rfl))
  written i hi := by
    have := h.written i hi
    simp only [Shared.put, List.length_append, List.length_singleton]
    omega
  once := h.once
  recorded := by
    intro e he happended
    rcases List.mem_append.mp he with he | he
    · exact h.recorded e he happended
    · rw [List.mem_singleton.mp he] at happended
      exact absurd (h.written _ happended) (Nat.lt_irrefl _)

theorem append (h : Sound s) (hrow : e ∈ s.scratch.rows) (hnew : e.put ∉ s.trail.appended) :
    Sound (s.append now e) where
  numbered := h.numbered
  current := h.current
  accounted := by
    intro e' he'
    rcases h.accounted e' he' with hrow' | hlater | happended
    · exact Or.inl hrow'
    · exact Or.inr (Or.inl hlater)
    · exact Or.inr (Or.inr (List.mem_append_left _ happended))
  written := by
    intro i hi
    rcases List.mem_append.mp hi with hi | hi
    · exact h.written i hi
    · rw [List.mem_singleton.mp hi]
      exact h.put_lt (h.current e hrow).1
  once := by
    have : ((e.put :: s.trail.appended)).Nodup := List.nodup_cons.mpr ⟨hnew, h.once⟩
    exact List.nodup_append_comm.mp this
  recorded := by
    intro e' he' happended
    rcases List.mem_append.mp happended with happended | hput
    · rcases h.recorded e' he' happended with ⟨r, hr, hsame⟩ | hcleaned
      · exact Or.inl ⟨r, List.mem_append_left _ hr, hsame⟩
      · exact Or.inr hcleaned
    · obtain rfl := h.eq_of_put he' (h.current e hrow).1 (List.mem_singleton.mp hput)
      exact Or.inl ⟨_, List.mem_append_right _ (List.mem_singleton_self _), rfl, rfl, rfl⟩

theorem delete (h : Sound s) (hrow : e ∈ s.scratch.rows) (happended : e.put ∈ s.trail.appended) :
    Sound { s with scratch := s.scratch.delete e.key } where
  numbered := h.numbered
  current e' he' := h.current e' (Table.mem_delete.mp he').1
  accounted := by
    intro e' he'
    rcases h.accounted e' he' with hrow' | hlater | happended'
    · by_cases hkey : e'.key = e.key
      · obtain rfl := eq_of_key hrow' hrow hkey
        exact Or.inr (Or.inr happended)
      · exact Or.inl (Table.mem_delete.mpr ⟨hrow', hkey⟩)
    · exact Or.inr (Or.inl hlater)
    · exact Or.inr (Or.inr happended')
  written := h.written
  once := h.once
  recorded := h.recorded

/-- A file with nothing to lose is emptied. -/
theorem create (h : Sound s) (hfree : ∀ r, Line.record r ∈ s.file.getD [] → r.put ∈ s.trail.cleaned) :
    Sound { s with file := some [] } where
  numbered := h.numbered
  current := h.current
  accounted := h.accounted
  written := h.written
  once := h.once
  recorded := by
    intro e he happended
    rcases h.recorded e he happended with ⟨r, hr, -, -, hput⟩ | hcleaned
    · exact Or.inr (hput ▸ hfree r hr)
    · exact Or.inr hcleaned

theorem rewrite (h : Sound s)
    (hremaining : ∀ r, .record r ∈ s.file.getD [] → .record r ∈ remaining ∨ r.ts < cutoff ∨ r.put ∈ s.trail.cleaned) :
    Sound (s.rewrite cutoff remaining) where
  numbered := h.numbered
  current := h.current
  accounted := h.accounted
  written := h.written
  once := h.once
  recorded := by
    intro e he happended
    rcases h.recorded e he happended with ⟨r, hr, hkey, hvalue, hput⟩ | hcleaned
    · rcases hremaining r hr with hkept | hold | hcleaned
      · exact Or.inl ⟨r, hkept, hkey, hvalue, hput⟩
      · exact Or.inr (hput ▸ put_mem_cleaned hr hold)
      · exact Or.inr (hput ▸ List.mem_append_left _ hcleaned)
    · exact Or.inr (List.mem_append_left _ hcleaned)

end Sound

/-! ## What a change means for the other threads -/

namespace Fits

variable {other : Entry}

theorem put (h : Fits s t) (hheld : ∀ held, t.held = some held → held.key ≠ key) : Fits (s.put now key value) t := by
  cases t with
  | append tidy e toDelete promoted =>
      exact ⟨h.1, Table.mem_put.mpr (Or.inr ⟨h.2.1, hheld e rfl⟩), h.2.2⟩
  | delete tidy e toDelete promoted =>
      exact ⟨h.1, Table.mem_put.mpr (Or.inr ⟨h.2.1, hheld e rfl⟩), h.2.2⟩
  | _ => exact h

theorem append (h : Fits s t) (hs : Sound s) (hrow : e ∈ s.scratch.rows) (hreplaces : t.replaces = false)
    (hheld : ∀ held, t.held = some held → held.key ≠ e.key) : Fits (s.append now e) t := by
  cases t with
  | append tidy e' toDelete promoted =>
      refine ⟨rfl, h.2.1, fun hmem => ?_⟩
      rcases List.mem_append.mp hmem with hmem | hmem
      · exact h.2.2 hmem
      · have hsame := hs.eq_of_put (hs.current e' h.2.1).1 (hs.current e hrow).1 (List.mem_singleton.mp hmem)
        exact hheld e' rfl (congrArg Entry.key hsame)
  | delete tidy e' toDelete promoted => exact ⟨rfl, h.2.1, List.mem_append_left _ h.2.2⟩
  | create tidy => cases hreplaces
  | rewrite cutoff remaining cleaned promoted => cases hreplaces
  | collect tidy => rfl
  | next tidy toDelete promoted => rfl
  | clean promoted => rfl
  | _ => exact h

theorem delete (h : Fits s t) (hheld : ∀ held, t.held = some held → held.key ≠ e.key) :
    Fits { s with scratch := s.scratch.delete e.key } t := by
  cases t with
  | append tidy e' toDelete promoted => exact ⟨h.1, Table.mem_delete.mpr ⟨h.2.1, hheld e' rfl⟩, h.2.2⟩
  | delete tidy e' toDelete promoted => exact ⟨h.1, Table.mem_delete.mpr ⟨h.2.1, hheld e' rfl⟩, h.2.2⟩
  | _ => exact h

theorem create (h : Fits s t) (hfree : ∀ r, Line.record r ∈ s.file.getD [] → r.put ∈ s.trail.cleaned) :
    Fits { s with file := some [] } t := by
  cases t with
  | create tidy => simp [Fits]
  | append tidy e toDelete promoted => exact ⟨rfl, h.2⟩
  | delete tidy e toDelete promoted => exact ⟨rfl, h.2⟩
  | rewrite cutoff remaining cleaned promoted =>
      refine ⟨by simp, fun r hr => Or.inr ?_⟩
      rcases h.2 r hr with hfile | hcleaned
      · exact hfree r hfile
      · exact hcleaned
  | collect tidy => rfl
  | next tidy toDelete promoted => rfl
  | clean promoted => rfl
  | _ => exact h

/-- Two rewrites may overlap: what the second brings back has been dropped for its age already. -/
theorem rewrite {n promoted : ℕ} (h : Fits s t) (hown : Fits s (.rewrite cutoff remaining n promoted)) :
    Fits (s.rewrite cutoff remaining) t := by
  obtain ⟨hkept, hback⟩ := hown
  cases t with
  | create tidy =>
      intro r hr
      rcases hback r hr with hfile | hcleaned
      · exact List.mem_append_left _ (h r hfile)
      · exact List.mem_append_left _ hcleaned
  | append tidy e toDelete promoted => exact ⟨rfl, h.2⟩
  | delete tidy e toDelete promoted => exact ⟨rfl, h.2⟩
  | rewrite cutoff' remaining' cleaned promoted =>
      refine ⟨fun r hr => ?_, fun r hr => ?_⟩
      · rcases hback r hr with hfile | hcleaned
        · rcases h.1 r hfile with hkept' | hold | hcleaned
          · exact Or.inl hkept'
          · exact Or.inr (Or.inl hold)
          · exact Or.inr (Or.inr (List.mem_append_left _ hcleaned))
        · exact Or.inr (Or.inr (List.mem_append_left _ hcleaned))
      · rcases h.2 r hr with hfile | hcleaned
        · rcases hkept r hfile with hkept | hold | hcleaned
          · exact Or.inl hkept
          · exact Or.inr (put_mem_cleaned hfile hold)
          · exact Or.inr (List.mem_append_left _ hcleaned)
        · exact Or.inr (List.mem_append_left _ hcleaned)
  | collect tidy => rfl
  | next tidy toDelete promoted => rfl
  | clean promoted => rfl
  | _ => exact h

end Fits

/-! ## One step -/

section

variable [DecidableEq ι] {w : Threads ι} {ev : ι × Input}

def Thread.Deletes (t : Thread) (e : Entry) : Prop := ∃ tidy toDelete promoted, t = .delete tidy e toDelete promoted

theorem Thread.Deletes.held (h : t.Deletes e) : t.held = some e := by
  obtain ⟨tidy, toDelete, promoted, rfl⟩ := h
  rfl

/-- What a step has to show: the parts of the invariant where the thread that takes it is concerned. -/
theorem Inv.of_act (h : Inv w) (s' : Shared) (t' : Thread)
    (hact : act lower ev.2 w.shared (w.procs ev.1) = (s', t')) (hsound : Sound s')
    (hfits : Fits s' t') (hother : ∀ c, c ≠ ev.1 → Fits w.shared (w.procs c) → Fits s' (w.procs c))
    (hheld : ∀ e, t'.held = some e → (w.procs ev.1).held = some e ∨
      ∀ c held, (w.procs c).held = some held → held.key ≠ e.key)
    (hpending : ∀ e ∈ s'.scratch.rows, e.put ∈ s'.trail.appended → t'.Deletes e ∨
      e ∈ w.shared.scratch.rows ∧ e.put ∈ w.shared.trail.appended ∧ ¬(w.procs ev.1).Deletes e) :
    Inv (Interleave.step (act lower) w ev) where
  holds := by
    refine h.holds.step ?_ ?_
    · rw [hact]
      exact ⟨hsound, hfits⟩
    · rw [hact]
      exact hother
  exclusive := by
    have hself : (Interleave.step (act lower) w ev).procs ev.1 = t' := by rw [Interleave.step_procs_self, hact]
    have hdiffer {c : ι} {e e' : Entry} (hc : c ≠ ev.1) (hce : (w.procs c).held = some e) (hte : t'.held = some e')
        (hkey : e.key = e'.key) : False := by
      rcases hheld e' hte with hold | hfree
      · exact hc (h.exclusive c ev.1 e e' hce hold hkey)
      · exact hfree c e hce hkey
    intro c d e e' hce hde hkey
    by_cases hc : c = ev.1
    · by_cases hd : d = ev.1
      · rw [hc, hd]
      · rw [hc, hself] at hce
        rw [Interleave.step_procs_other hd] at hde
        exact (hdiffer hd hde hce hkey.symm).elim
    · rw [Interleave.step_procs_other hc] at hce
      by_cases hd : d = ev.1
      · rw [hd, hself] at hde
        exact (hdiffer hc hce hde hkey).elim
      · rw [Interleave.step_procs_other hd] at hde
        exact h.exclusive c d e e' hce hde hkey
  pending := by
    rw [Interleave.step_shared, hact]
    intro e he happended
    rcases hpending e he happended with hnow | ⟨hrow, happended, hself⟩
    · refine ⟨ev.1, ?_⟩
      rw [Interleave.step_procs_self, hact]
      exact hnow
    · exact Interleave.exists_procs_step (P := fun t : Thread => t.Deletes e) (h.pending e hrow happended) hself

/-- A step that changes the state of its thread only. -/
theorem Inv.of_local (h : Inv w) (t' : Thread)
    (hact : act lower ev.2 w.shared (w.procs ev.1) = (w.shared, t'))
    (hfits : Fits w.shared t') (hnone : (w.procs ev.1).held = none)
    (hheld : ∀ e, t'.held = some e → ∀ c held, (w.procs c).held = some held → held.key ≠ e.key) :
    Inv (Interleave.step (act lower) w ev) := by
  refine h.of_act _ t' hact h.holds.1 hfits (fun _ _ hc => hc) (fun e he => Or.inr (hheld e he)) ?_
  intro e he happended
  refine Or.inr ⟨he, happended, fun hdeletes => ?_⟩
  rw [hdeletes.held] at hnone
  cases hnone

theorem unlisted_ok {patterns : List Yaml} (h : ∀ x ∈ patterns, ∃ text, x = .str text) :
    ∃ b, unlisted lower key value patterns = .ok b := by
  induction patterns with
  | nil => exact ⟨true, rfl⟩
  | cons x patterns ih =>
      obtain ⟨text, rfl⟩ := h x List.mem_cons_self
      rw [unlisted]
      split
      · exact ⟨false, rfl⟩
      · exact ih fun y hy => h y (List.mem_cons_of_mem _ hy)

theorem shouldPromote_ok {gate : GateFile} (h : TextDenylist gate) : ∃ b, shouldPromote lower now gate e = .ok b := by
  unfold shouldPromote
  split
  · exact ⟨false, rfl⟩
  · split
    · exact ⟨false, rfl⟩
    · cases hload : loadGateConfig gate with
      | error _ => exact ⟨false, rfl⟩
      | ok cfg =>
          obtain ⟨patterns, hiter, htexts⟩ := h cfg hload
          simp only [hiter]
          exact unlisted_ok htexts

theorem eligible_ok (h : ∀ key, TextDenylist (inp.gateFor key)) (entries : List Entry) :
    ∃ keys, eligible lower inp entries = .ok keys := by
  induction entries with
  | nil => exact ⟨[], rfl⟩
  | cons e entries ih =>
      obtain ⟨keys, hkeys⟩ := ih
      obtain ⟨b, hb⟩ : ∃ b, shouldPromote lower (inp.clockFor e.key) (inp.gateFor e.key) e = .ok b :=
        shouldPromote_ok (h e.key)
      refine ⟨if b then e.key :: keys else keys, ?_⟩
      simp only [eligible, hb, hkeys, bind, Except.bind, pure, Except.pure]

theorem Inv.step (h : Inv w) (hok : Apart w ev) : Inv (Interleave.step (act lower) w ev) := by
  have hfits := h.holds.2 ev.1
  have hsound := h.holds.1
  cases hproc : w.procs ev.1 with
  | returned last =>
      cases hcall : ev.2.call with
      | promoteAll =>
          exact h.of_local (.check false) (by rw [hproc, act, hcall]) trivial (by rw [hproc]; rfl) (by rintro e ⟨⟩)
      | hygiene =>
          exact h.of_local (.check true) (by rw [hproc, act, hcall]) trivial (by rw [hproc]; rfl) (by rintro e ⟨⟩)
      | scratchPut key value =>
          have hfree : ∀ c held, (w.procs c).held = some held → held.key ≠ key := by
            simpa [Apart, hproc, hcall] using hok
          refine h.of_act (w.shared.put ev.2.clock key value) (.returned (some .stored)) (by rw [hproc, act, hcall])
            hsound.put trivial (fun c _ hc => hc.put (hfree c)) (by rintro e ⟨⟩) fun e he happended => Or.inr ?_
          rcases Table.mem_put.mp he with rfl | ⟨hrow, -⟩
          · exact absurd (hsound.written _ happended) (Nat.lt_irrefl _)
          · refine ⟨hrow, happended, fun hdeletes => ?_⟩
            rw [hproc] at hdeletes
            cases hdeletes.held
  | check tidy =>
      cases hfile : w.shared.file with
      | none =>
          refine h.of_local (.create tidy) (by rw [hproc, act, hfile]; rfl) ?_ (by rw [hproc]; rfl) (by rintro e ⟨⟩)
          intro r hr
          rw [hfile] at hr
          cases hr
      | some lines =>
          exact h.of_local (.collect tidy) (by rw [hproc, act, hfile]; rfl) (by simp [Fits, hfile])
            (by rw [hproc]; rfl) (by rintro e ⟨⟩)
  | create tidy =>
      rw [hproc] at hfits
      refine h.of_act { w.shared with file := some [] } (.collect tidy) (by rw [hproc, act]) (hsound.create hfits) rfl
        (fun c _ hc => hc.create hfits) (by rintro e ⟨⟩)
        fun e he happended => Or.inr ⟨he, happended, fun hdeletes => ?_⟩
      rw [hproc] at hdeletes
      cases hdeletes.held
  | collect tidy =>
      rw [hproc] at hfits
      have htexts : ∀ key, TextDenylist (ev.2.gateFor key) := by simpa [Apart, hproc] using hok
      obtain ⟨keys, hkeys⟩ : ∃ keys, eligible lower ev.2 w.shared.scratch.rows = .ok keys := eligible_ok htexts _
      exact h.of_local (.next tidy keys 0) (by rw [hproc, act, hkeys]) hfits (by rw [hproc]; rfl) (by rintro e ⟨⟩)
  | next tidy toDelete promoted =>
      rw [hproc] at hfits
      cases toDelete with
      | nil =>
          cases tidy with
          | true => exact h.of_local (.clean promoted) (by rw [hproc]; rfl) hfits (by rw [hproc]; rfl) (by rintro e ⟨⟩)
          | false =>
              exact h.of_local (.returned (some (.promoted promoted))) (by rw [hproc]; rfl) trivial
                (by rw [hproc]; rfl) (by rintro e ⟨⟩)
      | cons key toDelete =>
          have hfree : ∀ c held, (w.procs c).held = some held → held.key ≠ key := by
            simpa [Apart, hproc] using hok
          cases hget : w.shared.scratch.get? key with
          | none =>
              exact h.of_local (.next tidy toDelete promoted) (by rw [hproc, act, hget]) hfits (by rw [hproc]; rfl)
                (by rintro e ⟨⟩)
          | some e =>
              obtain ⟨hrow, rfl⟩ := Table.get?_eq_some.mp hget
              refine h.of_local (.append tidy e toDelete promoted) (by rw [hproc, act, hget]) ?_ (by rw [hproc]; rfl) ?_
              · refine ⟨hfits, hrow, fun happended => ?_⟩
                obtain ⟨c, hdeletes⟩ := h.pending e hrow happended
                exact hfree c e (Thread.Deletes.held hdeletes) rfl
              · rintro e' ⟨⟩
                exact hfree
  | append tidy e toDelete promoted =>
      rw [hproc] at hfits
      obtain ⟨-, hrow, hnew⟩ := hfits
      have hreplaces : ∀ c, (w.procs c).replaces = false := by simpa [Apart, hproc] using hok
      have hheld : (w.procs ev.1).held = some e := by rw [hproc]; rfl
      refine h.of_act (w.shared.append ev.2.clock e) (.delete tidy e toDelete promoted) (by rw [hproc, act])
        (hsound.append hrow hnew) ⟨rfl, hrow, List.mem_append_right _ (List.mem_singleton_self _)⟩ ?_ ?_ ?_
      · intro c hc hc'
        refine hc'.append hsound hrow (hreplaces c) fun held hcheld hkey => ?_
        exact hc (h.exclusive c ev.1 held e hcheld hheld hkey)
      · rintro e' ⟨⟩
        exact Or.inl hheld
      · intro e' he' happended
        rcases List.mem_append.mp happended with happended | hput
        · refine Or.inr ⟨he', happended, fun hdeletes => ?_⟩
          rw [hproc] at hdeletes
          obtain ⟨_, _, _, hdeletes⟩ := hdeletes
          cases hdeletes
        · have hlog := (hsound.current e hrow).1
          obtain rfl := hsound.eq_of_put (hsound.current e' he').1 hlog (List.mem_singleton.mp hput)
          exact Or.inl ⟨tidy, toDelete, promoted, rfl⟩
  | delete tidy e toDelete promoted =>
      rw [hproc] at hfits
      obtain ⟨hfile, hrow, happended⟩ := hfits
      have hget : w.shared.scratch.get? e.key = some e := Table.get?_eq_some.mpr ⟨hrow, rfl⟩
      have hheld : (w.procs ev.1).held = some e := by rw [hproc]; rfl
      refine h.of_act { w.shared with scratch := w.shared.scratch.delete e.key } (.next tidy toDelete (promoted + 1))
        (by rw [hproc, act, hget]) (hsound.delete hrow happended) hfile ?_ (by rintro e' ⟨⟩) ?_
      · intro c hc hc'
        exact hc'.delete fun held hcheld hkey => hc (h.exclusive c ev.1 held e hcheld hheld hkey)
      · intro e' he' happended'
        obtain ⟨hrow', hkey⟩ := Table.mem_delete.mp he'
        refine Or.inr ⟨hrow', happended', fun hdeletes => ?_⟩
        rw [hdeletes.held] at hheld
        cases hheld
        exact hkey rfl
  | clean promoted =>
      rw [hproc] at hfits
      obtain ⟨lines, hfile⟩ := Option.isSome_iff_exists.mp hfits
      refine h.of_local _ (by rw [hproc, act, hfile]) ?_ (by rw [hproc]; rfl) (by rintro e ⟨⟩)
      rw [Fits, hfile]
      refine ⟨fun r hr => ?_, fun r hr => Or.inl (List.mem_of_mem_filter hr)⟩
      by_cases hold : r.ts < ev.2.clock - maxAge
      · exact Or.inr (Or.inl hold)
      · exact Or.inl (List.mem_filter.mpr ⟨hr, by simpa [Line.tooOld, Line.ts?] using hold⟩)
  | rewrite cutoff remaining cleaned promoted =>
      rw [hproc] at hfits
      refine h.of_act (w.shared.rewrite cutoff remaining) (.summarize promoted cleaned (some remaining.length))
        (by rw [hproc, act]) (hsound.rewrite hfits.1) rfl (fun c _ hc => hc.rewrite hfits) (by rintro e ⟨⟩)
        fun e he happended => Or.inr ⟨he, happended, fun hdeletes => ?_⟩
      rw [hproc] at hdeletes
      cases hdeletes.held
  | summarize promoted cleaned remaining =>
      rw [hproc] at hfits
      obtain ⟨n, rfl⟩ := Option.isSome_iff_exists.mp hfits
      let size := w.shared.scratch.rows.length
      cases hfile : w.shared.file with
      | none =>
          exact h.of_local (.returned (some (.summary promoted cleaned 0 size)))
            (by simp only [hproc, act, hfile, size]) trivial (by rw [hproc]; rfl) (by rintro e ⟨⟩)
      | some lines =>
          exact h.of_local (.returned (some (.summary promoted cleaned n size)))
            (by simp only [hproc, act, hfile, size]) trivial (by rw [hproc]; rfl) (by rintro e ⟨⟩)
  | raised e =>
      rw [hproc] at hfits
      exact hfits.elim

omit [DecidableEq ι] in
theorem inv_start (file : Option (List (Option ℚ))) : Inv (start file : Threads ι) where
  holds := by
    refine ⟨?_, fun _ => trivial⟩
    constructor <;> simp [start, Table.empty]
  exclusive := by
    rintro c d e e' ⟨⟩
  pending := by
    rintro e ⟨⟩

omit [DecidableEq ι] in
theorem Inv.nothingLost (h : Inv w) : NothingLost w where
  quiet c e hproc := by
    have := h.holds.2 c
    rw [hproc] at this
    exact this
  kept e he := by
    rcases h.holds.1.accounted e he with hrow | hlater | happended
    · exact Or.inl (Table.get?_eq_some.mpr ⟨hrow, rfl⟩)
    · exact Or.inr (Or.inl hlater)
    · exact Or.inr (Or.inr (h.holds.1.recorded e he happended))
  once := h.holds.1.once
  promoted e he hgone hlast := by
    rcases h.holds.1.accounted e he with hrow | hlater | happended
    · exact absurd (Table.get?_eq_some.mpr ⟨hrow, rfl⟩) hgone
    · exact absurd hlater hlast
    · exact List.count_eq_one_of_mem h.holds.1.once happended

omit [DecidableEq ι] in
theorem not_nothingLost (he : e ∈ w.shared.trail.log) (hrow : w.shared.scratch.get? e.key ≠ some e)
    (hlast : ∀ e' ∈ w.shared.trail.log, ¬(e'.key = e.key ∧ e.put < e'.put))
    (hfile : ∀ line ∈ w.shared.file.getD [], line.put? ≠ some e.put) (hcleaned : e.put ∉ w.shared.trail.cleaned) :
    ¬NothingLost w := by
  intro h
  rcases h.kept e he with hthere | ⟨e', he', hlater⟩ | ⟨r, hr, -, -, hput⟩ | hdropped
  · exact hrow hthere
  · exact hlast e' he' hlater
  · exact hfile _ hr (congrArg some hput)
  · exact hcleaned hdropped

/-! ## A thread alone -/

omit [DecidableEq ι] in
/-- Calls of one thread, one after the other, fall between no two steps of another. -/
theorem apart_of_alone (hothers : ∀ c, c ≠ ev.1 → (w.procs c).held = none ∧ (w.procs c).replaces = false)
    (hgate : ∀ key, TextDenylist (ev.2.gateFor key)) : Apart w ev := by
  have hfree (hself : (w.procs ev.1).held = none) (c : ι) (held : Entry) (hheld : (w.procs c).held = some held)
      (key : Text) : held.key ≠ key := by
    by_cases hc : c = ev.1
    · rw [hc, hself] at hheld
      cases hheld
    · rw [(hothers c hc).1] at hheld
      cases hheld
  unfold Apart
  cases hproc : w.procs ev.1 with
  | returned last =>
      have hself : (w.procs ev.1).held = none := by rw [hproc]; rfl
      cases ev.2.call with
      | scratchPut key value => exact fun c held hheld => hfree hself c held hheld key
      | promoteAll => trivial
      | hygiene => trivial
  | collect tidy => exact hgate
  | next tidy toDelete promoted =>
      have hself : (w.procs ev.1).held = none := by rw [hproc]; rfl
      cases toDelete with
      | nil => trivial
      | cons key toDelete => exact fun c held hheld => hfree hself c held hheld key
  | append tidy e toDelete promoted =>
      intro c
      by_cases hc : c = ev.1
      · rw [hc, hproc]
        rfl
      · exact (hothers c hc).2
  | _ => trivial

theorem along_of_alone {schedule : List (ι × Input)}
    (hothers : ∀ d, d ≠ c → (w.procs d).held = none ∧ (w.procs d).replaces = false)
    (hschedule : ∀ ev ∈ schedule, ev.1 = c ∧ ∀ key, TextDenylist (ev.2.gateFor key)) :
    Interleave.Along (act lower) Apart w schedule := by
  induction schedule generalizing w with
  | nil => trivial
  | cons ev schedule ih =>
      obtain ⟨rfl, hgate⟩ := hschedule ev List.mem_cons_self
      refine ⟨apart_of_alone hothers hgate, ih ?_ fun ev' hev' => hschedule ev' (List.mem_cons_of_mem _ hev')⟩
      intro d hd
      rw [Interleave.step_procs_other hd]
      exact hothers d hd

end

end CryptoAggHarmonic.LoopTools
