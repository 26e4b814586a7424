import CryptoAggHarmonic.Vibe.Run

/-!
# What a cancellation stops

Only a request to cancel writes that status, so it stays as long as no `update_run` of the others comes after it. A
call of the model or of a tool comes right after a check of its agent that has found nothing.
-/

namespace CryptoAggHarmonic.Vibe

open Sql Quota

/-- The agent has checked after an answer. -/
def Stopped (place : Place) : List Happening → Prop
  | [] => False
  | .check p :: earlier => (p = place ∧ .answered ∈ earlier) ∨ Stopped place earlier
  | _ :: earlier => Stopped place earlier

/-- No agent calls anything once it has checked after an answer. -/
def Quiet : List Happening → Prop
  | [] => True
  | .call place :: earlier => ¬ Stopped place earlier ∧ Quiet earlier
  | _ :: earlier => Quiet earlier

/-- After an answer the status is, and stays, cancelled, and no agent goes on past its next check. -/
structure Cancelled (s : Shared) : Prop where
  status : .answered ∈ s.history → s.record = some .cancelled
  quiet : Quiet s.history

section

variable {ι : Type} {s : System ι} {sh : Shared} {w : Worker} {r : Reply} {config : Config} {place : Place}
  {sent : SenderPhase} {turn : Turn ι}

/-- The status write of `update_run` takes place. -/
def Reply.writes (r : Reply) : Prop := r.killed = false ∧ r.raises = false ∧ r.stored = true

instance : Decidable r.writes := inferInstanceAs (Decidable (_ ∧ _))

/-- The status is not written over a cancelled one. A check after an answer finds the event set, or the key. -/
def AgentEffective (s : Shared) (place : Place) (token : Bool) (r : Reply) : WorkerPhase → Prop
  | .updateRun _ _ => r.writes → s.record ≠ some .cancelled
  | .check _ | .checkTool _ _ => .answered ∈ s.history → r.raises = true ∨ s.isSet place token r.redis = true
  | _ => True

/-- Until one has answered, a request to cancel gets from RQ to its write, which takes place. -/
def CancelEffective (s : Shared) (r : Reply) : CancelPhase → Prop
  | .fetchJob => .answered ∈ s.history ∨ r.raises = false
  | .cancelJob => .answered ∈ s.history ∨ r.raises = false ∧ s.job ≠ .cancelled
  | .cancelRun => .answered ∈ s.history ∨ r.raises = false ∧ r.stored = true
  | _ => True

def Effective (s : System ι) : Turn ι → Prop
  | .sender r => s.sender = .fail → r.writes → s.shared.record ≠ some .cancelled
  | .worker place r => AgentEffective s.shared place (s.workers place).token r (s.workers place).phase
  | .cancel c r => CancelEffective s.shared r (s.cancels c)

instance {token : Bool} : (phase : WorkerPhase) → Decidable (AgentEffective sh place token r phase)
  | .updateRun _ _ => inferInstanceAs (Decidable (_ → _))
  | .check _ | .checkTool _ _ => inferInstanceAs (Decidable (_ → _))
  | .idle | .building | .prologue | .chat _ | .executeTool _ _ | .publishError | .settle _ | .deliver _ _
  | .saveTrace _ _ | .consumeAgain _ | .unregister | .ended => inferInstanceAs (Decidable True)

instance : (phase : CancelPhase) → Decidable (CancelEffective sh r phase)
  | .fetchJob | .cancelJob | .cancelRun => inferInstanceAs (Decidable (_ ∨ _))
  | .getRun | .signal | .answer | .ended => inferInstanceAs (Decidable True)

instance : (turn : Turn ι) → Decidable (Effective s turn)
  | .sender _ => inferInstanceAs (Decidable (_ → _ → _))
  | .worker place r =>
      inferInstanceAs (Decidable (AgentEffective s.shared place (s.workers place).token r (s.workers place).phase))
  | .cancel c r => inferInstanceAs (Decidable (CancelEffective s.shared r (s.cancels c)))

/-! ## One step of an agent -/

/-- The next step calls the model or a tool. -/
def WorkerPhase.calling : WorkerPhase → Bool
  | .chat _ | .executeTool _ _ => true
  | _ => false

theorem round_calling {iteration : ℕ} : (config.round iteration).calling = false := by
  unfold Config.round
  split_ifs <;> rfl

@[simp] theorem consume_record {rpc : Rpc} {inputTokens outputTokens : ℤ} :
    (sh.consume config rpc inputTokens outputTokens).record = sh.record := by
  unfold Shared.consume
  split
  · split_ifs <;> rfl
  · rfl

@[simp] theorem consume_history {rpc : Rpc} {inputTokens outputTokens : ℤ} :
    (sh.consume config rpc inputTokens outputTokens).history = sh.history := by
  unfold Shared.consume
  split
  · split_ifs <;> rfl
  · rfl

@[simp] theorem release_record {rpc : Rpc} : (sh.release config rpc).record = sh.record := by
  unfold Shared.release
  split
  · split_ifs <;> rfl
  · rfl

@[simp] theorem release_history {rpc : Rpc} : (sh.release config rpc).history = sh.history := by
  unfold Shared.release
  split
  · split_ifs <;> rfl
  · rfl

@[simp] theorem updateRun_history {stored : Bool} {status : RunStatus} :
    (sh.updateRun stored status).history = sh.history := by
  unfold Shared.updateRun
  split_ifs <;> rfl

theorem unset_of_not {raises set : Bool} (h : ¬ (raises || set) = true) : raises = false ∧ set = false := by
  simpa using h

/-- What a step of an agent does to what has happened, and whether it is about to call. -/
inductive Happens (place : Place) (sh : Shared) (r : Reply) (w w' : Worker) : List Happening → Prop
  | nothing (h : w'.phase.calling = false ∨ w' = w) : Happens place sh r w w' sh.history
  | checks (hphase : ∃ i, w.phase = .check i ∨ ∃ left, w.phase = .checkTool i left)
      (h : w'.phase.calling = true → r.raises = false ∧ sh.isSet place w.token r.redis = false) :
      Happens place sh r w w' (.check place :: sh.history)
  | calls (hphase : w.phase.calling = true) (h : w'.phase.calling = false) :
      Happens place sh r w w' (.call place :: sh.history)

theorem work_happens (config : Config) :
    Happens place sh r w (work config place r sh w).2 (work config place r sh w).1.history := by
  unfold work
  cases hphase : w.phase with
  | idle =>
      cases place with
      | rq =>
          dsimp only
          split_ifs
          · exact .nothing (.inl rfl)
          · exact .nothing (.inr rfl)
      | thread =>
          dsimp only
          split
          · exact .nothing (.inl rfl)
          · exact .nothing (.inr rfl)
  | ended => exact .nothing (.inr rfl)
  | building =>
      dsimp only
      split_ifs <;> exact .nothing (.inl rfl)
  | prologue =>
      dsimp only
      split_ifs
      · exact .nothing (.inl rfl)
      · exact .nothing (.inl rfl)
      · exact .nothing (.inl round_calling)
  | check iteration =>
      dsimp only
      split_ifs with hkilled hset
      · exact .nothing (.inl rfl)
      · exact .checks ⟨iteration, .inl hphase⟩ (fun h => by cases h)
      · exact .checks ⟨iteration, .inl hphase⟩ (fun _ => unset_of_not hset)
  | chat iteration =>
      have hcalling : w.phase.calling = true := by rw [hphase]; rfl
      dsimp only
      split_ifs
      · exact .nothing (.inl rfl)
      · exact .calls hcalling rfl
      · refine .calls hcalling ?_
        split <;> rfl
  | checkTool iteration left =>
      dsimp only
      split_ifs with hkilled hset
      · exact .nothing (.inl rfl)
      · exact .checks ⟨iteration, .inr ⟨left, hphase⟩⟩ (fun h => by cases h)
      · exact .checks ⟨iteration, .inr ⟨left, hphase⟩⟩
          (fun _ => unset_of_not hset)
  | executeTool iteration left =>
      have hcalling : w.phase.calling = true := by rw [hphase]; rfl
      dsimp only
      split_ifs
      · exact .nothing (.inl rfl)
      · exact .calls hcalling rfl
      · refine .calls hcalling ?_
        split
        · exact round_calling
        · rfl
  | publishError =>
      dsimp only
      split_ifs <;> exact .nothing (.inl rfl)
  | settle outcome =>
      cases outcome <;> dsimp only <;> split_ifs <;>
        simp only [release_history, consume_history] <;> exact .nothing (.inl rfl)
  | deliver outcome consumed =>
      cases outcome <;> dsimp only <;> split_ifs <;> exact .nothing (.inl rfl)
  | updateRun outcome consumed =>
      dsimp only
      split_ifs
      · exact .nothing (.inl rfl)
      · exact .nothing (.inl rfl)
      · rw [updateRun_history]
        exact .nothing (.inl rfl)
  | saveTrace outcome consumed =>
      dsimp only
      split_ifs <;> exact .nothing (.inl rfl)
  | consumeAgain consumed =>
      dsimp only
      split_ifs
      · exact .nothing (.inl rfl)
      · exact .nothing (.inl rfl)
      · rw [consume_history]
        exact .nothing (.inl rfl)
  | unregister =>
      dsimp only
      split_ifs <;> exact .nothing (.inl rfl)

/-- An agent writes the status in one place. -/
theorem work_record (config : Config) (place : Place) (r : Reply) (sh : Shared) (w : Worker) :
    (work config place r sh w).1.record = sh.record ∨
    ∃ outcome consumed, w.phase = .updateRun outcome consumed ∧ r.writes ∧
      (work config place r sh w).1.record = sh.record.map fun _ => outcome.status := by
  unfold work
  cases hphase : w.phase with
  | updateRun outcome consumed =>
      dsimp only
      split_ifs with hkilled hraises
      · exact .inl rfl
      · exact .inl rfl
      · rw [Shared.updateRun]
        split_ifs with hstored
        · exact .inr ⟨outcome, consumed, rfl, ⟨by simpa using hkilled, by simpa using hraises, hstored⟩, rfl⟩
        · exact .inl rfl
  | idle =>
      cases place <;> dsimp only <;> split <;> exact .inl rfl
  | settle outcome =>
      cases outcome <;> dsimp only <;> split_ifs <;> simp
  | deliver outcome consumed =>
      cases outcome <;> dsimp only <;> split_ifs <;> exact .inl rfl
  | consumeAgain consumed =>
      dsimp only
      split_ifs <;> simp
  | _ =>
      dsimp only
      first
        | exact .inl rfl
        | (split_ifs <;> exact .inl rfl)

/-! ## The invariant -/

/-- What is so in every state of a run whose steps are effective. -/
structure Firm (s : System ι) : Prop where
  answered : .answered ∈ s.shared.history → s.shared.record = some .cancelled
  answering : ∀ c, s.cancels c = .answer → s.shared.record = some .cancelled
  found : ∀ c, s.cancels c ≠ .getRun → s.cancels c ≠ .ended → s.shared.record ≠ none
  creating : s.sender = .create → s.shared.record = none
  quiet : Quiet s.shared.history
  calling : ∀ place, (s.workers place).phase.calling = true → ¬ Stopped place s.shared.history

theorem Firm.cancelled (h : Firm s) : Cancelled s.shared := ⟨h.answered, h.quiet⟩

theorem firm_start (books : Books) : Firm (System.start (ι := ι) books) where
  answered := fun h => nomatch h
  answering := fun _ h => nomatch h
  found := fun _ h => absurd rfl h
  creating := fun _ => rfl
  quiet := trivial
  calling := fun _ h => nomatch h

/-- What the sender does to the record, and what it leaves alone. -/
theorem send_record (config : Config) (r : Reply) (sh : Shared) (sent : SenderPhase) :
    (send config r sh sent).1.history = sh.history ∧
    ((send config r sh sent).1.record = sh.record ∨ sent = .create ∨ sent = .fail ∧ r.writes ∧
      (sh.record ≠ none → (send config r sh sent).1.record ≠ none)) ∧
    (send config r sh sent).2 ≠ .create := by
  unfold send
  by_cases hkilled : r.killed = true
  · rw [if_pos hkilled]
    exact ⟨rfl, .inl rfl, by simp⟩
  · rw [if_neg hkilled]
    cases sent with
    | create =>
        dsimp only
        split_ifs <;> exact ⟨rfl, .inr (.inl rfl), by simp⟩
    | enqueue =>
        dsimp only
        split <;> exact ⟨rfl, .inl rfl, by simp⟩
    | fail =>
        dsimp only
        split_ifs with hraises
        · exact ⟨rfl, .inl rfl, by simp⟩
        · refine ⟨updateRun_history, ?_, by simp⟩
          rw [Shared.updateRun]
          split_ifs with hstored
          · exact .inr (.inr ⟨rfl, ⟨by simpa using hkilled, by simpa using hraises, hstored⟩, by simp⟩)
          · exact .inl rfl
    | release => exact ⟨release_history, .inl release_record, by simp⟩
    | ended => exact ⟨rfl, .inl rfl, by simp⟩

/-- Where nothing but the status is at stake, a step that keeps the history keeps the rest with the status. -/
theorem Firm.keep {s' : System ι} (h : Firm s) (hhistory : s'.shared.history = s.shared.history)
    (hrecord : s.shared.record = some .cancelled → s'.shared.record = some .cancelled)
    (hfound : s.shared.record ≠ none → s'.shared.record ≠ none) (hcancels : s'.cancels = s.cancels)
    (hcreating : s'.sender = .create → s'.shared.record = none)
    (hcalling : ∀ place, (s'.workers place).phase.calling = true → (s.workers place).phase.calling = true) :
    Firm s' where
  answered := fun ha => hrecord (h.answered (hhistory ▸ ha))
  answering := fun c hc => hrecord (h.answering c (hcancels ▸ hc))
  found := fun c h₁ h₂ => hfound (h.found c (hcancels ▸ h₁) (hcancels ▸ h₂))
  creating := hcreating
  quiet := hhistory ▸ h.quiet
  calling := fun place hp => hhistory ▸ h.calling place (hcalling place hp)

theorem stopped_answered {earlier : List Happening} (h : Stopped place earlier) : .answered ∈ earlier := by
  induction earlier with
  | nil => exact h.elim
  | cons e earlier ih =>
      cases e with
      | check p => exact List.mem_cons_of_mem _ (h.elim And.right ih)
      | answered => exact List.mem_cons_self
      | call p => exact List.mem_cons_of_mem _ (ih h)

/-- A check after an answer leads nowhere. -/
theorem effective_check (hok : Effective s (.worker place r))
    (hphase : ∃ i, (s.workers place).phase = .check i ∨ ∃ left, (s.workers place).phase = .checkTool i left)
    (hunset : r.raises = false ∧ s.shared.isSet place (s.workers place).token r.redis = false) :
    .answered ∉ s.shared.history := by
  intro ha
  have hset : r.raises = true ∨ s.shared.isSet place (s.workers place).token r.redis = true := by
    obtain ⟨i, hi | ⟨left, hi⟩⟩ := hphase <;>
      · rw [Effective, hi] at hok
        exact hok ha
  rw [hunset.1, hunset.2] at hset
  simp at hset

/-- What a step of an agent keeps of the history. -/
theorem Firm.happens {earlier : List Happening} {w' : Worker} (h : Firm s) (hok : Effective s (.worker place r))
    (hhappens : Happens place s.shared r (s.workers place) w' earlier) :
    (.answered ∈ earlier → .answered ∈ s.shared.history) ∧ Quiet earlier ∧
      (∀ q, q ≠ place → (s.workers q).phase.calling = true → ¬ Stopped q earlier) ∧
      (w'.phase.calling = true → ¬ Stopped place earlier) := by
  cases hhappens with
  | nothing hw =>
      refine ⟨id, h.quiet, fun q _ hq => h.calling q hq, fun hcalling => ?_⟩
      rcases hw with hw | rfl
      · rw [hw] at hcalling
        cases hcalling
      · exact h.calling place hcalling
  | checks hphase hunset =>
      refine ⟨fun ha => by simpa using ha, h.quiet, fun q hq hcalling => ?_, fun hcalling => ?_⟩
      · rintro (⟨heq, -⟩ | hstopped)
        · exact hq heq.symm
        · exact h.calling q hcalling hstopped
      · have hnone := effective_check hok hphase (hunset hcalling)
        rintro (⟨-, ha⟩ | hstopped)
        · exact hnone ha
        · exact hnone (stopped_answered hstopped)
  | calls hphase hcalling =>
      exact ⟨fun ha => by simpa using ha, ⟨h.calling place hphase, h.quiet⟩, fun q _ hq => h.calling q hq,
        fun hc => by rw [hcalling] at hc; cases hc⟩

variable [DecidableEq ι]

theorem Firm.sender (h : Firm s) (hok : Effective s (.sender r)) : Firm (s.step config (.sender r)) := by
  obtain ⟨hhistory, hrecord, hcreate⟩ := send_record config r s.shared s.sender
  have hcreating : (send config r s.shared s.sender).2 = .create →
      (send config r s.shared s.sender).1.record = none := fun hc => absurd hc hcreate
  rcases hrecord with hsame | hsender | ⟨hsender, hwrites, hfound⟩
  · exact h.keep hhistory (fun hc => hsame.trans hc) (fun hn => hsame ▸ hn) rfl hcreating fun _ hp => hp
  · have hnone := h.creating hsender
    exact h.keep hhistory (fun hc => by rw [hnone] at hc; cases hc) (fun hn => absurd hnone hn) rfl hcreating
      fun _ hp => hp
  · exact h.keep hhistory (fun hc => absurd hc (hok hsender hwrites)) hfound rfl hcreating fun _ hp => hp

theorem Firm.worker (h : Firm s) (hok : Effective s (.worker place r)) : Firm (s.step config (.worker place r)) := by
  have hself : (s.step config (.worker place r)).workers place =
      (work config place r s.shared (s.workers place)).2 := Function.update_self ..
  obtain ⟨hanswered, hquiet, hothers, hown⟩ := h.happens hok (work_happens config)
  have hrecord : (s.shared.record = some .cancelled →
      (s.step config (.worker place r)).shared.record = some .cancelled) ∧
      (s.shared.record = none ↔ (s.step config (.worker place r)).shared.record = none) := by
    rcases work_record config place r s.shared (s.workers place) with
      hsame | ⟨outcome, consumed, hphase, hwrites, hmap⟩
    · exact ⟨hsame.trans, by rw [← hsame]; rfl⟩
    · rw [Effective, hphase] at hok
      refine ⟨fun hc => absurd hc (hok hwrites), ?_⟩
      rw [← Option.map_eq_none_iff (f := fun _ => outcome.status), ← hmap]
      rfl
  refine ⟨fun ha => hrecord.1 (h.answered (hanswered ha)), fun c hc => hrecord.1 (h.answering c hc),
    fun c h₁ h₂ => hrecord.2.not.mp (h.found c h₁ h₂), fun hc => hrecord.2.mp (h.creating hc), hquiet, fun q hq => ?_⟩
  by_cases hplace : q = place
  · subst hplace
    rw [hself] at hq
    exact hown hq
  · have hsame : (s.step config (.worker place r)).workers q = s.workers q := Function.update_of_ne hplace ..
    exact hothers q hplace (hsame ▸ hq)

/-- What a step of a request to cancel does. -/
inductive Cancels (r : Reply) (sh : Shared) : CancelPhase → Shared → CancelPhase → Prop
  | ends (phase : CancelPhase) : Cancels r sh phase sh .ended
  | finds (h : sh.record ≠ none) : Cancels r sh .getRun sh .fetchJob
  | fetchRaises (h : r.raises = true) : Cancels r sh .fetchJob sh .answer
  | cancelRaises (h : r.raises = true ∨ sh.job = .cancelled) : Cancels r sh .cancelJob sh .answer
  | goesOn (phase phase' : CancelPhase) (sh' : Shared) (hfrom : phase ∈ [.fetchJob, .cancelJob, .signal])
      (hto : phase' ∈ [.cancelJob, .signal, .cancelRun]) (hrecord : sh'.record = sh.record)
      (hhistory : sh'.history = sh.history) : Cancels r sh phase sh' phase'
  | writeRaises (h : r.raises = true) : Cancels r sh .cancelRun sh .answer
  | writes : Cancels r sh .cancelRun (sh.updateRun r.stored .cancelled) .answer
  | answers : Cancels r sh .answer (sh.log .answered) .ended

omit [DecidableEq ι] in
theorem cancel_cases {phase : CancelPhase} : Cancels r sh phase (cancel r sh phase).1 (cancel r sh phase).2 := by
  unfold cancel
  by_cases hkilled : r.killed = true
  · rw [if_pos hkilled]
    exact .ends phase
  · rw [if_neg hkilled]
    cases phase with
    | getRun =>
        dsimp only
        split_ifs with h
        · simp only [Bool.and_eq_true, Option.isSome_iff_ne_none] at h
          exact .finds h.1
        · exact .ends _
    | fetchJob =>
        dsimp only
        split_ifs with h
        · exact .fetchRaises h
        · exact .goesOn _ _ _ (by simp) (by simp) rfl rfl
        · exact .goesOn _ _ _ (by simp) (by simp) rfl rfl
    | cancelJob =>
        dsimp only
        split_ifs with h
        · exact .cancelRaises (by simpa using h)
        · exact .goesOn _ _ _ (by simp) (by simp) rfl rfl
    | signal => exact .goesOn _ _ _ (by simp) (by simp) rfl rfl
    | cancelRun =>
        dsimp only
        split_ifs with h
        · exact .writeRaises h
        · exact .writes
    | answer => exact .answers
    | ended => exact .ends _

omit [DecidableEq ι] in
theorem updateRun_cancelled {stored : Bool} (h : sh.record = some .cancelled) :
    (sh.updateRun stored .cancelled).record = some .cancelled := by
  rw [Shared.updateRun]
  split_ifs
  · rw [h]
    rfl
  · exact h

/-- A request that has found the run and moves on keeps the invariant, given what it does to the status. -/
theorem Firm.moves {c : ι} {sh' : Shared} {phase' : CancelPhase} (h : Firm s)
    (hhistory : sh'.history = s.shared.history)
    (hrecord : s.shared.record = some .cancelled → sh'.record = some .cancelled)
    (hfound : s.shared.record ≠ none ↔ sh'.record ≠ none) (hanswer : phase' = .answer → sh'.record = some .cancelled)
    (hrun : phase' ≠ .ended → s.shared.record ≠ none) :
    Firm { s with shared := sh', cancels := Function.update s.cancels c phase' } := by
  refine ⟨fun ha => hrecord (h.answered (hhistory ▸ ha)), fun d hd => ?_, fun d h₁ h₂ => ?_,
    fun hc => not_ne_iff.mp (hfound.not.mp (not_ne_iff.mpr (h.creating hc))), ?_, fun place hp => ?_⟩
  · dsimp only at hd
    rw [Function.update_apply] at hd
    split_ifs at hd
    · exact hanswer hd
    · exact hrecord (h.answering d hd)
  · dsimp only at h₁ h₂
    rw [Function.update_apply] at h₁ h₂
    split_ifs at h₁ h₂
    · exact hfound.mp (hrun h₂)
    · exact hfound.mp (h.found d h₁ h₂)
  · show Quiet sh'.history
    rw [hhistory]
    exact h.quiet
  · show ¬ Stopped place sh'.history
    rw [hhistory]
    exact h.calling place hp

theorem Firm.cancel {c : ι} (h : Firm s) (hok : Effective s (.cancel c r)) : Firm (s.step config (.cancel c r)) := by
  have hcases : Cancels r s.shared (s.cancels c) (Vibe.cancel r s.shared (s.cancels c)).1
    (Vibe.cancel r s.shared (s.cancels c)).2 := cancel_cases
  have hstep : s.step config (.cancel c r) = { s with
      shared := (Vibe.cancel r s.shared (s.cancels c)).1
      cancels := Function.update s.cancels c (Vibe.cancel r s.shared (s.cancels c)).2 } := rfl
  rw [hstep]
  generalize (Vibe.cancel r s.shared (s.cancels c)).1 = sh', (Vibe.cancel r s.shared (s.cancels c)).2 = phase'
    at hcases ⊢
  rw [Effective] at hok
  have hfound := h.found c
  have hanswering := h.answering c
  generalize s.cancels c = phase at hcases hok hfound hanswering
  cases hcases with
  | ends => exact h.moves rfl id Iff.rfl (by simp) (by simp)
  | finds hrun => exact h.moves rfl id Iff.rfl (by simp) fun _ => hrun
  | fetchRaises hraises =>
      exact h.moves rfl id Iff.rfl (fun _ => h.answered (hok.resolve_right (by simp [hraises])))
        fun _ => hfound (by simp) (by simp)
  | cancelRaises hraises =>
      refine h.moves rfl id Iff.rfl (fun _ => h.answered (hok.resolve_right ?_)) fun _ => hfound (by simp) (by simp)
      rintro ⟨hnot, hjob⟩
      rcases hraises with hraises | hjob'
      · rw [hnot] at hraises
        cases hraises
      · exact hjob hjob'
  | goesOn _ phase' _ hfrom hto hrecord hhistory =>
      refine h.moves hhistory (fun hc => hrecord.trans hc) (by rw [hrecord]) (fun ha => ?_) fun _ => hfound ?_ ?_
      · rw [ha] at hto
        simp at hto
      · rintro rfl
        simp at hfrom
      · rintro rfl
        simp at hfrom
  | writeRaises hraises =>
      exact h.moves rfl id Iff.rfl (fun _ => h.answered (hok.resolve_right (by simp [hraises])))
        fun _ => hfound (by simp) (by simp)
  | writes =>
      have hrun := hfound (by simp) (by simp)
      refine h.moves updateRun_history updateRun_cancelled ?_ (fun _ => ?_) fun _ => hrun
      · rw [Shared.updateRun]
        split_ifs <;> simp
      · rcases hok with ha | ⟨-, hstored⟩
        · exact updateRun_cancelled (h.answered ha)
        · obtain ⟨status, hstatus⟩ := Option.ne_none_iff_exists'.mp hrun
          rw [Shared.updateRun, if_pos hstored, hstatus]
          rfl
  | answers =>
      have hrecord := hanswering rfl
      refine ⟨fun _ => hrecord, fun _ _ => hrecord, fun _ _ _ => ?_, h.creating, h.quiet, h.calling⟩
      show s.shared.record ≠ none
      rw [hrecord]
      simp

theorem Firm.step (h : Firm s) (hok : Effective s turn) : Firm (s.step config turn) := by
  cases turn with
  | sender r => exact h.sender hok
  | worker place r => exact h.worker hok
  | cancel c r => exact h.cancel hok

end

end CryptoAggHarmonic.Vibe
