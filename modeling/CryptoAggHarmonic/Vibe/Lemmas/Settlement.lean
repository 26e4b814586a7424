import CryptoAggHarmonic.Vibe.Run
import CryptoAggHarmonic.Quota.Lemmas.Usage

/-!
# How a run settles its entry

Where the agent stands tells what has become of the entry. What the conditions leave out is what ends an agent, or a
request, between the reservation and the settlement, or between the settlement and the message.
-/

namespace CryptoAggHarmonic.Vibe

open Sql Quota

section

variable {ι : Type} {s : System ι} {sh sh' : Shared} {w : Worker} {r : Reply} {config : Config} {place : Place}
  {o : Uuid} {turn : Turn ι} {outcome : Outcome} {consumed : Bool}

/-- The reply lets the agent come to the settlement its outcome asks for, and from a consumption to the message. -/
def AgentSettling (o : Uuid) (s : Shared) (r : Reply) : WorkerPhase → Prop
  | .building | .prologue | .publishError => r.killed = false ∧ r.raises = false
  | .check _ | .chat _ | .checkTool _ _ | .executeTool _ _ => r.killed = false
  | .settle .failed => r.killed = false ∧ r.rpc.lands = true
  | .settle _ => r.killed = false ∧ r.raises = false
  | .deliver .failed _ | .updateRun .failed _ | .saveTrace .failed _ => True
  | .deliver _ _ => r.killed = false ∧ r.stored = true ∧ (r.raises = true → s.books.status? o = some .consumed)
  | .updateRun _ _ | .saveTrace _ _ => r.killed = true ∨ r.raises = true → s.books.status? o = some .consumed
  | .consumeAgain _ => r.killed = true ∨ r.rpc.lands = false → s.books.status? o = some .consumed
  | .idle | .unregister | .ended => True

/-- The sender starts exactly one agent, or none and releases the entry. -/
def SenderSettling (r : Reply) : SenderPhase → Prop
  | .create | .fail => r.killed = false ∧ r.raises = false
  | .enqueue => r.killed = false ∧ r.enqueue ∈ [Enqueue.enqueued, .connectionError false true, .otherError false]
  | .release => r.killed = false ∧ r.rpc.lands = true
  | .ended => True

/-- The job is not cancelled in the queue. -/
def Settling (o : Uuid) (s : System ι) : Turn ι → Prop
  | .sender r => SenderSettling r s.sender
  | .worker place r => AgentSettling o s.shared r (s.workers place).phase
  | .cancel c r => s.cancels c = .cancelJob → s.shared.job = .queued → r.killed = true ∨ r.raises = true

instance : (phase : WorkerPhase) → Decidable (AgentSettling o sh r phase)
  | .building | .prologue | .publishError => inferInstanceAs (Decidable (_ ∧ _))
  | .check _ | .chat _ | .checkTool _ _ | .executeTool _ _ => inferInstanceAs (Decidable (_ = _))
  | .settle .failed | .settle .completed | .settle .completedWithLimit => inferInstanceAs (Decidable (_ ∧ _))
  | .deliver .completed _ | .deliver .completedWithLimit _ => inferInstanceAs (Decidable (_ ∧ _ ∧ (_ → _)))
  | .updateRun .completed _ | .updateRun .completedWithLimit _ => inferInstanceAs (Decidable (_ → _))
  | .saveTrace .completed _ | .saveTrace .completedWithLimit _ => inferInstanceAs (Decidable (_ → _))
  | .consumeAgain _ => inferInstanceAs (Decidable (_ → _))
  | .deliver .failed _ | .updateRun .failed _ | .saveTrace .failed _ => inferInstanceAs (Decidable True)
  | .idle | .unregister | .ended => inferInstanceAs (Decidable True)

instance : (phase : SenderPhase) → Decidable (SenderSettling r phase)
  | .create | .fail | .enqueue | .release => inferInstanceAs (Decidable (_ ∧ _))
  | .ended => inferInstanceAs (Decidable True)

instance : (turn : Turn ι) → Decidable (Settling o s turn)
  | .sender r => inferInstanceAs (Decidable (SenderSettling r s.sender))
  | .worker place r => inferInstanceAs (Decidable (AgentSettling o s.shared r (s.workers place).phase))
  | .cancel _ _ => inferInstanceAs (Decidable (_ → _ → _))

/-- Everything that was started has come to its end. -/
structure Ended (s : System ι) : Prop where
  sender : s.sender = .ended
  job : s.shared.job ≠ .queued
  thread : s.shared.thread = none ∨ (s.workers .thread).phase ≠ .idle
  workers : ∀ place, (s.workers place).phase = .idle ∨ (s.workers place).phase = .ended

/-- The entry is consumed at the end if the user has got a message and released if not, and is never turned. -/
structure SettledAtEnd (o : Uuid) (s : System ι) : Prop where
  settled : Ended s → s.shared.books.Settled o (if s.shared.received then .consumed else .released)
  unturned : ∃ status, ∀ e ∈ s.shared.books.settlements, e.1 = o → e.2 = status

/-! ## Where the agent stands -/

def Shared.Pending (s : Shared) (o : Uuid) : Prop := s.books.Open o ∧ s.received = false

def Shared.Refunded (s : Shared) (o : Uuid) : Prop := s.books.Settled o .released ∧ s.received = false

/-- The consumption has taken place, or the agent knows that it may not have. -/
def Shared.Charged (s : Shared) (o : Uuid) (consumed : Bool) : Prop :=
  s.books.Settled o .consumed ∨ s.books.Open o ∧ consumed = false

def Shared.Done (s : Shared) (o : Uuid) : Prop := s.Refunded o ∨ s.books.Settled o .consumed ∧ s.received = true

/-- What has become of the entry, by where the agent stands. -/
def Shared.Fits (s : Shared) (o : Uuid) : WorkerPhase → Prop
  | .deliver .failed _ | .updateRun .failed _ | .saveTrace .failed _ => s.Refunded o
  | .deliver _ consumed => s.Charged o consumed ∧ s.received = false
  | .updateRun _ consumed | .saveTrace _ consumed | .consumeAgain consumed => s.Charged o consumed ∧ s.received = true
  | .unregister | .ended => s.Done o
  | _ => s.Pending o

theorem Shared.Charged.settled (h : sh.Charged o consumed) (hstatus : sh.books.status? o = some .consumed) :
    sh.books.Settled o .consumed := by
  rcases h with h | ⟨h, -⟩
  · exact h
  · rw [h.status] at hstatus
    cases hstatus

theorem Shared.Fits.congr {p : WorkerPhase} (h : sh.Fits o p) (hbooks : sh'.books = sh.books)
    (hreceived : sh'.received = sh.received) : sh'.Fits o p := by
  unfold Shared.Fits Shared.Done Shared.Charged Shared.Refunded Shared.Pending at *
  rw [hbooks, hreceived]
  exact h

theorem Shared.Fits.unturned {p : WorkerPhase} (h : sh.Fits o p) :
    ∃ status, ∀ e ∈ sh.books.settlements, e.1 = o → e.2 = status := by
  have hopen : sh.books.Open o → ∃ status, ∀ e ∈ sh.books.settlements, e.1 = o → e.2 = status := fun h =>
    ⟨.consumed, fun e he heq => absurd heq (h.unsettled e he)⟩
  have hcharged : ∀ {c}, sh.Charged o c → ∃ status, ∀ e ∈ sh.books.settlements, e.1 = o → e.2 = status := fun h =>
    h.elim (fun h => ⟨_, h.only⟩) fun h => hopen h.1
  have hdone : sh.Done o → ∃ status, ∀ e ∈ sh.books.settlements, e.1 = o → e.2 = status := fun h =>
    h.elim (fun h => ⟨_, h.1.only⟩) fun h => ⟨_, h.1.only⟩
  unfold Shared.Fits at h
  split at h
  · exact ⟨_, h.1.only⟩
  · exact ⟨_, h.1.only⟩
  · exact ⟨_, h.1.only⟩
  · exact hcharged h.1
  · exact hcharged h.1
  · exact hcharged h.1
  · exact hcharged h.1
  · exact hdone h
  · exact hdone h
  · exact hopen h.1

/-! ## One step of the agent -/

theorem consume_lands (inputTokens outputTokens : ℤ) (hledger : config.ledgerId = some o) (h : sh.Charged o consumed)
    (hlands : r.rpc.lands = true) :
    (sh.consume config r.rpc inputTokens outputTokens).books.Settled o .consumed ∧
      (sh.consume config r.rpc inputTokens outputTokens).received = sh.received := by
  unfold Shared.consume
  rw [hledger]
  dsimp only
  rw [if_pos hlands]
  exact ⟨h.elim Books.Settled.consume fun h => h.1.consume, rfl⟩

theorem consume_not_lands {inputTokens outputTokens : ℤ} (hlands : r.rpc.lands = false) :
    sh.consume config r.rpc inputTokens outputTokens = sh := by
  unfold Shared.consume
  split
  · rw [if_neg (by simp [hlands])]
  · rfl

theorem release_lands (hledger : config.ledgerId = some o) (h : sh.Pending o) (hlands : r.rpc.lands = true) :
    (sh.release config r.rpc).Refunded o := by
  unfold Shared.release
  rw [hledger]
  dsimp only
  rw [if_pos hlands]
  exact ⟨h.1.release, h.2⟩

/-- The first consumption: it takes place, or the agent does not take it for done. -/
theorem consume_charged {inputTokens outputTokens : ℤ} (hledger : config.ledgerId = some o) (h : sh.Pending o) :
    (sh.consume config r.rpc inputTokens outputTokens).Charged o (r.rpc = .done) ∧
      (sh.consume config r.rpc inputTokens outputTokens).received = false := by
  cases hlands : r.rpc.lands with
  | true =>
      have hcharged : sh.Charged o false := .inr ⟨h.1, rfl⟩
      have := consume_lands inputTokens outputTokens hledger hcharged hlands
      exact ⟨.inl this.1, this.2.trans h.2⟩
  | false =>
      rw [consume_not_lands hlands]
      refine ⟨.inr ⟨h.1, ?_⟩, h.2⟩
      cases hrpc : r.rpc with
      | unreachable => rfl
      | done => simp [hrpc, Rpc.lands] at hlands
      | lost => simp [hrpc, Rpc.lands] at hlands

theorem updateRun_books {stored : Bool} {status : RunStatus} : (sh.updateRun stored status).books = sh.books := by
  unfold Shared.updateRun
  split_ifs <;> rfl

theorem updateRun_received {stored : Bool} {status : RunStatus} :
    (sh.updateRun stored status).received = sh.received := by
  unfold Shared.updateRun
  split_ifs <;> rfl

theorem round_fits {iteration : ℕ} (h : sh.Pending o) : sh.Fits o (config.round iteration) := by
  unfold Config.round
  split_ifs <;> exact h

theorem work_fits (hledger : config.ledgerId = some o) (h : sh.Fits o w.phase) (hidle : w.phase ≠ .idle)
    (hok : AgentSettling o sh r w.phase) :
    (work config place r sh w).1.Fits o (work config place r sh w).2.phase := by
  unfold work
  cases hphase : w.phase with
  | idle => exact absurd hphase hidle
  | ended =>
      rw [hphase] at h
      dsimp only
      rw [hphase]
      exact h
  | building =>
      rw [hphase] at h hok
      dsimp only
      rw [if_neg (by simp [hok.1])]
      split_ifs with hraises
      · simp [hok.2] at hraises
      · exact h
  | prologue =>
      rw [hphase] at h hok
      dsimp only
      rw [if_neg (by simp [hok.1]), if_neg (by simp [hok.2])]
      exact round_fits h
  | check iteration =>
      rw [hphase] at h hok
      dsimp only
      rw [if_neg (by simp [show r.killed = false from hok])]
      split_ifs <;> exact h
  | chat iteration =>
      rw [hphase] at h hok
      dsimp only
      rw [if_neg (by simp [show r.killed = false from hok])]
      split_ifs
      · exact h
      · split <;> exact h
  | checkTool iteration left =>
      rw [hphase] at h hok
      dsimp only
      rw [if_neg (by simp [show r.killed = false from hok])]
      split_ifs <;> exact h
  | executeTool iteration left =>
      rw [hphase] at h hok
      dsimp only
      rw [if_neg (by simp [show r.killed = false from hok])]
      split_ifs
      · exact h
      · split
        · exact round_fits h
        · exact h
  | publishError =>
      rw [hphase] at h hok
      dsimp only
      rw [if_neg (by simp [hok.1]), if_neg (by simp [hok.2])]
      exact h
  | settle outcome =>
      rw [hphase] at h hok
      cases outcome with
      | failed =>
          dsimp only
          rw [if_neg (by simp [hok.1])]
          have hrefunded := release_lands hledger h hok.2
          split_ifs
          · exact .inl hrefunded
          · exact hrefunded
      | _ =>
          dsimp only
          rw [if_neg (by simp [hok.1]), if_neg (by simp [hok.2])]
          exact consume_charged hledger h
  | deliver outcome consumed =>
      rw [hphase] at h hok
      cases outcome with
      | failed =>
          dsimp only
          split_ifs
          · exact .inl h
          · exact h
      | _ =>
          obtain ⟨hkilled, hstored, hraises⟩ := hok
          have hreceived : (sh.received || r.stored) = true := by rw [hstored, Bool.or_true]
          dsimp only
          rw [if_neg (by simp [hkilled])]
          split_ifs with hr
          · exact .inr ⟨h.1.settled (hraises hr), hreceived⟩
          · exact ⟨h.1, hreceived⟩
  | updateRun outcome consumed =>
      rw [hphase] at h hok
      cases outcome with
      | failed =>
          dsimp only
          split_ifs
          · exact .inl h
          · exact .inl h
          · exact Shared.Fits.congr (p := .saveTrace .failed consumed) h updateRun_books updateRun_received
      | _ =>
          dsimp only
          split_ifs with hkilled hraises
          · exact .inr ⟨h.1.settled (hok (.inl hkilled)), h.2⟩
          · exact .inr ⟨h.1.settled (hok (.inr hraises)), h.2⟩
          · exact Shared.Fits.congr (p := .consumeAgain consumed) h updateRun_books updateRun_received
  | saveTrace outcome consumed =>
      rw [hphase] at h hok
      cases outcome with
      | failed =>
          dsimp only
          split_ifs with hkilled hraises
          · exact .inl h
          · exact .inl h
          · simp at hraises
      | _ =>
          dsimp only
          split_ifs with hkilled hraises
          · exact .inr ⟨h.1.settled (hok (.inl hkilled)), h.2⟩
          · exact .inr ⟨h.1.settled (hok (.inr (by simpa using hraises))), h.2⟩
          · exact h
  | consumeAgain consumed =>
      rw [hphase] at h hok
      dsimp only
      split_ifs with hkilled hconsumed
      · exact .inr ⟨h.1.settled (hok (.inl hkilled)), h.2⟩
      · subst hconsumed
        exact .inr ⟨h.1.elim id fun h => absurd h.2 (by simp), h.2⟩
      · cases hlands : r.rpc.lands with
        | true =>
            obtain ⟨hsettled, hreceived⟩ := consume_lands w.inputTokens w.outputTokens hledger h.1 hlands
            exact .inr ⟨hsettled, hreceived.trans h.2⟩
        | false =>
            rw [consume_not_lands hlands]
            exact .inr ⟨h.1.settled (hok (.inr hlands)), h.2⟩
  | unregister =>
      rw [hphase] at h
      dsimp only
      split_ifs
      · exact h
      · exact h.congr rfl rfl
      · exact h.congr rfl rfl

/-! ## The run -/

/-- Where the run stands: before any agent, without one, or with the one agent it has. -/
inductive Course (o : Uuid) (s : System ι) : Prop
  | starting (hsender : s.sender ≠ .ended) (hpending : s.shared.Pending o) (hjob : s.shared.job ≠ .queued)
      (hthread : s.shared.thread = none) (hidle : ∀ p, (s.workers p).phase = .idle)
  | refused (hsender : s.sender = .ended) (hdone : s.shared.Refunded o) (hjob : s.shared.job ≠ .queued)
      (hthread : s.shared.thread = none) (hidle : ∀ p, (s.workers p).phase = .idle)
  | onRq (hsender : s.sender = .ended) (hthread : s.shared.thread = none) (hidle : (s.workers .thread).phase = .idle)
      (hfits : s.shared.Fits o (s.workers .rq).phase) (hqueued : (s.workers .rq).phase = .idle → s.shared.job = .queued)
  | onThread (hsender : s.sender = .ended) (hthread : s.shared.thread ≠ none) (hidle : (s.workers .rq).phase = .idle)
      (hjob : s.shared.job ≠ .queued) (hfits : s.shared.Fits o (s.workers .thread).phase)

theorem course_start {books : Books} (h : books.Open o) : Course o (System.start (ι := ι) books) :=
  .starting (by simp [System.start]) ⟨h, rfl⟩ (by simp [System.start]) rfl fun _ => rfl

theorem Shared.Done.settled (h : sh.Done o) : sh.books.Settled o (if sh.received then .consumed else .released) := by
  rcases h with ⟨h, hreceived⟩ | ⟨h, hreceived⟩ <;>
    · rw [hreceived]
      exact h

theorem Course.settledAtEnd (h : Course o s) : SettledAtEnd o s := by
  cases h with
  | starting hsender hpending =>
      exact ⟨fun he => absurd he.sender hsender, Shared.Fits.unturned (p := .idle) hpending⟩
  | refused hsender hdone => exact ⟨fun _ => Shared.Done.settled (.inl hdone), ⟨_, hdone.1.only⟩⟩
  | onRq hsender hthread hidle hfits hqueued =>
      refine ⟨fun he => ?_, hfits.unturned⟩
      rcases he.workers .rq with hphase | hphase
      · exact absurd (hqueued hphase) he.job
      · rw [hphase] at hfits
        exact hfits.settled
  | onThread hsender hthread hidle hjob hfits =>
      refine ⟨fun he => ?_, hfits.unturned⟩
      rcases he.workers .thread with hphase | hphase
      · exact absurd hphase (he.thread.resolve_left hthread)
      · rw [hphase] at hfits
        exact hfits.settled

theorem work_idle (hphase : w.phase = .idle) (hstart : place = .rq → sh.job ≠ .queued)
    (hthread : place = .thread → sh.thread = none) : work config place r sh w = (sh, w) := by
  unfold work
  rw [hphase]
  cases place with
  | rq => exact if_neg (hstart rfl)
  | thread =>
      dsimp only
      rw [hthread rfl]

theorem consume_keeps {inputTokens outputTokens : ℤ} {rpc : Rpc} :
    (sh.consume config rpc inputTokens outputTokens).thread = sh.thread ∧
      (sh.consume config rpc inputTokens outputTokens).job = sh.job := by
  unfold Shared.consume
  split
  · split_ifs <;> exact ⟨rfl, rfl⟩
  · exact ⟨rfl, rfl⟩

theorem release_keeps {rpc : Rpc} :
    (sh.release config rpc).thread = sh.thread ∧ (sh.release config rpc).job = sh.job := by
  unfold Shared.release
  split
  · split_ifs <;> exact ⟨rfl, rfl⟩
  · exact ⟨rfl, rfl⟩

theorem updateRun_keeps {stored : Bool} {status : RunStatus} :
    (sh.updateRun stored status).thread = sh.thread ∧ (sh.updateRun stored status).job = sh.job := by
  unfold Shared.updateRun
  split_ifs <;> exact ⟨rfl, rfl⟩

theorem round_ne_idle {iteration : ℕ} : config.round iteration ≠ .idle := by
  unfold Config.round
  split_ifs <;> simp

/-- An agent that has been started leaves the thread and the job alone, and is not started again. -/
theorem work_keeps (config : Config) (place : Place) (r : Reply) (sh : Shared) (hidle : w.phase ≠ .idle) :
    ((work config place r sh w).1.thread = sh.thread ∧ (work config place r sh w).1.job = sh.job) ∧
      (work config place r sh w).2.phase ≠ .idle := by
  unfold work
  cases hphase : w.phase with
  | idle => exact absurd hphase hidle
  | ended => exact ⟨⟨rfl, rfl⟩, hidle⟩
  | prologue =>
      dsimp only
      split_ifs
      · exact ⟨⟨rfl, rfl⟩, by simp [Worker.to]⟩
      · exact ⟨⟨rfl, rfl⟩, by simp [Worker.to]⟩
      · exact ⟨⟨rfl, rfl⟩, round_ne_idle⟩
  | executeTool iteration left =>
      dsimp only
      split_ifs
      · exact ⟨⟨rfl, rfl⟩, by simp [Worker.to]⟩
      · exact ⟨⟨rfl, rfl⟩, by simp [Worker.to]⟩
      · refine ⟨⟨rfl, rfl⟩, ?_⟩
        split
        · exact round_ne_idle
        · simp [Worker.to]
  | chat iteration =>
      dsimp only
      split_ifs
      · exact ⟨⟨rfl, rfl⟩, by simp [Worker.to]⟩
      · exact ⟨⟨rfl, rfl⟩, by simp [Worker.to]⟩
      · refine ⟨⟨rfl, rfl⟩, ?_⟩
        split <;> simp [Worker.to]
  | settle outcome =>
      cases outcome <;> dsimp only <;> split_ifs <;>
        first
          | exact ⟨⟨rfl, rfl⟩, by simp [Worker.to]⟩
          | exact ⟨release_keeps, by simp [Worker.to]⟩
          | exact ⟨consume_keeps, by simp [Worker.to]⟩
  | deliver outcome consumed =>
      cases outcome <;> dsimp only <;> split_ifs <;> exact ⟨⟨rfl, rfl⟩, by simp [Worker.to]⟩
  | updateRun outcome consumed =>
      dsimp only
      split_ifs
      · exact ⟨⟨rfl, rfl⟩, by simp [Worker.to]⟩
      · exact ⟨⟨rfl, rfl⟩, by simp [Worker.to]⟩
      · exact ⟨updateRun_keeps, by simp [Worker.to]⟩
  | consumeAgain consumed =>
      dsimp only
      split_ifs
      · exact ⟨⟨rfl, rfl⟩, by simp [Worker.to]⟩
      · exact ⟨⟨rfl, rfl⟩, by simp [Worker.to]⟩
      · exact ⟨consume_keeps, by simp [Worker.to]⟩
  | _ =>
      dsimp only
      split_ifs <;> exact ⟨⟨rfl, rfl⟩, by simp [Worker.to]⟩

/-- A request to cancel leaves the entry alone, and the job but for its cancellation. -/
theorem cancel_keeps (r : Reply) (sh : Shared) (phase : CancelPhase) :
    ((cancel r sh phase).1.books = sh.books ∧ (cancel r sh phase).1.received = sh.received ∧
      (cancel r sh phase).1.thread = sh.thread) ∧
    ((cancel r sh phase).1.job = sh.job ∨ (cancel r sh phase).1.job = .cancelled ∧ phase = .cancelJob ∧
      r.killed = false ∧ r.raises = false) := by
  unfold cancel
  by_cases hkilled : r.killed = true
  · rw [if_pos hkilled]
    exact ⟨⟨rfl, rfl, rfl⟩, .inl rfl⟩
  · rw [if_neg hkilled]
    cases phase with
    | cancelJob =>
        dsimp only
        split_ifs with h
        · exact ⟨⟨rfl, rfl, rfl⟩, .inl rfl⟩
        · simp only [Bool.or_eq_true, not_or, Bool.not_eq_true] at h
          exact ⟨⟨rfl, rfl, rfl⟩, .inr ⟨rfl, rfl, by simpa using hkilled, h.1⟩⟩
    | cancelRun =>
        dsimp only
        split_ifs
        · exact ⟨⟨rfl, rfl, rfl⟩, .inl rfl⟩
        · exact ⟨⟨updateRun_books, updateRun_received, updateRun_keeps.1⟩, .inl updateRun_keeps.2⟩
    | _ => exact ⟨⟨rfl, rfl, rfl⟩, .inl rfl⟩

/-- The agent of a place begins where its start is there, and is not started again. -/
theorem work_advances (hledger : config.ledgerId = some o) (hfits : sh.Fits o w.phase)
    (hok : AgentSettling o sh r w.phase)
    (hstart : w.phase = .idle → place = .rq ∧ sh.job = .queued ∨ place = .thread ∧ sh.thread ≠ none) :
    (work config place r sh w).1.Fits o (work config place r sh w).2.phase ∧
      (work config place r sh w).2.phase ≠ .idle ∧ (work config place r sh w).1.thread = sh.thread ∧
      (place = .thread → (work config place r sh w).1.job = sh.job) := by
  by_cases hphase : w.phase = .idle
  · rw [hphase] at hfits
    rcases hstart hphase with ⟨rfl, hqueued⟩ | ⟨rfl, hthread⟩
    · have hwork : work config .rq r sh w = ({ sh with job := .started }, ⟨.building, r.redis, 0, 0⟩) := by
        unfold work
        rw [hphase]
        exact if_pos hqueued
      rw [hwork]
      exact ⟨hfits, by simp, rfl, fun h => nomatch h⟩
    · obtain ⟨token, htoken⟩ := Option.ne_none_iff_exists'.mp hthread
      have hwork : work config .thread r sh w = (sh, ⟨.building, token, 0, 0⟩) := by
        unfold work
        rw [hphase]
        dsimp only
        rw [htoken]
      rw [hwork]
      exact ⟨hfits, by simp, rfl, fun _ => rfl⟩
  · have hkeeps := work_keeps config place r sh hphase
    exact ⟨work_fits hledger hfits hphase hok, hkeeps.2, hkeeps.1.1, fun _ => hkeeps.1.2⟩

variable [DecidableEq ι]

theorem step_worker_idle (h : work config place r s.shared (s.workers place) = (s.shared, s.workers place)) :
    s.step config (.worker place r) = s := by
  simp only [System.step, h, Function.update_eq_self]

theorem step_sender_over (h : s.sender = .ended) : s.step config (.sender r) = s := by
  have hsend : send config r s.shared s.sender = (s.shared, s.sender) := by
    rw [h, send]
    split_ifs <;> rfl
  simp only [System.step, hsend]

theorem Course.send (hledger : config.ledgerId = some o) (h : Course o s) (hok : Settling o s (.sender r)) :
    Course o (s.step config (.sender r)) := by
  cases h with
  | refused hsender hdone hjob hthread hidle =>
      rw [step_sender_over hsender]
      exact .refused hsender hdone hjob hthread hidle
  | onRq hsender hthread hidle hfits hqueued =>
      rw [step_sender_over hsender]
      exact .onRq hsender hthread hidle hfits hqueued
  | onThread hsender hthread hidle hjob hfits =>
      rw [step_sender_over hsender]
      exact .onThread hsender hthread hidle hjob hfits
  | starting hsender hpending hjob hthread hidle =>
      have hstep : s.step config (.sender r) = { s with
          shared := (Vibe.send config r s.shared s.sender).1
          sender := (Vibe.send config r s.shared s.sender).2 } := rfl
      rw [hstep]
      unfold Vibe.send
      cases hphase : s.sender with
      | create =>
          rw [Settling, hphase] at hok
          dsimp only
          rw [if_neg (by simp [hok.1]), if_neg (by simp [hok.2])]
          exact .starting (by simp) hpending hjob hthread hidle
      | enqueue =>
          rw [Settling, hphase] at hok
          obtain ⟨hkilled, henqueue⟩ := hok
          dsimp only
          rw [if_neg (by simp [hkilled])]
          simp only [List.mem_cons, List.not_mem_nil, or_false] at henqueue
          rcases henqueue with heq | heq | heq <;> rw [heq]
          · refine .onRq rfl hthread (hidle _) ?_ fun _ => rfl
            dsimp only
            rw [hidle]
            exact hpending
          · refine .onThread rfl (by simp) (hidle _) hjob ?_
            dsimp only
            rw [hidle]
            exact hpending
          · exact .starting (by simp) hpending hjob hthread hidle
      | fail =>
          rw [Settling, hphase] at hok
          dsimp only
          rw [if_neg (by simp [hok.1]), if_neg (by simp [hok.2])]
          refine .starting (by simp) ?_ ?_ (updateRun_keeps.1.trans hthread) hidle
          · exact Shared.Fits.congr (p := .idle) hpending updateRun_books updateRun_received
          · dsimp only
            rw [updateRun_keeps.2]
            exact hjob
      | release =>
          rw [Settling, hphase] at hok
          dsimp only
          rw [if_neg (by simp [hok.1])]
          refine .refused rfl (release_lands hledger hpending hok.2) ?_ (release_keeps.1.trans hthread) hidle
          dsimp only
          rw [release_keeps.2]
          exact hjob
      | ended => exact absurd hphase hsender

theorem step_workers_self : (s.step config (.worker place r)).workers place =
    (work config place r s.shared (s.workers place)).2 := Function.update_self ..

theorem step_workers_other {q : Place} (h : q ≠ place) : (s.step config (.worker place r)).workers q = s.workers q :=
  Function.update_of_ne h ..

theorem Course.work (hledger : config.ledgerId = some o) (h : Course o s) (hok : Settling o s (.worker place r)) :
    Course o (s.step config (.worker place r)) := by
  cases h with
  | starting hsender hpending hjob hthread hidle =>
      rw [step_worker_idle (work_idle (hidle _) (fun _ => hjob) fun _ => hthread)]
      exact .starting hsender hpending hjob hthread hidle
  | refused hsender hdone hjob hthread hidle =>
      rw [step_worker_idle (work_idle (hidle _) (fun _ => hjob) fun _ => hthread)]
      exact .refused hsender hdone hjob hthread hidle
  | onRq hsender hthread hidle hfits hqueued =>
      cases place with
      | thread =>
          rw [step_worker_idle (work_idle hidle (fun h => nomatch h) fun _ => hthread)]
          exact .onRq hsender hthread hidle hfits hqueued
      | rq =>
          obtain ⟨hfits', hbusy, hthread', -⟩ :=
            work_advances hledger hfits hok fun hp => .inl ⟨rfl, hqueued hp⟩
          refine .onRq hsender (hthread'.trans hthread) ?_ ?_ fun hp => ?_
          · rw [step_workers_other (by simp)]
            exact hidle
          · rw [step_workers_self]
            exact hfits'
          · rw [step_workers_self] at hp
            exact absurd hp hbusy
  | onThread hsender hthread hidle hjob hfits =>
      cases place with
      | rq =>
          rw [step_worker_idle (work_idle hidle (fun _ => hjob) fun h => nomatch h)]
          exact .onThread hsender hthread hidle hjob hfits
      | thread =>
          obtain ⟨hfits', -, hthread', hjob'⟩ :=
            work_advances hledger hfits hok fun _ => .inr ⟨rfl, hthread⟩
          refine .onThread hsender (hthread' ▸ hthread) ?_ (hjob' rfl ▸ hjob) ?_
          · rw [step_workers_other (by simp)]
            exact hidle
          · rw [step_workers_self]
            exact hfits'

theorem Course.cancel {c : ι} (h : Course o s) (hok : Settling o s (.cancel c r)) :
    Course o (s.step config (.cancel c r)) := by
  obtain ⟨⟨hbooks, hreceived, hthread'⟩, hjob'⟩ := cancel_keeps r s.shared (s.cancels c)
  have hstep : s.step config (.cancel c r) = { s with
      shared := (Vibe.cancel r s.shared (s.cancels c)).1
      cancels := Function.update s.cancels c (Vibe.cancel r s.shared (s.cancels c)).2 } := rfl
  have hunqueued : s.shared.job ≠ .queued → (Vibe.cancel r s.shared (s.cancels c)).1.job ≠ .queued := fun hjob => by
    rcases hjob' with hsame | ⟨hcancelled, -⟩
    · rw [hsame]
      exact hjob
    · rw [hcancelled]
      simp
  rw [hstep]
  cases h with
  | starting hsender hpending hjob hthread hidle =>
      exact .starting hsender (Shared.Fits.congr (p := .idle) hpending hbooks hreceived) (hunqueued hjob)
        (hthread'.trans hthread) hidle
  | refused hsender hdone hjob hthread hidle =>
      exact .refused hsender (Shared.Fits.congr (p := .updateRun .failed false) hdone hbooks hreceived)
        (hunqueued hjob) (hthread'.trans hthread) hidle
  | onRq hsender hthread hidle hfits hqueued =>
      refine .onRq hsender (hthread'.trans hthread) hidle (hfits.congr hbooks hreceived) fun hphase => ?_
      rcases hjob' with hsame | ⟨-, hcancel, hkilled, hraises⟩
      · exact hsame.trans (hqueued hphase)
      · rcases hok hcancel (hqueued hphase) with h | h
        · simp [hkilled] at h
        · simp [hraises] at h
  | onThread hsender hthread hidle hjob hfits =>
      refine .onThread hsender ?_ hidle (hunqueued hjob) (hfits.congr hbooks hreceived)
      dsimp only
      rw [hthread']
      exact hthread

theorem Course.step (hledger : config.ledgerId = some o) (h : Course o s) (hok : Settling o s turn) :
    Course o (s.step config turn) := by
  cases turn with
  | sender r => exact h.send hledger hok
  | worker place r => exact h.work hledger hok
  | cancel c r => exact h.cancel hok

end

end CryptoAggHarmonic.Vibe
