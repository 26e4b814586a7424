import CryptoAggHarmonic.Journal.Lemmas.Sources
import CryptoAggHarmonic.Journal.Lemmas.Rotation

/-!
# The journal over interleaved calls
-/

namespace CryptoAggHarmonic.Journal

variable {ι : Type} [DecidableEq ι]

/-! ## The source mutex -/

/-- No two replayed records of one candidate come from conflicting sources. -/
def NoConflict (r : Root) : Prop :=
  ∀ a ∈ replayFromHistory r, ∀ b ∈ replayFromHistory r, conflicts a b = false

/-- **The mutex of the sources.** In every state that calls with sound checks reach, whatever their order and their
rotations, no two replayed records conflict. -/
theorem mutex_of_sound_checks (calls : ι → Record × ℕ) (schedule : List (ι × ℕ))
    (hsound : Interleave.Along act CheckSound (start calls) schedule) :
    NoConflict (Interleave.run act (start calls) schedule).shared := by
  have hpassed : Interleave.Holds Root.Consistent Call.Passed (Interleave.run act (start calls) schedule) := by
    refine Interleave.run_invariant (fun w e h hok => passed_step h hok) ⟨consistent_empty, fun c => ?_⟩ hsound
    intro hchecked x hx
    cases hx
  intro a ha b hb
  exact hpassed.1.free b (hpassed.1.replay hb) a (hpassed.1.replay ha)

def recordOf (candidateId source : String) : Record where
  candidateId := some candidateId
  source := some source
  body := ""
  bytes := 100

/-- A hyperopt run and a live run that write the same candidate. -/
def twoSources (rotateBytes : ℕ) : Fin 2 → Record × ℕ
  | 0 => (recordOf "gen1-001" "freqtrade_hyperopt", rotateBytes)
  | 1 => (recordOf "gen1-001" "okx_live", rotateBytes)

/-- The second call, made after the first has returned, scans its record and raises. -/
theorem twoSources_sound :
    Interleave.Along act CheckSound (start (twoSources 1000))
      [(0, 1), (0, 1), (0, 1), (1, 2), (1, 2)] ∧
    NoConflict (Interleave.run act (start (twoSources 1000)) [(0, 1), (0, 1), (0, 1), (1, 2), (1, 2)]).shared := by
  have hsound : Interleave.Along act CheckSound (start (twoSources 1000)) [(0, 1), (0, 1), (0, 1), (1, 2), (1, 2)] := by
    simp [Interleave.Along, Interleave.step, CheckSound, act, start, Call.goto, Call.Checked, Root.Free, Root.empty,
      Root.openHistory, Root.write, Root.size, Root.content, twoSources, recordOf]
  exact ⟨hsound, mutex_of_sound_checks (twoSources 1000) _ hsound⟩

/-- Two calls that both look for the file before either writes, and two that follow each other around a rotation. -/
theorem twoSources_conflict :
    ¬ NoConflict (Interleave.run act (start (twoSources 1000))
      [(0, 1), (1, 1), (0, 1), (0, 1), (1, 1), (1, 1)]).shared ∧
    ¬ NoConflict (Interleave.run act (start (twoSources 1))
      [(0, 1), (0, 1), (0, 1), (0, 1), (0, 1), (0, 1), (0, 1), (1, 2), (1, 2), (1, 2)]).shared := by
  unfold NoConflict
  decide

/-! ## Rotation -/

/-- **No record is lost or replayed twice.** After calls with sound rotations, once all of them are over, the replay is
every record whose append succeeded, once, in the order of the appends. -/
theorem replay_eq_log (calls : ι → Record × ℕ) (schedule : List (ι × ℕ))
    (hsound : Interleave.Along act RotationSound (start calls) schedule)
    (hover : ∀ c, ((Interleave.run act (start calls) schedule).procs c).Over) :
    replayFromHistory (Interleave.run act (start calls) schedule).shared =
      (Interleave.run act (start calls) schedule).shared.log :=
  (Interleave.run_invariant (fun _ _ h hok => rotating_step h hok) (rotating_start calls) hsound).replay hover

def twoRecords : Fin 2 → Record × ℕ
  | 0 => (recordOf "gen1-001" "okx_live", 1)
  | 1 => (recordOf "gen1-002" "okx_live", 1)

/-- Two calls, one after the other, that rotate at the times given. -/
def inTurn (first second : ℕ) : List (Fin 2 × ℕ) := List.replicate 7 (0, first) ++ List.replicate 7 (1, second)

theorem twoRecords_replayed :
    replayFromHistory (Interleave.run act (start twoRecords) (inTurn 1 2)).shared =
      (Interleave.run act (start twoRecords) (inTurn 1 2)).shared.log := by
  refine replay_eq_log twoRecords (inTurn 1 2) ?_ ?_
  · have hnames : archiveName 1 < archiveName 2 := by decide
    simpa [Interleave.Along, Interleave.step, RotationSound, act, start, Call.goto, Root.empty, Root.openHistory,
      Root.write, Root.size, Root.content, Root.createArchive, Root.fillArchive, twoRecords, recordOf, inTurn]
      using hnames
  · unfold Call.Over
    decide

/-- Two rotations within one second: the second archive is written over the first. -/
theorem twoRecords_lost :
    (∀ c, ((Interleave.run act (start twoRecords) (inTurn 1 1)).procs c).Over) ∧
    replayFromHistory (Interleave.run act (start twoRecords) (inTurn 1 1)).shared ≠
      (Interleave.run act (start twoRecords) (inTurn 1 1)).shared.log := by
  unfold Call.Over
  decide

end CryptoAggHarmonic.Journal
