import Mathlib.Data.List.Basic
import Mathlib.Data.List.Induction

/-!
# Runs of a machine

`f s i` is the state after one input. A run is put together from its steps: the rules ask what one step keeps, also
when every step is taken under a condition on the state it starts from.
-/

namespace Steps

variable {σ ι : Type*}

def run (f : σ → ι → σ) (s : σ) (is : List ι) : σ := is.foldl f s

/-- Every step is taken in a state that meets its condition. -/
def Along (f : σ → ι → σ) (ok : σ → ι → Prop) : σ → List ι → Prop
  | _, [] => True
  | s, i :: is => ok s i ∧ Along f ok (f s i) is

instance decidableAlong (f : σ → ι → σ) (ok : σ → ι → Prop) [∀ s i, Decidable (ok s i)] :
    (s : σ) → (is : List ι) → Decidable (Along f ok s is)
  | _, [] => inferInstanceAs (Decidable True)
  | s, i :: is =>
      have := decidableAlong f ok (f s i) is
      inferInstanceAs (Decidable (_ ∧ _))

/-- In every state the run reaches, the first and the last included. -/
def Always (f : σ → ι → σ) (P : σ → Prop) : σ → List ι → Prop
  | s, [] => P s
  | s, i :: is => P s ∧ Always f P (f s i) is

/-- The answers of a machine that answers each input. -/
def outputs {ω : Type*} (f : σ → ι → σ × ω) : σ → List ι → List ω
  | _, [] => []
  | s, i :: is => (f s i).2 :: outputs f (f s i).1 is

section

variable {f : σ → ι → σ} {ok : σ → ι → Prop} {P I : σ → Prop} {s : σ} {i : ι} {is js : List ι}

@[simp] theorem run_nil : run f s [] = s := rfl

@[simp] theorem run_cons : run f s (i :: is) = run f (f s i) is := rfl

theorem along_append : Along f ok s (is ++ js) ↔ Along f ok s is ∧ Along f ok (run f s is) js := by
  induction is generalizing s with
  | nil => simp [Along]
  | cons i is ih => simp only [List.cons_append, Along, ih, run_cons, and_assoc]

/-- A condition along a run, put of each of its steps. -/
theorem along_iff : Along f ok s is ↔ ∀ before i after, is = before ++ i :: after → ok (run f s before) i := by
  constructor
  · rintro h before i after rfl
    exact (along_append.mp h).2.1
  · intro h
    induction is generalizing s with
    | nil => trivial
    | cons i is ih =>
        refine ⟨h [] i is rfl, ih fun before j after hsplit => ?_⟩
        exact h (i :: before) j after (congrArg (i :: ·) hsplit)

theorem Along.and {good : ι → Prop} (h : Along f ok s is) (hall : ∀ i ∈ is, good i) :
    Along f (fun s i => ok s i ∧ good i) s is :=
  along_iff.mpr fun before i after hsplit =>
    ⟨along_iff.mp h before i after hsplit, hall i (hsplit ▸ List.mem_append_right before List.mem_cons_self)⟩

theorem run_kept (hstep : ∀ s i, I s → I (f s i)) (h₀ : I s) : I (run f s is) := by
  induction is generalizing s with
  | nil => exact h₀
  | cons i is ih => exact ih (hstep s i h₀)

theorem Always.run (h : Always f P s is) : P (run f s is) := by
  induction is generalizing s with
  | nil => exact h
  | cons i is ih => exact ih h.2

/-- **The run rule.** -/
theorem always_of_along (hP : ∀ s, I s → P s) (hstep : ∀ s i, I s → ok s i → I (f s i)) (h₀ : I s)
    (h : Along f ok s is) : Always f P s is := by
  induction is generalizing s with
  | nil => exact hP s h₀
  | cons i is ih => exact ⟨hP s h₀, ih (hstep s i h₀ h.1) h.2⟩

/-- What a step keeps exactly under its condition, and never restores, a run keeps exactly under its conditions. -/
theorem run_iff_along {good : σ → ι → Prop} (hI : ∀ s i, I s → good s i → I (f s i))
    (hiff : ∀ s i, I s → good s i → (P (f s i) ↔ P s ∧ ok s i)) (h₀ : I s) (h : Along f good s is) :
    P (run f s is) ↔ P s ∧ Along f ok s is := by
  induction is generalizing s with
  | nil => simp [Along]
  | cons i is ih => rw [run_cons, ih (hI s i h₀ h.1) h.2, hiff s i h₀ h.1, Along, and_assoc]

/-- **The simulation rule.** Steps that answer the same and keep two machines related make runs that answer the same. -/
theorem outputs_simulates {τ ω : Type*} {f : σ → ι → σ × ω} {g : τ → ι → τ × ω} {R : σ → τ → Prop}
    {ok : τ → ι → Prop} {t : τ} (hstep : ∀ s t i, R s t → ok t i → R (f s i).1 (g t i).1 ∧ (f s i).2 = (g t i).2)
    (h₀ : R s t) (h : Along (fun t i => (g t i).1) ok t is) :
    outputs f s is = outputs g t is ∧ Always (fun s i => (f s i).1) (fun s => ∃ t, R s t) s is := by
  induction is generalizing s t with
  | nil => exact ⟨rfl, t, h₀⟩
  | cons i is ih =>
      obtain ⟨hrel, hsame⟩ := hstep s t i h₀ h.1
      obtain ⟨houtputs, halways⟩ := ih hrel h.2
      exact ⟨congrArg₂ List.cons hsame houtputs, ⟨t, h₀⟩, halways⟩

/-- Two machines that one step keeps related are related at the end of a run, and the first one all along. -/
theorem run_simulates {τ : Type*} {g : τ → ι → τ} {R : σ → τ → Prop} {ok : τ → ι → Prop} {t : τ}
    (hstep : ∀ s t i, R s t → ok t i → R (f s i) (g t i)) (h₀ : R s t) (h : Along g ok t is) :
    R (run f s is) (run g t is) ∧ Always f (fun s => ∃ t, R s t) s is := by
  induction is generalizing s t with
  | nil => exact ⟨h₀, t, h₀⟩
  | cons i is ih =>
      obtain ⟨hrun, halways⟩ := ih (hstep s t i h₀ h.1) h.2
      exact ⟨hrun, ⟨t, h₀⟩, halways⟩

theorem Always.imp {Q : σ → Prop} (hPQ : ∀ s, P s → Q s) (h : Always f P s is) : Always f Q s is := by
  induction is generalizing s with
  | nil => exact hPQ s h
  | cons i is ih => exact ⟨hPQ s h.1, ih h.2⟩

end

end Steps

/-!
# Runs of a machine that may fail and that emits outputs

`f s i` consumes one input and either fails or gives the next state with the outputs of the step.
`run` feeds a list of inputs and concatenates the outputs. The rule for runs is `run_history`: a relation
between the inputs read so far, the state and the outputs so far, kept by every step, holds after every run.
-/

namespace Machine

variable {σ ι ω ε : Type*} {f : σ → ι → Except ε (σ × List ω)}

def run (f : σ → ι → Except ε (σ × List ω)) : σ → List ι → Except ε (σ × List ω)
  | s, [] => .ok (s, [])
  | s, i :: is =>
      match f s i with
      | .error e => .error e
      | .ok (s', os) =>
          match run f s' is with
          | .error e => .error e
          | .ok (s'', os') => .ok (s'', os ++ os')

theorem run_snoc_of_ok {s s' s'' : σ} {is : List ι} {i : ι} {os os' : List ω}
    (hr : run f s is = .ok (s', os)) (h : f s' i = .ok (s'', os')) :
    run f s (is ++ [i]) = .ok (s'', os ++ os') := by
  induction is generalizing s os with
  | nil =>
      cases hr
      simp [run, h]
  | cons j js ih =>
      simp only [run] at hr
      split at hr
      · cases hr
      · rename_i t os₁ ht
        split at hr
        · cases hr
        · rename_i u os₂ hu
          cases hr
          simp only [List.cons_append, run, ht, ih hu, List.append_assoc]

/-- **The run rule.** What every step keeps of the inputs so far, the state and the outputs so far holds
after every run, and no run fails. -/
theorem run_history {I : List ι → σ → List ω → Prop} {s₀ : σ} (h₀ : I [] s₀ [])
    (hstep : ∀ is s os i, I is s os →
      ∃ s' os', f s i = .ok (s', os') ∧ I (is ++ [i]) s' (os ++ os')) (is : List ι) :
    ∃ s os, run f s₀ is = .ok (s, os) ∧ I is s os := by
  induction is using List.reverseRecOn with
  | nil => exact ⟨s₀, [], rfl, h₀⟩
  | append_singleton is i ih =>
      obtain ⟨s, os, hr, hi⟩ := ih
      obtain ⟨s', os', hs, hi'⟩ := hstep is s os i hi
      exact ⟨s', os ++ os', run_snoc_of_ok hr hs, hi'⟩

end Machine

/-!
# Loops with a break

`run` feeds a list to the body of a loop until the body is done. The rule for it is `run_rule`: an invariant of the
items consumed so far and the state, kept by every turn that goes on, holds at the end of the list, unless a turn has
left the loop with what it owes.
-/

namespace Loops

variable {σ ι : Type*} {body : σ → ι → ForInStep σ}

def run (body : σ → ι → ForInStep σ) : σ → List ι → σ
  | s, [] => s
  | s, i :: is =>
      match body s i with
      | .done s' => s'
      | .yield s' => run body s' is

/-- What one turn owes: the invariant of the items up to its own, or the result it breaks with. -/
def Turn (I : List ι → σ → Prop) (Q : σ → Prop) (consumed : List ι) : ForInStep σ → Prop
  | .done s => Q s
  | .yield s => I consumed s

/-- **The loop rule.** -/
theorem run_rule {I : List ι → σ → Prop} {Q : σ → Prop} {all : List ι} {s₀ : σ} (h₀ : I [] s₀)
    (hturn : ∀ is i rest, all = is ++ i :: rest → ∀ s, I is s → Turn I Q (is ++ [i]) (body s i)) :
    I all (run body s₀ all) ∨ Q (run body s₀ all) := by
  suffices h : ∀ rest is s, all = is ++ rest → I is s → I all (run body s rest) ∨ Q (run body s rest) from
    h all [] s₀ rfl h₀
  intro rest
  induction rest with
  | nil =>
      intro is s hall hs
      rw [List.append_nil] at hall
      exact Or.inl (hall ▸ hs)
  | cons i rest ih =>
      intro is s hall hs
      have h := hturn is i rest hall s hs
      unfold run
      cases hb : body s i with
      | done s' =>
          rw [hb] at h
          exact Or.inr h
      | yield s' =>
          rw [hb] at h
          exact ih (is ++ [i]) s' (by rw [hall, List.append_assoc]; rfl) h

/-- A loop over a list and more: the turns of the list, and of the rest unless the loop is over. `Live` tells the
states of a loop that goes on from those it breaks with. -/
theorem run_append (Live : σ → Prop) (hdone : ∀ s i s', body s i = .done s' → ¬ Live s')
    (hyield : ∀ s i s', Live s → body s i = .yield s' → Live s') {s : σ} (hs : Live s) (is rest : List ι) :
    (Live (run body s is) → run body s (is ++ rest) = run body (run body s is) rest) ∧
      (¬ Live (run body s is) → run body s (is ++ rest) = run body s is) := by
  induction is generalizing s with
  | nil => exact ⟨fun _ => rfl, fun h => absurd hs h⟩
  | cons i is ih =>
      simp only [List.cons_append, run]
      cases hb : body s i with
      | done s' => exact ⟨fun h => absurd h (hdone s i s' hb), fun _ => rfl⟩
      | yield s' => exact ih (hyield s i s' hs hb)

end Loops
