import Mathlib.Logic.Function.Iterate

/-!
# Interleaved processes

Any number of processes share a state and take their steps one at a time, in any order. `act` is one step of one
process: it reads and changes the shared state and the process's own, and may use an answer of the outside (a clock).
The rules for runs ask for an invariant and for what every step keeps when it is taken under a condition.
-/

namespace Interleave

variable {ι α σ π : Type*}

structure World (ι σ π : Type*) where
  shared : σ
  procs : ι → π

section

variable [DecidableEq ι] {act : α → σ → π → σ × π} {ok : World ι σ π → ι × α → Prop} {w : World ι σ π} {e : ι × α}
  {es schedule : List (ι × α)}

/-- The process `e.1` takes its next step, on the answer `e.2`. -/
def step (act : α → σ → π → σ × π) (w : World ι σ π) (e : ι × α) : World ι σ π where
  shared := (act e.2 w.shared (w.procs e.1)).1
  procs := Function.update w.procs e.1 (act e.2 w.shared (w.procs e.1)).2

def run (act : α → σ → π → σ × π) (w : World ι σ π) (schedule : List (ι × α)) : World ι σ π :=
  schedule.foldl (step act) w

/-- Every step is taken in a state that meets its condition. -/
def Along (act : α → σ → π → σ × π) (ok : World ι σ π → ι × α → Prop) : World ι σ π → List (ι × α) → Prop
  | _, [] => True
  | w, e :: es => ok w e ∧ Along act ok (step act w e) es

instance decidableAlong (act : α → σ → π → σ × π) (ok : World ι σ π → ι × α → Prop) [∀ w e, Decidable (ok w e)] :
    (w : World ι σ π) → (schedule : List (ι × α)) → Decidable (Along act ok w schedule)
  | _, [] => inferInstanceAs (Decidable True)
  | w, e :: es =>
      have := decidableAlong act ok (step act w e) es
      inferInstanceAs (Decidable (_ ∧ _))

@[simp] theorem run_nil : run act w [] = w := rfl

@[simp] theorem run_cons : run act w (e :: es) = run act (step act w e) es := rfl

@[simp] theorem step_shared : (step act w e).shared = (act e.2 w.shared (w.procs e.1)).1 := rfl

@[simp] theorem step_procs_self : (step act w e).procs e.1 = (act e.2 w.shared (w.procs e.1)).2 :=
  Function.update_self ..

theorem step_procs_other {c : ι} (h : c ≠ e.1) : (step act w e).procs c = w.procs c := Function.update_of_ne h ..

/-- What holds of the process that takes the step afterwards, and of every other before it, holds of all. -/
theorem forall_procs_step {P : ι → π → Prop} (hown : P e.1 (act e.2 w.shared (w.procs e.1)).2)
    (hother : ∀ c, c ≠ e.1 → P c (w.procs c)) (c : ι) : P c ((step act w e).procs c) := by
  by_cases hc : c = e.1
  · subst hc
    rw [step_procs_self]
    exact hown
  · rw [step_procs_other hc]
    exact hother c hc

/-- What another process is in the midst of, it is still in the midst of. -/
theorem exists_procs_step {P : π → Prop} (h : ∃ c, P (w.procs c)) (hself : ¬ P (w.procs e.1)) :
    ∃ c, P ((step act w e).procs c) := by
  obtain ⟨c, hc⟩ := h
  refine ⟨c, ?_⟩
  rw [step_procs_other]
  · exact hc
  · rintro rfl
    exact hself hc

theorem step_idle (h : act e.2 w.shared (w.procs e.1) = (w.shared, w.procs e.1)) : step act w e = w := by
  simp [step, h]

/-- A process that every step of its own leaves alone stays as it is. -/
theorem run_halted {c : ι} (h : ∀ a s, (act a s (w.procs c)).2 = w.procs c) :
    (run act w schedule).procs c = w.procs c := by
  induction schedule generalizing w with
  | nil => rfl
  | cons e es ih =>
      have hstep : (step act w e).procs c = w.procs c :=
        forall_procs_step (P := fun d p => d = c → p = w.procs c) (fun hc => by rw [hc, h]) (fun d _ hd => by rw [hd])
          c rfl
      rw [run_cons, ih (hstep ▸ h), hstep]

theorem run_append : run act w (es ++ schedule) = run act (run act w es) schedule := List.foldl_append ..

theorem along_append : Along act ok w (es ++ schedule) ↔ Along act ok w es ∧ Along act ok (run act w es) schedule := by
  induction es generalizing w with
  | nil => simp [Along]
  | cons e es ih => simp only [List.cons_append, Along, ih, run_cons, and_assoc]

/-- A condition along a schedule, put of each of its steps. -/
theorem along_iff : Along act ok w schedule ↔
    ∀ before e after, schedule = before ++ e :: after → ok (run act w before) e := by
  constructor
  · rintro h before e after rfl
    exact (along_append.mp h).2.1
  · intro h
    induction schedule generalizing w with
    | nil => trivial
    | cons e es ih =>
        refine ⟨h [] e es rfl, ih fun before d after hsplit => ?_⟩
        exact h (e :: before) d after (congrArg (e :: ·) hsplit)

/-- **The run rule.** -/
theorem run_invariant {I : World ι σ π → Prop} (hstep : ∀ w e, I w → ok w e → I (step act w e)) (h₀ : I w)
    (h : Along act ok w schedule) : I (run act w schedule) := by
  induction schedule generalizing w with
  | nil => exact h₀
  | cons e es ih => exact ih (hstep w e h₀ h.1) h.2

theorem run_kept {I : World ι σ π → Prop} (hstep : ∀ w e, I w → I (step act w e)) (h₀ : I w) :
    I (run act w schedule) := by
  induction schedule generalizing w with
  | nil => exact h₀
  | cons e es ih => exact ih (hstep w e h₀)

/-- What a step keeps exactly under its condition, and never restores, a run keeps exactly under its conditions. -/
theorem run_iff_along {P : World ι σ π → Prop} (hstep : ∀ w e, P (step act w e) ↔ P w ∧ ok w e) :
    P (run act w schedule) ↔ P w ∧ Along act ok w schedule := by
  induction schedule generalizing w with
  | nil => simp [Along]
  | cons e es ih => rw [run_cons, ih, hstep, Along, and_assoc]

/-- A process that takes its steps alone. -/
theorem run_alone (c : ι) (a : α) (n : ℕ) :
    ((run act w (List.replicate n (c, a))).shared, (run act w (List.replicate n (c, a))).procs c) =
      (fun p : σ × π => act a p.1 p.2)^[n] (w.shared, w.procs c) := by
  induction n generalizing w with
  | zero => rfl
  | succ n ih =>
      have hstep : ((step act w (c, a)).shared, (step act w (c, a)).procs c) = act a w.shared (w.procs c) := by
        rw [step_shared, step_procs_self (e := (c, a))]
      rw [List.replicate_succ, run_cons, ih, hstep, Function.iterate_succ_apply]

/-- What holds of the shared state, and between it and every process. -/
def Holds (S : σ → Prop) (L : σ → π → Prop) (w : World ι σ π) : Prop :=
  S w.shared ∧ ∀ c, L w.shared (w.procs c)

/-- A step keeps it when the process that takes it establishes its own part and disturbs no other. -/
theorem Holds.step {S : σ → Prop} {L : σ → π → Prop} (h : Holds S L w)
    (hown : S (act e.2 w.shared (w.procs e.1)).1 ∧
      L (act e.2 w.shared (w.procs e.1)).1 (act e.2 w.shared (w.procs e.1)).2)
    (hother : ∀ c, c ≠ e.1 → L w.shared (w.procs c) → L (act e.2 w.shared (w.procs e.1)).1 (w.procs c)) :
    Holds S L (Interleave.step act w e) :=
  ⟨hown.1, forall_procs_step (P := fun _ p => L _ p) hown.2 fun c hc => hother c hc (h.2 c)⟩

end

end Interleave
