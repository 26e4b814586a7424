import Mathlib.Init

/-!
# Effects that raise and keep the state

`Triple P x Q E`: where `P` holds, `x` returns with `Q` of its value and the state, or raises and leaves a state of
which `E` holds. The state a raised exception leaves is the one that was reached: `tryCatch` goes on from there.
-/

namespace Effect

universe u

variable {σ ε α β : Type u}

def Triple (P : σ → Prop) (x : EStateM ε σ α) (Q : α → σ → Prop) (E : σ → Prop) : Prop :=
  ∀ s, P s →
    match x s with
    | .ok a t => Q a t
    | .error _ t => E t

/-- `x` keeps `I`, whether it returns or raises. -/
def Keeps (I : σ → Prop) (x : EStateM ε σ α) : Prop := Triple I x (fun _ => I) I

section

variable {P P' E E' I J : σ → Prop} {x : EStateM ε σ α} {f : α → EStateM ε σ β} {h : ε → EStateM ε σ α}
  {Q Q' R : α → σ → Prop} {S : β → σ → Prop}

theorem Triple.pre (hx : Triple P x Q E) (hp : ∀ s, P' s → P s) : Triple P' x Q E := fun s hs => hx s (hp s hs)

theorem Triple.post (hx : Triple P x Q E) (hq : ∀ a s, Q a s → Q' a s) (he : ∀ s, E s → E' s) :
    Triple P x Q' E' := by
  intro s hs
  have hend := hx s hs
  cases hrun : x s with
  | ok a t =>
      rw [hrun] at hend
      exact hq a t hend
  | error e t =>
      rw [hrun] at hend
      exact he t hend

theorem triple_pure {a : α} (hp : ∀ s, P s → Q a s) : Triple P (pure a : EStateM ε σ α) Q E := hp

theorem triple_throw {e : ε} (hp : ∀ s, P s → E s) : Triple P (throw e : EStateM ε σ α) Q E := hp

/-- What is read is the state itself, which nothing has changed yet. -/
theorem triple_get_bind {f : σ → EStateM ε σ β} (hf : ∀ s, P s → Triple (fun t => t = s) (f s) S E) :
    Triple P (get >>= f) S E := fun s hs => hf s hs s rfl

theorem triple_set {t : σ} (hp : ∀ s, P s → I t) : Triple P (set t : EStateM ε σ PUnit) (fun _ => I) E := hp

theorem Triple.bind (hx : Triple P x R E) (hf : ∀ a, Triple (R a) (f a) S E) : Triple P (x >>= f) S E := by
  intro s hs
  have hmid := hx s hs
  change match EStateM.bind x f s with | .ok b t => S b t | .error _ t => E t
  cases hrun : x s with
  | ok a t =>
      rw [hrun] at hmid
      simpa [EStateM.bind, hrun] using hf a t hmid
  | error e t =>
      rw [hrun] at hmid
      simpa [EStateM.bind, hrun] using hmid

/-- The handler starts where the exception left the state. -/
theorem tryCatch_run (x : EStateM ε σ α) (h : ε → EStateM ε σ α) (s : σ) :
    (tryCatch x h : EStateM ε σ α) s = match x s with | .ok a t => .ok a t | .error e t => h e t := by
  change EStateM.tryCatch x h s = _
  delta EStateM.tryCatch
  cases x s <;> rfl

theorem Triple.tryCatch (hx : Triple P x Q E') (hh : ∀ e, Triple E' (h e) Q E) :
    Triple P (tryCatch x h) Q E := by
  intro s hs
  have hend := hx s hs
  rw [tryCatch_run]
  cases hrun : x s with
  | ok a t =>
      rw [hrun] at hend
      exact hend
  | error e t =>
      rw [hrun] at hend
      exact hh e t hend

theorem keeps_pure {a : α} : Keeps I (pure a : EStateM ε σ α) := fun _ hs => hs

theorem keeps_throw {e : ε} : Keeps I (throw e : EStateM ε σ α) := fun _ hs => hs

theorem Keeps.bind (hx : Keeps I x) (hf : ∀ a, Keeps I (f a)) : Keeps I (x >>= f) := Triple.bind hx hf

theorem Keeps.tryCatch (hx : Keeps I x) (hh : ∀ e, Keeps I (h e)) : Keeps I (tryCatch x h) := Triple.tryCatch hx hh

theorem keeps_get_bind {f : σ → EStateM ε σ β} (hf : ∀ s, I s → Triple (fun t => t = s) (f s) (fun _ => I) I) :
    Keeps I (get >>= f) := triple_get_bind hf

theorem Keeps.get_bind {f : σ → EStateM ε σ β} (hf : ∀ s, Keeps I (f s)) : Keeps I (get >>= f) :=
  keeps_get_bind fun s hs => (hf s).pre fun t ht => ht ▸ hs

/-- The state after a run, returned or raised. -/
def after (x : EStateM ε σ α) (s : σ) : σ :=
  match x s with
  | .ok _ t => t
  | .error _ t => t

theorem Keeps.after (hx : Keeps I x) {s : σ} (hs : I s) : I (after x s) := by
  have hend := hx s hs
  unfold Effect.after
  split <;> simp_all

end

end Effect
