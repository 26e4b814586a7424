import Mathlib.Data.Rat.Defs

/-!
# Exceptions

The exceptions the modelled functions raise, with the text the source gives them. Where the source renders
the offending value into the text, the rendered value is left out.
-/

namespace CryptoAggHarmonic

inductive PyError
  /-- `icontract.ViolationError`, with the description of the contract. -/
  | violation (description : String)
  | valueError (message : String)
  | keyError (key : String)
  | indexError
  | assertionError
  deriving DecidableEq, Repr

/-- A contract: go on when `p` holds, raise a `ViolationError` otherwise. -/
def require (p : Prop) [Decidable p] (description : String) : Except PyError Unit :=
  if p then .ok () else .error (.violation description)

/-- The call comes back: no exception is raised. -/
def Returns {α : Type} (x : Except PyError α) : Prop := ∃ a, x = .ok a

/-- The call raises nothing but contract violations. -/
def OnlyViolates {α : Type} (x : Except PyError α) : Prop := ∀ e, x = .error e → ∃ d, e = .violation d

section

variable {α β : Type} {p : Prop} [Decidable p] {d : String} {x : Except PyError α}
  {f : α → Except PyError β} {g : Unit → Except PyError β} {a : α} {b : β}

@[simp] theorem pure_eq_ok : (pure a : Except PyError α) = .ok a := rfl

@[simp] theorem require_bind_eq_ok : (require p d >>= g) = .ok b ↔ p ∧ g () = .ok b := by
  by_cases h : p <;> simp [require, h, bind, Except.bind]

theorem bind_eq_ok : (x >>= f) = .ok b ↔ ∃ a, x = .ok a ∧ f a = .ok b := by
  cases x <;> simp [bind, Except.bind]

@[simp] theorem ok_bind : ((.ok a : Except PyError α) >>= f) = f a := rfl

@[simp] theorem returns_ok : Returns (.ok a : Except PyError α) := ⟨a, rfl⟩

@[simp] theorem returns_require_bind : Returns (require p d >>= g) ↔ p ∧ Returns (g ()) := by
  by_cases h : p <;> simp [Returns, require, h, bind, Except.bind]

theorem returns_bind : Returns (x >>= f) ↔ ∃ a, x = .ok a ∧ Returns (f a) := by
  cases x <;> simp [Returns, bind, Except.bind]

@[simp] theorem onlyViolates_ok : OnlyViolates (.ok a : Except PyError α) := by simp [OnlyViolates]

@[simp] theorem onlyViolates_require_bind : OnlyViolates (require p d >>= g) ↔ (p → OnlyViolates (g ())) := by
  by_cases h : p <;> simp [OnlyViolates, require, h, bind, Except.bind]

theorem OnlyViolates.ite {y : Except PyError α} (hx : OnlyViolates x) (hy : OnlyViolates y) :
    OnlyViolates (if p then x else y) := by
  split_ifs <;> assumption

theorem OnlyViolates.bind (hx : OnlyViolates x) (hf : ∀ a, OnlyViolates (f a)) : OnlyViolates (x >>= f) := by
  cases hcall : x with
  | error e =>
      obtain ⟨d, rfl⟩ := hx e hcall
      simp [OnlyViolates, Bind.bind, Except.bind]
  | ok a => exact hf a

end

end CryptoAggHarmonic
