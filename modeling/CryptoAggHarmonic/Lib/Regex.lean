import Mathlib.Computability.RegularExpressions
import Mathlib.Data.List.Infix

/-!
# Letters of a regular expression

Two questions about every text an expression matches that the expression itself answers: which letters it can be made
of, and which letter it cannot do without.
-/

namespace Regex

open RegularExpression

variable {α : Type} {r : RegularExpression α} {text : List α} {a : α}

def letters : RegularExpression α → List α
  | .zero => []
  | .epsilon => []
  | .char a => [a]
  | .plus P Q => letters P ++ letters Q
  | .comp P Q => letters P ++ letters Q
  | .star P => letters P

/-- **A match is made of the letters of its expression.** -/
theorem subset_letters (h : text ∈ r.matches') : text ⊆ letters r := by
  induction r generalizing text with
  | zero => cases h
  | epsilon =>
      cases h
      exact List.nil_subset _
  | char a =>
      cases h
      exact List.Subset.refl _
  | plus P Q hP hQ =>
      obtain h | h := h
      · exact List.subset_append_of_subset_left _ (hP h)
      · exact List.subset_append_of_subset_right _ (hQ h)
  | comp P Q hP hQ =>
      obtain ⟨front, hfront, back, hback, rfl⟩ := Language.mem_mul.mp h
      exact List.append_subset.mpr ⟨List.subset_append_of_subset_left _ (hP hfront),
        List.subset_append_of_subset_right _ (hQ hback)⟩
  | star P hP =>
      obtain ⟨parts, rfl, hparts⟩ := Language.mem_kstar.mp h
      intro b hb
      obtain ⟨part, hpart, hb⟩ := List.mem_flatten.mp hb
      exact hP (hparts part hpart) hb

variable [DecidableEq α]

def forces (a : α) : RegularExpression α → Bool
  | .zero => true
  | .epsilon => false
  | .char b => b = a
  | .plus P Q => forces a P && forces a Q
  | .comp P Q => forces a P || forces a Q
  | .star _ => false

/-- **A match has every letter that its expression forces.** -/
theorem mem_of_forces (hr : forces a r = true) (h : text ∈ r.matches') : a ∈ text := by
  induction r generalizing text with
  | zero => cases h
  | epsilon => cases hr
  | char b =>
      cases h
      simpa [forces, eq_comm] using hr
  | plus P Q hP hQ =>
      simp only [forces, Bool.and_eq_true] at hr
      obtain h | h := h
      · exact hP hr.1 h
      · exact hQ hr.2 h
  | comp P Q hP hQ =>
      simp only [forces, Bool.or_eq_true] at hr
      obtain ⟨front, hfront, back, hback, rfl⟩ := Language.mem_mul.mp h
      obtain hr | hr := hr
      · exact List.mem_append_left _ (hP hr hfront)
      · exact List.mem_append_right _ (hQ hr hback)
  | star P => cases hr

/-- A text without a letter that is forced is no match. -/
theorem rmatch_eq_false (hr : forces a r = true) (h : a ∉ text) : r.rmatch text = false := by
  rw [Bool.eq_false_iff]
  intro hmatch
  exact h (mem_of_forces hr ((rmatch_iff_matches' r text).mp hmatch))

/-- A text with a foreign letter is no match. -/
theorem rmatch_eq_false_of_letters (h : ¬ text ⊆ letters r) : r.rmatch text = false := by
  rw [Bool.eq_false_iff]
  intro hmatch
  exact h (subset_letters ((rmatch_iff_matches' r text).mp hmatch))

end Regex

/-!
# Shell patterns

A pattern is a list of tokens. A star stands for any text, every other token for one letter.
-/

namespace Glob

variable {α : Type}

inductive Token (α : Type)
  | star
  | any
  | lit (a : α)
  /-- One letter of the ranges, or one of none of them. -/
  | within (negated : Bool) (ranges : List (α × α))
  deriving DecidableEq

variable [DecidableEq α] [LE α] [DecidableLE α]

/-- The token stands for the letter. -/
def Token.takes : Token α → α → Bool
  | .star, _ => false
  | .any, _ => true
  | .lit a, b => a = b
  | .within negated ranges, b => negated ^^ ranges.any fun r => r.1 ≤ b && b ≤ r.2

/-- The whole text is what the pattern stands for. -/
def fits : List (Token α) → List α → Bool
  | [], s => s.isEmpty
  | .star :: pattern, s => s.tails.any (fits pattern)
  | _ :: _, [] => false
  | t :: pattern, b :: s => t.takes b && fits pattern s

attribute [local simp] fits

variable {pattern : List (Token α)} {s u : List α}

theorem fits_star : fits (.star :: pattern) s ↔ ∃ rest, rest <:+ s ∧ fits pattern rest := by
  simp only [fits, List.any_eq_true, List.mem_tails]

theorem fits_cons {t : Token α} {b : α} (ht : t ≠ .star) :
    fits (t :: pattern) (b :: s) = (t.takes b && fits pattern s) := by
  cases t with
  | star => exact absurd rfl ht
  | _ => simp only [fits]

/-- A text has every letter that its pattern names. -/
theorem mem_of_fits {a : α} (h : fits pattern s) (hmem : .lit a ∈ pattern) : a ∈ s := by
  induction pattern generalizing s with
  | nil => cases hmem
  | cons t pattern ih =>
      by_cases hstar : t = .star
      · subst hstar
        obtain ⟨rest, hrest, hfits⟩ := fits_star.mp h
        obtain hstar | hmem := List.mem_cons.mp hmem
        · cases hstar
        · exact hrest.subset (ih hfits hmem)
      · cases s with
        | nil => simp at h
        | cons b s =>
            rw [fits_cons hstar, Bool.and_eq_true] at h
            obtain rfl | hmem := List.mem_cons.mp hmem
            · obtain rfl : a = b := by simpa [Token.takes] using h.1
              exact List.mem_cons_self
            · exact List.mem_cons_of_mem b (ih h.2 hmem)

theorem fits_append_lits : fits (u.map .lit ++ pattern) (u ++ s) = fits pattern s := by
  induction u with
  | nil => rfl
  | cons a u ih => simp [Token.takes, ih]

theorem fits_append {q : List (Token α)} (hs : fits pattern s) (hu : fits q u) : fits (pattern ++ q) (s ++ u) := by
  induction pattern generalizing s with
  | nil =>
      obtain rfl : s = [] := by simpa using hs
      exact hu
  | cons t pattern ih =>
      by_cases hstar : t = .star
      · subst hstar
        obtain ⟨rest, ⟨front, rfl⟩, hfits⟩ := fits_star.mp hs
        exact fits_star.mpr ⟨rest ++ u, ⟨front, (List.append_assoc front rest u).symm⟩, ih hfits⟩
      · cases s with
        | nil => simp at hs
        | cons b s =>
            rw [fits_cons hstar, Bool.and_eq_true] at hs
            rw [List.cons_append, List.cons_append, fits_cons hstar, Bool.and_eq_true]
            exact ⟨hs.1, ih hs.2⟩

/-- What stands in front of a text is taken by a star. -/
theorem fits_star_append (h : fits (.star :: pattern) s) : fits (.star :: pattern) (u ++ s) := by
  obtain ⟨rest, hrest, hfits⟩ := fits_star.mp h
  exact fits_star.mpr ⟨rest, hrest.trans (List.suffix_append u s), hfits⟩

end Glob
