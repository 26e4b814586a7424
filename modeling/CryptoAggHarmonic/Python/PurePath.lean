import CryptoAggHarmonic.Python.Files
import Mathlib.Data.List.DropRight
import CryptoAggHarmonic.Lib.Regex
import Mathlib.Data.Char

/-!
# Spellings of a path

`PurePosixPath` drops single dots and repeated slashes from a text and keeps double dots. Where a text leads is another
matter: there a double dot goes up.
-/

namespace CryptoAggHarmonic.PyOs

open Files

/-- The parts of `PurePosixPath(t)` behind its root. -/
def parts (t : Text) : List Text := (t.splitOn '/').filter fun c => c ≠ [] ∧ c ≠ ['.']

/-- `Path(t).as_posix()` -/
def asPosix (t : Text) : Text :=
  let text := List.replicate (initialSlashes t) '/' ++ ['/'].intercalate (parts t)
  if text = [] then ['.'] else text

def dotdot : Text := ['.', '.']

/-- Where the text leads from the directory `base`, no link met. -/
def denotes (base : List Text) (t : Text) : List Text := lexical (if isAbs t then [] else base) (parse t)

/-- The place below `root` that the text denotes for a program that runs there. -/
def below (root : List Text) (t : Text) : Option (List Text) :=
  if root <+: denotes root t then some ((denotes root t).drop root.length) else none

/-- One part, followed. -/
def follow (place : List Text) (c : Text) : List Text := if c = dotdot then place.dropLast else place ++ [c]

variable {base root place names names' init : List Text} {t u c : Text}

/-! ## The parts of a text that is put together -/

theorem parts_append : parts (t ++ '/' :: u) = parts t ++ parts u := by
  rw [parts, List.splitOn_append_cons_self, List.filter_append]
  rfl

theorem parts_cons_slash : parts ('/' :: t) = parts t := by
  simpa [parts] using parts_append (t := []) (u := t)

theorem parts_slashes {n : ℕ} : parts (List.replicate n '/' ++ t) = parts t := by
  induction n with
  | zero => rfl
  | succ n ih => rw [List.replicate_succ, List.cons_append, parts_cons_slash, ih]

theorem slash_notMem_splitOn (h : c ∈ t.splitOn '/') : '/' ∉ c := by
  induction t generalizing c with
  | nil =>
      obtain rfl : c = [] := by simpa using h
      exact List.not_mem_nil
  | cons a t ih =>
      rw [List.splitOn_cons_eq_if_modifyHead] at h
      split at h
      · rcases List.mem_cons.mp h with rfl | h
        · exact List.not_mem_nil
        · exact ih h
      · rename_i hslash
        obtain ⟨first, rest, hsplit⟩ := List.exists_cons_of_ne_nil (List.splitOn_ne_nil '/' t)
        rw [hsplit] at h ih
        rcases List.mem_cons.mp h with rfl | h
        · intro hmem
          rcases List.mem_cons.mp hmem with rfl | hmem
          · exact hslash (beq_self_eq_true _)
          · exact ih List.mem_cons_self hmem
        · exact ih (List.mem_cons_of_mem first h)

/-- What `parts` gives: no part is empty, a single dot or holds a slash. -/
def IsPart (c : Text) : Prop := '/' ∉ c ∧ c ≠ [] ∧ c ≠ ['.']

theorem isPart_of_mem (h : c ∈ parts t) : IsPart c := by
  rw [parts, List.mem_filter] at h
  exact ⟨slash_notMem_splitOn h.1, by simpa using h.2⟩

theorem parts_intercalate (h : ∀ c ∈ names, IsPart c) : parts (['/'].intercalate names) = names := by
  rcases eq_or_ne names [] with rfl | hne
  · rfl
  · rw [parts, List.splitOn_intercalate '/' (fun c hc => (h c hc).1) hne, List.filter_eq_self]
    intro c hc
    simpa using (h c hc).2

theorem parts_asPosix : parts (asPosix t) = parts t := by
  have htext : parts (List.replicate (initialSlashes t) '/' ++ ['/'].intercalate (parts t)) = parts t := by
    rw [parts_slashes]
    exact parts_intercalate fun c hc => isPart_of_mem hc
  rw [asPosix]
  split
  · rename_i hempty
    rw [← htext, hempty]
    rfl
  · exact htext

theorem intercalate_append (hinit : init ≠ []) (hnames : names ≠ []) :
    ['/'].intercalate (init ++ names) = ['/'].intercalate init ++ '/' :: ['/'].intercalate names := by
  induction init with
  | nil => exact absurd rfl hinit
  | cons c init ih =>
      rcases eq_or_ne init [] with rfl | hrest
      · simp [List.intercalate_cons_of_ne_nil hnames]
      · rw [List.cons_append, List.intercalate_cons_of_ne_nil (by simp [hrest]), ih hrest,
          List.intercalate_cons_of_ne_nil hrest]
        simp

/-- The comparison of a spelling with the end of a path is one of parts. -/
theorem asPosix_iff (h : ∀ c ∈ names, IsPart c) (hne : names ≠ []) :
    asPosix t = ['/'].intercalate names ∨ '/' :: ['/'].intercalate names <:+ asPosix t ↔ names <:+ parts t := by
  constructor
  · rintro (heq | ⟨front, hfront⟩)
    · rw [← parts_asPosix, heq, parts_intercalate h]
    · rw [← parts_asPosix, ← hfront, parts_append, parts_intercalate h]
      exact List.suffix_append _ _
  · rintro ⟨init, hinit⟩
    have hletters : ['/'].intercalate names ≠ [] := by
      intro hempty
      have := parts_intercalate h
      rw [hempty] at this
      exact hne this.symm
    have hjoin : ['/'].intercalate (init ++ names) ≠ [] := by
      rcases eq_or_ne init [] with rfl | hi
      · exact hletters
      · rw [intercalate_append hi hne]
        simp
    rw [asPosix, ← hinit, if_neg (by simp [hjoin])]
    rcases eq_or_ne init [] with rfl | hi
    · cases initialSlashes t with
      | zero => exact Or.inl rfl
      | succ n =>
          right
          rw [List.replicate_succ', List.append_assoc]
          exact List.suffix_append _ _
    · right
      rw [intercalate_append hi hne, ← List.append_assoc]
      exact List.suffix_append _ _

/-! ## Where a text leads -/

theorem lexical_parse : lexical place (parse t) = (parts t).foldl follow place := by
  rw [parse, parts]
  induction t.splitOn '/' generalizing place with
  | nil => rfl
  | cons c cs ih =>
      by_cases hempty : c = []
      · subst hempty
        simpa [component] using ih
      by_cases hdot : c = ['.']
      · subst hdot
        simpa [component, stepOn] using ih
      rw [List.filter_cons_of_pos (by simp [hempty, hdot]), List.foldl_cons, ← ih]
      by_cases hup : c = dotdot
      · subst hup
        simp [component, stepOn, follow, dotdot]
      · have hup' : c ≠ ['.', '.'] := hup
        by_cases hnul : '\x00' ∈ c <;> simp [component, hempty, hdot, hup', hnul, stepOn, follow, hup]

theorem denotes_eq : denotes base t = (parts t).foldl follow (if isAbs t then [] else base) := lexical_parse

theorem follow_names (h : dotdot ∉ names) : names.foldl follow place = place ++ names := by
  induction names generalizing place with
  | nil => simp
  | cons c names ih =>
      simp only [List.mem_cons, not_or] at h
      rw [List.foldl_cons, ih h.2, follow, if_neg (Ne.symm h.1)]
      simp

theorem denotes_of_below (h : below root t = some place) : denotes root t = root ++ place := by
  unfold below at h
  split at h
  · rename_i hroot
    obtain ⟨rest, hrest⟩ := hroot
    obtain rfl : (denotes root t).drop root.length = place := by simpa using h
    rw [← hrest, List.drop_left]
  · cases h

/-- A text is spelled with the place it leads to exactly when none of its last parts goes up. -/
theorem suffix_parts_iff (h : below root t = some place) (hplace : dotdot ∉ place) :
    place <:+ parts t ↔ dotdot ∉ (parts t).rtake place.length := by
  constructor
  · rintro ⟨init, hinit⟩
    rw [← hinit, List.rtake, List.length_append, Nat.add_sub_cancel, List.drop_left]
    exact hplace
  · intro hlast
    have hsplit : (parts t).take ((parts t).length - place.length) ++ (parts t).rtake place.length = parts t :=
      List.take_append_drop _ _
    have hplaced := denotes_of_below h
    rw [denotes_eq, ← hsplit, List.foldl_append, follow_names hlast] at hplaced
    have hlen : ((parts t).rtake place.length).length = (parts t).length - ((parts t).length - place.length) :=
      List.length_drop
    rcases Nat.lt_or_ge (parts t).length place.length with hshort | hlong
    · -- Too few parts: the place cannot be the root and all of `place`.
      rw [Nat.sub_eq_zero_of_le hshort.le, List.take_zero, List.foldl_nil] at hplaced
      have hlengths := congrArg List.length hplaced
      rw [List.length_append, List.length_append, hlen] at hlengths
      split at hlengths
      · rw [List.length_nil] at hlengths
        omega
      · omega
    · have hsame : (parts t).rtake place.length = place :=
        (List.append_inj' hplaced (by rw [hlen]; omega)).2
      rw [← hsame]
      exact List.drop_suffix _ _

end CryptoAggHarmonic.PyOs

/-!
# `fnmatch`

The patterns of the standard library: `*`, `?`, `[seq]` and `[!seq]`. A slash is a letter like any other.
-/

namespace CryptoAggHarmonic.Fnmatch

open Glob

/-- What stands before the next closing bracket, and what stands behind it. -/
def untilBracket : List Char → Option (List Char × List Char)
  | [] => none
  | ']' :: cs => some ([], cs)
  | c :: cs => (untilBracket cs).map fun r => (c :: r.1, r.2)

/-- What follows an opening bracket: a closing one in the first place is a letter of the sequence. -/
def bracket : List Char → Option (Bool × List Char × List Char)
  | '!' :: ']' :: cs => (untilBracket cs).map fun r => (true, ']' :: r.1, r.2)
  | '!' :: cs => (untilBracket cs).map fun r => (true, r.1, r.2)
  | ']' :: cs => (untilBracket cs).map fun r => (false, ']' :: r.1, r.2)
  | cs => (untilBracket cs).map fun r => (false, r.1, r.2)

/-- The sequence between the brackets; a range whose ends are the wrong way round holds nothing. -/
def ranges : List Char → List (Char × Char)
  | a :: '-' :: b :: cs => (a, b) :: ranges cs
  | a :: cs => (a, a) :: ranges cs
  | [] => []

/-- `fnmatch.translate`. The first argument is at least the length of the pattern. -/
def translateWith : ℕ → List Char → List (Token Char)
  | 0, _ => []
  | _, [] => []
  | n + 1, '*' :: cs => .star :: translateWith n cs
  | n + 1, '?' :: cs => .any :: translateWith n cs
  | n + 1, '[' :: cs =>
      match bracket cs with
      | some (negated, seq, rest) => .within negated (ranges seq) :: translateWith n rest
      | none => .lit '[' :: translateWith n cs
  | n + 1, c :: cs => .lit c :: translateWith n cs

def translate (pattern : List Char) : List (Token Char) := translateWith pattern.length pattern

def fnmatch (name pattern : List Char) : Bool := fits (translate pattern) name

variable {name pattern front : List Char}

theorem translate_star : translate ('*' :: pattern) = .star :: translate pattern := rfl

/-- A pattern that opens with a star takes a text with anything in front of it. -/
theorem fnmatch_append (hstar : pattern.head? = some '*') (h : fnmatch name pattern) :
    fnmatch (front ++ name) pattern := by
  cases pattern with
  | nil => simp at hstar
  | cons c pattern =>
      obtain rfl : c = '*' := by simpa using hstar
      rw [fnmatch, translate_star] at h ⊢
      exact fits_star_append h

end CryptoAggHarmonic.Fnmatch

/-!
# `re`

Of the regular expressions only those that are made of letters, dots and `.*` are told apart here.
-/

namespace CryptoAggHarmonic.Re

open Glob

inductive Atom
  | letter (c : Char)
  | dot
  | dotStar

/-- The letters that do not stand for themselves in an expression. -/
def special : List Char := ['\\', '.', '^', '$', '*', '+', '?', '\x7b', '\x7d', '[', ']', '(', ')', '|']

namespace Atom

def text : Atom → List Char
  | .letter c => [c]
  | .dot => ['.']
  | .dotStar => ['.', '*']

/-- What the atom takes within a line. -/
def token : Atom → Token Char
  | .letter c => .lit c
  | .dot => .any
  | .dotStar => .star

def Plain : Atom → Prop
  | .letter c => c ∉ special
  | .dot => True
  | .dotStar => True

end Atom

/-- The atoms stand next to each other somewhere in the line. -/
def found (atoms : List Atom) (line : List Char) : Bool :=
  fits (.star :: (atoms.map Atom.token ++ [.star])) line

/-- `re.compile(text).search`; nothing where `compile` raises. -/
structure Engine where
  compile : List Char → Option (List Char → Bool)
  compile_atoms : ∀ atoms : List Atom, (∀ a ∈ atoms, a.Plain) →
    ∃ search, compile (atoms.flatMap Atom.text) = some search ∧ ∀ line, '\n' ∉ line → search line = found atoms line

/-! ## Expressions that are only atoms -/

def readAtoms : List Char → Option (List Atom)
  | [] => some []
  | '.' :: '*' :: cs => (readAtoms cs).map (.dotStar :: ·)
  | '.' :: cs => (readAtoms cs).map (.dot :: ·)
  | c :: cs => if c ∈ special then none else (readAtoms cs).map (.letter c :: ·)

variable {atoms : List Atom} {c : Char} {cs : List Char}

theorem readAtoms_letter (hc : c ∉ special) : readAtoms (c :: cs) = (readAtoms cs).map (.letter c :: ·) := by
  have hdot : c ≠ '.' := by
    rintro rfl
    exact hc (by decide)
  rw [readAtoms]
  · exact if_neg hc
  · rintro _ rfl
    exact absurd rfl hdot
  · rintro rfl
    exact hdot rfl

theorem readAtoms_dot (hcs : cs.head? ≠ some '*') : readAtoms ('.' :: cs) = (readAtoms cs).map (.dot :: ·) := by
  rw [readAtoms]
  rintro _ rfl
  exact hcs rfl

theorem head?_text (h : ∀ a ∈ atoms, a.Plain) : (atoms.flatMap Atom.text).head? ≠ some '*' := by
  cases atoms with
  | nil => simp
  | cons a atoms =>
      cases a with
      | letter c =>
          have hc : c ∉ special := h _ List.mem_cons_self
          intro hstar
          obtain rfl : c = '*' := by simpa [Atom.text] using hstar
          exact hc (by decide)
      | dot => simp [Atom.text]
      | dotStar => simp [Atom.text]

theorem readAtoms_text (h : ∀ a ∈ atoms, a.Plain) : readAtoms (atoms.flatMap Atom.text) = some atoms := by
  induction atoms with
  | nil => rfl
  | cons a atoms ih =>
      have hatoms : ∀ b ∈ atoms, b.Plain := fun b hb => h b (List.mem_cons_of_mem a hb)
      specialize ih hatoms
      cases a with
      | letter c =>
          have hc : c ∉ special := h _ List.mem_cons_self
          rw [List.flatMap_cons, Atom.text, List.singleton_append, readAtoms_letter hc, ih]
          rfl
      | dot =>
          rw [List.flatMap_cons, Atom.text, List.singleton_append, readAtoms_dot (head?_text hatoms), ih]
          rfl
      | dotStar =>
          rw [List.flatMap_cons, Atom.text, List.cons_append, List.singleton_append, readAtoms, ih]
          rfl

/-- An engine that raises for whatever is not made of atoms. -/
def atomsOnly : Engine where
  compile t := (readAtoms t).map found
  compile_atoms atoms h := ⟨found atoms, by rw [readAtoms_text h]; rfl, fun _ _ => rfl⟩

end CryptoAggHarmonic.Re
