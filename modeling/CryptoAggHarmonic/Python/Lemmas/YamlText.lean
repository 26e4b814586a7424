import CryptoAggHarmonic.Lib.Regex
import CryptoAggHarmonic.Python.JsonText
import Mathlib.Tactic.IntervalCases

/-!
# Scalars that survive YAML

What YAML makes of a number as Python prints it and of a text as `json.dumps` writes it.
-/

namespace CryptoAggHarmonic.Yaml

open PyOs (Text)
open RegularExpression

variable {ft : FloatText} {text front back : Text} {r s : RegularExpression Char} {cs : Text} {n : ℕ} {x : ℚ}

/-! ## Texts and expressions -/

theorem rmatch_of_mem (h : text ∈ r.matches') : r.rmatch text = true := (rmatch_iff_matches' r text).mpr h

theorem mem_oneOf : text ∈ (oneOf cs).matches' ↔ ∃ c ∈ cs, text = [c] := by
  induction cs with
  | nil => simp [oneOf, Language.notMem_zero]
  | cons d cs ih =>
      simp only [oneOf, matches'_add, Language.mem_add, ih, List.mem_cons, exists_eq_or_imp]
      rfl

theorem letters_oneOf : Regex.letters (oneOf cs) = cs := by
  induction cs with
  | nil => rfl
  | cons d cs ih => exact congrArg (d :: ·) ih

theorem mem_star_oneOf (h : ∀ c ∈ text, c ∈ cs) : text ∈ (oneOf cs).star.matches' := by
  rw [matches'_star, Language.mem_kstar]
  refine ⟨text.map fun c => [c], ?_, ?_⟩
  · induction text with
    | nil => rfl
    | cons c text ih => simpa using ih fun d hd => h d (List.mem_cons_of_mem _ hd)
  · intro part hpart
    obtain ⟨c, hc, rfl⟩ := List.mem_map.mp hpart
    exact mem_oneOf.mpr ⟨c, h c hc, rfl⟩

theorem append_mem (hfront : front ∈ r.matches') (hback : back ∈ s.matches') : front ++ back ∈ (r * s).matches' :=
  Language.append_mem_mul hfront hback

theorem nil_mem_optional : [] ∈ (optional r).matches' := Or.inl rfl

theorem mem_optional (h : text ∈ r.matches') : text ∈ (optional r).matches' := Or.inr h

theorem mem_many (h : text ∈ (many (oneOf cs)).matches') :
    ∃ c rest, text = c :: rest ∧ c ∈ cs ∧ ∀ d ∈ rest, d ∈ cs := by
  obtain ⟨front, hfront, back, hback, rfl⟩ := Language.mem_mul.mp h
  obtain ⟨c, hc, rfl⟩ := mem_oneOf.mp hfront
  have hletters : back ⊆ Regex.letters (oneOf cs) := Regex.subset_letters (r := .star (oneOf cs)) hback
  rw [letters_oneOf] at hletters
  exact ⟨c, back, rfl, hc, hletters⟩

/-! ## Numbers -/

/-- No word for a truth value is made of the letters of numbers. -/
theorem notMem_boolTexts {letters : Text} (hletters : ∀ word ∈ boolTexts, ¬ word ⊆ letters) (h : text ⊆ letters) :
    text ∉ boolTexts := fun hmem => hletters text hmem h

/-- A check of all letters, in the form that evaluates. -/
theorem forall_mem_of_all {p : Char → Prop} [DecidablePred p] (h : (cs.all fun c => decide (p c)) = true) :
    ∀ c ∈ cs, p c := by
  simpa using h

theorem toDigits_shape (hn : n ≠ 0) :
    ∃ c rest, Nat.toDigits 10 n = c :: rest ∧ c ∈ "123456789".toList ∧ ∀ d ∈ rest, d ∈ "0123456789".toList := by
  induction n using Nat.strongRecOn with
  | ind n ih =>
      rcases Nat.lt_or_ge n 10 with hlt | hge
      · refine ⟨n.digitChar, [], Nat.toDigits_of_lt_base hlt, ?_, by simp⟩
        interval_cases n <;> first | exact absurd rfl hn | decide
      · obtain ⟨c, rest, heq, hc, hrest⟩ := ih (n / 10) (by omega) (by omega)
        refine ⟨c, rest ++ [(n % 10).digitChar], ?_, hc, ?_⟩
        · rw [Nat.toDigits_of_base_le (by decide) hge, heq, List.cons_append]
        · intro d hd
          obtain hd | hd := List.mem_append.mp hd
          · exact hrest d hd
          · rw [List.mem_singleton.mp hd]
            have : n % 10 < 10 := Nat.mod_lt _ (by decide)
            interval_cases n % 10 <;> decide

theorem toDigits_subset : Nat.toDigits 10 n ⊆ "0123456789".toList := by
  intro d hd
  rcases eq_or_ne n 0 with rfl | hn
  · rw [Nat.toDigits_zero, List.mem_singleton] at hd
    subst hd
    decide
  · obtain ⟨c, rest, heq, hc, hrest⟩ := toDigits_shape hn
    rw [heq] at hd
    obtain rfl | hd := List.mem_cons.mp hd
    · revert hc
      simp
      tauto
    · exact hrest d hd

theorem toDigits_mem : Nat.toDigits 10 n ∈ (char '0' + oneOf "123456789".toList * digitOrLine.star).matches' := by
  rcases eq_or_ne n 0 with rfl | hn
  · exact Or.inl (Nat.toDigits_zero 10)
  · obtain ⟨c, rest, heq, hc, hrest⟩ := toDigits_shape hn
    rw [heq]
    exact Or.inr (append_mem (mem_oneOf.mpr ⟨c, hc, rfl⟩)
      (mem_star_oneOf fun d hd => List.mem_cons_of_mem _ (hrest d hd)))

theorem strInt_subset {m : ℤ} : strInt m ⊆ "-0123456789".toList := by
  cases m with
  | ofNat n => exact List.subset_cons_of_subset _ toDigits_subset
  | negSucc n => exact List.cons_subset_cons _ toDigits_subset

theorem strInt_mem {m : ℤ} : strInt m ∈ decimalRegex.matches' := by
  cases m with
  | ofNat n => exact append_mem nil_mem_optional toDigits_mem
  | negSucc n =>
      have hminus : ['-'] ∈ sign.matches' := mem_optional (mem_oneOf.mpr ⟨'-', by decide, rfl⟩)
      exact append_mem hminus toDigits_mem

theorem magnitude_toDigits : magnitude (Nat.toDigits 10 n) = some (n : ℤ) := by
  rcases eq_or_ne n 0 with rfl | hn
  · rfl
  · have hcolon : ':' ∉ Nat.toDigits 10 n := fun h => absurd (toDigits_subset h) (by decide)
    obtain ⟨c, rest, heq, hc, -⟩ := toDigits_shape hn
    have hzero : c ≠ '0' := by
      rintro rfl
      revert hc
      decide
    have hsplit : (c :: rest).splitOn ':' = [c :: rest] := by
      rw [← heq, List.splitOn_eq_singleton hcolon]
    unfold magnitude
    rw [heq]
    split
    · simp_all
    · simp_all
    · simp_all
    · simp_all
    · rw [hsplit]
      have hvalue := Nat.ofDigitChars_ten_toDigits (n := n)
      rw [heq] at hvalue
      simp [ofDigits, hvalue]

theorem filter_line (h : '_' ∉ text) : text.filter (· ≠ '_') = text := by
  rw [List.filter_eq_self]
  intro c hc
  exact decide_eq_true fun heq => h (heq ▸ hc)

theorem constructInt_strInt {m : ℤ} : constructInt (strInt m) = some m := by
  have hline : '_' ∉ strInt m := fun h => absurd (strInt_subset h) (by decide)
  unfold constructInt
  rw [filter_line hline]
  cases m with
  | negSucc n =>
      simp only [strInt, magnitude_toDigits]
      rfl
  | ofNat n =>
      have hminus : ∀ rest, Nat.toDigits 10 n ≠ '-' :: rest := by
        intro rest heq
        have : '-' ∈ Nat.toDigits 10 n := by simp [heq]
        exact absurd (toDigits_subset this) (by decide)
      have hplus : ∀ rest, Nat.toDigits 10 n ≠ '+' :: rest := by
        intro rest heq
        have : '+' ∈ Nat.toDigits 10 n := by simp [heq]
        exact absurd (toDigits_subset this) (by decide)
      simp only [strInt]
      exact magnitude_toDigits

/-- **An integer is read back.** -/
theorem resolve_strInt {m : ℤ} : resolve ft (strInt m) = some (.int m) := by
  have hbool : strInt m ∉ boolTexts := notMem_boolTexts (by decide) strInt_subset
  have hpoint : '.' ∉ strInt m := fun h => absurd (strInt_subset h) (by decide)
  have hfloat : floatRegex.rmatch (strInt m) = false := Regex.rmatch_eq_false (by decide) hpoint
  have hint : intRegex.rmatch (strInt m) = true :=
    rmatch_of_mem (Or.inl (Or.inl (Or.inr strInt_mem)))
  simp [resolve, hbool, hfloat, hint, constructInt_strInt]

/-! ## Floats -/

theorem repr_subset (h : text ∈ reprPointed.matches') : text ⊆ "0123456789.e-+".toList :=
  fun _ hc => (by decide : Regex.letters reprPointed ⊆ "0123456789.e-+".toList) (Regex.subset_letters h hc)

/-- The digits before the point, those behind it, and the exponent. -/
theorem repr_parts (h : text ∈ reprPointed.matches') :
    ∃ c rest d more exp, text = c :: rest ++ '.' :: (d :: more) ++ exp ∧ (∀ e ∈ c :: rest, e ∈ "0123456789".toList) ∧
      (∀ e ∈ d :: more, e ∈ "0123456789".toList) ∧ exp ∈ exponent.matches' := by
  obtain ⟨decimal, hdecimal, exp, hexp, rfl⟩ := Language.mem_mul.mp h
  obtain ⟨upto, hupto, frac, hfrac, rfl⟩ := Language.mem_mul.mp hdecimal
  obtain ⟨whole, hwhole, point, hpoint, rfl⟩ := Language.mem_mul.mp hupto
  obtain ⟨c, rest, rfl, hc, hrest⟩ := mem_many hwhole
  obtain ⟨d, more, rfl, hd, hmore⟩ := mem_many hfrac
  cases hpoint
  refine ⟨c, rest, d, more, exp, by simp, List.forall_mem_cons.mpr ⟨hc, hrest⟩,
    List.forall_mem_cons.mpr ⟨hd, hmore⟩, ?_⟩
  obtain hexp | hexp := hexp
  · cases hexp
    exact nil_mem_optional
  · obtain ⟨front, hfront, digits, hdigits, rfl⟩ := Language.mem_mul.mp hexp
    obtain ⟨e, he, s, hs, rfl⟩ := Language.mem_mul.mp hfront
    cases he
    exact mem_optional (append_mem (append_mem (mem_oneOf.mpr ⟨'e', by decide, rfl⟩) hs) hdigits)

theorem repr_head (h : text ∈ reprPointed.matches') : ∃ c rest, text = c :: rest ∧ c ∈ "0123456789".toList := by
  obtain ⟨c, rest, d, more, exp, rfl, hwhole, -, -⟩ := repr_parts h
  exact ⟨c, rest ++ '.' :: (d :: more) ++ exp, by simp, hwhole c List.mem_cons_self⟩

theorem pointed_of_repr (h : text ∈ reprPointed.matches') {signText : Text} (hsign : signText ∈ sign.matches') :
    signText ++ text ∈ pointed.matches' := by
  obtain ⟨c, rest, d, more, exp, rfl, hwhole, hfrac, hexp⟩ := repr_parts h
  have hfirst : [c] ∈ digit.matches' := mem_oneOf.mpr ⟨c, hwhole c List.mem_cons_self, rfl⟩
  have hrest : rest ∈ digitOrLine.star.matches' :=
    mem_star_oneOf fun e he => List.mem_cons_of_mem _ (hwhole e (List.mem_cons_of_mem _ he))
  have hmore : d :: more ∈ digitOrLine.star.matches' := mem_star_oneOf fun e he => List.mem_cons_of_mem _ (hfrac e he)
  have hpoint : ['.'] ∈ (char '.').matches' := rfl
  have := append_mem (append_mem (append_mem (append_mem (append_mem hsign hfirst) hrest) hpoint) hmore) hexp
  simpa [pointed] using this

theorem lower_of_repr (h : text ∈ reprPointed.matches') : (text.filter (· ≠ '_')).map Char.toLower = text := by
  have hline : '_' ∉ text := fun hc => absurd (repr_subset h hc) (by decide)
  have hlower : ∀ c ∈ "0123456789.e-+".toList, c.toLower = c := forall_mem_of_all (by decide)
  rw [filter_line hline, List.map_congr_left fun c hc => hlower c (repr_subset h hc)]
  exact List.map_id' text

theorem floatMagnitude_repr (h : text ∈ reprPointed.matches') : floatMagnitude ft text = .finite (ft.ofText text) := by
  have hinf : text ≠ ".inf".toList := by
    rintro rfl
    exact absurd (repr_subset h) (by decide)
  have hnan : text ≠ ".nan".toList := by
    rintro rfl
    exact absurd (repr_subset h) (by decide)
  have hcolon : text.contains ':' = false := by
    rw [List.contains_eq_mem, decide_eq_false_iff_not]
    exact fun hc => absurd (repr_subset h hc) (by decide)
  unfold floatMagnitude
  rw [if_neg hinf, if_neg hnan, hcolon]
  simp

theorem constructFloat_repr (h : text ∈ reprPointed.matches') :
    constructFloat ft text = .finite (ft.ofText text) ∧
      constructFloat ft ('-' :: text) = .finite (-ft.ofText text) := by
  obtain ⟨c, rest, d, more, exp, heq, hwhole, -, -⟩ := repr_parts h
  have hc := hwhole c List.mem_cons_self
  constructor
  · unfold constructFloat
    rw [lower_of_repr h]
    split
    · cases heq
      exact absurd hc (by decide)
    · cases heq
      exact absurd hc (by decide)
    · exact floatMagnitude_repr h
  · have hlower : (('-' :: text).filter (· ≠ '_')).map Char.toLower = '-' :: text := by
      rw [List.filter_cons_of_pos (by decide), List.map_cons, lower_of_repr h]
      rfl
    unfold constructFloat
    rw [hlower]
    simp [floatMagnitude_repr h, PyFloat.neg]

theorem resolve_pointed (h : text ∈ pointed.matches') (hletters : text ⊆ "0123456789.e-+".toList) :
    resolve ft text = some (.float (constructFloat ft text)) := by
  have hbool : text ∉ boolTexts := notMem_boolTexts (by decide) hletters
  have hfloat : floatRegex.rmatch text = true :=
    rmatch_of_mem (Or.inl (Or.inl (Or.inl (Or.inl h))))
  simp [resolve, hbool, hfloat]

/-- **A float is read back** where its text has a point. -/
theorem resolve_strFloat (hx : ft.IsFloat |x|) (hpoint : '.' ∈ ft.repr |x|) :
    resolve ft (strFloat ft (.finite x)) = some (.float (.finite x)) := by
  have hrepr : ft.repr |x| ∈ reprPointed.matches' := by
    obtain h | h := ft.repr_mem _ hx
    · exact h
    · exact absurd (Regex.subset_letters h hpoint) (by decide)
  have hread := ft.ofText_repr _ hx
  rcases lt_or_ge x 0 with hneg | hnonneg
  · rw [abs_of_neg hneg] at hrepr hread
    have hletters : '-' :: ft.repr (-x) ⊆ "0123456789.e-+".toList :=
      List.cons_subset.mpr ⟨by decide, repr_subset hrepr⟩
    have hmem : '-' :: ft.repr (-x) ∈ pointed.matches' :=
      pointed_of_repr hrepr (mem_optional (mem_oneOf.mpr ⟨'-', by decide, rfl⟩))
    simp only [strFloat, if_pos hneg]
    rw [resolve_pointed hmem hletters, (constructFloat_repr hrepr).2, hread, neg_neg]
  · rw [abs_of_nonneg hnonneg] at hrepr hread
    have hmem : ft.repr x ∈ pointed.matches' := pointed_of_repr hrepr nil_mem_optional
    simp only [strFloat, if_neg (not_lt.mpr hnonneg)]
    rw [resolve_pointed hmem (repr_subset hrepr), (constructFloat_repr hrepr).1, hread]

/-! ## Plain scalars -/

/-- What follows a plain scalar ends it. -/
def Ends (flow : Bool) (rest : Text) : Prop := ∀ c cs, rest = c :: cs → endsPlain flow c cs.head? = true

theorem takePlain_append {flow : Bool} {rest : Text} (h : ∀ c ∈ text, ∀ next, endsPlain flow c next = false)
    (hrest : Ends flow rest) : takePlain flow (text ++ rest) = (text, rest) := by
  induction text with
  | nil =>
      cases rest with
      | nil => rfl
      | cons c cs => simp [takePlain, hrest c cs rfl]
  | cons c text ih =>
      obtain ⟨hc, htext⟩ := List.forall_mem_cons.mp h
      simp [takePlain, hc, ih htext]

/-- Whether a key ends at its colon does not depend on the value. -/
theorem takePlain_key {flow : Bool} (h : takePlain flow (text ++ [':', ' ']) = (text, [':', ' '])) (cs : Text) :
    takePlain flow (text ++ ':' :: ' ' :: cs) = (text, ':' :: ' ' :: cs) := by
  have hcolon : endsPlain flow ':' (some ' ') = true := by cases flow <;> decide
  induction text with
  | nil => simp [takePlain, hcolon]
  | cons c text ih =>
      have hhead : (text ++ ':' :: ' ' :: cs).head? = (text ++ [':', ' ']).head? := by cases text <;> rfl
      simp only [List.cons_append, takePlain] at h ⊢
      rw [hhead]
      split at h
      · cases h
      · rename_i hgoes
        rw [Prod.mk.injEq, List.cons.injEq] at h
        rw [if_neg hgoes, ih (Prod.ext h.1.2 h.2)]

def numberLetters : Text := "0123456789.e-+".toList

/-- A digit first, or one behind a minus. -/
def NumberText (text : Text) : Prop :=
  text ⊆ numberLetters ∧ ∃ c rest, text = c :: rest ∧
    (c ∈ "0123456789".toList ∨ (c = '-' ∧ ∃ d more, rest = d :: more ∧ d ∈ "0123456789".toList))

theorem endsPlain_number {flow : Bool} {c : Char} (h : c ∈ numberLetters) (next : Option Char) :
    endsPlain flow c next = false := by
  have hplain : ∀ c ∈ numberLetters, lineBreak c = false ∧ flowIndicator c = false ∧ c ≠ '\t' ∧ c ≠ ':' ∧ c ≠ '?' ∧
      c ≠ ' ' := forall_mem_of_all (by decide)
  obtain ⟨hbreak, hflow, htab, hcolon, hmark, hspace⟩ := hplain c h
  simp [endsPlain, hbreak, hflow, htab, hcolon, hmark, hspace]

theorem startsPlain_number (flow : Bool) (h : NumberText text) (more : Text) :
    ∃ c rest, text = c :: rest ∧ startsPlain flow c (rest ++ more).head? = true := by
  have hdigit : ∀ c ∈ "0123456789".toList, indicator c = false ∧ white c = false :=
    forall_mem_of_all (by decide)
  obtain ⟨-, c, rest, rfl, hc | ⟨rfl, d, ds, rfl, hd⟩⟩ := h
  · exact ⟨c, rest, rfl, by simp [startsPlain, (hdigit c hc).1]⟩
  · exact ⟨'-', d :: ds, rfl, by simp [startsPlain, (hdigit d hd).2]⟩

theorem readPlain_number (flow : Bool) {rest : Text} {v : Yaml} (h : NumberText text) (hrest : Ends flow rest)
    (hresolve : resolve ft text = some v) : readPlain ft flow (text ++ rest) = some (v, rest) := by
  obtain ⟨c, cs, hcons, hstart⟩ := startsPlain_number flow h rest
  have htake : takePlain flow (text ++ rest) = (text, rest) :=
    takePlain_append (fun c hc => endsPlain_number (h.1 hc)) hrest
  have hstrip : text.rdropWhile (· = ' ') = text := by
    rw [List.rdropWhile_eq_self_iff]
    intro hne hspace
    have hlast := h.1 (List.getLast_mem hne)
    rw [of_decide_eq_true hspace] at hlast
    exact absurd hlast (by decide)
  rw [hcons, List.cons_append] at htake ⊢
  rw [hcons] at hstrip hresolve
  simp only [readPlain, hstart, if_true, htake, hstrip, hresolve, Option.map_some]

theorem numberText_toDigits : ∃ c rest, Nat.toDigits 10 n = c :: rest ∧ c ∈ "0123456789".toList := by
  obtain ⟨c, rest, heq⟩ := List.exists_cons_of_ne_nil (Nat.toDigits_ne_nil (n := n) (b := 10))
  exact ⟨c, rest, heq, toDigits_subset (by rw [heq]; exact List.mem_cons_self)⟩

theorem numberText_strInt {m : ℤ} : NumberText (strInt m) := by
  have hletters : "-0123456789".toList ⊆ numberLetters := by decide
  refine ⟨fun c hc => hletters (strInt_subset hc), ?_⟩
  cases m with
  | ofNat n =>
      obtain ⟨c, rest, heq, hc⟩ := numberText_toDigits (n := n)
      exact ⟨c, rest, heq, Or.inl hc⟩
  | negSucc n =>
      obtain ⟨c, rest, heq, hc⟩ := numberText_toDigits (n := n + 1)
      exact ⟨'-', _, rfl, Or.inr ⟨rfl, c, rest, heq, hc⟩⟩

theorem numberText_strFloat (hx : ft.IsFloat |x|) (hpoint : '.' ∈ ft.repr |x|) :
    NumberText (strFloat ft (.finite x)) := by
  have hrepr : ft.repr |x| ∈ reprPointed.matches' := by
    obtain h | h := ft.repr_mem _ hx
    · exact h
    · exact absurd (Regex.subset_letters h hpoint) (by decide)
  obtain ⟨c, rest, heq, hc⟩ := repr_head hrepr
  have hletters := repr_subset hrepr
  rcases lt_or_ge x 0 with hneg | hnonneg
  · rw [abs_of_neg hneg] at heq hletters
    simp only [strFloat, if_pos hneg]
    exact ⟨List.cons_subset.mpr ⟨by decide, hletters⟩, '-', _, rfl, Or.inr ⟨rfl, c, rest, heq, hc⟩⟩
  · rw [abs_of_nonneg hnonneg] at heq hletters
    simp only [strFloat, if_neg (not_lt.mpr hnonneg)]
    exact ⟨hletters, c, rest, heq, Or.inl hc⟩

/-! ## Keys -/

/-- A text with a letter that no number and no date has, and that is none of the words YAML knows. -/
theorem isWord_of_letters (hwords : text ∉ boolTexts ∧ text ∉ nullTexts ∧ text ≠ "<<".toList ∧ text ≠ "=".toList)
    (hfloat : ¬ text ⊆ Regex.letters floatRegex) (hint : ¬ text ⊆ Regex.letters intRegex)
    (htime : ¬ text ⊆ Regex.letters timestampRegex) : isWord text := by
  obtain ⟨hbool, hnull, hmerge, hvalue⟩ := hwords
  exact decide_eq_true ⟨hbool, Regex.rmatch_eq_false_of_letters hfloat, Regex.rmatch_eq_false_of_letters hint,
    hmerge, hnull, Regex.rmatch_eq_false_of_letters htime, hvalue⟩

theorem resolve_word (ft : FloatText) (h : isWord text) : resolve ft text = some (.str text) := by
  obtain ⟨hbool, hfloat, hint, hmerge, hnull, htime, hvalue⟩ := of_decide_eq_true h
  unfold resolve
  rw [if_neg hbool, hfloat, hint, if_neg hmerge, if_neg hnull, htime, if_neg hvalue]
  simp

structure PlainKey (flow : Bool) (key : Text) : Prop where
  short : key.length ≤ 1024
  printable : key.all printable
  cons : ∃ c rest, key = c :: rest ∧ startsPlain flow c (rest ++ [':', ' ']).head?
  takes : takePlain flow (key ++ [':', ' ']) = (key, [':', ' '])
  stripped : key.rdropWhile (· = ' ') = key
  word : isWord key

/-- A letter of an identifier in lower case. -/
def IdentifierLetter (c : Char) : Prop := (97 ≤ c.toNat ∧ c.toNat ≤ 122) ∨ (48 ≤ c.toNat ∧ c.toNat ≤ 57) ∨ c.toNat = 95

instance : DecidablePred IdentifierLetter := fun _ => inferInstanceAs (Decidable (_ ∨ _))

/-- Letters that no number and no date has. -/
def wordLetters : Text := ['g', 'h', 'l', 'm', 'p', 'r', 's']

/-- An identifier that is too long for the words YAML knows. -/
structure Identifier (text : Text) : Prop where
  long : 5 < text.length
  short : text.length ≤ 1024
  letters : ∀ c ∈ text, IdentifierLetter c
  word : ∃ c ∈ text, c ∈ wordLetters

theorem IdentifierLetter.not_special {c : Char} (h : IdentifierLetter c) :
    c ∉ ['\t', '\n', '\r', '\x7b', '\x7d'] ++ " -?:,[]#&*!|>'\"%@".toList := by
  have hspecial : ∀ d ∈ ['\t', '\n', '\r', '\x7b', '\x7d'] ++ " -?:,[]#&*!|>'\"%@".toList, ¬ IdentifierLetter d :=
    forall_mem_of_all (by decide)
  exact fun hmem => hspecial c hmem h

theorem IdentifierLetter.printable {c : Char} (h : IdentifierLetter c) : printable c = true := by
  have hprints : ' ' ≤ c ∧ c ≤ '~' := by
    change 32 ≤ c.toNat ∧ c.toNat ≤ 126
    unfold IdentifierLetter at h
    omega
  simp [Yaml.printable, hprints]

theorem IdentifierLetter.lineBreak {c : Char} (h : IdentifierLetter c) : lineBreak c = false := by
  have hspecial := h.not_special
  simp only [List.mem_append, List.mem_cons, not_or] at hspecial
  have hcode : c.toNat ≠ 0x85 ∧ c.toNat ≠ 0x2028 ∧ c.toNat ≠ 0x2029 := by
    unfold IdentifierLetter at h
    omega
  simp [Yaml.lineBreak, hspecial, hcode]

theorem IdentifierLetter.flowIndicator {c : Char} (h : IdentifierLetter c) : flowIndicator c = false := by
  have hspecial := h.not_special
  simp at hspecial
  simp [Yaml.flowIndicator, hspecial]

theorem IdentifierLetter.endsPlain {c : Char} (h : IdentifierLetter c) (flow : Bool) (next : Option Char) :
    endsPlain flow c next = false := by
  have hspecial := h.not_special
  simp at hspecial
  simp [Yaml.endsPlain, h.lineBreak, h.flowIndicator, hspecial]

theorem IdentifierLetter.startsPlain {c : Char} (h : IdentifierLetter c) (flow : Bool) (next : Option Char) :
    startsPlain flow c next = true := by
  have hspecial := h.not_special
  have hcode : c.toNat ≠ 0x60 := by
    unfold IdentifierLetter at h
    omega
  simp at hspecial
  have hindicator : indicator c = false := by
    simp [Yaml.indicator, Yaml.white, h.lineBreak, h.flowIndicator, hspecial, hcode]
  simp [Yaml.startsPlain, hindicator]
theorem Identifier.isWord (h : Identifier text) : isWord text := by
  obtain ⟨c, hc, hword⟩ := h.word
  have hletters : ∀ d ∈ wordLetters, d ∉ Regex.letters floatRegex ∧ d ∉ Regex.letters intRegex ∧
      d ∉ Regex.letters timestampRegex := forall_mem_of_all (by decide +kernel)
  obtain ⟨hfloat, hint, htime⟩ := hletters c hword
  have hshort : ∀ known ∈ boolTexts ++ nullTexts ++ ["<<".toList, "=".toList], known.length ≤ 5 := by decide
  have hknown : text ∉ boolTexts ++ nullTexts ++ ["<<".toList, "=".toList] := fun hmem =>
    absurd (hshort text hmem) (not_le.mpr h.long)
  simp only [List.mem_append, List.mem_cons, List.not_mem_nil, or_false, not_or] at hknown
  exact isWord_of_letters ⟨hknown.1.1, hknown.1.2, hknown.2⟩ (fun hsub => hfloat (hsub hc)) (fun hsub => hint (hsub hc))
    fun hsub => htime (hsub hc)

theorem Identifier.plainKey (h : Identifier text) : PlainKey false text where
  short := h.short
  printable := List.all_eq_true.mpr fun c hc => (h.letters c hc).printable
  cons := by
    cases text with
    | nil => exact absurd h.long (by decide)
    | cons c rest => exact ⟨c, rest, rfl, (h.letters c List.mem_cons_self).startsPlain _ _⟩
  takes := by
    refine takePlain_append (fun c hc next => (h.letters c hc).endsPlain false next) ?_
    intro c cs heq
    cases heq
    rfl
  stripped := by
    rw [List.rdropWhile_eq_self_iff]
    intro hne hspace
    have hlast := (h.letters _ (List.getLast_mem hne)).not_special
    rw [of_decide_eq_true hspace] at hlast
    exact hlast (by decide)
  word := h.isWord

theorem plainKey_iff {flow : Bool} {key : Text} : plainKey flow key = true ↔ PlainKey flow key := by
  cases key with
  | nil =>
      refine ⟨fun h => (by cases h), fun h => ?_⟩
      obtain ⟨c, rest, heq, -⟩ := h.cons
      cases heq
  | cons c rest =>
      constructor
      · intro h
        obtain ⟨hshort, hprintable, hstart, htakes, hstrip, hword⟩ := of_decide_eq_true h
        exact ⟨hshort, hprintable, ⟨c, rest, rfl, hstart⟩, htakes, hstrip, hword⟩
      · rintro ⟨hshort, hprintable, ⟨_, _, heq, hstart⟩, htakes, hstrip, hword⟩
        cases heq
        exact decide_eq_true ⟨hshort, hprintable, hstart, htakes, hstrip, hword⟩

theorem PlainKey.read {flow : Bool} {key : Text} (h : PlainKey flow key) (ft : FloatText) (cs : Text) :
    readPlain ft flow (key ++ ':' :: ' ' :: cs) = some (.str key, ':' :: ' ' :: cs) := by
  obtain ⟨c, rest, heq, hstart⟩ := h.cons
  have hhead : (rest ++ ':' :: ' ' :: cs).head? = (rest ++ [':', ' ']).head? := by cases rest <;> rfl
  have htake := takePlain_key h.takes cs
  have hstrip := h.stripped
  have hword := resolve_word ft h.word
  rw [heq] at htake hstrip hword ⊢
  rw [List.cons_append] at htake ⊢
  simp only [readPlain, hhead, hstart, if_true, htake, hstrip, hword, Option.map_some]

theorem takePlain_no_break (flow : Bool) (text : Text) {c : Char} (h : c ∈ (takePlain flow text).1) :
    lineBreak c = false := by
  induction text with
  | nil => cases h
  | cons d text ih =>
      rw [takePlain] at h
      split at h
      · cases h
      · rename_i hgoes
        obtain rfl | h := List.mem_cons.mp h
        · by_contra hbreak
          exact hgoes (by simp [endsPlain, Bool.not_eq_false _ ▸ hbreak])
        · exact ih h

theorem PlainKey.no_newline {flow : Bool} {key : Text} (h : PlainKey flow key) : '\n' ∉ key := by
  intro hc
  have hbreak : lineBreak '\n' = false := by
    refine takePlain_no_break flow (key ++ [':', ' ']) ?_
    rw [h.takes]
    exact hc
  exact absurd hbreak (by decide)

/-! ## Quoted texts -/

open JsonText (dumpsChar dumpsText hexDigits shortEscape)

theorem hexDigit?_digitChar {d : ℕ} (h : d < 16) : hexDigit? (Nat.digitChar d) = some d := by
  interval_cases d <;> decide

theorem hexChar?_hexDigits {c : Char} (h : c.toNat < 0x10000) : hexChar? (hexDigits c.toNat) = some c := by
  have hfirst : c.toNat / 4096 < 16 := by omega
  have hsecond : c.toNat / 256 % 16 < 16 := Nat.mod_lt _ (by decide)
  have hthird : c.toNat / 16 % 16 < 16 := Nat.mod_lt _ (by decide)
  have hfourth : c.toNat % 16 < 16 := Nat.mod_lt _ (by decide)
  have hvalue :
      ((c.toNat / 4096 * 16 + c.toNat / 256 % 16) * 16 + c.toNat / 16 % 16) * 16 + c.toNat % 16 = c.toNat := by omega
  have hvalid : c.toNat.isValidChar := c.valid
  simp only [hexChar?, hexDigits, List.map_cons, List.map_nil, List.mapM_cons, List.mapM_nil,
    hexDigit?_digitChar hfirst, hexDigit?_digitChar hsecond, hexDigit?_digitChar hthird, hexDigit?_digitChar hfourth, Option.pure_def,
    Option.bind_eq_bind, Option.bind_some, List.foldl_cons, List.foldl_nil, zero_mul, zero_add]
  rw [hvalue, if_pos hvalid, Char.ofNat_toNat]

theorem shortEscape_cases {c e : Char} (h : shortEscape c = some e) :
    escapes.lookup e = some c ∧ e ≠ 'x' ∧ e ≠ 'u' ∧ e ≠ 'U' ∧ 32 ≤ e.toNat ∧ e.toNat ≤ 126 := by
  have hall : ∀ entry ∈ [('\\', '\\'), ('"', '"'), ('\x08', 'b'), ('\x0c', 'f'), ('\n', 'n'), ('\r', 'r'), ('\t', 't')],
      escapes.lookup entry.2 = some entry.1 ∧ entry.2 ≠ 'x' ∧ entry.2 ≠ 'u' ∧ entry.2 ≠ 'U' ∧ 32 ≤ entry.2.toNat ∧
        entry.2.toNat ≤ 126 := by decide
  obtain ⟨before, after, heq, -⟩ := List.lookup_eq_some_iff.mp h
  exact hall (c, e) (by rw [heq]; simp)

theorem readQuoted_plain {c : Char} (hquote : c ≠ '"') (hslash : c ≠ '\\') (hbreak : lineBreak c = false)
    (rest : Text) :
    readQuoted (c :: rest) = (readQuoted rest).map fun (s, more) => (c :: s, more) := by
  rw [readQuoted.eq_def]
  split <;> simp_all

theorem readQuoted_escape {e : Char} (hx : e ≠ 'x') (hu : e ≠ 'u') (hU : e ≠ 'U') (rest : Text) :
    readQuoted ('\\' :: e :: rest) =
      (escapes.lookup e).bind fun c => (readQuoted rest).map fun (s, more) => (c :: s, more) := by
  rw [readQuoted] <;> simp_all

theorem char_le_iff {a b : Char} : a ≤ b ↔ a.toNat ≤ b.toNat := by
  rw [Char.le_def, UInt32.le_iff_toNat_le]
  rfl

theorem readQuoted_dumpsChar {c : Char} (h : c.toNat < 0x10000) (rest : Text) :
    readQuoted (dumpsChar c ++ rest) = (readQuoted rest).map fun (s, more) => (c :: s, more) := by
  unfold dumpsChar
  split
  · rename_i e he
    obtain ⟨hlookup, hx, hu, hU, -⟩ := shortEscape_cases he
    rw [List.cons_append, List.cons_append, List.nil_append, readQuoted_escape hx hu hU, hlookup, Option.bind_some]
  · rename_i hshort
    have hquote : c ≠ '"' := by
      rintro rfl
      cases hshort
    have hslash : c ≠ '\\' := by
      rintro rfl
      cases hshort
    split
    · rename_i hprint
      have hlow := char_le_iff.mp hprint.1
      have hhigh := char_le_iff.mp hprint.2
      have hbreak : lineBreak c = false := by
        have hnewline : c ≠ '\n' := by
          rintro rfl
          exact absurd hlow (by decide)
        have hreturn : c ≠ '\r' := by
          rintro rfl
          exact absurd hlow (by decide)
        simp only [Char.reduceToNat] at hhigh
        simp only [lineBreak, hnewline, hreturn, false_or, decide_eq_false_iff_not, not_or]
        omega
      exact readQuoted_plain hquote hslash hbreak rest
    · have hhex := hexChar?_hexDigits h
      simp only [hexDigits, List.map_cons, List.map_nil] at hhex
      simp only [JsonText.unicodeEscape, hexDigits, List.map_cons, List.map_nil, List.cons_append, List.nil_append]
      rw [readQuoted, hhex, Option.bind_some]

theorem readQuoted_dumps (h : ∀ c ∈ text, c.toNat < 0x10000) (rest : Text) :
    readQuoted (text.flatMap dumpsChar ++ '"' :: rest) = some (text, rest) := by
  induction text with
  | nil => rfl
  | cons c text ih =>
      obtain ⟨hc, htext⟩ := List.forall_mem_cons.mp h
      rw [List.flatMap_cons, List.append_assoc, readQuoted_dumpsChar hc, ih htext, Option.map_some]

theorem digitChar_ascii {d : ℕ} (h : d < 16) : 32 ≤ (Nat.digitChar d).toNat ∧ (Nat.digitChar d).toNat ≤ 126 := by
  interval_cases d <;> decide

/-- What `json.dumps` writes is made of the visible characters of ASCII. -/
theorem dumpsChar_ascii {c : Char} (h : c.toNat < 0x10000) : ∀ d ∈ dumpsChar c, 32 ≤ d.toNat ∧ d.toNat ≤ 126 := by
  unfold dumpsChar
  split
  · rename_i e he
    obtain ⟨-, -, -, -, hascii⟩ := shortEscape_cases he
    exact List.forall_mem_cons.mpr ⟨by decide, List.forall_mem_singleton.mpr hascii⟩
  · split
    · rename_i hprint
      exact List.forall_mem_singleton.mpr ⟨char_le_iff.mp hprint.1, char_le_iff.mp hprint.2⟩
    · simp only [JsonText.unicodeEscape, hexDigits, List.map_cons, List.map_nil, List.forall_mem_cons, List.not_mem_nil,
        false_implies, implies_true, and_true]
      exact ⟨by decide, by decide, digitChar_ascii (by omega), digitChar_ascii (Nat.mod_lt _ (by decide)),
        digitChar_ascii (Nat.mod_lt _ (by decide)), digitChar_ascii (Nat.mod_lt _ (by decide))⟩

/-! ## Nodes -/

/-- A text that stands for a scalar, in a collection and at the end of a line. -/
structure ScalarText (ft : FloatText) (text : Text) (v : Yaml) : Prop where
  flow : ∀ n rest, Ends true rest → readFlow ft (n + 1) (text ++ rest) = some (v, rest)
  line : readLineValue ft text = some v
  start : ∃ c rest, text = c :: rest ∧ c ∉ [' ', ']', '\x7d']
  ascii : ∀ c ∈ text, 32 ≤ c.toNat ∧ c.toNat ≤ 126

theorem ends_nil {flow : Bool} : Ends flow [] := by
  intro c cs heq
  cases heq

theorem readFlow_plain {c : Char} (hquote : c ≠ '"') (hseq : c ≠ '[') (hmap : c ≠ '\x7b') (cs : Text) :
    readFlow ft (n + 1) (c :: cs) = readPlain ft true (c :: cs) := by
  rw [readFlow] <;> simp_all

theorem readLineValue_plain {c : Char} {cs : Text} {v : Yaml} (hspace : c ≠ ' ') (hquote : c ≠ '"') (hseq : c ≠ '[')
    (hmap : c ≠ '\x7b') (h : readPlain ft false (c :: cs) = some (v, [])) : readLineValue ft (c :: cs) = some v := by
  have hskip : skipSpaces (c :: cs) = c :: cs := by simp [skipSpaces, hspace]
  unfold readLineValue
  rw [hskip]
  split
  · simp_all
  · simp_all
  · simp_all
  · simp [h, skipSpaces]

/-- **A number is read back.** -/
theorem scalarText_number {v : Yaml} (h : NumberText text) (hresolve : resolve ft text = some v) :
    ScalarText ft text v := by
  have hmarks : ∀ c ∈ numberLetters, c ≠ ' ' ∧ c ≠ '"' ∧ c ≠ '[' ∧ c ≠ '\x7b' ∧ c ∉ [' ', ']', '\x7d'] ∧ 32 ≤ c.toNat ∧
      c.toNat ≤ 126 := forall_mem_of_all (by decide)
  obtain ⟨c, cs, rfl, -⟩ := h.2
  obtain ⟨hspace, hquote, hseq, hmap, hstart, -⟩ := hmarks c (h.1 List.mem_cons_self)
  refine ⟨fun n rest hrest => ?_, ?_, ⟨c, cs, rfl, hstart⟩, fun d hd => (hmarks d (h.1 hd)).2.2.2.2.2⟩
  · rw [List.cons_append, readFlow_plain hquote hseq hmap]
    exact readPlain_number true h hrest hresolve
  · refine readLineValue_plain hspace hquote hseq hmap ?_
    have := readPlain_number false h ends_nil hresolve
    rwa [List.append_nil] at this

/-- **A quoted text is read back.** -/
theorem scalarText_dumps (h : ∀ c ∈ text, c.toNat < 0x10000) : ScalarText ft (dumpsText text) (.str text) := by
  have hread (n : ℕ) (rest : Text) : readFlow ft (n + 1) (dumpsText text ++ rest) = some (.str text, rest) := by
    have heq : dumpsText text ++ rest = '"' :: (text.flatMap dumpsChar ++ '"' :: rest) := by simp [dumpsText]
    rw [heq, readFlow, readQuoted_dumps h, Option.map_some]
  refine ⟨fun n rest _ => hread n rest, ?_, ⟨'"', _, rfl, by decide⟩, ?_⟩
  · have hline := hread (text.flatMap dumpsChar ++ ['"']).length []
    rw [List.append_nil] at hline
    have hskip : skipSpaces (dumpsText text) = dumpsText text := by simp [skipSpaces, dumpsText]
    unfold readLineValue
    rw [hskip]
    simp only [dumpsText] at hline ⊢
    rw [hline]
    simp [skipSpaces]
  · intro c hc
    simp only [dumpsText, List.mem_cons, List.mem_append, List.mem_flatMap, List.not_mem_nil, or_false] at hc
    obtain rfl | ⟨d, hd, hc⟩ | rfl := hc
    · decide
    · exact dumpsChar_ascii (h d hd) c hc
    · decide

/-! ## Collections -/

attribute [local simp] readItems readEntries

theorem readItems_space (cs : Text) : readItems ft n (' ' :: cs) = readItems ft n cs := by
  cases n with
  | zero => rfl
  | succ n =>
      have hskip : skipSpaces (' ' :: cs) = skipSpaces cs := by simp [skipSpaces]
      simp [hskip]

theorem ScalarText.skip {v : Yaml} (h : ScalarText ft text v) (rest : Text) :
    skipSpaces (text ++ rest) = text ++ rest := by
  obtain ⟨c, cs, rfl, hc⟩ := h.start
  simp only [List.mem_cons, not_or] at hc
  simp [skipSpaces, hc.1]

theorem skipSpaces_mark {c : Char} (h : c ≠ ' ') (cs : Text) : skipSpaces (c :: cs) = c :: cs := by
  simp [skipSpaces, h]

theorem skipSpaces_space (cs : Text) : skipSpaces (' ' :: cs) = skipSpaces cs := by
  simp [skipSpaces]

theorem ends_mark {c : Char} (h : flowIndicator c = true) (rest : Text) : Ends true (c :: rest) := by
  intro d cs heq
  cases heq
  simp [endsPlain, h]

theorem ScalarText.head_ne {v : Yaml} (h : ScalarText ft text v) {c : Char} (hc : c ∈ [' ', ']', '\x7d'])
    (rest more : Text) : text ++ rest ≠ c :: more := by
  obtain ⟨d, cs, rfl, hd⟩ := h.start
  rintro heq
  cases heq
  exact hd hc

theorem readItems_last {v : Yaml} (h : ScalarText ft text v) (rest : Text) :
    readItems ft (n + 2) (text ++ ']' :: rest) = some ([v], rest) := by
  have hread := h.flow n (']' :: rest) (ends_mark (by decide) rest)
  rw [readItems, h.skip]
  split
  · rename_i heq
    exact (h.head_ne (c := ']') (by simp) _ _ heq).elim
  · rw [hread]
    rfl

theorem readItems_next {v : Yaml} (h : ScalarText ft text v) (rest : Text) :
    readItems ft (n + 2) (text ++ ',' :: rest) =
      (readItems ft (n + 1) rest).map fun (xs, more) => (v :: xs, more) := by
  have hread := h.flow n (',' :: rest) (ends_mark (by decide) rest)
  rw [readItems, h.skip]
  split
  · rename_i heq
    exact (h.head_ne (c := ']') (by simp) _ _ heq).elim
  · rw [hread]
    rfl

/-- The items of a sequence. -/
theorem readItems_intercalate {entries : List (Text × Yaml)} (h : ∀ e ∈ entries, ScalarText ft e.1 e.2)
    (hn : entries.length < n) (rest : Text) :
    readItems ft n ([',', ' '].intercalate (entries.map Prod.fst) ++ ']' :: rest) =
      some (entries.map Prod.snd, rest) := by
  induction entries generalizing n with
  | nil =>
      obtain ⟨m, rfl⟩ := Nat.exists_eq_succ_of_ne_zero (Nat.pos_iff_ne_zero.mp hn)
      rw [readItems]
      rfl
  | cons entry entries ih =>
      obtain ⟨hentry, hentries⟩ := List.forall_mem_cons.mp h
      rw [List.length_cons] at hn
      obtain ⟨m, rfl⟩ : ∃ m, n = m + 2 := ⟨n - 2, by omega⟩
      cases entries with
      | nil =>
          rw [List.map_singleton, List.intercalate_singleton, readItems_last hentry]
          rfl
      | cons next entries =>
          have hrest := ih hentries (n := m + 1) (by omega)
          rw [List.map_cons, List.map_cons, List.intercalate_cons_cons, ← List.map_cons, List.append_assoc,
            List.append_assoc, List.cons_append, List.cons_append, List.nil_append, readItems_next hentry,
            readItems_space, hrest]
          rfl

/-- The first character of a key opens nothing else. -/
theorem PlainKey.head_ne {key : Text} (h : PlainKey true key) {c : Char} (hc : c ∈ [' ', '"', '[', '\x7b', '\x7d'])
    (rest more : Text) : key ++ rest ≠ c :: more := by
  have hmarks : ∀ c ∈ [' ', '"', '[', '\x7b', '\x7d'], indicator c = true ∧ c ≠ '-' :=
    forall_mem_of_all (by decide)
  obtain ⟨d, cs, rfl, hd⟩ := h.cons
  rintro heq
  cases heq
  obtain ⟨hindicator, hminus⟩ := hmarks _ hc
  simp [startsPlain, hindicator, hminus] at hd

theorem PlainKey.flow {key : Text} (h : PlainKey true key) (cs : Text) :
    readFlow ft (n + 1) (key ++ ':' :: ' ' :: cs) = some (.str key, ':' :: ' ' :: cs) := by
  have hread := h.read ft cs
  obtain ⟨c, rest, rfl, -⟩ := h.cons
  have hquote : c ≠ '"' := fun heq => h.head_ne (c := '"') (by simp) [] rest (by simp [heq])
  have hseq : c ≠ '[' := fun heq => h.head_ne (c := '[') (by simp) [] rest (by simp [heq])
  have hmap : c ≠ '\x7b' := fun heq => h.head_ne (c := '\x7b') (by simp) [] rest (by simp [heq])
  rw [List.cons_append] at hread ⊢
  rw [readFlow_plain hquote hseq hmap, hread]

theorem PlainKey.skip {key : Text} (h : PlainKey true key) (rest : Text) :
    skipSpaces (key ++ rest) = key ++ rest := by
  obtain ⟨c, cs, rfl, -⟩ := h.cons
  have hspace : c ≠ ' ' := fun heq => h.head_ne (c := ' ') (by simp) [] cs (by simp [heq])
  exact skipSpaces_mark hspace _

theorem lookup_append {items more : List (Yaml × Yaml)} {key : Text} (h : lookup key items = none) :
    lookup key (items ++ more) = lookup key more := by
  induction items with
  | nil => rfl
  | cons item items ih =>
      obtain ⟨k, v⟩ := item
      cases k with
      | str k =>
          simp only [List.cons_append, lookup] at h ⊢
          split at h
          · cases h
          · rename_i hne
            rw [if_neg hne, ih h]
      | _ => exact ih h

theorem put_new {items : List (Yaml × Yaml)} {key : Text} (h : lookup key items = none) (v : Yaml) :
    put items (.str key) v = items ++ [(.str key, v)] := by
  simp [put, h]

/-- The text of an entry: a key without quotes, and the scalar it stands for. -/
def entryText (entry : Text × Text × Yaml) : Text := entry.1 ++ [':', ' '] ++ entry.2.1

def entryItem (entry : Text × Text × Yaml) : Yaml × Yaml := (.str entry.1, entry.2.2)

structure EntryReads (ft : FloatText) (entry : Text × Text × Yaml) : Prop where
  key : PlainKey true entry.1
  value : ScalarText ft entry.2.1 entry.2.2

variable {entry : Text × Text × Yaml} {items : List (Yaml × Yaml)}

/-- An entry is put into the mapping, and what follows it decides how the reading goes on. -/
theorem readEntries_entry (h : EntryReads ft entry) {c : Char} (hc : flowIndicator c = true) (rest : Text) :
    readEntries ft (n + 2) items (entryText entry ++ c :: rest) =
      match c :: rest with
      | '\x7d' :: rest => some (put items (.str entry.1) entry.2.2, rest)
      | ',' :: rest => readEntries ft (n + 1) (put items (.str entry.1) entry.2.2) rest
      | _ => none := by
  have heq : entryText entry ++ c :: rest = entry.1 ++ ':' :: ' ' :: (entry.2.1 ++ c :: rest) := by
    simp [entryText]
  have hvalue := h.value.flow n (c :: rest) (ends_mark hc rest)
  have hlength := h.key.short
  have hmark : c ≠ ' ' := by
    rintro rfl
    cases hc
  rw [heq, readEntries, h.key.skip]
  split
  · rename_i hclose
    exact (h.key.head_ne (c := '\x7d') (by simp) _ _ hclose).elim
  · simp only [h.key.flow]
    rw [skipSpaces_mark (by decide)]
    simp only
    rw [skipSpaces_space, h.value.skip, hvalue, if_pos ⟨rfl, by simp only [List.length_append]; omega⟩]
    simp only
    rw [skipSpaces_mark hmark]
    rfl

theorem readEntries_space (cs : Text) : readEntries ft n items (' ' :: cs) = readEntries ft n items cs := by
  cases n with
  | zero => rfl
  | succ n => simp [skipSpaces_space]

/-- The entries of a mapping, none of whose keys is there yet. -/
theorem readEntries_intercalate {entries : List (Text × Text × Yaml)} (h : ∀ e ∈ entries, EntryReads ft e)
    (hkeys : (entries.map Prod.fst).Nodup) (hnew : ∀ e ∈ entries, lookup e.1 items = none) (hn : entries.length < n)
    (rest : Text) :
    readEntries ft n items ([',', ' '].intercalate (entries.map entryText) ++ '\x7d' :: rest) =
      some (items ++ entries.map entryItem, rest) := by
  induction entries generalizing n items with
  | nil =>
      obtain ⟨m, rfl⟩ := Nat.exists_eq_succ_of_ne_zero (Nat.pos_iff_ne_zero.mp hn)
      rw [readEntries]
      simp [skipSpaces]
  | cons entry entries ih =>
      obtain ⟨hentry, hentries⟩ := List.forall_mem_cons.mp h
      obtain ⟨hfresh, hlater⟩ := List.forall_mem_cons.mp hnew
      rw [List.map_cons, List.nodup_cons] at hkeys
      rw [List.length_cons] at hn
      obtain ⟨m, rfl⟩ : ∃ m, n = m + 2 := ⟨n - 2, by omega⟩
      have hput := put_new hfresh entry.2.2
      cases entries with
      | nil =>
          rw [List.map_singleton, List.intercalate_singleton, readEntries_entry hentry (by decide), hput]
          rfl
      | cons next entries =>
          have hstill : ∀ e ∈ next :: entries, lookup e.1 (items ++ [entryItem entry]) = none := by
            intro e he
            have hne : entry.1 ≠ e.1 := fun heq => hkeys.1 (heq ▸ List.mem_map_of_mem he)
            rw [lookup_append (hlater e he)]
            simp [entryItem, lookup, hne]
          have hrest := ih hentries hkeys.2 hstill (n := m + 1) (by omega)
          rw [List.map_cons, List.map_cons, List.intercalate_cons_cons, ← List.map_cons, List.append_assoc,
            List.append_assoc, List.cons_append, List.cons_append, List.nil_append,
            readEntries_entry hentry (by decide), hput]
          simp only
          rw [readEntries_space]
          refine hrest.trans ?_
          simp

/-! ## Lines and documents -/

theorem length_le_intercalate {sep : Text} {texts : List Text} (h : ∀ t ∈ texts, t ≠ []) :
    texts.length ≤ (sep.intercalate texts).length := by
  induction texts with
  | nil => simp
  | cons t texts ih =>
      obtain ⟨ht, htexts⟩ := List.forall_mem_cons.mp h
      have hpos : 0 < t.length := List.length_pos_iff.mpr ht
      have hrest := ih htexts
      cases texts with
      | nil =>
          rw [List.intercalate_singleton]
          exact hpos
      | cons u texts =>
          rw [List.intercalate_cons_cons]
          simp only [List.length_append, List.length_cons] at hrest ⊢
          omega

theorem ScalarText.ne_nil {v : Yaml} (h : ScalarText ft text v) : text ≠ [] := by
  obtain ⟨c, cs, rfl, -⟩ := h.start
  simp

theorem readLineValue_seq {entries : List (Text × Yaml)} (h : ∀ e ∈ entries, ScalarText ft e.1 e.2) :
    readLineValue ft ('[' :: ([',', ' '].intercalate (entries.map Prod.fst) ++ [']'])) =
      some (.seq (entries.map Prod.snd)) := by
  have hlength : (entries.map Prod.fst).length ≤ ([',', ' '].intercalate (entries.map Prod.fst)).length := by
    refine length_le_intercalate fun t ht => ?_
    obtain ⟨e, he, rfl⟩ := List.mem_map.mp ht
    exact (h e he).ne_nil
  rw [List.length_map] at hlength
  unfold readLineValue
  rw [skipSpaces_mark (by decide)]
  simp only [readFlow]
  rw [readItems_intercalate h (by simp only [List.length_append, List.length_singleton]; omega)]
  rfl

theorem readLineValue_map {entries : List (Text × Text × Yaml)} (h : ∀ e ∈ entries, EntryReads ft e)
    (hkeys : (entries.map Prod.fst).Nodup) :
    readLineValue ft ('\x7b' :: ([',', ' '].intercalate (entries.map entryText) ++ ['\x7d'])) =
      some (.map (entries.map entryItem)) := by
  have hlength : (entries.map entryText).length ≤ ([',', ' '].intercalate (entries.map entryText)).length := by
    refine length_le_intercalate fun t ht => ?_
    obtain ⟨e, he, rfl⟩ := List.mem_map.mp ht
    simp [entryText]
  rw [List.length_map] at hlength
  unfold readLineValue
  rw [skipSpaces_mark (by decide)]
  simp only [readFlow]
  rw [readEntries_intercalate h hkeys (fun _ _ => rfl)
    (by simp only [List.length_append, List.length_singleton]; omega)]
  rfl

/-- A line: a key, and a value that is read from the rest of it. -/
structure LineReads (ft : FloatText) (entry : Text × Text × Yaml) : Prop where
  key : PlainKey false entry.1
  value : readLineValue ft entry.2.1 = some entry.2.2
  inline : ∀ c ∈ entry.2.1, printable c ∧ c ≠ '\n'

theorem LineReads.read (h : LineReads ft entry) : readLine ft (entryText entry) = some (entryItem entry) := by
  have heq : entryText entry = entry.1 ++ ':' :: ' ' :: entry.2.1 := by simp [entryText]
  have hlength := h.key.short
  unfold readLine
  rw [heq, h.key.read ft]
  simp only
  rw [if_pos (by simp only [List.length_append, List.length_cons]; omega), h.value]
  rfl

theorem LineReads.entry_inline (h : LineReads ft entry) : ∀ c ∈ entryText entry, printable c ∧ c ≠ '\n' := by
  intro c hc
  simp only [entryText, List.mem_append, List.mem_cons, List.not_mem_nil, or_false] at hc
  obtain (hc | rfl | rfl) | hc := hc
  · refine ⟨List.all_eq_true.mp h.key.printable c hc, ?_⟩
    rintro rfl
    exact h.key.no_newline hc
  · exact ⟨by decide, by decide⟩
  · exact ⟨by decide, by decide⟩
  · exact h.inline c hc

theorem foldl_put {entries : List (Text × Text × Yaml)} (hkeys : (entries.map Prod.fst).Nodup)
    (hnew : ∀ e ∈ entries, lookup e.1 items = none) :
    (entries.map entryItem).foldl (fun items entry => put items entry.1 entry.2) items =
      items ++ entries.map entryItem := by
  induction entries generalizing items with
  | nil => simp
  | cons entry entries ih =>
      obtain ⟨hfresh, hlater⟩ := List.forall_mem_cons.mp hnew
      rw [List.map_cons, List.nodup_cons] at hkeys
      have hput : put items (entryItem entry).1 (entryItem entry).2 = items ++ [entryItem entry] := put_new hfresh _
      have hstill : ∀ e ∈ entries, lookup e.1 (items ++ [entryItem entry]) = none := by
        intro e he
        have hne : entry.1 ≠ e.1 := fun heq => hkeys.1 (heq ▸ List.mem_map_of_mem he)
        rw [lookup_append (hlater e he)]
        simp [entryItem, lookup, hne]
      rw [List.map_cons, List.foldl_cons, hput, ih hkeys.2 hstill]
      simp

/-- **A document of such lines is read back.** -/
theorem safeLoad_lines {entries : List (Text × Text × Yaml)} (h : ∀ e ∈ entries, LineReads ft e)
    (hkeys : (entries.map Prod.fst).Nodup) (hne : entries ≠ []) :
    safeLoad ft (['\n'].intercalate (entries.map entryText) ++ ['\n']) = some (.map (entries.map entryItem)) := by
  have hprintable : (['\n'].intercalate (entries.map entryText) ++ ['\n']).all printable = true := by
    rw [List.all_eq_true]
    intro c hc
    obtain hc | hc := List.mem_append.mp hc
    · obtain hc | ⟨t, ht, hc⟩ := mem_intercalate hc
      · rw [List.mem_singleton.mp hc]
        decide
      · obtain ⟨e, he, rfl⟩ := List.mem_map.mp ht
        exact ((h e he).entry_inline c hc).1
    · rw [List.mem_singleton.mp hc]
      decide
  have hsplit : (['\n'].intercalate (entries.map entryText) ++ ['\n']).splitOn '\n' =
      entries.map entryText ++ [[]] := by
    rw [List.splitOn_append_cons_of_beq _ _ (by decide), List.splitOn_intercalate]
    · rfl
    · intro t ht hc
      obtain ⟨e, he, rfl⟩ := List.mem_map.mp ht
      exact ((h e he).entry_inline _ hc).2 rfl
    · simpa using hne
  have hlines : (entries.map entryText ++ [[]]).filter (· ≠ []) = entries.map entryText := by
    have hkeep : (entries.map entryText).filter (· ≠ []) = entries.map entryText := by
      rw [List.filter_eq_self]
      intro t ht
      obtain ⟨e, -, rfl⟩ := List.mem_map.mp ht
      simp [entryText]
    rw [List.filter_append, hkeep]
    exact List.append_nil _
  have hread : (entries.map entryText).mapM (readLine ft) = some (entries.map entryItem) := by
    clear hprintable hsplit hlines hkeys hne
    induction entries with
    | nil => rfl
    | cons entry entries ih =>
        obtain ⟨hentry, hentries⟩ := List.forall_mem_cons.mp h
        simp [hentry.read, ih hentries]
  unfold safeLoad
  rw [if_pos hprintable, hsplit, hlines, hread, Option.map_some, foldl_put hkeys fun _ _ => rfl, List.nil_append]

end CryptoAggHarmonic.Yaml
