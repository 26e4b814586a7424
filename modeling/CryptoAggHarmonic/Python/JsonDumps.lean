import CryptoAggHarmonic.Python.Lemmas.JsonText
import CryptoAggHarmonic.Python.Lemmas.YamlText

/-!
# `json.dumps`

The text of a value, with or without an indent. The reader of JSON gives the value back.
-/

namespace CryptoAggHarmonic.JsonText

open PyOs (Text)

/-! ## The writer -/

/-- Where a line begins: nothing without an indent. -/
def newline (indent : Option ℕ) (level : ℕ) : Text :=
  match indent with
  | none => []
  | some n => '\n' :: List.replicate (n * level) ' '

/-- What stands behind a comma. -/
def between (indent : Option ℕ) (level : ℕ) : Text :=
  match indent with
  | none => [' ']
  | some n => newline (some n) level

/-- `float.__repr__`, with the names of the encoder for the floats that are no numbers. -/
def dumpsFloat (ft : Yaml.FloatText) : PyFloat → Text
  | .nan => "NaN".toList
  | .posInf => "Infinity".toList
  | .negInf => "-Infinity".toList
  | .finite x => Yaml.strFloat ft (.finite x)

def memberKey : Yaml → Text
  | .str s => s
  | _ => []

section

variable (ft : Yaml.FloatText) (indent : Option ℕ)

mutual

/-- The text of a value that a file of JSON can hold, so many brackets deep. -/
def dumpsAt : ℕ → Yaml → Text
  | _, .null => "null".toList
  | _, .bool b => if b then "true".toList else "false".toList
  | _, .int n => Yaml.strInt n
  | _, .float x => dumpsFloat ft x
  | _, .str s => dumpsText s
  | _, .seq [] => ['[', ']']
  | level, .seq (x :: xs) =>
      '[' :: (newline indent (level + 1) ++ (dumpsAt (level + 1) x ++ dumpsElements level xs))
  | _, .map [] => ['\x7b', '\x7d']
  | level, .map ((key, v) :: items) =>
      '\x7b' :: (newline indent (level + 1) ++
        (dumpsText (memberKey key) ++ ':' :: ' ' :: (dumpsAt (level + 1) v ++ dumpsMembers level items)))
  | _, _ => []

/-- The elements behind the first, and the bracket. -/
def dumpsElements : ℕ → List Yaml → Text
  | level, [] => newline indent level ++ [']']
  | level, x :: xs => ',' :: (between indent (level + 1) ++ (dumpsAt (level + 1) x ++ dumpsElements level xs))

def dumpsMembers : ℕ → List (Yaml × Yaml) → Text
  | level, [] => newline indent level ++ ['\x7d']
  | level, (key, v) :: items =>
      ',' :: (between indent (level + 1) ++
        (dumpsText (memberKey key) ++ ':' :: ' ' :: (dumpsAt (level + 1) v ++ dumpsMembers level items)))

end

/-- `json.dumps(value, indent=indent)` -/
def dumps (v : Yaml) : Text := dumpsAt ft indent 0 v

end

/-- The floats with their `repr`, which begins with no zero but the one before the point or the exponent. -/
structure ReprText extends Yaml.FloatText where
  no_leading_zero : ∀ x, IsFloat x → ∀ t, repr x = '0' :: t → NoDigit t

variable {ft : ReprText}

def IsNumber (ft : ReprText) : PyFloat → Prop
  | .finite x => ft.IsFloat |x|
  | _ => True

/-- The members of an object as they are read. -/
def members (items : List (Text × Yaml)) : List (Yaml × Yaml) := items.map fun item => (.str item.1, item.2)

/-- The values of JSON: the keys of an object are texts, and differ. -/
inductive IsJson (ft : ReprText) : Yaml → Prop
  | null : IsJson ft .null
  | bool (b : Bool) : IsJson ft (.bool b)
  | int (n : ℤ) : IsJson ft (.int n)
  | float {x : PyFloat} (h : IsNumber ft x) : IsJson ft (.float x)
  | str (s : Text) : IsJson ft (.str s)
  | seq {xs : List Yaml} (h : ∀ x ∈ xs, IsJson ft x) : IsJson ft (.seq xs)
  | map {items : List (Text × Yaml)} (hkeys : (items.map Prod.fst).Nodup) (h : ∀ item ∈ items, IsJson ft item.2) :
      IsJson ft (.map (members items))

/-! ## Numbers -/

section

variable {s u whole fraction exponent : Text} {n : ℕ} {c : Char} {minus : Bool} {v : Yaml}

/-- The parts of a number as they are written. -/
structure NumberParts (whole fraction exponent : Text) : Prop where
  nonempty : whole ≠ []
  digits : ∀ c ∈ whole, c.isDigit = true
  leading : ∀ t, whole = '0' :: t → t = []
  fraction : fraction = [] ∨ ∃ ds, ds ≠ [] ∧ (∀ c ∈ ds, c.isDigit = true) ∧ fraction = '.' :: ds
  exponent : exponent = [] ∨ ∃ sign ds, (sign = '-' ∨ sign = '+') ∧ ds ≠ [] ∧ (∀ c ∈ ds, c.isDigit = true) ∧
    exponent = 'e' :: sign :: ds

theorem NumberParts.read_exponent (h : NumberParts whole fraction exponent) : exponentPart exponent = exponent := by
  obtain rfl | ⟨sign, ds, hsign, hds, hdigits, rfl⟩ := h.exponent
  · rfl
  · have htake : ds.takeWhile Char.isDigit = ds := List.takeWhile_eq_self_iff.mpr hdigits
    have hno : sign.isDigit = false := by obtain rfl | rfl := hsign <;> decide
    simp [exponentPart, htake, hno, hsign, hds]

theorem NumberParts.read_fraction (h : NumberParts whole fraction exponent) :
    fractionPart (fraction ++ exponent) = fraction := by
  have hbehind := behind_exponent exponent (r := []) (by simp [Ends])
  rw [h.read_exponent, List.append_nil] at hbehind
  have hself : fractionPart fraction = fraction := by
    obtain rfl | ⟨ds, hds, hdigits, rfl⟩ := h.fraction
    · rfl
    · simp [fractionPart, List.takeWhile_eq_self_iff.mpr hdigits, hds]
  have happend : fractionPart (fractionPart fraction ++ exponent) = fractionPart fraction :=
    fractionPart_append hbehind.1 hbehind.2
  rwa [hself] at happend

theorem NumberParts.read_whole (h : NumberParts whole fraction exponent) :
    wholePart (whole ++ (fraction ++ exponent)) = whole := by
  have hself : wholePart whole = whole := by
    obtain ⟨c, t, rfl⟩ := List.exists_cons_of_ne_nil h.nonempty
    by_cases hzero : c = '0'
    · subst hzero
      rw [h.leading t rfl]
      rfl
    · rw [wholePart_of_ne (by simpa using hzero)]
      exact List.takeWhile_eq_self_iff.mpr h.digits
  have hbehind := behind_exponent exponent (r := []) (by simp [Ends])
  rw [h.read_exponent, List.append_nil] at hbehind
  have hdigit := noDigit_fraction (fraction ++ exponent) hbehind.1
  rw [h.read_fraction] at hdigit
  have happend : wholePart (wholePart whole ++ (fraction ++ exponent)) = wholePart whole := wholePart_append hdigit
  rwa [hself] at happend

theorem NumberParts.read (h : NumberParts whole fraction exponent) (ft : Yaml.FloatText) (minus : Bool) :
    unsigned ft minus (whole ++ (fraction ++ exponent)) = some (numberOf ft minus whole fraction exponent, []) := by
  have hread := unsigned_parts (r := []) ft minus (by simpa using h.read_whole) (by simpa using h.read_fraction)
    (by simpa using h.read_exponent)
  rw [if_neg h.nonempty] at hread
  simpa using hread

theorem scalarText_closed {ft : Yaml.FloatText} (hread : readScalar ft u = some (v, [])) : ScalarText ft u v := by
  obtain ⟨w, hw, htext⟩ := exists_scalarText hread
  rw [List.append_nil] at hw
  rwa [hw]

/-- A number with its sign is read from its text. -/
theorem NumberParts.scalarText (h : NumberParts whole fraction exponent) (ft : Yaml.FloatText) :
    ScalarText ft (whole ++ (fraction ++ exponent)) (numberOf ft false whole fraction exponent) ∧
      ScalarText ft ('-' :: (whole ++ (fraction ++ exponent))) (numberOf ft true whole fraction exponent) := by
  obtain ⟨c, t, rfl⟩ := List.exists_cons_of_ne_nil h.nonempty
  have hc : c.isDigit = true := h.digits c List.mem_cons_self
  have hminus : c ≠ '-' := by
    rintro rfl
    cases hc
  constructor
  · refine scalarText_closed ?_
    rw [List.cons_append, readScalar_number fun constant hmem => (notPrefix_digit hc hmem).1,
      readNumber_of_ne (by simpa using hminus), ← List.cons_append]
    exact h.read ft false
  · refine scalarText_closed ?_
    rw [List.cons_append, readScalar_number fun constant hmem => (notPrefix_digit hc hmem).2, readNumber_minus,
      ← List.cons_append]
    exact h.read ft true

theorem isDigit_of_mem_digits (h : c ∈ "0123456789".toList) : c.isDigit = true := by
  have hall : ∀ c ∈ "0123456789".toList, c.isDigit = true := Yaml.forall_mem_of_all (by decide)
  exact hall c h

theorem numberParts_toDigits (n : ℕ) : NumberParts (Nat.toDigits 10 n) [] [] := by
  refine ⟨Nat.toDigits_ne_nil, fun c hc => isDigit_of_mem_digits (Yaml.toDigits_subset hc), ?_, Or.inl rfl, Or.inl rfl⟩
  intro t ht
  by_cases hn : n = 0
  · subst hn
    rw [Nat.toDigits_zero] at ht
    cases ht
    rfl
  · obtain ⟨c, rest, heq, hc, -⟩ := Yaml.toDigits_shape hn
    rw [heq] at ht
    cases ht
    exact absurd hc (by decide)

theorem scalarText_strInt (ft : Yaml.FloatText) (n : ℤ) : ScalarText ft (Yaml.strInt n) (.int n) := by
  have hnumber (m : ℕ) := (numberParts_toDigits m).scalarText ft
  simp only [List.append_nil, numberOf, and_self, if_true, Nat.ofDigitChars_ten_toDigits] at hnumber
  cases n with
  | ofNat m => exact (hnumber m).1
  | negSucc m => exact (hnumber (m + 1)).2

open Yaml in
open RegularExpression (char) in
/-- The parts of a `repr`. -/
theorem exists_numberParts {text : Text} (h : text ∈ (reprPointed + reprPointless).matches')
    (hzero : ∀ t, text = '0' :: t → NoDigit t) : ∃ whole fraction exponent, text = whole ++ (fraction ++ exponent) ∧
      NumberParts whole fraction exponent ∧ ¬(fraction = [] ∧ exponent = []) := by
  have hexponent {text : Text} (h : text ∈ (char 'e' * oneOf "-+".toList * many digit).matches') :
      ∃ sign ds, (sign = '-' ∨ sign = '+') ∧ ds ≠ [] ∧ (∀ c ∈ ds, c.isDigit = true) ∧ text = 'e' :: sign :: ds := by
    obtain ⟨front, hfront, digits, hdigits, rfl⟩ := Language.mem_mul.mp h
    obtain ⟨e, he, s, hs, rfl⟩ := Language.mem_mul.mp hfront
    obtain ⟨sign, hsign, rfl⟩ := mem_oneOf.mp hs
    obtain ⟨c, rest, rfl, hc, hrest⟩ := mem_many hdigits
    cases he
    refine ⟨sign, c :: rest, by simpa using hsign, List.cons_ne_nil _ _, ?_, rfl⟩
    exact List.forall_mem_cons.mpr ⟨isDigit_of_mem_digits hc, fun d hd => isDigit_of_mem_digits (hrest d hd)⟩
  have hleading {c : Char} {rest more : Text} (hdigits : ∀ d ∈ c :: rest, d.isDigit = true)
      (htext : text = c :: rest ++ more) : ∀ t, c :: rest = '0' :: t → t = [] := by
    rintro t ht
    cases ht
    cases rest with
    | nil => rfl
    | cons d rest =>
        have hno := hzero _ htext d rfl
        rw [hdigits d (by simp)] at hno
        cases hno
  obtain h | h := h
  · obtain ⟨decimal, hdecimal, exp, hexp, rfl⟩ := Language.mem_mul.mp h
    obtain ⟨upto, hupto, frac, hfrac, rfl⟩ := Language.mem_mul.mp hdecimal
    obtain ⟨whole, hwhole, point, hpoint, rfl⟩ := Language.mem_mul.mp hupto
    obtain ⟨c, rest, rfl, hc, hrest⟩ := mem_many hwhole
    obtain ⟨d, more, rfl, hd, hmore⟩ := mem_many hfrac
    cases hpoint
    have hdigits : ∀ e ∈ c :: rest, e.isDigit = true :=
      List.forall_mem_cons.mpr ⟨isDigit_of_mem_digits hc, fun e he => isDigit_of_mem_digits (hrest e he)⟩
    have hfraction : ∀ e ∈ d :: more, e.isDigit = true :=
      List.forall_mem_cons.mpr ⟨isDigit_of_mem_digits hd, fun e he => isDigit_of_mem_digits (hmore e he)⟩
    refine ⟨c :: rest, '.' :: d :: more, exp, by simp, ⟨List.cons_ne_nil _ _, hdigits, ?_, ?_, ?_⟩, by simp⟩
    · exact hleading hdigits (by simp; rfl)
    · exact Or.inr ⟨d :: more, List.cons_ne_nil _ _, hfraction, rfl⟩
    · obtain hexp | hexp := hexp
      · exact Or.inl hexp
      · exact Or.inr (hexponent hexp)
  · obtain ⟨front, hfront, digits, hdigits, rfl⟩ := Language.mem_mul.mp h
    obtain ⟨start, hstart, s, hs, rfl⟩ := Language.mem_mul.mp hfront
    obtain ⟨whole, hwhole, e, he, rfl⟩ := Language.mem_mul.mp hstart
    obtain ⟨c, hc, rfl⟩ := mem_oneOf.mp hwhole
    obtain ⟨sign, ds, hsign, hds, hds', hexp⟩ := hexponent (append_mem (append_mem he hs) hdigits)
    refine ⟨[c], [], 'e' :: sign :: ds, by rw [← hexp]; simp, ⟨by simp, ?_, ?_, Or.inl rfl, ?_⟩, by simp⟩
    · exact List.forall_mem_singleton.mpr (isDigit_of_mem_digits hc)
    · rintro t ht
      cases ht
      rfl
    · exact Or.inr ⟨sign, ds, hsign, hds, hds', rfl⟩

theorem scalarText_constant {ft : Yaml.FloatText} {t : Text} (h : (t, v) ∈ constants) : ScalarText ft t v :=
  scalarText_closed (by simpa using readScalar_constant (r := []) h)

theorem scalarText_float {x : PyFloat} (h : IsNumber ft x) :
    ScalarText ft.toFloatText (dumpsFloat ft.toFloatText x) (.float x) := by
  cases x with
  | nan => exact scalarText_constant (t := "NaN".toList) (by simp [constants])
  | posInf => exact scalarText_constant (t := "Infinity".toList) (by simp [constants])
  | negInf => exact scalarText_constant (t := "-Infinity".toList) (by simp [constants])
  | finite x =>
      obtain ⟨whole, fraction, exponent, htext, hparts, hfloat⟩ :=
        exists_numberParts (ft.repr_mem _ h) (ft.no_leading_zero _ h)
      have hvalue : ft.ofText (ft.repr |x|) = |x| := ft.ofText_repr _ h
      obtain ⟨hplus, hminus⟩ := hparts.scalarText ft.toFloatText
      simp only [numberOf, if_neg hfloat, List.append_assoc, ← htext, Bool.false_eq_true, if_false, if_true]
        at hplus hminus
      rw [hvalue] at hplus hminus
      by_cases hneg : x < 0
      · have hdumps : dumpsFloat ft.toFloatText (.finite x) = '-' :: ft.repr (-x) := if_pos hneg
        rw [abs_of_neg hneg, neg_neg] at hminus
        rwa [hdumps]
      · have hdumps : dumpsFloat ft.toFloatText (.finite x) = ft.repr x := if_neg hneg
        rw [abs_of_nonneg (not_lt.mp hneg)] at hplus
        rwa [hdumps]

end

/-! ## Strings -/

section

variable {s u : Text} {n : ℕ} {c : Char}

theorem hexValue_hexDigits (h : n < 0x10000) : hexValue? (hexDigits n) = some n := by
  have hfirst : n / 4096 < 16 := by omega
  have hsecond : n / 256 % 16 < 16 := Nat.mod_lt _ (by decide)
  have hthird : n / 16 % 16 < 16 := Nat.mod_lt _ (by decide)
  have hfourth : n % 16 < 16 := Nat.mod_lt _ (by decide)
  have hvalue : ((n / 4096 * 16 + n / 256 % 16) * 16 + n / 16 % 16) * 16 + n % 16 = n := by omega
  simp only [hexValue?, hexDigits, List.map_cons, List.map_nil, List.mapM_cons, List.mapM_nil,
    Yaml.hexDigit?_digitChar hfirst, Yaml.hexDigit?_digitChar hsecond, Yaml.hexDigit?_digitChar hthird,
    Yaml.hexDigit?_digitChar hfourth, Option.pure_def, Option.bind_eq_bind, Option.bind_some, Option.map_some,
    List.foldl_cons, List.foldl_nil, zero_mul, zero_add, hvalue]

theorem escapedChar_toNat (c : Char) : escapedChar? c.toNat = some c := by
  have hvalid : c.toNat.isValidChar := c.valid
  rw [escapedChar?, if_pos hvalid, Char.ofNat_toNat]

theorem shortEscape_backslash {e : Char} (h : shortEscape c = some e) :
    backslash.lookup e = some c := by
  have hall : ∀ entry ∈ [('\\', '\\'), ('"', '"'), ('\x08', 'b'), ('\x0c', 'f'), ('\n', 'n'), ('\r', 'r'), ('\t', 't')],
      backslash.lookup entry.2 = some entry.1 := by decide
  obtain ⟨before, after, heq, -⟩ := List.lookup_eq_some_iff.mp h
  exact hall (c, e) (by rw [heq]; simp)

/-- One character is dumped as it is read. -/
theorem stringText_dumpsChar (c : Char) (hu : StringText u s) : StringText (dumpsChar c ++ u) (c :: s) := by
  unfold dumpsChar
  split
  · rename_i e he
    exact .short (shortEscape_backslash he) hu
  · rename_i hshort
    have hquote : c ≠ '"' := by
      rintro rfl
      cases hshort
    have hslash : c ≠ '\\' := by
      rintro rfl
      cases hshort
    split_ifs with hprint hlow
    · have hspace := Yaml.char_le_iff.mp hprint.1
      simp only [Char.reduceToNat] at hspace
      exact .plain hquote hslash (by omega) hu
    · have hvalue := hexValue_hexDigits hlow
      exact .unicode hvalue (escapedChar_toNat c) hu
    · -- The pair of surrogates stands for the character beyond the basic plane.
      have hvalid : c.toNat < 0xd800 ∨ 0xdfff < c.toNat ∧ c.toNat < 0x110000 := c.valid
      have hhigh := hexValue_hexDigits (n := 0xd800 + (c.toNat - 0x10000) / 1024) (by omega)
      have hlow' := hexValue_hexDigits (n := 0xdc00 + (c.toNat - 0x10000) % 1024) (by omega)
      have hpair := StringText.pair hhigh hlow' (by omega) hu
      have hchar : 0x10000 + (0xd800 + (c.toNat - 0x10000) / 1024 - 0xd800) * 1024 +
          (0xdc00 + (c.toNat - 0x10000) % 1024 - 0xdc00) = c.toNat := by omega
      rw [hchar, Char.ofNat_toNat] at hpair
      exact hpair

theorem stringText_dumps (s : Text) : StringText (s.flatMap dumpsChar ++ ['"']) s := by
  induction s with
  | nil => exact .close
  | cons c s ih =>
      rw [List.flatMap_cons, List.append_assoc]
      exact stringText_dumpsChar c ih

theorem valueText_dumpsText (ft : Yaml.FloatText) (s : Text) : ValueText ft (dumpsText s) (.str s) :=
  (stringText_dumps s).valueText

end

/-! ## Lists and objects -/

section

variable {v : Yaml} {indent : Option ℕ} {level : ℕ} {b : Text}

theorem blank_nil : Blank [] := by simp [Blank]

theorem blank_space : Blank [' '] := by simp [Blank, space]

theorem blank_newline (indent : Option ℕ) (level : ℕ) : Blank (newline indent level) := by
  cases indent with
  | none => exact blank_nil
  | some n =>
      simp only [newline, Blank, List.forall_mem_cons]
      refine ⟨by decide, fun c hc => ?_⟩
      rw [List.eq_of_mem_replicate hc]
      decide

theorem blank_between (indent : Option ℕ) (level : ℕ) : Blank (between indent level) := by
  cases indent with
  | none => exact blank_space
  | some n => exact blank_newline (some n) level

/-- No value begins with a bracket that closes. -/
theorem ValueText.head_ne {ft : Yaml.FloatText} {c : Char} {t : Text} (h : ValueText ft (c :: t) v) :
    c ≠ ']' ∧ c ≠ '\x7d' := by
  have hread := h.read (t.length + 1) [] (by simp) (by simp [Ends])
  rw [List.append_nil] at hread
  have hnone {c : Char} (hc : c = ']' ∨ c = '\x7d') : readValue ft (t.length + 1) (c :: t) = none := by
    have hopens : c ∉ ['"', '[', '\x7b'] := by
      obtain rfl | rfl := hc <;> decide
    have hconstants : ∀ constant ∈ constants, ¬constant.1 <+: c :: t := by
      intro constant hconstant hprefix
      simp only [constants, List.mem_cons, List.not_mem_nil, or_false] at hconstant
      obtain rfl | rfl := hc <;> rcases hconstant with rfl | rfl | rfl | rfl | rfl | rfl <;>
        exact absurd (List.cons_prefix_cons.mp hprefix).1 (by decide)
    rw [readValue_scalar hopens, readScalar_number hconstants, readNumber_of_ne]
    · obtain rfl | rfl := hc <;> simp [unsigned, wholePart]
    · obtain rfl | rfl := hc <;> simp
  constructor
  · intro hc
    rw [hnone (Or.inl hc)] at hread
    cases hread
  · intro hc
    rw [hnone (Or.inr hc)] at hread
    cases hread

/-- The elements of a list with what closes it. -/
theorem elementsText_dumps {ft : Yaml.FloatText} {x : Yaml} {xs : List Yaml} (hb : Blank b)
    (hall : ∀ y ∈ x :: xs, ValueText ft (dumpsAt ft indent (level + 1) y) y) :
    ElementsText ft (b ++ (dumpsAt ft indent (level + 1) x ++ dumpsElements ft indent level xs)) (x :: xs) := by
  induction xs generalizing x b with
  | nil => exact elements_last hb (hall x List.mem_cons_self) (blank_newline indent level)
  | cons y ys ih =>
      have hrest := ih (blank_between indent (level + 1)) fun z hz => hall z (List.mem_cons_of_mem x hz)
      simpa [dumpsElements] using elements_more hb (hall x List.mem_cons_self) blank_nil hrest

/-- The members of an object behind those read before them. -/
theorem membersText_dumps {ft : Yaml.FloatText} {item : Text × Yaml} {items : List (Text × Yaml)}
    {acc : List (Yaml × Yaml)} (hb : Blank b) (hkeys : ((item :: items).map Prod.fst).Nodup)
    (hnew : ∀ other ∈ item :: items, Yaml.lookup other.1 acc = none)
    (hall : ∀ other ∈ item :: items, ValueText ft (dumpsAt ft indent (level + 1) other.2) other.2) :
    MembersText ft (b ++ (dumpsText item.1 ++ ':' :: ' ' ::
      (dumpsAt ft indent (level + 1) item.2 ++ dumpsMembers ft indent level (members items)))) acc
      (acc ++ members (item :: items)) := by
  induction items generalizing item acc b with
  | nil =>
      have hput := Yaml.put_new (hnew item List.mem_cons_self) item.2
      have h := members_last acc hb (stringText_dumps item.1) blank_nil blank_space (hall item List.mem_cons_self)
        (blank_newline indent level)
      rw [hput] at h
      simpa [dumpsText, dumpsMembers, members] using h
  | cons next items ih =>
      rw [List.map_cons, List.nodup_cons] at hkeys
      have hput := Yaml.put_new (hnew item List.mem_cons_self) item.2
      have hlater : ∀ other ∈ next :: items, Yaml.lookup other.1 (acc ++ [(.str item.1, item.2)]) = none := by
        intro other hother
        have hdiffer : item.1 ≠ other.1 := fun heq => hkeys.1 (heq ▸ List.mem_map_of_mem hother)
        rw [Yaml.lookup_append (hnew other (List.mem_cons_of_mem item hother))]
        simp [Yaml.lookup, hdiffer]
      have hrest := ih (blank_between indent (level + 1)) hkeys.2 hlater
        fun other hother => hall other (List.mem_cons_of_mem item hother)
      rw [← hput] at hrest
      have h := members_more hb (stringText_dumps item.1) blank_nil blank_space (hall item List.mem_cons_self)
        blank_nil hrest
      rw [hput] at h
      simpa [dumpsText, dumpsMembers, members, memberKey] using h

/-- **A value is read from its text,** at any depth. -/
theorem IsJson.valueText (h : IsJson ft v) (indent : Option ℕ) (level : ℕ) :
    ValueText ft.toFloatText (dumpsAt ft.toFloatText indent level v) v := by
  induction h generalizing level with
  | null => exact (scalarText_constant (t := "null".toList) (by simp [constants])).valueText
  | bool b =>
      cases b with
      | true => exact (scalarText_constant (t := "true".toList) (by simp [constants])).valueText
      | false => exact (scalarText_constant (t := "false".toList) (by simp [constants])).valueText
  | int n => exact (scalarText_strInt ft.toFloatText n).valueText
  | float h => exact (scalarText_float h).valueText
  | str s => exact valueText_dumpsText ft.toFloatText s
  | @seq xs hxs ih =>
      cases xs with
      | nil => exact valueText_seq_nil blank_nil
      | cons x xs =>
          have helements := elementsText_dumps (b := []) blank_nil fun y hy => ih y hy (level + 1)
          refine valueText_seq (blank_newline indent (level + 1)) helements fun c hc => ?_
          obtain ⟨d, t, ht, hspace⟩ := (ih x List.mem_cons_self (level + 1)).opens
          have hvalue := ih x List.mem_cons_self (level + 1)
          rw [ht] at hvalue hc
          cases hc
          exact ⟨hspace, hvalue.head_ne.1⟩
  | @map items hkeys hitems ih =>
      cases items with
      | nil => exact (objectText_nil blank_nil).valueText
      | cons item items =>
          have hnew : ∀ other ∈ item :: items, Yaml.lookup other.1 [] = none := fun _ _ => rfl
          have hmembers := membersText_dumps (b := []) blank_nil hkeys hnew
            fun other hother => ih other hother (level + 1)
          refine (objectText_members (blank_newline indent (level + 1)) hmembers fun c hc => ?_).valueText
          cases hc
          exact ⟨rfl, by decide⟩

theorem ValueText.loads {ft : Yaml.FloatText} {u : Text} (h : ValueText ft u v) : loads ft u = some v := by
  obtain ⟨c, t, rfl, hc⟩ := h.opens
  have hskip : skipSpace (c :: t) = c :: t := skipSpace_append (b := []) blank_nil (by simpa using hc)
  have hread := h.read (2 * (c :: t).length + 1) [] (by omega) (by simp [Ends])
  rw [List.append_nil] at hread
  rw [JsonText.loads, hskip, hread]
  rfl

/-- **The round trip.** -/
theorem loads_dumps (h : IsJson ft v) (indent : Option ℕ) :
    loads ft.toFloatText (dumps ft.toFloatText indent v) = some v := (h.valueText indent 0).loads

end

/-! ## Without an indent there is one line -/

section

variable {s : Text} {n : ℕ} {v : Yaml}

/-- The visible characters of ASCII. -/
def Visible (text : Text) : Prop := ∀ c ∈ text, 32 ≤ c.toNat ∧ c.toNat ≤ 126

theorem Visible.append {t : Text} (hs : Visible s) (ht : Visible t) : Visible (s ++ t) := by
  intro c hc
  rcases List.mem_append.mp hc with hc | hc
  · exact hs c hc
  · exact ht c hc

theorem visible_hexDigits (h : n < 0x10000) : Visible (unicodeEscape n) := by
  simp only [Visible, unicodeEscape, hexDigits, List.map_cons, List.map_nil, List.forall_mem_cons,
    List.not_mem_nil, false_implies, implies_true, and_true]
  exact ⟨by decide, by decide, Yaml.digitChar_ascii (by omega), Yaml.digitChar_ascii (Nat.mod_lt _ (by decide)),
    Yaml.digitChar_ascii (Nat.mod_lt _ (by decide)), Yaml.digitChar_ascii (Nat.mod_lt _ (by decide))⟩

theorem visible_dumpsChar (c : Char) : Visible (dumpsChar c) := by
  by_cases hlow : c.toNat < 0x10000
  · exact Yaml.dumpsChar_ascii hlow
  · have hvalid : c.toNat < 0xd800 ∨ 0xdfff < c.toNat ∧ c.toNat < 0x110000 := c.valid
    unfold dumpsChar
    split
    · rename_i e he
      obtain ⟨-, -, -, -, hascii⟩ := Yaml.shortEscape_cases he
      exact List.forall_mem_cons.mpr ⟨by decide, List.forall_mem_singleton.mpr hascii⟩
    · split
      · rename_i hprint
        exact List.forall_mem_singleton.mpr ⟨Yaml.char_le_iff.mp hprint.1, Yaml.char_le_iff.mp hprint.2⟩
      · exact (visible_hexDigits (by omega)).append (visible_hexDigits (by omega))

theorem visible_dumpsText (s : Text) : Visible (dumpsText s) := by
  intro c hc
  simp only [dumpsText, List.mem_cons, List.mem_append, List.mem_flatMap, List.not_mem_nil, or_false] at hc
  rcases hc with rfl | ⟨d, -, hc⟩ | rfl
  · decide
  · exact visible_dumpsChar d c hc
  · decide

theorem visible_ascii (h : (s.all fun c => decide (32 ≤ c.toNat ∧ c.toNat ≤ 126)) = true) : Visible s :=
  Yaml.forall_mem_of_all h

theorem visible_of_subset {letters : Text} (hletters : Visible letters) (h : s ⊆ letters) : Visible s :=
  fun c hc => hletters c (h hc)

theorem visible_dumpsFloat {x : PyFloat} (h : IsNumber ft x) : Visible (dumpsFloat ft.toFloatText x) := by
  have hletters : Visible "-0123456789.e+".toList := visible_ascii (by decide)
  have hrepr {x : ℚ} (h : ft.IsFloat x) : ft.repr x ⊆ "-0123456789.e+".toList := fun c hc =>
    (by decide : Regex.letters (Yaml.reprPointed + Yaml.reprPointless) ⊆ "-0123456789.e+".toList)
      (Regex.subset_letters (ft.repr_mem x h) hc)
  cases x with
  | nan => exact visible_ascii (s := "NaN".toList) (by decide)
  | posInf => exact visible_ascii (s := "Infinity".toList) (by decide)
  | negInf => exact visible_ascii (s := "-Infinity".toList) (by decide)
  | finite x =>
      by_cases hneg : x < 0
      · have hdumps : dumpsFloat ft.toFloatText (.finite x) = '-' :: ft.repr (-x) := if_pos hneg
        rw [IsNumber, abs_of_neg hneg] at h
        rw [hdumps]
        exact visible_of_subset hletters (List.cons_subset.mpr ⟨by decide, hrepr h⟩)
      · have hdumps : dumpsFloat ft.toFloatText (.finite x) = ft.repr x := if_neg hneg
        rw [IsNumber, abs_of_nonneg (not_lt.mp hneg)] at h
        rw [hdumps]
        exact visible_of_subset hletters (hrepr h)

theorem visible_elements {ft : Yaml.FloatText} {level : ℕ} {xs : List Yaml}
    (h : ∀ x ∈ xs, Visible (dumpsAt ft none (level + 1) x)) : Visible (dumpsElements ft none level xs) := by
  induction xs with
  | nil => exact visible_ascii (s := [']']) (by decide)
  | cons x xs ih =>
      have hcomma : Visible [',', ' '] := visible_ascii (by decide)
      have hx := h x List.mem_cons_self
      exact hcomma.append (hx.append (ih fun y hy => h y (List.mem_cons_of_mem x hy)))

theorem visible_member {ft : Yaml.FloatText} {level : ℕ} (item : Text × Yaml) {rest : Text}
    (hvalue : Visible (dumpsAt ft none (level + 1) item.2)) (hrest : Visible rest) :
    Visible (dumpsText item.1 ++ ':' :: ' ' :: (dumpsAt ft none (level + 1) item.2 ++ rest)) := by
  have hcolon : Visible [':', ' '] := visible_ascii (by decide)
  exact (visible_dumpsText item.1).append (hcolon.append (hvalue.append hrest))

theorem visible_members {ft : Yaml.FloatText} {level : ℕ} {items : List (Text × Yaml)}
    (h : ∀ item ∈ items, Visible (dumpsAt ft none (level + 1) item.2)) :
    Visible (dumpsMembers ft none level (members items)) := by
  induction items with
  | nil => exact visible_ascii (s := ['\x7d']) (by decide)
  | cons item items ih =>
      have hcomma : Visible [',', ' '] := visible_ascii (by decide)
      have hrest := ih fun other hother => h other (List.mem_cons_of_mem item hother)
      exact hcomma.append (visible_member item (h item List.mem_cons_self) hrest)

theorem IsJson.visible (h : IsJson ft v) (level : ℕ) : Visible (dumpsAt ft.toFloatText none level v) := by
  induction h generalizing level with
  | null => exact visible_ascii (s := "null".toList) (by decide)
  | bool b =>
      cases b with
      | true => exact visible_ascii (s := "true".toList) (by decide)
      | false => exact visible_ascii (s := "false".toList) (by decide)
  | int n => exact visible_of_subset (visible_ascii (by decide)) Yaml.strInt_subset
  | float h => exact visible_dumpsFloat h
  | str s => exact visible_dumpsText s
  | @seq xs _ ih =>
      have hopen : Visible ['['] := visible_ascii (by decide)
      cases xs with
      | nil => exact visible_ascii (s := ['[', ']']) (by decide)
      | cons x xs =>
          have hrest := visible_elements fun y hy => ih y (List.mem_cons_of_mem x hy) (level + 1)
          exact hopen.append ((ih x List.mem_cons_self (level + 1)).append hrest)
  | @map items _ _ ih =>
      have hopen : Visible ['\x7b'] := visible_ascii (by decide)
      cases items with
      | nil => exact visible_ascii (s := ['\x7b', '\x7d']) (by decide)
      | cons item items =>
          have hrest := visible_members fun other hother => ih other (List.mem_cons_of_mem item hother) (level + 1)
          exact hopen.append (visible_member item (ih item List.mem_cons_self (level + 1)) hrest)

theorem Visible.no_break (h : Visible s) : ∀ c ∈ s, isLineBreak c = false := by
  intro c hc
  obtain ⟨hlow, hhigh⟩ := h c hc
  simp only [isLineBreak, Bool.or_eq_false_iff, Bool.and_eq_false_iff, decide_eq_false_iff_not]
  omega

/-- A line of JSON is no blank line. -/
theorem IsJson.strip_ne_nil (h : IsJson ft v) : pyStrip (dumps ft.toFloatText none v) ≠ [] := by
  obtain ⟨c, t, htext, hspace⟩ := (h.valueText none 0).opens
  have hvisible := h.visible 0
  rw [htext] at hvisible
  have hblank : c ≠ ' ' := by
    rintro rfl
    cases hspace
  have hcode : c.toNat ≠ ' '.toNat := fun heq => hblank (Char.toNat_inj.mp heq)
  obtain ⟨hlow, hhigh⟩ := hvisible c List.mem_cons_self
  have hletter : pyIsSpace c = false := by
    simp only [Char.reduceToNat] at hcode
    simp only [pyIsSpace, Bool.or_eq_false_iff, Bool.and_eq_false_iff, decide_eq_false_iff_not]
    omega
  rw [dumps, htext]
  exact pyStrip_ne_nil List.mem_cons_self hletter

/-- The values of the lines of a file that are not blank, each by `json.loads`; nothing where it raises. -/
def loadLines (ft : Yaml.FloatText) (text : Text) : Option (List Yaml) :=
  ((splitlines (universalNewlines text)).filter fun line => pyStrip line ≠ []).mapM (loads ft)

/-- A line of the file. -/
def dumpsLine (ft : Yaml.FloatText) (v : Yaml) : Text := dumps ft none v ++ ['\n']

/-- **A file of one value on each line is read back.** -/
theorem loadLines_dumps {vs : List Yaml} (h : ∀ v ∈ vs, IsJson ft v) :
    loadLines ft.toFloatText (vs.flatMap (dumpsLine ft.toFloatText)) = some vs := by
  have hlines : vs.flatMap (dumpsLine ft.toFloatText) = (vs.map (dumps ft.toFloatText none)).flatMap (· ++ ['\n']) := by
    rw [List.flatMap_map]
    rfl
  have hreturn : '\r' ∉ vs.flatMap (dumpsLine ft.toFloatText) := by
    intro hmem
    obtain ⟨v, hv, hmem⟩ := List.mem_flatMap.mp hmem
    rcases List.mem_append.mp hmem with hmem | hmem
    · exact absurd ((h v hv).visible 0 _ hmem).1 (by decide)
    · exact absurd hmem (by decide)
  have hsplit : splitlines (vs.flatMap (dumpsLine ft.toFloatText)) = vs.map (dumps ft.toFloatText none) := by
    rw [hlines]
    refine splitlines_lines fun line hline => ?_
    obtain ⟨v, hv, rfl⟩ := List.mem_map.mp hline
    exact ((h v hv).visible 0).no_break
  have hfilter : (vs.map (dumps ft.toFloatText none)).filter (fun line => pyStrip line ≠ []) =
      vs.map (dumps ft.toFloatText none) := by
    rw [List.filter_eq_self]
    intro line hline
    obtain ⟨v, hv, rfl⟩ := List.mem_map.mp hline
    exact decide_eq_true (h v hv).strip_ne_nil
  rw [loadLines, universalNewlines_of_no_return hreturn, hsplit, hfilter]
  clear hlines hreturn hsplit hfilter
  induction vs with
  | nil => rfl
  | cons v vs ih =>
      have hrest := ih fun w hw => h w (List.mem_cons_of_mem v hw)
      rw [List.map_cons, List.mapM_cons, loads_dumps (h v List.mem_cons_self), hrest]
      rfl

end

end CryptoAggHarmonic.JsonText
