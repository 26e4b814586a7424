import CryptoAggHarmonic.Python.JsonText

/-!
# What the reader of JSON takes

A value is read from a text of its own, whatever follows it: nothing that is put behind an object changes what is read,
and no beginning of an object is one.
-/

namespace CryptoAggHarmonic.JsonText

open PyOs (Text)

variable {ft : Yaml.FloatText} {cs rest r u : Text} {s : Text} {n m : ℕ} {v : Yaml}

/-! ## Strings -/

/-- The text of a string behind its first quote, with the second. -/
inductive StringText : Text → Text → Prop
  | close : StringText ['"'] []
  | pair {a b c d e f g h : Char} {high low : ℕ} {u s : Text} (hhigh : hexValue? [a, b, c, d] = some high)
      (hlow : hexValue? [e, f, g, h] = some low)
      (hpair : 0xd800 ≤ high ∧ high < 0xdc00 ∧ 0xdc00 ≤ low ∧ low < 0xe000) (hu : StringText u s) :
      StringText ('\\' :: 'u' :: a :: b :: c :: d :: '\\' :: 'u' :: e :: f :: g :: h :: u)
        (.ofNat (0x10000 + (high - 0xd800) * 1024 + (low - 0xdc00)) :: s)
  | unicode {a b c d x : Char} {n : ℕ} {u s : Text} (hn : hexValue? [a, b, c, d] = some n)
      (hx : escapedChar? n = some x) (hu : StringText u s) :
      StringText ('\\' :: 'u' :: a :: b :: c :: d :: u) (x :: s)
  | short {e x : Char} {u s : Text} (hx : backslash.lookup e = some x) (hu : StringText u s) :
      StringText ('\\' :: e :: u) (x :: s)
  | plain {c : Char} {u s : Text} (hquote : c ≠ '"') (hslash : c ≠ '\\') (hc : ¬c.toNat < 0x20)
      (hu : StringText u s) : StringText (c :: u) (c :: s)

/-- Characters that stand for themselves. -/
theorem stringText_plain (h : ∀ c ∈ s, c ≠ '"' ∧ c ≠ '\\' ∧ ¬c.toNat < 0x20) : StringText (s ++ ['"']) s := by
  induction s with
  | nil => exact .close
  | cons c s ih =>
      obtain ⟨hquote, hslash, hc⟩ := h c List.mem_cons_self
      exact .plain hquote hslash hc (ih fun d hd => h d (List.mem_cons_of_mem c hd))

theorem StringText.length_lt (h : StringText u s) : s.length < u.length := by
  induction h with
  | close => exact Nat.zero_lt_one
  | _ => simp only [List.length_cons] at *; omega

theorem StringText.ne_nil (h : StringText u s) : u ≠ [] := by
  cases h <;> simp

/-- A reader's answer with a character put in front. -/
theorem map_cons_eq_some {read : Option (Text × Text)} {c : Char}
    (h : (read.map fun (s, rest) => (c :: s, rest)) = some (s, rest)) : ∃ t, read = some (t, rest) ∧ s = c :: t := by
  cases read with
  | none => cases h
  | some read =>
      obtain ⟨t, r⟩ := read
      cases h
      exact ⟨t, rfl, rfl⟩

theorem exists_stringText (h : readString cs = some (s, rest)) : ∃ u, cs = u ++ rest ∧ StringText u s := by
  fun_induction readString cs generalizing s rest with
  | case1 => cases h
  | case2 cs =>
      cases h
      exact ⟨['"'], rfl, .close⟩
  | case3 a b c d e f g h' cs high low hlow hhigh hpair ih =>
      obtain ⟨t, hread, rfl⟩ := map_cons_eq_some h
      obtain ⟨u, rfl, hu⟩ := ih hread
      exact ⟨_, rfl, .pair hhigh hlow hpair hu⟩
  | case4 a b c d e f g h' cs high low hlow hhigh hpair ih =>
      obtain ⟨x, hx, h⟩ := Option.bind_eq_some_iff.mp h
      obtain ⟨t, hread, rfl⟩ := map_cons_eq_some h
      obtain ⟨u, hcs, hu⟩ := ih hread
      refine ⟨'\\' :: 'u' :: a :: b :: c :: d :: u, ?_, .unicode hhigh hx hu⟩
      simp only [hcs, List.cons_append]
  | case5 => cases h
  | case6 a b c d cs hlast ih =>
      obtain ⟨x, hx, h⟩ := Option.bind_eq_some_iff.mp h
      obtain ⟨n, hn, hx⟩ := Option.bind_eq_some_iff.mp hx
      obtain ⟨t, hread, rfl⟩ := map_cons_eq_some h
      obtain ⟨u, rfl, hu⟩ := ih hread
      exact ⟨_, rfl, .unicode hn hx hu⟩
  | case7 e cs hlong hshort ih =>
      obtain ⟨x, hx, h⟩ := Option.bind_eq_some_iff.mp h
      obtain ⟨t, hread, rfl⟩ := map_cons_eq_some h
      obtain ⟨u, rfl, hu⟩ := ih hread
      exact ⟨_, rfl, .short hx hu⟩
  | case8 => cases h
  | case9 c cs hquote hlong hunicode hslash hc ih =>
      obtain ⟨t, hread, rfl⟩ := map_cons_eq_some h
      obtain ⟨u, rfl, hu⟩ := ih hread
      refine ⟨c :: u, rfl, .plain hquote ?_ hc hu⟩
      rintro rfl
      obtain ⟨e, u', rfl⟩ := List.exists_cons_of_ne_nil hu.ne_nil
      exact hslash e _ rfl rfl

theorem escapedChar?_high (hn : escapedChar? n = some x) : ¬(0xd800 ≤ n ∧ n < 0xdc00) := by
  rintro ⟨hlow, hhigh⟩
  have hvalid : ¬n.isValidChar := by
    unfold Nat.isValidChar
    omega
  simp [escapedChar?, hvalid] at hn

theorem ne_u {e x : Char} (h : backslash.lookup e = some x) : e ≠ 'u' := by
  rintro rfl
  cases h

/-- An escape that is not the first half of a pair. -/
theorem readString_unicode {a b c d x : Char} (hn : hexValue? [a, b, c, d] = some n) (hx : escapedChar? n = some x)
    (hu : StringText u s) (hread : readString (u ++ r) = some (s, r)) :
    readString ('\\' :: 'u' :: a :: b :: c :: d :: (u ++ r)) = some (x :: s, r) := by
  have hlast (hnot : ∀ e f g h cs, u ++ r = '\\' :: 'u' :: e :: f :: g :: h :: cs → False) :
      readString ('\\' :: 'u' :: a :: b :: c :: d :: (u ++ r)) = some (x :: s, r) := by
    rw [readString]
    · simp [hn, hx, hread]
    · exact hnot
  have hnext {e f g h : Char} {low : ℕ} {cs : Text} (hcs : u ++ r = '\\' :: 'u' :: e :: f :: g :: h :: cs)
      (hlow : hexValue? [e, f, g, h] = some low) :
      readString ('\\' :: 'u' :: a :: b :: c :: d :: (u ++ r)) = some (x :: s, r) := by
    have hpair : ¬(0xd800 ≤ n ∧ n < 0xdc00 ∧ 0xdc00 ≤ low ∧ low < 0xe000) := fun h => escapedChar?_high hx ⟨h.1, h.2.1⟩
    rw [hcs] at hread ⊢
    rw [readString]
    simp only [hn, hlow, if_neg hpair, hx, hread, Option.bind_some, Option.map_some]
  cases hu with
  | close => exact hlast fun _ _ _ _ _ h => by cases h
  | pair hhigh hlow hpair hu => exact hnext rfl hhigh
  | unicode hm hy hu => exact hnext rfl hm
  | short hy hu =>
      refine hlast fun _ _ _ _ _ h => ?_
      simp only [List.cons_append, List.cons.injEq] at h
      exact ne_u hy h.2.1
  | plain hquote hslash hc hu =>
      refine hlast fun _ _ _ _ _ h => ?_
      simp only [List.cons_append, List.cons.injEq] at h
      exact hslash h.1

theorem StringText.read (h : StringText u s) (r : Text) : readString (u ++ r) = some (s, r) := by
  induction h with
  | close => rfl
  | pair hhigh hlow hpair hu ih =>
      simp only [List.cons_append]
      rw [readString]
      simp only [hhigh, hlow, if_pos hpair, ih, Option.map_some]
  | unicode hn hx hu ih => exact readString_unicode hn hx hu ih
  | short hx hu ih =>
      rw [List.cons_append, List.cons_append, readString]
      · simp [hx, ih]
      all_goals simp [ne_u hx]
  | plain hquote hslash hc hu ih =>
      rw [List.cons_append, readString]
      · simp [hc, ih]
      all_goals simp [hquote, hslash]

/-! ## Numbers -/

/-- What may stand behind a value: a blank or a separator. -/
def enders : Text := [' ', '\t', '\n', '\r', ',', ']', '\x7d']

def Ends (r : Text) : Prop := ∀ c ∈ r.head?, c ∈ enders

def NoDigit (r : Text) : Prop := ∀ c ∈ r.head?, c.isDigit = false

theorem noDigit_cons {c : Char} (hc : c.isDigit = false) : NoDigit (c :: r) := by
  intro d hd
  cases hd
  exact hc

theorem Ends.noDigit (h : Ends r) : NoDigit r := by
  intro c hc
  have henders : ∀ c ∈ enders, c.isDigit = false := by simp [enders]
  exact henders c (h c hc)

theorem takeWhile_digits {ds : Text} (hds : ∀ c ∈ ds, c.isDigit = true) (hr : NoDigit r) :
    (ds ++ r).takeWhile Char.isDigit = ds := by
  rw [List.takeWhile_append_of_pos hds]
  cases r with
  | nil => simp
  | cons c r => rw [List.takeWhile_cons_of_neg (by simp [hr c rfl]), List.append_nil]

theorem isDigit_of_mem_takeWhile {c : Char} (h : c ∈ cs.takeWhile Char.isDigit) : c.isDigit = true :=
  List.mem_takeWhile_imp h

def wholePart : Text → Text
  | '0' :: _ => ['0']
  | cs => cs.takeWhile Char.isDigit

def fractionPart : Text → Text
  | '.' :: cs => if (cs.takeWhile Char.isDigit) = [] then [] else '.' :: cs.takeWhile Char.isDigit
  | _ => []

def exponentPart : Text → Text
  | e :: s :: cs =>
      if e ≠ 'e' ∧ e ≠ 'E' then []
      else if s.isDigit then e :: (s :: cs).takeWhile Char.isDigit
      else if (s = '-' ∨ s = '+') ∧ cs.takeWhile Char.isDigit ≠ [] then e :: s :: cs.takeWhile Char.isDigit
      else []
  | _ => []

/-- The number behind its sign. -/
def unsigned (ft : Yaml.FloatText) (minus : Bool) (cs : Text) : Option (Yaml × Text) :=
  let whole := wholePart cs
  let afterWhole := cs.drop whole.length
  let fraction := fractionPart afterWhole
  let afterFraction := afterWhole.drop fraction.length
  let exponent := exponentPart afterFraction
  let rest := afterFraction.drop exponent.length
  if whole = [] then none
  else if fraction = [] ∧ exponent = [] then
    let n : ℤ := Nat.ofDigitChars 10 whole 0
    some (.int (if minus then -n else n), rest)
  else
    let x := ft.ofText (whole ++ fraction ++ exponent)
    some (.float (.finite (if minus then -x else x)), rest)

theorem readNumber_minus : readNumber ft ('-' :: cs) = unsigned ft true cs := rfl

theorem readNumber_of_ne (h : cs.head? ≠ some '-') : readNumber ft cs = unsigned ft false cs := by
  unfold readNumber
  split
  rename_i hcs
  split at hcs
  · exact absurd rfl h
  · cases hcs
    rfl

theorem wholePart_prefix (cs : Text) : wholePart cs <+: cs := by
  unfold wholePart
  split
  · exact ⟨_, rfl⟩
  · exact List.takeWhile_prefix _

theorem fractionPart_prefix (cs : Text) : fractionPart cs <+: cs := by
  unfold fractionPart
  split
  · split
    · exact List.nil_prefix
    · exact (List.prefix_cons_inj _).mpr (List.takeWhile_prefix _)
  · exact List.nil_prefix

theorem exponentPart_prefix (cs : Text) : exponentPart cs <+: cs := by
  unfold exponentPart
  split
  · split_ifs
    · exact List.nil_prefix
    · exact (List.prefix_cons_inj _).mpr (List.takeWhile_prefix _)
    · exact (List.prefix_cons_inj _).mpr ((List.prefix_cons_inj _).mpr (List.takeWhile_prefix _))
    · exact List.nil_prefix
  · exact List.nil_prefix

theorem wholePart_of_ne (h : cs.head? ≠ some '0') : wholePart cs = cs.takeWhile Char.isDigit := by
  unfold wholePart
  split
  · exact absurd rfl h
  · rfl

/-- The whole part is taken again, whatever but a digit follows it. -/
theorem wholePart_append (hr : NoDigit r) : wholePart (wholePart cs ++ r) = wholePart cs := by
  by_cases hzero : cs.head? = some '0'
  · obtain ⟨cs, rfl⟩ : ∃ t, cs = '0' :: t := by
      cases cs with
      | nil => cases hzero
      | cons c cs => exact ⟨cs, by rw [Option.some.inj hzero]⟩
    rfl
  · rw [wholePart_of_ne hzero]
    have hdigits : ∀ c ∈ cs.takeWhile Char.isDigit, c.isDigit = true := fun c hc => isDigit_of_mem_takeWhile hc
    rw [wholePart_of_ne, takeWhile_digits hdigits hr]
    intro hhead
    cases htake : cs.takeWhile Char.isDigit with
    | nil =>
        rw [htake, List.nil_append] at hhead
        exact absurd (hr '0' hhead) (by decide)
    | cons c ds =>
        rw [htake, List.cons_append, List.head?_cons, Option.some.injEq] at hhead
        subst hhead
        cases cs with
        | nil => cases htake
        | cons d cs =>
            rw [List.takeWhile_cons] at htake
            split at htake
            · cases htake
              exact hzero rfl
            · cases htake

theorem fractionPart_of_ne (h : cs.head? ≠ some '.') : fractionPart cs = [] := by
  unfold fractionPart
  split
  · exact absurd rfl h
  · rfl

theorem fractionPart_cases (cs : Text) :
    fractionPart cs = [] ∨ ∃ ds, ds ≠ [] ∧ (∀ c ∈ ds, c.isDigit = true) ∧ fractionPart cs = '.' :: ds := by
  unfold fractionPart
  split
  · split
    · exact Or.inl rfl
    · rename_i hds
      exact Or.inr ⟨_, hds, fun c hc => isDigit_of_mem_takeWhile hc, rfl⟩
  · exact Or.inl rfl

theorem fractionPart_append (hr : NoDigit r) (hdot : r.head? ≠ some '.') :
    fractionPart (fractionPart cs ++ r) = fractionPart cs := by
  obtain hnone | ⟨ds, hds, hdigits, hsome⟩ := fractionPart_cases cs
  · rw [hnone, List.nil_append, fractionPart_of_ne hdot]
  · rw [hsome, List.cons_append]
    simp only [fractionPart, takeWhile_digits hdigits hr, if_neg hds]

theorem exponentPart_cases (cs : Text) :
    exponentPart cs = [] ∨ ∃ e sign ds, (e = 'e' ∨ e = 'E') ∧ (sign = [] ∨ sign = ['-'] ∨ sign = ['+']) ∧ ds ≠ [] ∧
      (∀ c ∈ ds, c.isDigit = true) ∧ exponentPart cs = e :: (sign ++ ds) := by
  unfold exponentPart
  split
  · rename_i e s cs
    split_ifs with he hs hsign
    · exact Or.inl rfl
    · refine Or.inr ⟨e, [], (s :: cs).takeWhile Char.isDigit, by tauto, Or.inl rfl, ?_,
        fun c hc => isDigit_of_mem_takeWhile hc, rfl⟩
      simp [hs]
    · obtain ⟨hs, hds⟩ := hsign
      refine Or.inr ⟨e, [s], _, by tauto, Or.inr ?_, hds, fun c hc => isDigit_of_mem_takeWhile hc, rfl⟩
      simpa using hs
    · exact Or.inl rfl
  · exact Or.inl rfl

theorem exponentPart_ends (h : Ends r) : exponentPart r = [] := by
  have henders : ∀ c ∈ enders, c ≠ 'e' ∧ c ≠ 'E' := by simp [enders]
  unfold exponentPart
  split
  · exact if_pos (henders _ (h _ rfl))
  · rfl

theorem exponentPart_append (h : Ends r) : exponentPart (exponentPart cs ++ r) = exponentPart cs := by
  obtain hnone | ⟨e, sign, ds, he, hsign, hds, hdigits, hsome⟩ := exponentPart_cases cs
  · rw [hnone, List.nil_append, exponentPart_ends h]
  · rw [hsome]
    have hletter : ¬(e ≠ 'e' ∧ e ≠ 'E') := by tauto
    have htake := takeWhile_digits hdigits h.noDigit
    obtain rfl | rfl | rfl := hsign
    · obtain ⟨d, ds, rfl⟩ := List.exists_cons_of_ne_nil hds
      have hd : d.isDigit = true := hdigits d List.mem_cons_self
      simp only [List.nil_append, List.cons_append, exponentPart, if_neg hletter, hd, if_true]
      rw [← List.cons_append, htake]
    · have hminus : Char.isDigit '-' ≠ true := by decide
      simp only [List.cons_append, List.nil_append, exponentPart, if_neg hletter, if_neg hminus, htake]
      exact if_pos ⟨Or.inl trivial, hds⟩
    · have hplus : Char.isDigit '+' ≠ true := by decide
      simp only [List.cons_append, List.nil_append, exponentPart, if_neg hletter, if_neg hplus, htake]
      exact if_pos ⟨Or.inr trivial, hds⟩

theorem head_wholePart (h : wholePart cs ≠ []) : ∃ c t, wholePart cs = c :: t ∧ c.isDigit = true := by
  by_cases hzero : cs.head? = some '0'
  · cases cs with
    | nil => cases hzero
    | cons c cs =>
        obtain rfl : c = '0' := Option.some.inj hzero
        exact ⟨'0', [], rfl, by decide⟩
  · rw [wholePart_of_ne hzero] at h ⊢
    obtain ⟨c, t, hct⟩ := List.exists_cons_of_ne_nil h
    exact ⟨c, t, hct, isDigit_of_mem_takeWhile (hct ▸ List.mem_cons_self)⟩

theorem noDigit_fraction (cs : Text) (hr : NoDigit r) : NoDigit (fractionPart cs ++ r) := by
  obtain hnone | ⟨ds, -, -, hsome⟩ := fractionPart_cases cs
  · rwa [hnone]
  · rw [hsome]
    exact noDigit_cons (by decide)

theorem behind_exponent (cs : Text) (hr : Ends r) :
    NoDigit (exponentPart cs ++ r) ∧ (exponentPart cs ++ r).head? ≠ some '.' := by
  obtain hnone | ⟨e, sign, ds, hletter, -, -, -, hsome⟩ := exponentPart_cases cs
  · rw [hnone]
    refine ⟨hr.noDigit, fun hdot => ?_⟩
    have hmem : '.' ∈ enders := hr '.' hdot
    simp [enders] at hmem
  · rw [hsome]
    obtain rfl | rfl := hletter <;> exact ⟨noDigit_cons (by decide), by simp⟩

/-- The value of a number that is split in its parts. -/
def numberOf (ft : Yaml.FloatText) (minus : Bool) (whole fraction exponent : Text) : Yaml :=
  if fraction = [] ∧ exponent = [] then
    .int (if minus then -(Nat.ofDigitChars 10 whole 0 : ℤ) else Nat.ofDigitChars 10 whole 0)
  else .float (.finite (if minus then -ft.ofText (whole ++ fraction ++ exponent) else
    ft.ofText (whole ++ fraction ++ exponent)))

theorem numberOf_simple {minus : Bool} {whole fraction exponent : Text} :
    (∀ items, numberOf ft minus whole fraction exponent ≠ .map items) ∧
      ∀ s, numberOf ft minus whole fraction exponent ≠ .str s := by
  unfold numberOf
  split <;> simp

theorem unsigned_parts (ft : Yaml.FloatText) (minus : Bool) {whole fraction exponent : Text}
    (hwhole : wholePart (whole ++ (fraction ++ (exponent ++ r))) = whole)
    (hfraction : fractionPart (fraction ++ (exponent ++ r)) = fraction)
    (hexponent : exponentPart (exponent ++ r) = exponent) :
    unsigned ft minus (whole ++ (fraction ++ (exponent ++ r))) =
      if whole = [] then none else some (numberOf ft minus whole fraction exponent, r) := by
  simp only [unsigned, hwhole, List.drop_left, hfraction, hexponent, numberOf]
  split_ifs <;> rfl

/-- A number is read from a text of its own. -/
theorem unsigned_local {minus : Bool} (h : unsigned ft minus cs = some (v, rest)) :
    ∃ u, cs = u ++ rest ∧ (∃ c t, u = c :: t ∧ c.isDigit = true) ∧ ((∀ items, v ≠ .map items) ∧ ∀ s, v ≠ .str s) ∧
      ∀ r, Ends r → unsigned ft minus (u ++ r) = some (v, r) := by
  obtain ⟨afterWhole, hwhole⟩ := wholePart_prefix cs
  obtain ⟨afterFraction, hfraction⟩ := fractionPart_prefix afterWhole
  obtain ⟨afterExponent, hexponent⟩ := exponentPart_prefix afterFraction
  generalize hw : wholePart cs = whole at hwhole
  generalize hf : fractionPart afterWhole = fraction at hfraction
  generalize he : exponentPart afterFraction = exponent at hexponent
  subst hexponent hfraction hwhole
  rw [unsigned_parts ft minus hw hf he] at h
  split at h
  · cases h
  · rename_i hne
    cases h
    refine ⟨whole ++ (fraction ++ exponent), by simp, ?_, numberOf_simple, ?_⟩
    · obtain ⟨c, t, hct, hc⟩ := head_wholePart (by rwa [hw])
      rw [hw] at hct
      exact ⟨c, t ++ (fraction ++ exponent), by rw [hct]; rfl, hc⟩
    · intro r hr
      have hexponent : exponentPart (exponent ++ r) = exponent := by
        rw [← he]
        exact exponentPart_append hr
      have hbehind := behind_exponent (exponent ++ rest) hr
      rw [he] at hbehind
      have hdigit := noDigit_fraction (fraction ++ (exponent ++ rest)) hbehind.1
      rw [hf] at hdigit
      have hfraction : fractionPart (fraction ++ (exponent ++ r)) = fraction := by
        rw [← hf]
        exact fractionPart_append hbehind.1 hbehind.2
      have hwhole : wholePart (whole ++ (fraction ++ (exponent ++ r))) = whole := by
        rw [← hw]
        exact wholePart_append hdigit
      have hread := unsigned_parts ft minus hwhole hfraction hexponent
      rw [if_neg hne] at hread
      simpa using hread

/-! ## Scalars -/

/-- The constants with their names. -/
def constants : List (Text × Yaml) :=
  [("null".toList, .null), ("true".toList, .bool true), ("false".toList, .bool false),
    ("NaN".toList, .float .nan), ("Infinity".toList, .float .posInf), ("-Infinity".toList, .float .negInf)]

theorem readScalar_number (h : ∀ constant ∈ constants, ¬constant.1 <+: cs) : readScalar ft cs = readNumber ft cs := by
  have hnone : constants.find? (fun constant => constant.1.isPrefixOf cs) = none := by
    rw [List.find?_eq_none]
    intro constant hconstant
    simpa using h constant hconstant
  simp only [constants] at hnone
  simp only [readScalar, hnone]

theorem constants_names {constant : Text × Yaml} (h : constant ∈ constants) :
    ∃ a b t, constant.1 = a :: b :: t ∧ a ∉ ['"', '[', '\x7b'] ∧ space a = false ∧ a.isDigit = false ∧
      (a = '-' → b.isDigit = false) := by
  simp only [constants, List.mem_cons, List.not_mem_nil, or_false] at h
  rcases h with rfl | rfl | rfl | rfl | rfl | rfl <;>
    exact ⟨_, _, _, rfl, by decide, by decide, by decide, by decide⟩

theorem notPrefix_digit {c : Char} (hc : c.isDigit = true) {constant : Text × Yaml} (h : constant ∈ constants) :
    ¬constant.1 <+: c :: cs ∧ ¬constant.1 <+: '-' :: c :: cs := by
  obtain ⟨a, b, t, hname, -, -, ha, hb⟩ := constants_names h
  rw [hname, List.cons_prefix_cons, List.cons_prefix_cons, List.cons_prefix_cons]
  constructor
  · rintro ⟨rfl, -⟩
    rw [ha] at hc
    cases hc
  · rintro ⟨hminus, rfl, -⟩
    rw [hb hminus] at hc
    cases hc

theorem readScalar_constant {constant : Text × Yaml} (h : constant ∈ constants) :
    readScalar ft (constant.1 ++ r) = some (constant.2, r) := by
  simp only [constants, List.mem_cons, List.not_mem_nil, or_false] at h
  rcases h with rfl | rfl | rfl | rfl | rfl | rfl <;> rfl

theorem readScalar_cases (h : readScalar ft cs = some (v, rest)) :
    (∃ constant ∈ constants, cs = constant.1 ++ rest ∧ v = constant.2) ∨ readNumber ft cs = some (v, rest) := by
  cases hfind : constants.find? (fun constant => constant.1.isPrefixOf cs) with
  | none =>
      refine Or.inr ?_
      rw [← readScalar_number fun constant hconstant => by simpa using List.find?_eq_none.mp hfind constant hconstant]
      exact h
  | some constant =>
      have hread : readScalar ft cs = some (constant.2, cs.drop constant.1.length) := by
        have hfound := hfind
        simp only [constants] at hfound
        simp only [readScalar, hfound]
      rw [hread] at h
      obtain ⟨t, rfl⟩ : constant.1 <+: cs := by simpa using List.find?_some hfind
      refine Or.inl ⟨constant, List.mem_of_find?_eq_some hfind, ?_⟩
      obtain ⟨name, w⟩ := constant
      simp only [List.drop_left, Option.some.injEq, Prod.mk.injEq] at h
      exact ⟨by rw [h.2], h.1.symm⟩

/-- The text of a scalar opens with no blank, no quote and no bracket, and is read again before whatever ends it. -/
structure ScalarText (ft : Yaml.FloatText) (u : Text) (v : Yaml) : Prop where
  opens : ∃ c t, u = c :: t ∧ c ∉ ['"', '[', '\x7b'] ∧ space c = false
  simple : (∀ items, v ≠ .map items) ∧ ∀ s, v ≠ .str s
  read : ∀ r, Ends r → readScalar ft (u ++ r) = some (v, r)

theorem digit_opens {c : Char} (hc : c.isDigit = true) : c ∉ ['"', '[', '\x7b'] ∧ space c = false := by
  constructor
  · intro hmem
    have hdigits : ∀ c ∈ ['"', '[', '\x7b'], c.isDigit = false := by simp
    rw [hdigits c hmem] at hc
    cases hc
  · rw [Bool.eq_false_iff]
    intro hspace
    simp only [space, decide_eq_true_eq] at hspace
    rcases hspace with rfl | rfl | rfl | rfl <;> cases hc

theorem exists_scalarText (h : readScalar ft cs = some (v, rest)) : ∃ u, cs = u ++ rest ∧ ScalarText ft u v := by
  obtain ⟨constant, hconstant, hcs, rfl⟩ | hnumber := readScalar_cases h
  · refine ⟨constant.1, hcs, ?_, ?_, fun r _ => readScalar_constant hconstant⟩
    · obtain ⟨a, b, t, hname, hopens, hspace, -, -⟩ := constants_names hconstant
      exact ⟨a, b :: t, hname, hopens, hspace⟩
    · simp only [constants, List.mem_cons, List.not_mem_nil, or_false] at hconstant
      rcases hconstant with rfl | rfl | rfl | rfl | rfl | rfl <;> simp
  · by_cases hminus : cs.head? = some '-'
    · obtain ⟨cs, rfl⟩ : ∃ t, cs = '-' :: t := by
        cases cs with
        | nil => cases hminus
        | cons c cs => exact ⟨cs, by rw [Option.some.inj hminus]⟩
      rw [readNumber_minus] at hnumber
      obtain ⟨u, rfl, ⟨c, t, rfl, hc⟩, hsimple, hread⟩ := unsigned_local hnumber
      refine ⟨'-' :: c :: t, rfl, ⟨'-', c :: t, rfl, by decide, by decide⟩, hsimple, fun r hr => ?_⟩
      rw [List.cons_append, List.cons_append, readScalar_number fun constant h => (notPrefix_digit hc h).2,
        readNumber_minus]
      exact hread r hr
    · rw [readNumber_of_ne hminus] at hnumber
      obtain ⟨u, rfl, ⟨c, t, rfl, hc⟩, hsimple, hread⟩ := unsigned_local hnumber
      refine ⟨c :: t, rfl, ⟨c, t, rfl, digit_opens hc⟩, hsimple, fun r hr => ?_⟩
      have hhead : (c :: (t ++ r)).head? ≠ some '-' := hminus
      rw [List.cons_append, readScalar_number fun constant h => (notPrefix_digit hc h).1, readNumber_of_ne hhead]
      exact hread r hr

/-! ## Values -/

def Blank (b : Text) : Prop := ∀ c ∈ b, space c = true

theorem skipSpace_append {b : Text} (hb : Blank b) (hr : ∀ c ∈ r.head?, space c = false) : skipSpace (b ++ r) = r := by
  rw [skipSpace, List.dropWhile_append_of_pos hb]
  cases r with
  | nil => rfl
  | cons c r => rw [List.dropWhile_cons_of_neg (by simp [hr c rfl])]

/-- The blanks in front of a text. -/
theorem exists_blank (cs : Text) : ∃ b, Blank b ∧ cs = b ++ skipSpace cs ∧ ∀ c ∈ (skipSpace cs).head?, space c = false := by
  refine ⟨cs.takeWhile space, fun c hc => List.mem_takeWhile_imp hc, (List.takeWhile_append_dropWhile).symm, ?_⟩
  intro c hc
  have hhead := List.head?_dropWhile_not space cs
  rw [skipSpace] at hc
  rwa [Option.mem_def.mp hc] at hhead

theorem ends_blank {b : Text} {c : Char} (hb : Blank b) (hc : c ∈ enders) : Ends (b ++ c :: r) := by
  cases b with
  | nil =>
      intro d hd
      cases hd
      exact hc
  | cons d b =>
      intro e he
      cases he
      have hspace := hb d List.mem_cons_self
      simp only [space, decide_eq_true_eq] at hspace
      rcases hspace with rfl | rfl | rfl | rfl <;> simp [enders]

theorem mem_put {items : List (Yaml × Yaml)} {key : Text} {w : Yaml} {item : Yaml × Yaml}
    (h : item ∈ Yaml.put items (.str key) w) : item ∈ items ∨ item.2 = w := by
  unfold Yaml.put at h
  dsimp only at h
  split at h
  · obtain ⟨old, hold, rfl⟩ := List.mem_map.mp h
    split
    · split
      · exact Or.inr rfl
      · exact Or.inl hold
    · exact Or.inl hold
  · rcases List.mem_append.mp h with h | h
    · exact Or.inl h
    · rw [List.mem_singleton.mp h]
      exact Or.inr rfl

section

attribute [local simp] readValue readElements readMembers

theorem readValue_seq (h : (skipSpace cs).head? ≠ some ']') :
    readValue ft (n + 1) ('[' :: cs) = (readElements ft n (skipSpace cs)).map fun (xs, rest) => (.seq xs, rest) := by
  rw [readValue]
  split
  · rename_i hclose
    rw [hclose] at h
    exact absurd rfl h
  · rfl

theorem readValue_seq_nil (h : skipSpace cs = ']' :: rest) :
    readValue ft (n + 1) ('[' :: cs) = some (.seq [], rest) := by
  rw [readValue, h]
  rfl

theorem readValue_map (h : (skipSpace cs).head? ≠ some '\x7d') :
    readValue ft (n + 1) ('\x7b' :: cs) =
      (readMembers ft n [] (skipSpace cs)).map fun (items, rest) => (.map items, rest) := by
  rw [readValue]
  split
  · rename_i hclose
    rw [hclose] at h
    exact absurd rfl h
  · rfl

theorem readValue_map_nil (h : skipSpace cs = '\x7d' :: rest) :
    readValue ft (n + 1) ('\x7b' :: cs) = some (.map [], rest) := by
  rw [readValue, h]
  rfl

theorem readValue_scalar {c : Char} (hc : c ∉ ['"', '[', '\x7b']) :
    readValue ft (n + 1) (c :: cs) = readScalar ft (c :: cs) := by
  simp only [List.mem_cons, List.not_mem_nil, or_false, not_or] at hc
  rw [readValue] <;> simp [hc]

/-- What is behind an element. -/
theorem readElements_eq {x : Yaml} {b : Text} {c : Char} (hx : readValue ft n (skipSpace cs) = some (x, b ++ c :: r))
    (hb : Blank b) (hc : space c = false) :
    readElements ft (n + 1) cs =
      if c = ']' then some ([x], r)
      else if c = ',' then (readElements ft n r).map fun (xs, rest) => (x :: xs, rest)
      else none := by
  have hskip : skipSpace (b ++ c :: r) = c :: r := skipSpace_append hb (by simpa using hc)
  rw [readElements, hx]
  dsimp only
  rw [hskip]
  split
  · rename_i heq
    cases heq
    rfl
  · rename_i heq
    cases heq
    rfl
  · rename_i hclose hcomma
    rw [if_neg, if_neg]
    · rintro rfl
      exact hcomma r rfl
    · rintro rfl
      exact hclose r rfl

theorem readElements_cases {xs : List Yaml} (h : readElements ft (n + 1) cs = some (xs, rest)) :
    ∃ x b c r, readValue ft n (skipSpace cs) = some (x, b ++ c :: r) ∧ Blank b ∧
      ((c = ']' ∧ xs = [x] ∧ rest = r) ∨ (c = ',' ∧ ∃ ys, readElements ft n r = some (ys, rest) ∧ xs = x :: ys)) := by
  cases hvalue : readValue ft n (skipSpace cs) with
  | none => simp [hvalue] at h
  | some read =>
      obtain ⟨x, behind⟩ := read
      obtain ⟨b, hb, hbehind, hhead⟩ := exists_blank behind
      cases hskip : skipSpace behind with
      | nil => simp [hvalue, hskip] at h
      | cons c r =>
          rw [hskip] at hbehind hhead
          rw [hbehind] at hvalue
          rw [readElements_eq hvalue hb (hhead c rfl)] at h
          refine ⟨x, b, c, r, by rw [hbehind], hb, ?_⟩
          split_ifs at h with hclose hcomma
          · cases h
            exact Or.inl ⟨hclose, rfl, rfl⟩
          · obtain ⟨⟨ys, rest'⟩, hread, heq⟩ := Option.map_eq_some_iff.mp h
            cases heq
            exact Or.inr ⟨hcomma, ys, hread, rfl⟩

/-- What is behind the value of a member. -/
theorem readMembers_eq {items : List (Yaml × Yaml)} {key b₁ b₂ cs₁ r₁ : Text} {value : Yaml} {c : Char}
    (hcs : skipSpace cs = '"' :: cs₁) (hkey : readString cs₁ = some (key, b₁ ++ ':' :: r₁)) (hb₁ : Blank b₁)
    (hvalue : readValue ft n (skipSpace r₁) = some (value, b₂ ++ c :: r)) (hb₂ : Blank b₂) (hc : space c = false) :
    readMembers ft (n + 1) items cs =
      if c = '\x7d' then some (Yaml.put items (.str key) value, r)
      else if c = ',' then readMembers ft n (Yaml.put items (.str key) value) r
      else none := by
  have hcolon : skipSpace (b₁ ++ ':' :: r₁) = ':' :: r₁ := skipSpace_append hb₁ (by simp [space])
  have hskip : skipSpace (b₂ ++ c :: r) = c :: r := skipSpace_append hb₂ (by simpa using hc)
  simp only [readMembers, hcs, hkey, hcolon, hvalue, hskip]
  split
  · rename_i heq
    cases heq
    rfl
  · rename_i heq
    cases heq
    rfl
  · rename_i hclose hcomma
    rw [if_neg, if_neg]
    · rintro rfl
      exact hcomma r rfl
    · rintro rfl
      exact hclose r rfl

theorem readMembers_cases {items items' : List (Yaml × Yaml)}
    (h : readMembers ft (n + 1) items cs = some (items', rest)) :
    ∃ cs₁ key b₁ r₁ value b₂ c r, skipSpace cs = '"' :: cs₁ ∧ readString cs₁ = some (key, b₁ ++ ':' :: r₁) ∧ Blank b₁ ∧
      readValue ft n (skipSpace r₁) = some (value, b₂ ++ c :: r) ∧ Blank b₂ ∧
      ((c = '\x7d' ∧ items' = Yaml.put items (.str key) value ∧ rest = r) ∨
        (c = ',' ∧ readMembers ft n (Yaml.put items (.str key) value) r = some (items', rest))) := by
  have hall := h
  rw [readMembers] at h
  split at h
  · rename_i cs₁ hcs
    split at h
    · cases h
    · rename_i key behindKey hkey
      obtain ⟨b₁, hb₁, hbehind₁, -⟩ := exists_blank behindKey
      split at h
      · rename_i r₁ hcolon
        rw [hcolon] at hbehind₁
        split at h
        · cases h
        · rename_i value behind hvalue
          obtain ⟨b₂, hb₂, hbehind₂, hhead⟩ := exists_blank behind
          cases hskip : skipSpace behind with
          | nil => simp [hskip] at h
          | cons c r =>
              rw [hskip] at hbehind₂ hhead
              rw [hbehind₁] at hkey
              rw [hbehind₂] at hvalue
              rw [readMembers_eq hcs hkey hb₁ hvalue hb₂ (hhead c rfl)] at hall
              refine ⟨cs₁, key, b₁, r₁, value, b₂, c, r, hcs, hkey, hb₁, hvalue, hb₂, ?_⟩
              split_ifs at hall with hclose hcomma
              · cases hall
                exact Or.inl ⟨hclose, rfl, rfl⟩
              · exact Or.inr ⟨hcomma, hall⟩
      · cases h
  · cases h

end

/-! ## A text of its own -/

/-- The text of a value: it is read again before whatever ends a value. -/
structure ValueText (ft : Yaml.FloatText) (u : Text) (v : Yaml) : Prop where
  opens : ∃ c t, u = c :: t ∧ space c = false
  shorter : ∀ s, v = .str s → s.length < u.length
  read : ∀ m r, u.length ≤ m → Ends r → readValue ft m (u ++ r) = some (v, r)

structure ElementsText (ft : Yaml.FloatText) (u : Text) (xs : List Yaml) : Prop where
  nonempty : u ≠ []
  read : ∀ m r, u.length ≤ m → readElements ft m (u ++ r) = some (xs, r)

/-- The text of the members of an object, with the bracket that closes it. -/
structure MembersText (ft : Yaml.FloatText) (u : Text) (items items' : List (Yaml × Yaml)) : Prop where
  closed : u.getLast? = some '\x7d'
  shorter : ∀ item ∈ items', item ∈ items ∨ ∀ s, item.2 = .str s → s.length < u.length
  read : ∀ m r, u.length ≤ m → readMembers ft m items (u ++ r) = some (items', r)

theorem ValueText.pos {u : Text} (h : ValueText ft u v) : 0 < u.length := by
  obtain ⟨c, t, rfl, -⟩ := h.opens
  exact Nat.succ_pos _

/-- The blanks in front of a value are skipped. -/
theorem ValueText.skip {u b : Text} (h : ValueText ft u v) (hb : Blank b) : skipSpace (b ++ (u ++ r)) = u ++ r := by
  obtain ⟨c, t, rfl, hc⟩ := h.opens
  exact skipSpace_append hb (by simpa using hc)

theorem elements_last {u b₀ b : Text} {x : Yaml} (hb₀ : Blank b₀) (hx : ValueText ft u x) (hb : Blank b) :
    ElementsText ft (b₀ ++ (u ++ (b ++ [']']))) [x] := by
  refine ⟨by simp, fun m r hm => ?_⟩
  have hpos := hx.pos
  obtain ⟨m, rfl⟩ : ∃ k, m = k + 1 := ⟨m - 1, by simp at hm; omega⟩
  simp only [List.length_append, List.length_singleton] at hm
  simp only [List.append_assoc, List.singleton_append]
  rw [readElements_eq (b := b) (c := ']') (r := r) ?_ hb (by decide), if_pos rfl]
  rw [hx.skip hb₀]
  exact hx.read m _ (by omega) (ends_blank hb (by simp [enders]))

theorem elements_more {u b₀ b w : Text} {x : Yaml} {xs : List Yaml} (hb₀ : Blank b₀) (hx : ValueText ft u x)
    (hb : Blank b) (hxs : ElementsText ft w xs) : ElementsText ft (b₀ ++ (u ++ (b ++ ',' :: w))) (x :: xs) := by
  refine ⟨by simp, fun m r hm => ?_⟩
  have hpos := hx.pos
  obtain ⟨m, rfl⟩ : ∃ k, m = k + 1 := ⟨m - 1, by simp at hm; omega⟩
  simp only [List.length_append, List.length_cons] at hm
  simp only [List.append_assoc, List.cons_append]
  rw [readElements_eq (b := b) (c := ',') (r := w ++ r) ?_ hb (by decide), if_neg (by decide), if_pos rfl,
    hxs.read m r (by omega)]
  · rfl
  · rw [hx.skip hb₀]
    exact hx.read m _ (by omega) (ends_blank hb (by simp [enders]))

theorem members_last {u b₀ b₁ b₂ b₃ t key : Text} {value : Yaml} (items : List (Yaml × Yaml)) (hb₀ : Blank b₀)
    (hkey : StringText t key) (hb₁ : Blank b₁) (hb₂ : Blank b₂) (hvalue : ValueText ft u value) (hb₃ : Blank b₃) :
    MembersText ft (b₀ ++ '"' :: (t ++ (b₁ ++ ':' :: (b₂ ++ (u ++ (b₃ ++ ['\x7d'])))))) items
      (Yaml.put items (.str key) value) := by
  constructor
  · simp [List.getLast?_append, List.getLast?_cons]
  · intro item hitem
    obtain hold | hnew := mem_put hitem
    · exact Or.inl hold
    · refine Or.inr fun s hs => ?_
      have hlength := hvalue.shorter s (hnew.symm.trans hs)
      simp only [List.length_append, List.length_cons]
      omega
  · intro m r hm
    obtain ⟨m, rfl⟩ : ∃ k, m = k + 1 := ⟨m - 1, by simp at hm; omega⟩
    simp only [List.length_append, List.length_cons] at hm
    simp only [List.append_assoc, List.cons_append, List.nil_append]
    have hquote : skipSpace (b₀ ++ '"' :: (t ++ (b₁ ++ ':' :: (b₂ ++ (u ++ (b₃ ++ '\x7d' :: r)))))) =
        '"' :: (t ++ (b₁ ++ ':' :: (b₂ ++ (u ++ (b₃ ++ '\x7d' :: r))))) :=
      skipSpace_append hb₀ (by simp [space])
    rw [readMembers_eq (c := '\x7d') (r := r) hquote (hkey.read _) hb₁ ?_ hb₃ (by decide), if_pos rfl]
    rw [hvalue.skip hb₂]
    exact hvalue.read m _ (by omega) (ends_blank hb₃ (by simp [enders]))

theorem members_more {u b₀ b₁ b₂ b₃ t key w : Text} {value : Yaml} {items items' : List (Yaml × Yaml)} (hb₀ : Blank b₀)
    (hkey : StringText t key) (hb₁ : Blank b₁) (hb₂ : Blank b₂) (hvalue : ValueText ft u value) (hb₃ : Blank b₃)
    (hw : MembersText ft w (Yaml.put items (.str key) value) items') :
    MembersText ft (b₀ ++ '"' :: (t ++ (b₁ ++ ':' :: (b₂ ++ (u ++ (b₃ ++ ',' :: w)))))) items items' := by
  constructor
  · simp [List.getLast?_append, List.getLast?_cons, hw.closed]
  · intro item hitem
    have hlonger : w.length ≤ (b₀ ++ '"' :: (t ++ (b₁ ++ ':' :: (b₂ ++ (u ++ (b₃ ++ ',' :: w)))))).length := by
      simp only [List.length_append, List.length_cons]
      omega
    obtain hput | hnew := hw.shorter item hitem
    · obtain hold | hnew := mem_put hput
      · exact Or.inl hold
      · refine Or.inr fun s hs => ?_
        have hlength := hvalue.shorter s (hnew.symm.trans hs)
        simp only [List.length_append, List.length_cons]
        omega
    · exact Or.inr fun s hs => (hnew s hs).trans_le hlonger
  · intro m r hm
    obtain ⟨m, rfl⟩ : ∃ k, m = k + 1 := ⟨m - 1, by simp at hm; omega⟩
    simp only [List.length_append, List.length_cons] at hm
    simp only [List.append_assoc, List.cons_append]
    have hquote : skipSpace (b₀ ++ '"' :: (t ++ (b₁ ++ ':' :: (b₂ ++ (u ++ (b₃ ++ ',' :: (w ++ r))))))) =
        '"' :: (t ++ (b₁ ++ ':' :: (b₂ ++ (u ++ (b₃ ++ ',' :: (w ++ r)))))) :=
      skipSpace_append hb₀ (by simp [space])
    rw [readMembers_eq (c := ',') (r := w ++ r) hquote (hkey.read _) hb₁ ?_ hb₃ (by decide), if_neg (by decide),
      if_pos rfl]
    · exact hw.read m r (by omega)
    · rw [hvalue.skip hb₂]
      exact hvalue.read m _ (by omega) (ends_blank hb₃ (by simp [enders]))

theorem ScalarText.valueText {u : Text} (h : ScalarText ft u v) : ValueText ft u v := by
  obtain ⟨c, t, rfl, hc, hspace⟩ := h.opens
  refine ⟨⟨c, t, rfl, hspace⟩, fun s hs => absurd hs (h.simple.2 s), fun m r hm hr => ?_⟩
  obtain ⟨m, rfl⟩ : ∃ k, m = k + 1 := ⟨m - 1, by simp at hm; omega⟩
  rw [List.cons_append, readValue_scalar hc]
  exact h.read r hr

theorem StringText.valueText {u : Text} (h : StringText u s) : ValueText ft ('"' :: u) (.str s) := by
  refine ⟨⟨'"', u, rfl, by decide⟩, ?_, fun m r hm _ => ?_⟩
  · rintro _ ⟨⟩
    have hlength := h.length_lt
    simp only [List.length_cons]
    omega
  · obtain ⟨m, rfl⟩ : ∃ k, m = k + 1 := ⟨m - 1, by simp at hm; omega⟩
    rw [List.cons_append, readValue, h.read]
    rfl

theorem valueText_seq_nil {b : Text} (hb : Blank b) : ValueText ft ('[' :: (b ++ [']'])) (.seq []) := by
  refine ⟨⟨'[', _, rfl, by decide⟩, by simp, fun m r hm _ => ?_⟩
  obtain ⟨m, rfl⟩ : ∃ k, m = k + 1 := ⟨m - 1, by simp at hm; omega⟩
  rw [List.cons_append, List.append_assoc, readValue_seq_nil]
  exact skipSpace_append hb (by simp [space])

theorem valueText_seq {b u : Text} {xs : List Yaml} (hb : Blank b) (hu : ElementsText ft u xs)
    (hopens : ∀ c ∈ u.head?, space c = false ∧ c ≠ ']') : ValueText ft ('[' :: (b ++ u)) (.seq xs) := by
  refine ⟨⟨'[', _, rfl, by decide⟩, by simp, fun m r hm _ => ?_⟩
  obtain ⟨m, rfl⟩ : ∃ k, m = k + 1 := ⟨m - 1, by simp at hm; omega⟩
  simp only [List.length_append, List.length_cons] at hm
  obtain ⟨c, u, rfl⟩ := List.exists_cons_of_ne_nil hu.nonempty
  have hskip : skipSpace (b ++ (c :: u ++ r)) = c :: u ++ r := skipSpace_append hb (by simpa using (hopens c rfl).1)
  rw [List.cons_append, List.append_assoc, readValue_seq, hskip, hu.read m r (by omega)]
  · rfl
  · rw [hskip]
    simpa using (hopens c rfl).2

/-- The text of an object, from bracket to bracket: it is read again whatever follows. -/
structure ObjectText (ft : Yaml.FloatText) (u : Text) (items : List (Yaml × Yaml)) : Prop where
  opens : ∃ t, u = '\x7b' :: t
  closed : u.getLast? = some '\x7d'
  shorter : ∀ item ∈ items, ∀ s, item.2 = .str s → s.length < u.length
  read : ∀ m r, u.length ≤ m → readValue ft m (u ++ r) = some (.map items, r)

theorem ObjectText.valueText {u : Text} {items : List (Yaml × Yaml)} (h : ObjectText ft u items) :
    ValueText ft u (.map items) := by
  obtain ⟨t, rfl⟩ := h.opens
  exact ⟨⟨_, t, rfl, by decide⟩, by simp, fun m r hm _ => h.read m r hm⟩

theorem objectText_nil {b : Text} (hb : Blank b) : ObjectText ft ('\x7b' :: (b ++ ['\x7d'])) [] := by
  refine ⟨⟨_, rfl⟩, by simp [List.getLast?_cons], by simp, fun m r hm => ?_⟩
  obtain ⟨m, rfl⟩ : ∃ k, m = k + 1 := ⟨m - 1, by simp at hm; omega⟩
  rw [List.cons_append, List.append_assoc, readValue_map_nil]
  exact skipSpace_append hb (by simp [space])

theorem objectText_members {b u : Text} {items : List (Yaml × Yaml)} (hb : Blank b) (hu : MembersText ft u [] items)
    (hopens : ∀ c ∈ u.head?, space c = false ∧ c ≠ '\x7d') : ObjectText ft ('\x7b' :: (b ++ u)) items := by
  refine ⟨⟨_, rfl⟩, by simp [List.getLast?_append, List.getLast?_cons, hu.closed], ?_, fun m r hm => ?_⟩
  · intro item hitem s hs
    obtain hold | hnew := hu.shorter item hitem
    · cases hold
    · have hlength := hnew s hs
      simp only [List.length_cons, List.length_append]
      omega
  · obtain ⟨m, rfl⟩ : ∃ k, m = k + 1 := ⟨m - 1, by simp at hm; omega⟩
    simp only [List.length_append, List.length_cons] at hm
    have hne : u ≠ [] := by
      rintro rfl
      cases hu.closed
    obtain ⟨c, u, rfl⟩ := List.exists_cons_of_ne_nil hne
    have hskip : skipSpace (b ++ (c :: u ++ r)) = c :: u ++ r := skipSpace_append hb (by simpa using (hopens c rfl).1)
    rw [List.cons_append, List.append_assoc, readValue_map, hskip, hu.read m r (by omega)]
    · rfl
    · rw [hskip]
      simpa using (hopens c rfl).2

/-- What the readers read at one depth, each from a text of its own. -/
structure Local (ft : Yaml.FloatText) (n : ℕ) : Prop where
  value : ∀ {cs v rest}, readValue ft n cs = some (v, rest) →
    ∃ u, cs = u ++ rest ∧ ValueText ft u v ∧ ∀ items, v = .map items → ObjectText ft u items
  elements : ∀ {cs xs rest}, readElements ft n cs = some (xs, rest) → ∃ u, cs = u ++ rest ∧ ElementsText ft u xs
  members : ∀ {items cs items' rest}, readMembers ft n items cs = some (items', rest) →
    ∃ u, cs = u ++ rest ∧ MembersText ft u items items'

theorem Local.seq (ih : Local ft n) (h : readValue ft (n + 1) ('[' :: cs) = some (v, rest)) :
    ∃ u, '[' :: cs = u ++ rest ∧ ValueText ft u v ∧ ∀ items, v ≠ .map items := by
  obtain ⟨b, hb, hcs, hhead⟩ := exists_blank cs
  by_cases hclose : (skipSpace cs).head? = some ']'
  · obtain ⟨t, ht⟩ : ∃ t, skipSpace cs = ']' :: t := List.head?_eq_some_iff.mp hclose
    rw [readValue_seq_nil ht] at h
    cases h
    refine ⟨_, ?_, valueText_seq_nil hb, by simp⟩
    rw [hcs, ht]
    simp
  · rw [readValue_seq hclose] at h
    obtain ⟨⟨xs, rest'⟩, hread, heq⟩ := Option.map_eq_some_iff.mp h
    cases heq
    obtain ⟨u, hu, htext⟩ := ih.elements hread
    refine ⟨'[' :: (b ++ u), ?_, valueText_seq hb htext ?_, by simp⟩
    · rw [hcs, hu]
      simp
    · obtain ⟨c, u, rfl⟩ := List.exists_cons_of_ne_nil htext.nonempty
      intro d hd
      cases hd
      rw [hu] at hhead hclose
      exact ⟨hhead c rfl, fun heq => hclose (by rw [heq]; rfl)⟩

theorem Local.map (ih : Local ft n) (h : readValue ft (n + 1) ('\x7b' :: cs) = some (v, rest)) :
    ∃ u items, '\x7b' :: cs = u ++ rest ∧ v = .map items ∧ ObjectText ft u items := by
  obtain ⟨b, hb, hcs, hhead⟩ := exists_blank cs
  by_cases hclose : (skipSpace cs).head? = some '\x7d'
  · obtain ⟨t, ht⟩ : ∃ t, skipSpace cs = '\x7d' :: t := List.head?_eq_some_iff.mp hclose
    rw [readValue_map_nil ht] at h
    cases h
    refine ⟨_, [], ?_, rfl, objectText_nil hb⟩
    rw [hcs, ht]
    simp
  · rw [readValue_map hclose] at h
    obtain ⟨⟨items, rest'⟩, hread, heq⟩ := Option.map_eq_some_iff.mp h
    cases heq
    obtain ⟨u, hu, htext⟩ := ih.members hread
    refine ⟨'\x7b' :: (b ++ u), items, ?_, rfl, objectText_members hb htext ?_⟩
    · rw [hcs, hu]
      simp
    · have hne : u ≠ [] := by
        rintro rfl
        cases htext.closed
      obtain ⟨c, u, rfl⟩ := List.exists_cons_of_ne_nil hne
      intro d hd
      cases hd
      rw [hu] at hhead hclose
      exact ⟨hhead c rfl, fun heq => hclose (by rw [heq]; rfl)⟩

theorem Local.succ_value (ih : Local ft n) (h : readValue ft (n + 1) cs = some (v, rest)) :
    ∃ u, cs = u ++ rest ∧ ValueText ft u v ∧ ∀ items, v = .map items → ObjectText ft u items := by
  by_cases hopens : ∃ c t, cs = c :: t ∧ c ∈ ['"', '[', '\x7b']
  · obtain ⟨c, t, rfl, hc⟩ := hopens
    simp only [List.mem_cons, List.not_mem_nil, or_false] at hc
    obtain rfl | rfl | rfl := hc
    · rw [readValue] at h
      obtain ⟨⟨s, rest'⟩, hread, heq⟩ := Option.map_eq_some_iff.mp h
      cases heq
      obtain ⟨u, rfl, hu⟩ := exists_stringText hread
      exact ⟨'"' :: u, rfl, hu.valueText, by simp⟩
    · obtain ⟨u, hu, htext, hv⟩ := ih.seq h
      exact ⟨u, hu, htext, fun items heq => absurd heq (hv items)⟩
    · obtain ⟨u, items, hu, rfl, htext⟩ := ih.map h
      refine ⟨u, hu, htext.valueText, ?_⟩
      rintro _ ⟨⟩
      exact htext
  · have hscalar : readScalar ft cs = some (v, rest) := by
      cases cs with
      | nil => rwa [readValue] at h <;> simp
      | cons c t => rwa [readValue_scalar fun hc => hopens ⟨c, t, rfl, hc⟩] at h
    obtain ⟨u, hu, htext⟩ := exists_scalarText hscalar
    exact ⟨u, hu, htext.valueText, fun items heq => absurd heq (htext.simple.1 items)⟩

theorem Local.succ_elements (ih : Local ft n) {xs : List Yaml} (h : readElements ft (n + 1) cs = some (xs, rest)) :
    ∃ u, cs = u ++ rest ∧ ElementsText ft u xs := by
  obtain ⟨b₀, hb₀, hcs, -⟩ := exists_blank cs
  obtain ⟨x, b, c, r, hvalue, hb, hcases⟩ := readElements_cases h
  obtain ⟨u, hu, htext, -⟩ := ih.value hvalue
  rw [hu] at hcs
  obtain ⟨rfl, rfl, rfl⟩ | ⟨rfl, ys, hread, rfl⟩ := hcases
  · exact ⟨_, by rw [hcs]; simp, elements_last hb₀ htext hb⟩
  · obtain ⟨w, rfl, hw⟩ := ih.elements hread
    exact ⟨_, by rw [hcs]; simp, elements_more hb₀ htext hb hw⟩

theorem Local.succ_members (ih : Local ft n) {items items' : List (Yaml × Yaml)}
    (h : readMembers ft (n + 1) items cs = some (items', rest)) :
    ∃ u, cs = u ++ rest ∧ MembersText ft u items items' := by
  obtain ⟨b₀, hb₀, hcs, -⟩ := exists_blank cs
  obtain ⟨cs₁, key, b₁, r₁, value, b₃, c, r, hquote, hkey, hb₁, hvalue, hb₃, hcases⟩ := readMembers_cases h
  obtain ⟨t, rfl, ht⟩ := exists_stringText hkey
  obtain ⟨b₂, hb₂, hr₁, -⟩ := exists_blank r₁
  obtain ⟨u, hu, htext, -⟩ := ih.value hvalue
  rw [hu] at hr₁
  rw [hquote, hr₁] at hcs
  obtain ⟨rfl, rfl, rfl⟩ | ⟨rfl, hread⟩ := hcases
  · exact ⟨_, by rw [hcs]; simp, members_last _ hb₀ ht hb₁ hb₂ htext hb₃⟩
  · obtain ⟨w, rfl, hw⟩ := ih.members hread
    exact ⟨_, by rw [hcs]; simp, members_more hb₀ ht hb₁ hb₂ htext hb₃ hw⟩

/-- **What is read is read from a text of its own**, at any depth. -/
theorem readers_local (n : ℕ) : Local ft n := by
  induction n with
  | zero => exact ⟨by simp [readValue], by simp [readElements], by simp [readMembers]⟩
  | succ n ih => exact ⟨ih.succ_value, ih.succ_elements, ih.succ_members⟩

/-! ## `json.loads` -/

theorem blank_of_skipSpace (h : skipSpace cs = []) : Blank cs := by
  obtain ⟨b, hb, hcs, -⟩ := exists_blank cs
  rw [h, List.append_nil] at hcs
  rwa [hcs]

theorem skipSpace_blank {b : Text} (hb : Blank b) : skipSpace b = [] := by
  simpa using skipSpace_append (r := []) hb (by simp)

theorem exists_objectText {items : List (Yaml × Yaml)} (h : loads ft cs = some (.map items)) :
    ∃ b u e, cs = b ++ (u ++ e) ∧ Blank b ∧ Blank e ∧ ObjectText ft u items := by
  obtain ⟨b, hb, hcs, -⟩ := exists_blank cs
  unfold loads at h
  split at h
  · rename_i v rest hread
    split at h
    · rename_i hrest
      cases h
      obtain ⟨u, hu, -, htext⟩ := (readers_local _).value hread
      exact ⟨b, u, rest, by rw [← hu]; exact hcs, hb, blank_of_skipSpace hrest, htext items rfl⟩
    · cases h
  · cases h

/-- What opens with another bracket is no object. -/
theorem loads_ne_map {items : List (Yaml × Yaml)} : loads ft ('[' :: cs) ≠ some (.map items) := by
  intro h
  obtain ⟨b, u, e, hcs, hb, -, hu⟩ := exists_objectText h
  cases b with
  | nil =>
      obtain ⟨t, rfl⟩ := hu.opens
      cases (List.cons.inj hcs).1
  | cons c b =>
      obtain rfl : '[' = c := (List.cons.inj hcs).1
      cases hb '[' List.mem_cons_self

theorem ObjectText.loads {u : Text} {items : List (Yaml × Yaml)} (h : ObjectText ft u items) :
    loads ft u = some (.map items) := by
  have hskip : skipSpace u = u := by
    obtain ⟨t, rfl⟩ := h.opens
    exact skipSpace_append (b := []) (by simp [Blank]) (by simp [space])
  have hread := h.read (2 * u.length + 1) [] (by omega)
  rw [List.append_nil] at hread
  rw [JsonText.loads, hskip, hread]
  rfl

/-- **No text of an object is a beginning of another.** -/
theorem ObjectText.unique {u w e : Text} {items items' : List (Yaml × Yaml)} (h : ObjectText ft u items)
    (hw : ObjectText ft w items') (heq : u ++ r = w ++ e) : u = w := by
  have hu := h.read (u.length + w.length) r (by omega)
  have hread := hw.read (u.length + w.length) e (by omega)
  rw [heq, hread] at hu
  obtain rfl : e = r := by
    cases hu
    rfl
  exact List.append_cancel_right heq

end CryptoAggHarmonic.JsonText
