import Mathlib.Algebra.Order.Field.Rat
import CryptoAggHarmonic.Lib.HalfEven
import Mathlib.Data.Int.Order.Basic
import Mathlib.Data.List.Basic
import Mathlib.Data.List.DropRight
import Mathlib.Data.List.Infix
import Mathlib.Tactic.FieldSimp
import Mathlib.Tactic.Linarith
import Mathlib.Tactic.Positivity
import Mathlib.Tactic.Ring

/-!
# Texts

The format specifications of f-strings the modelled functions use, and `str.strip`. A number is an exact rational, so
a format rounds it half to even, as Python does on the exact value of a float.
-/

namespace CryptoAggHarmonic

open Rounding

def fracDigits (d n : ℕ) : String :=
  let s := toString n
  String.ofList (List.replicate (d - s.length) '0') ++ s

/-- `f"{x:.df}"` -/
def fmtFixed (d : ℕ) (x : ℚ) : String :=
  let n := (halfEven (|x| * 10 ^ d)).toNat
  let whole := toString (n / 10 ^ d)
  let sign := if x < 0 then "-" else ""
  if d = 0 then sign ++ whole else sign ++ whole ++ "." ++ fracDigits d (n % 10 ^ d)

/-- `f"{x:.0%}"` -/
def fmtPercent (x : ℚ) : String := fmtFixed 0 (x * 100) ++ "%"

/-- `f"{x}"` for a float `x` that is a decimal with four digits: trailing zeros go, one digit stays. -/
def fmtFloat4 (x : ℚ) : String :=
  let n := (halfEven (|x| * 10 ^ 4)).toNat
  let sign := if x < 0 then "-" else ""
  let digits := ((fracDigits 4 (n % 10 ^ 4)).toList.reverse.dropWhile (· == '0')).reverse
  sign ++ toString (n / 10 ^ 4) ++ "." ++ if digits.isEmpty then "0" else String.ofList digits

/-! ## Blanks -/

/-- `str.isspace` for one character. -/
def pyIsSpace (c : Char) : Bool :=
  let n := c.toNat
  (9 ≤ n && n ≤ 13) || (28 ≤ n && n ≤ 32) || n = 0x85 || n = 0xa0 || n = 0x1680 || (0x2000 ≤ n && n ≤ 0x200a) ||
    n = 0x2028 || n = 0x2029 || n = 0x202f || n = 0x205f || n = 0x3000

/-- `s.strip()` -/
def pyStrip (s : List Char) : List Char := ((s.dropWhile pyIsSpace).reverse.dropWhile pyIsSpace).reverse

theorem dropWhile_head {p : Char → Bool} {s : List Char} {d : Char} (h : d ∈ (s.dropWhile p).head?) : p d = false := by
  have := List.head?_dropWhile_not p s
  rw [Option.mem_def.mp h] at this
  simpa using this

section

variable {s b e : List Char} {c d : Char}

/-- A stripped text ends with a character that is no blank. -/
theorem pyStrip_getLast (h : d ∈ (pyStrip s).getLast?) : pyIsSpace d = false := by
  rw [pyStrip, List.getLast?_reverse] at h
  exact dropWhile_head h

theorem pyStrip_ne_nil (hc : c ∈ s) (hblank : pyIsSpace c = false) : pyStrip s ≠ [] := by
  have hkeep {t : List Char} (ht : c ∈ t) : c ∈ t.dropWhile pyIsSpace := by
    rw [← List.takeWhile_append_dropWhile (p := pyIsSpace) (l := t), List.mem_append] at ht
    rcases ht with ht | ht
    · have := List.mem_takeWhile_imp ht
      rw [hblank] at this
      cases this
    · exact ht
  have hmem : c ∈ pyStrip s := List.mem_reverse.mpr (hkeep (List.mem_reverse.mpr (hkeep hc)))
  exact List.ne_nil_of_mem hmem

theorem dropWhile_of_head {p : Char → Bool} (h : ∀ c ∈ s.head?, p c = false) : s.dropWhile p = s := by
  cases s with
  | nil => rfl
  | cons c s => rw [List.dropWhile_cons_of_neg (by simp [h c rfl])]

theorem pyStrip_append_left (hb : ∀ c ∈ b, pyIsSpace c = true) : pyStrip (b ++ s) = pyStrip s := by
  rw [pyStrip, List.dropWhile_append_of_pos hb, pyStrip]

/-- A text that opens with no blank loses only the blanks at its end. -/
theorem pyStrip_append_right (hs : ∀ c ∈ s.head?, pyIsSpace c = false) (hlast : ∀ c ∈ s.getLast?, pyIsSpace c = false)
    (he : ∀ c ∈ e, pyIsSpace c = true) : pyStrip (s ++ e) = s := by
  cases s with
  | nil =>
      rw [pyStrip, List.nil_append, List.dropWhile_eq_nil_iff.mpr he]
      rfl
  | cons c s =>
      have hwhole : (c :: s ++ e).dropWhile pyIsSpace = c :: s ++ e := dropWhile_of_head hs
      rw [pyStrip, hwhole, List.reverse_append,
        List.dropWhile_append_of_pos fun c hc => he c (List.mem_reverse.mp hc), dropWhile_of_head, List.reverse_reverse]
      rwa [List.head?_reverse]

theorem exists_pyStrip_append (hs : ∀ c ∈ s.head?, pyIsSpace c = false) : ∃ e, s = pyStrip s ++ e := by
  obtain ⟨e, he⟩ : (s.reverse.dropWhile pyIsSpace).reverse <+: s.reverse.reverse :=
    List.reverse_prefix.mpr (List.dropWhile_suffix pyIsSpace)
  rw [List.reverse_reverse] at he
  exact ⟨e, by rw [pyStrip, dropWhile_of_head hs, he]⟩

/-- Stripping takes blanks off both ends. -/
theorem exists_strip (text : List Char) : ∃ b e, text = b ++ (pyStrip text ++ e) ∧ (∀ c ∈ b, pyIsSpace c = true) ∧
    ∀ c ∈ e, pyIsSpace c = true := by
  have hfront := List.takeWhile_append_dropWhile (p := pyIsSpace) (l := text)
  have hback := List.takeWhile_append_dropWhile (p := pyIsSpace) (l := (text.dropWhile pyIsSpace).reverse)
  refine ⟨text.takeWhile pyIsSpace, ((text.dropWhile pyIsSpace).reverse.takeWhile pyIsSpace).reverse, ?_,
    fun c hc => List.mem_takeWhile_imp hc, fun c hc => List.mem_takeWhile_imp (List.mem_reverse.mp hc)⟩
  rw [pyStrip, ← List.reverse_append, hback, List.reverse_reverse, hfront]

theorem infix_of_pyStrip (text : List Char) : pyStrip text <:+: text := by
  obtain ⟨b, e, htext, -, -⟩ := exists_strip text
  exact ⟨b, e, by rw [List.append_assoc]; exact htext.symm⟩

end

theorem mem_intercalate {sep : List Char} {texts : List (List Char)} {c : Char} (h : c ∈ sep.intercalate texts) :
    c ∈ sep ∨ ∃ t ∈ texts, c ∈ t := by
  induction texts with
  | nil => cases h
  | cons t texts ih =>
      cases texts with
      | nil => exact Or.inr ⟨t, List.mem_cons_self, by simpa using h⟩
      | cons u texts =>
          rw [List.intercalate_cons_cons, List.mem_append, List.mem_append] at h
          obtain (h | h) | h := h
          · exact Or.inr ⟨t, List.mem_cons_self, h⟩
          · exact Or.inl h
          · obtain h | ⟨t', ht', h⟩ := ih h
            · exact Or.inl h
            · exact Or.inr ⟨t', List.mem_cons_of_mem _ ht', h⟩

/-!
# Slices

Python's slices of a list and the ranges of a Redis list: negative positions count from the end.
-/

section

variable {α : Type*} {xs : List α} {start n : ℤ}

def clampIndex (length : ℕ) (i : ℤ) : ℕ := if i < 0 then (i + length).toNat else min i.toNat length

/-- `xs[start:stop]` -/
def pySlice (xs : List α) (start stop : ℤ) : List α :=
  (xs.take (clampIndex xs.length stop)).drop (clampIndex xs.length start)

/-- `LRANGE`: the stop belongs to the range. -/
def lrange (xs : List α) (start stop : ℤ) : List α :=
  (xs.take (lrangeIndex xs.length stop + 1).toNat).drop (lrangeIndex xs.length start).toNat
where
  lrangeIndex (length : ℕ) (i : ℤ) : ℤ := if i < 0 then i + length else i

theorem take_drop_prefix (xs : List α) (a b : ℕ) : (xs.take a).drop b <+: xs.drop b := by
  rw [List.drop_take]
  exact List.take_prefix _ _

theorem lrange_prefix (h : 0 ≤ start) (stop : ℤ) : lrange xs start stop <+: xs.drop start.toNat := by
  rw [lrange, lrange.lrangeIndex, if_neg (by omega : ¬ start < 0)]
  exact take_drop_prefix ..

theorem pySlice_prefix (h : 0 ≤ start) (stop : ℤ) : pySlice xs start stop <+: xs.drop start.toNat := by
  rw [pySlice, clampIndex, clampIndex, if_neg (by omega : ¬ start < 0)]
  rcases Nat.le_total start.toNat xs.length with hle | hle
  · rw [Nat.min_eq_left hle]
    exact take_drop_prefix ..
  · rw [Nat.min_eq_right hle, List.drop_eq_nil_of_le (List.length_take_le' _ _)]
    exact List.nil_prefix

theorem lrange_eq (h : 0 ≤ start) (hn : 1 ≤ n) :
    lrange xs start (start + n - 1) = (xs.drop start.toNat).take n.toNat := by
  rw [lrange, lrange.lrangeIndex, lrange.lrangeIndex, if_neg (by omega : ¬ start < 0),
    if_neg (by omega : ¬ start + n - 1 < 0), List.drop_take]
  congr 1
  omega

theorem pySlice_eq (h : 0 ≤ start) (hn : 1 ≤ n) :
    pySlice xs start (start + n) = (xs.drop start.toNat).take n.toNat := by
  rw [pySlice, clampIndex, clampIndex, if_neg (by omega : ¬ start < 0), if_neg (by omega : ¬ start + n < 0)]
  rcases Nat.le_total start.toNat xs.length with hle | hle
  · rw [Nat.min_eq_left hle, List.drop_take]
    rcases Nat.le_total (start + n).toNat xs.length with hstop | hstop
    · rw [Nat.min_eq_left hstop]
      congr 1
      omega
    · rw [Nat.min_eq_right hstop, List.take_of_length_le (by simp), List.take_of_length_le (by simp; omega)]
  · rw [Nat.min_eq_right hle, List.drop_eq_nil_of_le (List.length_take_le' _ _), List.drop_eq_nil_of_le hle,
      List.take_nil]

/-- `xs[-n:]` -/
theorem pySlice_last {k : ℕ} (hk : 1 ≤ k) :
    pySlice xs (-(k : ℤ)) xs.length = xs.drop (xs.length - k) := by
  rw [pySlice, clampIndex, clampIndex, if_pos (by omega : -(k : ℤ) < 0), if_neg (by omega : ¬ (xs.length : ℤ) < 0)]
  simp only [Int.toNat_natCast, Nat.min_self, List.take_length]
  congr 1
  omega

end

/-!
# Decimals

What is read of a number that has been written with a fixed number of decimals, less the zeros at its end.
-/

/-- `s.rstrip(c)` for one character. -/
def pyRstrip (c : Char) (s : List Char) : List Char := s.rdropWhile (· == c)

/-- The number that a text without a sign and an exponent stands for. -/
def readDecimal (text : List Char) : ℚ :=
  let whole := text.takeWhile (· ≠ '.')
  let frac := (text.dropWhile (· ≠ '.')).drop 1
  Nat.ofDigitChars 10 whole 0 + Nat.ofDigitChars 10 frac 0 / 10 ^ frac.length

theorem digit_ne_dot {c : Char} {n : ℕ} (h : c ∈ Nat.toDigits 10 n) : c ≠ '.' := by
  rintro rfl
  exact absurd (Nat.isDigit_of_mem_toDigits (by decide) (by decide) h) (by decide)

theorem readDecimal_whole {whole : List Char} (hwhole : ∀ c ∈ whole, c ≠ '.') :
    readDecimal whole = Nat.ofDigitChars 10 whole 0 := by
  have hall : ∀ c ∈ whole, (decide (c ≠ '.')) = true := fun c hc => decide_eq_true (hwhole c hc)
  simp only [readDecimal, List.takeWhile_eq_self_iff.mpr hall, List.dropWhile_eq_nil_iff.mpr hall]
  simp

theorem readDecimal_point {whole frac : List Char} (hwhole : ∀ c ∈ whole, c ≠ '.') :
    readDecimal (whole ++ '.' :: frac) =
      Nat.ofDigitChars 10 whole 0 + Nat.ofDigitChars 10 frac 0 / 10 ^ frac.length := by
  have hall : ∀ c ∈ whole, (decide (c ≠ '.')) = true := fun c hc => decide_eq_true (hwhole c hc)
  simp only [readDecimal, List.takeWhile_append_of_pos hall, List.dropWhile_append_of_pos hall]
  simp

theorem pyRstrip_self (c : Char) (s : List Char) : pyRstrip c (s ++ [c]) = pyRstrip c s :=
  List.rdropWhile_concat_pos _ _ _ (beq_self_eq_true c)

theorem pyRstrip_of_ne {c d : Char} (h : d ≠ c) (s : List Char) : pyRstrip c (s ++ [d]) = s ++ [d] :=
  List.rdropWhile_concat_neg _ _ _ (by simpa using h)

/-- Zeros at the end of the decimals say nothing. -/
theorem readDecimal_rstrip {whole frac : List Char} (hne : whole ≠ []) (hwhole : ∀ c ∈ whole, c ≠ '.')
    (hfrac : ∀ c ∈ frac, c ≠ '.') :
    readDecimal (pyRstrip '.' (pyRstrip '0' (whole ++ '.' :: frac))) = readDecimal (whole ++ '.' :: frac) := by
  induction frac using List.reverseRecOn with
  | nil =>
      obtain ⟨front, last, rfl⟩ : ∃ front last, whole = front ++ [last] :=
        ⟨_, _, (List.dropLast_append_getLast hne).symm⟩
      rw [pyRstrip_of_ne (by decide), pyRstrip_self, pyRstrip_of_ne (hwhole last (by simp)), readDecimal_whole hwhole,
        readDecimal_point hwhole]
      simp
  | append_singleton frac c ih =>
      have hrest : ∀ d ∈ frac, d ≠ '.' := fun d hd => hfrac d (List.mem_append_left _ hd)
      have hlast : whole ++ '.' :: (frac ++ [c]) = (whole ++ '.' :: frac) ++ [c] := by simp
      by_cases hc : c = '0'
      · subst hc
        rw [hlast, pyRstrip_self, ih hrest, ← hlast, readDecimal_point hwhole, readDecimal_point hwhole,
          Nat.ofDigitChars_append, Nat.ofDigitChars_cons, Nat.ofDigitChars_nil, List.length_append, List.length_singleton, pow_succ]
        push_cast
        field_simp
        ring
      · rw [hlast, pyRstrip_of_ne hc, pyRstrip_of_ne (hfrac c (by simp))]

theorem ofDigitChars_fracDigits (d n : ℕ) : Nat.ofDigitChars 10 (fracDigits d n).toList 0 = n := by
  rw [fracDigits, String.toList_append, String.toList_ofList, Nat.ofDigitChars_append, Nat.ofDigitChars_replicate_zero,
    Nat.toString_eq_ofList_toDigits, String.toList_ofList, Nat.mul_zero, Nat.ofDigitChars_ten_toDigits]

theorem length_fracDigits {d n : ℕ} (hd : d ≠ 0) (hn : n < 10 ^ d) : (fracDigits d n).toList.length = d := by
  have hle : (Nat.toDigits 10 n).length ≤ d := (Nat.length_toDigits_le_iff (by decide) (by omega)).mpr hn
  simp only [fracDigits, String.toList_append, String.toList_ofList, List.length_append, List.length_replicate,
    Nat.toString_eq_ofList_toDigits, String.length_ofList]
  omega

/-- What is read of a fixed number of decimals is the number that is rounded to them. -/
theorem toList_fmtFixed {d : ℕ} {x : ℚ} (hd : d ≠ 0) (hx : 0 ≤ x) : ∃ whole frac : List Char,
    (fmtFixed d x).toList = whole ++ '.' :: frac ∧ whole ≠ [] ∧ (∀ c ∈ whole, c ≠ '.') ∧ (∀ c ∈ frac, c ≠ '.') ∧
      readDecimal (whole ++ '.' :: frac) = roundTo d x := by
  have hscaled : 0 ≤ x * 10 ^ d := by positivity
  obtain ⟨n, hn⟩ : ∃ n : ℕ, halfEven (x * 10 ^ d) = n :=
    Int.eq_ofNat_of_zero_le ((le_halfEven_of_even Even.zero).mpr (by push_cast; linarith))
  have hwhole : ∀ c ∈ Nat.toDigits 10 (n / 10 ^ d), c ≠ '.' := fun c hc => digit_ne_dot hc
  refine ⟨Nat.toDigits 10 (n / 10 ^ d), (fracDigits d (n % 10 ^ d)).toList, ?_, Nat.toDigits_ne_nil, hwhole, ?_, ?_⟩
  · simp only [fmtFixed, abs_of_nonneg hx, hn, Int.toNat_natCast, not_lt.mpr hx, if_false, hd,
      Nat.toString_eq_ofList_toDigits, String.toList_append, String.toList_ofList]
    simp
  · intro c hc
    rw [fracDigits, String.toList_append, List.mem_append, String.toList_ofList, Nat.toString_eq_ofList_toDigits,
      String.toList_ofList] at hc
    rcases hc with hc | hc
    · rw [List.eq_of_mem_replicate hc]
      decide
    · exact digit_ne_dot hc
  · have hlt : n % 10 ^ d < 10 ^ d := Nat.mod_lt _ (by positivity)
    rw [readDecimal_point hwhole, Nat.ofDigitChars_ten_toDigits, ofDigitChars_fracDigits, length_fracDigits hd hlt, roundTo,
      hn]
    have hsum := Nat.div_add_mod n (10 ^ d)
    have hq : (n : ℚ) = 10 ^ d * (n / 10 ^ d : ℕ) + (n % 10 ^ d : ℕ) := by exact_mod_cast hsum.symm
    rw [Int.cast_natCast, eq_div_iff (by positivity), add_mul, div_mul_cancel₀ _ (by positivity), hq]
    ring

/-!
# Lines

Reading a text file, and the lines of a text.
-/

section

variable {c : Char} {x line l log rest : List Char}

/-- Reading a text file: every line ends with `\n`, also one that was written with `\r` or `\r\n`. -/
def universalNewlines : List Char → List Char
  | '\r' :: '\n' :: cs => '\n' :: universalNewlines cs
  | '\r' :: cs => '\n' :: universalNewlines cs
  | c :: cs => c :: universalNewlines cs
  | [] => []

/-- The text before the first `pat`. -/
def textBefore (pat : List Char) : List Char → Option (List Char)
  | [] => if pat = [] then some [] else none
  | c :: cs => if pat.isPrefixOf (c :: cs) then some [] else (textBefore pat cs).map (c :: ·)

def isLineBreak (c : Char) : Bool :=
  let n := c.toNat
  (10 ≤ n && n ≤ 13) || (28 ≤ n && n ≤ 30) || n = 0x85 || n = 0x2028 || n = 0x2029

/-- `str.splitlines`; the line read so far is reversed. -/
def splitlinesFrom (line : List Char) : List Char → List (List Char)
  | [] => if line = [] then [] else [line.reverse]
  | '\r' :: '\n' :: cs => line.reverse :: splitlinesFrom [] cs
  | c :: cs => if isLineBreak c then line.reverse :: splitlinesFrom [] cs else splitlinesFrom (c :: line) cs

/-- `s.splitlines()` -/
def splitlines (s : List Char) : List (List Char) := splitlinesFrom [] s

theorem universalNewlines_of_no_return (h : '\r' ∉ x) : universalNewlines x = x := by
  fun_induction universalNewlines x with
  | case1 cs => simp at h
  | case2 cs => simp at h
  | case3 d cs hcrlf hcr ih => simp_all
  | case4 => rfl

theorem splitlinesFrom_break (hc : isLineBreak c = true) (hcr : c ≠ '\r' ∨ rest.head? ≠ some '\n') :
    splitlinesFrom line (c :: rest) = line.reverse :: splitlinesFrom [] rest := by
  rw [splitlinesFrom]
  · rw [if_pos hc]
  · rintro more rfl rfl
    simp at hcr

theorem splitlinesFrom_line (line rest : List Char) (hl : ∀ c ∈ l, isLineBreak c = false) :
    splitlinesFrom line (l ++ rest) = splitlinesFrom (l.reverse ++ line) rest := by
  induction l generalizing line with
  | nil => rfl
  | cons c l ih =>
      have hc : isLineBreak c = false := hl c List.mem_cons_self
      rw [List.cons_append, splitlinesFrom]
      · rw [hc, if_neg Bool.false_ne_true, ih _ fun d hd => hl d (List.mem_cons_of_mem c hd)]
        simp
      · rintro more rfl
        cases hc

/-- Lines that end with a newline stand apart from what follows. -/
theorem splitlinesFrom_newline :
    splitlinesFrom line (log ++ '\n' :: rest) = splitlinesFrom line (log ++ ['\n']) ++ splitlinesFrom [] rest := by
  fun_induction splitlinesFrom line log with
  | case1 => simp [splitlinesFrom, isLineBreak]
  | case2 => simp [splitlinesFrom, isLineBreak]
  | case3 line cs ih => simp only [List.cons_append, splitlinesFrom, ih]
  | case4 line c cs hcr hc ih =>
      cases cs with
      | nil =>
          by_cases hreturn : c = '\r'
          · subst hreturn
            rfl
          · simp only [List.cons_append]
            rw [splitlinesFrom_break hc (Or.inl hreturn), splitlinesFrom_break hc (Or.inl hreturn), ih, List.cons_append]
      | cons d cs =>
          have hcr' : c ≠ '\r' ∨ d ≠ '\n' := by
            by_contra hboth
            simp only [not_or, not_not] at hboth
            exact hcr cs hboth.1 (by rw [hboth.2])
          simp only [List.cons_append] at ih ⊢
          rw [splitlinesFrom_break hc (by simpa using hcr'), splitlinesFrom_break hc (by simpa using hcr'), ih,
            List.cons_append]
  | case5 line c cs hcr hc ih =>
      have hline : ∀ d ∈ [c], isLineBreak d = false := by simpa using hc
      have hfirst := splitlinesFrom_line line (cs ++ '\n' :: rest) hline
      have hsecond := splitlinesFrom_line line (cs ++ ['\n']) hline
      simp only [List.singleton_append, List.reverse_singleton] at hfirst hsecond
      rw [List.cons_append, List.cons_append, hfirst, hsecond, ih]

theorem splitlines_append (hlog : log = [] ∨ log.getLast? = some '\n') :
    splitlines (log ++ rest) = splitlines log ++ splitlines rest := by
  obtain rfl | hlast := hlog
  · rfl
  · obtain ⟨front, rfl⟩ := List.getLast?_eq_some_iff.mp hlast
    rw [List.append_assoc, List.singleton_append]
    exact splitlinesFrom_newline

/-- Lines are read as they were written, one after another. -/
theorem splitlines_lines {lines : List (List Char)} (h : ∀ line ∈ lines, ∀ c ∈ line, isLineBreak c = false) :
    splitlines (lines.flatMap (· ++ ['\n'])) = lines := by
  induction lines with
  | nil => rfl
  | cons line lines ih =>
      have hrest := ih fun l hl => h l (List.mem_cons_of_mem line hl)
      rw [List.flatMap_cons, List.append_assoc, splitlines, splitlinesFrom_line [] _ (h line List.mem_cons_self),
        List.singleton_append, splitlinesFrom_break rfl (Or.inl (by decide))]
      rw [splitlines] at hrest
      simp [hrest]

theorem join_splitlinesFrom (hplain : ∀ c ∈ x, isLineBreak c = true → c = '\n')
    (hlast : x.getLast? = some '\n' ∨ x = [] ∧ line = []) :
    (splitlinesFrom line x).flatMap (· ++ ['\n']) = line.reverse ++ x := by
  induction x generalizing line with
  | nil =>
      obtain hlast | ⟨-, rfl⟩ := hlast
      · cases hlast
      · rfl
  | cons c x ih =>
      have hx : ∀ d ∈ x, isLineBreak d = true → d = '\n' := fun d hd => hplain d (List.mem_cons_of_mem c hd)
      have hlast' : (c :: x).getLast? = some '\n' := by
        obtain hlast | ⟨hnil, -⟩ := hlast
        · exact hlast
        · cases hnil
      cases hc : isLineBreak c with
      | true =>
          obtain rfl := hplain c List.mem_cons_self hc
          rw [splitlinesFrom_break hc (Or.inl (by decide)), List.flatMap_cons, ih hx]
          · simp
          · cases x with
            | nil => exact Or.inr ⟨rfl, rfl⟩
            | cons d x => exact Or.inl (by simpa [List.getLast?_cons_cons] using hlast')
      | false =>
          have hline := splitlinesFrom_line (l := [c]) line x (by simpa using hc)
          rw [List.singleton_append] at hline
          rw [hline, ih hx]
          · simp
          · cases x with
            | nil =>
                cases hlast'
                cases hc
            | cons d x => exact Or.inl (by simpa [List.getLast?_cons_cons] using hlast')

/-- Lines that `\n` alone ends are put back together. -/
theorem join_splitlines (hplain : ∀ c ∈ x, isLineBreak c = true → c = '\n') (hlast : x.getLast? = some '\n') :
    (splitlines x).flatMap (· ++ ['\n']) = x := by
  rw [splitlines, join_splitlinesFrom hplain (Or.inl hlast), List.reverse_nil, List.nil_append]

/-- The first `pat` is the one after `x`, where `x` has none and ends a line. -/
theorem textBefore_append {pat : List Char} (hx : ¬pat <:+: x) (hlast : x = [] ∨ x.getLast? = some '\n')
    (hpat : '\n' ∉ pat) (hrest : pat <+: rest) (hne : pat ≠ []) : textBefore pat (x ++ rest) = some x := by
  induction x with
  | nil =>
      obtain ⟨t, rfl⟩ := hrest
      cases pat with
      | nil => exact absurd rfl hne
      | cons p pat =>
          rw [List.nil_append, List.cons_append, textBefore, if_pos (List.isPrefixOf_iff_prefix.mpr ?_)]
          exact ⟨t, rfl⟩
  | cons c x ih =>
      have hnot : ¬pat <+: c :: (x ++ rest) := by
        intro hprefix
        rcases List.prefix_or_prefix_of_prefix hprefix (List.prefix_append (c :: x) rest) with h | h
        · exact hx h.isInfix
        · have hend : '\n' ∈ c :: x := by
            obtain hnil | hend := hlast
            · cases hnil
            · exact List.mem_of_getLast? hend
          exact hpat (h.subset hend)
      rw [List.cons_append, textBefore, if_neg fun h => hnot (List.isPrefixOf_iff_prefix.mp h), ih]
      · rfl
      · exact fun h => hx (h.trans (List.suffix_cons c x).isInfix)
      · cases x with
        | nil => exact Or.inl rfl
        | cons d x =>
            obtain hnil | hend := hlast
            · cases hnil
            · exact Or.inr (by simpa [List.getLast?_cons_cons] using hend)

end

end CryptoAggHarmonic
