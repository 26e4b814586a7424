import CryptoAggHarmonic.Harness.Runner
import CryptoAggHarmonic.Python.Files
import CryptoAggHarmonic.Python.Text

/-!
# Quarters

`quarter_mask` of the harness, and `list_quarters` of `app/loop/walk_forward.py`. A timestamp is the seconds since 1970
in UTC; the bounds of the time type are left out.
-/

namespace CryptoAggHarmonic.Harness

open Domain PyOs

/-! ## The calendar -/

def IsLeap (year : ℤ) : Prop := year % 4 = 0 ∧ (year % 100 ≠ 0 ∨ year % 400 = 0)

instance (year : ℤ) : Decidable (IsLeap year) := inferInstanceAs (Decidable (_ ∧ _))

def daysBeforeYear (year : ℤ) : ℤ := (year - 1) * 365 + (year - 1) / 4 - (year - 1) / 100 + (year - 1) / 400

def daysInMonth (year : ℤ) (month : ℕ) : ℤ :=
  if month = 2 then if IsLeap year then 29 else 28
  else if month = 4 ∨ month = 6 ∨ month = 9 ∨ month = 11 then 30
  else 31

def daysBeforeMonth (year : ℤ) : ℕ → ℤ
  | 0 => 0
  | 1 => 0
  | month + 2 => daysBeforeMonth year (month + 1) + daysInMonth year (month + 1)

def toOrdinal (year : ℤ) (month : ℕ) (day : ℤ) : ℤ := daysBeforeYear year + daysBeforeMonth year month + day

def epochOrdinal : ℤ := 719163

/-- The start of a day. -/
def midnight (year : ℤ) (month : ℕ) (day : ℤ) : ℤ := (toOrdinal year month day - epochOrdinal) * 86400

/-- The date of the timestamp is in the quarter. -/
def InQuarter (year : ℤ) (q : ℕ) (dts : ℤ) : Prop :=
  ∃ month day, 3 * q < month + 3 ∧ month ≤ 3 * q ∧ 1 ≤ day ∧ day ≤ daysInMonth year month ∧
    dts / 86400 + epochOrdinal = toOrdinal year month day

/-! ## Labels -/

def isDigits (s : Text) : Bool := (s.splitOn '_').all fun group => !group.isEmpty && group.all Char.isDigit

/-- `int(s)`, for a text in ASCII. -/
def readInt (s : Text) : Option ℤ :=
  let digits (cs : Text) : Option ℤ :=
    if isDigits cs then some (Nat.ofDigitChars 10 (cs.filter Char.isDigit) 0) else none
  match pyStrip s with
  | '-' :: cs => (digits cs).map (- ·)
  | '+' :: cs => digits cs
  | cs => digits cs

/-- `a, b = s.split(sep)` -/
def splitPair (sep s : Text) : Option (Text × Text) :=
  match textBefore sep s with
  | none => none
  | some before =>
      let after := s.drop (before.length + sep.length)
      if (textBefore sep after).isSome then none else some (before, after)

def intText (n : ℤ) : Text := if n < 0 then '-' :: Nat.toDigits 10 n.natAbs else Nat.toDigits 10 n.natAbs

/-- `f"{year}-Q{q}"` -/
def quarterLabel (year : ℤ) (q : ℕ) : Text := intText year ++ "-Q".toList ++ intText q

/-- The loop of `list_quarters`. -/
def quartersFrom (year : ℤ) (q : ℕ) : ℕ → List Text
  | 0 => []
  | n + 1 => quarterLabel year q :: if q + 1 > 4 then quartersFrom (year + 1) 1 n else quartersFrom year (q + 1) n

def listQuarters (startYear : ℤ) (nQuarters : ℕ) : List Text := quartersFrom startYear 1 nQuarters

/-- `none` where it raises. The end is the last calendar day of the quarter, at midnight. -/
def quarterMask (df4 : List Candle) (quarter : Option Text) : Option (List Candle) :=
  match quarter with
  | none => some df4
  | some quarter => do
      let (yearStr, qStr) ← splitPair "-Q".toList quarter
      let year ← readInt yearStr
      let q ← readInt qStr
      let month := (q - 1) * 3 + 1
      if 1 ≤ month ∧ month ≤ 12 then
        let start := midnight year month.toNat 1
        let lastMonth := month.toNat + 2
        let stop := midnight year lastMonth (daysInMonth year lastMonth)
        some (df4.filter fun row => decide (start ≤ row.dts ∧ row.dts ≤ stop))
      else none

/-- What `walk_forward` takes from the frame: one slice for each quarter. -/
def slices (df4 : List Candle) (quarters : List Text) : Option (List (List Candle)) :=
  quarters.mapM fun quarter => quarterMask df4 (some quarter)

/-! ## Reading a label -/

section

variable {a b : Char} {s x rest : Text} {year dts k : ℤ} {q m n : ℕ}

theorem textBefore_pair (hab : a ≠ b) (hx : b ∉ x) : textBefore [a, b] (x ++ a :: b :: rest) = some x := by
  induction x with
  | nil => simp [textBefore]
  | cons c x ih =>
      rw [List.mem_cons, not_or] at hx
      have hnot : ¬[a, b].isPrefixOf (c :: (x ++ a :: b :: rest)) = true := by
        intro h
        obtain ⟨t, ht⟩ := List.isPrefixOf_iff_prefix.mp h
        have hsecond := (List.cons.inj ht).2
        cases x with
        | nil => exact hab (List.cons.inj hsecond).1.symm
        | cons d x => exact hx.2 ((List.cons.inj hsecond).1 ▸ List.mem_cons_self)
      rw [List.cons_append, textBefore, if_neg hnot, ih hx.2]
      rfl

theorem textBefore_none (hs : b ∉ s) : textBefore [a, b] s = none := by
  induction s with
  | nil => rfl
  | cons c s ih =>
      rw [List.mem_cons, not_or] at hs
      have hnot : ¬[a, b].isPrefixOf (c :: s) = true := by
        intro h
        obtain ⟨t, ht⟩ := List.isPrefixOf_iff_prefix.mp h
        exact hs.2 ((List.cons.inj ht).2 ▸ List.mem_cons_self)
      rw [textBefore, if_neg hnot, ih hs.2]
      rfl

theorem isDigit_digits {c : Char} (h : c ∈ Nat.toDigits 10 n) : c.isDigit = true :=
  Nat.isDigit_of_mem_toDigits (by decide) (by decide) h

theorem isDigit_plain {c : Char} (h : c.isDigit = true) : pyIsSpace c = false ∧ c ≠ '-' ∧ c ≠ '+' ∧ c ≠ 'Q' ∧ c ≠ '_' := by
  have hrange : 48 ≤ c.toNat ∧ c.toNat ≤ 57 := Char.isDigit_iff_toNat.mp h
  refine ⟨?_, ?_, ?_, ?_, ?_⟩
  · rw [Bool.eq_false_iff]
    intro hspace
    simp only [pyIsSpace, Bool.or_eq_true, Bool.and_eq_true, decide_eq_true_eq] at hspace
    omega
  all_goals
    rintro rfl
    revert h
    decide

theorem isDigits_digits (n : ℕ) : isDigits (Nat.toDigits 10 n) = true := by
  have hbar : '_' ∉ Nat.toDigits 10 n := fun h => (isDigit_plain (isDigit_digits h)).2.2.2.2 rfl
  rw [isDigits, List.splitOn_eq_singleton hbar]
  simp only [List.all_cons, List.all_nil, Bool.and_true, Bool.and_eq_true, Bool.not_eq_true', List.isEmpty_eq_false_iff,
    List.all_eq_true]
  exact ⟨Nat.toDigits_ne_nil, fun c hc => isDigit_digits hc⟩

theorem pyStrip_self {s : Text} (hs : ∀ c ∈ s, pyIsSpace c = false) : pyStrip s = s := by
  have h := @pyStrip_append_right s [] (fun c hc => hs c (List.mem_of_head? hc))
    (fun c hc => hs c (List.mem_of_getLast? hc)) (by simp)
  rwa [List.append_nil] at h

theorem readInt_intText (n : ℤ) : readInt (intText n) = some n := by
  have hfilter : (Nat.toDigits 10 n.natAbs).filter Char.isDigit = Nat.toDigits 10 n.natAbs :=
    List.filter_eq_self.mpr fun c hc => isDigit_digits hc
  unfold readInt intText
  split_ifs with hneg
  · rw [pyStrip_self]
    · simp only [isDigits_digits, if_true, hfilter, Nat.ofDigitChars_ten_toDigits, Option.map_some, Option.some.injEq]
      omega
    · intro c hc
      obtain rfl | hc := List.mem_cons.mp hc
      · rfl
      · exact (isDigit_plain (isDigit_digits hc)).1
  · rw [pyStrip_self fun c hc => (isDigit_plain (isDigit_digits hc)).1]
    obtain ⟨c, cs, hcs⟩ := List.exists_cons_of_ne_nil (Nat.toDigits_ne_nil (b := 10) (n := n.natAbs))
    have hc : c.isDigit = true := isDigit_digits (n := n.natAbs) (by rw [hcs]; exact List.mem_cons_self)
    have hdigits := isDigits_digits n.natAbs
    have hvalue := Nat.ofDigitChars_ten_toDigits (n := n.natAbs)
    rw [hcs] at hfilter hdigits hvalue ⊢
    split
    · rename_i heq
      exact absurd (List.cons.inj heq).1 (isDigit_plain hc).2.1
    · rename_i heq
      exact absurd (List.cons.inj heq).1 (isDigit_plain hc).2.2.1
    · simp only [hdigits, if_true, hfilter, hvalue, Option.some.injEq]
      omega

theorem notMem_intText : 'Q' ∉ intText k := by
  have hdigits : ∀ n, 'Q' ∉ Nat.toDigits 10 n := fun n h => (isDigit_plain (isDigit_digits h)).2.2.2.1 rfl
  unfold intText
  split_ifs
  · simp [hdigits]
  · exact hdigits _

theorem splitPair_label (year : ℤ) (q : ℕ) :
    splitPair "-Q".toList (quarterLabel year q) = some (intText year, intText q) := by
  have hlabel : quarterLabel year q = intText year ++ '-' :: 'Q' :: intText q := by
    simp [quarterLabel]
  have hdrop : (intText year ++ '-' :: 'Q' :: intText q).drop ((intText year).length + 2) = intText q := by
    rw [← List.drop_drop, List.drop_left]
    rfl
  change splitPair ['-', 'Q'] _ = _
  rw [hlabel, splitPair, textBefore_pair (by decide) notMem_intText]
  change (if (textBefore ['-', 'Q'] (List.drop ((intText year).length + 2) _)).isSome = true then _ else _) = _
  rw [hdrop, textBefore_none notMem_intText]
  change some (intText year, List.drop ((intText year).length + 2) _) = _
  rw [hdrop]

/-- The slice of a label: its bars from the first day of the quarter to the start of the last. -/
theorem quarterMask_label (rows : List Candle) (year : ℤ) (hq : 1 ≤ q) (hq' : q ≤ 4) :
    quarterMask rows (some (quarterLabel year q)) = some (rows.filter fun row =>
      decide (midnight year (3 * q - 2) 1 ≤ row.dts ∧ row.dts ≤ midnight year (3 * q) (daysInMonth year (3 * q)))) := by
  have hmonth : (((q : ℤ) - 1) * 3 + 1).toNat = 3 * q - 2 := by omega
  have hlast : 3 * q - 2 + 2 = 3 * q := by omega
  have hrange : 1 ≤ ((q : ℤ) - 1) * 3 + 1 ∧ ((q : ℤ) - 1) * 3 + 1 ≤ 12 := by omega
  simp only [quarterMask, splitPair_label, readInt_intText, Option.bind_eq_bind, Option.bind_some, hmonth, hlast, hrange,
    and_self, if_true]

/-! ## The days of a quarter -/

theorem daysBeforeYear_succ (year : ℤ) :
    daysBeforeYear (year + 1) = daysBeforeYear year + if IsLeap year then 366 else 365 := by
  unfold daysBeforeYear IsLeap
  split_ifs <;> omega

theorem toOrdinal_nextMonth (year : ℤ) (hm : 1 ≤ m) :
    toOrdinal year (m + 1) 1 = toOrdinal year m 1 + daysInMonth year m := by
  obtain ⟨m, rfl⟩ : ∃ j, m = j + 1 := ⟨m - 1, by omega⟩
  simp only [toOrdinal, daysBeforeMonth]
  ring

theorem toOrdinal_nextYear (year : ℤ) : toOrdinal year 13 1 = toOrdinal (year + 1) 1 1 := by
  have hdays : daysBeforeMonth year 13 = if IsLeap year then 366 else 365 := by
    have hsum : daysBeforeMonth year 13 = 0 + daysInMonth year 1 + daysInMonth year 2 + daysInMonth year 3 +
      daysInMonth year 4 + daysInMonth year 5 + daysInMonth year 6 + daysInMonth year 7 + daysInMonth year 8 +
      daysInMonth year 9 + daysInMonth year 10 + daysInMonth year 11 + daysInMonth year 12 := rfl
    rw [hsum]
    by_cases hleap : IsLeap year <;> simp [daysInMonth, hleap]
  rw [toOrdinal, toOrdinal, daysBeforeYear_succ, hdays, daysBeforeMonth, add_zero]

theorem daysInMonth_pos (year : ℤ) (m : ℕ) : 28 ≤ daysInMonth year m := by
  unfold daysInMonth
  split_ifs <;> omega

/-- The ordinal of the first day of the quarters, counted from the year 0. -/
def quarterStart (k : ℤ) : ℤ := toOrdinal (k / 4) (3 * (k % 4).toNat + 1) 1

/-- A quarter ends where the next one starts. -/
theorem quarterStart_succ (k : ℤ) : quarterStart (k + 1) = toOrdinal (k / 4) (3 * (k % 4).toNat + 4) 1 := by
  by_cases hlast : k % 4 = 3
  · have hyear : (k + 1) / 4 = k / 4 + 1 := by omega
    have hmonth : (k + 1) % 4 = 0 := by omega
    rw [quarterStart, hyear, hmonth, hlast]
    exact (toOrdinal_nextYear _).symm
  · have hyear : (k + 1) / 4 = k / 4 := by omega
    have hmonth : 3 * ((k + 1) % 4).toNat + 1 = 3 * (k % 4).toNat + 4 := by omega
    rw [quarterStart, hyear, hmonth]

theorem quarter_months (year : ℤ) (m : ℕ) (hm : 1 ≤ m) :
    toOrdinal year (m + 1) 1 = toOrdinal year m 1 + daysInMonth year m ∧
      toOrdinal year (m + 2) 1 = toOrdinal year (m + 1) 1 + daysInMonth year (m + 1) ∧
      toOrdinal year (m + 3) 1 = toOrdinal year (m + 2) 1 + daysInMonth year (m + 2) :=
  ⟨toOrdinal_nextMonth year hm, toOrdinal_nextMonth year (by omega), toOrdinal_nextMonth year (by omega)⟩

theorem quarterStart_lt (k : ℤ) : quarterStart k < quarterStart (k + 1) := by
  obtain ⟨h₁, h₂, h₃⟩ := quarter_months (k / 4) (3 * (k % 4).toNat + 1) (by omega)
  have := daysInMonth_pos (k / 4) (3 * (k % 4).toNat + 1)
  have := daysInMonth_pos (k / 4) (3 * (k % 4).toNat + 1 + 1)
  have := daysInMonth_pos (k / 4) (3 * (k % 4).toNat + 1 + 2)
  have hrest : 3 * (k % 4).toNat + 1 + 3 = 3 * (k % 4).toNat + 4 := by omega
  rw [quarterStart_succ, quarterStart, ← hrest]
  omega

theorem quarterStart_lt_iff {i j : ℤ} : quarterStart i < quarterStart j ↔ i < j :=
  (strictMono_int_of_lt_succ quarterStart_lt).lt_iff_lt

theorem quarterStart_le_iff {i j : ℤ} : quarterStart i ≤ quarterStart j ↔ i ≤ j :=
  (strictMono_int_of_lt_succ quarterStart_lt).le_iff_le

/-- Every day lies in a quarter. -/
theorem exists_quarter (day : ℤ) : ∃ k, quarterStart k ≤ day ∧ day < quarterStart (k + 1) := by
  induction day using Int.inductionOn' (b := quarterStart 0) with
  | zero => exact ⟨0, le_refl _, quarterStart_lt 0⟩
  | succ day _ ih =>
      obtain ⟨k, hk, hk'⟩ := ih
      by_cases hlt : day + 1 < quarterStart (k + 1)
      · exact ⟨k, by omega, hlt⟩
      · have := quarterStart_lt (k + 1)
        exact ⟨k + 1, by omega, by omega⟩
  | pred day _ ih =>
      obtain ⟨k, hk, hk'⟩ := ih
      by_cases hle : quarterStart k ≤ day - 1
      · exact ⟨k, hle, by omega⟩
      · have := quarterStart_lt (k - 1)
        rw [sub_add_cancel] at this
        exact ⟨k - 1, by omega, by rw [sub_add_cancel]; omega⟩

/-- A day of the month, between the firsts of two months. -/
theorem exists_dayOfMonth {day : ℤ} (hm : 1 ≤ m) (hle : toOrdinal year m 1 ≤ day) (hlt : day < toOrdinal year (m + 1) 1) :
    1 ≤ day - toOrdinal year m 0 ∧ day - toOrdinal year m 0 ≤ daysInMonth year m ∧
      day = toOrdinal year m (day - toOrdinal year m 0) := by
  rw [toOrdinal_nextMonth year hm] at hlt
  simp only [toOrdinal] at *
  omega

/-- The dates of the `k`-th quarter are the days from its first to that of the next. -/
theorem inQuarter_iff : InQuarter (k / 4) ((k % 4).toNat + 1) dts ↔
    quarterStart k ≤ dts / 86400 + epochOrdinal ∧ dts / 86400 + epochOrdinal < quarterStart (k + 1) := by
  have hrest : 3 * (k % 4).toNat + 1 + 3 = 3 * (k % 4).toNat + 4 := by omega
  obtain ⟨h₁, h₂, h₃⟩ := quarter_months (k / 4) (3 * (k % 4).toNat + 1) (by omega)
  have hp₁ := daysInMonth_pos (k / 4) (3 * (k % 4).toNat + 1)
  have hp₂ := daysInMonth_pos (k / 4) (3 * (k % 4).toNat + 1 + 1)
  have hp₃ := daysInMonth_pos (k / 4) (3 * (k % 4).toNat + 1 + 2)
  rw [quarterStart_succ, quarterStart, ← hrest, InQuarter]
  generalize dts / 86400 + epochOrdinal = date
  constructor
  · rintro ⟨month, day, hlow, hhigh, hday, hday', rfl⟩
    have hordinal : toOrdinal (k / 4) month day = toOrdinal (k / 4) month 1 + (day - 1) := by
      simp only [toOrdinal]
      ring
    rw [hordinal]
    obtain rfl | rfl | rfl : month = 3 * (k % 4).toNat + 1 ∨ month = 3 * (k % 4).toNat + 1 + 1 ∨
        month = 3 * (k % 4).toNat + 1 + 2 := by omega
    all_goals omega
  · rintro ⟨hlow, hhigh⟩
    have hmonth : ∃ m, 3 * (k % 4).toNat + 1 ≤ m ∧ m ≤ 3 * (k % 4).toNat + 3 ∧ toOrdinal (k / 4) m 1 ≤ date ∧
        date < toOrdinal (k / 4) (m + 1) 1 := by
      by_cases hfirst : date < toOrdinal (k / 4) (3 * (k % 4).toNat + 1 + 1) 1
      · exact ⟨_, le_refl _, by omega, hlow, hfirst⟩
      · by_cases hsecond : date < toOrdinal (k / 4) (3 * (k % 4).toNat + 1 + 2) 1
        · exact ⟨3 * (k % 4).toNat + 1 + 1, by omega, by omega, by omega, hsecond⟩
        · exact ⟨3 * (k % 4).toNat + 1 + 2, by omega, by omega, by omega, hhigh⟩
    obtain ⟨m, hm, hm', hdate, hdate'⟩ := hmonth
    obtain ⟨hday, hday', heq⟩ := exists_dayOfMonth (by omega) hdate hdate'
    exact ⟨m, _, by omega, by omega, hday, hday', heq⟩

/-! ## The slices of a frame -/

variable {rows : List Candle} {c : Candle}

/-- The day of a timestamp, as an ordinal. -/
def ordinalOf (dts : ℤ) : ℤ := dts / 86400 + epochOrdinal

/-- The start of the last day of the `k`-th quarter. -/
def lastMidnight (k : ℤ) : ℤ := (quarterStart (k + 1) - 1 - epochOrdinal) * 86400

def labelAt (k : ℤ) : Text := quarterLabel (k / 4) ((k % 4).toNat + 1)

def sliceAt (rows : List Candle) (k : ℤ) : List Candle :=
  rows.filter fun row => decide (quarterStart k ≤ ordinalOf row.dts ∧ row.dts ≤ lastMidnight k)

theorem lastMidnight_eq (k : ℤ) : midnight (k / 4) (3 * ((k % 4).toNat + 1))
    (daysInMonth (k / 4) (3 * ((k % 4).toNat + 1))) = lastMidnight k := by
  have hlast := toOrdinal_nextMonth (k / 4) (m := 3 * ((k % 4).toNat + 1)) (by omega)
  have hnext : 3 * ((k % 4).toNat + 1) + 1 = 3 * (k % 4).toNat + 4 := by omega
  rw [hnext, ← quarterStart_succ] at hlast
  rw [midnight, lastMidnight, hlast]
  simp only [toOrdinal]
  ring

theorem quarterMask_labelAt (rows : List Candle) (k : ℤ) : quarterMask rows (some (labelAt k)) = some (sliceAt rows k) := by
  have hfirst : midnight (k / 4) (3 * ((k % 4).toNat + 1) - 2) 1 = (quarterStart k - epochOrdinal) * 86400 := by
    have hmonth : 3 * ((k % 4).toNat + 1) - 2 = 3 * (k % 4).toNat + 1 := by omega
    rw [hmonth]
    rfl
  rw [labelAt, quarterMask_label rows _ (by omega) (by omega), hfirst, lastMidnight_eq, sliceAt]
  congr 2
  funext row
  rw [decide_eq_decide, ordinalOf]
  omega

theorem quartersFrom_eq (k : ℤ) (n : ℕ) :
    quartersFrom (k / 4) ((k % 4).toNat + 1) n = (List.range n).map fun i : ℕ => labelAt (k + i) := by
  induction n generalizing k with
  | zero => rfl
  | succ n ih =>
      have hnext : (if (k % 4).toNat + 1 + 1 > 4 then quartersFrom (k / 4 + 1) 1 n
          else quartersFrom (k / 4) ((k % 4).toNat + 1 + 1) n) =
            quartersFrom ((k + 1) / 4) (((k + 1) % 4).toNat + 1) n := by
        split_ifs with hlast
        · have hyear : (k + 1) / 4 = k / 4 + 1 := by omega
          have hq : ((k + 1) % 4).toNat = 0 := by omega
          rw [hyear, hq]
        · have hyear : (k + 1) / 4 = k / 4 := by omega
          have hq : ((k + 1) % 4).toNat = (k % 4).toNat + 1 := by omega
          rw [hyear, hq]
      rw [quartersFrom, hnext, ih, List.range_succ_eq_map, List.map_cons, List.map_map]
      have hhead : labelAt (k + (0 : ℕ)) = quarterLabel (k / 4) ((k % 4).toNat + 1) := by simp [labelAt]
      have htail : (fun i : ℕ => labelAt (k + 1 + i)) = (fun i : ℕ => labelAt (k + i)) ∘ Nat.succ := by
        funext i
        rw [Function.comp, Nat.succ_eq_add_one, Nat.cast_add, Nat.cast_one, add_assoc, add_comm 1]
      rw [htail, hhead]

theorem mapM_labels (rows : List Candle) (ks : List ℤ) :
    slices rows (ks.map labelAt) = some (ks.map (sliceAt rows)) := by
  induction ks with
  | nil => rfl
  | cons k ks ih =>
      rw [slices] at ih ⊢
      rw [List.map_cons, List.mapM_cons, quarterMask_labelAt, ih]
      rfl

theorem slices_listQuarters (rows : List Candle) (startYear : ℤ) (n : ℕ) :
    slices rows (listQuarters startYear n) =
      some ((List.range n).map fun i : ℕ => sliceAt rows (4 * startYear + i)) := by
  have hyear : 4 * startYear / 4 = startYear := by omega
  have hq : (4 * startYear % 4).toNat = 0 := by omega
  have hlabels := quartersFrom_eq (4 * startYear) n
  rw [hyear, hq] at hlabels
  have hmap : (List.range n).map (fun i : ℕ => labelAt (4 * startYear + i)) =
      ((List.range n).map fun i : ℕ => 4 * startYear + (i : ℤ)).map labelAt := by
    rw [List.map_map]
    rfl
  rw [listQuarters, hlabels, hmap, mapM_labels, List.map_map]
  rfl

/-- In a sorted list the elements between two bounds stand before those between the next two. -/
theorem filter_append_filter {β : Type*} {f : β → ℤ} {xs : List β} {u v w : ℤ} (hxs : xs.Pairwise fun a b => f a ≤ f b)
    (huv : u ≤ v) (hvw : v ≤ w) :
    (xs.filter fun x => decide (u ≤ f x ∧ f x < v)) ++ (xs.filter fun x => decide (v ≤ f x ∧ f x < w)) =
      xs.filter fun x => decide (u ≤ f x ∧ f x < w) := by
  induction xs with
  | nil => rfl
  | cons x xs ih =>
      rw [List.pairwise_cons] at hxs
      by_cases hv : f x < v
      · have hright : decide (v ≤ f x ∧ f x < w) = false := decide_eq_false (by omega)
        by_cases hu : u ≤ f x
        · have hleft : decide (u ≤ f x ∧ f x < v) = true := decide_eq_true ⟨hu, hv⟩
          have hboth : decide (u ≤ f x ∧ f x < w) = true := decide_eq_true (by omega)
          simp only [List.filter_cons, hleft, hright, hboth, if_true, Bool.false_eq_true, if_false, List.cons_append,
            ih hxs.2]
        · have hleft : decide (u ≤ f x ∧ f x < v) = false := decide_eq_false (by omega)
          have hboth : decide (u ≤ f x ∧ f x < w) = false := decide_eq_false (by omega)
          simp only [List.filter_cons, hleft, hright, hboth, Bool.false_eq_true, if_false, ih hxs.2]
      · have hnone : (x :: xs).filter (fun x => decide (u ≤ f x ∧ f x < v)) = [] := by
          rw [List.filter_eq_nil_iff]
          intro y hy
          have hle : f x ≤ f y := by
            obtain rfl | hy := List.mem_cons.mp hy
            · exact le_refl _
            · exact hxs.1 y hy
          simp only [decide_eq_true_eq]
          omega
        rw [hnone, List.nil_append]
        refine List.filter_congr fun y hy => ?_
        have hle : f x ≤ f y := by
          obtain rfl | hy := List.mem_cons.mp hy
          · exact le_refl _
          · exact hxs.1 y hy
        rw [decide_eq_decide]
        omega

theorem flatMap_filter {β : Type*} {f : β → ℤ} {xs : List β} {bound : ℕ → ℤ} (hxs : xs.Pairwise fun a b => f a ≤ f b)
    (hbound : ∀ i j, i ≤ j → bound i ≤ bound j) (n : ℕ) :
    (List.range n).flatMap (fun i => xs.filter fun x => decide (bound i ≤ f x ∧ f x < bound (i + 1))) =
      xs.filter fun x => decide (bound 0 ≤ f x ∧ f x < bound n) := by
  induction n with
  | zero =>
      symm
      rw [List.range_zero, List.flatMap_nil, List.filter_eq_nil_iff]
      intro x _
      simp only [decide_eq_true_eq]
      omega
  | succ n ih =>
      rw [List.range_succ, List.flatMap_append, ih, List.flatMap_singleton]
      exact filter_append_filter hxs (hbound 0 n (Nat.zero_le n)) (hbound n (n + 1) (Nat.le_succ n))

theorem sliceAt_eq (h : ∀ c ∈ rows, quarterStart k ≤ ordinalOf c.dts → ordinalOf c.dts < quarterStart (k + 1) →
    c.dts ≤ lastMidnight k) :
    sliceAt rows k =
      rows.filter fun row => decide (quarterStart k ≤ ordinalOf row.dts ∧ ordinalOf row.dts < quarterStart (k + 1)) := by
  refine List.filter_congr fun c hc => ?_
  have := h c hc
  rw [decide_eq_decide]
  simp only [lastMidnight, ordinalOf] at *
  omega

end

end CryptoAggHarmonic.Harness
