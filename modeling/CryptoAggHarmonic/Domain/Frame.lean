import Mathlib.Algebra.Order.Field.Rat
import Mathlib.Algebra.BigOperators.Group.List.Basic

/-!
# Candle frames and series

A dataframe of candles as the list of its rows, and the pandas operations on its columns that the domain code
uses. What pandas and numpy compute outside the source is the parameter `Numeric`.
-/

namespace CryptoAggHarmonic.Domain

/-- A row; times are in epoch seconds and `index` is the label of the row. -/
structure Candle where
  openPrice : ℚ
  high : ℚ
  low : ℚ
  close : ℚ
  volume : ℚ
  closeTime : ℤ := 0
  dts : ℤ := 0
  index : ℤ := 0
  deriving DecidableEq, Repr, Inhabited

structure Frame where
  rows : List Candle
  hasCloseTime : Bool := true
  hasDts : Bool := true
  deriving DecidableEq, Repr

structure Numeric where
  /-- The square root inside `ndarray.std` and `Series.std`. -/
  sqrt : ℚ → ℚ
  /-- `resample(rule).last().dropna()` of a series indexed by time. -/
  resampleLast : List (ℤ × ℚ) → String → List ℚ

namespace Frame

def len (df : Frame) : ℕ := df.rows.length

def opens (df : Frame) : List ℚ := df.rows.map Candle.openPrice

def highs (df : Frame) : List ℚ := df.rows.map Candle.high

def lows (df : Frame) : List ℚ := df.rows.map Candle.low

def closes (df : Frame) : List ℚ := df.rows.map Candle.close

def volumes (df : Frame) : List ℚ := df.rows.map Candle.volume

/-- `df["close_time"] if "close_time" in df.columns else None` -/
def closeTimes (df : Frame) : Option (List ℤ) :=
  if df.hasCloseTime then some (df.rows.map Candle.closeTime) else none

/-- `df.iloc[-1]` -/
def last (df : Frame) : Candle := df.rows.getLastD default

def withRows (df : Frame) (rows : List Candle) : Frame := { df with rows := rows }

end Frame

/-! ## Series -/

section Series

variable {α : Type}

/-- `s.tail(n)` -/
def tailN (n : ℕ) (xs : List α) : List α := xs.drop (xs.length - n)

/-- `df.iloc[start:stop]` for `0 ≤ start` -/
def slice (start stop : ℕ) (xs : List α) : List α := (xs.take stop).drop start

/-- `s.mean()` of a series that is not empty. -/
def mean (xs : List ℚ) : ℚ := xs.sum / xs.length

/-- `s.min()` and `s.max()` of a series that is not empty. -/
def minOf : List ℚ → ℚ
  | [] => 0
  | x :: xs => xs.foldl min x

def maxOf : List ℚ → ℚ
  | [] => 0
  | x :: xs => xs.foldl max x

/-- `s.diff()` without its leading NaN. -/
def diffs (xs : List ℚ) : List ℚ := List.zipWith (· - ·) xs.tail xs

/-- `s.ewm(alpha=α, adjust=False).mean()`; a leading NaN of `s` stays in front and is not part of the list. -/
def ewm (α : ℚ) : List ℚ → List ℚ
  | [] => []
  | x :: xs => xs.scanl (fun y x => (1 - α) * y + α * x) x

def ewmSpan (span : ℕ) (xs : List ℚ) : List ℚ := ewm (2 / ((span : ℚ) + 1)) xs

def countRange (lo hi : ℕ) (p : ℕ → Bool) : ℕ := ((List.range' lo (hi - lo)).filter p).length

end Series

end CryptoAggHarmonic.Domain
