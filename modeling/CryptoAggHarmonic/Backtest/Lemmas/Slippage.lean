import CryptoAggHarmonic.Backtest.Lemmas.Spans
import CryptoAggHarmonic.Lib.Steps

/-!
# Levels moved by slippage

A position is closed at levels that slippage has moved. What the fills say of the quoted levels is decided bar by bar,
on the bars on which a position is open or opens.
-/

namespace CryptoAggHarmonic.Backtest

open Domain

variable {lv : Levels} {rows all : List Candle} {row : Candle} {direction : Direction} {stopLoss targetPrice x : ℚ}
  {r : TradeResult} {k i : ℕ} {a b : ℤ}

def reachesStop (direction : Direction) (row : Candle) (price : ℚ) : Bool :=
  match direction with
  | .long => row.low ≤ price
  | .short => row.high ≥ price

def reachesTarget (direction : Direction) (row : Candle) (price : ℚ) : Bool :=
  match direction with
  | .long => row.high ≥ price
  | .short => row.low ≤ price

/-- `a` is a better exit than `b`. -/
def profitable (direction : Direction) (a b : ℚ) : Bool :=
  match direction with
  | .long => b < a
  | .short => a < b

/-! ## One bar -/

/-- Touched both, the stop counts. -/
def Levels.stopNearer (lv : Levels) : Bool :=
  match lv.direction with
  | .long => lv.effEntry - lv.effStop ≤ lv.effTarget - lv.effEntry
  | .short => lv.effStop - lv.effEntry ≤ lv.effEntry - lv.effTarget

def Levels.stopsOn (lv : Levels) (row : Candle) : Bool :=
  reachesStop lv.direction row lv.effStop && (!reachesTarget lv.direction row lv.effTarget || lv.stopNearer)

def Levels.winsOn (lv : Levels) (row : Candle) : Bool :=
  reachesTarget lv.direction row lv.effTarget && !(reachesStop lv.direction row lv.effStop && lv.stopNearer)

theorem exitOn_eq : lv.exitOn row = if lv.stopsOn row then some (lv.effStop, .loss)
    else if lv.winsOn row then some (lv.effTarget, .win) else none := by
  unfold Levels.exitOn resolveExit Levels.stopsOn Levels.winsOn reachesStop reachesTarget Levels.stopNearer
  cases lv.direction with
  | long =>
      simp only
      cases decide (row.low ≤ lv.effStop) <;> cases decide (row.high ≥ lv.effTarget) <;>
        by_cases hnear : lv.effEntry - lv.effStop ≤ lv.effTarget - lv.effEntry <;> simp [hnear]
  | short =>
      simp only
      cases decide (row.high ≥ lv.effStop) <;> cases decide (row.low ≤ lv.effTarget) <;>
        by_cases hnear : lv.effStop - lv.effEntry ≤ lv.effEntry - lv.effTarget <;> simp [hnear]

theorem winsOn_of_stopsOn (h : lv.stopsOn row = true) : lv.winsOn row = false := by
  revert h
  unfold Levels.stopsOn Levels.winsOn
  cases reachesTarget lv.direction row lv.effTarget <;> cases reachesStop lv.direction row lv.effStop <;>
    cases lv.stopNearer <;> simp

/-! ## The quoted levels -/

/-- The bar reaches the quoted stop and not the quoted target. -/
def StopOnly (direction : Direction) (stopLoss targetPrice : ℚ) (row : Candle) : Prop :=
  reachesStop direction row stopLoss = true ∧ reachesTarget direction row targetPrice = false

/-- The fill of a slipped position is no better than the quoted levels allow: the target of a win is reached from its
entry on and its exit is a profit, and every bar of the position that reaches the stop alone is the loss it ends
with. -/
def Fill.Pessimistic (lv : Levels) (stopLoss targetPrice : ℚ) (all : List Candle) (f : Fill) : Prop :=
  (f.result = .win → (∃ later ∈ all.drop f.entryTime.toNat, reachesTarget lv.direction later targetPrice = true) ∧
    profitable lv.direction f.exitPrice lv.effEntry = true) ∧
  ∀ (i : ℕ) (row : Candle), all[i]? = some row → StopOnly lv.direction stopLoss targetPrice row →
    f.entryTime ≤ i → i ≤ f.exitTime → f.result = .loss ∧ f.exitTime = i

/-- A bar of a position that was opened at `a`: a win at the slipped target needs a profit and a bar that reaches the
quoted target, and a bar that reaches the quoted stop alone has to reach the slipped one first. -/
def FairAt (lv : Levels) (stopLoss targetPrice : ℚ) (all : List Candle) (a : ℤ) (row : Candle) : Prop :=
  (lv.winsOn row = true → (∃ later ∈ all.drop a.toNat, reachesTarget lv.direction later targetPrice = true) ∧
    profitable lv.direction lv.effTarget lv.effEntry = true) ∧
  (StopOnly lv.direction stopLoss targetPrice row → lv.stopsOn row = true)

/-- The bar a position was opened on, and the next bar. -/
structure Walk where
  since : Option ℤ
  next : ℤ

/-- The position that is open on the next bar or opens there. -/
def Walk.held (lv : Levels) (w : Walk) (row : Candle) : Option ℤ :=
  w.since.or (if lv.touchedBy row then some w.next else none)

def Walk.step (lv : Levels) (w : Walk) (row : Candle) : Walk :=
  ⟨if (lv.exitOn row).isSome then none else w.held lv row, w.next + 1⟩

instance (a : ℤ) : Decidable (FairAt lv stopLoss targetPrice all a row) := by
  unfold FairAt StopOnly
  infer_instance

def FairBar (lv : Levels) (stopLoss targetPrice : ℚ) (all : List Candle) (w : Walk) (row : Candle) : Prop :=
  ∀ a ∈ w.held lv row, FairAt lv stopLoss targetPrice all a row

instance (w : Walk) : Decidable (FairBar lv stopLoss targetPrice all w row) := by
  unfold FairBar
  infer_instance

/-- No bar from `a` on and before `k` reaches the stop alone. -/
def Quiet (lv : Levels) (stopLoss targetPrice : ℚ) (all : List Candle) (a : ℤ) (k : ℕ) : Prop :=
  ∀ (i : ℕ) (row : Candle), all[i]? = some row → a ≤ i → i < k → ¬ StopOnly lv.direction stopLoss targetPrice row

theorem quiet_succ (hrow : all[k]? = some row) (ha : a ≤ k) : Quiet lv stopLoss targetPrice all a (k + 1) ↔
    Quiet lv stopLoss targetPrice all a k ∧ ¬ StopOnly lv.direction stopLoss targetPrice row := by
  constructor
  · intro h
    exact ⟨fun i row' hi hle hlt => h i row' hi hle (by omega), h k row hrow ha (by omega)⟩
  · rintro ⟨hquiet, hlast⟩ i row' hi hle hlt
    rcases Nat.lt_succ_iff_lt_or_eq.mp hlt with hlt | rfl
    · exact hquiet i row' hi hle hlt
    · rw [hrow] at hi
      cases hi
      exact hlast

/-! ## One bar of a position -/

theorem fairAt_of_open (hexit : lv.exitOn row = none) : FairAt lv stopLoss targetPrice all a row ↔
    ¬ StopOnly lv.direction stopLoss targetPrice row := by
  rw [exitOn_eq] at hexit
  split_ifs at hexit with hstops hwins
  rw [Bool.not_eq_true] at hstops hwins
  simp [FairAt, hstops, hwins]

/-- The bar that closes the position. -/
theorem pessimistic_of_exit (stopLoss targetPrice : ℚ) (bars : ℕ) (hrow : all[k]? = some row) (ha : a ≤ k)
    (hexit : lv.exitOn row = some (x, r)) :
    (⟨a, k, x, r, bars⟩ : Fill).Pessimistic lv stopLoss targetPrice all ↔
      Quiet lv stopLoss targetPrice all a k ∧ FairAt lv stopLoss targetPrice all a row := by
  rw [exitOn_eq] at hexit
  split_ifs at hexit with hstops hwins
  · cases hexit
    simp only [Fill.Pessimistic, FairAt, winsOn_of_stopsOn hstops, hstops, reduceCtorEq, Bool.false_eq_true,
      false_implies, implies_true, true_and, and_true]
    constructor
    · intro h i row' hi hle hlt hgap
      have := h i row' hi hgap hle (by omega)
      omega
    · intro h i row' hi hgap hle hlt
      by_contra hne
      exact h i row' hi hle (by omega) hgap
  · cases hexit
    rw [Bool.not_eq_true] at hstops
    simp only [Fill.Pessimistic, FairAt, hwins, hstops, reduceCtorEq, Bool.false_eq_true, forall_const, false_and,
      imp_false]
    constructor
    · rintro ⟨hwin, hgap⟩
      exact ⟨fun i row' hi hle hlt hstop => hgap i row' hi hstop hle (by omega), hwin,
        fun hstop => hgap k row hrow hstop ha (le_refl _)⟩
    · rintro ⟨hquiet, hwin, hlast⟩
      refine ⟨hwin, fun i row' hi hstop hle hlt => ?_⟩
      rcases (Nat.cast_le.mp hlt).lt_or_eq with hlt | rfl
      · exact hquiet i row' hi hle hlt hstop
      · rw [hrow] at hi
        cases hi
        exact hlast hstop

/-- A position that is still open at the end. -/
theorem pessimistic_of_scratch {bars : ℕ} : (⟨a, (k : ℤ) - 1, x, .scratch, bars⟩ : Fill).Pessimistic lv stopLoss
    targetPrice all ↔ Quiet lv stopLoss targetPrice all a k := by
  simp only [Fill.Pessimistic, reduceCtorEq, false_implies, false_and, imp_false, true_and]
  constructor
  · intro h i row hi hle hlt hstop
    exact h i row hi hstop hle (by omega)
  · intro h i row hi hstop hle hlt
    exact h i row hi hle (by omega) hstop

/-! ## All bars -/

/-- An open position began earlier and was last seen on the bar before. -/
def Standing (k : ℕ) (p : Option OpenPosition) : Prop := ∀ q ∈ p, q.entryTime < k ∧ q.last.index = (k : ℤ) - 1

/-- **All bars**: the fills are pessimistic exactly when every bar of a position is fair. -/
theorem pessimistic_fillsFrom_iff (lv : Levels) (stopLoss targetPrice : ℚ) {p : Option OpenPosition}
    (hall : all.drop k = rows) (hp : Standing k p) :
    (∀ f ∈ fillsFrom lv p (numbered k rows), f.Pessimistic lv stopLoss targetPrice all) ↔
      (∀ q ∈ p, Quiet lv stopLoss targetPrice all q.entryTime k) ∧
        Steps.Along (Walk.step lv) (FairBar lv stopLoss targetPrice all) ⟨p.map OpenPosition.entryTime, k⟩ rows := by
  induction rows generalizing k p with
  | nil =>
      cases p with
      | none => simp [numbered, fillsFrom, Steps.Along]
      | some q =>
          obtain ⟨-, hlast⟩ := hp q rfl
          simp [numbered, fillsFrom, Steps.Along, hlast, pessimistic_of_scratch]
  | cons row rows ih =>
      have hrow : all[k]? = some row := by
        have := congrArg (fun l => l[0]?) hall
        simpa using this
      have hrest : all.drop (k + 1) = rows := by
        rw [← List.drop_drop, hall]
        rfl
      have hclosed := ih (p := none) hrest (by simp [Standing])
      simp only [Option.not_mem_none, false_implies, implies_true, true_and, Option.map_none, Nat.cast_add,
        Nat.cast_one] at hclosed
      have hrelabelled : lv.exitOn { row with index := (k : ℤ) } = lv.exitOn row := rfl
      have htouched : lv.touchedBy { row with index := (k : ℤ) } = lv.touchedBy row := rfl
      -- The bars of a position that stays open, the next one included.
      have hstays : ∀ q : OpenPosition, q.entryTime ≤ k → q.last.index = k → lv.exitOn row = none →
          ((∀ f ∈ fillsFrom lv (some q) (numbered (k + 1) rows), f.Pessimistic lv stopLoss targetPrice all) ↔
            Quiet lv stopLoss targetPrice all q.entryTime k ∧ FairAt lv stopLoss targetPrice all q.entryTime row ∧
              Steps.Along (Walk.step lv) (FairBar lv stopLoss targetPrice all) ⟨some q.entryTime, k + 1⟩ rows) := by
        intro q hentry hlast hexit
        have h := ih (p := some q) hrest (by simp [Standing, hlast]; omega)
        simp only [Option.mem_some_iff, forall_eq', Option.map_some, Nat.cast_add, Nat.cast_one,
          quiet_succ hrow hentry] at h
        rw [h, fairAt_of_open hexit, and_assoc]
      cases p with
      | none =>
          by_cases htouch : lv.touchedBy row = true
          · cases hexit : lv.exitOn row with
            | none =>
                have h := hstays ⟨k, 1, { row with index := (k : ℤ) }⟩ (le_refl _) rfl hexit
                have hquiet : Quiet lv stopLoss targetPrice all k k := fun i row' _ hle hlt => by omega
                simp only [numbered, fillsFrom, htouched, htouch, hrelabelled, hexit, ↓reduceIte, h, hquiet]
                simp [Steps.Along, FairBar, Walk.held, Walk.step, htouch, hexit]
            | some xr =>
                obtain ⟨x, r⟩ := xr
                have h := pessimistic_of_exit stopLoss targetPrice 0 hrow (le_refl (k : ℤ)) hexit
                have hquiet : Quiet lv stopLoss targetPrice all k k := fun i row' _ hle hlt => by omega
                simp only [numbered, fillsFrom, htouched, htouch, hrelabelled, hexit, ↓reduceIte, List.forall_mem_cons,
                  h, hquiet, hclosed]
                simp [Steps.Along, FairBar, Walk.held, Walk.step, htouch, hexit]
          · simp only [numbered, fillsFrom, htouched, htouch, Bool.false_eq_true, ↓reduceIte, hclosed]
            simp [Steps.Along, FairBar, Walk.held, Walk.step, htouch]
      | some q =>
          obtain ⟨hlt, hlast⟩ := hp q rfl
          cases hexit : lv.exitOn row with
          | none =>
              have h := hstays ⟨q.entryTime, q.bars + 1, { row with index := (k : ℤ) }⟩ hlt.le rfl hexit
              simp only [numbered, fillsFrom, hrelabelled, hexit, h]
              simp [Steps.Along, FairBar, Walk.held, Walk.step, hexit]
          | some xr =>
              obtain ⟨x, r⟩ := xr
              have h := pessimistic_of_exit stopLoss targetPrice (q.bars + 1) hrow hlt.le hexit
              simp only [numbered, fillsFrom, hrelabelled, hexit, List.forall_mem_cons, h, hclosed]
              simp [Steps.Along, FairBar, Walk.held, Walk.step, hexit, and_assoc]

end CryptoAggHarmonic.Backtest
