import Mathlib.Tactic.Linarith
import Mathlib.Tactic.FieldSimp
import Mathlib.Tactic.Ring
import Mathlib.Algebra.Order.Field.Basic
import CryptoAggHarmonic.Lib.OrientedOrder
import CryptoAggHarmonic.RsiTrend.Backtest

/-!
# The books of an open trade

`Booked` says what an open trade has realized and what it still risks, `Open` where its stop is, `Closed` what a trade
has once it is out. Prices are compared by their R, which puts both directions in one order.
-/

namespace CryptoAggHarmonic.RsiTrend

open Domain
open Oriented (Lt)

variable {o : Settings} {signal : StrategySignal} {st st' : TradeState} {bar : Bar} {x y : ℚ}
  {reason : ExitReason} {i : ℕ} {time : String}

/-! ## R -/

def StrategySignal.long (signal : StrategySignal) : Bool := signal.direction = .long

/-- Stop on the loss side, target on the profit side. -/
structure StrategySignal.WellPlaced (signal : StrategySignal) : Prop where
  stop_entry : Lt signal.long signal.stopLoss signal.entryPrice
  entry_target : Lt signal.long signal.entryPrice signal.targetPrice

def StrategySignal.rewardRatio (signal : StrategySignal) : ℚ :=
  |signal.targetPrice - signal.entryPrice| / |signal.entryPrice - signal.stopLoss|

theorem StrategySignal.r_entry (signal : StrategySignal) : signal.r signal.entryPrice = 0 := by
  unfold StrategySignal.r rMultiple
  cases signal.direction <;> simp

namespace StrategySignal.WellPlaced

variable (h : signal.WellPlaced)
include h

theorem risk_pos : 0 < |signal.entryPrice - signal.stopLoss| :=
  abs_pos.mpr (sub_ne_zero.mpr h.stop_entry.ne.symm)

theorem r_eq (x : ℚ) :
    signal.r x = (if signal.long then x - signal.entryPrice else signal.entryPrice - x) /
      |signal.entryPrice - signal.stopLoss| := by
  unfold StrategySignal.r rMultiple StrategySignal.long
  cases signal.direction <;> simp [not_le.mpr h.risk_pos]

theorem r_lt : Lt signal.long x y ↔ signal.r x < signal.r y := by
  rw [h.r_eq, h.r_eq, div_lt_div_iff_of_pos_right h.risk_pos]
  unfold Lt
  cases signal.long <;> simp

theorem r_stop : signal.r signal.stopLoss = -1 := by
  have hside := h.stop_entry
  rw [h.r_eq, div_eq_iff h.risk_pos.ne']
  unfold Lt at hside
  split_ifs at hside ⊢
  · rw [abs_of_pos (sub_pos.mpr hside)]
    ring
  · rw [abs_of_neg (sub_neg.mpr hside)]
    ring

theorem r_target : signal.r signal.targetPrice = signal.rewardRatio := by
  have hside := h.entry_target
  rw [h.r_eq, StrategySignal.rewardRatio]
  unfold Lt at hside
  split_ifs at hside ⊢
  · rw [abs_of_pos (sub_pos.mpr hside)]
  · rw [abs_of_neg (sub_neg.mpr hside), neg_sub]

theorem rewardRatio_pos : 0 < signal.rewardRatio := by
  rw [← h.r_target, ← signal.r_entry]
  exact h.r_lt.mp h.entry_target

end StrategySignal.WellPlaced

/-! ## Prices of a bar -/

structure Bar.WellFormed (bar : Bar) : Prop where
  low_le : bar.low ≤ bar.close
  le_high : bar.close ≤ bar.high

instance (bar : Bar) : Decidable bar.WellFormed :=
  decidable_of_iff (bar.low ≤ bar.close ∧ bar.close ≤ bar.high) ⟨fun ⟨h1, h2⟩ => ⟨h1, h2⟩, fun h => ⟨h.1, h.2⟩⟩

/-- A bar that leaves the stop alone closes ahead of it. -/
theorem r_stop_lt_close (h : signal.WellPlaced) (hbar : bar.WellFormed)
    (hstop : stopHit signal.direction bar x = false) : signal.r x < signal.r bar.close := by
  rw [← h.r_lt]
  unfold Lt StrategySignal.long
  unfold stopHit at hstop
  cases hd : signal.direction with
  | long =>
      simp only [hd, decide_eq_false_iff_not, not_le] at hstop
      simpa using hstop.trans_le hbar.low_le
  | short =>
      simp only [hd, ge_iff_le, decide_eq_false_iff_not, not_le] at hstop
      simpa using hbar.le_high.trans_lt hstop

/-- A bar that does not reach the target closes short of it. -/
theorem r_close_lt_target (h : signal.WellPlaced) (hbar : bar.WellFormed)
    (htarget : targetHit signal.direction bar signal.targetPrice = false) :
    signal.r bar.close < signal.rewardRatio := by
  rw [← h.r_target, ← h.r_lt]
  unfold Lt StrategySignal.long
  unfold targetHit at htarget
  cases hd : signal.direction with
  | long =>
      simp only [hd, ge_iff_le, decide_eq_false_iff_not, not_le] at htarget
      simpa using hbar.le_high.trans_lt htarget
  | short =>
      simp only [hd, decide_eq_false_iff_not, not_le] at htarget
      simpa using htarget.trans_le hbar.low_le

/-! ## The books -/

def fractions (partials : List PartialExit) : ℚ := (partials.map PartialExit.fraction).sum

def contributions (partials : List PartialExit) : ℚ := (partials.map PartialExit.rMultiple).sum

/-- What is open and what is realized: every unit that is closed has lost at most one R. -/
structure Booked (o : Settings) (signal : StrategySignal) (st : TradeState) : Prop where
  remaining_pos : 0 < st.remaining
  fractions_eq : fractions st.partials = 1 - st.remaining
  weighted : ∀ p ∈ st.partials, p.rMultiple = p.fraction * signal.r p.price
  realized_eq : st.realizedR = contributions st.partials
  realized_ge : -(1 - st.remaining) ≤ st.realizedR
  simple : o.partialMode = false → st.partials = []

theorem booked_start : Booked o signal (TradeState.start signal) := by
  constructor <;> simp [TradeState.start, fractions, contributions]

theorem Booked.reduce (h : Booked o signal st) (hmode : o.partialMode = true) (hx : -1 ≤ signal.r x) :
    Booked o signal (st.reduce signal x reason time) := by
  have hpos := h.remaining_pos
  refine ⟨?_, ?_, ?_, ?_, ?_, fun hno => by rw [hmode] at hno; cases hno⟩
  · simp only [TradeState.reduce]
    linarith
  · have := h.fractions_eq
    simp only [TradeState.reduce, fractions, List.map_append, List.sum_append, List.map_cons, List.map_nil,
      List.sum_cons, List.sum_nil, add_zero] at this ⊢
    linarith
  · intro p hp
    rcases List.mem_append.mp hp with hp | hp
    · exact h.weighted p hp
    · rw [List.mem_singleton.mp hp]
  · have := h.realized_eq
    simp only [TradeState.reduce, contributions, List.map_append, List.sum_append, List.map_cons, List.map_nil,
      List.sum_cons, List.sum_nil, add_zero] at this ⊢
    linarith
  · have hge := h.realized_ge
    simp only [TradeState.reduce]
    nlinarith

/-- An open trade: its stop loses at most one R, and it is the initial one until the first target. -/
structure Open (o : Settings) (signal : StrategySignal) (st : TradeState) : Prop extends Booked o signal st where
  stop_ge : -1 ≤ signal.r st.stop
  initial : st.t1Done = false → st.stop = signal.stopLoss
  mode : st.t1Done = true → o.partialMode = true
  trailing : st.trailingActive = true → st.t1Done = true

theorem open_start (h : signal.WellPlaced) : Open o signal (TradeState.start signal) where
  toBooked := booked_start
  stop_ge := h.r_stop.ge
  initial := fun _ => rfl
  mode := by simp [TradeState.start]
  trailing := by simp [TradeState.start]

/-! ## The steps of a bar -/

theorem Open.takeTarget (ho : Open o signal st) (h : signal.WellPlaced) (hmode : o.partialMode = true) :
    Open o signal (takeTarget o signal bar st) := by
  have htarget : -1 ≤ signal.r signal.targetPrice := by
    rw [h.r_target]
    linarith [h.rewardRatio_pos]
  have hb : Booked o signal (st.reduce signal signal.targetPrice .partialTarget bar.time) :=
    ho.toBooked.reduce hmode htarget
  exact
    { toBooked := ⟨hb.1, hb.2, hb.3, hb.4, hb.5, hb.6⟩
      stop_ge := by simp [RsiTrend.takeTarget, signal.r_entry]
      initial := by simp [RsiTrend.takeTarget]
      mode := fun _ => hmode
      trailing := fun _ => rfl }

theorem Open.reduceOnRsi (ho : Open o signal st) (hclose : -1 ≤ signal.r bar.close) :
    Open o signal (reduceOnRsi o signal bar st) ∧ (reduceOnRsi o signal bar st).t1Done = st.t1Done := by
  unfold RsiTrend.reduceOnRsi
  split_ifs with hcond
  · simp only [Bool.and_eq_true] at hcond
    have hb : Booked o signal (st.reduce signal bar.close .rsiExtreme bar.time) :=
      ho.toBooked.reduce hcond.1.1.1 hclose
    exact ⟨{ toBooked := ⟨hb.1, hb.2, hb.3, hb.4, hb.5, hb.6⟩
             stop_ge := ho.stop_ge
             initial := ho.initial
             mode := ho.mode
             trailing := ho.trailing }, rfl⟩
  · exact ⟨ho, rfl⟩

/-- The stop only moves forward, and only once the first target is done. -/
theorem Open.moveStop (ho : Open o signal st) (h : signal.WellPlaced) (hactive : st.trailingActive = true)
    (hforward : Lt signal.long st.stop x) : Open o signal { st with stop := x } :=
  { toBooked := ⟨ho.1.1, ho.1.2, ho.1.3, ho.1.4, ho.1.5, ho.1.6⟩
    stop_ge := ho.stop_ge.trans (h.r_lt.mp hforward).le
    initial := fun hnot => by
      rw [ho.trailing hactive] at hnot
      cases hnot
    mode := ho.mode
    trailing := ho.trailing }

theorem Open.trail (ho : Open o signal st) (h : signal.WellPlaced) :
    Open o signal (trail signal bar st) ∧ (trail signal bar st).t1Done = st.t1Done := by
  unfold RsiTrend.trail
  split
  · rename_i atr hactive _
    cases hd : signal.direction with
    | long =>
        simp only
        split_ifs with hmove
        · exact ⟨ho.moveStop h hactive (by simpa [Lt, StrategySignal.long, hd] using hmove), rfl⟩
        · exact ⟨ho, rfl⟩
    | short =>
        simp only
        split_ifs with hmove
        · exact ⟨ho.moveStop h hactive (by simpa [Lt, StrategySignal.long, hd] using hmove), rfl⟩
        · exact ⟨ho, rfl⟩
  · exact ⟨ho, rfl⟩

theorem Open.t1_not (ho : Open o signal st) (hmode : o.partialMode = false) : st.t1Done = false := by
  cases ht : st.t1Done with
  | false => rfl
  | true => exact absurd (ho.mode ht) (by simp [hmode])

/-- A bar that leaves the stop alone, and in the mode without partial exits the target as well. -/
theorem Open.manage (ho : Open o signal st) (h : signal.WellPlaced) (hbar : bar.WellFormed)
    (hstop : stopHit signal.direction bar st.stop = false)
    (htarget : firstTargetHit signal bar st = true → o.partialMode = true) :
    Open o signal (manage o signal bar st) ∧ -1 < signal.r bar.close ∧
      ((manage o signal bar st).t1Done = false → signal.r bar.close < signal.rewardRatio) := by
  have hclose : -1 < signal.r bar.close := ho.stop_ge.trans_lt (r_stop_lt_close h hbar hstop)
  unfold RsiTrend.manage
  cases hhit : firstTargetHit signal bar st with
  | true =>
      simp only [↓reduceIte]
      obtain ⟨hrsi, ht1⟩ := (ho.takeTarget h (htarget hhit)).reduceOnRsi hclose.le
      obtain ⟨htrail, ht2⟩ := hrsi.trail h
      exact ⟨htrail, hclose, fun hnot => by rw [ht2, ht1] at hnot; cases hnot⟩
  | false =>
      simp only [Bool.false_eq_true, ↓reduceIte]
      obtain ⟨hrsi, ht1⟩ := ho.reduceOnRsi hclose.le
      obtain ⟨htrail, ht2⟩ := hrsi.trail h
      refine ⟨htrail, hclose, fun hnot => r_close_lt_target h hbar ?_⟩
      rw [ht2, ht1] at hnot
      simpa [firstTargetHit, hnot] using hhit

/-! ## A closed trade -/

/-- What the exit says in the mode that closes all at once. -/
def ExitAgrees (signal : StrategySignal) (reason : ExitReason) (r : ℚ) : Prop :=
  match reason with
  | .stopLoss => r = -1
  | .target => r = signal.rewardRatio
  | _ => -1 < r ∧ r < signal.rewardRatio

structure Closed (o : Settings) (signal : StrategySignal) (st : TradeState) : Prop where
  remaining_eq : st.remaining = 0
  fractions_lt : fractions st.partials < 1
  weighted : ∀ p ∈ st.partials, p.rMultiple = p.fraction * signal.r p.price
  realized_eq : st.realizedR =
    contributions st.partials + (1 - fractions st.partials) * signal.r st.exitPrice
  realized_ge : -1 ≤ st.realizedR
  simple : o.partialMode = false → st.partials = [] ∧ ExitAgrees signal st.exitReason (signal.r st.exitPrice)
  held : 0 < o.ttlBars → (st.exitIndex : ℤ) - signal.index ≤ o.ttlBars

/-- **Closing an open trade** at a price that loses at most one R. -/
theorem Open.closeAll (ho : Open o signal st) (hx : -1 ≤ signal.r x)
    (hreason : o.partialMode = false → ExitAgrees signal reason (signal.r x))
    (hheld : 0 < o.ttlBars → (i : ℤ) - signal.index ≤ o.ttlBars) :
    Closed o signal (st.closeAll signal x reason i time) where
  remaining_eq := rfl
  fractions_lt := by
    have := ho.remaining_pos
    have := ho.fractions_eq
    simp only [TradeState.closeAll]
    linarith
  weighted := ho.weighted
  realized_eq := by
    simp only [TradeState.closeAll, ho.fractions_eq, ← ho.realized_eq]
    ring
  realized_ge := by
    have hpos := ho.remaining_pos
    have hge := ho.realized_ge
    simp only [TradeState.closeAll]
    nlinarith
  simple := fun hmode => ⟨ho.simple hmode, hreason hmode⟩
  held := hheld

end CryptoAggHarmonic.RsiTrend
