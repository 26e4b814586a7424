import Mathlib.Algebra.Order.BigOperators.Group.List
import CryptoAggHarmonic.Backtest.Lemmas.Fills
import CryptoAggHarmonic.Backtest.Engine
import CryptoAggHarmonic.Lib.KeepBest

/-!
# Where the fills of a price path lie

The timestamps of a frame are only copied into the trades. With the positions of the rows in their place the fills say
on which bars a trade is open.
-/

namespace CryptoAggHarmonic.Backtest

open Domain

variable {lv : Levels} {c : Costs} {rows : List Candle} {row : Candle} {f : Fill} {k lo : ℤ} {fs : List Fill}
  {p : Option OpenPosition} {trades : List Trade}

/-! ## Positions -/

/-- The rows with their positions as timestamps, the first at `k`. -/
def numbered (k : ℤ) : List Candle → List Candle
  | [] => []
  | row :: rows => { row with index := k } :: numbered (k + 1) rows

@[simp] theorem length_numbered : (numbered k rows).length = rows.length := by
  induction rows generalizing k with
  | nil => rfl
  | cons row rows ih => simp [numbered, ih]

def relabelRow (g : ℤ → ℤ) (row : Candle) : Candle := { row with index := g row.index }

def Fill.relabel (g : ℤ → ℤ) (f : Fill) : Fill := { f with entryTime := g f.entryTime, exitTime := g f.exitTime }

def OpenPosition.relabel (g : ℤ → ℤ) (p : OpenPosition) : OpenPosition :=
  { p with entryTime := g p.entryTime, last := relabelRow g p.last }

theorem touchedBy_relabelRow (g : ℤ → ℤ) : lv.touchedBy (relabelRow g row) = lv.touchedBy row := rfl

theorem exitOn_relabelRow (g : ℤ → ℤ) : lv.exitOn (relabelRow g row) = lv.exitOn row := rfl

/-- Timestamps are only copied. -/
theorem fillsFrom_relabel (lv : Levels) (p : Option OpenPosition) (rows : List Candle) (g : ℤ → ℤ) :
    fillsFrom lv (p.map (OpenPosition.relabel g)) (rows.map (relabelRow g)) =
      (fillsFrom lv p rows).map (Fill.relabel g) := by
  induction rows generalizing p with
  | nil => cases p <;> rfl
  | cons row rows ih =>
      cases p with
      | none =>
          have hnone := ih none
          have hsome := ih (some ⟨row.index, 1, row⟩)
          simp only [Option.map_none, Option.map_some] at hnone hsome
          simp only [Option.map_none, List.map_cons, fillsFrom, touchedBy_relabelRow, exitOn_relabelRow]
          by_cases htouch : lv.touchedBy row = true
          · simp only [htouch, ↓reduceIte]
            cases lv.exitOn row with
            | none => exact hsome
            | some xr =>
                simp only [List.map_cons, hnone]
                rfl
          · simpa only [htouch, Bool.false_eq_true, ↓reduceIte] using hnone
      | some q =>
          have hnone := ih none
          have hsome := ih (some ⟨q.entryTime, q.bars + 1, row⟩)
          simp only [Option.map_none, Option.map_some] at hnone hsome
          simp only [Option.map_some, List.map_cons, fillsFrom, exitOn_relabelRow]
          cases lv.exitOn row with
          | none => exact hsome
          | some xr =>
              rw [List.map_cons, hnone]
              rfl

/-- The timestamp of the row at a position. -/
def timeAt (rows : List Candle) (i : ℤ) : ℤ := (rows.getD i.toNat default).index

theorem numbered_relabel (before rows : List Candle) :
    (numbered before.length rows).map (relabelRow (timeAt (before ++ rows))) = rows := by
  induction rows generalizing before with
  | nil => rfl
  | cons row rows ih =>
      have htail := ih (before ++ [row])
      rw [List.length_append, List.length_singleton, List.append_assoc, List.singleton_append, Nat.cast_add,
        Nat.cast_one] at htail
      simp only [numbered, List.map_cons, htail, List.cons.injEq, and_true]
      simp [relabelRow, timeAt]

/-- The fills are those of the numbered rows, with their own timestamps. -/
theorem fills_eq_numbered (rows : List Candle) :
    fills lv rows = (fills lv (numbered 0 rows)).map (Fill.relabel (timeAt rows)) := by
  have h := numbered_relabel [] rows
  rw [List.length_nil, Nat.cast_zero, List.nil_append] at h
  have hfills := fillsFrom_relabel lv none (numbered 0 rows) (timeAt rows)
  rw [h] at hfills
  exact hfills

/-! ## Order -/

/-- Fills one after the other, from `lo` on and before `hi`. -/
structure InOrder (lo hi : ℤ) (fs : List Fill) : Prop where
  within : ∀ f ∈ fs, lo ≤ f.entryTime ∧ f.entryTime ≤ f.exitTime ∧ f.exitTime < hi
  disjoint : fs.Pairwise fun a b => a.exitTime < b.entryTime

theorem InOrder.mono {lo' hi : ℤ} (h : InOrder lo hi fs) (hle : lo' ≤ lo) : InOrder lo' hi fs :=
  ⟨fun f hf => ⟨hle.trans (h.within f hf).1, (h.within f hf).2⟩, h.disjoint⟩

theorem InOrder.cons {lo' hi : ℤ} (h : InOrder lo hi fs) (hf : f.entryTime ≤ f.exitTime ∧ f.exitTime < lo)
    (hlo : lo' ≤ f.entryTime) (hhi : f.exitTime < hi) : InOrder lo' hi (f :: fs) := by
  constructor
  · intro g hg
    rcases List.mem_cons.mp hg with rfl | hg
    · exact ⟨hlo, hf.1, hhi⟩
    · have := h.within g hg
      omega
  · refine List.pairwise_cons.mpr ⟨fun g hg => ?_, h.disjoint⟩
    have := h.within g hg
    omega

/-- Where the walk stands: an open position began earlier. -/
def Placed (k : ℤ) (p : Option OpenPosition) : Prop := ∀ q ∈ p, q.entryTime ≤ q.last.index ∧ q.last.index < k

/-- The first bar the fills may lie on. -/
def firstBar (k : ℤ) (p : Option OpenPosition) : ℤ := (p.map OpenPosition.entryTime).getD k

theorem fillsFrom_inOrder (lv : Levels) (rows : List Candle) (hp : Placed k p) :
    InOrder (firstBar k p) (k + rows.length) (fillsFrom lv p (numbered k rows)) := by
  induction rows generalizing k p with
  | nil =>
      cases p with
      | none => exact ⟨by simp [numbered, fillsFrom], List.Pairwise.nil⟩
      | some q =>
          obtain ⟨hle, hlt⟩ := hp q rfl
          refine ⟨fun f hf => ?_, List.pairwise_singleton _ _⟩
          obtain rfl := List.mem_singleton.mp hf
          exact ⟨le_refl _, hle, by simpa using hlt⟩
  | cons row rows ih =>
      have hnext : k + (row :: rows).length = k + 1 + rows.length := by
        rw [List.length_cons]
        omega
      have hclosed : InOrder (k + 1) (k + 1 + rows.length) (fillsFrom lv none (numbered (k + 1) rows)) :=
        ih (p := none) (by simp [Placed])
      rw [hnext]
      cases p with
      | none =>
          simp only [numbered, fillsFrom]
          split
          · split
            · exact hclosed.cons (by simp) (le_refl _) (by simp; omega)
            · exact ih (p := some ⟨k, 1, { row with index := k }⟩) (by simp [Placed])
          · exact hclosed.mono (by simp [firstBar])
      | some q =>
          obtain ⟨hle, hlt⟩ := hp q rfl
          simp only [numbered, fillsFrom]
          split
          · exact hclosed.cons ⟨by simp; omega, by simp⟩ (le_refl _) (by simp; omega)
          · have hplaced : Placed (k + 1) (some ⟨q.entryTime, q.bars + 1, { row with index := k }⟩) := by
              simp [Placed]
              omega
            exact ih hplaced

theorem fills_inOrder (rows : List Candle) : InOrder 0 rows.length (fills lv (numbered 0 rows)) := by
  have h := fillsFrom_inOrder lv rows (k := 0) (p := none) (by simp [Placed])
  rwa [zero_add] at h

/-! ## Results -/

theorem fillsFrom_exitPrice (lv : Levels) (p : Option OpenPosition) (rows : List Candle) :
    ∀ f ∈ fillsFrom lv p rows,
      (f.result = .loss → f.exitPrice = lv.effStop) ∧ (f.result = .win → f.exitPrice = lv.effTarget) := by
  have hlevel : ∀ {row : Candle} {x : ℚ} {r : TradeResult}, lv.exitOn row = some (x, r) →
      (r = .loss → x = lv.effStop) ∧ (r = .win → x = lv.effTarget) := by
    intro row x r hexit
    rcases resolveExit_result hexit with ⟨rfl, rfl⟩ | ⟨rfl, rfl⟩ <;> simp
  induction rows generalizing p with
  | nil => cases p <;> simp [fillsFrom]
  | cons row rows ih =>
      cases p with
      | none =>
          simp only [fillsFrom]
          split
          · split
            · next hexit => exact List.forall_mem_cons.mpr ⟨hlevel hexit, ih _⟩
            · exact ih _
          · exact ih _
      | some q =>
          simp only [fillsFrom]
          split
          · next hexit => exact List.forall_mem_cons.mpr ⟨hlevel hexit, ih _⟩
          · exact ih _

/-- Only the last fill is a scratch. -/
theorem fillsFrom_scratch : ∀ f ∈ (fillsFrom lv p rows).dropLast, f.result ≠ .scratch := by
  have hcons : ∀ {row : Candle} {x : ℚ} {r : TradeResult} {f : Fill} {fs : List Fill}, lv.exitOn row = some (x, r) →
      f.result = r → (∀ g ∈ fs.dropLast, g.result ≠ .scratch) → ∀ g ∈ (f :: fs).dropLast, g.result ≠ .scratch := by
    intro row x r f fs hexit hf hfs g hg
    cases fs with
    | nil => simp at hg
    | cons h fs =>
        rw [List.dropLast_cons_cons] at hg
        rcases List.mem_cons.mp hg with rfl | hg
        · rcases resolveExit_result hexit with ⟨-, hr⟩ | ⟨-, hr⟩ <;> simp [hf, hr]
        · exact hfs g hg
  induction rows generalizing p with
  | nil => cases p <;> simp [fillsFrom]
  | cons row rows ih =>
      cases p with
      | none =>
          simp only [fillsFrom]
          split
          · split
            · next hexit => exact hcons hexit rfl ih
            · exact ih
          · exact ih
      | some q =>
          simp only [fillsFrom]
          split
          · next hexit => exact hcons hexit rfl ih
          · exact ih

/-! ## Metrics -/

theorem drawdownStep_eq : drawdownStep = Drawdown.step := by
  funext acc r
  simp only [drawdownStep, Drawdown.step, Prod.mk.injEq, true_and]
  rcases le_or_gt (max acc.2.1 (acc.1 + r) - (acc.1 + r)) acc.2.2 with h | h
  · rw [if_neg h.not_gt, max_eq_left h]
  · rw [if_pos h, max_eq_right h.le]

theorem countOf_sum (trades : List Trade) :
    countOf trades .win + countOf trades .loss + countOf trades .scratch = trades.length := by
  unfold countOf
  induction trades with
  | nil => rfl
  | cons t trades ih => cases h : t.result <;> simp [h] <;> omega

/-- What the metrics of some trades say, whatever the configuration they are reported with. -/
structure Measures (trades : List Trade) (summary : BacktestSummary) : Prop where
  total : summary.totalSignals = trades.length
  counts : summary.winCount + summary.lossCount + summary.scratchCount = summary.totalSignals
  totalR : summary.totalR = (trades.map Trade.rMultiple).sum
  maxDrawdown : Drawdown.IsMax (trades.map Trade.rMultiple) summary.maxDrawdown

theorem exists_profitFactor (h : ∀ t ∈ trades, t.result = .loss → t.rMultiple ≠ 0) :
    ∃ factor, profitFactor trades = some factor := by
  unfold profitFactor
  simp only
  split_ifs with hnil hzero
  · exact ⟨_, rfl⟩
  · exfalso
    cases hlosses : trades.filter (·.result = .loss) with
    | nil => simp [hlosses] at hnil
    | cons t losses =>
        rw [hlosses, List.map_cons, List.sum_cons] at hzero
        have ht := List.mem_filter.mp (hlosses ▸ List.mem_cons_self : t ∈ trades.filter (·.result = .loss))
        have hpos : 0 < |t.rMultiple| := abs_pos.mpr (h t ht.1 (by simpa using ht.2))
        have hrest : 0 ≤ (losses.map fun t => |t.rMultiple|).sum :=
          List.sum_nonneg (by simp)
        exact absurd hzero (add_pos_of_pos_of_nonneg hpos hrest).ne'
  · exact ⟨_, rfl⟩

/-- Trades whose losses lose something can be measured. -/
theorem computeMetrics_measures (config : Option BacktestConfig) (minTrades : ℤ)
    (h : ∀ t ∈ trades, t.result = .loss → t.rMultiple ≠ 0) :
    ∃ summary, computeMetrics trades config minTrades = some summary ∧ Measures trades summary := by
  unfold computeMetrics
  by_cases hnil : trades = []
  · subst hnil
    exact ⟨_, if_pos rfl, rfl, rfl, rfl, Drawdown.holds_nil.fall⟩
  · obtain ⟨factor, hfactor⟩ := exists_profitFactor h
    simp only [hnil, ↓reduceIte, hfactor]
    refine ⟨_, rfl, rfl, countOf_sum trades, rfl, ?_⟩
    rw [drawdownStep_eq]
    exact (Drawdown.foldl_step _).fall

end CryptoAggHarmonic.Backtest
