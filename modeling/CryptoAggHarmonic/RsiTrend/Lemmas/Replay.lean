import Mathlib.Tactic.Linarith
import CryptoAggHarmonic.RsiTrend.Lemmas.Prefix
import CryptoAggHarmonic.Lib.KeepBest

/-!
# Trades on a prefix of the frame

A trade that closes within a prefix is closed there in every frame that begins with it. A trade that is still open
at its end is flattened on the last bar of the prefix and closes later in the whole frame.
-/

namespace CryptoAggHarmonic.RsiTrend

open Domain

variable {o : Settings} {signal : StrategySignal} {st st' : TradeState} {bar : Bar} {data : List Bar} {i m : ℕ}

/-! ## Open and closed -/

theorem manage_remaining_pos (h : 0 < st.remaining) : 0 < (manage o signal bar st).remaining := by
  have hreduce : ∀ s : TradeState, 0 < s.remaining → 0 < (reduceOnRsi o signal bar s).remaining := by
    intro s hs
    unfold reduceOnRsi
    split_ifs
    · simp only [TradeState.reduce]
      linarith
    · exact hs
  have htrail : ∀ s : TradeState, (trail signal bar s).remaining = s.remaining := by
    intro s
    unfold trail
    repeat' split
    all_goals rfl
  unfold manage
  rw [htrail]
  refine hreduce _ ?_
  split_ifs
  · simp only [takeTarget, TradeState.reduce]
    linarith
  · exact h

theorem stepBar_done {x : Bar × ℕ} (h : stepBar o signal st x = .done st') :
    st'.remaining = 0 ∧ st'.exitIndex = x.2 := by
  obtain ⟨bar, i⟩ := x
  simp only [stepBar] at h
  split_ifs at h <;> · cases h; exact ⟨rfl, rfl⟩

theorem stepBar_yield {x : Bar × ℕ} (hst : 0 < st.remaining) (h : stepBar o signal st x = .yield st') :
    0 < st'.remaining := by
  obtain ⟨bar, i⟩ := x
  simp only [stepBar] at h
  split_ifs at h
  · cases h
    exact manage_remaining_pos hst
  · cases h
    exact hst

/-- The loop leaves the trade open, or closed on one of the bars. -/
theorem run_open_or_closed (o : Settings) (signal : StrategySignal) (xs : List (Bar × ℕ)) (hst : 0 < st.remaining) :
    0 < (Loops.run (stepBar o signal) st xs).remaining ∨
      (Loops.run (stepBar o signal) st xs).remaining = 0 ∧
        ∃ x ∈ xs, (Loops.run (stepBar o signal) st xs).exitIndex = x.2 := by
  refine Loops.run_rule (I := fun _ (s : TradeState) => 0 < s.remaining)
    (Q := fun (s : TradeState) => s.remaining = 0 ∧ ∃ x ∈ xs, s.exitIndex = x.2) hst fun is x rest hall s hs => ?_
  have hx : x ∈ xs := hall ▸ by simp
  cases hb : stepBar o signal s x with
  | done s' =>
      obtain ⟨hzero, hexit⟩ := stepBar_done hb
      exact ⟨hzero, x, hx, hexit⟩
  | yield s' => exact stepBar_yield hs hb

theorem run_append (o : Settings) (signal : StrategySignal) (xs ys : List (Bar × ℕ)) (hst : 0 < st.remaining) :
    (0 < (Loops.run (stepBar o signal) st xs).remaining → Loops.run (stepBar o signal) st (xs ++ ys) =
        Loops.run (stepBar o signal) (Loops.run (stepBar o signal) st xs) ys) ∧
      (¬ 0 < (Loops.run (stepBar o signal) st xs).remaining →
        Loops.run (stepBar o signal) st (xs ++ ys) = Loops.run (stepBar o signal) st xs) := by
  refine Loops.run_append (fun s : TradeState => 0 < s.remaining) (fun s x s' h => ?_)
    (fun s x s' hs h => stepBar_yield hs h) hst xs ys
  rw [(stepBar_done h).1]
  exact lt_irrefl 0

/-! ## One trade -/

/-- The position of the bar a trade ends on. -/
def exitBar (p : StrategySignal × StrategyTrade) : ℤ := p.1.index + p.2.barsHeld

theorem exitBar_tradeOf : exitBar (signal, tradeOf signal st) = st.exitIndex := by
  simp [exitBar, tradeOf]

/-- How a trade ends: closed by a bar, or flattened on the last one. -/
theorem simulateOne_cases (o : Settings) (hindex : signal.index < data.length) :
    let st := Loops.run (stepBar o signal) (TradeState.start signal) (barsFrom data signal.index)
    (¬ 0 < st.remaining ∧ simulateOne o data signal = .ok (tradeOf signal st) ∧
        signal.index ≤ st.exitIndex ∧ st.exitIndex < data.length) ∨
      (0 < st.remaining ∧ ∃ trade, simulateOne o data signal = .ok trade ∧
        exitBar (signal, trade) = (data.length - 1 : ℕ)) := by
  intro st
  have hstart : 0 < (TradeState.start signal).remaining := by simp [TradeState.start]
  have hrun := run_open_or_closed o signal (barsFrom data signal.index) hstart
  rcases hrun with hopen | ⟨hzero, x, hx, hexit⟩
  · obtain ⟨last, hlast⟩ : ∃ last, data.getLast? = some last :=
      ⟨_, List.getLast?_eq_some_getLast (List.ne_nil_of_length_pos (by omega))⟩
    refine Or.inr ⟨hopen, tradeOf signal (st.closeAll signal last.close .endOfData (data.length - 1) last.time), ?_,
      by rw [exitBar_tradeOf]; rfl⟩
    unfold simulateOne
    rw [if_pos hopen, hlast]
  · have hnot : ¬ 0 < st.remaining := by rw [show st.remaining = 0 from hzero]; exact lt_irrefl 0
    obtain ⟨hle, hget⟩ := mem_zipIdx_drop.mp hx
    obtain ⟨hlt, -⟩ := List.getElem?_eq_some_iff.mp hget
    refine Or.inl ⟨hnot, ?_, hexit ▸ hle, hexit ▸ hlt⟩
    unfold simulateOne
    exact if_neg hnot

/-- A trade ends on a bar of the frame, and never before its signal. -/
theorem simulateOne_returns (o : Settings) (hindex : signal.index < data.length) :
    ∃ trade, simulateOne o data signal = .ok trade ∧ (signal.index : ℤ) ≤ exitBar (signal, trade) ∧
      exitBar (signal, trade) < data.length := by
  rcases simulateOne_cases o hindex with ⟨-, hok, hle, hlt⟩ | ⟨-, trade, hok, hexit⟩
  · refine ⟨_, hok, ?_⟩
    rw [exitBar_tradeOf]
    exact ⟨by exact_mod_cast hle, by exact_mod_cast hlt⟩
  · refine ⟨trade, hok, ?_⟩
    rw [hexit]
    omega

/-- **One trade on a prefix**: it is the same trade there, or it is cut at the last bar of the prefix and ends after
it in the whole frame. -/
theorem simulateOne_take (o : Settings) (hindex : signal.index < m) (hm : m < data.length) :
    ∃ trade, simulateOne o data signal = .ok trade ∧
      (simulateOne o (data.take m) signal = .ok trade ∧ exitBar (signal, trade) < m ∨
        (m : ℤ) ≤ exitBar (signal, trade)) := by
  have htake : (data.take m).length = m := by rw [List.length_take, Nat.min_eq_left hm.le]
  obtain ⟨later, hsplit, hlater⟩ := zipIdx_drop_split data hindex.le
  have hstart : 0 < (TradeState.start signal).remaining := by simp [TradeState.start]
  have happ := run_append o signal (barsFrom (data.take m) signal.index) later hstart
  change barsFrom data signal.index = barsFrom (data.take m) signal.index ++ later at hsplit
  rw [← hsplit] at happ
  have hindex' : signal.index < (data.take m).length := by rwa [htake]
  rcases simulateOne_cases o hindex' with
    ⟨hclosed, hok, -, hlt⟩ | ⟨hopen, -⟩
  · -- Closed within the prefix: the whole frame gives the same state.
    refine ⟨_, ?_, Or.inl ⟨hok, by rw [exitBar_tradeOf]; rw [htake] at hlt; exact_mod_cast hlt⟩⟩
    unfold simulateOne
    rw [happ.2 hclosed]
    exact if_neg hclosed
  · obtain ⟨trade, hok, -⟩ := simulateOne_returns o (hindex.trans hm)
    refine ⟨trade, hok, Or.inr ?_⟩
    rcases simulateOne_cases o (hindex.trans hm) with ⟨hclosed, hok', -, -⟩ | ⟨-, trade', hok', hexit⟩
    · -- Closed by a bar after the prefix.
      obtain rfl : _ = trade := Except.ok.inj (hok'.symm.trans hok)
      rw [exitBar_tradeOf, happ.1 hopen]
      rw [happ.1 hopen] at hclosed
      rcases run_open_or_closed o signal later hopen with h | ⟨-, x, hx, hexit⟩
      · exact absurd h hclosed
      · rw [hexit]
        exact_mod_cast hlater x hx
    · obtain rfl : _ = trade := Except.ok.inj (hok'.symm.trans hok)
      rw [hexit]
      omega

/-! ## All trades -/

theorem takeTrades_cons_skip {u : ℤ} {signals : List StrategySignal} (h : (signal.index : ℤ) ≤ u) :
    takeTrades o data u (signal :: signals) = takeTrades o data u signals := by
  rw [takeTrades, if_pos h]

theorem takeTrades_cons_trade {u : ℤ} {signals : List StrategySignal} {trade : StrategyTrade}
    {rest : List (StrategySignal × StrategyTrade)} (h : ¬ (signal.index : ℤ) ≤ u)
    (htrade : simulateOne o data signal = .ok trade)
    (hrest : takeTrades o data (exitBar (signal, trade)) signals = .ok rest) :
    takeTrades o data u (signal :: signals) = .ok ((signal, trade) :: rest) := by
  rw [takeTrades, if_neg h, htrade, ok_bind]
  rw [exitBar] at hrest
  rw [hrest, ok_bind, pure_eq_ok]

/-- All signals on bars of the frame can be traded, and every trade ends in the frame, after the bar the loop starts
behind. -/
theorem takeTrades_returns (o : Settings) (u : ℤ) {signals : List StrategySignal}
    (h : ∀ s ∈ signals, s.index < data.length) :
    ∃ taken, takeTrades o data u signals = .ok taken ∧ ∀ p ∈ taken, u < exitBar p ∧ exitBar p < data.length := by
  induction signals generalizing u with
  | nil => exact ⟨[], rfl, by simp⟩
  | cons signal signals ih =>
      have hlater : ∀ s ∈ signals, s.index < data.length := fun s hs => h s (List.mem_cons_of_mem _ hs)
      by_cases hskip : (signal.index : ℤ) ≤ u
      · rw [takeTrades_cons_skip hskip]
        exact ih u hlater
      · obtain ⟨trade, htrade, hle, hlt⟩ := simulateOne_returns o (h signal List.mem_cons_self)
        obtain ⟨rest, hrest, hafter⟩ := ih (exitBar (signal, trade)) hlater
        refine ⟨_, takeTrades_cons_trade hskip htrade hrest, fun p hp => ?_⟩
        rcases List.mem_cons.mp hp with rfl | hp
        · omega
        · have := hafter p hp
          omega

/-- **All trades on a prefix**: those that end within the prefix are the first ones taken there. -/
theorem takeTrades_take (o : Settings) (hm : m < data.length) (u : ℤ) {signals : List StrategySignal}
    (h : ∀ s ∈ signals, s.index < data.length) :
    ∃ taken taken', takeTrades o data u signals = .ok taken ∧
      takeTrades o (data.take m) u (signals.filter (·.index < m)) = .ok taken' ∧
      taken.filter (exitBar · < m) <+: taken' := by
  have htake : (data.take m).length = m := by rw [List.length_take, Nat.min_eq_left hm.le]
  induction signals generalizing u with
  | nil => exact ⟨[], [], rfl, rfl, List.prefix_refl _⟩
  | cons signal signals ih =>
      have hlater : ∀ s ∈ signals, s.index < data.length := fun s hs => h s (List.mem_cons_of_mem _ hs)
      by_cases hskip : (signal.index : ℤ) ≤ u
      · obtain ⟨taken, taken', htaken, htaken', hprefix⟩ := ih u hlater
        refine ⟨taken, taken', by rw [takeTrades_cons_skip hskip, htaken], ?_, hprefix⟩
        rw [List.filter_cons]
        split_ifs
        · rw [takeTrades_cons_skip hskip, htaken']
        · exact htaken'
      · -- Once a trade ends at `m` or later, so do all after it.
        have hlate : ∀ trade, simulateOne o data signal = .ok trade → (m : ℤ) ≤ exitBar (signal, trade) →
            ∃ taken taken', takeTrades o data u (signal :: signals) = .ok taken ∧
              takeTrades o (data.take m) u ((signal :: signals).filter (·.index < m)) = .ok taken' ∧
              taken.filter (exitBar · < m) <+: taken' := by
          intro trade htrade hexit
          obtain ⟨rest, hrest, hafter⟩ := takeTrades_returns o (exitBar (signal, trade)) hlater
          have hinside : ∀ s ∈ (signal :: signals).filter (·.index < m), s.index < (data.take m).length := by
            intro s hs
            rw [htake]
            simpa using (List.mem_filter.mp hs).2
          obtain ⟨taken', htaken', -⟩ := takeTrades_returns o u hinside
          refine ⟨_, taken', takeTrades_cons_trade hskip htrade hrest, htaken', ?_⟩
          rw [List.filter_eq_nil_iff.mpr]
          · exact List.nil_prefix
          · intro p hp
            simp only [decide_eq_true_eq, not_lt]
            rcases List.mem_cons.mp hp with rfl | hp
            · exact hexit
            · have := hafter p hp
              omega
        by_cases hindex : signal.index < m
        · obtain ⟨trade, htrade, ⟨htrade', hexit⟩ | hexit⟩ := simulateOne_take o hindex hm
          · obtain ⟨taken, taken', htaken, htaken', hprefix⟩ := ih (exitBar (signal, trade)) hlater
            refine ⟨_, (signal, trade) :: taken', takeTrades_cons_trade hskip htrade htaken, ?_, ?_⟩
            · rw [List.filter_cons_of_pos (by simpa using hindex)]
              exact takeTrades_cons_trade hskip htrade' htaken'
            · rw [List.filter_cons_of_pos (by simpa using hexit)]
              exact List.prefix_cons_iff.mpr (Or.inr ⟨_, rfl, hprefix⟩)
          · exact hlate trade htrade hexit
        · obtain ⟨trade, htrade, hle, -⟩ := simulateOne_returns o (h signal List.mem_cons_self)
          exact hlate trade htrade (by omega)

end CryptoAggHarmonic.RsiTrend

/-!
# One position at a time

Which signals the loop over the signals takes, and what it makes of the results.
-/

namespace CryptoAggHarmonic.RsiTrend

variable {o : Settings} {data : List Bar} {u : ℤ} {before after signals : List StrategySignal}
  {taken p q : List (StrategySignal × StrategyTrade)} {signal : StrategySignal} {trades : List StrategyTrade}

/-! ## The signals taken -/

/-- The last bar covered after some trades, when it was `u` before them. -/
def openUntil (u : ℤ) (taken : List (StrategySignal × StrategyTrade)) : ℤ := (taken.getLast?.map exitBar).getD u

@[simp] theorem openUntil_nil : openUntil u [] = u := rfl

theorem openUntil_cons (x : StrategySignal × StrategyTrade) :
    openUntil u (x :: taken) = openUntil (exitBar x) taken := by
  cases taken with
  | nil => rfl
  | cons y taken => simp [openUntil, List.getLast?_eq_some_getLast]

theorem openUntil_eq (u : ℤ) (taken : List (StrategySignal × StrategyTrade)) :
    taken = [] ∧ openUntil u taken = u ∨ ∃ x ∈ taken, openUntil u taken = exitBar x := by
  cases h : taken.getLast? with
  | none => exact Or.inl ⟨List.getLast?_eq_none_iff.mp h, by simp [openUntil, h]⟩
  | some x => exact Or.inr ⟨x, List.mem_of_getLast? h, by simp [openUntil, h]⟩

/-- What a turn of the loop takes is a trade of its own signal, behind the bars covered so far. -/
structure Taken (o : Settings) (data : List Bar) (u : ℤ) (taken : List (StrategySignal × StrategyTrade)) : Prop where
  traded : ∀ x ∈ taken, simulateOne o data x.1 = .ok x.2
  later : ∀ x ∈ taken, u < x.1.index ∧ (x.1.index : ℤ) ≤ exitBar x
  ordered : taken.Pairwise fun a b => exitBar a < b.1.index

theorem takeTrades_taken (h : ∀ s ∈ signals, s.index < data.length) (htaken : takeTrades o data u signals = .ok taken) :
    Taken o data u taken := by
  induction signals generalizing u taken with
  | nil =>
      cases htaken
      exact ⟨by simp, by simp, List.Pairwise.nil⟩
  | cons signal signals ih =>
      have hrest : ∀ s ∈ signals, s.index < data.length := fun s hs => h s (List.mem_cons_of_mem _ hs)
      by_cases hskip : (signal.index : ℤ) ≤ u
      · rw [takeTrades_cons_skip hskip] at htaken
        exact ih hrest htaken
      · obtain ⟨trade, htrade, hle, -⟩ := simulateOne_returns o (h signal List.mem_cons_self)
        obtain ⟨rest, hrun, -⟩ := takeTrades_returns o (exitBar (signal, trade)) hrest
        rw [takeTrades_cons_trade hskip htrade hrun] at htaken
        cases htaken
        have hih := ih hrest hrun
        refine ⟨?_, ?_, List.pairwise_cons.mpr ⟨fun y hy => (hih.later y hy).1, hih.ordered⟩⟩
        · intro x hx
          rcases List.mem_cons.mp hx with rfl | hx
          · exact htrade
          · exact hih.traded x hx
        · intro x hx
          rcases List.mem_cons.mp hx with rfl | hx
          · exact ⟨not_le.mp hskip, hle⟩
          · have := hih.later x hx
            exact ⟨by omega, this.2⟩

/-- The loop goes on with what the signals so far have left it. -/
theorem takeTrades_append (h : ∀ s ∈ before, s.index < data.length) (hbefore : takeTrades o data u before = .ok p)
    (hafter : takeTrades o data (openUntil u p) after = .ok q) :
    takeTrades o data u (before ++ after) = .ok (p ++ q) := by
  induction before generalizing u p with
  | nil =>
      cases hbefore
      exact hafter
  | cons signal before ih =>
      have hrest : ∀ s ∈ before, s.index < data.length := fun s hs => h s (List.mem_cons_of_mem _ hs)
      by_cases hskip : (signal.index : ℤ) ≤ u
      · rw [takeTrades_cons_skip hskip] at hbefore
        rw [List.cons_append, takeTrades_cons_skip hskip]
        exact ih hrest hbefore hafter
      · obtain ⟨trade, htrade, -⟩ := simulateOne_returns o (h signal List.mem_cons_self)
        obtain ⟨rest, hrun, -⟩ := takeTrades_returns o (exitBar (signal, trade)) hrest
        rw [takeTrades_cons_trade hskip htrade hrun] at hbefore
        cases hbefore
        rw [openUntil_cons] at hafter
        exact takeTrades_cons_trade hskip htrade (ih hrest hrun hafter)

/-- A signal is skipped only under a trade that was taken before it. -/
theorem skipped_covered (h : ∀ s ∈ before ++ [signal], s.index < data.length)
    (hbefore : takeTrades o data (-1) before = .ok p) (hskip : takeTrades o data (-1) (before ++ [signal]) = .ok p) :
    ∃ x ∈ p, (signal.index : ℤ) ≤ exitBar x := by
  have hrest : ∀ s ∈ before, s.index < data.length := fun s hs => h s (List.mem_append_left _ hs)
  by_cases hopen : (signal.index : ℤ) ≤ openUntil (-1) p
  · rcases openUntil_eq (-1) p with ⟨-, hu⟩ | ⟨x, hx, hu⟩
    · omega
    · exact ⟨x, hx, hu ▸ hopen⟩
  · obtain ⟨trade, htrade, -⟩ := simulateOne_returns o (h signal (by simp))
    have hlast : takeTrades o data (openUntil (-1) p) [signal] = .ok [(signal, trade)] :=
      takeTrades_cons_trade hopen htrade rfl
    have hrun := takeTrades_append hrest hbefore hlast
    rw [hrun] at hskip
    simpa using congrArg List.length (Except.ok.inj hskip)

/-! ## The results -/

theorem drawdownStep_eq : drawdownStep = Drawdown.step := rfl

theorem length_signs (rs : List ℚ) :
    (rs.filter (· > 0)).length + (rs.filter (· < 0)).length + (rs.filter (· = 0)).length = rs.length := by
  induction rs with
  | nil => rfl
  | cons r rs ih =>
      simp only [gt_iff_lt] at ih ⊢
      rcases lt_trichotomy r 0 with h | h | h
      · simp [h, h.ne, h.le.not_gt]
        omega
      · simp [h]
        omega
      · simp [h, h.ne', h.le.not_gt]
        omega

theorem aggregate_counts (n : ℕ) (trades : List StrategyTrade) :
    (aggregate n trades).winCount + (aggregate n trades).lossCount + (aggregate n trades).scratchCount =
      (aggregate n trades).tradesCount := by
  have h := length_signs (trades.map StrategyTrade.rMultiple)
  rwa [List.length_map] at h

theorem aggregate_maxDrawdown (n : ℕ) (trades : List StrategyTrade) :
    Drawdown.IsMax (trades.map StrategyTrade.rMultiple) (aggregate n trades).maxDrawdownR := by
  rw [aggregate, drawdownStep_eq]
  exact (Drawdown.foldl_step _).fall

end CryptoAggHarmonic.RsiTrend
