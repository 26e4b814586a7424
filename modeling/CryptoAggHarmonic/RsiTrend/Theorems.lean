import CryptoAggHarmonic.RsiTrend.Lemmas.Trade
import CryptoAggHarmonic.RsiTrend.Lemmas.Replay
import CryptoAggHarmonic.RsiTrend.Lemmas.Parity
import CryptoAggHarmonic.RsiTrend.Lemmas.Detection

/-!
# The R-multiple of a trade, no look-ahead, one position at a time, and the two entry rules

What one bar does to an open trade, and from it what every trade comes to. Then what the scan and the backtest give on
a prefix of the frame, and where the freqtrade adapter enters on the bars of the scan.
-/

namespace CryptoAggHarmonic.RsiTrend

open Domain

variable {o : Settings} {signal : StrategySignal} {st : TradeState} {bar : Bar} {data : List Bar} {i : ℕ}

/-- A frame and a signal on one of its bars: the entry is the close of that bar, with the stop and the target on
their sides. -/
structure Tradeable (data : List Bar) (signal : StrategySignal) : Prop where
  bars : ∀ bar ∈ data, bar.WellFormed
  entry : (data[signal.index]?).map Bar.close = some signal.entryPrice
  placed : signal.WellPlaced

/-! ## One bar -/

/-- The bars so far have not closed the trade: it is open, it is younger than its time to live, and the last close
is between the initial stop and, before the first target is done, the target. -/
structure Running (o : Settings) (signal : StrategySignal) (consumed : List (Bar × ℕ)) (st : TradeState) : Prop where
  isOpen : Open o signal st
  young : 0 < o.ttlBars → (consumed.length : ℤ) ≤ o.ttlBars
  close_gt : ∀ x ∈ consumed.getLast?, -1 < signal.r x.1.close
  close_lt : ∀ x ∈ consumed.getLast?, st.t1Done = false → signal.r x.1.close < signal.rewardRatio

theorem barsFrom_split {is rest : List (Bar × ℕ)} {x : Bar × ℕ}
    (h : barsFrom data signal.index = is ++ x :: rest) :
    data[signal.index + is.length]? = some x.1 ∧ x.2 = signal.index + is.length := by
  have hx : (barsFrom data signal.index)[is.length]? = some x := by
    rw [h, List.getElem?_append_right (le_refl _)]
    simp
  rw [barsFrom, List.getElem?_drop, List.getElem?_zipIdx] at hx
  simp only [Option.map_eq_some_iff] at hx
  obtain ⟨bar, hbar, rfl⟩ := hx
  exact ⟨hbar, by simp⟩

/-- **One bar**: the trade goes on running, or it is closed. -/
theorem stepBar_turn (h : signal.WellPlaced) {is : List (Bar × ℕ)} (hr : Running o signal is st)
    (hbar : bar.WellFormed) (hi : i = signal.index + is.length) (hentry : is = [] → bar.close = signal.entryPrice) :
    Loops.Turn (Running o signal) (Closed o signal) (is ++ [(bar, i)]) (stepBar o signal st (bar, i)) := by
  have ho := hr.isOpen
  have hheld : 0 < o.ttlBars → (i : ℤ) - signal.index ≤ o.ttlBars := fun hpos => by
    have := hr.young hpos
    omega
  have hlast : ∀ x ∈ (is ++ [(bar, i)]).getLast?, x.1 = bar := by simp
  simp only [stepBar]
  cases hstop : stopHit signal.direction bar st.stop with
  | true =>
      simp only [↓reduceIte]
      exact ho.closeAll ho.stop_ge (fun hmode => by rw [ExitAgrees, ho.initial (ho.t1_not hmode), h.r_stop]) hheld
  | false =>
      simp only [Bool.false_eq_true, ↓reduceIte]
      by_cases hlater : i > signal.index
      · simp only [hlater, ↓reduceIte]
        cases htarget : firstTargetHit signal bar st && !o.partialMode with
        | true =>
            simp only [↓reduceIte]
            have hk := h.rewardRatio_pos
            exact ho.closeAll (by rw [h.r_target]; linarith) (fun _ => h.r_target) hheld
        | false =>
            obtain ⟨hopen, hclose, hbelow⟩ := ho.manage h hbar hstop fun hhit => by simpa [hhit] using htarget
            cases hflip : flipped o signal.direction bar with
            | true =>
                simp only [Bool.false_eq_true, ↓reduceIte]
                exact hopen.closeAll hclose.le (fun hmode => ⟨hclose, hbelow (hopen.t1_not hmode)⟩) hheld
            | false =>
                simp only [Bool.false_eq_true, ↓reduceIte]
                by_cases httl : 0 < o.ttlBars ∧ o.ttlBars ≤ (i : ℤ) - signal.index
                · simp only [httl, and_self, ↓reduceIte]
                  exact hopen.closeAll hclose.le (fun hmode => ⟨hclose, hbelow (hopen.t1_not hmode)⟩) hheld
                · simp only [httl, ↓reduceIte]
                  refine ⟨hopen, fun hpos => ?_, fun x hx => ?_, fun x hx => ?_⟩
                  · rw [List.length_append, List.length_singleton]
                    omega
                  · rwa [hlast x hx]
                  · rwa [hlast x hx]
      · simp only [hlater, ↓reduceIte]
        -- The signal bar closes at the entry.
        have hnil : is = [] := List.eq_nil_of_length_eq_zero (by omega)
        have hzero : signal.r bar.close = 0 := by rw [hentry hnil, signal.r_entry]
        refine ⟨ho, fun hpos => ?_, fun x hx => ?_, fun x hx _ => ?_⟩
        · rw [hnil, List.nil_append, List.length_singleton]
          omega
        · rw [hlast x hx, hzero]
          norm_num
        · rw [hlast x hx, hzero]
          exact h.rewardRatio_pos

/-! ## A trade -/

theorem run_stepBar (h : Tradeable data signal) :
    let st := Loops.run (stepBar o signal) (TradeState.start signal) (barsFrom data signal.index)
    Running o signal (barsFrom data signal.index) st ∨ Closed o signal st := by
  refine Loops.run_rule ⟨open_start h.placed, by simp; omega, by simp, by simp⟩ fun is x rest hall st hr => ?_
  obtain ⟨hget, hi⟩ := barsFrom_split hall
  obtain ⟨bar, i⟩ := x
  refine stepBar_turn h.placed hr (h.bars bar (List.mem_of_getElem? hget)) hi fun hnil => ?_
  have hentry := h.entry
  rw [hnil, List.length_nil, Nat.add_zero] at hget
  rw [hget] at hentry
  exact Option.some.inj hentry

theorem getLast?_barsFrom {last : Bar} (hindex : signal.index < data.length) (hlast : data.getLast? = some last) :
    (barsFrom data signal.index).getLast? = some (last, data.length - 1) := by
  rw [barsFrom, List.getLast?_drop, List.length_zipIdx, if_neg (not_le.mpr hindex), List.getLast?_eq_getElem?,
    List.length_zipIdx, List.getElem?_zipIdx, ← List.getLast?_eq_getElem?, hlast]
  simp

theorem Running.flatten {last : Bar} (hr : Running o signal (barsFrom data signal.index) st)
    (hindex : signal.index < data.length) (hlast : data.getLast? = some last) :
    Closed o signal (st.closeAll signal last.close .endOfData (data.length - 1) last.time) := by
  have hx := getLast?_barsFrom hindex hlast
  have hgt : -1 < signal.r last.close := hr.close_gt (last, data.length - 1) hx
  have hlt := hr.close_lt (last, data.length - 1) hx
  refine hr.isOpen.closeAll hgt.le (fun hmode => ⟨hgt, hlt (hr.isOpen.t1_not hmode)⟩) fun hpos => ?_
  have := hr.young hpos
  rw [barsFrom, List.length_drop, List.length_zipIdx] at this
  omega

theorem simulateOne_closed (h : Tradeable data signal) :
    ∃ st, simulateOne o data signal = .ok (tradeOf signal st) ∧ Closed o signal st := by
  have hindex : signal.index < data.length := by
    by_contra hnot
    have hentry := h.entry
    rw [List.getElem?_eq_none (by omega)] at hentry
    cases hentry
  have hrun := run_stepBar (o := o) h
  simp only at hrun
  unfold simulateOne
  generalize Loops.run (stepBar o signal) (TradeState.start signal) (barsFrom data signal.index) = st at hrun ⊢
  rcases hrun with hr | hc
  · obtain ⟨last, hlast⟩ : ∃ last, data.getLast? = some last :=
      ⟨_, List.getLast?_eq_some_getLast (List.ne_nil_of_length_pos (by omega))⟩
    refine ⟨_, ?_, hr.flatten hindex hlast⟩
    simp only [gt_iff_lt, hr.isOpen.remaining_pos, ↓reduceIte, hlast]
  · exact ⟨st, by simp [hc.remaining_eq], hc⟩

theorem ExitAgrees.bounds {reason : ExitReason} {r : ℚ} (h : ExitAgrees signal reason r)
    (hk : 0 < signal.rewardRatio) : r ≤ signal.rewardRatio ∧ (r = -1 ↔ reason = .stopLoss) ∧
      (r = signal.rewardRatio ↔ reason = .target) := by
  have hbetween : -1 < r ∧ r < signal.rewardRatio →
      r ≤ signal.rewardRatio ∧ ¬ r = -1 ∧ ¬ r = signal.rewardRatio :=
    fun ⟨hgt, hlt⟩ => ⟨hlt.le, hgt.ne', hlt.ne⟩
  cases reason with
  | stopLoss =>
      have hr : r = -1 := h
      refine ⟨by linarith, by simp [hr], ?_⟩
      simp only [reduceCtorEq, iff_false]
      linarith
  | target =>
      have hr : r = signal.rewardRatio := h
      refine ⟨hr.le, ?_, by simp [hr]⟩
      simp only [reduceCtorEq, iff_false]
      linarith
  | partialTarget => simpa using hbetween h
  | rsiExtreme => simpa using hbetween h
  | trendFlip => simpa using hbetween h
  | endOfData => simpa using hbetween h
  | ttl => simpa using hbetween h

/-- **The R-multiple of a trade.** It never loses more than one R. Closed all at once it is the R of the exit: -1 for
the stop, the reward ratio for the target, strictly between for every other exit. Closed in parts it is what the parts
contribute and what is left at the exit. With a time to live the trade is never held longer. -/
theorem trade_rMultiple_bounds (o : Settings) (data : List Bar) (signal : StrategySignal)
    (h : Tradeable data signal) : ∃ trade, simulateOne o data signal = .ok trade ∧ -1 ≤ trade.rMultiple ∧
      (o.partialMode = false → trade.rMultiple ≤ signal.rewardRatio ∧
        (trade.rMultiple = -1 ↔ trade.exitReason = .stopLoss) ∧
        (trade.rMultiple = signal.rewardRatio ↔ trade.exitReason = .target)) ∧
      (o.partialMode = true → fractions trade.partials < 1 ∧
        (∀ p ∈ trade.partials, p.rMultiple = p.fraction * signal.r p.price) ∧
        trade.rMultiple = contributions trade.partials +
          (1 - fractions trade.partials) * signal.r trade.exitPrice) ∧
      (0 < o.ttlBars → trade.barsHeld ≤ o.ttlBars) := by
  obtain ⟨st, hst, hc⟩ := simulateOne_closed (o := o) h
  refine ⟨tradeOf signal st, hst, hc.realized_ge, fun hmode => ?_,
    fun _ => ⟨hc.fractions_lt, hc.weighted, hc.realized_eq⟩, hc.held⟩
  obtain ⟨hnil, hexit⟩ := hc.simple hmode
  have hk := h.placed.rewardRatio_pos
  have hr : (tradeOf signal st).rMultiple = signal.r st.exitPrice := by
    show st.realizedR = _
    rw [hc.realized_eq, hnil]
    simp [contributions, fractions]
  rw [hr]
  exact hexit.bounds h.placed.rewardRatio_pos

/-- A long from 100 that takes its target at 110, is reduced on the RSI and trailed out. -/
def runnerBars : List Bar :=
  [⟨101, 98, 100, some 90, some 95, some 35, some 2, "00:00"⟩,
    ⟨111, 99, 108, some 91, some 96, some 75, some 2, "01:00"⟩,
    ⟨109, 105, 107, some 92, some 97, some 60, some 2, "02:00"⟩]

def runner : StrategySignal where
  direction := .long
  entryPrice := 100
  stopLoss := 95
  targetPrice := 110
  time := "00:00"
  index := 0

/-- Half at 2 R, a quarter at the close of 108 and the rest at the trailed stop of 106. -/
theorem runner_bounds : ∃ trade, simulateOne ⟨true, true, .ema50, 5⟩ runnerBars runner = .ok trade ∧
    trade.rMultiple = 17 / 10 ∧ -1 ≤ trade.rMultiple ∧ fractions trade.partials < 1 ∧ trade.barsHeld ≤ 5 := by
  have h : Tradeable runnerBars runner :=
    ⟨by decide, by decide, by constructor <;> decide⟩
  obtain ⟨trade, htrade, hge, -, hparts, hheld⟩ := trade_rMultiple_bounds ⟨true, true, .ema50, 5⟩ runnerBars runner h
  have hr : (simulateOne ⟨true, true, .ema50, 5⟩ runnerBars runner).map StrategyTrade.rMultiple = .ok (17 / 10) := by
    decide +kernel
  rw [htrade] at hr
  exact ⟨trade, htrade, Except.ok.inj hr, hge, (hparts rfl).1, hheld (by decide)⟩

/-! ## No look-ahead -/

theorem enrich_take (df : List Row) (m : ℕ) : enrich (df.take m) = (enrich df).take m := by
  rw [enrich, causal_computeIndicators, List.map_take, enrich]

theorem length_enrich (df : List Row) : (enrich df).length = df.length := by
  rw [enrich, List.length_map, length_computeIndicators]

theorem takeTrades_enrich_take (o : Settings) (df : List Row) (m : ℕ) {signals : List StrategySignal}
    (h : ∀ s ∈ signals, s.index < df.length) :
    ∃ taken taken', takeTrades o (enrich df) (-1) signals = .ok taken ∧
      takeTrades o (enrich (df.take m)) (-1) (signals.filter (·.index < m)) = .ok taken' ∧
      taken.filter (exitBar · < m) <+: taken' := by
  rw [← length_enrich] at h
  rcases Nat.lt_or_ge m (enrich df).length with hm | hm
  · rw [enrich_take]
    exact takeTrades_take o hm (-1) h
  · obtain ⟨taken, htaken, hends⟩ := takeTrades_returns o (-1) h
    have hall : signals.filter (·.index < m) = signals :=
      List.filter_eq_self.mpr fun s hs => by simpa using (h s hs).trans_le hm
    have hended : taken.filter (exitBar · < m) = taken :=
      List.filter_eq_self.mpr fun p hp => by
        have := (hends p hp).2
        simp only [decide_eq_true_eq]
        omega
    refine ⟨taken, taken, htaken, ?_, by rw [hended]⟩
    rw [hall, enrich_take, List.take_of_length_le hm, htaken]

/-- **No look-ahead.** The scan of a prefix finds the signals of the whole scan that lie in it; a scan that fails does
so on the first bar it reads, in every prefix that has it. The trades that end before bar `m`, with all they record,
are the first ones the backtest of the first `m` bars takes. -/
theorem no_look_ahead (df : List Row) (m : ℕ) :
    (∀ (o : ScanSettings) (signals : List Signal), detectSignalsCore o df = .ok signals →
      detectSignalsCore o (df.take m) = .ok (signals.filter (·.index < m))) ∧
    (∀ (o : ScanSettings) (e : TypeError), detectSignalsCore o df = .error e →
      detectSignalsCore o (df.take m) = if m ≤ WARMUP_BARS then .ok [] else .error e) ∧
    ∀ (o : Settings) (signals : List StrategySignal), (∀ s ∈ signals, s.index < df.length) →
      ∃ taken taken', runBacktest o df signals = .ok (aggregate signals.length (taken.map Prod.snd)) ∧
        runBacktest o (df.take m) (signals.filter (·.index < m)) =
          .ok (aggregate (signals.filter (·.index < m)).length (taken'.map Prod.snd)) ∧
        takeTrades o (enrich df) (-1) signals = .ok taken ∧ taken.filter (exitBar · < m) <+: taken' := by
  refine ⟨fun o signals h => detectSignalsCore_take_of_ok h, fun o e h => ?_, fun o signals h => ?_⟩
  · split_ifs with hm
    · exact detectSignalsCore_short (by rw [List.length_take]; omega)
    · exact detectSignalsCore_take_of_error h (not_le.mp hm)
  · obtain ⟨taken, taken', htaken, htaken', hprefix⟩ := takeTrades_enrich_take o df m h
    refine ⟨taken, taken', ?_, ?_, htaken, hprefix⟩
    · rw [runBacktest, htaken, ok_bind, pure_eq_ok]
    · rw [runBacktest, htaken', ok_bind, pure_eq_ok]

/-- The trades of the strategy on its own signals: those that end before a later bar are taken without it. -/
theorem detected_trades_take (scan : ScanSettings) (o : Settings) (df : List Row) (m : ℕ)
    {signals : List StrategySignal} (h : detectSignals scan df = .ok signals) :
    ∃ before taken taken', detectSignals scan (df.take m) = .ok before ∧
      takeTrades o (enrich df) (-1) signals = .ok taken ∧ takeTrades o (enrich (df.take m)) (-1) before = .ok taken' ∧
      taken.filter (exitBar · < m) <+: taken' := by
  unfold detectSignals at h ⊢
  cases hcore : detectSignalsCore scan df with
  | error e => simp [hcore, Except.map] at h
  | ok detected =>
      rw [hcore] at h
      cases h
      have hindex : ∀ s ∈ detected.map Signal.strategySignal, s.index < df.length := by
        intro s hs
        obtain ⟨d, hd, rfl⟩ := List.mem_map.mp hs
        exact (detectSignalsCore_index hcore d hd).2
      obtain ⟨taken, taken', htaken, htaken', hprefix⟩ := takeTrades_enrich_take o df m hindex
      rw [List.filter_map] at htaken'
      rw [detectSignalsCore_take_of_ok hcore]
      exact ⟨_, taken, taken', rfl, htaken, htaken', hprefix⟩

/-- A long that is stopped on bar 1, and another from bar 2 on. -/
def twoTradesRows : List Row :=
  [⟨100, 101, 98, 100, "00:00"⟩, ⟨100, 101, 94, 96, "01:00"⟩, ⟨96, 97, 95, 96, "02:00"⟩, ⟨96, 99, 95, 98, "03:00"⟩]

def twoSignals : List StrategySignal := [⟨.long, 100, 95, 110, "00:00", 0⟩, ⟨.long, 96, 94, 100, "02:00", 2⟩]

theorem twoTrades_no_look_ahead : ∃ taken taken' : List (StrategySignal × StrategyTrade),
    runBacktest {} twoTradesRows twoSignals = .ok (aggregate 2 (taken.map Prod.snd)) ∧
      runBacktest {} (twoTradesRows.take 2) (twoSignals.filter (·.index < 2)) =
        .ok (aggregate 1 (taken'.map Prod.snd)) ∧
      (taken.filter (exitBar · < 2)).map Prod.fst = twoSignals.take 1 ∧ taken.filter (exitBar · < 2) <+: taken' := by
  obtain ⟨taken, taken', hrun, hrun', htaken, hprefix⟩ :=
    (no_look_ahead twoTradesRows 2).2.2 {} twoSignals (by decide)
  have hfirst : (takeTrades {} (enrich twoTradesRows) (-1) twoSignals).map
      (fun taken => (taken.filter (exitBar · < 2)).map Prod.fst) = .ok (twoSignals.take 1) := by
    decide +kernel
  rw [htaken] at hfirst
  exact ⟨taken, taken', hrun, hrun', Except.ok.inj hfirst, hprefix⟩

/-! ## One position at a time -/

/-- **The backtest holds one position at a time.** Each trade starts behind the exit bar of every earlier one, a signal
is skipped only under a trade that was taken before it, every trade is a win, a loss or a scratch, and the drawdown is
the deepest fall of the cumulative R. -/
theorem runBacktest_one_position (o : Settings) (df : List Row) (signals : List StrategySignal)
    (h : ∀ s ∈ signals, s.index < df.length) : ∃ taken result,
    takeTrades o (enrich df) (-1) signals = .ok taken ∧ runBacktest o df signals = .ok result ∧
      result.trades = taken.map Prod.snd ∧ (∀ x ∈ taken, simulateOne o (enrich df) x.1 = .ok x.2) ∧
      taken.Pairwise (fun a b => exitBar a < b.1.index) ∧
      (∀ before signal after, signals = before ++ signal :: after →
        ∃ p, takeTrades o (enrich df) (-1) before = .ok p ∧ p <+: taken ∧
          (takeTrades o (enrich df) (-1) (before ++ [signal]) = .ok p →
            ∃ x ∈ p, (signal.index : ℤ) ≤ exitBar x)) ∧
      result.winCount + result.lossCount + result.scratchCount = result.tradesCount ∧
      result.tradesCount = result.trades.length ∧ result.totalR = (result.trades.map StrategyTrade.rMultiple).sum ∧
      Drawdown.IsMax (result.trades.map StrategyTrade.rMultiple) result.maxDrawdownR := by
  rw [← length_enrich] at h
  obtain ⟨taken, htaken, -⟩ := takeTrades_returns o (-1) h
  have hall := takeTrades_taken h htaken
  have hrun : runBacktest o df signals = .ok (aggregate signals.length (taken.map Prod.snd)) := by
    rw [runBacktest, htaken, ok_bind, pure_eq_ok]
  refine ⟨taken, _, htaken, hrun, rfl, hall.traded, hall.ordered, ?_, aggregate_counts _ _, rfl, rfl,
    aggregate_maxDrawdown _ _⟩
  rintro before signal after rfl
  have hbefore : ∀ s ∈ before, s.index < (enrich df).length := fun s hs => h s (List.mem_append_left _ hs)
  have hafter : ∀ s ∈ signal :: after, s.index < (enrich df).length := fun s hs => h s (List.mem_append_right _ hs)
  obtain ⟨p, hp, -⟩ := takeTrades_returns o (-1) hbefore
  obtain ⟨q, hq, -⟩ := takeTrades_returns o (openUntil (-1) p) hafter
  have hsplit := takeTrades_append hbefore hp hq
  rw [htaken] at hsplit
  cases hsplit
  refine ⟨p, hp, List.prefix_append _ _, skipped_covered (fun s hs => ?_) hp⟩
  rcases List.mem_append.mp hs with hs | hs
  · exact hbefore s hs
  · exact hafter s (List.mem_cons.mpr (Or.inl (List.mem_singleton.mp hs)))

/-- The two signals with the later one first: the other fires no later than the exit of its trade. -/
theorem laterFirst_one_position : ∃ taken result,
    takeTrades {} (enrich twoTradesRows) (-1) twoSignals.reverse = .ok taken ∧
      runBacktest {} twoTradesRows twoSignals.reverse = .ok result ∧
      (∃ x ∈ taken, ((0 : ℕ) : ℤ) ≤ exitBar x) ∧ result.tradesCount = 1 ∧
      Drawdown.IsMax (result.trades.map StrategyTrade.rMultiple) result.maxDrawdownR := by
  obtain ⟨taken, result, htaken, hresult, htrades, -, -, hskips, -, hcount, -, hfall⟩ :=
    runBacktest_one_position {} twoTradesRows twoSignals.reverse (by decide)
  have hfirst : (takeTrades {} (enrich twoTradesRows) (-1) twoSignals.reverse).map (List.map Prod.fst) =
      .ok (twoSignals.drop 1) := by decide +kernel
  have hsame : takeTrades {} (enrich twoTradesRows) (-1) twoSignals.reverse =
      takeTrades {} (enrich twoTradesRows) (-1) (twoSignals.drop 1) := by decide +kernel
  rw [htaken] at hfirst
  have hone : taken.length = 1 := by
    rw [← List.length_map (f := Prod.fst), Except.ok.inj hfirst]
    rfl
  refine ⟨taken, result, htaken, hresult, ?_, by rw [hcount, htrades, List.length_map, hone], hfall⟩
  obtain ⟨p, hp, -, hskip⟩ := hskips (twoSignals.drop 1) ⟨.long, 100, 95, 110, "00:00", 0⟩ [] rfl
  rw [← hsame, htaken] at hp
  cases hp
  exact hskip htaken

/-! ## The freqtrade adapter -/

/-- **One entry rule**: the adapter enters on the bars of the signals exactly when, on every bar that meets the shared
conditions, the volatility floor says what the scan asks on its side. -/
theorem adapter_parity_iff (p : AdapterSettings) (rewardRisk : ℚ) (candles : List (Row × ℚ))
    (hvolume : ∀ c ∈ candles, 0 < c.2) :
    SameBars p rewardRisk candles ↔
      ∀ direction i row, (computeIndicators (candles.map Prod.fst))[i]? = some row →
        sharedSetup p direction row = true →
        (volatile p row = true ↔ WARMUP_BARS ≤ i ∧ Readable (computeIndicators (candles.map Prod.fst)) ∧
          tradeable p direction row = true) := by
  unfold SameBars
  refine forall_congr' fun direction => forall_congr' fun i => ?_
  rw [entersAt_iff hvolume, emitsAt_iff]
  constructor
  · intro h row hrow hsetup
    constructor
    · intro hvol
      obtain ⟨hi, hread, -, row', hrow', -, htrade⟩ := h.mp ⟨row, hrow, hsetup, hvol⟩
      rw [hrow] at hrow'
      cases hrow'
      exact ⟨hi, hread, htrade⟩
    · rintro ⟨hi, hread, htrade⟩
      obtain ⟨row', hrow', -, hvol⟩ := h.mpr ⟨hi, hread, hi, row, hrow, hsetup, htrade⟩
      rw [hrow] at hrow'
      cases hrow'
      exact hvol
  · intro h
    constructor
    · rintro ⟨row, hrow, hsetup, hvol⟩
      obtain ⟨hi, hread, htrade⟩ := (h row hrow hsetup).mp hvol
      exact ⟨hi, hread, hi, row, hrow, hsetup, htrade⟩
    · rintro ⟨hi, hread, -, row, hrow, hsetup, htrade⟩
      exact ⟨row, hrow, hsetup, (h row hrow hsetup).mpr ⟨hi, hread, htrade⟩⟩

/-- A candle from `openPrice` to `close`, with a volume of one. -/
def plainCandle (openPrice close : ℚ) : Row × ℚ := (⟨openPrice, max openPrice close, min openPrice close, close, ""⟩, 1)

/-- A flat market, a fall to `low` and a rise to `high` on the bar after the warm-up. -/
def crossAfterWarmup (low high : ℚ) : List (Row × ℚ) :=
  List.replicate 199 (plainCandle 100 100) ++ [plainCandle 100 low, plainCandle low high]

/-- Both sides enter the long when the market moves by more than the volatility floor. -/
theorem volatileCross_parity : SameBars {} 2 (crossAfterWarmup 95 102) := by
  refine (adapter_parity_iff {} 2 (crossAfterWarmup 95 102) (by decide +kernel)).mpr ?_
  have h : ∀ x ∈ (computeIndicators ((crossAfterWarmup 95 102).map Prod.fst)).zipIdx, ∀ direction ∈ [.long, .short],
      sharedSetup {} direction x.1 = true → (volatile {} x.1 = true ↔ WARMUP_BARS ≤ x.2 ∧
        (∀ row ∈ (computeIndicators ((crossAfterWarmup 95 102).map Prod.fst)).drop WARMUP_BARS, row.rsi ≠ .na) ∧
        tradeable {} direction x.1 = true) := by
    decide +kernel
  intro direction i row hrow
  exact h (row, i) (List.mk_mem_zipIdx_iff_getElem?.mpr hrow) direction (by cases direction <;> simp)

/-- In a quiet market the scan has a long and the adapter, whose floor is half a percent, does not enter. -/
theorem quietCross_differs : (∀ c ∈ crossAfterWarmup 99.9 100.2, 0 < c.2) ∧
    ¬ SameBars {} 2 (crossAfterWarmup 99.9 100.2) := by
  refine ⟨by decide +kernel, fun h => ?_⟩
  have hscan : (detectSignalsCore (({} : AdapterSettings).scanSettings 2)
      ((crossAfterWarmup 99.9 100.2).map Prod.fst)).toOption.map (List.map fun s => (s.direction, s.index)) =
      some [(.long, 200)] := by decide +kernel
  have hadapter : ((adapterEntries {} (crossAfterWarmup 99.9 100.2))[200]?).map EntryFlags.enterLong = some false := by
    decide +kernel
  cases hsignals : detectSignalsCore (({} : AdapterSettings).scanSettings 2)
      ((crossAfterWarmup 99.9 100.2).map Prod.fst) with
  | error e =>
      rw [hsignals] at hscan
      cases hscan
  | ok signals =>
      rw [hsignals] at hscan
      have hmap : signals.map (fun s => (s.direction, s.index)) = [(.long, 200)] := Option.some.inj hscan
      obtain ⟨s, hs, hat⟩ := List.mem_map.mp (hmap ▸ List.mem_singleton_self (Direction.long, 200))
      rw [Prod.mk.injEq] at hat
      obtain ⟨flags, hflags, henters⟩ := (h .long 200).mpr ⟨le_refl _, signals, hsignals, s, hs, hat⟩
      rw [hflags] at hadapter
      rw [Option.map_some, Option.some.injEq] at hadapter
      rw [EntryFlags.enters, hadapter] at henters
      cases henters

/-! ## The signals of a frame -/

section

variable {o : ScanSettings} {df : List Row} {signals : List Signal} {s : Signal}

/-- `min_qs` -/
def qualityFloor (o : ScanSettings) : ℚ := max 0 (min o.minQualityScore 100)

/-- A signal is one of a bar after the warm-up, on its side of the EMA200, with its levels and its quality in order. -/
structure Sound (o : ScanSettings) (df : List Row) (s : Signal) : Prop where
  bar : ∃ row, (computeIndicators df)[s.index]? = some row ∧ s.entryPrice = row.row.close ∧
    favours s.direction s.entryPrice row.ema200 = true
  warm : WARMUP_BARS ≤ s.index
  placed : s.strategySignal.WellPlaced
  reward : |s.targetPrice - s.entryPrice| = o.rewardRisk * |s.entryPrice - s.stopLoss|
  quality : qualityFloor o ≤ s.qualityScore ∧ s.qualityScore ≤ 100

/-- The scan returns signals that are sound and in order, and drops no bar that satisfies the rule. -/
def Detects (o : ScanSettings) (df : List Row) : Prop :=
  ∃ signals, detectSignalsCore o df = .ok signals ∧ (∀ s ∈ signals, Sound o df s) ∧
    (signals.Pairwise fun a b => a.index < b.index) ∧
    ∀ i row direction now prev, WARMUP_BARS ≤ i → (computeIndicators df)[i]? = some row →
      Enters o direction row now prev → qualityFloor o ≤ qualityAt direction row now prev →
      ∃ s ∈ signals, s.index = i ∧ s.direction = direction

/-- No close changes until the warm-up is over. -/
def Still (df : List Row) : Prop :=
  WARMUP_BARS < df.length ∧ ∀ j ≤ WARMUP_BARS, (df[j]?).map Row.close = (df[0]?).map Row.close

theorem levels_of_signal {row : IndicatorRow} {now prev : ℚ} {i : ℕ} (hreward : 0 < o.rewardRisk)
    (hrisk : 0 < riskAt o s.direction row) (h : SignalOf o row i now prev s) :
    s.strategySignal.WellPlaced ∧ |s.targetPrice - s.entryPrice| = o.rewardRisk * |s.entryPrice - s.stopLoss| := by
  have hplaced : s.strategySignal.WellPlaced ↔ Oriented.Lt (s.direction = .long) s.stopLoss s.entryPrice ∧
      Oriented.Lt (s.direction = .long) s.entryPrice s.targetPrice :=
    ⟨fun h => ⟨h.1, h.2⟩, fun h => ⟨h.1, h.2⟩⟩
  rw [hplaced, and_assoc]
  have hstop := h.stop
  have htarget := h.target
  have hgain : 0 < o.rewardRisk * riskAt o s.direction row := mul_pos hreward hrisk
  cases hdirection : s.direction with
  | long =>
      rw [hdirection] at hstop htarget hrisk hgain
      simp only [if_true, one_mul] at hstop htarget
      rw [htarget, hstop]
      simp [Oriented.Lt, hrisk, hgain, abs_of_pos]
  | short =>
      rw [hdirection] at hstop htarget hrisk hgain
      simp only [reduceCtorEq, if_false, neg_one_mul, sub_neg_eq_add] at hstop htarget
      rw [htarget, hstop]
      simp [Oriented.Lt, hrisk, hgain, abs_of_pos]

theorem detects_of_ok (hreward : 0 < o.rewardRisk) (h : detectSignalsCore o df = .ok signals) :
    Detects o df := by
  refine ⟨signals, h, ?_⟩
  rcases Nat.lt_or_ge WARMUP_BARS df.length with hlen | hlen
  · rw [detectSignalsCore_long hlen] at h
    obtain ⟨found, hfound, rfl⟩ := scan_eq_ok h
    refine ⟨fun s hs => ?_, ?_, fun i row direction now prev hi hrow henters hquality => ?_⟩
    · rw [List.mem_filter, found_mem_iff hfound, decide_eq_true_eq] at hs
      obtain ⟨⟨x, hx, hdetect⟩, hfloor⟩ := hs
      obtain ⟨hwarm, hbar⟩ := mem_zipIdx_drop.mp hx
      obtain ⟨now, prev, henters, hof⟩ := enters_of_detectAt hdetect
      obtain ⟨hplaced, hr⟩ := levels_of_signal hreward henters.risk hof
      rw [← hof.index] at hwarm hbar
      exact ⟨⟨x.1, hbar, hof.entry, hof.entry ▸ henters.trend⟩, hwarm, hplaced, hr, hfloor,
        hof.quality ▸ signalQuality_le ..⟩
    · exact (found_increasing hfound (pairwise_zipIdx_drop _ _)).filter _
    · obtain ⟨s, hs, hdirection, hof⟩ := henters.detectAt i
      refine ⟨s, List.mem_filter.mpr ⟨(found_mem_iff hfound).mpr ⟨(row, i), mem_zipIdx_drop.mpr ⟨hi, hrow⟩, hs⟩, ?_⟩,
        hof.index, hdirection⟩
      rw [decide_eq_true_eq, ge_iff_le, hof.quality, hdirection]
      exact hquality
  · rw [detectSignalsCore_short hlen] at h
    cases h
    refine ⟨by simp, .nil, fun i row direction now prev hi hrow => ?_⟩
    have hlt := (List.getElem?_eq_some_iff.mp hrow).1
    rw [length_computeIndicators] at hlt
    omega

/-- The scan returns unless the RSI is missing on the first bar that it reads. -/
theorem returns_iff : (∃ signals, detectSignalsCore o df = .ok signals) ↔ ¬ Still df := by
  rcases Nat.lt_or_ge WARMUP_BARS df.length with hlen | hlen
  · have hstill : Still df ↔ (rsiSeries (df.map Row.close))[WARMUP_BARS]? = some .na := by
      have hwindow : 1 < RSI_WINDOW := by decide
      have hna := rsiSeries_na_iff (df.map Row.close) (k := 199) hwindow (by rw [List.length_map]; exact hlen)
      simp only [List.getElem?_map] at hna
      exact (and_iff_right hlen).trans hna.symm
    obtain ⟨first, hfirst⟩ : ∃ first, (computeIndicators df)[WARMUP_BARS]? = some first :=
      ⟨_, List.getElem?_eq_getElem (by rwa [length_computeIndicators])⟩
    rw [detectSignalsCore_long hlen, scan_returns_iff, hstill, rsi_computeIndicators hfirst, Option.some.injEq]
    constructor
    · intro h
      exact h (first, WARMUP_BARS) (mem_zipIdx_drop.mpr ⟨le_rfl, hfirst⟩)
    · intro h x hx hna
      obtain ⟨hi, hrow⟩ := mem_zipIdx_drop.mp hx
      obtain ⟨first', hfirst', hmissing⟩ := rsi_na_at_warmup hi hrow hna
      rw [hfirst, Option.some.injEq] at hfirst'
      exact h (hfirst' ▸ hmissing)
  · exact iff_of_true ⟨[], detectSignalsCore_short hlen⟩ fun h => absurd h.1 (not_lt.mpr hlen)

/-- **The scan** is sound and complete exactly where some close changes before the warm-up is over. -/
theorem detects_iff (o : ScanSettings) (df : List Row) (hreward : 0 < o.rewardRisk) : Detects o df ↔ ¬ Still df := by
  rw [← returns_iff (o := o)]
  constructor
  · rintro ⟨signals, h, -⟩
    exact ⟨signals, h⟩
  · rintro ⟨signals, h⟩
    exact detects_of_ok hreward h

theorem crossing_detected : Detects {} ((crossAfterWarmup 95 102).map Prod.fst) := by
  refine (detects_iff {} ((crossAfterWarmup 95 102).map Prod.fst) (by decide)).mpr fun h => ?_
  exact absurd (h.2 199 (by decide)) (by decide +kernel)

/-- A flat market through the warm-up, and only then the fall and the rise. -/
def crossAfterRest : List Row :=
  List.replicate 202 (plainCandle 100 100).1 ++ [(plainCandle 100 99.9).1, (plainCandle 99.9 100.2).1]

/-- The last bar satisfies the rule for a long, and the scan raises on a bar before it. -/
theorem rested_not_detected : ¬ Detects {} crossAfterRest ∧ ∃ row now prev,
    (computeIndicators crossAfterRest)[203]? = some row ∧ Enters {} .long row now prev := by
  constructor
  · rw [detects_iff {} crossAfterRest (by decide), not_not]
    exact ⟨by decide +kernel, by decide +kernel⟩
  · have hfound : ((computeIndicators crossAfterRest)[203]?).map (fun row =>
        (detectAt {} row 203).toOption.map (Option.map Signal.direction)) = some (some (some .long)) := by
      decide +kernel
    obtain ⟨row, hrow, hrest⟩ := Option.map_eq_some_iff.mp hfound
    refine ⟨row, ?_⟩
    cases hdetect : detectAt {} row 203 with
    | error e =>
        rw [hdetect] at hrest
        cases hrest
    | ok found =>
        rw [hdetect] at hrest
        obtain ⟨s, rfl, hdirection⟩ := Option.map_eq_some_iff.mp (Option.some.inj hrest)
        obtain ⟨now, prev, henters, -⟩ := enters_of_detectAt hdetect
        exact ⟨now, prev, hrow, hdirection ▸ henters⟩

end

end CryptoAggHarmonic.RsiTrend
