import CryptoAggHarmonic.Capital.Calculator
import Mathlib.Tactic.IntervalCases

/-!
# The tool, the page and the simulation

Two ladders for the same levels: the tool compares with ceilings that it computes from the ratios, the page with floors
that it computes from the balances. The simulation of the page takes the trade from the accounts behind the floors.
-/

namespace CryptoAggHarmonic.Capital

variable {config : PositionConfig} {balance : PositionBalance} {planned : ℚ} {i : ℕ}

/-- The largest amount of a level of the tool. -/
def PositionConfig.ceiling (config : PositionConfig) : ℕ → ℚ
  | 0 => config.regular * config.altcoinMaxRatio * config.smallAccountRatio * config.smallTradableRatio
  | 1 => config.regular * config.altcoinMaxRatio * config.smallAccountRatio
  | 2 => config.regular * config.altcoinMaxRatio
  | 3 => config.regular * config.btcRatio
  | _ => config.regular

/-- What the small account holds, with its reserve, with the middle account and with the BTC account. -/
def PositionBalance.small (balance : PositionBalance) : ℚ := max 0 (balance.smallTradableWu + balance.smallReserveWu)

def PositionBalance.middle (balance : PositionBalance) : ℚ :=
  max balance.small (balance.smallTradableWu + balance.smallReserveWu + balance.midWu)

def PositionBalance.all (balance : PositionBalance) : ℚ :=
  max balance.middle (balance.smallTradableWu + balance.smallReserveWu + balance.midWu + balance.btcWu)

/-- The smallest amount of a level of the page above the first. -/
def PositionBalance.floor (balance : PositionBalance) : ℕ → ℚ
  | 0 | 1 => max 0 balance.smallTradableWu * (1 / 2)
  | 2 => max 0 balance.smallTradableWu
  | 3 => balance.small
  | 4 => balance.middle
  | _ => balance.all

/-! ## Each ladder -/

theorem computeRisk_of_no_capital (h : ¬ 0 < config.regular) :
    (computeRisk config.dict balance.dict planned).riskLevel = 5 := by
  unfold computeRisk
  exact congrArg Risk.riskLevel (if_pos (not_lt.mp h))

theorem computeRisk_level (h : 0 < config.regular) : (computeRisk config.dict balance.dict planned).riskLevel =
    Ladder.first Rung.level (fun r => planned ≤ r.threshold) 5
      (rungs (config.ceiling 0) (config.ceiling 1) (config.ceiling 2) (config.ceiling 3) (config.ceiling 4)) := by
  unfold computeRisk
  exact congrArg Risk.riskLevel (if_neg (not_le.mpr h))

theorem computeRisk_le_iff (hi : i < 5) : (computeRisk config.dict balance.dict planned).riskLevel ≤ i ↔
    0 < config.regular ∧ ∃ k ≤ i, planned ≤ config.ceiling k := by
  by_cases h : 0 < config.regular
  · have hthreshold : ∀ r ∈ rungs (config.ceiling 0) (config.ceiling 1) (config.ceiling 2) (config.ceiling 3)
        (config.ceiling 4), r.threshold = config.ceiling r.level := by simp [rungs]
    have hrung : ∀ k < 5, ∃ r ∈ rungs (config.ceiling 0) (config.ceiling 1) (config.ceiling 2) (config.ceiling 3)
        (config.ceiling 4), r.level = k := by
      intro k hk
      interval_cases k <;> simp [rungs]
    rw [computeRisk_level h, Ladder.first_le_iff (by simp [rungs]) hi]
    constructor
    · rintro ⟨r, hr, hle, hp⟩
      exact ⟨h, r.level, hle, hthreshold r hr ▸ hp⟩
    · rintro ⟨-, k, hk, hp⟩
      obtain ⟨r, hr, rfl⟩ := hrung k (hk.trans_lt hi)
      exact ⟨r, hr, hk, (hthreshold r hr).symm ▸ hp⟩
  · rw [computeRisk_of_no_capital h]
    constructor
    · intro hle
      omega
    · exact fun hcapital => absurd hcapital.1 h

theorem computeRisk_le_top : (computeRisk config.dict balance.dict planned).riskLevel ≤ 5 := by
  by_cases h : 0 < config.regular
  · rw [computeRisk_level h]
    exact Ladder.first_le_top (by simp [rungs])
  · rw [computeRisk_of_no_capital h]

theorem computeRiskLevel_le_iff : (computeRiskLevel config balance planned).level ≤ i ↔
    ∀ k ≤ 5, i < k → planned < balance.floor k := by
  have hfloor : ∀ l ∈ computeRiskLevels config balance,
      l.level ≤ 5 ∧ (0 < l.level → l.minWu = balance.floor l.level) := by
    simp [computeRiskLevels, PositionBalance.floor, PositionBalance.small, PositionBalance.middle, PositionBalance.all]
  have hlevel : ∀ k ≤ 5, ∃ l ∈ computeRiskLevels config balance, l.level = k := by
    intro k hk
    interval_cases k <;> simp [computeRiskLevels]
  have hloop := @Ladder.last_le_iff RiskLevel RiskLevel.level (fun l => l.minWu ≤ planned) _
    ((computeRiskLevels config balance).head (by simp [computeRiskLevels])) (computeRiskLevels config balance) i
    (by simp [computeRiskLevels]) (by simp [computeRiskLevels])
  refine hloop.trans ?_
  constructor
  · rintro ⟨-, hlevels⟩ k hk hik
    obtain ⟨l, hl, rfl⟩ := hlevel k hk
    rw [← (hfloor l hl).2 (by omega)]
    exact not_le.mp (hlevels l hl hik)
  · intro hfloors
    refine ⟨Nat.zero_le i, fun l hl hil => not_le.mpr ?_⟩
    rw [(hfloor l hl).2 (by omega)]
    exact hfloors l.level (hfloor l hl).1 hil

/-! ## Both -/

/-- The same level, and level 0 only for what the small account has to trade with. -/
def SameRisk (config : PositionConfig) (balance : PositionBalance) (planned : ℚ) : Prop :=
  (computeRisk config.dict balance.dict planned).riskLevel = (computeRiskLevel config balance planned).level ∧
  ((computeRisk config.dict balance.dict planned).riskLevel = 0 → planned ≤ balance.smallTradableWu) ∧
  ((computeRiskLevel config balance planned).level = 0 → planned ≤ balance.smallTradableWu)

/-- Ceilings and floors cut at the same side of the amount. -/
def SameRungs (config : PositionConfig) (balance : PositionBalance) (planned : ℚ) : Prop :=
  ∀ i < 5, (0 < config.regular ∧ ∃ k ≤ i, planned ≤ config.ceiling k) ↔ ∀ k ≤ 5, i < k → planned < balance.floor k

theorem sameLevel_iff : (computeRisk config.dict balance.dict planned).riskLevel =
    (computeRiskLevel config balance planned).level ↔ SameRungs config balance planned := by
  have hpage : (computeRiskLevel config balance planned).level ≤ 5 :=
    computeRiskLevel_le_iff.mpr fun k hk hlt => absurd hk (Nat.not_le.mpr hlt)
  rw [Ladder.eq_iff_forall_le computeRisk_le_top hpage]
  refine forall₂_congr fun i hi => ?_
  rw [computeRisk_le_iff hi, computeRiskLevel_le_iff]

/-- The small account after a trade is archived: the tool goes by what it held before. -/
example : (computeRisk defaultConfig.dict { createDefaultBalance defaultConfig with smallTradableWu := 5 }.dict
    10).riskLevel = 0 := by decide +kernel

/-! ## The simulation -/

variable {t : ℚ} {s : Draining} {k key : Account} {keys : List Account}

theorem drain_frame (h : key ≠ k) : (drain s k).consumed key = s.consumed key ∧
    (drain s k).remaining key = s.remaining key := by
  unfold drain
  split_ifs <;> simp [h]

/-- What goes from an account is what it has been asked for. -/
theorem drain_balance (h : s.consumed k = 0) (key : Account) :
    (drain s k).remaining key + (drain s k).consumed key = s.remaining key + s.consumed key := by
  by_cases heq : key = k
  · subst heq
    unfold drain
    split_ifs <;> simp [h]
  · obtain ⟨hconsumed, hremaining⟩ := drain_frame (s := s) heq
    rw [hconsumed, hremaining]

/-- The accounts after the simulation: each has given what its place in the row asks for. -/
theorem drain_keys (keys : List Account) (hkeys : keys.Nodup) (hzero : ∀ k ∈ keys, s.consumed k = 0) :
    keys.map (keys.foldl drain s).consumed = Drain.taken (keys.map s.remaining) s.toConsume ∧
      (∀ key, (keys.foldl drain s).remaining key + (keys.foldl drain s).consumed key =
        s.remaining key + s.consumed key) ∧
      ∀ key ∉ keys, (keys.foldl drain s).consumed key = s.consumed key := by
  induction keys generalizing s with
  | nil => simp [Drain.taken]
  | cons k keys ih =>
      obtain ⟨hk, hnodup⟩ := List.nodup_cons.mp hkeys
      obtain ⟨hkzero, hrest⟩ := List.forall_mem_cons.mp hzero
      have hother : ∀ key ∈ keys, key ≠ k := fun key hmem heq => hk (heq ▸ hmem)
      obtain ⟨htaken, hbalance, hframe⟩ := ih (s := drain s k) hnodup fun key hmem =>
        (drain_frame (hother key hmem)).1.trans (hrest key hmem)
      have hremaining : keys.map (drain s k).remaining = keys.map s.remaining :=
        List.map_congr_left fun key hmem => (drain_frame (hother key hmem)).2
      refine ⟨?_, fun key => (hbalance key).trans (drain_balance hkzero key), fun key hmem => ?_⟩
      · rw [List.foldl_cons, List.map_cons, htaken, hremaining, hframe k hk, List.map_cons, Drain.taken]
        unfold drain
        split_ifs with hdone
        · rw [hkzero]
        · simp
      · obtain ⟨hne, hout⟩ := not_or.mp (List.mem_cons.not.mp hmem)
        exact (hframe key hout).trans (drain_frame hne).1

/-- What the simulated trade takes from the accounts, in their order. -/
theorem simulateWhatIf_consumed (config : PositionConfig) (balance : PositionBalance) (t : ℚ) :
    priority.map (simulateWhatIf config balance t).consumed =
      Drain.taken (priority.map balance.account) t ∧
    ∀ key, (simulateWhatIf config balance t).remaining key =
      balance.account key - (simulateWhatIf config balance t).consumed key := by
  obtain ⟨htaken, hbalance, -⟩ := drain_keys priority
    (s := { remaining := balance.account, consumed := fun _ => 0, toConsume := t }) (by decide) fun _ _ => rfl
  exact ⟨htaken, fun key => eq_sub_of_add_eq ((hbalance key).trans (add_zero _))⟩

def PositionBalance.total (balance : PositionBalance) : ℚ := (priority.map balance.account).sum

/-- What the accounts above the emergency one hold. -/
def PositionBalance.risked (balance : PositionBalance) : ℚ :=
  ([Account.smallTradable, .smallReserve, .mid, .btc].map balance.account).sum

/-- **Money**: the trade is covered as far as the accounts reach, and nothing else changes. -/
structure Conserves (balance : PositionBalance) (t : ℚ) (r : WhatIfResult) : Prop where
  total : (priority.map r.consumed).sum = min t balance.total
  remaining : ∀ key, r.remaining key = balance.account key - r.consumed key
  remainingTotal : r.remainingTotalWu = balance.total - min t balance.total
  nonneg : ∀ key, 0 ≤ r.consumed key ∧ 0 ≤ r.remaining key

/-- An account is touched only when those before it are empty. -/
def DrainsInOrder (r : WhatIfResult) : Prop :=
  ∀ before key after, priority = before ++ key :: after → 0 < r.consumed key → ∀ k ∈ before, r.remaining k = 0

theorem mem_priority (key : Account) : key ∈ priority := by
  cases key <;> decide

theorem accounts_nonneg (keys : List Account) (hbalance : ∀ key, 0 ≤ balance.account key) : ∀ a ∈ keys.map balance.account, 0 ≤ a := by
  intro a ha
  obtain ⟨key, -, rfl⟩ := List.mem_map.mp ha
  exact hbalance key

theorem whatIf_conserves (hbalance : ∀ key, 0 ≤ balance.account key) (ht : 0 ≤ t) :
    Conserves balance t (simulateWhatIf config balance t) := by
  obtain ⟨htaken, hremaining⟩ := simulateWhatIf_consumed config balance t
  have hsum : (priority.map (simulateWhatIf config balance t).consumed).sum = min t balance.total := by
    rw [htaken, Drain.sum_taken (accounts_nonneg _ hbalance) ht, PositionBalance.total]
  refine ⟨hsum, hremaining, ?_, fun key => ?_⟩
  · have htotal : (simulateWhatIf config balance t).remainingTotalWu =
        balance.total - (priority.map (simulateWhatIf config balance t).consumed).sum := by
      change (simulateWhatIf config balance t).remaining _ + (simulateWhatIf config balance t).remaining _ +
        (simulateWhatIf config balance t).remaining _ + (simulateWhatIf config balance t).remaining _ +
        (simulateWhatIf config balance t).remaining _ = _
      simp only [hremaining, PositionBalance.total, priority, List.map_cons, List.map_nil, List.sum_cons, List.sum_nil]
      ring
    rw [htotal, hsum]
  · have hbounds := Drain.taken_bounds (accounts_nonneg priority hbalance) ht
    rw [← htaken, List.forall₂_map_left_iff, List.forall₂_map_right_iff, List.forall₂_same] at hbounds
    obtain ⟨hlow, hhigh⟩ := hbounds key (mem_priority key)
    exact ⟨hlow, hremaining key ▸ sub_nonneg.mpr hhigh⟩

theorem whatIf_inOrder (hbalance : ∀ key, 0 ≤ balance.account key) (ht : 0 ≤ t) :
    DrainsInOrder (simulateWhatIf config balance t) := by
  obtain ⟨htaken, hremaining⟩ := simulateWhatIf_consumed config balance t
  intro before key after horder hpos k hk
  rw [horder, List.map_append, List.map_append, Drain.taken_append (accounts_nonneg _ hbalance) ht] at htaken
  obtain ⟨hbefore, hafter⟩ := List.append_inj htaken (by simp)
  have hexhausted := Drain.exhausted_of_taken (accounts_nonneg before hbalance) ht
    ⟨_, hafter ▸ List.mem_map_of_mem List.mem_cons_self, hpos⟩
  rw [hexhausted, List.map_inj_left] at hbefore
  rw [hremaining, hbefore k hk, sub_self]

/-- The emergency account is the last of the row. -/
theorem touchesEmergency_iff (hbalance : ∀ key, 0 ≤ balance.account key) (ht : 0 ≤ t) :
    (simulateWhatIf config balance t).touchesEmergency = true ↔ balance.risked < t ∧ 0 < balance.emergencyWu := by
  obtain ⟨htaken, -⟩ := simulateWhatIf_consumed config balance t
  have hrow : priority = [.smallTradable, .smallReserve, .mid, .btc] ++ [.emergency] := rfl
  rw [hrow, List.map_append, List.map_append, Drain.taken_append (accounts_nonneg _ hbalance) ht] at htaken
  have hlast := (List.append_inj htaken (by simp)).2
  have hleft : 0 ≤ t - min t balance.risked := sub_nonneg.mpr (min_le_left _ _)
  have hrisked : ([Account.smallTradable, .smallReserve, .mid, .btc].map balance.account).sum = balance.risked := rfl
  rw [List.map_singleton, List.map_singleton, hrisked, Drain.taken_cons (hbalance .emergency) hleft,
    List.cons.injEq] at hlast
  have htouches : (simulateWhatIf config balance t).touchesEmergency = true ↔
      0 < (simulateWhatIf config balance t).consumed .emergency := decide_eq_true_iff
  rw [htouches, hlast.1, lt_min_iff, sub_pos, min_lt_iff, and_comm]
  simp [PositionBalance.account]

theorem floor_five (hbalance : ∀ key, 0 ≤ balance.account key) : balance.floor 5 = balance.risked := by
  have h₁ : 0 ≤ balance.smallTradableWu := hbalance .smallTradable
  have h₂ : 0 ≤ balance.smallReserveWu := hbalance .smallReserve
  have h₃ : 0 ≤ balance.midWu := hbalance .mid
  have h₄ : 0 ≤ balance.btcWu := hbalance .btc
  simp only [PositionBalance.floor, PositionBalance.all, PositionBalance.middle, PositionBalance.small,
    PositionBalance.risked, PositionBalance.account, List.map_cons, List.map_nil, List.sum_cons, List.sum_nil]
  rw [max_eq_right (add_nonneg h₁ h₂), max_eq_right (le_add_of_nonneg_right h₃),
    max_eq_right (le_add_of_nonneg_right h₄)]
  ring

theorem level_five_iff (hbalance : ∀ key, 0 ≤ balance.account key) :
    (computeRiskLevel config balance t).level = 5 ↔ balance.risked ≤ t := by
  have htop : (computeRiskLevel config balance t).level ≤ 5 :=
    computeRiskLevel_le_iff.mpr fun k hk hlt => absurd hk (Nat.not_le.mpr hlt)
  have hfour : (computeRiskLevel config balance t).level ≤ 4 ↔ t < balance.risked := by
    rw [computeRiskLevel_le_iff, ← floor_five hbalance]
    constructor
    · exact fun h => h 5 le_rfl (by decide)
    · intro h k hk hlt
      obtain rfl : k = 5 := by omega
      exact h
  rw [← not_lt, ← hfour]
  omega

/-- The interval of a level, without its ceiling for the last one. -/
def RiskLevel.Contains (l : RiskLevel) (t : ℚ) : Prop := l.minWu ≤ t ∧ ∀ ceiling, l.maxWu = some ceiling → t ≤ ceiling

theorem computeRiskLevel_contains (ht : 0 ≤ t) : (computeRiskLevel config balance t).Contains t := by
  obtain ⟨hmem, hreached⟩ := @Ladder.last_reached RiskLevel (fun l => l.minWu ≤ t) _
    ((computeRiskLevels config balance).head (by simp [computeRiskLevels])) (computeRiskLevels config balance) ht
  have hceiling : ∀ l ∈ computeRiskLevels config balance, ∀ ceiling, l.maxWu = some ceiling →
      l.level < 5 ∧ ceiling = balance.floor (l.level + 1) := by
    simp [computeRiskLevels, PositionBalance.floor, PositionBalance.small, PositionBalance.middle, PositionBalance.all]
  refine ⟨hreached, fun ceiling hmax => ?_⟩
  have hlevel : computeRiskLevel config balance t ∈ computeRiskLevels config balance := by
    rcases List.mem_cons.mp hmem with hfirst | hmem
    · exact List.mem_of_mem_head? (List.head_eq_iff_head?_eq_some _ |>.mp hfirst.symm)
    · exact hmem
  obtain ⟨hlt, rfl⟩ := hceiling _ hlevel ceiling hmax
  exact (computeRiskLevel_le_iff.mp le_rfl _ hlt (Nat.lt_succ_self _)).le

/-- The simulation and the ladder speak of the same trade. -/
def AgreesWithLadder (config : PositionConfig) (balance : PositionBalance) (t : ℚ) : Prop :=
  ((computeRiskLevel config balance t).level = 5 ↔
      (simulateWhatIf config balance t).touchesEmergency = true ∨ balance.total < t) ∧
    (computeRiskLevel config balance t).Contains t

theorem total_eq (balance : PositionBalance) : balance.total = balance.risked + balance.emergencyWu := by
  simp only [PositionBalance.total, PositionBalance.risked, priority, PositionBalance.account, List.map_cons,
    List.map_nil, List.sum_cons, List.sum_nil]
  ring

/-- **What if**: the simulation conserves money and drains in order; the last level begins with the trade that empties
the four accounts above the emergency one. -/
theorem whatIf_ladder (config : PositionConfig) (balance : PositionBalance) (t : ℚ)
    (hbalance : ∀ key, 0 ≤ balance.account key) (ht : 0 ≤ t) :
    Conserves balance t (simulateWhatIf config balance t) ∧ DrainsInOrder (simulateWhatIf config balance t) ∧
      ((computeRiskLevel config balance t).level = 5 ↔ (simulateWhatIf config balance t).touchesEmergency = true ∨
        balance.total < t ∨ t = balance.risked) ∧
      (computeRiskLevel config balance t).Contains t := by
  refine ⟨whatIf_conserves hbalance ht, whatIf_inOrder hbalance ht, ?_, computeRiskLevel_contains ht⟩
  have hemergency : 0 ≤ balance.emergencyWu := hbalance .emergency
  rw [level_five_iff hbalance, touchesEmergency_iff hbalance ht, total_eq]
  constructor
  · intro hle
    rcases hle.lt_or_eq with hlt | heq
    · rcases hemergency.lt_or_eq with hpos | hzero
      · exact Or.inl ⟨hlt, hpos⟩
      · exact Or.inr (Or.inl (by rw [← hzero, add_zero]; exact hlt))
    · exact Or.inr (Or.inr heq.symm)
  · rintro (⟨hlt, -⟩ | hlt | rfl)
    · exact hlt.le
    · linarith
    · exact le_rfl

/-- The trade that empties the four accounts of the default config. -/
theorem default_whatIf : (computeRiskLevel defaultConfig (createDefaultBalance defaultConfig) 7000).level = 5 := by
  have hbalance : ∀ key, 0 ≤ (createDefaultBalance defaultConfig).account key := by
    intro key
    cases key <;> decide +kernel
  exact (whatIf_ladder defaultConfig (createDefaultBalance defaultConfig) 7000 hbalance (by norm_num)).2.2.1.mpr
    (Or.inr (Or.inr (by decide +kernel)))

/-- It does not touch the emergency account, nor exceed what there is. -/
theorem emptied_not_touched : ¬ ∀ config balance t, (∀ key, 0 ≤ PositionBalance.account balance key) → 0 ≤ t →
    AgreesWithLadder config balance t := by
  intro h
  have hagrees := (h defaultConfig (createDefaultBalance defaultConfig) 7000
    (by intro key; cases key <;> decide +kernel) (by norm_num)).1.mp (by decide +kernel)
  exact absurd hagrees (by decide +kernel)

end CryptoAggHarmonic.Capital
