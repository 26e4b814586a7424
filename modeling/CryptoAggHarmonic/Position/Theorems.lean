import Mathlib.Tactic.Ring
import CryptoAggHarmonic.Position.Lemmas.Moves

/-!
# Runs of an open position

Over every list of bars: where the stop is, when the emitted stop moves give ground, and how the size is
accounted for.
-/

namespace CryptoAggHarmonic.Position

open Oriented Machine

variable {s s' s₀ : PositionState} {bar : Bar} {bars : List Bar} {acts : List Action}

/-! ## Closed positions -/

structure Done (s : PositionState) : Prop where
  closed : s.closed = true
  reason : s.closeReason.isSome = true

theorem processBar_done (h : Done s) (bar : Bar) :
    processBar s bar = .ok (s, [.hold "already closed"]) := by
  simp [processBar, processBarBody, h.closed, h.reason]

theorem BarStep.live_or_done (hstep : BarStep s bar s' acts) (h : Live s) : Live s' ∨ Done s' := by
  cases hstep with
  | stopped _ => exact Or.inr ⟨rfl, rfl⟩
  | timedOut _ _ => exact Or.inr ⟨rfl, rfl⟩
  | finished _ _ hc hcl =>
      rcases hc.live_or_closed h.tick with hl | ⟨_, _, hr⟩
      · rw [hl.isOpen] at hcl; cases hcl
      · exact Or.inr ⟨hcl, by rw [hr]; rfl⟩
  | trailed _ _ _ hl _ _ => exact Or.inl (hl.ratchet _)
  | waited _ _ _ _ => exact Or.inl h.tick

/-! ## A long trade -/

/-- Entry 100, stop 95, targets 110, 120 and 130, ATR 1. -/
def longTrade : PositionState where
  bullish := true
  entryPrice := 100
  initialStop := 95
  currentStop := 95
  tp1 := 110
  tp2 := 120
  tp3 := 130
  atr := 1
  cdLegBars := 10
  entryPrice_pos := by decide
  initialStop_pos := by decide
  tps_pos := by decide
  atr_pos := by decide
  sizeRemaining_mem := by decide

theorem longTrade_fresh : Fresh longTrade := ⟨rfl, rfl, rfl, rfl, rfl, rfl⟩

theorem longTrade_ordered : Ordered longTrade := by
  constructor <;> decide

/-- The first bar takes TP1 and leaves the chandelier at 116; the second takes TP2. -/
def pastTp1Bars : List Bar := [⟨118, 109, 117⟩, ⟨121, 117, 120⟩]

/-- What the two bars emit: the stop goes to 100 and 116, back to 110 and on to 119. -/
def pastTp1Actions : List Action :=
  [.closePartial (1 / 2) "tp1_hit", .moveStop 100 "after_tp1", .moveStop 116 "chandelier_ratchet",
    .closePartial (3 / 10) "tp2_hit", .moveStop 110 "after_tp2", .moveStop 119 "chandelier_ratchet"]

theorem run_pastTp1 : ∃ s, run processBar longTrade pastTp1Bars = .ok (s, pastTp1Actions) ∧
    s.closed = false := by
  have h : (run processBar longTrade pastTp1Bars).map (fun r => (r.2, r.1.closed)) =
      .ok (pastTp1Actions, false) := by decide +kernel
  cases hr : run processBar longTrade pastTp1Bars with
  | error e => rw [hr] at h; cases h
  | ok r =>
      rw [hr] at h
      simp only [Except.map, Except.ok.injEq, Prod.mk.injEq] at h
      exact ⟨r.1, by rw [← h.1], h.2⟩

/-! ## Where the stop is -/

theorem stageStop_mono (ho : Ordered s₀) :
    Le s₀.bullish (stageStop s₀ bars) (stageStop s₀ (bars ++ [bar])) := by
  have h1 := ho.stop_entry.le
  have h2 := h1.trans ho.entry_tp1
  have h3 : ∀ x : ℚ, Le s₀.bullish x x := Le.refl _
  unfold stageStop
  simp only [exists_mem_snoc]
  by_cases c2 : ∃ b ∈ bars, s₀.Reaches b s₀.tp2
  · simp only [c2, true_or, ↓reduceIte]; exact h3 _
  · by_cases c1 : ∃ b ∈ bars, s₀.Reaches b s₀.tp1
    · simp only [c2, c1, true_or, false_or, ↓reduceIte]
      split
      · exact ho.entry_tp1
      · exact h3 _
    · simp only [c2, c1, false_or, ↓reduceIte]
      split
      · exact h2
      · split
        · exact h1
        · exact h3 _

theorem stopAfter_mono (ho : Ordered s₀) :
    Le s₀.bullish (stopAfter s₀ bars) (stopAfter s₀ (bars ++ [bar])) := by
  have hst : Le s₀.bullish (stageStop s₀ bars) (stageStop s₀ (bars ++ [bar])) := stageStop_mono ho
  cases hb : sinceTp1 s₀ bars with
  | nil =>
      simp only [stopAfter, hb]
      split
      · exact hst
      · exact hst.trans le_sup_left
  | cons b bs =>
      simp only [stopAfter, hb, sinceTp1_snoc_of_cons hb, extremeOf_snoc]
      exact sup_mono hst (back_mono _ le_sup_left)

/-- **The stop of an open position** is the tighter of the stage stop and, once TP1 is hit, the chandelier
trail over the bars since the one that hit TP1; it never moves against the position. -/
theorem current_stop_is_tighter (hf : Fresh s₀) (ho : Ordered s₀) (bars : List Bar) :
    ∃ s acts, run processBar s₀ bars = .ok (s, acts) ∧ (s.closed = false →
      (s.tp1Hit = true ↔ ∃ b ∈ bars, s₀.Reaches b s₀.tp1) ∧
      (s.tp2Hit = true ↔ ∃ b ∈ bars, s₀.Reaches b s₀.tp2) ∧
      s.currentStop = stopAfter s₀ bars ∧
      ∀ bar s' acts', processBar s bar = .ok (s', acts') → s'.closed = false →
        Le s₀.bullish s.currentStop s'.currentStop) := by
  obtain ⟨s, acts, hr, hi⟩ := run_history (f := processBar)
    (I := fun bars s _ => Done s ∨ Track s₀ bars s) (Or.inr (Track.of_fresh hf)) (by
      rintro bars s _ bar (hd | ht)
      · exact ⟨_, _, processBar_done hd bar, Or.inl hd⟩
      · obtain ⟨s', acts', hp, hstep⟩ := processBar_step ht.live bar
        refine ⟨s', acts', hp, ?_⟩
        rcases hstep.live_or_done ht.live with hl | hd
        · exact Or.inr (ht.step ho hstep hl.isOpen)
        · exact Or.inl hd) bars
  refine ⟨s, acts, hr, fun hopen => ?_⟩
  rcases hi with hd | ht
  · rw [hd.closed] at hopen; cases hopen
  · refine ⟨ht.tp1_iff, ht.tp2_iff, ht.stop, fun bar s' acts' hp hopen' => ?_⟩
    obtain ⟨s'', acts'', hp', hstep⟩ := processBar_step ht.live bar
    rw [hp] at hp'
    cases hp'
    rw [ht.stop, (ht.step ho hstep hopen').stop]
    exact stopAfter_mono ho

theorem current_stop_pastTp1 : ∃ s, run processBar longTrade pastTp1Bars = .ok (s, pastTp1Actions) ∧
    s.tp1Hit = true ∧ s.tp2Hit = true ∧ s.currentStop = 119 := by
  obtain ⟨s, acts, hr, h⟩ := current_stop_is_tighter longTrade_fresh longTrade_ordered pastTp1Bars
  obtain ⟨s', hr', hopen⟩ := run_pastTp1
  rw [hr] at hr'
  cases hr'
  obtain ⟨h1, h2, hstop, -⟩ := h hopen
  exact ⟨s, hr, h1.mpr (by decide), h2.mpr (by decide), hstop.trans (by decide +kernel)⟩

/-! ## When a stop move gives ground -/

/-- No bar of the run reaches TP2 with the stop already carried past TP1. -/
def NoLoosenOn (s₀ : PositionState) (bars : List Bar) : Prop :=
  ∀ pre bar post s acts, bars = pre ++ bar :: post → run processBar s₀ pre = .ok (s, acts) → ¬ LoosensOn s bar

theorem noLoosenOn_snoc (hr : run processBar s₀ bars = .ok (s, acts)) :
    NoLoosenOn s₀ (bars ++ [bar]) ↔ NoLoosenOn s₀ bars ∧ ¬ LoosensOn s bar := by
  constructor
  · intro h
    refine ⟨fun pre b post s₁ acts₁ hb hp => ?_, h bars bar [] s acts rfl hr⟩
    exact h pre b (post ++ [bar]) s₁ acts₁ (by simp [hb]) hp
  · rintro ⟨h, hlast⟩ pre b post s₁ acts₁ hb hp
    rcases List.eq_nil_or_concat post with rfl | ⟨post', b', rfl⟩
    · obtain ⟨rfl, rfl⟩ : bars = pre ∧ bar = b := by
        simpa using List.append_inj' hb rfl
      rw [hr] at hp
      cases hp
      exact hlast
    · have hb' : bars ++ [bar] = (pre ++ b :: post') ++ [b'] := by simpa using hb
      obtain ⟨hb'', -⟩ := List.append_inj' hb' rfl
      exact h pre b post' s₁ acts₁ hb'' hp

theorem Track.current_le_entry (h : Track s₀ bars s) (ho : Ordered s₀) (h1 : s.tp1Hit = false) :
    Le s.bullish s.currentStop s.entryPrice := by
  have hnone : ¬ ∃ b ∈ bars, s₀.Reaches b s₀.tp1 := by simpa [h1] using h.tp1_iff
  have hnone2 : ¬ ∃ b ∈ bars, s₀.Reaches b s₀.tp2 := fun ⟨b, hb, hr⟩ => hnone ⟨b, hb, ho.reaches_tp1 hr⟩
  have hstop := h.stop
  rw [stopAfter, sinceTp1_eq_nil_iff.mpr hnone] at hstop
  simp only [stageStop, hnone, hnone2, ↓reduceIte] at hstop
  rw [h.same.bullish, hstop, h.same.entryPrice]
  exact ho.stop_entry.le

/-- **Stop moves over a run.** The `move_stop`s, applied in order, never loosen the stop exactly when no bar
fires TP2 with the chandelier already past TP1. -/
theorem never_loosens_iff (hf : Fresh s₀) (ho : Ordered s₀) (bars : List Bar) :
    ∃ s acts, run processBar s₀ bars = .ok (s, acts) ∧
      (NeverLoosens s₀.bullish s₀.currentStop acts ↔ NoLoosenOn s₀ bars) := by
  obtain ⟨s, acts, hr, -, -, hiff, -⟩ := run_history (f := processBar)
    (I := fun bars s acts => run processBar s₀ bars = .ok (s, acts) ∧ (Done s ∨ Track s₀ bars s) ∧
      (NeverLoosens s₀.bullish s₀.currentStop acts ↔ NoLoosenOn s₀ bars) ∧
      lastStop s₀.currentStop acts = s.currentStop)
    ⟨rfl, Or.inr (Track.of_fresh hf), ⟨fun _ pre b post _ _ hb => by simp at hb,
      fun _ => by simp [NeverLoosens]⟩, rfl⟩ (by
      rintro bars s acts bar ⟨hr, hd | ht, hiff, hlast⟩
      · have hp := processBar_done hd bar
        refine ⟨_, _, hp, run_snoc_of_ok hr hp, Or.inl hd, ?_, ?_⟩
        · have hclosed : ¬ LoosensOn s bar := fun hl =>
            absurd (hl.isOpen.symm.trans hd.closed) (by simp)
          rw [noLoosenOn_snoc hr, NeverLoosens.append_iff, hiff, and_iff_left hclosed]
          exact and_iff_left (by simp [NeverLoosens])
        · rw [lastStop_append, hlast]; rfl
      · obtain ⟨s', acts', hp, hstep⟩ := processBar_step ht.live bar
        have hos : Ordered s := ht.same.ordered ho
        refine ⟨s', acts', hp, run_snoc_of_ok hr hp, ?_, ?_, ?_⟩
        · rcases hstep.live_or_done ht.live with hl | hd
          · exact Or.inr (ht.step ho hstep hl.isOpen)
          · exact Or.inl hd
        · rw [noLoosenOn_snoc hr, NeverLoosens.append_iff, hiff, hlast, ← ht.same.bullish,
            hstep.neverLoosens_iff ht.live hos (ht.current_le_entry ho)]
        · rw [lastStop_append, hlast, hstep.lastStop]) bars
  exact ⟨s, acts, hr, hiff⟩

theorem never_loosens_first_bar : ∃ s acts, run processBar longTrade (pastTp1Bars.take 1) = .ok (s, acts) ∧
    NoLoosenOn longTrade (pastTp1Bars.take 1) := by
  obtain ⟨s, acts, hr, h⟩ := never_loosens_iff longTrade_fresh longTrade_ordered (pastTp1Bars.take 1)
  refine ⟨s, acts, hr, h.mp ?_⟩
  have hacts : (run processBar longTrade (pastTp1Bars.take 1)).map Prod.snd =
      .ok (pastTp1Actions.take 3) := by decide +kernel
  rw [hr] at hacts
  cases hacts
  decide

/-- TP2 on the second bar takes the stop from 116 back to 110. -/
theorem loosens_pastTp1 : ¬ ∀ (s₀ : PositionState) (bars : List Bar) (s : PositionState) (acts : List Action),
    Fresh s₀ → Ordered s₀ → run processBar s₀ bars = .ok (s, acts) →
      NeverLoosens s₀.bullish s₀.currentStop acts := by
  intro h
  obtain ⟨s, hr, -⟩ := run_pastTp1
  exact absurd (h longTrade pastTp1Bars s _ longTrade_fresh longTrade_ordered hr) (by decide)

/-! ## How the size is accounted for -/

/-- What the `close_all` of a bar takes: the size before the bar less its partial closes. -/
def takenByCloseAll (s : PositionState) (acts : List Action) : ℚ := s.sizeRemaining - closedFraction acts

/-- The size bookkeeping of a run: the rungs fired so far are the first of the ladder. -/
structure Booked (s : PositionState) (acts : List Action) : Prop where
  live : Live s
  rungs : partials acts = ladder.take s.rungs
  noCloseAll : acts.any isCloseAll = false

theorem Booked.size (h : Booked s acts) : s.sizeRemaining = 1 - closedFraction acts := by
  rw [closedFraction, h.rungs, sum_take_ladder h.live, sub_sub_cancel]

theorem rungs_tick : s.tick.rungs = s.rungs := rfl

theorem rungs_ratchet {e : ℚ} : (s.ratchet e).rungs = s.rungs := rfl

theorem Booked.step {acts' : List Action} (h : Booked s acts) (hstep : BarStep s bar s' acts')
    (hl : Live s') : Booked s' (acts ++ acts') := by
  cases hstep with
  | stopped _ => cases hl.isOpen
  | timedOut _ _ => cases hl.isOpen
  | finished _ _ _ hcl => rw [hl.isOpen] at hcl; cases hcl
  | trailed _ _ hc hl₁ _ _ =>
      obtain ⟨hp, hn⟩ := hc.partials_live h.live.tick hl₁
      refine ⟨hl, ?_, ?_⟩
      · rw [partials_append, partials_orHold, partials_append, partials_ratchetActions, List.append_nil,
          h.rungs, rungs_ratchet, ← hp, rungs_tick]
      · rw [List.any_append, h.noCloseAll, Bool.false_or]
        exact any_closeAll_orHold (by rw [List.any_append, hn, any_closeAll_ratchetActions]; rfl)
  | waited _ _ _ _ =>
      refine ⟨hl, ?_, ?_⟩
      · rw [partials_append, h.rungs, rungs_tick]; exact List.append_nil _
      · rw [List.any_append, h.noCloseAll]; rfl

/-- A bar that closes the position emits one `close_all`, last, and it takes what is left. -/
theorem Booked.closes {acts' : List Action} (h : Booked s acts) (hstep : BarStep s bar s' acts')
    (hd : Done s') :
    s'.sizeRemaining = 0 ∧ 0 ≤ takenByCloseAll s acts' ∧
      (∃ pre reason, acts' = pre ++ [.closeAll reason] ∧ pre.any isCloseAll = false) ∧
      partials (acts ++ acts') <+: ladder ∧ closedFraction (acts ++ acts') + takenByCloseAll s acts' = 1 := by
  have htotal : closedFraction (acts ++ acts') + takenByCloseAll s acts' = 1 := by
    rw [closedFraction_append, takenByCloseAll, h.size]; ring
  have hwhole : ∀ reason : String, 0 ≤ takenByCloseAll s [.closeAll reason] ∧
      partials (acts ++ [.closeAll reason]) <+: ladder := by
    intro reason
    refine ⟨?_, ?_⟩
    · simpa [takenByCloseAll, closedFraction, partials] using s.sizeRemaining_mem.1
    · rw [partials_append, h.rungs]
      simpa [partials] using List.take_prefix _ _
  cases hstep with
  | stopped _ => exact ⟨rfl, (hwhole _).1, ⟨[], _, rfl, rfl⟩, (hwhole _).2, htotal⟩
  | timedOut _ _ => exact ⟨rfl, (hwhole _).1, ⟨[], _, rfl, rfl⟩, (hwhole _).2, htotal⟩
  | finished _ _ hc hcl =>
      obtain ⟨hp, hpre⟩ := hc.partials_closed h.live.tick hcl
      have hall : partials (acts ++ acts') = ladder := by
        rw [partials_append, h.rungs, ← rungs_tick, hp]
      have hone : closedFraction (acts ++ acts') = 1 := by
        rw [closedFraction, hall]; norm_num [ladder]
      refine ⟨?_, ?_, hpre, hall ▸ List.prefix_refl _, htotal⟩
      · rcases hc.live_or_closed h.live.tick with hl | ⟨_, hz, _⟩
        · rw [hl.isOpen] at hcl; cases hcl
        · exact hz
      · have := htotal
        rw [hone] at this
        linarith
  | trailed _ _ _ hl _ _ => exact absurd ((hl.ratchet _).isOpen.symm.trans hd.closed) (by simp)
  | waited _ _ _ _ => exact absurd (h.live.tick.isOpen.symm.trans hd.closed) (by simp)

/-- **The size is accounted for once.** While the position is open its size is one less the partial closes;
the rungs fire at most once and in order; the bar that closes it hands the rest to a single `close_all`; after
that nothing happens. -/
theorem size_accounted_once (hf : Fresh s₀) (bars : List Bar) :
    ∃ s acts, run processBar s₀ bars = .ok (s, acts) ∧ partials acts <+: ladder ∧
      (s.closed = false → s.sizeRemaining = 1 - closedFraction acts ∧ acts.any isCloseAll = false) ∧
      ∀ bar, ∃ s' acts', processBar s bar = .ok (s', acts') ∧
        (s.closed = true → s' = s ∧ acts' = [.hold "already closed"]) ∧
        (s.closed = false → s'.closed = true → s'.sizeRemaining = 0 ∧ 0 ≤ takenByCloseAll s acts' ∧
          (∃ pre reason, acts' = pre ++ [.closeAll reason] ∧ pre.any isCloseAll = false) ∧
          closedFraction (acts ++ acts') + takenByCloseAll s acts' = 1) := by
  have h₀ : Booked s₀ [] := by
    refine ⟨hf.live, ?_, rfl⟩
    simp [PositionState.rungs, hf.tp1_not, hf.tp2_not, partials]
  obtain ⟨s, acts, hr, hi⟩ := run_history (f := processBar)
    (I := fun _ s acts => Booked s acts ∨ Done s ∧ partials acts <+: ladder) (Or.inl h₀) (by
      rintro bars s acts bar (hb | ⟨hd, hp⟩)
      · obtain ⟨s', acts', hp, hstep⟩ := processBar_step hb.live bar
        refine ⟨s', acts', hp, ?_⟩
        rcases hstep.live_or_done hb.live with hl | hd
        · exact Or.inl (hb.step hstep hl)
        · exact Or.inr ⟨hd, (hb.closes hstep hd).2.2.2.1⟩
      · exact ⟨_, _, processBar_done hd bar, Or.inr ⟨hd, by simpa [partials] using hp⟩⟩) bars
  refine ⟨s, acts, hr, ?_⟩
  rcases hi with hb | ⟨hd, hp⟩
  · refine ⟨hb.rungs ▸ List.take_prefix _ _, fun _ => ⟨hb.size, hb.noCloseAll⟩, fun bar => ?_⟩
    obtain ⟨s', acts', hp, hstep⟩ := processBar_step hb.live bar
    refine ⟨s', acts', hp, fun hc => absurd (hb.live.isOpen.symm.trans hc) (by simp), fun _ hc => ?_⟩
    rcases hstep.live_or_done hb.live with hl | hd
    · exact absurd (hl.isOpen.symm.trans hc) (by simp)
    · obtain ⟨hz, h0, hpre, _, hsum⟩ := hb.closes hstep hd
      exact ⟨hz, h0, hpre, hsum⟩
  · refine ⟨hp, fun hc => absurd (hc.symm.trans hd.closed) (by simp), fun bar => ?_⟩
    exact ⟨s, _, processBar_done hd bar, fun _ => ⟨rfl, rfl⟩,
      fun hc => absurd (hc.symm.trans hd.closed) (by simp)⟩

theorem size_accounted_pastTp1 : ∃ s, run processBar longTrade pastTp1Bars = .ok (s, pastTp1Actions) ∧
    s.sizeRemaining = 1 / 5 := by
  obtain ⟨s, acts, hr, -, h, -⟩ := size_accounted_once longTrade_fresh pastTp1Bars
  obtain ⟨s', hr', hopen⟩ := run_pastTp1
  rw [hr] at hr'
  cases hr'
  exact ⟨s, hr, (h hopen).1.trans (by decide +kernel)⟩

end CryptoAggHarmonic.Position
