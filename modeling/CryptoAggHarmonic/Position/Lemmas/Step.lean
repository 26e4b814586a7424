import CryptoAggHarmonic.Position.Manager
import CryptoAggHarmonic.Lib.OrientedOrder
import Mathlib.Tactic.Linarith
import Mathlib.Tactic.NormNum

/-!
# What one bar can do to an open position

`Climb` lists the rungs a bar can take and `BarStep` the outcomes of a bar. `processBar_step` says that
`process_bar` on a live position never raises and does one of them; later results argue on these cases.
-/

namespace CryptoAggHarmonic.Position

open Oriented

variable {s s' : PositionState} {bar : Bar}

/-! ## The two sides of a bar -/

def Bar.favourable (up : Bool) (bar : Bar) : ℚ := if up then bar.high else bar.low

def Bar.adverse (up : Bool) (bar : Bar) : ℚ := if up then bar.low else bar.high

theorem tpHit_iff {up : Bool} {tp : ℚ} :
    tpHit bar.high bar.low tp up = true ↔ Le up tp (bar.favourable up) := by
  cases up <;> simp [tpHit, Le, Bar.favourable]

theorem stopHit_iff {up : Bool} {stop : ℚ} :
    stopHit bar.high bar.low stop up = true ↔ Le up (bar.adverse up) stop := by
  cases up <;> simp [stopHit, Le, Bar.adverse]

def PositionState.Reaches (s : PositionState) (bar : Bar) (price : ℚ) : Prop :=
  Le s.bullish price (bar.favourable s.bullish)

/-! ## Live positions -/

/-- The running extreme that the direction of the trade uses. -/
def PositionState.extreme (s : PositionState) : Option ℚ :=
  if s.bullish then s.chandelierHigh else s.chandelierLow

/-- What is left of the position after the rungs taken so far. -/
def PositionState.ladderSize (s : PositionState) : ℚ :=
  if s.tp2Hit then 1 / 5 else if s.tp1Hit then 1 / 2 else 1

def PositionState.nextTp (s : PositionState) : ℚ :=
  if s.tp2Hit then s.tp3 else if s.tp1Hit then s.tp2 else s.tp1

/-- An open position whose flags, size and running extreme agree. -/
structure Live (s : PositionState) : Prop where
  isOpen : s.closed = false
  tp3_not : s.tp3Hit = false
  tp1_of_tp2 : s.tp2Hit = true → s.tp1Hit = true
  size : s.sizeRemaining = s.ladderSize
  extreme : s.tp1Hit = true → ∃ e, s.extreme = some e

/-- The terms of the trade, which no bar changes. -/
structure SameTrade (s s' : PositionState) : Prop where
  bullish : s'.bullish = s.bullish
  entryPrice : s'.entryPrice = s.entryPrice
  initialStop : s'.initialStop = s.initialStop
  tp1 : s'.tp1 = s.tp1
  tp2 : s'.tp2 = s.tp2
  tp3 : s'.tp3 = s.tp3
  atr : s'.atr = s.atr
  mult : s'.chandelierAtrMult = s.chandelierAtrMult

theorem SameTrade.refl (s : PositionState) : SameTrade s s := ⟨rfl, rfl, rfl, rfl, rfl, rfl, rfl, rfl⟩

theorem SameTrade.trans {s₁ s₂ s₃ : PositionState} (h₁ : SameTrade s₁ s₂) (h₂ : SameTrade s₂ s₃) :
    SameTrade s₁ s₃ :=
  ⟨h₂.bullish.trans h₁.bullish, h₂.entryPrice.trans h₁.entryPrice, h₂.initialStop.trans h₁.initialStop,
    h₂.tp1.trans h₁.tp1, h₂.tp2.trans h₁.tp2, h₂.tp3.trans h₁.tp3, h₂.atr.trans h₁.atr,
    h₂.mult.trans h₁.mult⟩

/-! ## The pure effect of the pieces -/

/-- A rung taken: its flag, the size left and the new stop. -/
def PositionState.fire (s : PositionState) (name : TpName) (bar : Bar) (stop size : ℚ)
    (h : 0 ≤ size ∧ size ≤ 1) : PositionState :=
  ((s.markHit name bar).setSizeRemaining size h).setCurrentStop stop

/-- The `move_stop` of a rung; none is emitted when the stop is already there. -/
def moveIf (current stop : ℚ) (reason : String) : List Action :=
  if stop ≠ current then [.moveStop stop reason] else []

def PositionState.trailAt (s : PositionState) (e : ℚ) : ℚ :=
  back s.bullish e (s.chandelierAtrMult * s.atr)

/-- The position after the ratchet, `e` being the new running extreme. -/
def PositionState.ratchet (s : PositionState) (e : ℚ) : PositionState :=
  { s with currentStop := sup s.bullish s.currentStop (s.trailAt e)
           chandelierHigh := if s.bullish then some e else s.chandelierHigh
           chandelierLow := if s.bullish then s.chandelierLow else some e }

def ratchetActions (s : PositionState) (e : ℚ) : List Action :=
  if Lt s.bullish s.currentStop (s.trailAt e) then [.moveStop (s.trailAt e) "chandelier_ratchet"] else []

def orHold (actions : List Action) : List Action :=
  if actions.isEmpty then [.hold "bar_no_event"] else actions

theorem SameTrade.fire (s : PositionState) (name : TpName) (bar : Bar) (stop size : ℚ)
    (h : 0 ≤ size ∧ size ≤ 1) : SameTrade s (s.fire name bar stop size h) := by
  cases name <;> exact ⟨rfl, rfl, rfl, rfl, rfl, rfl, rfl, rfl⟩

theorem extreme_fire_tp1 {stop size : ℚ} {h : 0 ≤ size ∧ size ≤ 1} :
    (s.fire .tp1 bar stop size h).extreme = some (bar.favourable s.bullish) := by
  cases hb : s.bullish <;>
    simp [PositionState.extreme, PositionState.fire, PositionState.markHit, PositionState.setSizeRemaining,
      PositionState.setCurrentStop, Bar.favourable, hb]

theorem extreme_ratchet {e : ℚ} : (s.ratchet e).extreme = some e := by
  cases hb : s.bullish <;> simp [PositionState.extreme, PositionState.ratchet, hb]

theorem Live.tp2_not (h : Live s) (h1 : s.tp1Hit = false) : s.tp2Hit = false := by
  by_contra hc
  rw [h.tp1_of_tp2 (by simpa using hc)] at h1
  cases h1

theorem Live.tick (h : Live s) : Live s.tick :=
  ⟨h.isOpen, h.tp3_not, h.tp1_of_tp2, h.size, h.extreme⟩

theorem Live.fire_tp1 (h : Live s) (h1 : s.tp1Hit = false) {hs : 0 ≤ (1 / 2 : ℚ) ∧ (1 / 2 : ℚ) ≤ 1} :
    Live (s.fire .tp1 bar s.entryPrice (1 / 2) hs) where
  isOpen := h.isOpen
  tp3_not := h.tp3_not
  tp1_of_tp2 := fun _ => rfl
  size := by
    have h2 := h.tp2_not h1
    simp [PositionState.fire, PositionState.markHit, PositionState.setSizeRemaining,
      PositionState.setCurrentStop, PositionState.ladderSize, h2]
  extreme := fun _ => ⟨_, extreme_fire_tp1⟩

theorem Live.fire_tp2 (h : Live s) (h1 : s.tp1Hit = true) {hs : 0 ≤ (1 / 5 : ℚ) ∧ (1 / 5 : ℚ) ≤ 1} :
    Live (s.fire .tp2 bar s.tp1 (1 / 5) hs) :=
  ⟨h.isOpen, h.tp3_not, fun _ => h1, rfl, fun _ => h.extreme h1⟩

theorem Live.ratchet (h : Live s) (e : ℚ) : Live (s.ratchet e) :=
  ⟨h.isOpen, h.tp3_not, h.tp1_of_tp2, h.size, fun _ => ⟨e, extreme_ratchet⟩⟩

/-! ## The ladder -/

/-- What the ladder does in one bar, from the first rung not taken. -/
inductive Climb (bar : Bar) : PositionState → List Action → PositionState → Prop
  | rest {s : PositionState} : ¬ s.Reaches bar s.nextTp → Climb bar s [] s
  | tp1 {s s' : PositionState} {acts : List Action} (hs : 0 ≤ (1 / 2 : ℚ) ∧ (1 / 2 : ℚ) ≤ 1) :
      s.tp1Hit = false → s.Reaches bar s.tp1 →
      Climb bar (s.fire .tp1 bar s.entryPrice (1 / 2) hs) acts s' →
      Climb bar s (.closePartial (1 / 2) TpName.tp1.hitReason ::
        (moveIf s.currentStop s.entryPrice TpName.tp1.afterReason ++ acts)) s'
  | tp2 {s s' : PositionState} {acts : List Action} (hs : 0 ≤ (1 / 5 : ℚ) ∧ (1 / 5 : ℚ) ≤ 1) :
      s.tp1Hit = true → s.tp2Hit = false → s.Reaches bar s.tp2 →
      Climb bar (s.fire .tp2 bar s.tp1 (1 / 5) hs) acts s' →
      Climb bar s (.closePartial (3 / 10) TpName.tp2.hitReason ::
        (moveIf s.currentStop s.tp1 TpName.tp2.afterReason ++ acts)) s'
  | tp3 {s : PositionState} : s.tp2Hit = true → s.Reaches bar s.tp3 →
      Climb bar s [.closePartial (1 / 5) TpName.tp3.hitReason, .closeAll "tp3_full_close"]
        ((s.markHit .tp3 bar).close .tp3)

theorem tpLoop_skip {t : TpTarget} {ts : List TpTarget} {acts : List Action}
    (h : s.isHit t.name = true) : tpLoop bar (t :: ts) s acts = tpLoop bar ts s acts := by
  simp [tpLoop, h]

theorem tpLoop_break {t : TpTarget} {ts : List TpTarget} {acts : List Action}
    (h : s.isHit t.name = false) (hr : ¬ s.Reaches bar t.price) :
    tpLoop bar (t :: ts) s acts = .ok (s, acts) := by
  have hr' : tpHit bar.high bar.low t.price s.bullish = false := by
    simpa using mt tpHit_iff.mp hr
  simp [tpLoop, h, hr']

/-- A rung taken that does not close the position, whether or not its stop is already in force. -/
theorem tpLoop_fire {t : TpTarget} {ts : List TpTarget} {acts : List Action} {next : NextStop}
    {stop : ℚ} (h : s.isHit t.name = false) (hr : s.Reaches bar t.price) (hn : t.nextStop = some next)
    (hstop : next.price s = stop) (hs : 0 ≤ s.sizeRemaining - t.closePct ∧ s.sizeRemaining - t.closePct ≤ 1) :
    tpLoop bar (t :: ts) s acts =
      tpLoop bar ts (s.fire t.name bar stop (s.sizeRemaining - t.closePct) hs)
        (acts ++ [.closePartial t.closePct t.name.hitReason] ++
          moveIf s.currentStop stop t.name.afterReason) := by
  have hr' : tpHit bar.high bar.low t.price s.bullish = true := tpHit_iff.mpr hr
  have hstop' : next.price ((s.markHit t.name bar).setSizeRemaining _ hs) = stop := by
    rw [← hstop]
    cases next <;> cases t.name <;> rfl
  have hcur : ((s.markHit t.name bar).setSizeRemaining _ hs).currentStop = s.currentStop := by
    cases t.name <;> rfl
  simp only [tpLoop, h, hr', hn, PositionState.replaceSizeRemaining, hs, and_self, ↓reduceDIte, hstop',
    hcur, Bool.false_eq_true, ↓reduceIte, not_true_eq_false]
  by_cases hc : stop = s.currentStop
  · have hfire : s.fire t.name bar stop _ hs = (s.markHit t.name bar).setSizeRemaining _ hs := by
      rw [PositionState.fire, hc, ← hcur]; rfl
    simp only [hc, ne_eq, not_true_eq_false, ↓reduceIte, moveIf, List.append_nil, ← hfire]
  · simp only [ne_eq, hc, not_false_eq_true, ↓reduceIte, moveIf, PositionState.fire]

theorem tpLoop_last {t : TpTarget} {acts : List Action} (h : s.isHit t.name = false)
    (hr : s.Reaches bar t.price) (hn : t.nextStop = none) (hs : s.sizeRemaining - t.closePct = 0) :
    tpLoop bar [t] s acts = .ok ((s.markHit t.name bar).close .tp3,
      acts ++ [.closePartial t.closePct t.name.hitReason, .closeAll "tp3_full_close"]) := by
  have hr' : tpHit bar.high bar.low t.price s.bullish = true := tpHit_iff.mpr hr
  simp only [tpLoop, h, hr', hn, PositionState.replaceSizeRemaining, hs, le_refl, zero_le_one, and_self,
    ↓reduceDIte, Bool.false_eq_true, ↓reduceIte, not_true_eq_false, List.append_assoc, List.cons_append,
    List.nil_append]
  rfl

theorem climb_tp3 (h : Live s) (h2 : s.tp2Hit = true) (bar : Bar) (acts : List Action) :
    ∃ s' as, tpLoop bar [⟨s.tp3, .tp3, 1 / 5, none⟩] s acts = .ok (s', acts ++ as) ∧ Climb bar s as s' := by
  have hnext : s.nextTp = s.tp3 := by simp [PositionState.nextTp, h2]
  by_cases hr : s.Reaches bar s.tp3
  · refine ⟨_, _, tpLoop_last h.tp3_not hr rfl ?_, .tp3 h2 hr⟩
    simp [h.size, PositionState.ladderSize, h2]
  · refine ⟨s, [], ?_, .rest (hnext ▸ hr)⟩
    rw [tpLoop_break (t := ⟨s.tp3, .tp3, 1 / 5, none⟩) h.tp3_not hr, List.append_nil]

theorem climb_tp2 (h : Live s) (h1 : s.tp1Hit = true) (bar : Bar) (acts : List Action) :
    ∃ s' as, tpLoop bar [⟨s.tp2, .tp2, 3 / 10, some .tp1⟩, ⟨s.tp3, .tp3, 1 / 5, none⟩] s acts =
      .ok (s', acts ++ as) ∧ Climb bar s as s' := by
  by_cases h2 : s.tp2Hit = true
  · rw [tpLoop_skip (t := ⟨s.tp2, .tp2, 3 / 10, some .tp1⟩) h2]
    exact climb_tp3 h h2 bar acts
  · have h2' : s.tp2Hit = false := by simpa using h2
    have hnext : s.nextTp = s.tp2 := by simp [PositionState.nextTp, h2', h1]
    by_cases hr : s.Reaches bar s.tp2
    · have hsize : s.sizeRemaining - 3 / 10 = 1 / 5 := by
        rw [h.size, PositionState.ladderSize, h2', h1]; norm_num
      have hs : 0 ≤ s.sizeRemaining - 3 / 10 ∧ s.sizeRemaining - 3 / 10 ≤ 1 := by
        rw [hsize]; norm_num
      rw [tpLoop_fire (t := ⟨s.tp2, .tp2, 3 / 10, some .tp1⟩) h2' hr rfl rfl hs]
      simp only [hsize]
      have hfire : Live (s.fire .tp2 bar s.tp1 (1 / 5) (by norm_num)) := h.fire_tp2 h1
      obtain ⟨s', as, hl, hc⟩ := climb_tp3 hfire rfl bar
        (acts ++ [.closePartial (3 / 10) TpName.tp2.hitReason] ++
          moveIf s.currentStop s.tp1 TpName.tp2.afterReason)
      refine ⟨s', _, hl.trans ?_, .tp2 _ h1 h2' hr hc⟩
      simp only [List.append_assoc, List.cons_append, List.nil_append]
    · refine ⟨s, [], ?_, .rest (hnext ▸ hr)⟩
      rw [tpLoop_break (t := ⟨s.tp2, .tp2, 3 / 10, some .tp1⟩) h2' hr, List.append_nil]

theorem tpLoop_climb (h : Live s) (bar : Bar) :
    ∃ s' as, tpLoop bar (tpTargets s) s [] = .ok (s', as) ∧ Climb bar s as s' := by
  by_cases h1 : s.tp1Hit = true
  · rw [tpTargets, tpLoop_skip (t := ⟨s.tp1, .tp1, 1 / 2, some .breakeven⟩) h1]
    exact climb_tp2 h h1 bar []
  · have h1' : s.tp1Hit = false := by simpa using h1
    have h2' := h.tp2_not h1'
    have hnext : s.nextTp = s.tp1 := by simp [PositionState.nextTp, h1', h2']
    by_cases hr : s.Reaches bar s.tp1
    · have hsize : s.sizeRemaining - 1 / 2 = 1 / 2 := by
        rw [h.size, PositionState.ladderSize, h2', h1']; norm_num
      have hs : 0 ≤ s.sizeRemaining - 1 / 2 ∧ s.sizeRemaining - 1 / 2 ≤ 1 := by
        rw [hsize]; norm_num
      rw [tpTargets, tpLoop_fire (t := ⟨s.tp1, .tp1, 1 / 2, some .breakeven⟩) h1' hr rfl rfl hs]
      simp only [hsize]
      have hfire : Live (s.fire .tp1 bar s.entryPrice (1 / 2) (by norm_num)) := h.fire_tp1 h1'
      obtain ⟨s', as, hl, hc⟩ := climb_tp2 hfire rfl bar
        ([] ++ [.closePartial (1 / 2) TpName.tp1.hitReason] ++
          moveIf s.currentStop s.entryPrice TpName.tp1.afterReason)
      refine ⟨s', _, hl.trans ?_, .tp1 _ h1' hr hc⟩
      simp only [List.cons_append, List.nil_append]
    · refine ⟨s, [], ?_, .rest (hnext ▸ hr)⟩
      rw [tpTargets, tpLoop_break (t := ⟨s.tp1, .tp1, 1 / 2, some .breakeven⟩) h1' hr]

theorem Climb.live_or_closed {acts : List Action} (hc : Climb bar s acts s') (h : Live s) :
    Live s' ∨ s'.closed = true ∧ s'.sizeRemaining = 0 ∧ s'.closeReason = some .tp3 := by
  induction hc with
  | rest _ => exact Or.inl h
  | tp1 _ h1 _ _ ih => exact ih (h.fire_tp1 h1)
  | tp2 _ h1 _ _ _ ih => exact ih (h.fire_tp2 h1)
  | tp3 _ _ => exact Or.inr ⟨rfl, rfl, rfl⟩

theorem Climb.sameTrade {acts : List Action} (hc : Climb bar s acts s') : SameTrade s s' := by
  induction hc with
  | rest _ => exact SameTrade.refl _
  | tp1 _ _ _ _ ih => exact (SameTrade.fire _ _ _ _ _ _).trans ih
  | tp2 _ _ _ _ _ ih => exact (SameTrade.fire _ _ _ _ _ _).trans ih
  | tp3 _ _ => exact ⟨rfl, rfl, rfl, rfl, rfl, rfl, rfl, rfl⟩

theorem Climb.barsHeld {acts : List Action} (hc : Climb bar s acts s') : s'.barsHeld = s.barsHeld := by
  induction hc with
  | rest _ => rfl
  | tp1 _ _ _ _ ih => exact ih
  | tp2 _ _ _ _ _ ih => exact ih
  | tp3 _ _ => rfl

/-! ## The ratchet -/

theorem extendChandelier_eq {e : ℚ} (he : s.extreme = some e) (bar : Bar) :
    (s.extendChandelier bar).setCurrentStop
        (sup s.bullish s.currentStop (s.trailAt (sup s.bullish e (bar.favourable s.bullish)))) =
      s.ratchet (sup s.bullish e (bar.favourable s.bullish)) := by
  cases hb : s.bullish <;>
    simp_all [PositionState.extendChandelier, PositionState.setCurrentStop, PositionState.ratchet,
      PositionState.extreme, Bar.favourable, sup]

/-- The ratchet on a live position past TP1 never raises; the stop becomes the tighter of itself and the
trail at the new extreme. -/
theorem chandelierRatchet_eq {e : ℚ} {acts : List Action} (h : Live s) (h1 : s.tp1Hit = true)
    (hb : 0 < s.barsHeld) (he : s.extreme = some e) :
    chandelierRatchet bar s acts =
      .ok (s.ratchet (sup s.bullish e (bar.favourable s.bullish)),
        acts ++ ratchetActions s (sup s.bullish e (bar.favourable s.bullish))) := by
  set e' := sup s.bullish e (bar.favourable s.bullish) with he'
  have hstop : chandelierStop (s.extendChandelier bar) = .ok (s.trailAt e') := by
    cases hu : s.bullish <;>
      simp_all [chandelierStop, PositionState.extendChandelier, PositionState.extreme,
        PositionState.trailAt, back, Bar.favourable, sup]
  have hup : (s.extendChandelier bar).bullish = s.bullish := by
    unfold PositionState.extendChandelier; split <;> rfl
  have hcur : (s.extendChandelier bar).currentStop = s.currentStop := by
    unfold PositionState.extendChandelier; split <;> rfl
  have himp : ((s.bullish && decide (s.trailAt e' > s.currentStop)) ||
      (!s.bullish && decide (s.trailAt e' < s.currentStop))) =
      decide (Lt s.bullish s.currentStop (s.trailAt e')) := by
    cases hu : s.bullish <;> simp [Lt]
  simp only [chandelierRatchet, h1, h.isOpen, hb, Bool.not_false, Bool.and_self, decide_true, ↓reduceIte,
    hstop, hup, hcur, himp, gt_iff_lt, decide_eq_true_eq]
  have heq := extendChandelier_eq he bar
  rw [← he'] at heq
  by_cases hlt : Lt s.bullish s.currentStop (s.trailAt e')
  · rw [sup_eq_right hlt.le] at heq
    simp only [hlt, ↓reduceIte, heq, ratchetActions]
  · rw [sup_eq_left (not_lt.mp hlt)] at heq
    have hset : (s.extendChandelier bar).setCurrentStop s.currentStop = s.extendChandelier bar := by
      rw [← hcur]; rfl
    simp only [hlt, ↓reduceIte, ratchetActions, List.append_nil, ← heq, hset]

/-! ## The outcomes of a bar -/

def PositionState.TimedOut (s : PositionState) : Prop :=
  (s.barsHeld : ℚ) > s.timeStopCdMult * s.cdLegBars

inductive BarStep (s : PositionState) (bar : Bar) : PositionState → List Action → Prop
  | stopped : Le s.bullish (bar.adverse s.bullish) s.currentStop →
      BarStep s bar (s.tick.close .stop) [.closeAll "initial_or_trail_stop_hit"]
  | timedOut : Lt s.bullish s.currentStop (bar.adverse s.bullish) → s.tick.TimedOut →
      BarStep s bar (s.tick.close .timeStop) [.closeAll "time_stop"]
  | finished {s' : PositionState} {acts : List Action} :
      Lt s.bullish s.currentStop (bar.adverse s.bullish) → ¬ s.tick.TimedOut →
      Climb bar s.tick acts s' → s'.closed = true → BarStep s bar s' acts
  | trailed {s₁ : PositionState} {acts : List Action} {e : ℚ} :
      Lt s.bullish s.currentStop (bar.adverse s.bullish) → ¬ s.tick.TimedOut →
      Climb bar s.tick acts s₁ → Live s₁ → s₁.tp1Hit = true → s₁.extreme = some e →
      BarStep s bar (s₁.ratchet (sup s.bullish e (bar.favourable s.bullish)))
        (orHold (acts ++ ratchetActions s₁ (sup s.bullish e (bar.favourable s.bullish))))
  | waited : Lt s.bullish s.currentStop (bar.adverse s.bullish) → ¬ s.tick.TimedOut →
      s.tp1Hit = false → ¬ s.Reaches bar s.tp1 → BarStep s bar s.tick [.hold "bar_no_event"]

theorem Climb.acts_ne_nil_of_closed {acts : List Action} (hc : Climb bar s acts s') (h : s.closed = false)
    (h' : s'.closed = true) : acts.isEmpty = false := by
  cases hc with
  | rest _ => rw [h] at h'; cases h'
  | tp1 _ _ _ _ => rfl
  | tp2 _ _ _ _ _ => rfl
  | tp3 _ _ => rfl

theorem Climb.of_not_tp1 {acts : List Action} (hc : Climb bar s acts s') (h : Live s) (h' : Live s')
    (h1 : s'.tp1Hit = false) : s' = s ∧ acts = [] ∧ s.tp1Hit = false ∧ ¬ s.Reaches bar s.tp1 := by
  have mono : ∀ {s₁ s₂ as}, Climb bar s₁ as s₂ → s₁.tp1Hit = true → s₂.tp1Hit = true := by
    intro s₁ s₂ as hcl
    induction hcl with
    | rest _ => exact id
    | tp1 _ _ _ _ ih => exact fun _ => ih rfl
    | tp2 _ _ _ _ _ ih => exact ih
    | tp3 _ _ => exact id
  cases hc with
  | rest hr =>
      have h2 := h.tp2_not h1
      refine ⟨rfl, rfl, h1, ?_⟩
      simpa [PositionState.nextTp, h1, h2] using hr
  | tp1 _ _ _ hcl => rw [mono hcl rfl] at h1; cases h1
  | tp2 _ ht _ _ hcl => rw [mono hcl ht] at h1; cases h1
  | tp3 _ _ => exact absurd h'.isOpen (by simp [PositionState.close])

/-- **One bar.** On a live position `process_bar` never raises and does one of the steps. -/
theorem processBar_step (h : Live s) (bar : Bar) :
    ∃ s' acts, processBar s bar = .ok (s', acts) ∧ BarStep s bar s' acts := by
  have hbody : ∃ s' acts, processBarBody s bar = .ok (s', acts) ∧ BarStep s bar s' acts ∧
      (s'.closed = false ∨ s'.closeReason.isSome = true) := by
    by_cases hs : Le s.bullish (bar.adverse s.bullish) s.currentStop
    · refine ⟨_, _, ?_, .stopped hs, Or.inr rfl⟩
      have hs' := stopHit_iff.mpr hs
      have hs'' : stopHit bar.high bar.low s.tick.currentStop s.tick.bullish = true := hs'
      simp [processBarBody, h.isOpen, hs'']
    · have hs' : stopHit bar.high bar.low s.tick.currentStop s.tick.bullish = false := by
        exact Bool.eq_false_iff.mpr (mt stopHit_iff.mp hs)
      have hlt := not_le.mp hs
      by_cases ht : s.tick.TimedOut
      · refine ⟨_, _, ?_, .timedOut hlt ht, Or.inr rfl⟩
        have ht' : (s.tick.barsHeld : ℚ) > s.tick.timeStopCdMult * s.tick.cdLegBars := ht
        simp only [processBarBody, h.isOpen, Bool.false_eq_true, ↓reduceIte, hs', ht']
      · have ht' : ¬ (s.tick.barsHeld : ℚ) > s.tick.timeStopCdMult * s.tick.cdLegBars := ht
        obtain ⟨s₁, acts, hl, hc⟩ := tpLoop_climb h.tick bar
        rcases hc.live_or_closed h.tick with hlive | ⟨hcl, _, hreason⟩
        · cases h1 : s₁.tp1Hit with
          | true =>
              obtain ⟨e, he⟩ := hlive.extreme h1
              have hpos : 0 < s₁.barsHeld := by rw [hc.barsHeld]; exact Nat.succ_pos _
              have hup : s₁.bullish = s.bullish := hc.sameTrade.bullish
              refine ⟨_, _, ?_, .trailed hlt ht hc hlive h1 he, Or.inl hlive.isOpen⟩
              simp only [processBarBody, h.isOpen, Bool.false_eq_true, ↓reduceIte, hs', ht', hl,
                chandelierRatchet_eq hlive h1 hpos he, orHold, hup]
          | false =>
              obtain ⟨rfl, rfl, h1', hr⟩ := hc.of_not_tp1 h.tick hlive h1
              refine ⟨_, _, ?_, .waited hlt ht h1' hr, Or.inl h.isOpen⟩
              simp only [processBarBody, h.isOpen, Bool.false_eq_true, ↓reduceIte, hs', ht', hl,
                chandelierRatchet, h1, Bool.false_and, List.isEmpty_nil]
        · refine ⟨_, _, ?_, .finished hlt ht hc hcl, Or.inr (by rw [hreason]; rfl)⟩
          have hne := hc.acts_ne_nil_of_closed h.isOpen hcl
          simp only [processBarBody, h.isOpen, Bool.false_eq_true, ↓reduceIte, hs', ht', hl,
            chandelierRatchet, hcl, Bool.not_true, Bool.and_false, Bool.false_and, hne]
  obtain ⟨s', acts, hb, hstep, hok⟩ := hbody
  refine ⟨s', acts, ?_, hstep⟩
  rcases hok with hok | hok <;> simp [processBar, hb, hok]

end CryptoAggHarmonic.Position
