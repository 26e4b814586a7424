import CryptoAggHarmonic.Position.Lemmas.Step
import CryptoAggHarmonic.Lib.Steps
import Mathlib.Data.List.TakeWhile

/-!
# The stop over a run

`stopAfter` says what the stop is from the bars alone; `Track` ties it to the state. `LoosensOn` is the one
situation in which a bar emits a `move_stop` that gives ground.
-/

namespace CryptoAggHarmonic.Position

open Oriented

variable {s s' s₀ : PositionState} {bar : Bar} {bars : List Bar} {acts : List Action}

/-- A position as it is entered: no rung taken, full size, the stop where it was placed. -/
structure Fresh (s : PositionState) : Prop where
  tp1_not : s.tp1Hit = false
  tp2_not : s.tp2Hit = false
  tp3_not : s.tp3Hit = false
  isOpen : s.closed = false
  size : s.sizeRemaining = 1
  stop : s.currentStop = s.initialStop

structure Ordered (s : PositionState) : Prop where
  stop_entry : Lt s.bullish s.initialStop s.entryPrice
  entry_tp1 : Le s.bullish s.entryPrice s.tp1
  tp1_tp2 : Le s.bullish s.tp1 s.tp2
  tp2_tp3 : Le s.bullish s.tp2 s.tp3

theorem Fresh.live (h : Fresh s) : Live s where
  isOpen := h.isOpen
  tp3_not := h.tp3_not
  tp1_of_tp2 := fun h2 => by rw [h.tp2_not] at h2; cases h2
  size := by simp [h.size, PositionState.ladderSize, h.tp1_not, h.tp2_not]
  extreme := fun h1 => by rw [h.tp1_not] at h1; cases h1

/-! ## The stop that the bars determine -/

instance (s : PositionState) (bar : Bar) (price : ℚ) : Decidable (s.Reaches bar price) := by
  unfold PositionState.Reaches; infer_instance

/-- The stop of the stage: where it was placed, the entry from TP1 on, TP1 from TP2 on. -/
def stageStop (s₀ : PositionState) (bars : List Bar) : ℚ :=
  if ∃ b ∈ bars, s₀.Reaches b s₀.tp2 then s₀.tp1
  else if ∃ b ∈ bars, s₀.Reaches b s₀.tp1 then s₀.entryPrice
  else s₀.initialStop

def sinceTp1 (s₀ : PositionState) (bars : List Bar) : List Bar :=
  bars.dropWhile (fun b => !decide (s₀.Reaches b s₀.tp1))

def extremeOf (up : Bool) (b : Bar) (bs : List Bar) : ℚ :=
  sups up (b.favourable up) (bs.map (Bar.favourable up))

/-- The tighter of the stage stop and, once TP1 is hit, the chandelier trail. -/
def stopAfter (s₀ : PositionState) (bars : List Bar) : ℚ :=
  match sinceTp1 s₀ bars with
  | [] => stageStop s₀ bars
  | b :: bs => sup s₀.bullish (stageStop s₀ bars) (s₀.trailAt (extremeOf s₀.bullish b bs))

/-! ## Flags and history -/

theorem Reaches.congr (h : SameTrade s₀ s) {price : ℚ} :
    s.Reaches bar price ↔ s₀.Reaches bar price := by
  rw [PositionState.Reaches, PositionState.Reaches, h.bullish]

theorem Ordered.reaches_tp1 (h : Ordered s) (hr : s.Reaches bar s.tp2) : s.Reaches bar s.tp1 :=
  h.tp1_tp2.trans hr

theorem exists_mem_snoc {p : Bar → Prop} : (∃ b ∈ bars ++ [bar], p b) ↔ (∃ b ∈ bars, p b) ∨ p bar := by
  simp [or_and_right, exists_or]

/-- A climb that ends live has taken exactly the rungs the bar reaches. -/
theorem Climb.flags (hc : Climb bar s acts s') (h : Live s) (ho : Ordered s) (h' : Live s') :
    (s'.tp1Hit = true ↔ s.tp1Hit = true ∨ s.Reaches bar s.tp1) ∧
      (s'.tp2Hit = true ↔ s.tp2Hit = true ∨ s.Reaches bar s.tp2) := by
  induction hc with
  | @rest s hr =>
      by_cases h1 : s.tp1Hit = true
      · by_cases h2 : s.tp2Hit = true
        · simp [h1, h2]
        · simpa [h1, h2, PositionState.nextTp] using hr
      · have h2 : ¬ s.tp2Hit = true := mt h.tp1_of_tp2 h1
        have hr1 : ¬ s.Reaches bar s.tp1 := by simpa [PositionState.nextTp, h1, h2] using hr
        simpa [h1, h2, hr1] using mt ho.reaches_tp1 hr1
  | tp1 hs h1 hr _ ih =>
      obtain ⟨i1, i2⟩ := ih (h.fire_tp1 h1) ⟨ho.stop_entry, ho.entry_tp1, ho.tp1_tp2, ho.tp2_tp3⟩ h'
      exact ⟨⟨fun _ => Or.inr hr, fun _ => i1.mpr (Or.inl rfl)⟩, i2⟩
  | @tp2 s _ _ hs h1 h2 hr _ ih =>
      obtain ⟨i1, i2⟩ := ih (h.fire_tp2 h1) ⟨ho.stop_entry, ho.entry_tp1, ho.tp1_tp2, ho.tp2_tp3⟩ h'
      exact ⟨⟨fun _ => Or.inl h1, fun _ => i1.mpr (Or.inl h1)⟩, ⟨fun _ => Or.inr hr, fun _ => i2.mpr (Or.inl rfl)⟩⟩
  | tp3 _ _ => exact absurd h'.isOpen (by simp [PositionState.close])

def PositionState.flagStop (s : PositionState) : ℚ :=
  if s.tp2Hit then s.tp1 else if s.tp1Hit then s.entryPrice else s.initialStop

theorem Climb.stop (hc : Climb bar s acts s') (h : Live s) (h' : Live s') :
    s' = s ∨ s'.currentStop = s'.flagStop := by
  induction hc with
  | rest _ => exact Or.inl rfl
  | @tp1 s s' acts hs h1 _ _ ih =>
      rcases ih (h.fire_tp1 h1) h' with rfl | hst
      · have h2 := h.tp2_not h1
        right
        simp [PositionState.flagStop, PositionState.fire, PositionState.markHit,
          PositionState.setSizeRemaining, PositionState.setCurrentStop, h2]
      · exact Or.inr hst
  | tp2 hs h1 _ _ _ ih =>
      rcases ih (h.fire_tp2 h1) h' with rfl | hst
      · exact Or.inr rfl
      · exact Or.inr hst
  | tp3 _ _ => exact absurd h'.isOpen (by simp [PositionState.close])

/-- Past TP1 a climb leaves the running extreme alone; the climb that takes TP1 starts it at the bar. -/
theorem Climb.extreme (hc : Climb bar s acts s') (h : Live s) (h' : Live s') :
    (s.tp1Hit = true → s'.extreme = s.extreme) ∧
      (s.tp1Hit = false → s'.tp1Hit = true → s'.extreme = some (bar.favourable s.bullish)) := by
  induction hc with
  | rest _ => exact ⟨fun _ => rfl, fun h1 h1' => absurd (h1.symm.trans h1') (by simp)⟩
  | tp1 hs h1 _ _ ih =>
      refine ⟨fun h1' => absurd (h1.symm.trans h1') (by simp), fun _ _ => ?_⟩
      rw [(ih (h.fire_tp1 h1) h').1 rfl, extreme_fire_tp1]
  | tp2 hs h1 _ _ _ ih =>
      exact ⟨fun _ => (ih (h.fire_tp2 h1) h').1 h1, fun h1' => absurd (h1.symm.trans h1') (by simp)⟩
  | tp3 _ _ => exact absurd h'.isOpen (by simp [PositionState.close])

/-! ## The invariant -/

/-- A position still open after `bars`: its flags, its running extreme and its stop are those of the bars. -/
structure Track (s₀ : PositionState) (bars : List Bar) (s : PositionState) : Prop where
  live : Live s
  same : SameTrade s₀ s
  tp1_iff : s.tp1Hit = true ↔ ∃ b ∈ bars, s₀.Reaches b s₀.tp1
  tp2_iff : s.tp2Hit = true ↔ ∃ b ∈ bars, s₀.Reaches b s₀.tp2
  extreme : ∀ b bs, sinceTp1 s₀ bars = b :: bs → s.extreme = some (extremeOf s₀.bullish b bs)
  stop : s.currentStop = stopAfter s₀ bars

theorem sinceTp1_eq_nil_iff : sinceTp1 s₀ bars = [] ↔ ¬ ∃ b ∈ bars, s₀.Reaches b s₀.tp1 := by
  simp [sinceTp1, List.dropWhile_eq_nil_iff]

theorem sinceTp1_snoc_of_nil (h : sinceTp1 s₀ bars = []) (hr : s₀.Reaches bar s₀.tp1) :
    sinceTp1 s₀ (bars ++ [bar]) = [bar] := by
  unfold sinceTp1 at h ⊢
  rw [List.dropWhile_append, h]
  simp [hr]

theorem sinceTp1_snoc_of_cons {b : Bar} {bs : List Bar} (h : sinceTp1 s₀ bars = b :: bs) :
    sinceTp1 s₀ (bars ++ [bar]) = b :: (bs ++ [bar]) := by
  unfold sinceTp1 at h ⊢
  rw [List.dropWhile_append, h]
  simp

theorem extremeOf_snoc {up : Bool} {b : Bar} {bs : List Bar} :
    extremeOf up b (bs ++ [bar]) = sup up (extremeOf up b bs) (bar.favourable up) := by
  simp [extremeOf, sups_append]

theorem Track.flagStop (h : Track s₀ bars s) : s.flagStop = stageStop s₀ bars := by
  simp only [PositionState.flagStop, stageStop, h.tp1_iff, h.tp2_iff, h.same.tp1, h.same.entryPrice,
    h.same.initialStop]

theorem SameTrade.trailAt (h : SameTrade s₀ s) (e : ℚ) : s.trailAt e = s₀.trailAt e := by
  simp only [PositionState.trailAt, h.bullish, h.mult, h.atr]

theorem SameTrade.ordered (h : SameTrade s₀ s) (ho : Ordered s₀) : Ordered s := by
  refine ⟨?_, ?_, ?_, ?_⟩ <;>
    simp only [h.bullish, h.initialStop, h.entryPrice, h.tp1, h.tp2, h.tp3]
  exacts [ho.stop_entry, ho.entry_tp1, ho.tp1_tp2, ho.tp2_tp3]

theorem SameTrade.tick (s : PositionState) : SameTrade s s.tick := ⟨rfl, rfl, rfl, rfl, rfl, rfl, rfl, rfl⟩

theorem SameTrade.ratchet (s : PositionState) (e : ℚ) : SameTrade s (s.ratchet e) :=
  ⟨rfl, rfl, rfl, rfl, rfl, rfl, rfl, rfl⟩

theorem Track.of_fresh (h : Fresh s₀) : Track s₀ [] s₀ where
  live := h.live
  same := SameTrade.refl _
  tp1_iff := by simp [h.tp1_not]
  tp2_iff := by simp [h.tp2_not]
  extreme := fun b bs hb => by cases hb
  stop := by simp [stopAfter, sinceTp1, stageStop, h.stop]

theorem Track.step (h : Track s₀ bars s) (ho : Ordered s₀) (hstep : BarStep s bar s' acts)
    (hopen : s'.closed = false) : Track s₀ (bars ++ [bar]) s' := by
  have hos : Ordered s.tick := (h.same.trans (SameTrade.tick s)).ordered ho
  cases hstep with
  | stopped _ => cases hopen
  | timedOut _ _ => cases hopen
  | finished _ _ _ hcl => rw [hcl] at hopen; cases hopen
  | waited _ _ h1 hr =>
      have hr' : ¬ s₀.Reaches bar s₀.tp1 := by
        rw [← Reaches.congr h.same, ← h.same.tp1]; exact hr
      have hr2 : ¬ s₀.Reaches bar s₀.tp2 := mt ho.reaches_tp1 hr'
      have hnone : ¬ ∃ b ∈ bars, s₀.Reaches b s₀.tp1 := by simpa [h1] using h.tp1_iff
      have hnil : sinceTp1 s₀ bars = [] := sinceTp1_eq_nil_iff.mpr hnone
      have hnil' : sinceTp1 s₀ (bars ++ [bar]) = [] := by
        rw [sinceTp1_eq_nil_iff, exists_mem_snoc]
        exact not_or.mpr ⟨hnone, hr'⟩
      refine ⟨h.live.tick, h.same.trans (SameTrade.tick s), ?_, ?_, ?_, ?_⟩
      · rw [exists_mem_snoc, ← h.tp1_iff]; simp [hr', PositionState.tick]
      · rw [exists_mem_snoc, ← h.tp2_iff]; simp [hr2, PositionState.tick]
      · intro b bs hb; rw [hnil'] at hb; cases hb
      · have hs := h.stop
        simp only [stopAfter, hnil, hnil', stageStop, exists_mem_snoc, hr', hr2, or_false] at hs ⊢
        exact hs
  | @trailed s₁ as e _ _ hc hl₁ h1 he =>
      have hsame : SameTrade s₀ s₁ := (h.same.trans (SameTrade.tick s)).trans hc.sameTrade
      have hup : s.bullish = s₀.bullish := h.same.bullish
      obtain ⟨hf1, hf2⟩ := hc.flags h.live.tick hos hl₁
      have hr1 : s.tick.Reaches bar s.tick.tp1 ↔ s₀.Reaches bar s₀.tp1 := by
        rw [← Reaches.congr h.same, ← h.same.tp1]; rfl
      have hr2 : s.tick.Reaches bar s.tick.tp2 ↔ s₀.Reaches bar s₀.tp2 := by
        rw [← Reaches.congr h.same, ← h.same.tp2]; rfl
      have ht1 : s₁.tp1Hit = true ↔ ∃ b ∈ bars ++ [bar], s₀.Reaches b s₀.tp1 := by
        rw [exists_mem_snoc, ← h.tp1_iff, ← hr1]; exact hf1
      have ht2 : s₁.tp2Hit = true ↔ ∃ b ∈ bars ++ [bar], s₀.Reaches b s₀.tp2 := by
        rw [exists_mem_snoc, ← h.tp2_iff, ← hr2]; exact hf2
      have hflag : s₁.flagStop = stageStop s₀ (bars ++ [bar]) := by
        simp only [PositionState.flagStop, stageStop, ht1, ht2, hsame.tp1, hsame.entryPrice,
          hsame.initialStop]
      -- The new extreme and the stop before the ratchet, as the bars have them.
      have key : ∃ b bs, sinceTp1 s₀ (bars ++ [bar]) = b :: bs ∧
          sup s.bullish e (bar.favourable s.bullish) = extremeOf s₀.bullish b bs ∧
          (s₁.currentStop = stageStop s₀ (bars ++ [bar]) ∨
            ∃ x, Le s₀.bullish x (s₀.trailAt (extremeOf s₀.bullish b bs)) ∧
              s₁.currentStop = sup s₀.bullish (stageStop s₀ (bars ++ [bar])) x) := by
        cases hb : sinceTp1 s₀ bars with
        | nil =>
            have hnone : s.tp1Hit = false := by
              have := sinceTp1_eq_nil_iff.mp hb
              rw [← h.tp1_iff] at this
              simpa using this
            have hr : s₀.Reaches bar s₀.tp1 := by
              rcases hf1.mp h1 with hcon | hr
              · rw [show s.tick.tp1Hit = s.tp1Hit from rfl, hnone] at hcon; cases hcon
              · exact hr1.mp hr
            have hext := (hc.extreme h.live.tick hl₁).2 hnone h1
            rw [he, show s.tick.bullish = s.bullish from rfl] at hext
            obtain rfl : e = bar.favourable s.bullish := by simpa using hext
            refine ⟨bar, [], sinceTp1_snoc_of_nil hb hr, ?_, Or.inl ?_⟩
            · rw [sup_eq_left (Le.refl _ _), hup]; rfl
            · rcases hc.stop h.live.tick hl₁ with rfl | hst
              · rw [show s.tick.tp1Hit = s.tp1Hit from rfl, hnone] at h1; cases h1
              · rw [hst, hflag]
        | cons b bs =>
            have hyes : s.tp1Hit = true := by
              rw [h.tp1_iff]
              by_contra hcon
              rw [sinceTp1_eq_nil_iff.mpr hcon] at hb
              cases hb
            have hext := (hc.extreme h.live.tick hl₁).1 hyes
            rw [he, show s.tick.extreme = s.extreme from rfl, h.extreme b bs hb] at hext
            obtain rfl : e = extremeOf s₀.bullish b bs := by simpa using hext
            refine ⟨b, bs ++ [bar], sinceTp1_snoc_of_cons hb, ?_, ?_⟩
            · rw [extremeOf_snoc, hup]
            · rcases hc.stop h.live.tick hl₁ with rfl | hst
              · refine Or.inr ⟨s₀.trailAt (extremeOf s₀.bullish b bs), ?_, ?_⟩
                · rw [extremeOf_snoc]
                  exact back_mono _ le_sup_left
                · have hst := h.stop
                  rw [stopAfter, hb] at hst
                  rw [← hflag, show s.tick.flagStop = s.flagStop from rfl, h.flagStop]
                  exact hst
              · exact Or.inl (hst.trans hflag)
      obtain ⟨b, bs, hsince, hext, hcur⟩ := key
      have hup₁ : s₁.bullish = s₀.bullish := hsame.bullish
      refine ⟨hl₁.ratchet _, hsame.trans (SameTrade.ratchet _ _), ht1, ht2, ?_, ?_⟩
      · intro b' bs' hb'
        rw [hsince] at hb'
        cases hb'
        rw [extreme_ratchet, hext]
      · show sup s₁.bullish s₁.currentStop (s₁.trailAt _) = _
        rw [stopAfter, hsince, hext, hsame.trailAt, hup₁]
        rcases hcur with hcur | ⟨x, hx, hcur⟩
        · rw [hcur]
        · rw [hcur, sup_sup_of_le hx]

end CryptoAggHarmonic.Position
