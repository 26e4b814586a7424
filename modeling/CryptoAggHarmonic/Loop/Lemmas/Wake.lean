import Mathlib.Data.Nat.Find
import CryptoAggHarmonic.Loop.Scheduler

/-!
# The search for an active window

Whether a time is active depends on the hour it lies in, so the search is one over the hours after the current one.
-/

namespace CryptoAggHarmonic.Loop

variable {cfg : SchedulerConfig} {t now wake : Datetime} {n k : ℕ}

/-! ## Hours -/

/-- The hours since the beginning. -/
def Datetime.hours (t : Datetime) : ℕ := t.micros / hourMicros

def Active (cfg : SchedulerConfig) (t : Datetime) : Prop := inQuietHours t cfg = false ∧ isWeekend t cfg = false

instance : Decidable (Active cfg t) := inferInstanceAs (Decidable (_ ∧ _))

/-- Whether the times of an hour are active. -/
def activeHour (cfg : SchedulerConfig) (n : ℕ) : Bool :=
  let h : ℤ := (n % 24 : ℕ)
  let quiet : Bool := if cfg.quietHoursStart < cfg.quietHoursEnd then cfg.quietHoursStart ≤ h ∧ h < cfg.quietHoursEnd
    else h ≥ cfg.quietHoursStart ∨ h < cfg.quietHoursEnd
  let weekend : Bool := if !cfg.weekendSkip then false else n / 24 % 7 ≥ 5
  !quiet && !weekend

theorem hourMicros_pos : 0 < hourMicros := by decide

theorem activeHour_hours (cfg : SchedulerConfig) (t : Datetime) :
    activeHour cfg t.hours = (!inQuietHours t cfg && !isWeekend t cfg) := by
  have hday : t.micros / dayMicros = t.hours / 24 := by
    rw [Datetime.hours, Nat.div_div_eq_div_mul, dayMicros, Nat.mul_comm]
  unfold activeHour inQuietHours isWeekend Datetime.weekday
  rw [hday]
  rfl

theorem active_iff : Active cfg t ↔ activeHour cfg t.hours = true := by
  rw [activeHour_hours, Active]
  simp

theorem add_eq_ok {delta : ℤ} : t.add delta = .ok wake ↔ (wake.micros : ℤ) = t.micros + delta := by
  have hmax := wake.lt_max
  unfold Datetime.add
  split_ifs with h
  · simp only [Except.ok.injEq]
    constructor
    · rintro rfl
      simp only
      omega
    · intro heq
      cases wake
      simp only [Datetime.mk.injEq] at heq ⊢
      omega
  · simp only [false_iff]
    omega

theorem exists_add (t : Datetime) {delta : ℤ} (h0 : 0 ≤ (t.micros : ℤ) + delta)
    (hmax : (t.micros : ℤ) + delta < maxMicros) :
    ∃ wake, t.add delta = .ok wake ∧ (wake.micros : ℤ) = t.micros + delta := by
  refine ⟨⟨((t.micros : ℤ) + delta).toNat, by omega⟩, ?_, by simp only; omega⟩
  rw [add_eq_ok]
  simp only
  omega

/-- The hours of a time some hours on. -/
theorem hours_add {s : Datetime} (h : s.micros = t.micros + k * hourMicros) : s.hours = t.hours + k := by
  rw [Datetime.hours, h, Nat.add_mul_div_right _ _ hourMicros_pos]
  rfl

theorem startOfHour_micros (t : Datetime) : t.startOfHour.micros = t.hours * hourMicros := rfl

theorem micros_lt_succ (t : Datetime) : t.micros < (t.hours + 1) * hourMicros := by
  rw [Nat.add_one_mul]
  exact Nat.lt_div_mul_add hourMicros_pos

theorem hours_mul_le (t : Datetime) : t.hours * hourMicros ≤ t.micros := Nat.div_mul_le_self _ _

theorem hours_of_start (h : wake.micros = n * hourMicros) : wake.hours = n := by
  rw [Datetime.hours, h, Nat.mul_div_cancel _ hourMicros_pos]

theorem hours_lt_of_lt {s : Datetime} (hs : s.micros < wake.micros) (h : wake.micros = n * hourMicros) :
    s.hours < n := by
  rw [Datetime.hours, Nat.div_lt_iff_lt_mul hourMicros_pos]
  omega

theorem hours_mono {s : Datetime} (h : s.micros ≤ t.micros) : s.hours ≤ t.hours := Nat.div_le_div_right h

/-- What counts is the hour the last time is in, since the last year ends with a full hour. -/
theorem lt_max_of_hours (h : now.hours + k ≤ t.hours) : now.micros + k * hourMicros < maxMicros := by
  have hmax : maxMicros = 3652059 * 24 * hourMicros := by rw [maxMicros, dayMicros, Nat.mul_assoc]
  have ht : t.hours < 3652059 * 24 := by
    rw [Datetime.hours, Nat.div_lt_iff_lt_mul hourMicros_pos, ← hmax]
    exact t.lt_max
  have hnow := micros_lt_succ now
  have hmul : (now.hours + 1 + k) * hourMicros ≤ 3652059 * 24 * hourMicros := Nat.mul_le_mul_right _ (by omega)
  rw [Nat.add_mul] at hmul
  omega

/-! ## The search -/

/-- The first active hour after the current one, within the 48 the search looks at. -/
structure NextWindow (cfg : SchedulerConfig) (now : Datetime) (k : ℕ) : Prop where
  one_le : 1 ≤ k
  le : k ≤ 48
  inRange : now.micros + k * hourMicros < maxMicros
  active : activeHour cfg (now.hours + k) = true
  first : ∀ j, 1 ≤ j → j < k → activeHour cfg (now.hours + j) = false

/-- One step of the search: the next hour, or the search from there on. -/
theorem searchWindow_succ {s : Datetime} (hs : s.micros = t.micros + hourMicros) :
    searchWindow cfg (n + 1) t =
      if activeHour cfg (t.hours + 1) then .ok (some s.startOfHour) else searchWindow cfg n s := by
  have hadd : t.add hourMicros = .ok s := by
    rw [add_eq_ok]
    omega
  have hhours : s.hours = t.hours + 1 := hours_add (by omega)
  rw [searchWindow, hadd, ← hhours, activeHour_hours]
  rfl

theorem searchWindow_overflow (h : maxMicros ≤ t.micros + hourMicros) :
    searchWindow cfg (n + 1) t = .error .overflowError := by
  have hadd : t.add hourMicros = .error .overflowError := by
    unfold Datetime.add
    exact dif_neg (by omega)
  rw [searchWindow, hadd]
  rfl

theorem searchWindow_found (hone : 1 ≤ k) (hle : k ≤ n) (hrange : t.micros + k * hourMicros < maxMicros)
    (hactive : activeHour cfg (t.hours + k) = true)
    (hfirst : ∀ j, 1 ≤ j → j < k → activeHour cfg (t.hours + j) = false) :
    ∃ w, searchWindow cfg n t = .ok (some w) ∧ w.micros = (t.hours + k) * hourMicros := by
  induction n generalizing t k with
  | zero => omega
  | succ n ih =>
      have hnext : t.micros + hourMicros < maxMicros := by
        have := Nat.le_mul_of_pos_left hourMicros hone
        omega
      obtain ⟨s, hs⟩ : ∃ s : Datetime, s.micros = t.micros + hourMicros := ⟨⟨_, hnext⟩, rfl⟩
      have hhours : s.hours = t.hours + 1 := hours_add (by omega)
      rw [searchWindow_succ hs]
      by_cases hk : k = 1
      · subst hk
        rw [if_pos hactive]
        exact ⟨_, rfl, by rw [startOfHour_micros, hhours]⟩
      · have hsplit : k * hourMicros = hourMicros + (k - 1) * hourMicros := by
          obtain ⟨m, rfl⟩ : ∃ m, k = m + 1 := ⟨k - 1, by omega⟩
          rw [Nat.add_sub_cancel, Nat.add_one_mul, Nat.add_comm]
        have hshift (j : ℕ) : s.hours + j = t.hours + (j + 1) := by omega
        rw [if_neg (by rw [hfirst 1 (le_refl 1) (by omega)]; exact Bool.false_ne_true)]
        obtain ⟨w, hw, hmicros⟩ := ih (t := s) (k := k - 1) (by omega) (by omega) (by omega)
          (by rw [hshift, Nat.sub_add_cancel hone]; exact hactive)
          (fun j hj hlt => by rw [hshift]; exact hfirst (j + 1) (by omega) (by omega))
        exact ⟨w, hw, by rw [hmicros, hshift, Nat.sub_add_cancel hone]⟩

/-- What a search comes to that does not run over the end of time. -/
theorem searchWindow_cases {r : Option Datetime} (h : searchWindow cfg n t = .ok r) :
    (∃ k w, r = some w ∧ 1 ≤ k ∧ k ≤ n ∧ t.micros + k * hourMicros < maxMicros ∧
      activeHour cfg (t.hours + k) = true ∧ ∀ j, 1 ≤ j → j < k → activeHour cfg (t.hours + j) = false) ∨
    (r = none ∧ ∀ j, 1 ≤ j → j ≤ n → activeHour cfg (t.hours + j) = false) := by
  induction n generalizing t with
  | zero =>
      cases h
      exact Or.inr ⟨rfl, fun j hj hle => by omega⟩
  | succ n ih =>
      rcases lt_or_ge (t.micros + hourMicros) maxMicros with hnext | hover
      · obtain ⟨s, hs⟩ : ∃ s : Datetime, s.micros = t.micros + hourMicros := ⟨⟨_, hnext⟩, rfl⟩
        have hhours : s.hours = t.hours + 1 := hours_add (by omega)
        rw [searchWindow_succ hs] at h
        cases hactive : activeHour cfg (t.hours + 1) with
        | true =>
            rw [if_pos hactive] at h
            cases h
            exact Or.inl ⟨1, _, rfl, le_refl 1, by omega, by omega, hactive, fun j hj hlt => by omega⟩
        | false =>
            rw [hactive, if_neg Bool.false_ne_true] at h
            have hshift (j : ℕ) : s.hours + j = t.hours + (j + 1) := by omega
            have hbefore {m : ℕ} (hm : ∀ j, 1 ≤ j → j < m → activeHour cfg (s.hours + j) = false) :
                ∀ j, 1 ≤ j → j < m + 1 → activeHour cfg (t.hours + j) = false := by
              intro j hj hlt
              by_cases h1 : j = 1
              · rw [h1]
                exact hactive
              · have := hm (j - 1) (by omega) (by omega)
                rwa [hshift, Nat.sub_add_cancel hj] at this
            rcases ih h with ⟨k, w, hr, hone, hle, hrange, hk, hfirst⟩ | ⟨hr, hnone⟩
            · refine Or.inl ⟨k + 1, w, hr, by omega, by omega, ?_, by rwa [← hshift], hbefore hfirst⟩
              rw [Nat.add_one_mul]
              omega
            · refine Or.inr ⟨hr, fun j hj hle => ?_⟩
              exact hbefore (m := n + 1) (fun j hj hlt => hnone j hj (by omega)) j hj (by omega)
      · rw [searchWindow_overflow hover] at h
        cases h

@[simp] theorem WakeError.ok_bind {α β : Type} (a : α) (f : α → Except WakeError β) :
    ((.ok a : Except WakeError α) >>= f) = f a := rfl

theorem nextActiveWindow_some (h : searchWindow cfg 48 now = .ok (some wake)) :
    nextActiveWindow now cfg = .ok wake := by
  rw [nextActiveWindow, h]
  rfl

theorem nextActiveWindow_none (h : searchWindow cfg 48 now = .ok none) :
    nextActiveWindow now cfg = now.add (24 * hourMicros) := by
  rw [nextActiveWindow, h, WakeError.ok_bind]

theorem nextActiveWindow_error {e : WakeError} (h : searchWindow cfg 48 now = .error e) :
    nextActiveWindow now cfg = .error e := by
  rw [nextActiveWindow, h]
  rfl

theorem nextActiveWindow_found (h : NextWindow cfg now k) :
    ∃ w, nextActiveWindow now cfg = .ok w ∧ w.micros = (now.hours + k) * hourMicros := by
  obtain ⟨w, hw, hmicros⟩ := searchWindow_found h.one_le h.le h.inRange h.active h.first
  exact ⟨w, nextActiveWindow_some hw, hmicros⟩

/-- The window of the search, or 24 hours on when all 48 hours are inactive. -/
theorem nextActiveWindow_cases (h : nextActiveWindow now cfg = .ok wake) :
    (∃ k, NextWindow cfg now k) ∨
      ((∀ j, 1 ≤ j → j ≤ 48 → activeHour cfg (now.hours + j) = false) ∧
        (wake.micros : ℤ) = now.micros + 24 * hourMicros) := by
  cases hsearch : searchWindow cfg 48 now with
  | error e =>
      rw [nextActiveWindow_error hsearch] at h
      cases h
  | ok r =>
      rcases searchWindow_cases hsearch with ⟨k, w, -, hone, hle, hrange, hk, hfirst⟩ | ⟨rfl, hnone⟩
      · exact Or.inl ⟨k, hone, hle, hrange, hk, hfirst⟩
      · rw [nextActiveWindow_none hsearch, add_eq_ok] at h
        exact Or.inr ⟨hnone, h⟩

theorem NextWindow.unique {j : ℕ} (hj : NextWindow cfg now j) (hk : NextWindow cfg now k) : j = k := by
  rcases lt_trichotomy j k with hlt | heq | hgt
  · have := hk.first j hj.one_le hlt
    rw [hj.active] at this
    cases this
  · exact heq
  · have := hj.first k hk.one_le hgt
    rw [hk.active] at this
    cases this

theorem exists_nextWindow {t : Datetime} (hactive : Active cfg t) (hlt : now.hours < t.hours)
    (hle : t.hours ≤ now.hours + 48) : ∃ k, NextWindow cfg now k := by
  have hex : ∃ k, 1 ≤ k ∧ activeHour cfg (now.hours + k) = true := by
    refine ⟨t.hours - now.hours, by omega, ?_⟩
    rw [Nat.add_sub_cancel' hlt.le]
    exact active_iff.mp hactive
  obtain ⟨hone, hk⟩ := Nat.find_spec hex
  have hmin : Nat.find hex ≤ t.hours - now.hours := by
    refine Nat.find_min' hex ⟨by omega, ?_⟩
    rw [Nat.add_sub_cancel' hlt.le]
    exact active_iff.mp hactive
  refine ⟨Nat.find hex, hone, by omega, ?_, hk, fun j hj hj' => ?_⟩
  · exact lt_max_of_hours (t := t) (by omega)
  · have hnot := Nat.find_min hex hj'
    rw [← Bool.not_eq_true]
    exact fun h => hnot ⟨hj, h⟩

/-- Where weekends count as well, what is active on one day is active within 24 hours. -/
theorem exists_active_within {s : Datetime} (hskip : cfg.weekendSkip = false) (hactive : Active cfg s)
    (hrange : now.micros + 24 * hourMicros < maxMicros) :
    ∃ t, Active cfg t ∧ now.hours < t.hours ∧ t.hours ≤ now.hours + 48 := by
  have hmod (n : ℕ) : activeHour cfg n = activeHour cfg (n % 24) := by
    simp [activeHour, hskip]
  obtain ⟨k, hone, hle, hk⟩ : ∃ k, 1 ≤ k ∧ k ≤ 24 ∧ (now.hours + k) % 24 = s.hours % 24 :=
    ⟨(s.hours % 24 + 23 - now.hours % 24) % 24 + 1, by omega, by omega, by omega⟩
  have hmul : k * hourMicros ≤ 24 * hourMicros := Nat.mul_le_mul_right _ hle
  obtain ⟨t, ht⟩ : ∃ t : Datetime, t.micros = now.micros + k * hourMicros := ⟨⟨_, by omega⟩, rfl⟩
  have hhours : t.hours = now.hours + k := hours_add ht
  refine ⟨t, ?_, by omega, by omega⟩
  rw [active_iff, hhours, hmod, hk, ← hmod]
  exact active_iff.mp hactive

/-! ## What is waited for -/

/-- `wake` is where the first active hour after the one of `now` begins. -/
structure OpensWindow (cfg : SchedulerConfig) (now wake : Datetime) : Prop where
  later : now.micros < wake.micros
  active : Active cfg wake
  start : wake.startOfHour = wake
  first : ∀ t, now.micros < t.micros → t.micros < wake.micros → Active cfg t → t.hours = now.hours

/-- An inactive time and an active one after it lie before `wake`. -/
def PastQuiet (cfg : SchedulerConfig) (now wake : Datetime) : Prop :=
  ∃ q e, now.micros < q.micros ∧ q.micros < e.micros ∧ e.micros ≤ wake.micros ∧ ¬ Active cfg q ∧ Active cfg e

theorem NextWindow.opens (h : NextWindow cfg now k) (hwake : wake.micros = (now.hours + k) * hourMicros) :
    OpensWindow cfg now wake where
  later := by
    have hone := h.one_le
    have hmul : (now.hours + 1) * hourMicros ≤ (now.hours + k) * hourMicros := Nat.mul_le_mul_right _ (by omega)
    have := micros_lt_succ now
    omega
  active := by
    rw [active_iff, hours_of_start hwake]
    exact h.active
  start := by
    have hmicros : wake.startOfHour.micros = wake.micros := by
      rw [startOfHour_micros, hours_of_start hwake, hwake]
    cases hs : wake.startOfHour
    cases wake
    rw [hs] at hmicros
    cases hmicros
    rfl
  first := by
    intro t hnow ht hactive
    have hlt := hours_lt_of_lt ht hwake
    have hle := hours_mono hnow.le
    by_contra hne
    have := h.first (t.hours - now.hours) (by omega) (by omega)
    rw [Nat.add_sub_cancel' hle, active_iff.mp hactive] at this
    cases this

/-- Waiting for the window goes past a quiet time exactly when the next hour is one. -/
theorem NextWindow.pastQuiet_iff (h : NextWindow cfg now k) (hwake : wake.micros = (now.hours + k) * hourMicros)
    (hnow : Active cfg now) : PastQuiet cfg now wake ↔ activeHour cfg (now.hours + 1) = false := by
  constructor
  · rintro ⟨q, e, hq, hqe, he, hquiet, hactive⟩
    have hne : q.hours ≠ now.hours := by
      intro heq
      rw [active_iff, heq, ← active_iff] at hquiet
      exact hquiet hnow
    have hle := hours_mono hq.le
    have hlt := hours_lt_of_lt (by omega : q.micros < wake.micros) hwake
    exact h.first 1 (le_refl 1) (by omega)
  · intro hnext
    have hk : k ≠ 1 := by
      rintro rfl
      rw [h.active] at hnext
      cases hnext
    have hone := h.one_le
    have hmul : (now.hours + 1) * hourMicros + hourMicros ≤ (now.hours + k) * hourMicros := by
      rw [← Nat.add_one_mul]
      exact Nat.mul_le_mul_right _ (by omega)
    have hpos := hourMicros_pos
    have hmax := wake.lt_max
    obtain ⟨q, hq⟩ : ∃ q : Datetime, q.micros = (now.hours + 1) * hourMicros := ⟨⟨_, by omega⟩, rfl⟩
    refine ⟨q, wake, ?_, by omega, le_refl _, ?_, (h.opens hwake).active⟩
    · rw [hq]
      exact micros_lt_succ now
    · rw [active_iff, hours_of_start hq, hnext]
      exact Bool.false_ne_true

/-- Within the 48 hours that are all inactive nothing active comes after a quiet time. -/
theorem not_pastQuiet (hnone : ∀ j, 1 ≤ j → j ≤ 48 → activeHour cfg (now.hours + j) = false)
    (hnow : Active cfg now) (hwake : wake.hours ≤ now.hours + 48) : ¬ PastQuiet cfg now wake := by
  rintro ⟨q, e, hq, hqe, he, hquiet, hactive⟩
  have hqh := hours_mono hq.le
  have hqeh := hours_mono hqe.le
  have heh := hours_mono he
  have hne : q.hours ≠ now.hours := by
    intro heq
    rw [active_iff, heq, ← active_iff] at hquiet
    exact hquiet hnow
  have := hnone (e.hours - now.hours) (by omega) (by omega)
  rw [Nat.add_sub_cancel' (hqh.trans hqeh), active_iff.mp hactive] at this
  cases this

/-! ## The branches -/

section
variable {Stamp : Type} (fromTimestamp : Stamp → Option Datetime) {now : Datetime} {cfg : SchedulerConfig}
  {history : Option (List (StampedLine Stamp))} {pending : Bool} {plateau : ℕ} {age : Option ℤ}

/-- The count of the generations of a history. -/
abbrev Plateaus (history : Option (List (StampedLine Stamp))) (plateau : ℕ) : Prop :=
  plateauCountFromHistory (history.map fun lines => lines.map StampedLine.line) = .ok plateau

/-- `next_wake_at` goes to the next active window. -/
def BacksOff (cfg : SchedulerConfig) (now : Datetime) (pending : Bool) (plateau : ℕ) : Prop :=
  ¬ Active cfg now ∨ pending = false ∧ cfg.plateauBackoffGens ≤ plateau

theorem quiet_or_weekend : (inQuietHours now cfg || isWeekend now cfg) = true ↔ ¬ Active cfg now := by
  rw [Active]
  cases inQuietHours now cfg <;> cases isWeekend now cfg <;> simp

theorem nextWakeAt_backsOff (hplateau : Plateaus history plateau) (hoff : BacksOff cfg now pending plateau) :
    ∃ reason, nextWakeAt fromTimestamp now cfg history pending =
      (⟨·, reason, plateau, none⟩) <$> nextActiveWindow now cfg := by
  unfold nextWakeAt
  rw [hplateau]
  simp only [Except.mapError, WakeError.ok_bind, bind_pure_comp]
  by_cases hactive : Active cfg now
  · obtain ⟨hpending, hgens⟩ := hoff.resolve_left (not_not.mpr hactive)
    rw [if_neg (quiet_or_weekend.not.mpr (not_not.mpr hactive)), hpending, if_neg Bool.false_ne_true, if_pos hgens]
    exact ⟨_, rfl⟩
  · rw [if_pos (quiet_or_weekend.mpr hactive)]
    exact ⟨_, rfl⟩

theorem nextWakeAt_pending (hplateau : Plateaus history plateau) (hactive : Active cfg now) :
    nextWakeAt fromTimestamp now cfg history true =
      (⟨·, "operator action pending in NEXT_QUEUE.md", plateau, none⟩) <$> now.add (5 * minuteMicros) := by
  unfold nextWakeAt
  rw [hplateau]
  simp only [Except.mapError, WakeError.ok_bind, bind_pure_comp]
  rw [if_neg (quiet_or_weekend.not.mpr (not_not.mpr hactive)), if_pos trivial]

theorem nextWakeAt_idle {fromTimestamp : Stamp → Option Datetime} (hplateau : Plateaus history plateau)
    (hactive : Active cfg now) (hgens : (plateau : ℤ) < cfg.plateauBackoffGens)
    (hage : lastImprovementAge fromTimestamp now history = .ok age) :
    nextWakeAt fromTimestamp now cfg history false =
      (⟨·, idleReason cfg age, plateau, age.map fun age => (age : ℚ) / hourMicros⟩) <$>
        now.add (idleDelay cfg age) := by
  unfold nextWakeAt
  rw [hplateau]
  simp only [Except.mapError, WakeError.ok_bind, bind_pure_comp]
  rw [if_neg (quiet_or_weekend.not.mpr (not_not.mpr hactive)), if_neg Bool.false_ne_true, if_neg (by omega), hage,
    WakeError.ok_bind]
end

end CryptoAggHarmonic.Loop
