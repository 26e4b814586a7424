import CryptoAggHarmonic.FtStrategy.Promotion

/-!
# What each item of the gate asks, and that a better candidate is not refused
-/

namespace CryptoAggHarmonic.FtStrategy

variable {c c' : PromotionCandidate} {ctx : PromotionContext} {values before after : List PyFloat} {x y : PyFloat}
  {floor : ℚ}

/-! ## The worst value across the regimes -/

/-- Every value is at the floor or above, or a NaN that is not the first value. -/
def Clears (values : List PyFloat) (floor : ℚ) : Prop :=
  (∃ x ∈ values.head?, x ≠ .nan) ∧ ∀ x ∈ values, x = .nan ∨ x.ge (.finite floor)

theorem foldl_min_ge (x : PyFloat) :
    (values.foldl (fun least y => if least.gt y then y else least) x).ge (.finite floor) ↔
      x.ge (.finite floor) ∧ ∀ y ∈ values, y = .nan ∨ y.ge (.finite floor) := by
  induction values generalizing x with
  | nil => simp
  | cons y ys ih =>
      simp only [List.foldl_cons, ih, List.forall_mem_cons]
      by_cases hgt : x.gt y
      · -- The new least value is under the old one.
        have hge := PyFloat.ge_of_gt hgt
        simp only [hgt, if_true, (PyFloat.ne_nan_of_gt hgt).2, false_or]
        constructor
        · rintro ⟨hy, hys⟩
          exact ⟨PyFloat.ge_trans hge hy, hy, hys⟩
        · rintro ⟨-, hy, hys⟩
          exact ⟨hy, hys⟩
      · simp only [hgt, Bool.false_eq_true, if_false]
        constructor
        · rintro ⟨hx, hys⟩
          refine ⟨hx, ?_, hys⟩
          by_cases hnan : y = .nan
          · exact Or.inl hnan
          · have hxnan : x ≠ .nan := by
              rintro rfl
              cases hx
            have hyx : y.ge x := by
              simpa [PyFloat.gt_iff_not_ge hxnan hnan] using hgt
            exact Or.inr (PyFloat.ge_trans hyx hx)
        · rintro ⟨hx, -, hys⟩
          exact ⟨hx, hys⟩

theorem robustMin_passed {label metric : String} :
    (robustMin label metric values floor).passed ↔ Clears values floor := by
  cases values with
  | nil => simp [robustMin, pyMin, Clears]
  | cons x xs =>
      simp only [robustMin, pyMin, foldl_min_ge, Clears, List.head?_cons, Option.mem_def, Option.some.injEq,
        exists_eq_left', List.forall_mem_cons]
      constructor
      · rintro ⟨hx, hxs⟩
        refine ⟨?_, Or.inr hx, hxs⟩
        rintro rfl
        cases hx
      · rintro ⟨hnan, hx, hxs⟩
        exact ⟨hx.resolve_left hnan, hxs⟩

/-- A larger value in the place of one keeps the floor. -/
theorem Clears.improve (h : Clears (before ++ x :: after) floor) (hgt : y.gt x) :
    Clears (before ++ y :: after) floor := by
  obtain ⟨hy, hx⟩ := PyFloat.ne_nan_of_gt hgt
  obtain ⟨hhead, hall⟩ := h
  have hge := PyFloat.ge_of_gt hgt
  constructor
  · cases before with
    | nil => simpa using hy
    | cons b bs => simpa using hhead
  · intro z hz
    rcases List.mem_append.mp hz with hz | hz
    · exact hall z (by simp [hz])
    · rcases List.mem_cons.mp hz with rfl | hz
      · have hfloor := (hall x (by simp)).resolve_left hx
        exact Or.inr (PyFloat.ge_trans hge hfloor)
      · exact hall z (by simp [hz])

/-! ## The gate -/

/-- What the nine items ask. -/
structure Passes (c : PromotionCandidate) (ctx : PromotionContext) : Prop where
  sharpe : Clears (c.perTimerange.map PerTimerangeResult.sharpe) ctx.robustSharpeMin
  calmar : Clears (c.perTimerange.map PerTimerangeResult.calmar) ctx.robustCalmarMin
  drawdown : (PyFloat.finite (drawdownMultiplier * ctx.baselineDrawdown)).ge c.maxDd
  profit : c.profitPct.ge (.finite ctx.profitFloor)
  trades : ctx.minPositionSize ≤ c.trades
  shape : paretoDominated (c.sharpe, c.calmar, c.maxDd.neg, c.winRate) ctx.priorKeepShapes = false
  shadow : c.shadowObserved
  report : c.hasFinalReport
  crash : c.openCrashInWindowDays = 0

theorem ok_iff_passes : (checkPromotionV3 c ctx).ok ↔ Passes c ctx := by
  rw [checkPromotionV3_ok]
  simp only [checkPromotionV3, List.forall_mem_cons, List.not_mem_nil, false_implies,
    implies_true, and_true, robustSharpeItem, robustCalmarItem, robustMin_passed, maxDrawdownItem, profitFloorItem,
    minPositionSizeItem, notParetoDominatedItem, shadowObservedItem, reportReferencedItem, noOpenCrashItem,
    Bool.not_eq_true', decide_eq_true_eq, ge_iff_le]
  constructor
  · rintro ⟨hsharpe, hcalmar, hdd, hprofit, htrades, hshape, hshadow, hreport, hcrash⟩
    exact ⟨hsharpe, hcalmar, hdd, hprofit, htrades, hshape, hshadow, hreport, hcrash⟩
  · rintro ⟨hsharpe, hcalmar, hdd, hprofit, htrades, hshape, hshadow, hreport, hcrash⟩
    exact ⟨hsharpe, hcalmar, hdd, hprofit, htrades, hshape, hshadow, hreport, hcrash⟩

/-! ## A better candidate -/

/-- One metric of the candidate gets better. -/
inductive Improves : PromotionCandidate → PromotionCandidate → Prop
  | sharpe (c : PromotionCandidate) (x : PyFloat) : x.gt c.sharpe → Improves c { c with sharpe := x }
  | calmar (c : PromotionCandidate) (x : PyFloat) : x.gt c.calmar → Improves c { c with calmar := x }
  | maxDd (c : PromotionCandidate) (x : PyFloat) : c.maxDd.gt x → Improves c { c with maxDd := x }
  | winRate (c : PromotionCandidate) (x : PyFloat) : x.gt c.winRate → Improves c { c with winRate := x }
  | profitPct (c : PromotionCandidate) (x : PyFloat) : x.gt c.profitPct → Improves c { c with profitPct := x }
  | trades (c : PromotionCandidate) (n : ℤ) : c.trades < n → Improves c { c with trades := n }
  | rowSharpe (c : PromotionCandidate) (before after : List PerTimerangeResult) (row : PerTimerangeResult)
      (x : PyFloat) : c.perTimerange = before ++ row :: after → x.gt row.sharpe →
      Improves c { c with perTimerange := before ++ { row with sharpe := x } :: after }
  | rowMaxDd (c : PromotionCandidate) (before after : List PerTimerangeResult) (row : PerTimerangeResult)
      (x : PyFloat) : c.perTimerange = before ++ row :: after → row.maxDd.gt x →
      Improves c { c with perTimerange := before ++ { row with maxDd := x } :: after }
  | rowCalmar (c : PromotionCandidate) (before after : List PerTimerangeResult) (row : PerTimerangeResult)
      (x : PyFloat) : c.perTimerange = before ++ row :: after → x.gt row.calmar →
      Improves c { c with perTimerange := before ++ { row with calmar := x } :: after }
  | openCrashes (c : PromotionCandidate) (n : ℕ) : n < c.openCrashInWindowDays →
      Improves c { c with openCrashInWindowDays := n }

theorem ge_of_up {p : PyFloat} (hup : y = x ∨ y.gt x) (h : p.ge y) : p.ge x := by
  rcases hup with rfl | hgt
  · exact h
  · exact PyFloat.ge_trans h (PyFloat.ge_of_gt hgt)

theorem gt_of_up {p : PyFloat} (hup : y = x ∨ y.gt x) (h : p.gt y) : p.gt x := by
  rcases hup with rfl | hgt
  · exact h
  · exact PyFloat.gt_trans h hgt

/-- A prior keep that dominates the better shape dominates the other one too. -/
theorem paretoDominated_up {s k d w s' k' d' w' : PyFloat} {priors : List (PyFloat × PyFloat × PyFloat × PyFloat)}
    (hs : s' = s ∨ s'.gt s) (hk : k' = k ∨ k'.gt k) (hd : d' = d ∨ d'.gt d) (hw : w' = w ∨ w'.gt w)
    (h : paretoDominated (s, k, d, w) priors = false) : paretoDominated (s', k', d', w') priors = false := by
  simp only [paretoDominated, List.any_eq_false, Bool.and_eq_true, not_and] at h ⊢
  rintro ⟨ps, pk, pd, pw⟩ hprior hge hgt
  simp only [Loop.allGe, Loop.anyGt, Bool.and_eq_true, Bool.or_eq_true] at hge hgt
  obtain ⟨⟨⟨hs', hk'⟩, hd'⟩, hw'⟩ := hge
  refine h ⟨ps, pk, pd, pw⟩ hprior ?_ ?_
  · simp only [Loop.allGe, Bool.and_eq_true]
    exact ⟨⟨⟨ge_of_up hs hs', ge_of_up hk hk'⟩, ge_of_up hd hd'⟩, ge_of_up hw hw'⟩
  · simp only [Loop.anyGt, Bool.or_eq_true]
    rcases hgt with ((hgt | hgt) | hgt) | hgt
    · exact Or.inl (Or.inl (Or.inl (gt_of_up hs hgt)))
    · exact Or.inl (Or.inl (Or.inr (gt_of_up hk hgt)))
    · exact Or.inl (Or.inr (gt_of_up hd hgt))
    · exact Or.inr (gt_of_up hw hgt)

/-- **The gate is monotone**: no metric that gets better closes it. -/
theorem Passes.improve (h : Passes c ctx) (hbetter : Improves c c') : Passes c' ctx := by
  cases hbetter with
  | sharpe x hgt =>
      exact { h with shape := paretoDominated_up (Or.inr hgt) (Or.inl rfl) (Or.inl rfl) (Or.inl rfl) h.shape }
  | calmar x hgt =>
      exact { h with shape := paretoDominated_up (Or.inl rfl) (Or.inr hgt) (Or.inl rfl) (Or.inl rfl) h.shape }
  | maxDd x hgt =>
      have hneg : x.neg.gt c.maxDd.neg := by rwa [PyFloat.neg_gt_neg]
      exact { h with
        drawdown := PyFloat.ge_trans h.drawdown (PyFloat.ge_of_gt hgt)
        shape := paretoDominated_up (Or.inl rfl) (Or.inl rfl) (Or.inr hneg) (Or.inl rfl) h.shape }
  | winRate x hgt =>
      exact { h with shape := paretoDominated_up (Or.inl rfl) (Or.inl rfl) (Or.inl rfl) (Or.inr hgt) h.shape }
  | profitPct x hgt => exact { h with profit := PyFloat.ge_trans (PyFloat.ge_of_gt hgt) h.profit }
  | trades n hlt => exact { h with trades := h.trades.trans hlt.le }
  | rowSharpe before after row x hrows hgt =>
      have hsharpe := h.sharpe
      have hcalmar := h.calmar
      simp only [hrows, List.map_append, List.map_cons] at hsharpe hcalmar
      exact { h with
        sharpe := by simpa only [List.map_append, List.map_cons] using hsharpe.improve hgt
        calmar := by simpa only [List.map_append, List.map_cons] using hcalmar }
  | rowMaxDd before after row x hrows hgt =>
      have hsharpe := h.sharpe
      have hcalmar := h.calmar
      simp only [hrows, List.map_append, List.map_cons] at hsharpe hcalmar
      exact { h with
        sharpe := by simpa only [List.map_append, List.map_cons] using hsharpe
        calmar := by simpa only [List.map_append, List.map_cons] using hcalmar }
  | rowCalmar before after row x hrows hgt =>
      have hsharpe := h.sharpe
      have hcalmar := h.calmar
      simp only [hrows, List.map_append, List.map_cons] at hsharpe hcalmar
      exact { h with
        sharpe := by simpa only [List.map_append, List.map_cons] using hsharpe
        calmar := by simpa only [List.map_append, List.map_cons] using hcalmar.improve hgt }
  | openCrashes n hlt =>
      have hcrash := h.crash
      omega

end CryptoAggHarmonic.FtStrategy
