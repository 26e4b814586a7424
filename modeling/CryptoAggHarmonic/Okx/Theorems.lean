import CryptoAggHarmonic.Okx.Lemmas.Audit
import CryptoAggHarmonic.Okx.Lemmas.Pipe
import CryptoAggHarmonic.Okx.Translator

/-!
# The audit of the exchange writes, and whose answer a call returns

Which runs of the executor leave one record for every dispatch, and over which outputs of the server every call gets
the answer to its own request.
-/

namespace CryptoAggHarmonic.Okx

/-- **The audit**: in a run every dispatch is audited, under the cap, exactly when every dispatch meets the condition in
the state it starts from. -/
theorem audited_run_iff (repr : PyValue → String) (ex : Executor) (s : State) (is : List Step) :
    AllAudited repr ex s is ∧ Capped repr ex s is ↔
      Steps.Along (step repr ex) (fun s i => ∀ d, i = .dispatch d → Meets repr ex s d) s is := by
  have hcap := capped repr ex s is
  simp only [AllAudited, Steps.along_iff, audited_iff, hcap, and_true]

/-- An order that the server has taken and answers too late. -/
def lateOrder : Dispatch where
  tool := "spot_place_order"
  args := .dict [("instId", .str "BTC-USDT"), ("clOrdId", .str "a1")]
  first := .timeout
  built := 0
  ensured := 0
  named := 0

/-- The order has reached the server and there is no record of it. -/
theorem lateOrder_unaudited : Reaches (fun _ => "") {} {} lateOrder ∧
    ¬ (AllAudited (fun _ => "") {} {} [.dispatch lateOrder] ∧ Capped (fun _ => "") {} {} [.dispatch lateOrder]) := by
  have hreach : Reaches (fun _ => "") {} {} lateOrder := by
    have hopen : ¬ Gated {} lateOrder := by decide
    unfold Reaches
    rw [dispatch_open hopen, send_client]
    exact invokeTool_sent (by decide) _ _ _ rfl rfl
  refine ⟨hreach, fun h => ?_⟩
  obtain ⟨date, record, hlines, -⟩ := (h.1.1 lateOrder rfl).1 hreach
  cases hlines

/-! ## Whose answer a call returns -/

/-- **Correlation**: every call gets its own answer exactly when, at every call that finds something to read, nothing
but punctual answers has come before and the next line is the answer to the call. -/
theorem correlated_iff (uuid : ℕ → String) (turns : List Turn) (h : WellFormed turns) :
    Correlated uuid turns ↔ InStep turns := by
  constructor
  · rintro hown before t after rfl hready
    have hanswers : AnswersRequests before := fun b u a hb => h.answers b u (a ++ t :: after) (by rw [hb]; simp)
    have hbefore : Correlated uuid before := fun b u a hb => hown b u (a ++ t :: after) (by rw [hb]; simp)
    obtain ⟨-, m, hm, hsplit⟩ | ⟨hnot, -⟩ := receive_spec (received before) t
    · have hid := (hown before t after rfl).1 m hm
      have hwaiting := waiting_eq_nil hanswers hid hsplit
      rw [hwaiting, List.nil_append] at hsplit
      refine ⟨hbefore.punctual hanswers hwaiting, ?_⟩
      cases m with
      | notification method => cases hid
      | response id payload =>
          cases hid
          exact ⟨payload, _, hsplit⟩
    · exact absurd hready hnot
  · rintro hstep before t after rfl
    have hanswers : AnswersRequests before := fun b u a hb => h.answers b u (a ++ t :: after) (by rw [hb]; simp)
    -- what is read is the head of what arrives, since nothing waits
    have hread : ∀ m, ((received before).receive t).2 = .message m → ∃ payload rest,
        m = .response before.length payload ∧ t.arrived = .response before.length payload :: rest := by
      intro m hm
      obtain ⟨hpunctual, payload, rest, harrived⟩ := hstep before t after rfl (receive_message_iff.mp ⟨m, hm⟩)
      rcases receive_spec (received before) t with ⟨-, m', hm', hsplit⟩ | ⟨-, hnone, -⟩
      · rw [hpunctual.waiting hanswers, List.nil_append, harrived] at hsplit
        rw [hm', Answer.message.injEq] at hm
        exact ⟨payload, rest, by rw [← hm, (List.cons.inj hsplit).1], harrived⟩
      · exact absurd hm (hnone m)
    constructor
    · intro m hm
      obtain ⟨payload, rest, rfl, -⟩ := hread m hm
      rfl
    · intro payload hmem
      have hready : (received before).ready t :=
        ⟨h.answers.unbroken hmem, Or.inl (by simp [List.ne_nil_of_mem hmem])⟩
      obtain ⟨m, hm⟩ := receive_message_iff.mpr hready
      obtain ⟨payload', rest, rfl, harrived⟩ := hread m hm
      rw [call, hm, result_response, h.payload_unique (by simp) harrived hmem]

/-- The acknowledgement of the order with this id. -/
def acknowledged (clOrdId : String) : Json := ⟨.dict [("code", .str "0"), ("clOrdId", .str clOrdId)], rfl⟩

/-- Two orders, each answered in time, after what comes before the first answer. -/
def twoOrders (first : List Message) : List Turn :=
  [{ arrived := first ++ [.response 0 (.ok (acknowledged "a1"))], taken := 1 },
    { arrived := [.response 1 (.ok (acknowledged "a2"))] }]

theorem twoOrders_splits {first : List Message} {Q : List Turn → Turn → Prop}
    (h₀ : Q [] { arrived := first ++ [.response 0 (.ok (acknowledged "a1"))], taken := 1 })
    (h₁ : Q [{ arrived := first ++ [.response 0 (.ok (acknowledged "a1"))], taken := 1 }]
      { arrived := [.response 1 (.ok (acknowledged "a2"))] }) :
    ∀ before t after, twoOrders first = before ++ t :: after → Q before t := by
  intro before t after hsplit
  rcases before with _ | ⟨b, _ | ⟨b', before⟩⟩
  · cases hsplit
    exact h₀
  · cases hsplit
    exact h₁
  · simp [twoOrders] at hsplit

theorem twoOrders_wellFormed {first : List Message} (h : ∀ m ∈ first, m.id? = none) :
    WellFormed (twoOrders first) where
  answers := twoOrders_splits
    (by
      intro id payload hmem
      rcases List.mem_append.mp hmem with hfirst | hlast
      · cases h _ hfirst
      · cases List.mem_singleton.mp hlast
        exact ⟨[], _, [], rfl, rfl, rfl⟩)
    (by
      intro id payload hmem
      cases List.mem_singleton.mp hmem
      exact ⟨[_], _, [], rfl, rfl, rfl⟩)
  once := by
    have hnone : first.filterMap Message.id? = [] := List.filterMap_eq_nil_iff.mpr h
    simp [twoOrders, hnone, Message.id?]

/-- Each of the two orders gets its own acknowledgement. -/
theorem twoOrders_correlated : Correlated toString (twoOrders []) := by
  refine (correlated_iff toString (twoOrders []) (twoOrders_wellFormed (by simp))).mpr ?_
  refine twoOrders_splits (fun _ => ⟨fun before t after hsplit => by simp at hsplit, _, [], rfl⟩)
    (fun _ => ⟨fun before t after hsplit => ?_, _, [], rfl⟩)
  rcases before with _ | ⟨b, before⟩
  · cases hsplit
    exact Or.inr ⟨_, rfl⟩
  · simp at hsplit

/-- After one notification the first call returns nothing and the second the acknowledgement of the first order. -/
theorem notification_shifts : WellFormed (twoOrders [.notification "notifications/progress"]) ∧
    ¬ Correlated toString (twoOrders [.notification "notifications/progress"]) := by
  refine ⟨twoOrders_wellFormed (by simp [Message.id?]), fun h => ?_⟩
  have hsecond := (h [_] _ [] rfl).1 (.response 0 (.ok (acknowledged "a1"))) rfl
  cases hsecond

/-! ## The order of a signal -/

section

open Domain Rounding
open Oriented (Lt Le)

variable {hex : String} {signal : HarmonicSignal} {mode : Mode} {order : OKXOrderParams} {side : Side}
  {entry exit stop x : ℚ}

theorem readDecimal_priceText (hx : 0 ≤ x) : readDecimal (priceText x) = roundTo 8 x := by
  obtain ⟨whole, frac, htext, hne, hwhole, hfrac, hread⟩ := toList_fmtFixed (d := 8) (by decide) hx
  rw [priceText, htext, readDecimal_rstrip hne hwhole hfrac, hread]

/-- The order on a side. -/
def orderOf (hex : String) (signal : HarmonicSignal) (side : Side) (entry exit stop : ℚ) : OKXOrderParams where
  instId := signal.instrument
  side := side
  ordType := .limit
  sz := "0"
  px := some (priceText entry)
  clOrdId := "OKX-LOOP-" ++ hex
  tpTriggerPx := some (priceText exit)
  tpOrdPx := some (priceText (exit * 0.999))
  slTriggerPx := some (priceText stop)
  slOrdPx := some (priceText (stop * 1.001))

/-- The three levels of a signal. -/
def HasLevels (signal : HarmonicSignal) (entry exit stop : ℚ) : Prop :=
  signal.entryPrice = some entry ∧ signal.exitPrice = some exit ∧ signal.stopLoss = some stop

theorem translatePattern_of_levels (hex : String) (h : HasLevels signal entry exit stop) :
    translatePattern hex signal = .ok (orderOf hex signal .buy entry exit stop) := by
  obtain ⟨hentry, hexit, hstop⟩ := h
  simp [translatePattern, hentry, hexit, hstop, orderOf]

theorem translatePattern_of_missing (hex : String)
    (h : signal.entryPrice = none ∨ signal.exitPrice = none ∨ signal.stopLoss = none) :
    ∃ e, translatePattern hex signal = .error e := by
  unfold translatePattern
  split
  · rename_i hentry hexit hstop
    simp [hentry, hexit, hstop] at h
  · exact ⟨_, rfl⟩

theorem translate_of_refused (hex : String) (h : Refused signal mode) : ∃ e, translate hex signal mode = .error e := by
  by_cases hmissing : signal.entryPrice = none ∨ signal.exitPrice = none ∨ signal.stopLoss = none
  · obtain ⟨e, he⟩ := translatePattern_of_missing hex hmissing
    cases mode with
    | pattern => exact ⟨e, he⟩
    | indicator =>
        rw [translate, translateIndicator]
        split_ifs
        · exact ⟨_, rfl⟩
        · exact ⟨e, he⟩
    | regime =>
        by_cases hregime : signal.regime ∉ [some "bullish", some "bearish", some "ranging"]
        · exact ⟨_, by rw [translate, translateRegime, if_pos hregime]⟩
        · exact ⟨e, by rw [translate, translateRegime, if_neg hregime, he]; rfl⟩
    | unknown m => exact ⟨_, rfl⟩
  · obtain ⟨hentry, hexit, hstop⟩ := not_or.mp hmissing |>.imp_right not_or.mp
    have hmode := ((h.resolve_left hentry).resolve_left hexit).resolve_left hstop
    cases mode with
    | pattern => exact absurd hmode id
    | indicator => exact ⟨_, by rw [translate, translateIndicator, if_pos hmode]⟩
    | regime => exact ⟨_, by rw [translate, translateRegime, if_pos hmode]⟩
    | unknown m => exact ⟨_, rfl⟩

theorem translate_of_levels (h : HasLevels signal entry exit stop) (hmode : ¬ Refused signal mode) :
    translate hex signal mode = .ok (orderOf hex signal (sideOf signal mode) entry exit stop) := by
  have hmode := (not_or.mp (not_or.mp (not_or.mp hmode).2).2).2
  have hpattern := translatePattern_of_levels hex h
  cases mode with
  | pattern => exact hpattern
  | indicator => rw [translate, translateIndicator, if_neg hmode, hpattern]; rfl
  | regime =>
      rw [translate, translateRegime, if_neg hmode, hpattern]
      by_cases hbearish : signal.regime = some "bearish"
      · simp [sideOf, hbearish, orderOf, bind, Except.bind, pure, Except.pure]
      · simp [sideOf, hbearish, orderOf, bind, Except.bind, pure, Except.pure]
  | unknown m => exact absurd trivial hmode

/-- The bracket of an order, by the levels at eight decimals. -/
theorem coherent_orderOf (hentry : 0 < entry) (hexit : 0 < exit) (hstop : 0 < stop) :
    Coherent (orderOf hex signal side entry exit stop) ↔ Bracket (side = .buy) (roundTo 8 entry) (roundTo 8 exit)
      (roundTo 8 (exit * 0.999)) (roundTo 8 stop) (roundTo 8 (stop * 1.001)) := by
  have hread : ∀ {y : ℚ}, 0 < y → readDecimal (priceText y) = roundTo 8 y := fun hy => readDecimal_priceText hy.le
  have hbracket : Coherent (orderOf hex signal side entry exit stop) ↔
      Bracket (side = .buy) (readDecimal (priceText entry)) (readDecimal (priceText exit))
        (readDecimal (priceText (exit * 0.999))) (readDecimal (priceText stop))
        (readDecimal (priceText (stop * 1.001))) := by
    constructor
    · rintro ⟨px, tp, tpOrd, sl, slOrd, hpx, htp, htpOrd, hsl, hslOrd, h⟩
      have hpx : priceText entry = px := Option.some.inj hpx
      have htp : priceText exit = tp := Option.some.inj htp
      have htpOrd : priceText (exit * 0.999) = tpOrd := Option.some.inj htpOrd
      have hsl : priceText stop = sl := Option.some.inj hsl
      have hslOrd : priceText (stop * 1.001) = slOrd := Option.some.inj hslOrd
      rw [hpx, htp, htpOrd, hsl, hslOrd]
      exact h
    · exact fun h => ⟨_, _, _, _, _, rfl, rfl, rfl, rfl, rfl, h⟩
  rw [hbracket, hread hentry, hread hexit, hread hstop, hread (mul_pos hexit (by norm_num)),
    hread (mul_pos hstop (by norm_num))]

theorem fits_iff (h : HasLevels signal entry exit stop) (hexit : 0 < exit) (hstop : 0 < stop) :
    Bracket (side = .buy) (roundTo 8 entry) (roundTo 8 exit) (roundTo 8 (exit * 0.999)) (roundTo 8 stop)
      (roundTo 8 (stop * 1.001)) ↔ Fits signal side := by
  obtain ⟨hsignalEntry, hsignalExit, hsignalStop⟩ := h
  have htp : roundTo 8 (exit * 0.999) ≤ roundTo 8 exit := roundTo_mono (by norm_num; linarith)
  have hsl : roundTo 8 stop ≤ roundTo 8 (stop * 1.001) := roundTo_mono (by norm_num; linarith)
  have hfits : Fits signal side ↔
      (Lt (side = .buy) (roundTo 8 stop) (roundTo 8 entry) ∧ Lt (side = .buy) (roundTo 8 entry) (roundTo 8 exit)) ∧
      (side = .buy → roundTo 8 (stop * 1.001) = roundTo 8 stop) ∧
      (side = .sell → roundTo 8 (exit * 0.999) = roundTo 8 exit) := by
    constructor
    · exact fun h => ⟨h.levels entry hsignalEntry exit hsignalExit stop hsignalStop, fun hside => h.stop hside stop
        hsignalStop, fun hside => h.exit hside exit hsignalExit⟩
    · rintro ⟨hlevels, hbuy, hsell⟩
      refine ⟨?_, ?_, ?_⟩
      · rintro e he x hx s hs
        rw [hsignalEntry] at he
        rw [hsignalExit] at hx
        rw [hsignalStop] at hs
        cases he
        cases hx
        cases hs
        exact hlevels
      · rintro hside s hs
        rw [hsignalStop] at hs
        cases hs
        exact hbuy hside
      · rintro hside x hx
        rw [hsignalExit] at hx
        cases hx
        exact hsell hside
  rw [hfits]
  cases side with
  | buy =>
      constructor
      · rintro ⟨hsl', htarget, -, hfills⟩
        exact ⟨⟨hsl', htarget⟩, fun _ => le_antisymm hfills hsl, by simp⟩
      · rintro ⟨⟨hsl', htarget⟩, hequal, -⟩
        exact ⟨hsl', htarget, htp, (hequal rfl).le⟩
  | sell =>
      constructor
      · rintro ⟨hsl', htarget, hfills, -⟩
        exact ⟨⟨hsl', htarget⟩, by simp, fun _ => le_antisymm htp hfills⟩
      · rintro ⟨⟨hsl', htarget⟩, -, hequal⟩
        exact ⟨hsl', htarget, (hequal rfl).ge, hsl⟩

/-- **The bracket**: every order of a signal is one exactly where no order is made or the signal fits the side. -/
theorem brackets_iff (signal : HarmonicSignal) (mode : Mode)
    (hpos : ∀ price ∈ [signal.entryPrice, signal.exitPrice, signal.stopLoss], ∀ x ∈ price, 0 < x) :
    Brackets signal mode ↔ Refused signal mode ∨ Fits signal (sideOf signal mode) := by
  by_cases hrefused : Refused signal mode
  · refine iff_of_true (fun hex order horder => ?_) (Or.inl hrefused)
    obtain ⟨e, he⟩ := translate_of_refused hex hrefused
    rw [he] at horder
    cases horder
  · rw [or_iff_right hrefused]
    obtain ⟨entry, hentry⟩ := Option.ne_none_iff_exists'.mp (not_or.mp hrefused).1
    obtain ⟨exit, hexit⟩ := Option.ne_none_iff_exists'.mp (not_or.mp (not_or.mp hrefused).2).1
    obtain ⟨stop, hstop⟩ := Option.ne_none_iff_exists'.mp (not_or.mp (not_or.mp (not_or.mp hrefused).2).2).1
    have hlevels : HasLevels signal entry exit stop := ⟨hentry, hexit, hstop⟩
    have hentry₀ : 0 < entry := hpos _ (by simp) entry hentry
    have hexit₀ : 0 < exit := hpos _ (by simp) exit hexit
    have hstop₀ : 0 < stop := hpos _ (by simp) stop hstop
    rw [← fits_iff hlevels hexit₀ hstop₀]
    constructor
    · intro h
      exact (coherent_orderOf hentry₀ hexit₀ hstop₀).mp (h "" _ (translate_of_levels hlevels hrefused))
    · intro h hex order horder
      rw [translate_of_levels hlevels hrefused, Except.ok.injEq] at horder
      rw [← horder]
      exact (coherent_orderOf hentry₀ hexit₀ hstop₀).mpr h

/-- A price that is moved by a thousandth and reads the same at eight decimals. -/
theorem tiny_of_fits (h : Fits signal side) :
    (side = .buy → ∀ stop ∈ signal.stopLoss, stop ≤ 1 / 100000) ∧
      (side = .sell → ∀ exit ∈ signal.exitPrice, exit ≤ 1 / 100000) := by
  refine ⟨fun hside stop hstop => ?_, fun hside exit hexit => ?_⟩
  · have hmoved := (roundTo_sub_le (d := 8) (x := stop * 1.001)).2
    have hkept := (roundTo_sub_le (d := 8) (x := stop)).1
    rw [h.stop hside stop hstop] at hmoved
    norm_num at hmoved hkept
    linarith
  · have hmoved := (roundTo_sub_le (d := 8) (x := exit * 0.999)).1
    have hkept := (roundTo_sub_le (d := 8) (x := exit)).2
    rw [h.exit hside exit hexit] at hmoved
    norm_num at hmoved hkept
    linarith

/-- The two closing levels below the price of a microscopic coin. -/
def microscopic : HarmonicSignal where
  patternType := "Gartley"
  entryPrice := some (2 / 1000000)
  exitPrice := some (3 / 1000000)
  stopLoss := some (1 / 1000000)

theorem microscopic_brackets : Brackets microscopic .pattern := by
  refine (brackets_iff microscopic .pattern (by decide +kernel)).mpr (Or.inr ⟨?_, ?_, by simp [sideOf]⟩)
  · decide +kernel
  · decide +kernel

/-- A long from 100 with its stop at 95 and its target at 110. -/
def plainLong : HarmonicSignal where
  patternType := "Gartley"
  entryPrice := some 100
  exitPrice := some 110
  stopLoss := some 95

/-- The limit of the stop order is above its trigger, so it does not fill where the price falls through both. -/
theorem plainLong_no_bracket : ¬ Brackets plainLong .pattern := by
  intro h
  obtain ⟨px, tp, tpOrd, sl, slOrd, -, -, -, hsl, hslOrd, hbracket⟩ := h "" _ rfl
  have htrigger : sl = "95".toList := (Option.some.inj hsl).symm.trans (by decide +kernel)
  have hlimit : slOrd = "95.095".toList := (Option.some.inj hslOrd).symm.trans (by decide +kernel)
  have hfills := hbracket.slFills
  rw [htrigger, hlimit] at hfills
  exact absurd hfills (by decide +kernel)

end

end CryptoAggHarmonic.Okx
