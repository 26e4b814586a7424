import Mathlib.Tactic.Linarith
import Mathlib.Data.List.MinMax
import CryptoAggHarmonic.RateLimit.Limiter

/-!
# What the rate limiter promises

Over all sequences of calls on a clock that does not go back.
-/

namespace CryptoAggHarmonic.RateLimit

open SlidingLog

variable {s s' : SlidingWindowStore} {c : Call} {key endpoint : String} {calls between : List Call} {last : ℚ} {limit : ℕ}

/-! ## One check -/

theorem configFor_mem : configFor endpoint ∈ ⟨60, 60⟩ :: DEFAULT_LIMITS.map Prod.snd := by
  unfold configFor
  cases hlookup : DEFAULT_LIMITS.lookup endpoint with
  | none => exact List.mem_cons_self
  | some config =>
      have hmem := List.lookup_eq_some_iff.mp hlookup
      obtain ⟨before, later, hsplit, -⟩ := hmem
      refine List.mem_cons_of_mem _ (List.mem_map.mpr ⟨(endpoint, config), ?_, rfl⟩)
      rw [hsplit]
      simp

/-- Every window is a minute, and every limit lets a request through. -/
theorem configFor_facts : (configFor endpoint).windowSeconds = 60 ∧ 0 < (configFor endpoint).requests := by
  have hall : ∀ config ∈ (⟨60, 60⟩ : RateLimitConfig) :: DEFAULT_LIMITS.map Prod.snd,
      config.windowSeconds = 60 ∧ 0 < config.requests := by decide
  exact hall _ configFor_mem

theorem windowSeconds_eq : ((configFor endpoint).windowSeconds : ℚ) = 60 := by
  rw [configFor_facts.1]
  norm_num

/-- What is left of a key at a request. -/
def kept (s : SlidingWindowStore) (c : Call) : List ℚ := recent (c.asked - 60) (s.data c.key)

def Admits (s : SlidingWindowStore) (c : Call) : Prop := (kept s c).length < (configFor c.endpoint).requests

instance : Decidable (Admits s c) := inferInstanceAs (Decidable (_ < _))

namespace SlidingWindowStore

@[simp] theorem setKey_same (times : List ℚ) : (s.setKey key times).data key = times := if_pos rfl

theorem setKey_other {other : String} (h : other ≠ key) (times : List ℚ) :
    (s.setKey key times).data other = s.data other := if_neg h

@[simp] theorem setKey_setKey (times later : List ℚ) : (s.setKey key times).setKey key later = s.setKey key later := by
  unfold setKey
  congr 1
  funext k
  by_cases hk : k = key <;> simp [hk]

end SlidingWindowStore

/-- The log of the key gets the request if it is admitted. -/
def logged (s : SlidingWindowStore) (c : Call) : List ℚ :=
  recent (c.counted - 60) (if Admits s c then kept s c ++ [c.asked] else kept s c)

theorem isAllowed_eq : s.isAllowed c.key (configFor c.endpoint).requests (configFor c.endpoint).windowSeconds c.asked =
    (s.setKey c.key (if Admits s c then kept s c ++ [c.asked] else kept s c), decide (Admits s c)) := by
  unfold SlidingWindowStore.isAllowed SlidingWindowStore.prune
  rw [windowSeconds_eq]
  dsimp only
  rw [SlidingWindowStore.setKey_same]
  change (if (kept s c).length ≥ (configFor c.endpoint).requests then (s.setKey c.key (kept s c), false) else _) = _
  by_cases hadmits : Admits s c
  · rw [if_neg (not_le.mpr hadmits), if_pos hadmits, SlidingWindowStore.setKey_setKey, decide_eq_true hadmits]
    rfl
  · rw [if_pos (not_lt.mp hadmits), if_neg hadmits, decide_eq_false hadmits]

theorem check_eq : check s c = (s.setKey c.key (logged s c),
    if Admits s c then ⟨true, max 0 ((configFor c.endpoint).requests - (logged s c).length), 0⟩
    else ⟨false, 0, max 1 (resetIn (logged s c) 60 c.answered)⟩) := by
  have hwindow : (configFor c.endpoint).windowSeconds = 60 := configFor_facts.1
  simp only [check, isAllowed_eq, SlidingWindowStore.remaining, SlidingWindowStore.prune, windowSeconds_eq,
    SlidingWindowStore.setKey_same, SlidingWindowStore.setKey_setKey]
  by_cases hadmits : Admits s c
  · simp [hadmits, logged]
  · simp [hadmits, logged, hwindow]

theorem check_allowed : (check s c).2.allowed = decide (Admits s c) := by
  rw [check_eq]
  by_cases hadmits : Admits s c <;> simp [hadmits]

theorem check_data (key : String) : (check s c).1.data key = if key = c.key then logged s c else s.data key := by
  rw [check_eq]
  rfl

theorem check_resetIn (h : ¬ Admits s c) : (check s c).2.resetIn = max 1 (resetIn (logged s c) 60 c.answered) := by
  rw [check_eq]
  simp only [if_neg h]

/-- A check reads the log of its key only. -/
theorem logged_congr (h : s.data c.key = s'.data c.key) : logged s c = logged s' c := by
  have hkept : kept s c = kept s' c := by rw [kept, kept, h]
  have hadmits : Admits s c ↔ Admits s' c := by rw [Admits, Admits, hkept]
  rw [logged, logged, hkept, if_congr hadmits rfl rfl]

theorem check_congr (h : s.data c.key = s'.data c.key) : (check s c).2 = (check s' c).2 := by
  have hadmits : Admits s c ↔ Admits s' c := by rw [Admits, Admits, kept, kept, h]
  rw [check_eq, check_eq, logged_congr h]
  exact if_congr hadmits rfl rfl

/-! ## Runs -/

theorem after_snoc : after (calls ++ [c]) = (check (after calls) c).1 := by
  simp [after, Steps.run]

/-- When the allowed requests of a key were made in a run from the empty store. -/
def allowed (key : String) (calls : List Call) : List ℚ := allowedTimes key .empty calls

theorem allowedTimes_append (key : String) (calls later : List Call) : allowedTimes key s (calls ++ later) =
    allowedTimes key s calls ++ allowedTimes key (Steps.run (fun s c => (check s c).1) s calls) later := by
  induction calls generalizing s with
  | nil => rfl
  | cons c calls ih =>
      simp only [List.cons_append, allowedTimes, Steps.run_cons, ih, List.append_assoc]

theorem allowed_snoc (key : String) : allowed key (calls ++ [c]) =
    allowed key calls ++ if c.key = key ∧ Admits (after calls) c then [c.asked] else [] := by
  have hiff : (c.key = key ∧ (check (after calls) c).2.allowed = true) ↔ c.key = key ∧ Admits (after calls) c := by
    rw [check_allowed, decide_eq_true_eq]
  unfold allowed
  rw [allowedTimes_append]
  change _ ++ ((if c.key = key ∧ (check (after calls) c).2.allowed = true then [c.asked] else []) ++ []) = _
  rw [List.append_nil, if_congr hiff rfl rfl]

theorem mem_allowed {t : ℚ} (h : t ∈ allowed key calls) : ∃ a ∈ calls, a.asked = t := by
  induction calls using List.reverseRecOn with
  | nil => cases h
  | append_singleton calls c ih =>
      rw [allowed_snoc, List.mem_append] at h
      rcases h with hbefore | hlast
      · obtain ⟨a, ha, hasked⟩ := ih hbefore
        exact ⟨a, List.mem_append_left _ ha, hasked⟩
      · split_ifs at hlast
        · exact ⟨c, by simp, (List.mem_singleton.mp hlast).symm⟩
        · cases hlast

/-- The calls come one after the other. -/
def Chronological (calls : List Call) : Prop := calls.Pairwise fun a b => a.answered ≤ b.asked

/-- The log of a key has its allowed requests, as far back as the window goes. -/
theorem keeps_after (h : Chronological calls) (hlast : ∀ a ∈ calls, a.answered ≤ last) :
    Keeps 60 last ((after calls).data key) (allowed key calls) := by
  induction calls using List.reverseRecOn generalizing last with
  | nil => exact fun _ _ => rfl
  | append_singleton calls c ih =>
      obtain ⟨hcalls, -, hbefore⟩ := List.pairwise_append.mp h
      have hanswered : c.answered ≤ last := hlast c (by simp)
      have hkeeps : Keeps 60 c.asked ((after calls).data key) (allowed key calls) :=
        ih hcalls fun a ha => hbefore a ha c List.mem_cons_self
      rw [after_snoc, check_data, allowed_snoc]
      by_cases hkey : key = c.key
      · subst hkey
        have hpruned := hkeeps.prune le_rfl
        rw [if_pos rfl, logged]
        by_cases hadmits : Admits (after calls) c
        · rw [if_pos hadmits, if_pos ⟨rfl, hadmits⟩]
          exact (hpruned.record.prune c.asked_le).later (c.counted_le.trans hanswered)
        · rw [if_neg hadmits, if_neg fun hboth => hadmits hboth.2, List.append_nil]
          exact (hpruned.prune c.asked_le).later (c.counted_le.trans hanswered)
      · rw [if_neg hkey, if_neg fun hboth => hkey hboth.1.symm, List.append_nil]
        exact hkeeps.later ((c.asked_le.trans c.counted_le).trans hanswered)

/-- What a request counts is what was allowed in the window before it. -/
theorem kept_after (h : Chronological (calls ++ [c])) :
    kept (after calls) c = recent (c.asked - 60) (allowed c.key calls) := by
  obtain ⟨hcalls, -, hbefore⟩ := List.pairwise_append.mp h
  exact keeps_after hcalls (fun a ha => hbefore a ha c List.mem_cons_self) c.asked le_rfl

theorem within_after (h : Chronological calls)
    (hlimit : ∀ a ∈ calls, a.key = key → (configFor a.endpoint).requests = limit) :
    Within 60 limit (allowed key calls) ∧ ((after calls).data key).length ≤ limit := by
  induction calls using List.reverseRecOn with
  | nil => exact ⟨fun _ => Nat.zero_le _, Nat.zero_le _⟩
  | append_singleton calls c ih =>
      obtain ⟨hwithin, hlength⟩ := ih (List.pairwise_append.mp h).1 fun a ha => hlimit a (List.mem_append_left _ ha)
      rw [after_snoc, check_data, allowed_snoc]
      by_cases hkey : key = c.key
      · subst hkey
        rw [if_pos rfl, logged]
        by_cases hadmits : Admits (after calls) c
        · have hroom : (kept (after calls) c).length < limit := hlimit c (by simp) rfl ▸ hadmits
          rw [if_pos hadmits, if_pos ⟨rfl, hadmits⟩]
          constructor
          · exact hwithin.record (kept_after h ▸ hroom)
          · refine length_recent_le.trans ?_
            rw [List.length_append, List.length_singleton]
            exact hroom
        · rw [if_neg hadmits, if_neg fun hboth => hadmits hboth.2, List.append_nil]
          exact ⟨hwithin, (length_recent_le.trans length_recent_le).trans hlength⟩
      · rw [if_neg hkey, if_neg fun hboth => hkey hboth.1.symm, List.append_nil]
        exact ⟨hwithin, hlength⟩

/-! ## Other keys -/

theorem data_filter (key : String) (calls : List Call) :
    (after calls).data key = (after (calls.filter fun a => a.key = key)).data key := by
  induction calls using List.reverseRecOn with
  | nil => rfl
  | append_singleton calls c ih =>
      rw [List.filter_append, after_snoc, check_data]
      by_cases hkey : c.key = key
      · subst hkey
        rw [List.filter_cons_of_pos (by simp), List.filter_nil, after_snoc, check_data, if_pos rfl, if_pos rfl]
        exact logged_congr ih
      · rw [if_neg (Ne.symm hkey), List.filter_cons_of_neg (by simpa using hkey), List.filter_nil, List.append_nil, ih]

theorem data_between (h : ∀ d ∈ between, d.key ≠ key) :
    (after (calls ++ between)).data key = (after calls).data key := by
  have hnone : (between.filter fun a => a.key = key) = [] :=
    List.filter_eq_nil_iff.mpr fun d hd => by simpa using h d hd
  rw [data_filter key (calls ++ between), data_filter key calls, List.filter_append, hnone, List.append_nil]

/-! ## The reset -/

theorem lt_truncate_add_one (x : ℚ) : x < truncate x + 1 := by
  unfold truncate
  split_ifs
  · exact_mod_cast Int.lt_floor_add_one x
  · exact (Int.le_ceil x).trans_lt (lt_add_one _)

/-- After the reset the oldest entry is gone. -/
theorem length_recent_of_reset {log : List ℚ} {now later : ℚ} {r : ℤ} (hpos : 0 < limit) (hlength : log.length ≤ limit)
    (hr : resetIn log 60 now ≤ r) (hlater : now + r ≤ later) : (recent (later - 60) log).length < limit := by
  have hr' : ((resetIn log 60 now : ℤ) : ℚ) ≤ r := by exact_mod_cast hr
  unfold resetIn at hr'
  cases hmin : log.min? with
  | none =>
      rw [List.min?_eq_none_iff.mp hmin]
      exact hpos
  | some oldest =>
      have hmem : oldest ∈ log := List.min?_mem hmin
      rw [hmin] at hr'
      push_cast at hr'
      have hexpires := lt_truncate_add_one (oldest + 60 - now)
      have hold : oldest ≤ later - 60 := by linarith
      exact (length_recent_lt hmem hold).trans_le hlength

/-! ## The promise -/

/-- What is promised of a run. -/
structure RateLimited (calls : List Call) : Prop where
  independent : ∀ before c later, calls = before ++ c :: later →
    answer before c = answer (before.filter fun a => a.key = c.key) c
  bounded : ∀ c ∈ calls, ∀ x : ℚ, ((allowed c.key calls).filter fun t =>
    x < t ∧ t ≤ x + (configFor c.endpoint).windowSeconds).length ≤ (configFor c.endpoint).requests
  denied : ∀ before c later, calls = before ++ c :: later → (answer before c).allowed = false →
    (configFor c.endpoint).requests ≤ ((allowed c.key before).filter fun t =>
      c.asked - (configFor c.endpoint).windowSeconds < t ∧ t ≤ c.asked).length
  reset : ∀ before c between retry later, calls = before ++ c :: (between ++ retry :: later) →
    (answer before c).allowed = false → retry.key = c.key → (∀ d ∈ between, d.key ≠ c.key) →
      c.answered + (answer before c).resetIn ≤ retry.asked →
        (answer (before ++ c :: between) retry).allowed = true

/-- The calls of one key have one limit. -/
def Agreeing (calls : List Call) : Prop :=
  ∀ a ∈ calls, ∀ b ∈ calls, a.key = b.key → (configFor a.endpoint).requests = (configFor b.endpoint).requests

theorem colon_split {xs xs' ys ys' : List Char} (hys : ':' ∉ ys) (hys' : ':' ∉ ys')
    (h : xs ++ ':' :: ys = xs' ++ ':' :: ys') : ys = ys' := by
  rcases List.append_eq_append_iff.mp h with ⟨as, -, hrest⟩ | ⟨as, -, hrest⟩
  · cases as with
    | nil => exact (List.cons.inj hrest).2
    | cons a as => exact absurd (by simp [(List.cons.inj hrest).2]) hys
  · cases as with
    | nil => exact (List.cons.inj hrest).2.symm
    | cons a as => exact absurd (by simp [(List.cons.inj hrest).2]) hys'

/-- The endpoint of a key is read off where endpoints have no colon. -/
theorem keyFor_endpoint {user user' : Option String} {endpoint' : String} (h : ':' ∉ endpoint.toList)
    (h' : ':' ∉ endpoint'.toList) (hkey : keyFor user endpoint = keyFor user' endpoint') : endpoint = endpoint' := by
  have hlist := congrArg String.toList hkey
  simp only [keyFor, String.toList_append, List.append_assoc] at hlist
  exact String.toList_injective (colon_split h h' hlist)

theorem agreeing_of_names (h : ∀ c ∈ calls, ':' ∉ c.endpoint.toList) : Agreeing calls := by
  intro a ha b hb hkey
  rw [keyFor_endpoint (h a ha) (h b hb) hkey]

/-- **The limits hold** in every run whose keys have one limit each. -/
theorem rateLimited_of_agreeing (h : Chronological calls) (hagree : Agreeing calls) : RateLimited calls := by
  constructor
  · intro before c later _
    exact check_congr (data_filter c.key before)
  · intro c hc x
    rw [windowSeconds_eq]
    exact (within_after h fun a ha hkey => hagree a ha c hc hkey).1 x
  · rintro before c later rfl hdenied
    have hchron : Chronological (before ++ [c]) := by
      refine List.Pairwise.sublist ?_ h
      simp
    have hfull : (configFor c.endpoint).requests ≤ (kept (after before) c).length := by
      rw [answer, check_allowed, decide_eq_false_iff_not] at hdenied
      exact not_lt.mp hdenied
    have hpast : ∀ t ∈ allowed c.key before, t ≤ c.asked := by
      intro t ht
      obtain ⟨a, ha, rfl⟩ := mem_allowed ht
      exact (a.asked_le.trans a.counted_le).trans ((List.pairwise_append.mp hchron).2.2 a ha c List.mem_cons_self)
    have hwindow : recent (c.asked - 60) (allowed c.key before) =
        (allowed c.key before).filter fun t => c.asked - 60 < t ∧ t ≤ c.asked := by
      refine List.filter_congr fun t ht => ?_
      simp [hpast t ht]
    rw [windowSeconds_eq, ← hwindow, ← kept_after hchron]
    exact hfull
  · rintro before c between retry later rfl hdenied hkey hother hreset
    have hfull : ¬ Admits (after before) c := by
      rw [answer, check_allowed, decide_eq_false_iff_not] at hdenied
      exact hdenied
    have hlog : (after (before ++ c :: between)).data retry.key = recent (c.counted - 60) (kept (after before) c) := by
      rw [hkey, List.append_cons, data_between hother, after_snoc, check_data, if_pos rfl, logged, if_neg hfull]
    have hlength : ((after before).data c.key).length ≤ (configFor retry.endpoint).requests := by
      refine (within_after (List.pairwise_append.mp h).1 fun a ha hsame => ?_).2
      exact hagree a (by simp [ha]) retry (by simp) (hsame.trans hkey.symm)
    have hexpired : (recent (retry.asked - 60) (recent (c.counted - 60) (kept (after before) c))).length <
        (configFor retry.endpoint).requests := by
      refine length_recent_of_reset configFor_facts.2 ?_ ?_ hreset
      · exact (length_recent_le.trans length_recent_le).trans hlength
      · rw [answer, check_resetIn hfull, logged, if_neg hfull]
        exact le_max_right _ _
    rw [answer, check_allowed, decide_eq_true_eq, Admits, kept, hlog]
    exact hexpired

theorem clock_stands : (0 : ℚ) ≤ 0 := le_rfl

/-- A call at the start of the clock. -/
def callOf (userId endpoint : String) : Call := ⟨some userId, endpoint, 0, 0, 0, clock_stands, clock_stands⟩

theorem two_calls_limited : RateLimited [callOf "alice" "analyze", callOf "bob" "history"] := by
  refine rateLimited_of_agreeing (by simp [Chronological, callOf]) (agreeing_of_names fun c hc => ?_)
  rcases List.mem_cons.mp hc with rfl | hc
  · decide
  · rw [List.mem_singleton.mp hc]
    decide

/-- Eleven requests of the user `a`. -/
def elevenCalls : List Call := List.replicate 11 (callOf "a" "b:analyze")

/-- The user `a:b` has no request and is denied one, under a key with more requests than their endpoint has. -/
theorem colliding_keys : (answer elevenCalls (callOf "a:b" "analyze")).allowed = false ∧
    ¬ RateLimited (elevenCalls ++ [callOf "a:b" "analyze"]) := by
  have hdenied : (answer elevenCalls (callOf "a:b" "analyze")).allowed = false := by decide +kernel
  refine ⟨hdenied, fun h => ?_⟩
  have hbound := h.bounded (callOf "a:b" "analyze") (by simp) (-1)
  exact absurd hbound (by decide +kernel)

end CryptoAggHarmonic.RateLimit
