import Mathlib.Data.List.Basic

/-!
# Answers that are remembered

A question is asked under a key, and an answer that was given under the key before is given again. Every caller gets the
answer to its own question, whatever the answers are, exactly when no two questions share a key.
-/

namespace Memo

variable {κ ρ ω : Type*} [DecidableEq κ]

def get? (cache : List (κ × ω)) (k : κ) : Option ω := (cache.find? fun e => e.1 = k).map Prod.snd

/-- One call; `none` asks nothing. -/
def ask (f : ρ → Option ω) (cache : List (κ × ω)) : Option (κ × ρ) → List (κ × ω) × Option ω
  | none => (cache, none)
  | some (k, q) =>
      match get? cache k with
      | some a => (cache, some a)
      | none =>
          match f q with
          | none => (cache, none)
          | some a => ((k, a) :: cache, some a)

def serve (f : ρ → Option ω) : List (κ × ω) → List (Option (κ × ρ)) → List (Option ω)
  | _, [] => []
  | cache, c :: calls => (ask f cache c).2 :: serve f (ask f cache c).1 calls

/-- What a call is answered without a cache. -/
def own (f : ρ → Option ω) (c : Option (κ × ρ)) : Option ω := c.bind fun c => f c.2

/-- The two calls ask the same, when they ask under the same key. -/
def Agree (c d : Option (κ × ρ)) : Prop := ∀ k p q, c = some (k, p) → d = some (k, q) → p = q

section

variable {f : ρ → Option ω} {cache : List (κ × ω)} {c d : Option (κ × ρ)} {calls : List (Option (κ × ρ))} {k l : κ}
  {p q : ρ} {a : ω}

theorem get?_cons : get? ((l, a) :: cache) k = if l = k then some a else get? cache k := by
  unfold get?
  split_ifs with h
  · simp [h]
  · simp [h]

attribute [local simp] ask

theorem ask_hit (h : get? cache k = some a) : ask f cache (some (k, q)) = (cache, some a) := by
  simp [h]

theorem ask_miss (h : get? cache k = none) : (ask f cache (some (k, q))).2 = f q := by
  cases hf : f q with
  | none => simp [h, hf]
  | some a => simp [h, hf]

/-- What is remembered stays. -/
theorem get?_ask (h : get? cache k = some a) : get? (ask f cache c).1 k = some a := by
  rcases c with - | ⟨l, q⟩
  · exact h
  · cases hl : get? cache l with
    | some b => rwa [ask_hit hl]
    | none =>
        cases hq : f q with
        | none => simpa [ask, hl, hq] using h
        | some b =>
            have hne : l ≠ k := by
              rintro rfl
              rw [h] at hl
              cases hl
            simp [hl, hq, get?_cons, hne, h]

/-- A key is remembered by a call that asks under it, with the answer of that call. -/
theorem get?_ask_new (hmiss : get? cache k = none) (h : get? (ask f cache c).1 k = some a) :
    ∃ q, c = some (k, q) ∧ f q = some a := by
  rcases c with - | ⟨l, q⟩
  · rw [show (ask f cache (none : Option (κ × ρ))).1 = cache from rfl, hmiss] at h
    cases h
  · cases hl : get? cache l with
    | some b => simp [hl, hmiss] at h
    | none =>
        cases hq : f q with
        | none => simp [hl, hq, hmiss] at h
        | some b =>
            simp only [ask, hl, hq, get?_cons] at h
            split_ifs at h with heq
            · subst heq
              exact ⟨q, rfl, hq.trans h⟩
            · rw [hmiss] at h
              cases h

theorem serve_own (hcalls : calls.Pairwise Agree)
    (hcache : ∀ k a, get? cache k = some a → ∀ q, some (k, q) ∈ calls → f q = some a) :
    serve f cache calls = calls.map (own f) := by
  induction calls generalizing cache with
  | nil => rfl
  | cons c calls ih =>
      rw [List.pairwise_cons] at hcalls
      have hanswer : (ask f cache c).2 = own f c := by
        rcases c with - | ⟨k, q⟩
        · rfl
        · cases hk : get? cache k with
          | none => exact ask_miss hk
          | some a =>
              rw [ask_hit hk]
              exact (hcache k a hk q List.mem_cons_self).symm
      rw [serve, hanswer, List.map_cons, ih hcalls.2]
      intro k a hget q hq
      cases hk : get? cache k with
      | some b =>
          have hsame := (get?_ask (f := f) (c := c) hk).symm.trans hget
          rw [hcache k b hk q (List.mem_cons_of_mem _ hq)]
          exact hsame
      | none =>
          obtain ⟨p, rfl, hp⟩ := get?_ask_new hk hget
          rw [← hcalls.1 _ hq k p q rfl rfl]
          exact hp

/-! ## A stale answer -/

omit [DecidableEq κ] in
/-- Where two questions share a key, the first call under the key is one of such two. -/
theorem exists_first_conflict (h : ¬ calls.Pairwise Agree) : ∃ before k p between q after,
    calls = before ++ some (k, p) :: between ++ some (k, q) :: after ∧ p ≠ q ∧ ∀ r, some (k, r) ∉ before := by
  induction calls with
  | nil => exact absurd List.Pairwise.nil h
  | cons c calls ih =>
      rw [List.pairwise_cons, not_and_or] at h
      by_cases hfirst : ∀ d ∈ calls, Agree c d
      · obtain ⟨before, k, p, between, q, after, rfl, hne, hnone⟩ := ih (h.resolve_left (not_not.mpr hfirst))
        refine ⟨c :: before, k, p, between, q, after, rfl, hne, fun r hr => ?_⟩
        rcases List.mem_cons.mp hr with rfl | hr
        · have hp : r = p := hfirst (some (k, p)) (by simp) k r p rfl rfl
          have hq : r = q := hfirst (some (k, q)) (by simp) k r q rfl rfl
          exact hne (hp.symm.trans hq)
        · exact hnone r hr
      · simp only [Agree, not_forall] at hfirst
        obtain ⟨d, hd, k, p, q, rfl, rfl, hne⟩ := hfirst
        obtain ⟨between, after, rfl⟩ := List.append_of_mem hd
        exact ⟨[], k, p, between, q, after, rfl, hne, fun r hr => by cases hr⟩

/-- After some calls. -/
def after (f : ρ → Option ω) (cache : List (κ × ω)) (calls : List (Option (κ × ρ))) : List (κ × ω) :=
  calls.foldl (fun cache c => (ask f cache c).1) cache

theorem serve_append (calls' : List (Option (κ × ρ))) :
    serve f cache (calls ++ calls') = serve f cache calls ++ serve f (after f cache calls) calls' := by
  induction calls generalizing cache with
  | nil => rfl
  | cons c calls ih => rw [List.cons_append, serve, ih]; rfl

theorem length_serve : (serve f cache calls).length = calls.length := by
  induction calls generalizing cache with
  | nil => rfl
  | cons c calls ih => rw [serve, List.length_cons, ih, List.length_cons]

theorem get?_after (h : get? cache k = some a) : get? (after f cache calls) k = some a := by
  induction calls generalizing cache with
  | nil => exact h
  | cons c calls ih => exact ih (get?_ask h)

theorem get?_after_none (h : get? cache k = none) (hnone : ∀ r, some (k, r) ∉ calls) :
    get? (after f cache calls) k = none := by
  induction calls generalizing cache with
  | nil => exact h
  | cons c calls ih =>
      refine ih ?_ fun r hr => hnone r (List.mem_cons_of_mem _ hr)
      cases hget : get? (ask f cache c).1 k with
      | none => rfl
      | some a =>
          obtain ⟨q, rfl, -⟩ := get?_ask_new h hget
          exact absurd List.mem_cons_self (hnone q)

/-- The answer to the first question of two is served to the second. -/
theorem exists_stale [DecidableEq ρ] {a b : ω} (hab : a ≠ b) (h : ¬ calls.Pairwise Agree) : ∃ q,
    serve (fun r => some (if r = q then b else a)) [] calls ≠
      calls.map (own fun r => some (if r = q then b else a)) := by
  obtain ⟨before, k, p, between, q, rest, rfl, hne, hnone⟩ := exists_first_conflict h
  refine ⟨q, fun hserved => ?_⟩
  generalize hf : (fun r => some (if r = q then b else a)) = f at hserved
  have hp : f p = some a := by rw [← hf]; simp [hne]
  have hq : f q = some b := by rw [← hf]; simp
  have hmiss : get? (after f [] before) k = none := get?_after_none rfl hnone
  have hfirst : get? (ask f (after f [] before) (some (k, p))).1 k = some a := by
    simp [hmiss, hp, get?_cons]
  have hlast : get? (after f [] (before ++ some (k, p) :: between)) k = some a := by
    unfold after
    rw [List.foldl_append]
    change get? (after f (ask f (after f [] before) (some (k, p))).1 between) k = some a
    exact get?_after hfirst
  rw [serve_append, List.map_append] at hserved
  have hrest := (List.append_inj hserved (by rw [length_serve, List.length_map])).2
  rw [serve, List.map_cons, ask_hit hlast, List.cons.injEq] at hrest
  have hsame : some a = some b := hrest.1.trans hq
  exact hab (Option.some.inj hsame)

end

end Memo
