import Mathlib.Data.Finset.Card
import Mathlib.Data.List.MinMax
import CryptoAggHarmonic.Loop.Scheduler

/-!
# Stalled generations

What the map of the best accepted fitness holds, and what the count over its sorted keys comes to.
-/

namespace CryptoAggHarmonic.Loop

variable {rs : List HistoryRecord} {r : HistoryRecord} {lines : List HistoryLine} {key : Option ℤ} {g : ℤ}
  {best : BestPerGen}

/-- The records of a journal. -/
def records (lines : List HistoryLine) : List HistoryRecord :=
  lines.filterMap fun
    | .record r => some r
    | _ => none

/-- Every generation that has a record, accepted or not. -/
def generations (rs : List HistoryRecord) : Finset ℤ := (rs.filterMap HistoryRecord.gen).toFinset

/-- The best accepted fitness under a key. -/
def bestOf (rs : List HistoryRecord) (key : Option ℤ) : WithBot Fitness :=
  ((rs.filter fun r => r.accepted && r.gen = key).map HistoryRecord.fitnessOrZero).maximum

/-- The best accepted fitness exceeds that of every earlier generation. -/
def Improves (rs : List HistoryRecord) (g : ℤ) : Prop :=
  bestOf rs (some g) ≠ ⊥ ∧ ∀ g' ∈ generations rs, g' < g → bestOf rs (some g') < bestOf rs (some g)

instance : Decidable (Improves rs g) := inferInstanceAs (Decidable (_ ∧ _))

/-- The generations with none that improves at or after them. -/
def stalledGenerations (rs : List HistoryRecord) : Finset ℤ :=
  (generations rs).filter fun g => ∀ g' ∈ generations rs, g ≤ g' → ¬ Improves rs g'

/-! ## The map -/

theorem bestOf_append : bestOf (rs ++ [r]) key =
    if r.accepted && r.gen = key then max (bestOf rs key) r.fitnessOrZero else bestOf rs key := by
  unfold bestOf
  rw [List.filter_append, List.map_append]
  cases h : r.accepted && r.gen = key with
  | true => simp only [List.filter_cons, h, ↓reduceIte, List.filter_nil, List.map_cons, List.map_nil,
      List.maximum_concat]
  | false => simp [h]

theorem bestOf_eq_bot : bestOf rs key = ⊥ ↔ ∀ r ∈ rs, r.accepted = true → r.gen ≠ key := by
  rw [bestOf, List.maximum_eq_bot]
  simp [List.filter_eq_nil_iff]

/-- What the map has under a key. -/
def kept (best : BestPerGen) (key : Option ℤ) : WithBot Fitness :=
  match best.get? key with
  | none => ⊥
  | some x => (x.2 : Fitness)

theorem kept_put (fit : Fitness) : kept (best.put (key, fit)) key = fit := by
  rw [kept, Table.get?_put (x := (key, fit))]

theorem kept_put_of_ne {gen : Option ℤ} {fit : Fitness} (h : gen ≠ key) :
    kept (best.put (gen, fit)) key = kept best key := by
  rw [kept, kept, Table.get?_put_of_ne (x := (gen, fit)) (Ne.symm h)]

/-- One record: the map has the greater of what it had and the fitness of an accepted record. -/
theorem kept_noteBest : kept (noteBest best r) key =
    if r.accepted && r.gen = key then max (kept best key) r.fitnessOrZero else kept best key := by
  unfold noteBest
  cases hacc : r.accepted with
  | false => simp
  | true =>
      by_cases hkey : r.gen = key
      · subst hkey
        simp only [↓reduceIte, Bool.true_and, decide_true]
        cases hget : best.get? r.gen with
        | none =>
            have hbot : kept best r.gen = ⊥ := by rw [kept, hget]
            rw [hbot, max_eq_right bot_le]
            exact kept_put _
        | some found =>
            obtain ⟨gen, fit⟩ := found
            have hfit : kept best r.gen = fit := by rw [kept, hget]
            simp only
            split_ifs with hgt
            · rw [kept_put, hfit, max_eq_right (WithBot.coe_le_coe.mpr hgt.le)]
            · rw [hfit, max_eq_left (WithBot.coe_le_coe.mpr (not_lt.mp hgt))]
      · simp only [↓reduceIte, Bool.true_and, hkey, decide_false, Bool.false_eq_true]
        cases best.get? r.gen with
        | none => exact kept_put_of_ne hkey
        | some found =>
            simp only
            split_ifs
            · exact kept_put_of_ne hkey
            · rfl

/-- The map knows the best accepted fitness of every key. -/
def Knows (best : BestPerGen) (rs : List HistoryRecord) : Prop := ∀ key, kept best key = bestOf rs key

theorem knows_empty : Knows .empty [] := fun _ => rfl

theorem Knows.noteBest (h : Knows best rs) (r : HistoryRecord) : Knows (noteBest best r) (rs ++ [r]) := by
  intro key
  rw [kept_noteBest, bestOf_append, h key]

/-- **The lines**: the map knows the records, unless a line is JSON and no object. -/
theorem readLines_eq (lines : List HistoryLine) (h : Knows best rs) :
    (HistoryLine.value ∈ lines ∧ readLines best lines = .error .attributeError) ∨
      (HistoryLine.value ∉ lines ∧ ∃ best', readLines best lines = .ok best' ∧ Knows best' (rs ++ records lines)) := by
  induction lines generalizing best rs with
  | nil => exact Or.inr ⟨by simp, best, rfl, by simpa [records] using h⟩
  | cons line lines ih =>
      cases line with
      | blank => simpa [readLines, records] using ih h
      | corrupt => simpa [readLines, records] using ih h
      | value => exact Or.inl ⟨List.mem_cons_self, rfl⟩
      | record r => simpa [readLines, records, List.append_assoc] using ih (h.noteBest r)

theorem mem_keys (h : Knows best rs) : key ∈ best.rows.map Prod.fst ↔ bestOf rs key ≠ ⊥ := by
  rw [← h key, kept]
  cases hget : best.get? key with
  | none =>
      have hnone := Table.get?_eq_none.mp hget
      refine iff_of_false (fun hmem => ?_) (fun hne => hne rfl)
      obtain ⟨x, hx, hkey⟩ := List.mem_map.mp hmem
      exact hnone x hx hkey
  | some x =>
      obtain ⟨hx, rfl⟩ := Table.get?_eq_some.mp hget
      exact iff_of_true (List.mem_map_of_mem hx) WithBot.coe_ne_bot

theorem coe_at (h : Knows best rs) (hkey : bestOf rs key ≠ ⊥) : (best.at key : WithBot Fitness) = bestOf rs key := by
  have hk := h key
  unfold kept at hk
  unfold BestPerGen.at
  cases hget : best.get? key with
  | none =>
      rw [hget] at hk
      exact absurd hk.symm hkey
  | some x =>
      rw [hget] at hk
      exact hk

/-! ## The count -/

theorem mem_generations : g ∈ generations rs ↔ ∃ r ∈ rs, r.gen = some g := by
  simp [generations]

theorem mem_generations_of_accepted (h : bestOf rs (some g) ≠ ⊥) : g ∈ generations rs := by
  rw [Ne, bestOf_eq_bot] at h
  push Not at h
  obtain ⟨r, hr, -, hgen⟩ := h
  exact mem_generations.mpr ⟨r, hr, hgen⟩

/-- Only generations with an accepted record can be improved on. -/
theorem improves_iff {gens : List ℤ} (hgens : ∀ g, g ∈ gens ↔ bestOf rs (some g) ≠ ⊥) (hbest : Knows best rs)
    (hg : g ∈ gens) : Improves rs g ↔ Stall.Record (fun g => best.at (some g)) gens g := by
  have hcoe : ∀ g ∈ gens, (best.at (some g) : WithBot Fitness) = bestOf rs (some g) :=
    fun g hg => coe_at hbest ((hgens g).mp hg)
  constructor
  · rintro ⟨-, h⟩ g' hg' hlt
    have hless := h g' (mem_generations_of_accepted ((hgens g').mp hg')) hlt
    rw [← hcoe g' hg', ← hcoe g hg] at hless
    exact WithBot.coe_lt_coe.mp hless
  · intro h
    refine ⟨(hgens g).mp hg, fun g' _ hlt => ?_⟩
    by_cases hg' : g' ∈ gens
    · rw [← hcoe g' hg', ← hcoe g hg]
      exact WithBot.coe_lt_coe.mpr (h g' hg' hlt)
    · rw [not_not.mp (mt (hgens g').mpr hg'), bot_lt_iff_ne_bot]
      exact (hgens g).mp hg

/-- What the count gives when it gives something: the stalled generations that have an accepted record. -/
theorem filter_stalled {gens : List ℤ} (hgens : ∀ g, g ∈ gens ↔ bestOf rs (some g) ≠ ⊥) (hbest : Knows best rs)
    (hsorted : gens.Pairwise (· < ·)) :
    (gens.filter fun g => Stall.Stalled (fun g => best.at (some g)) gens g).length =
      ((stalledGenerations rs).filter fun g => bestOf rs (some g) ≠ ⊥).card := by
  have hnodup : (gens.filter fun g => Stall.Stalled (fun g => best.at (some g)) gens g).Nodup :=
    (hsorted.imp fun h => ne_of_lt h).filter _
  rw [← List.toFinset_card_of_nodup hnodup]
  congr 1
  ext g
  simp only [List.mem_toFinset, List.mem_filter, decide_eq_true_eq, Finset.mem_filter, stalledGenerations]
  constructor
  · rintro ⟨hg, hstalled⟩
    refine ⟨⟨mem_generations_of_accepted ((hgens g).mp hg), fun g' _ hle himp => ?_⟩, (hgens g).mp hg⟩
    have hg' := (hgens g').mpr himp.1
    exact hstalled g' hg' hle ((improves_iff hgens hbest hg').mp himp)
  · rintro ⟨⟨-, hstalled⟩, hacc⟩
    refine ⟨(hgens g).mpr hacc, fun g' hg' hle hrecord => ?_⟩
    exact hstalled g' (mem_generations_of_accepted ((hgens g').mp hg')) hle
      ((improves_iff hgens hbest hg').mpr hrecord)

/-- An accepted record without a generation beside one with it. -/
def MixedGens (rs : List HistoryRecord) : Prop := bestOf rs none ≠ ⊥ ∧ ∃ g : ℤ, bestOf rs (some g) ≠ ⊥

theorem nodup_length_two {keys : List (Option ℤ)} (hnodup : keys.Nodup) (hnone : none ∈ keys) :
    2 ≤ keys.length ↔ ∃ g : ℤ, some g ∈ keys := by
  constructor
  · intro hlen
    by_contra hno
    push Not at hno
    have hall : ∀ k ∈ keys, k = none := by
      intro k hk
      cases k with
      | none => rfl
      | some g => exact absurd hk (hno g)
    have hrep := List.eq_replicate_of_mem hall
    rw [hrep, List.nodup_replicate] at hnodup
    omega
  · rintro ⟨g, hg⟩
    by_contra hlt
    match keys, hnone, hg with
    | [k], hnone, hg =>
        rw [List.mem_singleton] at hnone hg
        rw [← hnone] at hg
        cases hg
    | _ :: _ :: _, _, _ => simp at hlt

/-- The loop over sorted generations. -/
theorem count_of_sorted {gens : List ℤ} (hsorted : gens.Pairwise (· < ·)) :
    (match gens.map some with
      | [] => 0
      | first :: rest => (rest.foldl (plateauStep best) (best.at first, 0)).2) =
      (gens.filter fun g => Stall.Stalled (fun g => best.at (some g)) gens g).length := by
  cases gens with
  | nil => rfl
  | cons first rest =>
      simp only [List.map_cons, List.foldl_map]
      exact (Stall.foldl_step (f := fun g => best.at (some g)) hsorted).count

/-- Keys that are all generations, sorted. -/
theorem sortedGens_of_some {keys : List (Option ℤ)} (hnodup : keys.Nodup) (hsome : none ∉ keys) :
    ∃ gens : List ℤ, sortedGens keys = .ok (gens.map some) ∧ gens.Pairwise (· < ·) ∧
      ∀ g, g ∈ gens ↔ some g ∈ keys := by
  have hperm := List.perm_insertionSort (fun a b : Option ℤ => a.getD 0 ≤ b.getD 0) keys
  obtain ⟨gens, hgens⟩ : ∃ gens : List ℤ,
      keys.insertionSort (fun a b => a.getD 0 ≤ b.getD 0) = gens.map some := by
    refine ⟨(keys.insertionSort fun a b => a.getD 0 ≤ b.getD 0).map (·.getD 0), ?_⟩
    rw [List.map_map]
    refine (List.map_id _).symm.trans (List.map_congr_left fun k hk => ?_)
    cases k with
    | none => exact absurd (hperm.mem_iff.mp hk) hsome
    | some g => rfl
  refine ⟨gens, ?_, ?_, fun g => ?_⟩
  · rw [sortedGens, if_neg fun h => hsome h.1, hgens]
  · have hle : gens.Pairwise (· ≤ ·) := by
      have h := List.pairwise_insertionSort (fun a b : Option ℤ => a.getD 0 ≤ b.getD 0) keys
      rw [hgens, List.pairwise_map] at h
      exact h
    have hne : gens.Nodup := by
      have h := hperm.nodup_iff.mpr hnodup
      rw [hgens] at h
      exact h.of_map _
    exact (hle.and hne).imp fun h => lt_of_le_of_ne h.1 h.2
  · rw [← hperm.mem_iff, hgens, List.mem_map_of_injective (Option.some_injective ℤ)]

/-- **The count**: it raises, or it is the number of the stalled generations that have an accepted record. -/
theorem plateauCount_some (lines : List HistoryLine) :
    (HistoryLine.value ∈ lines ∧ plateauCountFromHistory (some lines) = .error .attributeError) ∨
      (HistoryLine.value ∉ lines ∧ MixedGens (records lines) ∧
        plateauCountFromHistory (some lines) = .error .typeError) ∨
      (HistoryLine.value ∉ lines ∧ ¬ MixedGens (records lines) ∧ plateauCountFromHistory (some lines) =
        .ok ((stalledGenerations (records lines)).filter fun g => bestOf (records lines) (some g) ≠ ⊥).card) := by
  simp only [plateauCountFromHistory]
  rcases readLines_eq lines knows_empty with ⟨hvalue, hread⟩ | ⟨hvalue, best, hread, hbest⟩
  · exact Or.inl ⟨hvalue, by rw [hread]; rfl⟩
  rw [List.nil_append] at hbest
  have hnodup : (best.rows.map Prod.fst).Nodup := best.keys
  have hread' : ∀ f : BestPerGen → Except HistoryError ℕ, (readLines .empty lines >>= f) = f best := fun f => by
    rw [hread]
    rfl
  refine Or.inr ?_
  rw [hread']
  by_cases hnone : none ∈ best.rows.map Prod.fst
  · have hkey := (mem_keys hbest).mp hnone
    by_cases hmixed : MixedGens (records lines)
    · refine Or.inl ⟨hvalue, hmixed, ?_⟩
      obtain ⟨g, hg⟩ := hmixed.2
      have hlen := (nodup_length_two hnodup hnone).mpr ⟨g, (mem_keys hbest).mpr hg⟩
      rw [sortedGens, if_pos ⟨hnone, hlen⟩]
      rfl
    · refine Or.inr ⟨hvalue, hmixed, ?_⟩
      have hno : ∀ g : ℤ, bestOf (records lines) (some g) = ⊥ := fun g => by
        by_contra hg
        exact hmixed ⟨hkey, g, hg⟩
      have hone : best.rows.map Prod.fst = [none] := by
        have hlen : ¬ 2 ≤ (best.rows.map Prod.fst).length := fun hlen => by
          obtain ⟨g, hg⟩ := (nodup_length_two hnodup hnone).mp hlen
          exact (mem_keys hbest).mp hg (hno g)
        obtain ⟨k, hk⟩ := List.length_eq_one_iff.mp
          (le_antisymm (by omega) (List.length_pos_of_mem hnone))
        rw [hk, List.mem_singleton] at hnone
        rw [hk, hnone]
      have hzero : ((stalledGenerations (records lines)).filter fun g => bestOf (records lines) (some g) ≠ ⊥) = ∅ :=
        Finset.filter_false_of_mem fun g _ hg => hg (hno g)
      have hsorted : sortedGens [none] = .ok [none] := rfl
      rw [hone, hzero, hsorted]
      rfl
  · refine Or.inr ⟨hvalue, fun hmixed => hnone ((mem_keys hbest).mpr hmixed.1), ?_⟩
    obtain ⟨gens, hgens, hsorted, hmem⟩ := sortedGens_of_some hnodup hnone
    rw [hgens, ← filter_stalled (fun g => (hmem g).trans (mem_keys hbest)) hbest hsorted, ← count_of_sorted hsorted]
    cases gens <;> rfl

end CryptoAggHarmonic.Loop
