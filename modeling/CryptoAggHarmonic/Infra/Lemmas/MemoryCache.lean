import Mathlib.Data.List.DropRight
import Mathlib.Data.List.Dedup
import CryptoAggHarmonic.Infra.KlineCache
import CryptoAggHarmonic.Lib.Steps

/-!
# The memory cache over a history of operations
-/

namespace CryptoAggHarmonic.Infra.MemoryCache

open PyOs

variable {β : Type} {c : MemoryCache β} {key k : Text} {value v : β} {now expiresAt t : ℚ} {others : List Text}
  {item : Text × ℚ × β} {data : List (Text × ℚ × β)} {entry : ℚ × β} {o : ℚ × Op β} {ops : List (ℚ × Op β)}

/-! ## The operations -/

/-- The entries of the other keys. -/
abbrev without (key : Text) (data : List (Text × ℚ × β)) : List (Text × ℚ × β) := data.filter fun item => item.1 ≠ key

theorem mem_without : item ∈ without key data ↔ item ∈ data ∧ item.1 ≠ key := by
  simp [without]

theorem length_without (h : (key, entry) ∈ data) : (without key data).length < data.length :=
  List.length_filter_lt_length_iff_exists.mpr ⟨_, h, by simp⟩

theorem nodup_without (h : (data.map Prod.fst).Nodup) (key : Text) : ((without key data).map Prod.fst).Nodup :=
  h.sublist (List.filter_sublist.map Prod.fst)

theorem nodup_moved (h : (data.map Prod.fst).Nodup) (key : Text) (entry : ℚ × β) :
    ((without key data ++ [(key, entry)]).map Prod.fst).Nodup := by
  rw [List.map_append, List.map_singleton, List.nodup_append]
  refine ⟨nodup_without h key, List.nodup_singleton _, ?_⟩
  intro a ha b hb heq
  obtain ⟨item, hitem, hkey⟩ := List.mem_map.mp ha
  refine (mem_without.mp hitem).2 ?_
  rw [hkey, heq, List.mem_singleton.mp hb]

/-- A read finds nothing, drops what has expired, or moves the entry to the end. -/
theorem get_cases (c : MemoryCache β) (now : ℚ) (key : Text) :
    ((∀ item ∈ c.data, item.1 ≠ key) ∧ c.get now key = (c, none)) ∨
    ∃ expiresAt value, (key, expiresAt, value) ∈ c.data ∧
      ((expiresAt < now ∧ c.get now key = ({ c with data := without key c.data }, none)) ∨
        (now ≤ expiresAt ∧
          c.get now key = ({ c with data := without key c.data ++ [(key, expiresAt, value)] }, some value))) := by
  unfold get
  cases hfind : c.data.find? fun item => item.1 = key with
  | none => exact Or.inl ⟨fun item hitem => by simpa using List.find?_eq_none.mp hfind item hitem, rfl⟩
  | some item =>
      obtain ⟨found, expiresAt, value⟩ := item
      obtain rfl : found = key := by simpa using List.find?_some hfind
      refine Or.inr ⟨expiresAt, value, List.mem_of_find?_eq_some hfind, ?_⟩
      by_cases hold : now > expiresAt
      · exact Or.inl ⟨hold, if_pos hold⟩
      · exact Or.inr ⟨not_lt.mp hold, if_neg hold⟩

theorem delete_eq (c : MemoryCache β) (key : Text) : (c.delete key).1 = { c with data := without key c.data } := by
  unfold delete
  split_ifs with hany
  · rfl
  · have hself : without key c.data = c.data := by
      refine List.filter_eq_self.mpr fun item hitem => ?_
      simp only [List.any_eq_true, decide_eq_true_eq, not_exists, not_and] at hany
      simpa using hany item hitem
    rw [hself]

theorem step_config (c : MemoryCache β) (o : ℚ × Op β) :
    (c.step o).maxSize = c.maxSize ∧ (c.step o).ttlSeconds = c.ttlSeconds := by
  obtain ⟨now, op⟩ := o
  cases op with
  | set key value => exact ⟨rfl, rfl⟩
  | get key =>
      change (c.get now key).1.maxSize = c.maxSize ∧ (c.get now key).1.ttlSeconds = c.ttlSeconds
      rcases get_cases c now key with ⟨-, hget⟩ | ⟨_, _, -, ⟨-, hget⟩ | ⟨-, hget⟩⟩ <;> rw [hget] <;> exact ⟨rfl, rfl⟩
  | delete key =>
      change (c.delete key).1.maxSize = c.maxSize ∧ (c.delete key).1.ttlSeconds = c.ttlSeconds
      rw [delete_eq]
      exact ⟨rfl, rfl⟩
  | clear => exact ⟨rfl, rfl⟩

/-- One entry for a key, and no more entries than the capacity. -/
structure Bounded (c : MemoryCache β) : Prop where
  keys : (c.data.map Prod.fst).Nodup
  length : c.data.length ≤ c.maxSize

theorem Bounded.step (h : c.Bounded) (o : ℚ × Op β) : (c.step o).Bounded := by
  obtain ⟨now, op⟩ := o
  cases op with
  | set key value =>
      constructor
      · exact (nodup_moved h.keys key _).sublist ((List.drop_sublist _ _).map Prod.fst)
      · change (List.drop _ _).length ≤ c.maxSize
        rw [List.length_drop]
        omega
  | get key =>
      change (c.get now key).1.Bounded
      rcases get_cases c now key with ⟨-, hget⟩ | ⟨expiresAt, value, hmem, ⟨-, hget⟩ | ⟨-, hget⟩⟩ <;> rw [hget]
      · exact h
      · exact ⟨nodup_without h.keys key, (length_without hmem).le.trans h.length⟩
      · refine ⟨nodup_moved h.keys key _, ?_⟩
        rw [List.length_append, List.length_singleton]
        exact (length_without hmem).trans_le h.length
  | delete key =>
      change (c.delete key).1.Bounded
      rw [delete_eq]
      exact ⟨nodup_without h.keys key, (List.length_filter_le _ _).trans h.length⟩
  | clear => exact ⟨List.nodup_nil, Nat.zero_le _⟩

/-! ## The history -/

/-- When the key was last set and to what, unless it was deleted since. -/
def lastSet (key : Text) (ops : List (ℚ × Op β)) : Option (ℚ × β) :=
  ops.foldl (fun last o =>
    match o.2 with
    | .set k value => if k = key then some (o.1, value) else last
    | .get _ => last
    | .delete k => if k = key then none else last
    | .clear => none) none

/-- The key that is set or successfully read. -/
def used (c : MemoryCache β) (o : ℚ × Op β) : Option Text :=
  match o.2 with
  | .set key _ => some key
  | .get key => (c.get o.1 key).2.map fun _ => key
  | .delete _ => none
  | .clear => none

/-- The keys that are set or successfully read, one after the other. -/
def usedAlong : MemoryCache β → List (ℚ × Op β) → List Text
  | _, [] => []
  | c, o :: ops => (c.used o).toList ++ usedAlong (c.step o) ops

/-- The other keys that are used after the last use of the key. -/
def othersSince (key : Text) (c : MemoryCache β) (ops : List (ℚ × Op β)) : List Text :=
  (c.usedAlong ops).rtakeWhile (· ≠ key)

theorem run_snoc (c : MemoryCache β) : Steps.run step c (ops ++ [o]) = (Steps.run step c ops).step o := by
  simp [Steps.run]

theorem usedAlong_snoc (c : MemoryCache β) :
    c.usedAlong (ops ++ [o]) = c.usedAlong ops ++ ((Steps.run step c ops).used o).toList := by
  induction ops generalizing c with
  | nil => simp [usedAlong, Steps.run]
  | cons first ops ih => simp only [List.cons_append, usedAlong, ih, Steps.run_cons, List.append_assoc]

theorem lastSet_snoc (key : Text) : lastSet key (ops ++ [o]) =
    match o.2 with
    | .set k value => if k = key then some (o.1, value) else lastSet key ops
    | .get _ => lastSet key ops
    | .delete k => if k = key then none else lastSet key ops
    | .clear => none := by
  simp [lastSet]

theorem othersSince_unused (h : (Steps.run step c ops).used o = none) :
    othersSince key c (ops ++ [o]) = othersSince key c ops := by
  rw [othersSince, usedAlong_snoc, h]
  simp [othersSince]

theorem othersSince_other (h : (Steps.run step c ops).used o = some k) (hk : k ≠ key) :
    othersSince key c (ops ++ [o]) = othersSince key c ops ++ [k] := by
  rw [othersSince, usedAlong_snoc, h]
  exact List.rtakeWhile_concat_pos _ _ _ (by simpa using hk)

/-! ## What is fresh -/

/-- Every entry has what was last set for its key. -/
def Fresh (ops : List (ℚ × Op β)) (c : MemoryCache β) : Prop :=
  ∀ key expiresAt value, (key, expiresAt, value) ∈ c.data →
    ∃ t, lastSet key ops = some (t, value) ∧ expiresAt = t + c.ttlSeconds

theorem Fresh.step (h : c.Fresh ops) (o : ℚ × Op β) : (c.step o).Fresh (ops ++ [o]) := by
  intro key expiresAt value hmem
  rw [lastSet_snoc, (step_config c o).2]
  obtain ⟨now, op⟩ := o
  cases op with
  | set k v =>
      rcases List.mem_append.mp (List.mem_of_mem_drop hmem) with hold | hnew
      · obtain ⟨hold, hother⟩ := mem_without.mp hold
        obtain ⟨t, hlast, hexpires⟩ := h _ _ _ hold
        exact ⟨t, (if_neg (Ne.symm hother)).trans hlast, hexpires⟩
      · cases List.mem_singleton.mp hnew
        exact ⟨now, if_pos rfl, rfl⟩
  | get k =>
      change (key, expiresAt, value) ∈ (c.get now k).1.data at hmem
      refine h _ _ _ ?_
      rcases get_cases c now k with ⟨-, hget⟩ | ⟨_, _, hin, ⟨-, hget⟩ | ⟨-, hget⟩⟩ <;> rw [hget] at hmem
      · exact hmem
      · exact (mem_without.mp hmem).1
      · rcases List.mem_append.mp hmem with hold | hmoved
        · exact (mem_without.mp hold).1
        · cases List.mem_singleton.mp hmoved
          exact hin
  | delete k =>
      change (key, expiresAt, value) ∈ (c.delete k).1.data at hmem
      rw [delete_eq] at hmem
      obtain ⟨hold, hother⟩ := mem_without.mp hmem
      obtain ⟨t, hlast, hexpires⟩ := h _ _ _ hold
      exact ⟨t, (if_neg (Ne.symm hother)).trans hlast, hexpires⟩
  | clear => cases hmem

/-! ## What is kept -/

/-- The entry is there, and after it come entries of the given keys only. -/
def Holds (data : List (Text × ℚ × β)) (key : Text) (entry : ℚ × β) (others : List Text) : Prop :=
  ∃ front back, data = front ++ (key, entry) :: back ∧ ∀ item ∈ back, item.1 ∈ others

theorem Holds.mem (h : Holds data key entry others) : (key, entry) ∈ data := by
  obtain ⟨front, back, rfl, -⟩ := h
  simp

theorem Holds.without (h : Holds data key entry others) (hk : k ≠ key) :
    Holds (without k data) key entry others := by
  obtain ⟨front, back, rfl, hback⟩ := h
  refine ⟨MemoryCache.without k front, MemoryCache.without k back, ?_, fun item hitem => ?_⟩
  · rw [MemoryCache.without, List.filter_append, List.filter_cons_of_pos (by simpa using Ne.symm hk)]
  · exact hback item (mem_without.mp hitem).1

theorem Holds.move (h : Holds data key entry others) (hk : k ≠ key) (moved : ℚ × β) :
    Holds (MemoryCache.without k data ++ [(k, moved)]) key entry (others ++ [k]) := by
  obtain ⟨front, back, hdata, hback⟩ := h.without hk
  refine ⟨front, back ++ [(k, moved)], by rw [hdata]; simp, fun item hitem => ?_⟩
  rcases List.mem_append.mp hitem with hold | hnew
  · exact List.mem_append_left _ (hback item hold)
  · rw [List.mem_singleton.mp hnew]
    simp

/-- Few other keys leave the entry where it is. -/
theorem Holds.evict (h : Holds data key entry others) (hkeys : (data.map Prod.fst).Nodup) {m : ℕ}
    (hfew : others.dedup.length < m) : Holds (data.drop (data.length - m)) key entry others := by
  obtain ⟨front, back, rfl, hback⟩ := h
  have hlength : back.length ≤ others.dedup.length := by
    have hnodup : (back.map Prod.fst).Nodup := by
      refine hkeys.sublist (List.Sublist.map _ ?_)
      exact (List.sublist_cons_self _ _).trans (List.sublist_append_right _ _)
    have hsub : back.map Prod.fst ⊆ others.dedup := by
      intro a ha
      obtain ⟨item, hitem, rfl⟩ := List.mem_map.mp ha
      exact List.mem_dedup.mpr (hback item hitem)
    rw [← List.length_map Prod.fst]
    exact (hnodup.subperm hsub).length_le
  refine ⟨front.drop ((front ++ (key, entry) :: back).length - m), back, ?_, hback⟩
  refine List.drop_append_of_le_length ?_
  rw [List.length_append, List.length_cons]
  omega

theorem length_dedup_le (others : List Text) (k : Text) : others.dedup.length ≤ (others ++ [k]).dedup.length := by
  refine (List.Nodup.subperm (List.nodup_dedup _) fun a ha => ?_).length_le
  exact List.mem_dedup.mpr (List.mem_append_left _ (List.mem_dedup.mp ha))

theorem Holds.mono {others' : List Text} (h : Holds data key entry others) (hsub : others ⊆ others') :
    Holds data key entry others' := by
  obtain ⟨front, back, hdata, hback⟩ := h
  exact ⟨front, back, hdata, fun item hitem => hsub (hback item hitem)⟩

theorem holds_last (front : List (Text × ℚ × β)) : Holds (front ++ [(key, entry)]) key entry [] :=
  ⟨front, [], rfl, fun _ hitem => absurd hitem List.not_mem_nil⟩

/-- What a key was last set to is there until it expires, while fewer other keys than the capacity are used. -/
def Retained (c₀ : MemoryCache β) (ops : List (ℚ × Op β)) (c : MemoryCache β) : Prop :=
  ∀ key t value, lastSet key ops = some (t, value) → (∀ o ∈ ops, o.1 ≤ t + c.ttlSeconds) →
    (othersSince key c₀ ops).dedup.length < c.maxSize →
      Holds c.data key (t + c.ttlSeconds, value) (othersSince key c₀ ops)

/-- The cache after a history. -/
structure Tracks (c₀ : MemoryCache β) (ops : List (ℚ × Op β)) (c : MemoryCache β) : Prop where
  run_eq : Steps.run step c₀ ops = c
  bounded : c.Bounded
  fresh : c.Fresh ops
  retained : Retained c₀ ops c

variable {c₀ : MemoryCache β}

theorem Tracks.entry_eq (h : Tracks c₀ ops c) (hlast : lastSet key ops = some (t, value))
    (hmem : (key, entry) ∈ c.data) : entry = (t + c.ttlSeconds, value) := by
  obtain ⟨t', hlast', hexpires⟩ := h.fresh key entry.1 entry.2 hmem
  rw [hlast, Option.some.injEq, Prod.mk.injEq] at hlast'
  rw [hlast'.1, hlast'.2, ← hexpires]

theorem Tracks.retained_step (h : Tracks c₀ ops c) (o : ℚ × Op β) : Retained c₀ (ops ++ [o]) (c.step o) := by
  intro key t value hlast hlive hfew
  obtain ⟨hmax, httl⟩ := step_config c o
  rw [hmax] at hfew
  rw [httl] at hlive ⊢
  rw [lastSet_snoc] at hlast
  have hbefore : ∀ a ∈ ops, a.1 ≤ t + c.ttlSeconds := fun a ha => hlive a (List.mem_append_left _ ha)
  obtain ⟨now, op⟩ := o
  have hnow : now ≤ t + c.ttlSeconds := hlive (now, op) (by simp)
  have hunused {op : Op β} (hnone : c.used (now, op) = none) :
      othersSince key c₀ (ops ++ [(now, op)]) = othersSince key c₀ ops :=
    othersSince_unused (by rw [h.run_eq, hnone])
  have hother {op : Op β} {k : Text} (hsome : c.used (now, op) = some k) (hk : k ≠ key) :
      othersSince key c₀ (ops ++ [(now, op)]) = othersSince key c₀ ops ++ [k] :=
    othersSince_other (by rw [h.run_eq, hsome]) hk
  cases op with
  | set k v =>
      by_cases hk : k = key
      · subst hk
        cases (if_pos rfl).symm.trans hlast
        have hheld := (holds_last (without k c.data)).evict (nodup_moved h.bounded.keys k (now + c.ttlSeconds, value))
          (Nat.zero_lt_of_lt hfew)
        exact hheld.mono (List.nil_subset _)
      · have hheld := h.retained key t value ((if_neg hk).symm.trans hlast) hbefore
        rw [hother rfl hk] at hfew ⊢
        exact ((hheld ((length_dedup_le _ k).trans_lt hfew)).move hk _).evict (nodup_moved h.bounded.keys k _) hfew
  | get k =>
      have hheld := h.retained key t value hlast hbefore
      change Holds (c.get now k).1.data _ _ _
      rcases get_cases c now k with ⟨-, hget⟩ | ⟨expiresAt, v, hmem, ⟨hold, hget⟩ | ⟨-, hget⟩⟩ <;> rw [hget]
      · rw [hunused (by simp [used, hget])] at hfew ⊢
        exact hheld hfew
      · have hk : k ≠ key := by
          rintro rfl
          have hentry := h.entry_eq hlast hmem
          rw [Prod.mk.injEq] at hentry
          exact absurd hnow (not_le.mpr (hentry.1 ▸ hold))
        rw [hunused (by simp [used, hget])] at hfew ⊢
        exact (hheld hfew).without hk
      · by_cases hk : k = key
        · subst hk
          rw [h.entry_eq hlast hmem]
          exact (holds_last _).mono (List.nil_subset _)
        · rw [hother (by simp [used, hget]) hk] at hfew ⊢
          exact (hheld ((length_dedup_le _ k).trans_lt hfew)).move hk _
  | delete k =>
      have hk : k ≠ key := by
        rintro rfl
        cases (if_pos rfl).symm.trans hlast
      have hheld := h.retained key t value ((if_neg hk).symm.trans hlast) hbefore
      change Holds (c.delete k).1.data _ _ _
      rw [hunused rfl] at hfew ⊢
      rw [delete_eq]
      exact (hheld hfew).without hk
  | clear => cases hlast

theorem Tracks.step (h : Tracks c₀ ops c) (o : ℚ × Op β) : Tracks c₀ (ops ++ [o]) (c.step o) where
  run_eq := by rw [run_snoc, h.run_eq]
  bounded := h.bounded.step o
  fresh := h.fresh.step o
  retained := h.retained_step o

theorem tracks_empty (h : c.data = []) : Tracks c [] c where
  run_eq := rfl
  bounded := by
    constructor <;> simp [h]
  fresh := by
    intro key expiresAt value hmem
    rw [h] at hmem
    cases hmem
  retained := by
    intro key t value hlast
    cases hlast

theorem tracks_run (h : c.data = []) (ops : List (ℚ × Op β)) : Tracks c ops (Steps.run step c ops) := by
  induction ops using List.reverseRecOn with
  | nil => exact tracks_empty h
  | append_singleton ops o ih =>
      rw [run_snoc]
      exact ih.step o

theorem run_config (c : MemoryCache β) (ops : List (ℚ × Op β)) :
    (Steps.run step c ops).maxSize = c.maxSize ∧ (Steps.run step c ops).ttlSeconds = c.ttlSeconds := by
  induction ops using List.reverseRecOn with
  | nil => exact ⟨rfl, rfl⟩
  | append_singleton ops o ih =>
      obtain ⟨hmax, httl⟩ := step_config (Steps.run step c ops) o
      rw [run_snoc, hmax, httl]
      exact ih

/-- What is read was last set, and has not expired. -/
theorem Tracks.get_sound (h : Tracks c₀ ops c) (hget : (c.get now key).2 = some value) :
    ∃ t, lastSet key ops = some (t, value) ∧ now ≤ t + c.ttlSeconds := by
  rcases get_cases c now key with ⟨-, heq⟩ | ⟨expiresAt, v, hmem, ⟨-, heq⟩ | ⟨hlive, heq⟩⟩ <;> rw [heq] at hget
  · cases hget
  · cases hget
  · cases hget
    obtain ⟨t, hlast, rfl⟩ := h.fresh _ _ _ hmem
    exact ⟨t, hlast, hlive⟩

theorem Tracks.get_retained (h : Tracks c₀ ops c) (hlast : lastSet key ops = some (t, value))
    (hbefore : ∀ o ∈ ops, o.1 ≤ now) (hlive : now ≤ t + c.ttlSeconds)
    (hfew : (othersSince key c₀ ops).dedup.length < c.maxSize) : (c.get now key).2 = some value := by
  have hheld := h.retained key t value hlast (fun o ho => (hbefore o ho).trans hlive) hfew
  rcases get_cases c now key with ⟨hnone, -⟩ | ⟨expiresAt, v, hmem, ⟨hold, -⟩ | ⟨-, heq⟩⟩
  · exact absurd rfl (hnone _ hheld.mem)
  · have hentry := h.entry_eq hlast hmem
    rw [Prod.mk.injEq] at hentry
    exact absurd hlive (not_le.mpr (hentry.1 ▸ hold))
  · have hentry := h.entry_eq hlast hmem
    rw [Prod.mk.injEq] at hentry
    rw [heq, hentry.2]

end CryptoAggHarmonic.Infra.MemoryCache
