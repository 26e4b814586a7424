import Mathlib.Data.List.Perm.Basic
import Mathlib.Data.List.Nodup

/-!
# The front of a growing set

A list kept free of dominated elements and of equal keys while elements are offered to it one at a time. What was
refused or removed is forgotten; still the front is always that of all elements offered so far, because dominance is
transitive and elements of one key dominate, and are dominated by, the same ones.
-/

namespace Fronts

variable {α κ : Type*} {dom : α → α → Bool} {key : α → κ} {offered front : List α} {p q : α}

/-- The front with `p`, or nothing when the front stays as it is. -/
def insert [DecidableEq κ] (dom : α → α → Bool) (key : α → κ) (front : List α) (p : α) : Option (List α) :=
  if front.any fun q => key q = key p then none
  else if (front.filter fun q => !dom p q).any fun q => dom q p then none
  else some ((front.filter fun q => !dom p q) ++ [p])

/-- Dominance is a strict order, and the key of an offered element decides what it dominates. -/
structure Ordered (dom : α → α → Bool) (key : α → κ) (offered : List α) : Prop where
  irrefl : ∀ p, dom p p = false
  trans : ∀ p q r, dom p q → dom q r → dom p r
  below : ∀ p ∈ offered, ∀ q ∈ offered, key p = key q → ∀ r, dom p r = dom q r
  above : ∀ p ∈ offered, ∀ q ∈ offered, key p = key q → ∀ r, dom r p = dom r q

def Maximal (dom : α → α → Bool) (offered : List α) (q : α) : Prop := ∀ p ∈ offered, dom p q = false

structure IsFront [DecidableEq κ] (dom : α → α → Bool) (key : α → κ) (offered front : List α) : Prop where
  first : ∀ q ∈ front, offered.find? (fun p => key p = key q) = some q
  nodup : (front.map key).Nodup
  antichain : ∀ p ∈ front, ∀ q ∈ front, dom p q = false
  covers : ∀ p ∈ offered, (∃ q ∈ front, key q = key p) ∨ ∃ q ∈ front, dom q p

variable [DecidableEq κ]

theorem isFront_nil : IsFront dom key [] [] := by
  constructor <;> simp

namespace IsFront

theorem mem_offered (h : IsFront dom key offered front) (hq : q ∈ front) : q ∈ offered :=
  List.mem_of_find?_eq_some (h.first q hq)

/-! ## One offer -/

theorem first_append (h : IsFront dom key offered front) (p : α) (hq : q ∈ front) :
    (offered ++ [p]).find? (fun r => key r = key q) = some q := by
  rw [List.find?_append, h.first q hq, Option.some_or]

theorem refuse (h : IsFront dom key offered front)
    (hp : (∃ q ∈ front, key q = key p) ∨ ∃ q ∈ front, dom q p) : IsFront dom key (offered ++ [p]) front where
  first := fun _ hq => h.first_append p hq
  nodup := h.nodup
  antichain := h.antichain
  covers := fun r hr => by
    rcases List.mem_append.mp hr with hr | hr
    · exact h.covers r hr
    · rw [List.mem_singleton.mp hr]
      exact hp

theorem enter (ho : Ordered dom key (offered ++ [p])) (h : IsFront dom key offered front)
    (hkey : ∀ q ∈ front, key q ≠ key p) (hdom : ∀ q ∈ front, dom p q = false → dom q p = false) :
    IsFront dom key (offered ++ [p]) (front.filter (fun q => !dom p q) ++ [p]) := by
  have hp : p ∈ offered ++ [p] := by simp
  -- Neither a member that `p` removes nor one that stays dominates `p`.
  have hnone : ∀ q ∈ front, dom q p = false := by
    intro q hq
    cases hpq : dom p q with
    | false => exact hdom q hq hpq
    | true =>
        by_contra hqp
        have := ho.trans p q p hpq (by simpa using hqp)
        rw [ho.irrefl p] at this
        cases this
  have hfresh : ∀ r ∈ offered, key r ≠ key p := by
    intro r hr hrp
    have hr' := List.mem_append_left [p] hr
    rcases h.covers r hr with ⟨q, hq, hqr⟩ | ⟨q, hq, hqr⟩
    · exact hkey q hq (hqr.trans hrp)
    · rw [ho.above r hr' p hp hrp, hnone q hq] at hqr
      cases hqr
  refine ⟨fun q hq => ?_, ?_, fun a ha b hb => ?_, fun r hr => ?_⟩
  · rcases List.mem_append.mp hq with hq | hq
    · exact h.first_append p (List.mem_filter.mp hq).1
    · rw [List.mem_singleton.mp hq, List.find?_append, List.find?_eq_none.mpr (by simpa using hfresh)]
      simp
  · rw [List.map_append, List.map_singleton, List.nodup_append]
    refine ⟨h.nodup.sublist (List.filter_sublist.map key), by simp, ?_⟩
    intro k hk k' hk'
    obtain ⟨q, hq, rfl⟩ := List.mem_map.mp hk
    rw [List.mem_singleton.mp hk']
    exact hkey q (List.mem_filter.mp hq).1
  · rcases List.mem_append.mp ha with ha | ha <;> rcases List.mem_append.mp hb with hb | hb
    · exact h.antichain a (List.mem_filter.mp ha).1 b (List.mem_filter.mp hb).1
    · rw [List.mem_singleton.mp hb]
      exact hnone a (List.mem_filter.mp ha).1
    · rw [List.mem_singleton.mp ha]
      simpa using (List.mem_filter.mp hb).2
    · rw [List.mem_singleton.mp ha, List.mem_singleton.mp hb]
      exact ho.irrefl p
  · -- What a removed member covered is dominated by `p`.
    have hstays : ∀ q ∈ front, q ∈ front.filter (fun q => !dom p q) ++ [p] ∨ dom p q := by
      intro q hq
      cases hpq : dom p q with
      | false => exact Or.inl (List.mem_append_left _ (List.mem_filter.mpr ⟨hq, by simp [hpq]⟩))
      | true => exact Or.inr rfl
    rcases List.mem_append.mp hr with hr | hr
    · have hr' := List.mem_append_left [p] hr
      rcases h.covers r hr with ⟨q, hq, hqr⟩ | ⟨q, hq, hqr⟩
      · rcases hstays q hq with hmem | hpq
        · exact Or.inl ⟨q, hmem, hqr⟩
        · refine Or.inr ⟨p, by simp, ?_⟩
          rwa [← ho.above q (List.mem_append_left _ (h.mem_offered hq)) r hr' hqr p]
      · rcases hstays q hq with hmem | hpq
        · exact Or.inr ⟨q, hmem, hqr⟩
        · exact Or.inr ⟨p, by simp, ho.trans p q r hpq hqr⟩
    · exact Or.inl ⟨p, by simp, by rw [List.mem_singleton.mp hr]⟩

/-- **One offer** keeps the front that of all offers. -/
theorem insert (ho : Ordered dom key (offered ++ [p])) (h : IsFront dom key offered front) :
    IsFront dom key (offered ++ [p]) ((Fronts.insert dom key front p).getD front) := by
  unfold Fronts.insert
  split_ifs with hkey hdom
  · obtain ⟨q, hq, hqp⟩ := List.any_eq_true.mp hkey
    exact h.refuse (Or.inl ⟨q, hq, of_decide_eq_true hqp⟩)
  · obtain ⟨q, hq, hqp⟩ := List.any_eq_true.mp hdom
    exact h.refuse (Or.inr ⟨q, List.mem_of_mem_filter hq, hqp⟩)
  · rw [List.any_eq_true] at hkey hdom
    refine h.enter ho (fun q hq hqp => hkey ⟨q, hq, decide_eq_true hqp⟩) fun q hq hpq => ?_
    by_contra hqp
    rw [Bool.not_eq_false] at hqp
    exact hdom ⟨q, List.mem_filter.mpr ⟨hq, by rw [hpq]; rfl⟩, hqp⟩

/-! ## What a front is -/

theorem maximal (ho : Ordered dom key offered) (h : IsFront dom key offered front) (hq : q ∈ front) :
    Maximal dom offered q := by
  intro r hr
  by_contra hrq
  rw [Bool.not_eq_false] at hrq
  rcases h.covers r hr with ⟨s, hs, hsr⟩ | ⟨s, hs, hsr⟩
  · rw [← ho.below s (h.mem_offered hs) r hr hsr q, h.antichain s hs q hq] at hrq
    cases hrq
  · have := ho.trans s r q hsr hrq
    rw [h.antichain s hs q hq] at this
    cases this

/-- The keys of the front are those of the maximal elements. -/
theorem key_mem_iff (ho : Ordered dom key offered) (h : IsFront dom key offered front) (hp : p ∈ offered) :
    (∃ q ∈ front, key q = key p) ↔ Maximal dom offered p := by
  constructor
  · rintro ⟨q, hq, hqp⟩ r hr
    rw [← ho.above q (h.mem_offered hq) p hp hqp r]
    exact h.maximal ho hq r hr
  · intro hmax
    rcases h.covers p hp with hkey | ⟨q, hq, hqp⟩
    · exact hkey
    · rw [hmax q (h.mem_offered hq)] at hqp
      cases hqp

/-- **A front is the first maximal element of each key.** -/
theorem mem_iff (ho : Ordered dom key offered) (h : IsFront dom key offered front) :
    q ∈ front ↔ Maximal dom offered q ∧ offered.find? (fun p => key p = key q) = some q := by
  refine ⟨fun hq => ⟨h.maximal ho hq, h.first q hq⟩, fun ⟨hmax, hfirst⟩ => ?_⟩
  obtain ⟨r, hr, hrq⟩ := (h.key_mem_iff ho (List.mem_of_find?_eq_some hfirst)).mpr hmax
  have := h.first r hr
  rw [hrq, hfirst] at this
  exact Option.some.inj this ▸ hr

/-- Fronts of the same elements, offered in any order, have the same keys. -/
theorem perm {offered' front' : List α} (ho : Ordered dom key offered) (ho' : Ordered dom key offered')
    (h : IsFront dom key offered front) (h' : IsFront dom key offered' front')
    (hsame : ∀ p, p ∈ offered' ↔ p ∈ offered) : (front.map key).Perm (front'.map key) := by
  have hmaximal : ∀ p, Maximal dom offered' p ↔ Maximal dom offered p := fun p =>
    ⟨fun hp q hq => hp q ((hsame q).mpr hq), fun hp q hq => hp q ((hsame q).mp hq)⟩
  rw [List.perm_ext_iff_of_nodup h.nodup h'.nodup]
  intro k
  simp only [List.mem_map]
  constructor
  · rintro ⟨q, hq, rfl⟩
    exact (h'.key_mem_iff ho' ((hsame q).mpr (h.mem_offered hq))).mpr ((hmaximal q).mpr (h.maximal ho hq))
  · rintro ⟨q, hq, rfl⟩
    exact (h.key_mem_iff ho ((hsame q).mp (h'.mem_offered hq))).mpr ((hmaximal q).mp (h'.maximal ho' hq))

end IsFront

end Fronts
