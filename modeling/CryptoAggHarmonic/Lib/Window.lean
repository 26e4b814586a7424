import Mathlib.Data.List.DropRight
import Mathlib.Algebra.Order.Ring.Int
import Mathlib.Algebra.Order.Group.Defs
import Mathlib.Algebra.Order.Sub.Basic
import Mathlib.Data.List.Basic
import Mathlib.Order.Lattice

/-!
# Windows of an ascending list

Rows that ascend in an integer key, those of them whose key lies between two bounds, and the newest of these taken page
by page from the end.
-/

namespace Window

variable {α : Type} {key : α → ℤ} {l front back : List α} {a : α} {lo hi gap : ℤ} {m n : ℕ}

def Ascending (key : α → ℤ) (l : List α) : Prop := l.Pairwise fun a b => key a < key b

/-- Each key lies at least `gap` behind the one before. -/
def Spaced (key : α → ℤ) (gap : ℤ) (l : List α) : Prop := l.Pairwise fun a b => key a + gap ≤ key b

def between (key : α → ℤ) (lo hi : ℤ) (l : List α) : List α := l.filter fun a => lo ≤ key a ∧ key a ≤ hi

theorem Spaced.ascending (h : Spaced key gap l) (hgap : 0 < gap) : Ascending key l :=
  h.imp fun hab => by omega

theorem mem_between : a ∈ between key lo hi l ↔ a ∈ l ∧ lo ≤ key a ∧ key a ≤ hi := by
  simp [between]

theorem Ascending.between (h : Ascending key l) (lo hi : ℤ) : Ascending key (between key lo hi l) :=
  h.sublist List.filter_sublist

/-! ## The last rows -/

theorem rtake_of_length_le (h : l.length ≤ n) : l.rtake n = l := by
  rw [List.rtake, Nat.sub_eq_zero_of_le h, List.drop_zero]

theorem rtake_append (h : back.length = n) : (front ++ back).rtake (m + n) = front.rtake m ++ back := by
  subst h
  rw [List.rtake, List.rtake, List.length_append, Nat.add_sub_add_right, List.drop_append_of_le_length (Nat.sub_le _ _)]

theorem rdrop_append_rtake : l.rdrop n ++ l.rtake n = l := List.take_append_drop _ _

theorem length_rtake : (l.rtake n).length = min n l.length := by
  rw [List.rtake, List.length_drop]
  omega

theorem rtake_cons_of_le (h : n ≤ l.length) : (a :: l).rtake n = l.rtake n := by
  rw [List.rtake, List.rtake, List.length_cons, Nat.succ_sub h, List.drop_succ_cons]

/-- Below a bound on the keys, the last rows are the last of the rows below it. -/
theorem rtake_filter (h : Ascending key l) :
    (l.rtake n).filter (fun a => lo ≤ key a) = (l.filter fun a => lo ≤ key a).rtake n := by
  induction l with
  | nil => simp [List.rtake]
  | cons a l ih =>
      obtain ⟨ha, hl⟩ := List.pairwise_cons.mp h
      rcases Nat.lt_or_ge l.length n with hlong | hshort
      · rw [rtake_of_length_le (by rw [List.length_cons]; omega), rtake_of_length_le]
        have := List.length_filter_le (fun a => decide (lo ≤ key a)) (a :: l)
        rw [List.length_cons] at this
        omega
      · rw [rtake_cons_of_le hshort, ih hl]
        by_cases hlo : lo ≤ key a
        · have hall : l.filter (fun a => lo ≤ key a) = l := by
            rw [List.filter_eq_self]
            intro b hb
            have := ha b hb
            exact decide_eq_true (by omega)
          rw [List.filter_cons_of_pos (by simpa using hlo), hall, rtake_cons_of_le hshort]
        · rw [List.filter_cons_of_neg (by simpa using hlo)]

/-- What stands before a row of an ascending list is what lies below its key. -/
theorem between_before (h : Ascending key l) (hsplit : between key lo hi l = front ++ a :: back) :
    between key lo (key a - 1) l = front := by
  have hbetween := h.between lo hi
  rw [hsplit] at hbetween
  obtain ⟨-, hback, hfront⟩ := List.pairwise_append.mp hbetween
  have ha : a ∈ between key lo hi l := by
    rw [hsplit]
    exact List.mem_append_right _ List.mem_cons_self
  have hbelow : between key lo (key a - 1) l = (between key lo hi l).filter fun b => key b ≤ key a - 1 := by
    rw [between, between, List.filter_filter]
    refine List.filter_congr fun b _ => ?_
    have := (mem_between.mp ha).2
    simp only [← Bool.decide_and, decide_eq_decide]
    omega
  rw [hbelow, hsplit, List.filter_append]
  have hkeep : front.filter (fun b => key b ≤ key a - 1) = front := by
    rw [List.filter_eq_self]
    intro b hb
    have := hfront b hb a List.mem_cons_self
    exact decide_eq_true (by omega)
  have hdrop : (a :: back).filter (fun b => key b ≤ key a - 1) = [] := by
    rw [List.filter_eq_nil_iff]
    intro b hb
    rw [decide_eq_true_eq]
    rcases List.mem_cons.mp hb with rfl | hb
    · omega
    · have := (List.pairwise_cons.mp hback).1 b hb
      omega
  rw [hkeep, hdrop, List.append_nil]

/-- How many rows fit between two bounds. -/
theorem Spaced.length_le (h : Spaced key gap l) (hgap : 0 < gap) (hlo : ∀ a ∈ l, lo ≤ key a)
    (hhi : ∀ a ∈ l, key a ≤ hi) (hne : l ≠ []) : (l.length : ℤ) ≤ (hi - lo) / gap + 1 := by
  have hspan (a : α) (rest : List α) (hspaced : Spaced key gap (a :: rest)) (hrest : ∀ b ∈ a :: rest, key b ≤ hi) :
      (rest.length : ℤ) * gap ≤ hi - key a := by
    induction rest generalizing a with
    | nil =>
        have := hrest a List.mem_cons_self
        simp only [List.length_nil]
        omega
    | cons b rest ih =>
        obtain ⟨ha, hb⟩ := List.pairwise_cons.mp hspaced
        have hnext := ih b hb fun c hc => hrest c (List.mem_cons_of_mem _ hc)
        have hstep := ha b List.mem_cons_self
        rw [List.length_cons, Nat.cast_add, Nat.cast_one, add_mul, one_mul]
        omega
  obtain ⟨a, rest, rfl⟩ := List.exists_cons_of_ne_nil hne
  have hfits := hspan a rest h hhi
  have hfirst := hlo a List.mem_cons_self
  have : (rest.length : ℤ) ≤ (hi - lo) / gap := by
    rw [Int.le_ediv_iff_mul_le hgap]
    omega
  rw [List.length_cons, Nat.cast_add, Nat.cast_one]
  omega

end Window

/-!
# Logs of a sliding window

A log of the times of past events, from which what is older than a window is dropped. It answers for the whole history
as long as nobody asks about the past.
-/

namespace SlidingLog

section Recent

variable {τ : Type*} [LinearOrder τ] {cutoff later t : τ} {log : List τ}

def recent (cutoff : τ) (times : List τ) : List τ := times.filter (cutoff < ·)

theorem mem_recent : t ∈ recent cutoff log ↔ t ∈ log ∧ cutoff < t := by
  simp [recent]

theorem recent_append (log log' : List τ) : recent cutoff (log ++ log') = recent cutoff log ++ recent cutoff log' :=
  List.filter_append ..

/-- What is dropped once is dropped later as well. -/
theorem recent_recent (h : cutoff ≤ later) : recent later (recent cutoff log) = recent later log := by
  unfold recent
  rw [List.filter_filter]
  refine List.filter_congr fun t _ => ?_
  by_cases hlater : later < t
  · simp [hlater, h.trans_lt hlater]
  · simp [hlater]

theorem length_recent_le : (recent cutoff log).length ≤ log.length := List.length_filter_le ..

theorem length_recent_lt (ht : t ∈ log) (hold : t ≤ cutoff) : (recent cutoff log).length < log.length :=
  List.length_filter_lt_length_iff_exists.mpr ⟨t, ht, by simpa using hold⟩

end Recent

/-! ## The log of a history -/

section Keeps

variable {τ : Type*} [AddCommGroup τ] [LinearOrder τ] {window last now : τ} {limit : ℕ} {log history : List τ}

/-- From `last` on, the log has what the history has in the window. -/
def Keeps (window last : τ) (log history : List τ) : Prop :=
  ∀ now, last ≤ now → recent (now - window) log = recent (now - window) history

/-- In no window more events than the limit. -/
def Within (window : τ) (limit : ℕ) (history : List τ) : Prop :=
  ∀ x, (history.filter fun t => x < t ∧ t ≤ x + window).length ≤ limit

theorem Keeps.later (h : Keeps window last log history) (hlast : last ≤ now) : Keeps window now log history :=
  fun _ hnow => h _ (hlast.trans hnow)

theorem Keeps.record (h : Keeps window last log history) : Keeps window last (log ++ [now]) (history ++ [now]) := by
  intro later hlater
  rw [recent_append, recent_append, h later hlater]

variable [IsOrderedAddMonoid τ]

theorem Keeps.prune (h : Keeps window last log history) (hlast : last ≤ now) :
    Keeps window now (recent (now - window) log) history := by
  intro later hlater
  rw [recent_recent (sub_le_sub_right hlater window)]
  exact h later (hlast.trans hlater)

/-- An event is admitted when the window before it has room. -/
theorem Within.record (h : Within window limit history) (hroom : (recent (now - window) history).length < limit) :
    Within window limit (history ++ [now]) := by
  intro x
  rw [List.filter_append, List.length_append]
  by_cases hin : x < now ∧ now ≤ x + window
  · have hle : (history.filter fun t => x < t ∧ t ≤ x + window).length ≤ (recent (now - window) history).length := by
      refine (List.monotone_filter_right history fun t ht => ?_).length_le
      simp only [decide_eq_true_eq] at ht ⊢
      exact (sub_le_iff_le_add.mpr hin.2).trans_lt ht.1
    rw [List.filter_cons_of_pos (by simpa using hin), List.filter_nil, List.length_singleton]
    omega
  · rw [List.filter_cons_of_neg (by simpa using hin), List.filter_nil, List.length_nil]
    exact h x

end Keeps

end SlidingLog
