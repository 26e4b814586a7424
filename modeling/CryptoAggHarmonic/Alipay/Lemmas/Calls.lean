import CryptoAggHarmonic.Lib.Files
import CryptoAggHarmonic.Alipay.Install

/-!
# Invariants of the calls

Each function of the standard library makes its system calls at the places its path goes over, so what every such call
keeps, the function keeps.
-/

namespace CryptoAggHarmonic.PyOs

open Files Effect

variable {β γ : Type} {I P E : PyDisk β → Prop} {call : PyDisk β → Except Errno (PyDisk β)} {path source : Path Text}

theorem triple_sys {Q : PyDisk β → Prop} (hok : ∀ d d', P d → call d = .ok d' → Q d') (herr : ∀ d, P d → E d) :
    Triple P (sys call) (fun _ => Q) E := by
  intro d hd
  unfold sys
  cases hrun : call d with
  | ok d' => exact hok d d' hd hrun
  | error e => exact herr d hd

theorem keeps_sys (hok : ∀ d d', I d → call d = .ok d' → I d') : Keeps I (sys call) :=
  triple_sys hok fun _ hd => hd

theorem keeps_makedirsFrom (h : ∀ init, init <+: path.reverse → Keeps I (sys (mkdir init))) :
    Keeps I (makedirsFrom path) := by
  induction path with
  | nil => exact h [] List.prefix_rfl
  | cons s head ih =>
      have hhead : Keeps I (makedirsFrom head) := by
        refine ih fun init hinit => h init (hinit.trans ?_)
        rw [List.reverse_cons]
        exact List.prefix_append _ _
      have hlast := h (s :: head).reverse List.prefix_rfl
      refine Keeps.get_bind fun d => ?_
      split
      · exact hlast
      · refine Keeps.bind (hhead.tryCatch fun e => ?_) fun _ => ?_
        · split
          · exact keeps_pure
          · exact keeps_throw
        · split
          · exact keeps_pure
          · exact hlast

theorem keeps_makedirs (h : ∀ init, init <+: path → Keeps I (sys (mkdir init))) : Keeps I (makedirs path) :=
  keeps_makedirsFrom (by simpa using h)

/-- When `makedirs` returns, its last step has made the directory. -/
theorem triple_makedirs {Q : PyDisk β → Prop} {s : Step Text} (hs : s ≠ .here)
    (h : ∀ init, init <+: path ++ [s] → Keeps I (sys (mkdir init)))
    (hlast : Triple I (sys (mkdir (path ++ [s]))) (fun _ => Q) I) :
    Triple I (makedirs (path ++ [s])) (fun _ => Q) I := by
  have hhead : Keeps I (makedirsFrom path.reverse) := by
    refine keeps_makedirsFrom fun init hinit => h init (hinit.trans ?_)
    rw [List.reverse_reverse]
    exact List.prefix_append _ _
  rw [makedirs, List.reverse_append, List.reverse_singleton, List.singleton_append]
  simp only [makedirsFrom, List.reverse_cons, List.reverse_reverse, hs, if_false]
  refine triple_get_bind fun d hd => ?_
  split
  · exact hlast.pre fun t ht => ht ▸ hd
  · refine Triple.bind (Triple.pre (hhead.tryCatch fun e => ?_) fun t ht => ht ▸ hd) fun _ => hlast
    split
    · exact keeps_pure
    · exact keeps_throw

theorem keeps_orDir {e : Raised} : Keeps I (orDir path e) := by
  refine Keeps.get_bind fun d => ?_
  split
  · exact keeps_pure
  · exact keeps_throw

theorem keeps_mkdirParentsFrom (h : ∀ init, init <+: path.reverse → Keeps I (sys (mkdir init))) :
    Keeps I (mkdirParentsFrom path) := by
  induction path with
  | nil => exact (h [] List.prefix_rfl).tryCatch fun e => keeps_orDir
  | cons s parent ih =>
      have hparent : Keeps I (mkdirParentsFrom parent) := by
        refine ih fun init hinit => h init (hinit.trans ?_)
        rw [List.reverse_cons]
        exact List.prefix_append _ _
      have hlast := h (s :: parent).reverse List.prefix_rfl
      refine hlast.tryCatch fun e => ?_
      split
      · refine hparent.bind fun _ => hlast.tryCatch fun e => ?_
        split
        · exact keeps_throw
        · exact keeps_orDir
      · exact keeps_orDir

theorem keeps_mkdirParents (h : ∀ init, init <+: path → Keeps I (sys (mkdir init))) : Keeps I (mkdirParents path) :=
  keeps_mkdirParentsFrom (by simpa using h)

theorem triple_move {Q : PyDisk β → Prop} (h : Triple P (sys (rename source path)) (fun _ => Q) E)
    (hin : Triple P (sys (rename source (inside path source))) (fun _ => Q) E) (hpe : ∀ d, P d → E d) :
    Triple P (move source path) (fun _ => Q) E := by
  refine triple_get_bind fun d hd => ?_
  split
  · split
    · exact h.pre fun t ht => ht ▸ hd
    · split
      · exact triple_throw fun t ht => hpe t (ht ▸ hd)
      · exact hin.pre fun t ht => ht ▸ hd
  · exact h.pre fun t ht => ht ▸ hd

theorem keeps_copyFile (h : ∀ data, Keeps I (sys (writeFile data path)))
    (hin : ∀ data, Keeps I (sys (writeFile data (inside path source)))) : Keeps I (copyFile source path) := by
  refine Keeps.get_bind fun d => ?_
  split
  · exact keeps_throw
  · split
    · exact hin _
    · exact h _

theorem keeps_copyEntries {copyDir : Path Text → Path Text → Py β Unit} {names : List Text} {failed : Bool}
    (h : ∀ a, Keeps I (copyEntry copyDir source path a)) : Keeps I (copyEntries copyDir source path names failed) := by
  induction names generalizing failed with
  | nil => exact keeps_pure
  | cons a names ih =>
      refine Keeps.bind (Keeps.tryCatch ((h a).bind fun _ => keeps_pure) fun e => ?_) fun failed => ih
      split
      · exact keeps_pure
      · exact keeps_throw

theorem keeps_copyEntry {copyDir : Path Text → Path Text → Py β Unit} {a : Text}
    (hdir : Keeps I (copyDir (source ++ [.down a]) (path ++ [.down a])))
    (hfile : ∀ data names, names ≠ [] → Keeps I (sys (writeFile data (path ++ names.map .down)))) :
    Keeps I (copyEntry copyDir source path a) := by
  refine Keeps.get_bind fun d => ?_
  split
  · exact hdir
  · refine keeps_copyFile (fun data => ?_) fun data => ?_
    · simpa using hfile data [a] (by simp)
    · simpa [inside] using hfile data [a, a] (by simp)

/-- The copy keeps what its calls keep at `path` and below. -/
theorem keeps_copytree {scandir : PyDisk β → List Text → List Text} {n : ℕ}
    (hdir : ∀ names : List Text, Keeps I (makedirs (path ++ names.map .down)))
    (hfile : ∀ data (names : List Text), names ≠ [] → Keeps I (sys (writeFile data (path ++ names.map .down)))) :
    Keeps I (copytree scandir n source path) := by
  induction n generalizing source path with
  | zero => exact keeps_throw
  | succ n ih =>
      refine Keeps.get_bind fun d => ?_
      split
      · exact keeps_throw
      · refine Keeps.bind (by simpa using hdir []) fun _ => Keeps.bind (keeps_copyEntries fun a => ?_) fun failed => ?_
        · refine keeps_copyEntry (ih (fun names => ?_) fun data names _ => ?_) hfile
          · simpa using hdir (a :: names)
          · simpa using hfile data (a :: names) (by simp)
        · split
          · exact keeps_throw
          · exact keeps_pure

end CryptoAggHarmonic.PyOs

/-!
# What the validation of a name gives

A name that passes never leads above the directory it is joined to, whatever its components are.
-/

namespace CryptoAggHarmonic.Alipay

open Files PyOs

def dots : Text := ['.', '.']

variable {stack comps : List Text} {base name q : List Char} {p : List Text}

theorem normStep_empty {rooted : Bool} : normStep rooted stack [] = stack := by simp [normStep]

theorem normStep_dot {rooted : Bool} : normStep rooted stack ['.'] = stack := by simp [normStep]

/-- `..` at the bottom of the stack stays there. -/
theorem head_normStep {c : Text} (h : stack.head? = some dots) : (normStep false stack c).head? = some dots := by
  obtain ⟨rest, rfl⟩ : ∃ rest, stack = dots :: rest := by
    cases stack with
    | nil => simp at h
    | cons a rest => exact ⟨rest, by simpa using h⟩
  simp only [normStep]
  split
  · rfl
  · split
    · rfl
    · rename_i hpop
      cases rest with
      | nil => simp [dots] at hpop
      | cons b rest => simp

theorem head_foldl_normStep (h : stack.head? = some dots) :
    (comps.foldl (normStep false) stack).head? = some dots := by
  induction comps generalizing stack with
  | nil => exact h
  | cons c comps ih => exact ih (head_normStep h)

theorem visited_of_normal (hstack : dots ∉ stack) (hcomps : dots ∉ comps.foldl (normStep false) stack) {q : List Text}
    (hq : q ∈ visited (p ++ stack) (comps.filterMap component)) : p <+: q := by
  induction comps generalizing stack with
  | nil => simp [visited] at hq
  | cons c comps ih =>
      have hnext (s : Step Text) (hs : component c = some s)
          (hstep : stepOn (p ++ stack) s = p ++ normStep false stack c) (hdots : dots ∉ normStep false stack c) :
          p <+: q := by
        simp only [List.filterMap_cons, hs, visited, hstep, List.mem_cons] at hq
        rcases hq with rfl | hq
        · exact List.prefix_append _ _
        · exact ih hdots hcomps hq
      by_cases hempty : c = []
      · subst hempty
        exact ih hstack (by simpa [normStep_empty] using hcomps) (by simpa [component] using hq)
      by_cases hdot : c = ['.']
      · subst hdot
        exact hnext .here (by simp [component]) (by simp [stepOn, normStep]) (by simpa [normStep_dot] using hstack)
      by_cases hup : c = dots
      · subst hup
        have hlast : stack.getLast? ≠ some dots := fun hl => hstack (List.mem_of_getLast? hl)
        by_cases hnil : stack = []
        · -- A `..` that finds nothing to take away would still be there at the end.
          subst hnil
          have hhead : (normStep false [] dots).head? = some dots := by simp [normStep, dots]
          exact absurd (List.mem_of_head? (head_foldl_normStep hhead)) hcomps
        · have hpop : normStep false stack dots = stack.dropLast := by
            simp_all [normStep, dots]
          refine hnext .up (by simp [component, dots]) ?_ ?_
          · rw [hpop, stepOn, List.dropLast_append_of_ne_nil hnil]
          · rw [hpop]
            exact fun hmem => hstack (List.mem_of_mem_dropLast hmem)
      · have hpush : normStep false stack c = stack ++ [c] := by
          simp_all [normStep, dots]
        have hdots : dots ∉ normStep false stack c := by
          simp [hpush, hstack, Ne.symm hup]
        by_cases hnul : '\x00' ∈ c
        · exact hnext (.stray c) (by simp_all [component, dots]) (by simp [stepOn, hpush]) hdots
        · exact hnext (.down c) (by simp_all [component, dots]) (by simp [stepOn, hpush]) hdots

theorem infix_intercalate {sep c : Text} {cs : List Text} (hc : c ∈ cs) : c <:+: sep.intercalate cs := by
  induction cs with
  | nil => simp at hc
  | cons a cs ih =>
      cases cs with
      | nil => simp_all [List.intercalate]
      | cons b cs =>
          rw [show sep.intercalate (a :: b :: cs) = a ++ sep ++ sep.intercalate (b :: cs) by simp [List.intercalate]]
          rcases List.mem_cons.mp hc with rfl | hc
          · exact ⟨[], sep ++ sep.intercalate (b :: cs), by simp⟩
          · exact (ih hc).trans (List.suffix_append _ _).isInfix

theorem isAbs_normpath (h : isAbs name = true) : isAbs (normpath name) = true := by
  have hslashes : 0 < initialSlashes name := by
    simp only [initialSlashes, h, if_true]
    split <;> simp
  obtain ⟨n, hn⟩ := Nat.exists_eq_succ_of_ne_zero hslashes.ne'
  simp [normpath, isAbs, hn, List.replicate_succ]

theorem not_isAbs_of_memberSafe (h : memberSafe name = true) : isAbs name = false := by
  by_contra habs
  have habs : isAbs name = true := by simpa using habs
  have hne : name ≠ [] := by
    rintro rfl
    simp [isAbs] at habs
  simp [memberSafe, hne, isAbs_normpath habs] at h

theorem visited_of_memberSafe (h : memberSafe name = true) {q : List Text} (hq : q ∈ visited p (parse name)) :
    p <+: q := by
  by_cases hne : name = []
  · subst hne
    simp [parse, component, visited] at hq
  have hsplit : q ∈ visited (p ++ []) ((name.splitOn '/').filterMap component) := by simpa [parse] using hq
  refine visited_of_normal (by simp) ?_ hsplit
  intro hdots
  have hrel := not_isAbs_of_memberSafe h
  have hinfix : dots <:+: ['/'].intercalate ((name.splitOn '/').foldl (normStep false) []) := infix_intercalate hdots
  have hnorm : dots <:+: normpath name := by
    simp only [normpath, initialSlashes, hrel, Bool.false_eq_true, if_false, List.replicate_zero, List.nil_append]
    split
    · rename_i hnil
      simp [hnil, dots] at hinfix
    · exact hinfix
  simp only [memberSafe, hne, decide_false, Bool.false_or, Bool.and_eq_true, Bool.not_eq_true', decide_eq_false_iff_not]
    at h
  exact h.2 hnorm

end CryptoAggHarmonic.Alipay
