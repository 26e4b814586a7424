import CryptoAggHarmonic.Alipay.Lemmas.Extract

/-!
# An installation behind the fence

The fence of an installation is the target directory. The way to the installed directory is without links, the backup
goes to a place off that way, and what is copied comes into a directory that has just been made.
-/

namespace CryptoAggHarmonic.Alipay

open Files PyOs Effect

variable {β : Type}

/-- Under `target` anything may change, and its missing parents may be made; no link is on `way`, and where the copy
goes there is neither a link nor a file that was there before. -/
def placeFence (target : List Text) (base : ℕ) (way : List (List Text)) (copied : List Text → Prop) : Fence Text where
  zone q := target <+: q
  grow q := q <+: target
  direct q := q ∈ way ∨ copied q
  fresh q := copied q
  base := base
  zone_below _ _ hpq hp := hp.trans hpq

def nowhere : List Text → Prop := fun _ => False

section

variable {target : List Text} {base : ℕ} {way : List (List Text)} {copied : List Text → Prop} {d₁ d d' : PyDisk β}
  {installPath source backup : Path Text} {host : Host β} {p q : List Text} {n : ℕ}

theorem placeFence_mono {way' : List (List Text)} {copied' : List Text → Prop} (hway : ∀ q ∈ way', q ∈ way)
    (hcopied : ∀ q, copied' q → copied q) (h : (placeFence target base way copied).Holds d₁ d) :
    (placeFence target base way' copied').Holds d₁ d :=
  h.mono rfl rfl rfl (fun q hq => hq.imp (hway q) (hcopied q)) hcopied

/-- What the installation relies on: the target directory hangs together with the disk, the way is inside of it. -/
structure Installable (target : List Text) (way : List (List Text)) (installPath : Path Text) (d₁ : PyDisk β) :
    Prop where
  rooted : ∀ p, p <+: target → d₁.node p = none → ∀ q, p <+: q → d₁.node q = none
  way : ∀ q ∈ visited [] installPath.dropLast, q ∈ way
  inside : ∀ init, init <+: installPath → target <+: lexical [] init ∨ lexical [] init <+: target
  parent : target <+: lexical [] installPath.dropLast
  place : target <+: lexical [] installPath

theorem Installable.mono {way' : List (List Text)} (h : Installable target way installPath d₁)
    (hway : ∀ q ∈ way, q ∈ way') : Installable target way' installPath d₁ :=
  { h with way := fun q hq => hway q (h.way q hq) }

theorem Installable.grows (h : Installable target way installPath d₁) (hp : target <+: p ∨ p <+: target) :
    (placeFence target base way copied).Within d₁ p ∨ (placeFence target base way copied).Grows d₁ p := by
  rcases hp with hp | hp
  · exact Or.inl (Or.inl hp)
  · exact Or.inr ⟨hp, h.rooted p hp⟩

theorem Installable.keeps_mkdir (h : Installable target way installPath d₁) {init : Path Text}
    (hinit : init <+: installPath) : Keeps ((placeFence target base way copied).Holds d₁) (sys (mkdir init)) := by
  refine keeps_sys fun d d' hd hrun => hd.mkdir (fun q hq => Or.inl (h.way q ?_)) (h.grows (h.inside init hinit)) hrun
  rcases installPath.eq_nil_or_concat' with rfl | ⟨path, s, rfl⟩
  · simp_all
  · rcases List.prefix_concat_iff.mp hinit with rfl | hinit
    · exact hq
    · exact visited_mono (by simpa using (List.dropLast_prefix init).trans hinit) hq

/-! ## The backup -/

theorem withSuffix_eq {suffix : Text} (h : withSuffix suffix installPath = some backup) :
    backup.dropLast = installPath.dropLast ∧ ∃ x, lexical [] backup = lexical [] installPath.dropLast ++ [x] := by
  unfold withSuffix at h
  split at h <;> cases h <;> simp [stepOn]

theorem rename_last {path : Path Text} (h : rename source path d = .ok d') : ∃ a, source.getLast? = some (.down a) := by
  unfold rename at h
  split at h
  · rename_i a b hsource hpath
    exact ⟨a, hsource⟩
  · cases h

theorem triple_backUp (h : Installable target way installPath d₁)
    (hbackup : ∀ backup, withSuffix (backupSuffix host) installPath = some backup →
      lexical [] backup = p ∧ ∀ q ∈ way, ¬p <+: q) :
    Triple ((placeFence target base (p :: way) nowhere).Holds d₁) (backUp host installPath)
      (fun _ => (placeFence target base way nowhere).Holds d₁) ((placeFence target base way nowhere).Holds d₁) := by
  have hmono (d : PyDisk β) (hd : (placeFence target base (p :: way) nowhere).Holds d₁ d) :
      (placeFence target base way nowhere).Holds d₁ d :=
    placeFence_mono (fun q hq => List.mem_cons_of_mem _ hq) (fun _ => id) hd
  refine triple_get_bind fun d hd => ?_
  split
  · split
    · exact triple_throw fun t ht => hmono t (ht ▸ hd)
    · rename_i backup hsuffix
      obtain ⟨rfl, hoff⟩ := hbackup backup hsuffix
      obtain ⟨hparent, x, hx⟩ := withSuffix_eq hsuffix
      have hzone : target <+: lexical [] backup := by
        rw [hx]
        exact h.parent.trans (List.prefix_append _ _)
      refine Triple.pre (triple_move (triple_sys (fun d d' hd hrun => ?_) hmono)
        (triple_sys (fun d d' hd hrun => ?_) hmono) hmono) fun t ht => ht ▸ hd
      · refine (hmono d hd).rename (fun q hq => Or.inl (h.way q hq)) (fun q hq => Or.inl (h.way q ?_)) h.place hzone
          (fun r hr => ?_) hrun
        · rwa [hparent] at hq
        · exact ⟨fun hdirect => hdirect.elim (fun hmem => hoff r hmem hr) id, id⟩
      · -- The backup's place is a directory already: the old one goes into it.
        obtain ⟨a, ha⟩ := rename_last hrun
        have hin : inside backup installPath = backup ++ [.down a] := by simp [inside, ha]
        have hlex : lexical [] (backup ++ [.down a]) = lexical [] backup ++ [a] := by simp [stepOn]
        rw [hin] at hrun
        refine hmono d' (hd.rename (fun q hq => Or.inl (List.mem_cons_of_mem _ (h.way q hq))) (fun q hq => ?_) h.place
          (hlex ▸ hzone.trans (List.prefix_append _ _)) (fun r hr => ⟨?_, id⟩) hrun)
        · rw [List.dropLast_concat] at hq
          obtain ⟨init, s, rfl⟩ := backup.eq_nil_or_concat'.resolve_left (by rintro rfl; simp at hx)
          rcases mem_visited_append.mp hq with hq | hq
          · exact Or.inl (List.mem_cons_of_mem _ (h.way q (by simpa [← hparent] using hq)))
          · exact Or.inl (by simpa using Or.inl hq)
        · rw [hlex] at hr
          rintro (hmem | hmem)
          · rcases List.mem_cons.mp hmem with rfl | hmem
            · simpa using hr.length_le
            · exact hoff r hmem ((List.prefix_append _ _).trans hr)
          · exact hmem
  · exact triple_pure fun t ht => hmono t (ht ▸ hd)

/-! ## The copy -/

theorem holds_putDir (h : Installable target way installPath d₁)
    (hd : (placeFence target base way nowhere).Holds d₁ d) (hnone : d.node (lexical [] installPath) = none) :
    (placeFence target base way (lexical [] installPath <+: ·)).Holds d₁ (d.putDir (lexical [] installPath)) := by
  have hput := hd.putDir (Or.inl (Or.inl h.place)) hnone
  refine { hput with direct := ?_, fresh := ?_ }
  · rintro q (hq | hq)
    · exact hput.direct q (Or.inl hq)
    · by_cases heq : q = lexical [] installPath <;> simp_all [Disk.putDir]
  · intro q hq i
    by_cases heq : q = lexical [] installPath <;> simp_all [Disk.putDir, placeFence]

/-- A path below the copy is direct all the way. -/
theorem way_below (h : Installable target way installPath d₁) {names : List Text} :
    (placeFence target base way (lexical [] installPath <+: ·)).Way (installPath ++ names.map .down) := by
  intro q hq
  rcases mem_visited_append.mp hq with hq | hq
  · rcases installPath.eq_nil_or_concat' with rfl | ⟨init, s, rfl⟩
    · simp [visited] at hq
    · rcases mem_visited_append.mp hq with hq | hq
      · exact Or.inl (h.way q (by simpa using hq))
      · exact Or.inr (by simp_all)
  · obtain ⟨init, -, -, rfl⟩ := mem_visited_names.mp hq
    exact Or.inr (List.prefix_append _ _)

theorem keeps_mkdir_below (h : Installable target way installPath d₁) {names : List Text} {init : Path Text}
    (hinit : init <+: installPath ++ names.map .down) :
    Keeps ((placeFence target base way (lexical [] installPath <+: ·)).Holds d₁) (sys (mkdir init)) := by
  refine keeps_sys fun d d' hd hrun => hd.mkdir (fun q hq => ?_) (h.grows ?_) hrun
  · exact way_below h q (visited_mono hinit (mem_visited_of_mem_dropLast hq))
  · rcases List.prefix_or_prefix_of_prefix hinit (List.prefix_append installPath (names.map .down)) with
      hle | ⟨rest, rfl⟩
    · exact h.inside init hle
    · obtain ⟨rest, rfl⟩ : ∃ below : List Text, rest = below.map .down :=
        ⟨_, (List.prefix_iff_eq_take.mp ((List.prefix_append_right_inj _).mp hinit)).trans List.map_take.symm⟩
      refine Or.inl ?_
      rw [lexical_append, lexical_names]
      exact h.place.trans (List.prefix_append _ _)

theorem keeps_makedirs_below (h : Installable target way installPath d₁) {names : List Text} :
    Keeps ((placeFence target base way (lexical [] installPath <+: ·)).Holds d₁)
      (makedirs (installPath ++ names.map .down)) := keeps_makedirs fun _ hinit => keeps_mkdir_below h hinit

theorem keeps_writeFile_below (h : Installable target way installPath d₁) {names : List Text} {data : β} :
    Keeps ((placeFence target base way (lexical [] installPath <+: ·)).Holds d₁)
      (sys (writeFile data (installPath ++ names.map .down))) := by
  have hbelow : lexical [] installPath <+: lexical [] (installPath ++ names.map .down) := by
    rw [lexical_append, lexical_names]
    exact List.prefix_append _ _
  exact keeps_sys fun _ _ hd hrun =>
    hd.writeFile (way_below h) (Or.inl (h.place.trans hbelow)) (fun _ => hbelow) hrun

/-- Once the directory of the copy is made, nothing is written through a link. -/
theorem keeps_copytree_place (h : Installable target way installPath d₁) (hhere : installPath.getLast? ≠ some .here)
    (hne : installPath ≠ []) {scandir : PyDisk β → List Text → List Text} :
    Keeps ((placeFence target base way nowhere).Holds d₁) (copytree scandir n source installPath) := by
  have hmono (d : PyDisk β) (hd : (placeFence target base way (lexical [] installPath <+: ·)).Holds d₁ d) :
      (placeFence target base way nowhere).Holds d₁ d := placeFence_mono (fun _ => id) (fun _ => False.elim) hd
  cases n with
  | zero => exact keeps_throw
  | succ n =>
      refine triple_get_bind fun d hd => ?_
      split
      · exact triple_throw fun t ht => ht ▸ hd
      · rename_i names hnames
        have hmake : Triple ((placeFence target base way nowhere).Holds d₁) (makedirs installPath)
            (fun _ => (placeFence target base way (lexical [] installPath <+: ·)).Holds d₁)
            ((placeFence target base way nowhere).Holds d₁) := by
          obtain ⟨init, s, rfl⟩ := installPath.eq_nil_or_concat'.resolve_left hne
          refine triple_makedirs (by simpa using hhere) (fun init hinit => h.keeps_mkdir hinit)
            (triple_sys (fun d d' hd hrun => ?_) fun _ hd => hd)
          obtain ⟨hnone, rfl⟩ := Fence.mkdir_eq hd (fun q hq => Or.inl (h.way q hq)) hrun
          exact holds_putDir h hd hnone
        have hcopy : Keeps ((placeFence target base way (lexical [] installPath <+: ·)).Holds d₁)
            (copyEntries (copytree scandir n) source installPath names false) := by
          refine keeps_copyEntries fun a => keeps_copyEntry (keeps_copytree (fun names => ?_) fun data names _ => ?_)
            fun data names _ => keeps_writeFile_below h
          · rw [List.append_assoc, List.singleton_append, ← List.map_cons]
            exact keeps_makedirs_below h
          · rw [List.append_assoc, List.singleton_append, ← List.map_cons]
            exact keeps_writeFile_below h
        refine Triple.bind (hmake.pre fun t ht => ht ▸ hd) fun _ =>
          Triple.bind (Triple.post hcopy (fun _ _ hd => hd) hmono) fun failed => ?_
        split
        · exact triple_throw hmono
        · exact triple_pure hmono

theorem triple_installTo (h : Installable target way installPath d₁) (hhere : installPath.getLast? ≠ some .here)
    (hne : installPath ≠ []) (hbackup : ∀ backup, withSuffix (backupSuffix host) installPath = some backup →
      lexical [] backup = p ∧ ∀ q ∈ way, ¬p <+: q) :
    Triple ((placeFence target base (p :: way) nowhere).Holds d₁) (installTo host source installPath)
      (fun _ => (placeFence target base way nowhere).Holds d₁) ((placeFence target base way nowhere).Holds d₁) := by
  have hparents : Keeps ((placeFence target base (p :: way) nowhere).Holds d₁)
      (mkdirParents installPath.dropLast) :=
    keeps_mkdirParents fun init hinit =>
      (h.mono fun _ => List.mem_cons_of_mem _).keeps_mkdir (hinit.trans (List.dropLast_prefix _))
  refine Triple.bind (Triple.post hparents (fun _ _ hd => hd) fun d hd => ?_) fun _ =>
    Triple.bind (triple_backUp h hbackup) fun _ => keeps_copytree_place h hhere hne
  exact placeFence_mono (fun q hq => List.mem_cons_of_mem _ hq) (fun _ => id) hd

end

end CryptoAggHarmonic.Alipay
