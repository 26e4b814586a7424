import CryptoAggHarmonic.Alipay.Lemmas.Place
import CryptoAggHarmonic.Alipay.Responses

/-!
# What an installation changes

An installation is to change nothing but the target directory and its own temporary directory, and nothing at all when
it turns the archive down. The names of the members are checked; the links among them and the name in `SKILL.md` are
not.
-/

namespace CryptoAggHarmonic.Alipay

open Files PyOs Effect

variable {β : Type}

/-! ## What is claimed -/

/-- The places of the two directories, links resolved. The temporary directory is new and not in the target. -/
structure Setting (tmp target : List Text) (d : PyDisk β) : Prop where
  rooted : ∀ p q, p <+: q → d.node p = none → d.node q = none
  old : ∀ p i, d.node p = some (.file i) → i < d.next
  parents : ∀ p, p <+: tmp → p ≠ tmp → d.node p = some .dir
  fresh : d.node tmp = none
  apart : ¬tmp <+: target ∧ ¬target <+: tmp
  real : ∀ p, p <+: target → ¬Node.IsLink (d.node p)

/-- What was there outside the two directories is as it was; at most the parents of `target` are new. -/
structure Confined (tmp target : List Text) (d d' : PyDisk β) : Prop where
  nodes : ∀ q, ¬tmp <+: q → ¬target <+: q →
    d'.node q = d.node q ∨ (q <+: target ∧ d.node q = none ∧ d'.node q = some .dir)
  bytes : ∀ q i, ¬tmp <+: q → ¬target <+: q → d.node q = some (.file i) → d'.bytes i = d.bytes i

/-- Everything outside the temporary directory is as it was. -/
structure Untouched (tmp : List Text) (d d' : PyDisk β) : Prop where
  nodes : ∀ q, ¬tmp <+: q → d'.node q = d.node q
  bytes : ∀ q i, ¬tmp <+: q → d.node q = some (.file i) → d'.bytes i = d.bytes i

theorem Untouched.confined {tmp target : List Text} {d d' : PyDisk β} (h : Untouched tmp d d') :
    Confined tmp target d d' where
  nodes q hq _ := Or.inl (h.nodes q hq)
  bytes q i hq _ hfile := h.bytes q i hq hfile

/-- The archive is turned down. -/
def FulfillmentResult.isRejection (r : FulfillmentResult) : Bool := (r.error.bind InstallError.text).isSome

/-! ## The declared name -/

/-- The name that `SKILL.md` declares, read from the extracted archive. -/
def declaredName (host : Host β) (raw : β) (tmp : List Text) (d : PyDisk β) : Option Text :=
  match unpack host raw (tmp.map .down) (d.putDir tmp) with
  | .ok (some root) d' => skillNameAt host root d'
  | _ => none

def nameParts (name : Text) : Path Text := (parse name).filter (· ≠ .here)

/-- The name leads from `target` to a place inside it, on a way inside it that passes no link; neither does the place of
the backup. -/
structure NameSafe (host : Host β) (target : List Text) (d : PyDisk β) (name : Text) : Prop where
  relative : isAbs name = false
  way : ∀ q ∈ visited target (nameParts name).dropLast, target <+: q ∧ ¬Node.IsLink (d.node q)
  inside : target <+: lexical target (nameParts name) ∧ lexical target (nameParts name) ≠ target
  backup : ∀ b, withSuffix (backupSuffix host) (nameParts name) = some b →
    ¬Node.IsLink (d.node (lexical target b)) ∧
      ∀ q ∈ visited target (nameParts name).dropLast, ¬lexical target b <+: q

/-! ## The steps -/

section

variable {host : Host β} {raw : β} {tmp target : List Text} {d d' d'' : PyDisk β} {name : Text}
  {links way : List (List Text)}

theorem node_putDir (hset : Setting tmp target d) {q : List Text} (hq : q <+: tmp) :
    (d.putDir tmp).node q = some .dir := by
  by_cases heq : q = tmp
  · simp [Disk.putDir, heq]
  · have hle : ¬tmp <+: q := fun h => heq (hq.eq_of_length (le_antisymm hq.length_le h.length_le))
    simp [Disk.putDir, heq, hle, hset.parents q hq heq]

theorem holds_start (hset : Setting tmp target d) :
    (linkFence tmp d.next []).Holds (d.putDir tmp) (d.putDir tmp) where
  outside _ _ := Or.inl rfl
  bytes _ _ := rfl
  next := le_refl _
  direct q := by
    rintro (hq | ⟨hq, -⟩)
    · simp [node_putDir hset hq]
    · by_cases heq : q = tmp <;> simp [Disk.putDir, heq, hq]
  fresh q := by
    rintro ⟨hq, -⟩ i
    by_cases heq : q = tmp <;> simp [Disk.putDir, heq, hq]

theorem triple_unpack (hset : Setting tmp target d)
    (hmembers : ∀ members, host.openTar raw = some members → validateArchiveMembers members = true →
      ClearOfLinks tmp members [] [] members) :
    Triple ((linkFence tmp d.next []).Holds (d.putDir tmp)) (unpack host raw (tmp.map .down))
      (fun _ s => ∃ links, (linkFence tmp d.next links).Holds (d.putDir tmp) s)
      (fun s => ∃ links, (linkFence tmp d.next links).Holds (d.putDir tmp) s) := by
  have hdir : ∀ q, q <+: tmp → (d.putDir tmp).node q = some .dir := fun q hq => node_putDir hset hq
  have hreach : Reaches (linkFence tmp d.next []) (d.putDir tmp) (tmp.map .down ++ [.down "skill_archive".toList]) :=
    reaches_below hdir (by simp [stepOn]) (by simp)
  have hplace : lexical [] (tmp.map .down ++ [Step.down "skill_archive".toList]) = tmp ++ ["skill_archive".toList] := by
    simp [lexical_names, stepOn]
  have hdownload : Keeps ((linkFence tmp d.next []).Holds (d.putDir tmp))
      (sys (writeFile raw (tmp.map .down ++ [.down "skill_archive".toList]))) := by
    refine keeps_writeFile hreach ?_ fun _ => ?_
    · rw [hplace]
      exact Or.inr ⟨List.prefix_append _ _, by simp⟩
    · rw [hplace]
      exact ⟨List.prefix_append _ _, by simp⟩
  have hextract : Triple ((linkFence tmp d.next []).Holds (d.putDir tmp)) (openAndExtract host raw (tmp.map .down))
      (fun _ s => ∃ links, (linkFence tmp d.next links).Holds (d.putDir tmp) s)
      (fun s => ∃ links, (linkFence tmp d.next links).Holds (d.putDir tmp) s) := by
    unfold openAndExtract
    split
    · exact triple_throw fun s hs => ⟨[], hs⟩
    · rename_i members hopened
      split
      · rename_i hvalid
        refine triple_extractFrom hdir (fun m hm => ?_) (hmembers members hopened hvalid)
        exact List.all_eq_true.mp hvalid m hm
      · exact triple_throw fun s hs => ⟨[], hs⟩
  refine Triple.bind (Triple.post hdownload (fun _ _ hs => hs) fun s hs => ⟨[], hs⟩) fun _ => ?_
  have hopen : Keeps (fun s => ∃ links, (linkFence tmp d.next links).Holds (d.putDir tmp) s)
      (pure false : Py β Bool) := keeps_pure
  refine Triple.bind (Triple.tryCatch (hextract.bind fun _ => triple_pure fun s hs => hs) fun _ => hopen)
    fun opened => ?_
  split
  · refine triple_get_bind fun s hs => ?_
    split
    · exact triple_throw fun t ht => ht ▸ hs
    · exact triple_pure fun t ht => ht ▸ hs
  · exact triple_pure fun s hs => hs

/-- Outside the temporary directory an extraction leaves the disk as it was before. -/
theorem node_after_unpack (h : (linkFence tmp d.next links).Holds (d.putDir tmp) d') {q : List Text}
    (hq : ¬tmp <+: q) : d'.node q = d.node q := by
  have hne : q ≠ tmp := by
    rintro rfl
    exact hq List.prefix_rfl
  rcases h.outside q (fun hz => hq hz.1) with hsame | ⟨hgrow, -⟩
  · simpa [Disk.putDir, hne, hq] using hsame
  · exact hgrow.elim

theorem untouched_of_holds (hset : Setting tmp target d) (h : (linkFence tmp d.next links).Holds (d.putDir tmp) d') :
    Untouched tmp d (d'.remove tmp) where
  nodes q hq := by simpa [Disk.remove, hq] using node_after_unpack h hq
  bytes q i hq hfile := h.bytes i (hset.old q i hfile)

theorem confined_of_holds (hset : Setting tmp target d) (h : (linkFence tmp d.next links).Holds (d.putDir tmp) d')
    (hplace : (placeFence target d.next way nowhere).Holds d' d'') : Confined tmp target d (d''.remove tmp) where
  nodes q htmp htarget := by
    have hwas := node_after_unpack h htmp
    simp only [Disk.remove, htmp, if_false]
    rcases hplace.outside q htarget with hsame | ⟨hgrow, hnone, hdir⟩
    · exact Or.inl (hsame.trans hwas)
    · exact Or.inr ⟨hgrow, hwas.symm.trans hnone, hdir⟩
  bytes q i _ _ hfile :=
    (hplace.bytes i (hset.old q i hfile)).trans (h.bytes i (hset.old q i hfile))

/-! ## The way of a safe name -/

theorem withSuffix_append {suffix : Text} {base parts backup : Path Text} (hne : parts ≠ [])
    (h : withSuffix suffix (base ++ parts) = some backup) :
    ∃ b, withSuffix suffix parts = some b ∧ backup = base ++ b := by
  obtain ⟨init, s, rfl⟩ := parts.eq_nil_or_concat'.resolve_left hne
  rw [← List.append_assoc] at h
  cases s <;> simp_all [withSuffix]

theorem not_below_tmp (hset : Setting tmp target d) {q : List Text} (hq : target <+: q ∨ q <+: target) :
    ¬tmp <+: q := by
  intro htmp
  rcases hq with hq | hq
  · rcases List.prefix_or_prefix_of_prefix htmp hq with hle | hle
    · exact hset.apart.1 hle
    · exact hset.apart.2 hle
  · exact hset.apart.1 (htmp.trans hq)

theorem nameParts_ne_nil (hname : NameSafe host target d name) : nameParts name ≠ [] := fun hnil =>
  hname.inside.2 (by simp [hnil])

theorem joinPath_eq (hname : NameSafe host target d name) :
    joinPath (target.map .down) name = target.map .down ++ nameParts name := by
  simp [joinPath, nameParts, hname.relative]

theorem dropLast_joinPath (hname : NameSafe host target d name) :
    (joinPath (target.map .down) name).dropLast = target.map .down ++ (nameParts name).dropLast := by
  rw [joinPath_eq hname, List.dropLast_append_of_ne_nil (nameParts_ne_nil hname)]

/-- The places on the way to the installed directory: the parents of the target, and those of the name. -/
theorem mem_way (hname : NameSafe host target d name) {q : List Text}
    (hq : q ∈ visited [] (joinPath (target.map .down) name).dropLast) :
    q <+: target ∨ q ∈ visited target (nameParts name).dropLast := by
  rw [dropLast_joinPath hname, mem_visited_append, lexical_names, List.nil_append] at hq
  refine hq.imp_left fun hq => ?_
  obtain ⟨init, hinit, -, rfl⟩ := mem_visited_names.mp hq
  exact hinit

theorem inside_of_way (hname : NameSafe host target d name) {q : List Text}
    (hq : q ∈ visited [] (joinPath (target.map .down) name).dropLast) : target <+: q ∨ q <+: target :=
  (mem_way hname hq).symm.imp_left fun h => (hname.way q h).1

theorem installable_of_nameSafe (hset : Setting tmp target d)
    (h : (linkFence tmp d.next links).Holds (d.putDir tmp) d') (hname : NameSafe host target d name) :
    Installable target (visited [] (joinPath (target.map .down) name).dropLast) (joinPath (target.map .down) name)
      d' where
  rooted p hp hnone q hpq := by
    have htmp : ¬tmp <+: p := not_below_tmp hset (Or.inr hp)
    rw [node_after_unpack h htmp] at hnone
    by_cases hq : tmp <+: q
    · rcases List.prefix_or_prefix_of_prefix hpq hq with hle | hle
      · have hdir := hset.parents p hle (by rintro rfl; exact htmp List.prefix_rfl)
        simp [hnone] at hdir
      · exact absurd hle htmp
    · rw [node_after_unpack h hq]
      exact hset.rooted p q hpq hnone
  way q hq := hq
  inside init hinit := by
    rcases eq_or_ne init [] with rfl | hne
    · exact Or.inr List.nil_prefix
    have hmem := visited_mono hinit (lexical_mem_visited (p := []) hne)
    obtain ⟨path, s, hpath⟩ := (joinPath (target.map .down) name).eq_nil_or_concat'.resolve_left
      (by rw [joinPath_eq hname]; simp [nameParts_ne_nil hname])
    rw [hpath, mem_visited_append] at hmem
    rcases hmem with hmem | hmem
    · exact inside_of_way hname (by simpa [hpath] using hmem)
    · have hend : lexical [] init = lexical [] (joinPath (target.map .down) name) := by simpa [hpath] using hmem
      rw [hend, joinPath_eq hname, lexical_append, lexical_names]
      exact Or.inl hname.inside.1
  parent := by
    rw [dropLast_joinPath hname, lexical_append, lexical_names, List.nil_append]
    rcases eq_or_ne (nameParts name).dropLast [] with hnil | hne
    · simp [hnil]
    · exact (hname.way _ (lexical_mem_visited hne)).1
  place := by
    rw [joinPath_eq hname, lexical_append, lexical_names]
    exact hname.inside.1

/-- The backup goes to a place inside the target that is no link and off the way. -/
theorem backup_of_nameSafe (hname : NameSafe host target d name) {backup : Path Text}
    (hb : withSuffix (backupSuffix host) (joinPath (target.map .down) name) = some backup) :
    target <+: lexical [] backup ∧ ¬Node.IsLink (d.node (lexical [] backup)) ∧
      ∀ q ∈ visited [] (joinPath (target.map .down) name).dropLast, ¬lexical [] backup <+: q := by
  obtain ⟨-, x, hx⟩ := withSuffix_eq hb
  rw [joinPath_eq hname] at hb
  obtain ⟨b, hsuffix, rfl⟩ := withSuffix_append (nameParts_ne_nil hname) hb
  have hlex : lexical [] (target.map .down ++ b) = lexical target b := by simp [lexical_names]
  obtain ⟨hlink, hoff⟩ := hname.backup b hsuffix
  have hparent : target <+: lexical [] (joinPath (target.map .down) name).dropLast := by
    rw [dropLast_joinPath hname, lexical_append, lexical_names, List.nil_append]
    rcases eq_or_ne (nameParts name).dropLast [] with hnil | hne
    · simp [hnil]
    · exact (hname.way _ (lexical_mem_visited hne)).1
  refine ⟨hx ▸ hparent.trans (List.prefix_append _ _), hlex ▸ hlink, fun q hq hle => ?_⟩
  rcases mem_way hname hq with hq | hq
  · have hlen := (hle.trans hq).length_le
    rw [hx] at hlen
    have := hparent.length_le
    simp at hlen
    omega
  · exact hoff q hq (hlex ▸ hle)

/-- The installation under a safe name keeps to the target, whether it ends or raises. -/
theorem placed_of_nameSafe (hset : Setting tmp target d) (h : (linkFence tmp d.next links).Holds (d.putDir tmp) d')
    (hname : NameSafe host target d name) (root : Path Text) :
    Triple (fun s => s = d') (installTo host root (joinPath (target.map .down) name))
      (fun _ s => ∃ way, (placeFence target d.next way nowhere).Holds d' s)
      (fun s => ∃ way, (placeFence target d.next way nowhere).Holds d' s) := by
  set installPath := joinPath (target.map .down) name with hpath
  have hinst := installable_of_nameSafe hset h hname
  have hne : installPath ≠ [] := by
    rw [hpath, joinPath_eq hname]
    simp [nameParts_ne_nil hname]
  have hhere : installPath.getLast? ≠ some .here := by
    rw [hpath, joinPath_eq hname, List.getLast?_append_of_ne_nil _ (nameParts_ne_nil hname)]
    exact fun hlast => by simpa [nameParts] using List.mem_of_getLast? hlast
  have hway (q : List Text) (hq : q ∈ visited [] installPath.dropLast) : ¬Node.IsLink (d'.node q) := by
    rw [node_after_unpack h (not_below_tmp hset (inside_of_way hname hq))]
    exact (mem_way hname hq).elim (hset.real q) fun hq => (hname.way q hq).2
  obtain ⟨backup, hbackup⟩ : ∃ backup, withSuffix (backupSuffix host) installPath = some backup := by
    obtain ⟨init, s, hlast⟩ := installPath.eq_nil_or_concat'.resolve_left hne
    cases s <;> simp [withSuffix, hlast]
  obtain ⟨hin, hlink, hoff⟩ := backup_of_nameSafe hname hbackup
  have hstart :
      (placeFence target d.next (lexical [] backup :: visited [] installPath.dropLast) nowhere).Holds d' d' := by
    refine ⟨fun _ _ => Or.inl rfl, fun _ _ => rfl, h.next, ?_, fun _ hq => hq.elim⟩
    rintro q (hq | hq)
    · rcases List.mem_cons.mp hq with rfl | hq
      · rwa [node_after_unpack h (not_below_tmp hset (Or.inl hin))]
      · exact hway q hq
    · exact hq.elim
  have honly (b : Path Text) (hb : withSuffix (backupSuffix host) installPath = some b) :
      lexical [] b = lexical [] backup ∧ ∀ q ∈ visited [] installPath.dropLast, ¬lexical [] backup <+: q := by
    obtain rfl : backup = b := by simpa [hbackup] using hb
    exact ⟨rfl, hoff⟩
  have hinstall : Triple
      ((placeFence target d.next (lexical [] backup :: visited [] installPath.dropLast) nowhere).Holds d')
      (installTo host root installPath)
      (fun _ => (placeFence target d.next (visited [] installPath.dropLast) nowhere).Holds d')
      ((placeFence target d.next (visited [] installPath.dropLast) nowhere).Holds d') :=
    triple_installTo hinst hhere hne honly
  exact Triple.pre (hinstall.post (fun _ _ hs => ⟨_, hs⟩) fun _ hs => ⟨_, hs⟩) fun _ hs => hs ▸ hstart

/-- An installation ends with what the extraction left, or with the target changed after it. -/
def Ended (tmp target : List Text) (d s : PyDisk β) : Prop :=
  ∃ links d', (linkFence tmp d.next links).Holds (d.putDir tmp) d' ∧
    (s = d' ∨ ∃ way, (placeFence target d.next way nowhere).Holds d' s)

theorem triple_installSkill (hset : Setting tmp target d)
    (h : (linkFence tmp d.next links).Holds (d.putDir tmp) d') {root : Path Text}
    (hname : ∀ name, skillNameAt host root d' = some name → name ≠ [] → NameSafe host target d name) :
    Triple (fun s => s = d') (installSkill host (target.map .down) root)
      (fun r s => (r.isRejection = true → s = d') ∧ Ended tmp target d s) (Ended tmp target d) := by
  have hleft (s : PyDisk β) (hs : s = d') : Ended tmp target d s := ⟨links, d', h, Or.inl hs⟩
  have hplaced (s : PyDisk β) (hs : ∃ way, (placeFence target d.next way nowhere).Holds d' s) : Ended tmp target d s :=
    ⟨links, d', h, Or.inr hs⟩
  refine triple_get_bind fun s hs => ?_
  subst hs
  split
  · split
    · exact triple_pure fun t ht => ⟨fun _ => ht, hleft t ht⟩
    · rename_i name hskill
      split
      · exact triple_pure fun t ht => ⟨fun _ => ht, hleft t ht⟩
      · rename_i hempty
        have hinstall := placed_of_nameSafe hset h (hname name hskill hempty) root
        refine Triple.bind (hinstall.post (fun _ _ ht => ht) hplaced) fun _ => triple_pure fun t ht =>
          ⟨fun hreject => ?_, hplaced t ht⟩
        simp [FulfillmentResult.isRejection] at hreject
  · exact triple_pure fun t ht => ⟨fun _ => ht, hleft t ht⟩

theorem triple_installArchive (hset : Setting tmp target d)
    (hmembers : ∀ members, host.openTar raw = some members → validateArchiveMembers members = true →
      ClearOfLinks tmp members [] [] members)
    (hname : ∀ name, declaredName host raw tmp d = some name → name ≠ [] → NameSafe host target d name) :
    Triple (fun s => s = d.putDir tmp) (installArchive host raw (tmp.map .down) (target.map .down))
      (fun r s => (r.isRejection = true → ∃ links, (linkFence tmp d.next links).Holds (d.putDir tmp) s) ∧
        Ended tmp target d s)
      (Ended tmp target d) := by
  have hunpack : Triple (fun s => s = d.putDir tmp) (unpack host raw (tmp.map .down))
      (fun root s => (∃ links, (linkFence tmp d.next links).Holds (d.putDir tmp) s) ∧
        unpack host raw (tmp.map .down) (d.putDir tmp) = .ok root s)
      (fun s => ∃ links, (linkFence tmp d.next links).Holds (d.putDir tmp) s) := by
    rintro s rfl
    have hend := triple_unpack hset hmembers (d.putDir tmp) (holds_start hset)
    cases hrun : unpack host raw (tmp.map .down) (d.putDir tmp) with
    | ok root s =>
        rw [hrun] at hend
        exact ⟨hend, rfl⟩
    | error e s =>
        rw [hrun] at hend
        exact hend
  have hleft (s : PyDisk β) (hs : ∃ links, (linkFence tmp d.next links).Holds (d.putDir tmp) s) :
      Ended tmp target d s := by
    obtain ⟨links, hlinks⟩ := hs
    exact ⟨links, s, hlinks, Or.inl rfl⟩
  refine Triple.bind (hunpack.post (fun _ _ hs => hs) hleft) fun root => ?_
  split
  · exact triple_pure fun s hs => ⟨fun _ => hs.1, hleft s hs.1⟩
  · rename_i root
    rintro s ⟨⟨links, hlinks⟩, hrun⟩
    have hdeclared : declaredName host raw tmp d = skillNameAt host root s := by simp [declaredName, hrun]
    have hskill := triple_installSkill hset hlinks fun name hskill => hname name (hdeclared.trans hskill)
    exact hskill.post (fun r t ht => ⟨fun hreject => ⟨links, ht.1 hreject ▸ hlinks⟩, ht.2⟩) (fun _ ht => ht) s rfl

theorem Ended.confined (hset : Setting tmp target d) {s : PyDisk β} (h : Ended tmp target d s) :
    Confined tmp target d (s.remove tmp) := by
  obtain ⟨links, d', hlinks, rfl | ⟨way, hplace⟩⟩ := h
  · exact (untouched_of_holds hset hlinks).confined
  · exact confined_of_holds hset hlinks hplace

end

/-! ## Confinement -/

/-- `/tmp` and `/home`, both empty. -/
def homeDisk : PyDisk Text where
  node p := if p ∈ [[], ["tmp".toList], ["home".toList]] then some .dir else none
  bytes _ := []
  next := 0

def skillTmp : List Text := ["tmp".toList, "skillpay_install_x".toList]

def skillTarget : List Text := ["home".toList, "skills".toList]

/-- The downloaded bytes are a tar archive of these members. -/
def tarHost (members : List (TarInfo Text)) : Host Text where
  recursionLimit := 1000
  scandir d p := ["SKILL.md".toList, "skill_archive".toList, "out".toList].filter fun a => (d.node (p ++ [a])).isSome
  privileged := false
  readText := some
  openTar _ := some members
  now := 0

theorem homeDisk_setting : Setting skillTmp skillTarget homeDisk where
  rooted p q hpq hp := by
    have hdirs : ∀ q ∈ [[], ["tmp".toList], ["home".toList]], ∀ p, p <+: q →
        p ∈ [[], ["tmp".toList], ["home".toList]] := by
      simp [List.prefix_cons_iff]
    by_contra hq
    have hmem : q ∈ [[], ["tmp".toList], ["home".toList]] := by
      by_contra hmem
      exact hq (if_neg hmem)
    simp only [homeDisk, hdirs q hmem p hpq, if_true] at hp
    cases hp
  old p i hp := by
    simp only [homeDisk] at hp
    split at hp <;> simp at hp
  parents p hp hne := by
    simp only [skillTmp, List.prefix_cons_iff, List.prefix_nil] at hp
    rcases hp with rfl | ⟨l, rfl, rfl | ⟨l, rfl, rfl⟩⟩
    · rfl
    · rfl
    · exact absurd rfl hne
  fresh := by decide
  apart := by decide
  real p _ := by
    simp only [homeDisk]
    split <;> simp

end CryptoAggHarmonic.Alipay

/-!
# What is read from the answers of the CLI

Only the first line that opens with a bracket is read, and a status is one of payment when it contains the name of one.
-/

namespace CryptoAggHarmonic.Alipay

open JsonText PyOs

variable {ft : Yaml.FloatText} {texts : Texts} {raw orderNo t : Text}

variable (ft) in
/-- Log lines, and the text of one JSON object behind them. -/
structure CliOutput where
  log : Text
  body : Text
  object : List (Yaml × Yaml)
  ended : log = [] ∨ log.getLast? = some '\n'
  reads : loads ft body = some (.map object)

namespace CliOutput

variable {out : CliOutput ft}

def text (out : CliOutput ft) : Text := out.log ++ out.body

/-- The first log line that opens with a bracket. -/
def opening (out : CliOutput ft) : Option Text := (splitlines out.log).find? opensJson

/-- The text of the object without the blanks around it. -/
def bare (out : CliOutput ft) : Text := (skipSpace (skipSpace out.body).reverse).reverse

def OneLine (out : CliOutput ft) : Prop := ∀ c ∈ out.bare, isLineBreak c = false

theorem exists_bare (out : CliOutput ft) : ∃ b e, out.body = b ++ (out.bare ++ e) ∧ Blank b ∧ Blank e ∧
    ObjectText ft out.bare out.object := by
  obtain ⟨b, u, e, hbody, hb, he, hu⟩ := exists_objectText out.reads
  have hbare : out.bare = u := by
    obtain ⟨s, rfl⟩ := hu.opens
    have hfront : skipSpace out.body = '\x7b' :: s ++ e := by
      rw [hbody]
      exact skipSpace_append hb (by simp [space])
    rw [bare, hfront, List.reverse_append, skipSpace_append]
    · exact List.reverse_reverse _
    · intro c hc
      exact he c (List.mem_reverse.mp hc)
    · intro c hc
      rw [List.head?_reverse, hu.closed] at hc
      cases hc
      rfl
  rw [hbare]
  exact ⟨b, e, hbody, hb, he, hu⟩

/-- No object holds the text it is read from. -/
theorem rawResponse_ne (out : CliOutput ft) : rawResponse out.text ≠ .map out.object := by
  obtain ⟨b, e, hbody, -, -, hu⟩ := out.exists_bare
  intro heq
  have hobject : [(.str "raw".toList, .str out.text)] = out.object := Yaml.map.inj heq
  have hlength := hu.shorter (.str "raw".toList, .str out.text) (by rw [← hobject]; exact List.mem_singleton_self _) _ rfl
  rw [text, hbody] at hlength
  simp only [List.length_append] at hlength
  omega

theorem response_iff (line : Text) :
    (loads ft (pyStrip line)).getD (rawResponse out.text) = .map out.object ↔
      loads ft (pyStrip line) = some (.map out.object) := by
  cases hloads : loads ft (pyStrip line) with
  | none => exact iff_of_false out.rawResponse_ne (by simp)
  | some v => simp

theorem parse_of_opening {line : Text} (h : out.opening = some line) :
    parseResponse ft out.text = .map out.object ↔ loads ft (pyStrip line) = some (.map out.object) := by
  have hfind : (splitlines out.text).find? opensJson = some line := by
    rw [text, splitlines_append out.ended, List.find?_append, ← opening, h]
    rfl
  rw [parseResponse, hfind]
  exact response_iff line

/-- The text of an object alone in its line is what is left of the line. -/
theorem strip_oneLine {e : Text} {object : List (Yaml × Yaml)} {u : Text} (hu : ObjectText ft u object) (he : Blank e)
    (hline : ∀ c ∈ u, isLineBreak c = false) : pyStrip (firstLine (u ++ e)) = u := by
  have hfirst : firstLine (u ++ e) = u ++ firstLine e := by
    rw [firstLine, List.takeWhile_append_of_pos (by simpa using hline), firstLine]
  rw [hfirst]
  refine pyStrip_append_right ?_ ?_ ?_
  · obtain ⟨t, rfl⟩ := hu.opens
    intro c hc
    cases hc
    rfl
  · intro c hc
    rw [hu.closed] at hc
    cases hc
    rfl
  · intro c hc
    exact space_pyIsSpace (he c (List.takeWhile_subset _ hc))

/-- A stripped line that is the text of an object is the object it opens. -/
theorem oneLine_of_strip {t e : Text} {object : List (Yaml × Yaml)} (hu : ObjectText ft ('\x7b' :: t) object)
    (h : loads ft (pyStrip (firstLine ('\x7b' :: t ++ e))) = some (.map object)) :
    ∀ c ∈ '\x7b' :: t, isLineBreak c = false := by
  rw [List.cons_append] at h
  obtain ⟨s, w, hfirst, hstrip⟩ := exists_stripped (t ++ e)
  rw [hstrip] at h
  obtain ⟨b, u, e', hs, hb, he', hobject⟩ := exists_objectText h
  have hb_nil : b = [] := by
    cases b with
    | nil => rfl
    | cons c b =>
        have hspace := hb c List.mem_cons_self
        obtain rfl : '\x7b' = c := (List.cons.inj hs).1
        cases hspace
  have he_nil : e' = [] := by
    rcases List.eq_nil_or_concat e' with rfl | ⟨front, c, rfl⟩
    · rfl
    · have hspace := space_pyIsSpace (he' c (by simp))
      have hlast : c ∈ (pyStrip (firstLine ('\x7b' :: (t ++ e)))).getLast? := by
        rw [hstrip, hs]
        simp
      rw [pyStrip_getLast hlast] at hspace
      cases hspace
  rw [hb_nil, he_nil, List.nil_append, List.append_nil] at hs
  obtain ⟨rest, hrest⟩ : firstLine ('\x7b' :: (t ++ e)) <+: '\x7b' :: (t ++ e) := List.takeWhile_prefix _
  have hsame : '\x7b' :: t ++ e = u ++ (w ++ rest) := by
    rw [List.cons_append, ← hrest, hfirst, hs, List.append_assoc]
  rw [hu.unique hobject hsame, ← hs]
  intro c hc
  have hmem : c ∈ firstLine ('\x7b' :: (t ++ e)) := by
    rw [hfirst]
    exact List.mem_append_left _ hc
  simpa using List.mem_takeWhile_imp hmem

theorem parse_of_no_opening (h : out.opening = none) :
    parseResponse ft out.text = .map out.object ↔ out.OneLine := by
  obtain ⟨b, e, hbody, hb, he, hu⟩ := out.exists_bare
  obtain ⟨t, ht⟩ := hu.opens
  have htext : out.body = b ++ '\x7b' :: (t ++ e) := by rw [hbody, ht, List.cons_append]
  have hblank : ∀ c ∈ ([] : Text), pyIsSpace c = true := by simp
  obtain ⟨found, hfind, hstrip⟩ := find_opening (t := t ++ e) hblank hb
  have hline : (splitlines out.text).find? opensJson = some found := by
    rw [text, splitlines_append out.ended, List.find?_append, ← opening, h, htext]
    exact hfind
  rw [parseResponse, hline]
  refine (response_iff found).trans ?_
  have hfirst : '\x7b' :: (t ++ e) = out.bare ++ e := by rw [ht, List.cons_append]
  rw [hstrip, hfirst]
  constructor
  · intro hloads
    rw [ht] at hloads hu
    rw [OneLine, ht]
    exact oneLine_of_strip hu hloads
  · intro hline
    rw [strip_oneLine hu he hline]
    exact hu.loads

end CliOutput

variable (ft texts) in
/-- The trade status that a response carries; nothing where it is no object. -/
def carried (raw : Text) : Option Text :=
  match parseResponse ft raw with
  | .map parsed => some (statusText texts parsed)
  | _ => none

def Texts.NamesPayment (texts : Texts) (t : Text) : Prop := texts.has "PAID" t = true ∨ texts.has "TRADE_SUCCESS" t = true

/-- The statuses of an order that is paid. -/
def Texts.IsPaid (texts : Texts) (t : Text) : Prop := texts.upper t ∈ ["PAID".toList, "TRADE_SUCCESS".toList]

theorem statusOf_paid_iff : statusOf texts t = .paid ↔ texts.NamesPayment t := by
  unfold statusOf Texts.NamesPayment
  rw [← Bool.or_eq_true]
  split_ifs with hpaid <;> simp [hpaid]

theorem parsePaymentStatus_paid_iff :
    (∃ s, parsePaymentStatus ft texts raw orderNo = .ok s ∧ s.status = .paid) ↔
      ∃ t, carried ft texts raw = some t ∧ texts.NamesPayment t := by
  unfold parsePaymentStatus carried
  cases parseResponse ft raw with
  | map parsed => simp [statusOf_paid_iff]
  | _ => simp

/-- **A response is recovered** when its object is alone in one line behind log lines that open with no bracket, and **a
payment is reported** rightly when the status contains the name of a paid one only by being one. -/
theorem responses_iff (ft : Yaml.FloatText) (texts : Texts) :
    (∀ out : CliOutput ft, parseResponse ft out.text = .map out.object ↔
      (out.opening = none ∧ out.OneLine) ∨
        ∃ line, out.opening = some line ∧ loads ft (pyStrip line) = some (.map out.object)) ∧
    ∀ raw orderNo,
      ((∃ s, parsePaymentStatus ft texts raw orderNo = .ok s ∧ s.status = .paid) →
          ∃ t, carried ft texts raw = some t ∧ texts.IsPaid t) ↔
        ∀ t, carried ft texts raw = some t → texts.NamesPayment t → texts.IsPaid t := by
  constructor
  · intro out
    cases hopening : out.opening with
    | none => simp [CliOutput.parse_of_no_opening hopening]
    | some line => simp [CliOutput.parse_of_opening hopening]
  · intro raw orderNo
    rw [parsePaymentStatus_paid_iff]
    constructor
    · intro h t ht hnames
      obtain ⟨t', ht', hpaid⟩ := h ⟨t, ht, hnames⟩
      rw [ht] at ht'
      obtain rfl := Option.some.inj ht'
      exact hpaid
    · rintro h ⟨t, ht, hnames⟩
      exact ⟨t, ht, h t ht hnames⟩

/-- The texts of values that are ASCII strings. -/
def asciiTexts : Texts where
  str
    | .str s => s
    | _ => []
  upper := List.map Char.toUpper
  str_text _ := rfl

/-- No float is read or written. -/
def noFloats : Yaml.FloatText where
  IsFloat _ := False
  repr _ := []
  ofText _ := 0
  repr_mem _ h := h.elim
  ofText_repr _ h := h.elim

/-- An object with a status, with blanks behind its first and before its last bracket. -/
def statusJson (b status b' : Text) : Text :=
  '\x7b' :: (b ++ '"' :: ("status\"".toList ++ ':' :: ' ' :: '"' :: (status ++ '"' :: (b' ++ ['\x7d']))))

def statusObject (status : Text) : List (Yaml × Yaml) := [(.str "status".toList, .str status)]

/-- Characters that stand for themselves in JSON. -/
def isName (status : Text) : Bool := status.all fun c => c ≠ '"' ∧ c ≠ '\\' ∧ ¬c.toNat < 0x20

theorem isName.stringText {status : Text} (h : isName status = true) : StringText (status ++ ['"']) status :=
  stringText_plain fun c hc => by simpa using List.all_eq_true.mp h c hc

theorem objectText_status {b status b' : Text} (hb : Blank b) (hstatus : isName status = true) (hb' : Blank b') :
    ObjectText ft (statusJson b status b') (statusObject status) := by
  have hnone : Blank [] := by simp [Blank]
  have hname : isName "status".toList = true := rfl
  have hkey : StringText "status\"".toList "status".toList := isName.stringText hname
  have hvalue : ValueText ft ('"' :: (status ++ ['"'])) (.str status) := (isName.stringText hstatus).valueText
  have hblank : Blank [' '] := by simp [Blank, space]
  have hobject := objectText_members hb (members_last [] hnone hkey hnone hblank hvalue hb')
    (by
      rintro c ⟨⟩
      decide)
  have hput : Yaml.put [] (.str "status".toList) (.str status) = statusObject status := rfl
  rw [hput] at hobject
  simpa [statusJson] using hobject

theorem statusJson_loads {b status b' : Text} (hb : Blank b) (hstatus : isName status = true) (hb' : Blank b') :
    loads ft (statusJson b status b') = some (.map (statusObject status)) := (objectText_status hb hstatus hb').loads

/-- Log lines, then the object. -/
def statusOutput (log b status b' : Text) (hlog : log = [] ∨ log.getLast? = some '\n') (hb : Blank b)
    (hstatus : isName status = true) (hb' : Blank b') : CliOutput noFloats where
  log := log
  body := statusJson b status b'
  object := statusObject status
  ended := hlog
  reads := statusJson_loads hb hstatus hb'

theorem blank_newline : Blank ['\n'] := by simp [Blank, space]

theorem blank_nil : Blank [] := by simp [Blank]

/-- Behind a log line with its level in brackets. -/
def loggedOutput : CliOutput noFloats :=
  statusOutput "[INFO] asking\n".toList [] "PENDING".toList [] (Or.inr rfl) blank_nil rfl blank_nil

/-- In three lines. -/
def prettyOutput : CliOutput noFloats :=
  statusOutput [] ['\n'] "PENDING".toList ['\n'] (Or.inl rfl) blank_newline rfl blank_newline

def unpaidOutput : CliOutput noFloats :=
  statusOutput [] [] "UNPAID".toList [] (Or.inl rfl) blank_nil rfl blank_nil

theorem unpaid_parsed : parseResponse noFloats unpaidOutput.text = .map (statusObject "UNPAID".toList) := by
  have hopening : unpaidOutput.opening = none := rfl
  have hline : (unpaidOutput.bare.all fun c => !isLineBreak c) = true := rfl
  refine (CliOutput.parse_of_no_opening hopening).mpr fun c hc => ?_
  simpa using List.all_eq_true.mp hline c hc

/-- Neither is recovered, and an order that is not paid is reported as paid. -/
theorem unpaid_reported :
    parseResponse noFloats loggedOutput.text ≠ .map loggedOutput.object ∧
    parseResponse noFloats prettyOutput.text ≠ .map prettyOutput.object ∧
    (∃ s, parsePaymentStatus noFloats asciiTexts unpaidOutput.text "1".toList = .ok s ∧ s.status = .paid) ∧
    carried noFloats asciiTexts unpaidOutput.text = some "UNPAID".toList ∧ ¬asciiTexts.IsPaid "UNPAID".toList := by
  have hcarried : carried noFloats asciiTexts unpaidOutput.text = some "UNPAID".toList := by
    rw [carried, unpaid_parsed]
    rfl
  refine ⟨?_, ?_, ?_, ?_, by unfold Texts.IsPaid; decide⟩
  · have hopening : loggedOutput.opening = some "[INFO] asking".toList := rfl
    rw [Ne, CliOutput.parse_of_opening hopening]
    exact loads_ne_map
  · have hopening : prettyOutput.opening = none := rfl
    rw [Ne, CliOutput.parse_of_no_opening hopening]
    intro h
    have hbreak := h '\n' (by decide)
    cases hbreak
  · refine parsePaymentStatus_paid_iff.mpr ⟨"UNPAID".toList, hcarried, Or.inl ?_⟩
    unfold Texts.has
    decide
  · exact hcarried

end CryptoAggHarmonic.Alipay
