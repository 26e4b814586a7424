import CryptoAggHarmonic.Alipay.Lemmas.Calls

/-!
# An extraction behind the fence

The fence of an extraction is the temporary directory, less the places where earlier members made links. Members that
keep clear of these places change nothing outside, whatever the links point to.
-/

namespace CryptoAggHarmonic.Alipay

open Files PyOs Effect

variable {β : Type}

/-! ## Keeping clear of links -/

/-- Where the name of a member leads when no link is met. -/
def memberPlace (tmp : List Text) (m : TarInfo β) : List Text := lexical tmp (parse m.name)

/-- The member may be written as a file: it is one, or it is a link and another member bears the name it points to. -/
def canWrite (all before : List (TarInfo β)) (m : TarInfo β) : Bool :=
  match m.type with
  | .reg _ _ => true
  | .sym => (findLinkTarget all before m).isSome
  | .lnk => (findLinkTarget all before m).isSome
  | _ => false

/-- The name of the member does not go through a place of `links`, and no file is written onto one. -/
structure ClearOf (tmp : List Text) (links : List (List Text)) (all before : List (TarInfo β)) (m : TarInfo β) :
    Prop where
  way : ∀ q ∈ visited tmp (parse m.name).dropLast, q ∉ links
  place : canWrite all before m = true → memberPlace tmp m ∉ links

/-- Every member keeps clear of the places of the links before it. -/
def ClearOfLinks (tmp : List Text) (all : List (TarInfo β)) :
    List (List Text) → List (TarInfo β) → List (TarInfo β) → Prop
  | _, _, [] => True
  | links, before, m :: ms =>
      ClearOf tmp links all before m ∧
        ClearOfLinks tmp all (if m.isSym || m.isLnk then memberPlace tmp m :: links else links) (m :: before) ms

/-! ## One call at a path behind a fence -/

/-- The path of a call: up to its last component it is direct, and a change there is one of the zone. -/
structure Reaches (F : Fence Text) (d₀ : PyDisk β) (path : Path Text) : Prop where
  way : F.Way path.dropLast
  within : ∀ init, init <+: path → F.Within d₀ (lexical [] init)

section

variable {F G : Fence Text} {d₀ : PyDisk β} {target : Path Text} {host : Host β} {all before : List (TarInfo β)}
  {m : TarInfo β} {source : Option (Path Text)} {n : ℕ}

theorem visited_mono {α : Type} {p q : List α} {init path : Path α} (hinit : init <+: path)
    (hq : q ∈ visited p init) : q ∈ visited p path := by
  obtain ⟨rest, rfl⟩ := hinit
  exact mem_visited_append.mpr (Or.inl hq)

theorem way_mono {init path : Path Text} (hinit : init <+: path) (h : F.Way path) : F.Way init :=
  fun q hq => h q (visited_mono hinit hq)

/-- A path is direct when it is up to its last component and where it ends. -/
theorem way_of_dropLast (h : F.Way target.dropLast) (hlast : F.direct (lexical [] target)) : F.Way target := by
  intro q hq
  rcases target.eq_nil_or_concat' with rfl | ⟨init, s, rfl⟩
  · simp [visited] at hq
  · rcases mem_visited_append.mp hq with hq | hq
    · exact h q (by simpa using hq)
    · obtain rfl : q = lexical [] (init ++ [s]) := by simpa using hq
      exact hlast

theorem Reaches.mkdir (h : Reaches F d₀ target) {init : Path Text} (hinit : init <+: target) :
    Keeps (F.Holds d₀) (sys (mkdir init)) := by
  refine keeps_sys fun d d' hd hrun => hd.mkdir ?_ (Or.inl (h.within init hinit)) hrun
  refine way_mono ?_ h.way
  rcases target.eq_nil_or_concat' with rfl | ⟨path, s, rfl⟩
  · simp_all
  · rcases List.prefix_concat_iff.mp hinit with rfl | hinit
    · exact List.prefix_rfl
    · simpa using (List.dropLast_prefix init).trans hinit

theorem keeps_makeUpperDirs (h : Reaches F d₀ target) : Keeps (F.Holds d₀) (makeUpperDirs target) := by
  refine Keeps.get_bind fun d => ?_
  split
  · exact keeps_pure
  · exact keeps_makedirs fun init hinit => h.mkdir (hinit.trans (List.dropLast_prefix target))

theorem keeps_writeFile (h : Reaches F d₀ target) (hdirect : F.direct (lexical [] target))
    (hfresh : F.zone (lexical [] target) → F.fresh (lexical [] target)) {data : β} :
    Keeps (F.Holds d₀) (sys (writeFile data target)) :=
  keeps_sys fun _ _ hd hrun =>
    hd.writeFile (way_of_dropLast h.way hdirect) (h.within target List.prefix_rfl) hfresh hrun

theorem keeps_makefile (h : Reaches F d₀ target) (hdirect : F.direct (lexical [] target))
    (hfresh : F.zone (lexical [] target) → F.fresh (lexical [] target)) {data : β} {complete : Bool} :
    Keeps (F.Holds d₀) (makefile data complete target) := by
  refine (keeps_writeFile h hdirect hfresh).bind fun _ => ?_
  split
  · exact keeps_pure
  · exact keeps_throw

theorem keeps_makedir (h : Reaches F d₀ target) : Keeps (F.Holds d₀) (makedir target) := by
  refine (h.mkdir List.prefix_rfl).tryCatch fun e => ?_
  split
  · exact keeps_pure
  · exact keeps_throw

theorem keeps_special (h : Reaches F d₀ target) : Keeps (F.Holds d₀) (sys (make .special target)) :=
  keeps_sys fun _ _ hd hrun => hd.special h.way (h.within target List.prefix_rfl) hrun

theorem keeps_unlinkEntry (h : Reaches F d₀ target) : Keeps (F.Holds d₀) (unlinkEntry target) := by
  refine Keeps.get_bind fun d => ?_
  split
  · exact keeps_sys fun _ _ hd hrun => hd.unlink h.way (h.within target List.prefix_rfl) hrun
  · exact keeps_pure

/-- Once the link is made, the fence no longer speaks of its place; else nothing that it says has changed. -/
theorem triple_tryLink (h : Reaches F d₀ target) (hopen : F.Opens G (lexical [] target)) :
    Triple (F.Holds d₀) (tryLink source target m)
      (fun outcome d => if outcome = .made then G.Holds d₀ d else F.Holds d₀ d) (F.Holds d₀) := by
  unfold tryLink
  split
  · have hlink : Triple (F.Holds d₀) (sys (symlink (linkTarget m.linkname) target)) (fun _ => G.Holds d₀)
        (F.Holds d₀) :=
      triple_sys (fun d d' hd hrun => hopen.symlink hd h.way (h.within target List.prefix_rfl) hrun) fun _ hd => hd
    exact Triple.bind (keeps_unlinkEntry h) fun _ => hlink.bind fun _ => triple_pure (by simp)
  · split
    · exact triple_throw fun _ hd => hd
    · rename_i path
      have hlink : Triple (F.Holds d₀) (sys (hardlink path target)) (fun _ => G.Holds d₀) (F.Holds d₀) :=
        triple_sys (fun d d' hd hrun => hopen.hardlink hd h.way (h.within target List.prefix_rfl) hrun) fun _ hd => hd
      refine triple_get_bind fun d hd => ?_
      split
      · exact Triple.pre (hlink.bind fun _ => triple_pure (by simp)) fun t ht => ht ▸ hd
      · exact triple_pure fun t ht => by simpa using ht ▸ hd

theorem triple_makelink {again : TarInfo β → List (TarInfo β) → Py β Unit} (h : Reaches F d₀ target)
    (hopen : F.Opens G (lexical [] target))
    (hagain : ∀ m' before', findLinkTarget all before m = some (m', before') →
      Triple (F.Holds d₀) (again m' before') (fun _ => G.Holds d₀) (G.Holds d₀)) :
    Triple (F.Holds d₀) (makelink again all before source target m) (fun _ => G.Holds d₀) (G.Holds d₀) := by
  refine Triple.bind (Triple.tryCatch (triple_tryLink h hopen) fun e => ?_) fun outcome => ?_
  · split
    · exact triple_pure (by simp)
    · exact triple_throw fun _ hd => hopen.mono hd
  · split
    · rename_i hmade
      exact triple_pure (by simp)
    · rename_i hmade
      split
      · rename_i m' before' hfind
        exact (hagain m' before' hfind).pre (by simp)
      · exact triple_throw fun _ hd => hopen.mono (by simpa [hmade] using hd)

theorem Triple.mono {P : PyDisk β → Prop} {x : Py β Unit} (h : Keeps (F.Holds d₀) x)
    (hmono : ∀ d, F.Holds d₀ d → P d) : Triple (F.Holds d₀) x (fun _ => P) P :=
  h.post (fun _ => hmono) hmono

/-- A member and, when its link fails, the members extracted in its place: all of them are made at `target`. -/
theorem triple_extractMember (h : Reaches F d₀ target) (hmono : ∀ d, F.Holds d₀ d → G.Holds d₀ d)
    (hopen : m.isSym = true ∨ m.isLnk = true → F.Opens G (lexical [] target))
    (hwrite : canWrite all before m = true →
      F.direct (lexical [] target) ∧ (F.zone (lexical [] target) → F.fresh (lexical [] target))) :
    Triple (F.Holds d₀) (extractMember host all n source target m before) (fun _ => G.Holds d₀) (G.Holds d₀) := by
  induction n generalizing m before source with
  | zero => exact triple_throw hmono
  | succ n ih =>
      have hlink (hkind : m.isSym = true ∨ m.isLnk = true)
          (hcan : canWrite all before m = (findLinkTarget all before m).isSome) :
          Triple (F.Holds d₀) (makelink (extractMember host all n none target) all before source target m)
            (fun _ => G.Holds d₀) (G.Holds d₀) := by
        refine triple_makelink h (hopen hkind) fun m' before' hfind => ?_
        have hplace := hwrite (by simp [hcan, hfind])
        exact ih (fun _ => hopen hkind) fun _ => hplace
      refine Triple.bind (Triple.post (keeps_makeUpperDirs h) (fun _ _ hd => hd) hmono) fun _ => ?_
      unfold makeMember
      split
      · rename_i data complete htype
        obtain ⟨hdirect, hfresh⟩ := hwrite (by simp [canWrite, htype])
        exact Triple.mono (keeps_makefile h hdirect hfresh) hmono
      · exact Triple.mono (keeps_makedir h) hmono
      · exact Triple.mono (keeps_special h) hmono
      · split
        · exact Triple.mono (keeps_special h) hmono
        · exact triple_throw hmono
      · rename_i htype
        exact hlink (Or.inl (by simp [TarInfo.isSym, htype])) (by simp [canWrite, htype])
      · rename_i htype
        exact hlink (Or.inr (by simp [TarInfo.isLnk, htype])) (by simp [canWrite, htype])

end

/-! ## The whole archive -/

/-- Under `tmp` anything may change; where links were made, nothing is known. -/
def linkFence (tmp : List Text) (base : ℕ) (links : List (List Text)) : Fence Text where
  zone q := tmp <+: q ∧ q ≠ tmp
  grow _ := False
  direct q := q <+: tmp ∨ (tmp <+: q ∧ q ∉ links)
  fresh q := tmp <+: q ∧ q ∉ links
  base := base
  zone_below := by
    rintro p q hpq ⟨htmp, hne⟩
    refine ⟨htmp.trans hpq, ?_⟩
    rintro rfl
    exact hne (hpq.eq_of_length (le_antisymm hpq.length_le htmp.length_le))

section

variable {tmp : List Text} {base : ℕ} {links : List (List Text)} {d₀ : PyDisk β} {host : Host β}
  {all before ms : List (TarInfo β)} {m : TarInfo β}

theorem linkFence_opens {p : List Text} : (linkFence tmp base links).Opens (linkFence tmp base (p :: links)) p where
  zone := rfl
  grow := rfl
  base := rfl
  direct q := by
    rintro (hq | ⟨hq, hmem⟩)
    · exact Or.inl hq
    · exact Or.inr ⟨hq, fun h => hmem (List.mem_cons_of_mem _ h)⟩
  fresh q := fun ⟨hq, hmem⟩ => ⟨hq, fun h => hmem (List.mem_cons_of_mem _ h)⟩
  free := by
    rintro ⟨htmp, hne⟩
    refine ⟨?_, fun h => h.2 (by simp)⟩
    rintro (hle | h)
    · exact hne (hle.eq_of_length (le_antisymm hle.length_le htmp.length_le))
    · exact h.2 (by simp)

/-- A path below `tmp` reaches the zone. -/
theorem reaches_below (hd₀ : ∀ q, q <+: tmp → d₀.node q = some .dir) {path : Path Text}
    (hbelow : ∀ q ∈ visited tmp path, tmp <+: q) (hway : ∀ q ∈ visited tmp path.dropLast, q ∉ links) :
    Reaches (linkFence tmp base links) d₀ (tmp.map .down ++ path) := by
  have hnames {q : List Text} (hq : q ∈ visited [] (tmp.map .down)) : q <+: tmp := by
    obtain ⟨init, hinit, -, rfl⟩ := mem_visited_names.mp hq
    exact hinit
  have hlex : lexical [] (tmp.map .down) = tmp := by simp [lexical_names]
  refine ⟨fun q hq => ?_, fun init hinit => ?_⟩
  · rcases path.eq_nil_or_concat' with rfl | ⟨path, s, rfl⟩
    · exact Or.inl (hnames (mem_visited_of_mem_dropLast (by simpa using hq)))
    · rw [← List.append_assoc, List.dropLast_concat, mem_visited_append, hlex] at hq
      rcases hq with hq | hq
      · exact Or.inl (hnames hq)
      · exact Or.inr ⟨hbelow q (by simp [hq]), hway q (by simpa using hq)⟩
  · have hdir {q : List Text} (hq : q <+: tmp) : (linkFence tmp base links).Within d₀ q := Or.inr (hd₀ q hq)
    rcases eq_or_ne init [] with rfl | hne
    · exact hdir (List.nil_prefix)
    have hmem := visited_mono hinit (lexical_mem_visited (p := []) hne)
    rw [mem_visited_append, hlex] at hmem
    rcases hmem with hmem | hmem
    · exact hdir (hnames hmem)
    · by_cases heq : lexical [] init = tmp
      · exact hdir (heq ▸ List.prefix_rfl)
      · exact Or.inl ⟨hbelow _ hmem, heq⟩

theorem triple_extractOne (host : Host β) (base : ℕ) (hd₀ : ∀ q, q <+: tmp → d₀.node q = some .dir)
    (hsafe : memberSafe m.name = true)
    (hclear : ClearOf tmp links all before m) :
    Triple ((linkFence tmp base links).Holds d₀) (extractOne host (tmp.map .down) all before m)
      (fun _ => (linkFence tmp base
        (if m.isSym || m.isLnk then memberPlace tmp m :: links else links)).Holds d₀)
      ((linkFence tmp base (if m.isSym || m.isLnk then memberPlace tmp m :: links else links)).Holds d₀) := by
  have hjoin : join (tmp.map .down) m.name = tmp.map .down ++ parse m.name := by
    simp [join, not_isAbs_of_memberSafe hsafe]
  have hplace : lexical [] (tmp.map .down ++ parse m.name) = memberPlace tmp m := by
    simp [memberPlace, lexical_names]
  have hreach : Reaches (linkFence tmp base links) d₀ (tmp.map .down ++ parse m.name) :=
    reaches_below hd₀ (fun q hq => visited_of_memberSafe hsafe hq) hclear.way
  have hbelow : tmp <+: memberPlace tmp m := by
    rcases eq_or_ne (parse m.name) [] with hnil | hne
    · simp [memberPlace, hnil]
    · exact visited_of_memberSafe hsafe (lexical_mem_visited hne)
  have hextract : Triple ((linkFence tmp base links).Holds d₀)
      (extractMember host all host.recursionLimit (if m.isLnk then some (joinLink (tmp.map .down) m.linkname) else none)
        (join (tmp.map .down) m.name) m before)
      (fun _ => (linkFence tmp base
        (if m.isSym || m.isLnk then memberPlace tmp m :: links else links)).Holds d₀)
      ((linkFence tmp base (if m.isSym || m.isLnk then memberPlace tmp m :: links else links)).Holds d₀) := by
    rw [hjoin]
    refine triple_extractMember hreach (fun d hd => ?_) (fun hkind => ?_) fun hcan => ?_
    · split
      · exact linkFence_opens.mono hd
      · exact hd
    · rw [if_pos (by simpa using hkind), hplace]
      exact linkFence_opens
    · rw [hplace]
      exact ⟨Or.inr ⟨hbelow, hclear.place hcan⟩, fun _ => ⟨hbelow, hclear.place hcan⟩⟩
  refine hextract.tryCatch fun e => ?_
  by_cases he : e = .extract
  · rw [if_pos he]
    exact triple_pure fun _ hd => hd
  · rw [if_neg he]
    exact triple_throw fun _ hd => hd

/-- The extraction may stop at any member; the fence then stands with the links made so far. -/
theorem triple_extractFrom (hd₀ : ∀ q, q <+: tmp → d₀.node q = some .dir) (hsafe : ∀ m ∈ ms, memberSafe m.name = true)
    (hclear : ClearOfLinks tmp all links before ms) :
    Triple ((linkFence tmp base links).Holds d₀) (extractFrom host (tmp.map .down) all before ms)
      (fun _ d => ∃ links, (linkFence tmp base links).Holds d₀ d)
      (fun d => ∃ links, (linkFence tmp base links).Holds d₀ d) := by
  induction ms generalizing links before with
  | nil => exact triple_pure fun d hd => ⟨links, hd⟩
  | cons m ms ih =>
      have hone := triple_extractOne host base hd₀ (hsafe m (by simp)) hclear.1
      exact Triple.bind (Triple.post hone (fun _ _ hd => hd) fun d hd => ⟨_, hd⟩) fun _ =>
        ih (fun m hm => hsafe m (by simp [hm])) hclear.2

end

end CryptoAggHarmonic.Alipay
