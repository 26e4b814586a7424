import Mathlib.Data.List.Infix
import Mathlib.Logic.Function.Basic

/-!
# A disk with symbolic and hard links

A place is the list of the names from the root. A disk has a node at some places; a file's node is a number under which
its bytes are kept, so that two places with one number are hard links of one file. A path is what a program writes: its
components may go up, and the walk from the root follows the links it meets.
-/

namespace Files

variable {α β : Type}

/-- A component of a path as it is written. `stray` is a name no file can have. -/
inductive Step (α : Type)
  | here
  | up
  | stray (a : α)
  | down (a : α)
  deriving DecidableEq

/-- A path from the root. -/
abbrev Path (α : Type) := List (Step α)

/-- The text of a link: it starts at the root, or where the link is. -/
structure Target (α : Type) where
  absolute : Bool
  steps : List (Step α)

inductive Node (α : Type)
  | dir
  | file (inode : ℕ)
  | link (target : Target α)
  | special

def Node.IsLink : Option (Node α) → Prop
  | some (.link _) => True
  | _ => False

@[simp] theorem Node.not_isLink_none : ¬Node.IsLink (none : Option (Node α)) := id

@[simp] theorem Node.not_isLink_dir : ¬Node.IsLink (some .dir : Option (Node α)) := id

@[simp] theorem Node.not_isLink_file {i : ℕ} : ¬Node.IsLink (some (.file i) : Option (Node α)) := id

@[simp] theorem Node.not_isLink_special : ¬Node.IsLink (some .special : Option (Node α)) := id

structure Disk (α β : Type) where
  node : List α → Option (Node α)
  bytes : ℕ → β
  next : ℕ

inductive Errno
  | missing
  | notDir
  | present
  | isDir
  | loop
  | refused
  | badName
  deriving DecidableEq

/-! ## Places that are written -/

/-- Where a component leads when no link is met. -/
def stepOn (p : List α) : Step α → List α
  | .here => p
  | .up => p.dropLast
  | .stray a => p ++ [a]
  | .down a => p ++ [a]

def lexical (p : List α) (path : Path α) : List α := path.foldl stepOn p

/-- The places after each component. -/
def visited : List α → Path α → List (List α)
  | _, [] => []
  | p, s :: path => stepOn p s :: visited (stepOn p s) path

@[simp] theorem lexical_nil {p : List α} : lexical p [] = p := rfl

@[simp] theorem lexical_cons {p : List α} {s : Step α} {path : Path α} :
    lexical p (s :: path) = lexical (stepOn p s) path := rfl

@[simp] theorem lexical_append {p : List α} {path rest : Path α} :
    lexical p (path ++ rest) = lexical (lexical p path) rest := List.foldl_append

@[simp] theorem mem_visited_append {p q : List α} {path rest : Path α} :
    q ∈ visited p (path ++ rest) ↔ q ∈ visited p path ∨ q ∈ visited (lexical p path) rest := by
  induction path generalizing p with
  | nil => simp [visited]
  | cons s path ih => simp [visited, ih, or_assoc]

@[simp] theorem visited_singleton {p : List α} {s : Step α} : visited p [s] = [stepOn p s] := rfl

theorem mem_visited_of_mem_dropLast {p q : List α} {path : Path α} (hq : q ∈ visited p path.dropLast) :
    q ∈ visited p path := by
  rcases path.eq_nil_or_concat' with rfl | ⟨init, s, rfl⟩
  · exact hq
  · simp_all

theorem lexical_mem_visited {p : List α} {path : Path α} (hne : path ≠ []) : lexical p path ∈ visited p path := by
  obtain ⟨init, s, rfl⟩ := path.eq_nil_or_concat'.resolve_left hne
  simp [lexical]

theorem lexical_names {p names : List α} : lexical p (names.map .down) = p ++ names := by
  induction names generalizing p with
  | nil => simp
  | cons a names ih => simp [stepOn, ih]

theorem mem_visited_names {p names q : List α} :
    q ∈ visited p (names.map .down) ↔ ∃ init, init <+: names ∧ init ≠ [] ∧ q = p ++ init := by
  induction names generalizing p with
  | nil => simp [visited]
  | cons a names ih =>
      simp only [List.map_cons, visited, List.mem_cons, ih, stepOn]
      constructor
      · rintro (rfl | ⟨init, hinit, -, rfl⟩)
        · exact ⟨[a], by simp, by simp, rfl⟩
        · exact ⟨a :: init, by simpa using hinit, by simp, by simp⟩
      · rintro ⟨init, hinit, hne, rfl⟩
        obtain ⟨b, init, rfl⟩ := List.exists_cons_of_ne_nil hne
        obtain ⟨rfl, htail⟩ := List.cons_prefix_cons.mp hinit
        rcases eq_or_ne init [] with rfl | hinit'
        · exact Or.inl rfl
        · exact Or.inr ⟨init, htail, hinit', by simp⟩

/-! ## Walking -/

/-- A walk; `jump` goes on from a link. The last place may be one where nothing is yet. -/
def walkWith (d : Disk α β) (jump : List α → Path α → Except Errno (List α)) :
    List α → Path α → Except Errno (List α)
  | p, [] => .ok p
  | p, s :: path =>
      match d.node p with
      | some .dir =>
          match s with
          | .here => walkWith d jump p path
          | .up => walkWith d jump p.dropLast path
          | .stray _ => .error .badName
          | .down a =>
              match d.node (p ++ [a]) with
              | some (.link t) => jump (if t.absolute then [] else p) (t.steps ++ path)
              | _ => walkWith d jump (p ++ [a]) path
      | none => .error .missing
      | some _ => .error .notDir

/-- `n` bounds the links of the whole walk. -/
def walk (d : Disk α β) : ℕ → List α → Path α → Except Errno (List α)
  | 0 => walkWith d fun _ _ => .error .loop
  | n + 1 => walkWith d (walk d n)

/-- The bound of Linux. -/
def maxLinks : ℕ := 40

/-- The place a path leads to. -/
def resolve (d : Disk α β) (path : Path α) : Except Errno (List α) := walk d maxLinks [] path

/-- The place the last name is an entry at: a link there is not followed. -/
def place (d : Disk α β) (path : Path α) : Except Errno (List α) :=
  match path.getLast? with
  | some (.down a) =>
      match resolve d path.dropLast with
      | .error e => .error e
      | .ok p =>
          match d.node p with
          | some .dir => .ok (p ++ [a])
          | none => .error .missing
          | some _ => .error .notDir
  | _ => resolve d path

def stat (d : Disk α β) (path : Path α) : Option (Node α) := (resolve d path).toOption.bind d.node

def lstat (d : Disk α β) (path : Path α) : Option (Node α) := (place d path).toOption.bind d.node

def isPresent (d : Disk α β) (path : Path α) : Bool := (stat d path).isSome

def isEntry (d : Disk α β) (path : Path α) : Bool := (lstat d path).isSome

def isDir (d : Disk α β) (path : Path α) : Bool := (stat d path) matches some .dir

def isFile (d : Disk α β) (path : Path α) : Bool := (stat d path) matches some (.file _)

/-- No place on the way is a link. -/
def Direct (d : Disk α β) (path : Path α) : Prop := ∀ q ∈ visited [] path, ¬Node.IsLink (d.node q)

section

variable {d : Disk α β} {path rest : Path α} {p q : List α} {jump : List α → Path α → Except Errno (List α)} {n : ℕ}

theorem walkWith_append (hlink : ∀ r ∈ visited p path, ¬Node.IsLink (d.node r))
    (h : walkWith d jump p (path ++ rest) = .ok q) : walkWith d jump (lexical p path) rest = .ok q := by
  induction path generalizing p with
  | nil => exact h
  | cons s path ih =>
      have hhead := hlink (stepOn p s) (by simp [visited])
      have htail := fun r hr => hlink r (List.mem_cons_of_mem _ hr)
      simp only [List.cons_append, walkWith] at h
      split at h
      · cases s with
        | here => exact ih htail h
        | up => exact ih htail h
        | stray a => cases h
        | down a =>
            simp only at h
            split at h
            · rename_i t ht
              exact absurd (by simp [Node.IsLink, stepOn, ht]) hhead
            · exact ih htail h
      · cases h
      · cases h

theorem walk_append (hlink : ∀ r ∈ visited p path, ¬Node.IsLink (d.node r))
    (h : walk d n p (path ++ rest) = .ok q) : walk d n (lexical p path) rest = .ok q := by
  cases n <;> exact walkWith_append hlink h

theorem resolve_eq (hdirect : Direct d path) (h : resolve d path = .ok q) : q = lexical [] path := by
  have hend : walk d maxLinks (lexical [] path) [] = .ok q := walk_append hdirect (by simpa [resolve] using h)
  simpa [maxLinks, walk, walkWith] using hend.symm

theorem place_eq (hdirect : Direct d path.dropLast) (h : place d path = .ok q) : q = lexical [] path := by
  rcases path.eq_nil_or_concat' with rfl | ⟨init, s, rfl⟩
  · exact resolve_eq (fun r hr => by simp [visited] at hr) h
  simp only [List.dropLast_concat] at hdirect
  have hlast (hs : ∀ a, s ≠ .down a) (hr : resolve d (init ++ [s]) = .ok q) : q = lexical [] (init ++ [s]) := by
    have hend := walk_append hdirect hr
    cases s <;> simp_all [maxLinks, walk, walkWith, stepOn] <;> grind
  cases s with
  | down a =>
      simp only [place, List.getLast?_concat, List.dropLast_concat] at h
      split at h
      · cases h
      · rename_i p hp
        have hp := resolve_eq hdirect hp
        split at h <;> simp_all [stepOn]
  | here => exact hlast (by simp) (by simpa [place] using h)
  | up => exact hlast (by simp) (by simpa [place] using h)
  | stray a => exact hlast (by simp) (by simpa [place] using h)

end

/-! ## Changes -/

variable [DecidableEq α]

def Disk.put (d : Disk α β) (p : List α) (n : Option (Node α)) : Disk α β :=
  { d with node := fun q => if q = p then n else d.node q }

/-- A new directory has no entries. -/
def Disk.putDir (d : Disk α β) (p : List α) : Disk α β :=
  { d with node := fun q => if q = p then some .dir else if p <+: q then none else d.node q }

def Disk.write (d : Disk α β) (i : ℕ) (data : β) : Disk α β :=
  { d with bytes := fun j => if j = i then data else d.bytes j }

/-- What was at `p` and below is at `q` and below. -/
def Disk.move (d : Disk α β) (p q : List α) : Disk α β :=
  { d with node := fun r =>
      if q <+: r then d.node (p ++ r.drop q.length) else if p <+: r then none else d.node r }

def Disk.remove (d : Disk α β) (p : List α) : Disk α β :=
  { d with node := fun q => if p <+: q then none else d.node q }

def mkdir (path : Path α) (d : Disk α β) : Except Errno (Disk α β) :=
  match place d path with
  | .error e => .error e
  | .ok p => if (d.node p).isSome then .error .present else .ok (d.putDir p)

/-- A node that is no directory is made where nothing is. -/
def make (n : Node α) (path : Path α) (d : Disk α β) : Except Errno (Disk α β) :=
  match place d path with
  | .error e => .error e
  | .ok p => if (d.node p).isSome then .error .present else .ok (d.put p (some n))

def symlink (t : Target α) (path : Path α) (d : Disk α β) : Except Errno (Disk α β) :=
  if !t.absolute && t.steps.isEmpty then .error .missing else make (.link t) path d

/-- A second name for what is at `source`; a directory has one name only. -/
def hardlink (source path : Path α) (d : Disk α β) : Except Errno (Disk α β) :=
  match lstat d source with
  | none => .error .missing
  | some .dir => .error .refused
  | some n => make n path d

def unlink (path : Path α) (d : Disk α β) : Except Errno (Disk α β) :=
  match place d path with
  | .error e => .error e
  | .ok p =>
      match d.node p with
      | none => .error .missing
      | some .dir => .error .isDir
      | some _ => .ok (d.put p none)

/-- Opens for writing, which empties a file that is there, and writes `data`. -/
def writeFile (data : β) (path : Path α) (d : Disk α β) : Except Errno (Disk α β) :=
  match resolve d path with
  | .error e => .error e
  | .ok p =>
      match d.node p with
      | none => .ok { (d.put p (some (.file d.next))).write d.next data with next := d.next + 1 }
      | some (.file i) => .ok (d.write i data)
      | some .dir => .error .isDir
      | some (.link _) => .error .loop
      | some .special => .error .refused

def readFile (path : Path α) (d : Disk α β) : Except Errno β :=
  match resolve d path with
  | .error e => .error e
  | .ok p =>
      match d.node p with
      | none => .error .missing
      | some (.file i) => .ok (d.bytes i)
      | some .dir => .error .isDir
      | some (.link _) => .error .loop
      | some .special => .error .refused

/-- On one file system. A directory never takes another's place: no caller renames onto one. -/
def rename (source path : Path α) (d : Disk α β) : Except Errno (Disk α β) :=
  match source.getLast?, path.getLast? with
  | some (.down _), some (.down _) =>
      match place d source, place d path with
      | .error e, _ => .error e
      | _, .error e => .error e
      | .ok p, .ok q =>
          match d.node p, d.node q with
          | none, _ => .error .missing
          | some _, none => if p <+: q then .error .refused else .ok (d.move p q)
          | some .dir, some _ => .error .notDir
          | some _, some .dir => .error .isDir
          | some _, some _ => if p = q then .ok d else .ok (d.move p q)
  | _, _ => .error .refused

end Files

/-!
# Changes that stay behind a fence

A fence says where a program may change a disk: anything in its `zone`, and outside of it directories that were missing
at the places of `grow`. At the places of `direct` there is no symbolic link, at those of `fresh` no file that was there
before, whose bytes a write would change elsewhere. Every system call whose path stays on direct places keeps the fence.
-/

namespace Files

variable {α β : Type}

structure Fence (α : Type) where
  zone : List α → Prop
  grow : List α → Prop
  direct : List α → Prop
  fresh : List α → Prop
  base : ℕ
  zone_below : ∀ p q, p <+: q → zone p → zone q

namespace Fence

variable {F G : Fence α} {d₀ d d' : Disk α β} {path source : Path α} {p q : List α} {n : Node α} {data : β}

structure Holds (F : Fence α) (d₀ d : Disk α β) : Prop where
  outside : ∀ q, ¬F.zone q → d.node q = d₀.node q ∨ (F.grow q ∧ d₀.node q = none ∧ d.node q = some .dir)
  bytes : ∀ i < F.base, d.bytes i = d₀.bytes i
  next : F.base ≤ d.next
  direct : ∀ q, F.direct q → ¬Node.IsLink (d.node q)
  fresh : ∀ q, F.fresh q → ∀ i, d.node q = some (.file i) → F.base ≤ i

/-- A call at `p` changes the zone, or nothing: a directory is in its way. -/
def Within (F : Fence α) (d₀ : Disk α β) (p : List α) : Prop := F.zone p ∨ d₀.node p = some .dir

/-- A missing directory may be made at `p`. -/
def Grows (F : Fence α) (d₀ : Disk α β) (p : List α) : Prop :=
  F.grow p ∧ (d₀.node p = none → ∀ q, p <+: q → d₀.node q = none)

/-- Every place on the way is direct. -/
def Way (F : Fence α) (path : Path α) : Prop := ∀ q ∈ visited [] path, F.direct q

theorem Way.of_dropLast (hway : F.Way path) : F.Way path.dropLast := fun q hq => hway q (mem_visited_of_mem_dropLast hq)

theorem Holds.way (h : F.Holds d₀ d) (hway : F.Way path) : Direct d path := fun q hq => h.direct q (hway q hq)

theorem Holds.mono (h : F.Holds d₀ d) (hzone : G.zone = F.zone) (hgrow : G.grow = F.grow) (hbase : G.base = F.base)
    (hdirect : ∀ q, G.direct q → F.direct q) (hfresh : ∀ q, G.fresh q → F.fresh q) : G.Holds d₀ d where
  outside := by simpa only [hzone, hgrow] using h.outside
  bytes := by simpa only [hbase] using h.bytes
  next := by simpa only [hbase] using h.next
  direct q hq := h.direct q (hdirect q hq)
  fresh q hq := by simpa only [hbase] using h.fresh q (hfresh q hq)

/-- `G` is `F`, but says nothing of `p`. -/
structure Opens (F G : Fence α) (p : List α) : Prop where
  zone : G.zone = F.zone
  grow : G.grow = F.grow
  base : G.base = F.base
  direct : ∀ q, G.direct q → F.direct q
  fresh : ∀ q, G.fresh q → F.fresh q
  free : F.zone p → ¬G.direct p ∧ ¬G.fresh p

theorem Opens.mono (hopen : F.Opens G p) (h : F.Holds d₀ d) : G.Holds d₀ d :=
  h.mono hopen.zone hopen.grow hopen.base hopen.direct hopen.fresh

/-- Where nothing changes outside the zone, what was a directory there still is one. -/
theorem Holds.dir (h : F.Holds d₀ d) (hp : F.Within d₀ p) (hnode : d.node p ≠ some .dir) : F.zone p := by
  by_contra hzone
  rcases h.outside p hzone with hsame | ⟨-, -, hdir⟩
  · exact hnode (hsame.trans (hp.resolve_left hzone))
  · exact hnode hdir

section

variable [DecidableEq α]

theorem Holds.putDir (h : F.Holds d₀ d) (hp : F.Within d₀ p ∨ F.Grows d₀ p) (hnone : d.node p = none) :
    F.Holds d₀ (d.putDir p) where
  outside q hq := by
    simp only [Disk.putDir]
    by_cases hbelow : p <+: q
    · have hzone : ¬F.zone p := fun hz => hq (F.zone_below p q hbelow hz)
      have hgrows := hp.resolve_left fun hw => hzone (h.dir hw (by simp [hnone]))
      have hwas : d₀.node p = none := by
        rcases h.outside p hzone with hsame | ⟨-, hwas, -⟩
        · exact hsame.symm.trans hnone
        · exact hwas
      by_cases heq : q = p
      · subst heq
        exact Or.inr ⟨hgrows.1, hwas, by simp⟩
      · exact Or.inl (by simp [heq, hbelow, hgrows.2 hwas q hbelow])
    · have heq : q ≠ p := by
        rintro rfl
        exact hbelow List.prefix_rfl
      simpa [heq, hbelow] using h.outside q hq
  bytes := h.bytes
  next := h.next
  direct q hq := by
    simp only [Disk.putDir]
    split
    · simp
    · split
      · simp
      · exact h.direct q hq
  fresh q hq i := by
    simp only [Disk.putDir]
    split
    · simp
    · split
      · simp
      · exact h.fresh q hq i

/-- What is put at a place of the zone may be a link or an old file where the fence does not say otherwise. -/
theorem Holds.put {o : Option (Node α)} (h : F.Holds d₀ d) (hp : F.zone p) (hdirect : F.direct p → ¬Node.IsLink o)
    (hfresh : F.fresh p → ∀ i, o = some (.file i) → F.base ≤ i) : F.Holds d₀ (d.put p o) where
  outside q hq := by
    have hne : q ≠ p := by
      rintro rfl
      exact hq hp
    simpa [Disk.put, hne] using h.outside q hq
  bytes := h.bytes
  next := h.next
  direct q hq := by
    simp only [Disk.put]
    split
    · subst q
      exact hdirect hq
    · exact h.direct q hq
  fresh q hq i := by
    simp only [Disk.put]
    split
    · subst q
      exact hfresh hq i
    · exact h.fresh q hq i

theorem Holds.write {i : ℕ} (h : F.Holds d₀ d) (hi : F.base ≤ i) : F.Holds d₀ (d.write i data) where
  outside := h.outside
  bytes j hj := by simpa [Disk.write, (hj.trans_le hi).ne] using h.bytes j hj
  next := h.next
  direct := h.direct
  fresh := h.fresh

/-! ## System calls -/

theorem mkdir_eq (h : F.Holds d₀ d) (hway : F.Way path.dropLast) (hrun : mkdir path d = .ok d') :
    d.node (lexical [] path) = none ∧ d' = d.putDir (lexical [] path) := by
  simp only [mkdir] at hrun
  split at hrun
  · cases hrun
  · rename_i p hplace
    obtain rfl := place_eq (h.way hway) hplace
    split at hrun
    · cases hrun
    · simp_all

theorem Holds.mkdir (h : F.Holds d₀ d) (hway : F.Way path.dropLast)
    (hp : F.Within d₀ (lexical [] path) ∨ F.Grows d₀ (lexical [] path)) (hrun : mkdir path d = .ok d') :
    F.Holds d₀ d' := by
  obtain ⟨hnone, rfl⟩ := mkdir_eq h hway hrun
  exact h.putDir hp hnone

theorem make_eq (h : F.Holds d₀ d) (hway : F.Way path.dropLast) (hrun : make n path d = .ok d') :
    d.node (lexical [] path) = none ∧ d' = d.put (lexical [] path) (some n) := by
  simp only [Files.make] at hrun
  split at hrun
  · cases hrun
  · rename_i p hplace
    obtain rfl := place_eq (h.way hway) hplace
    split at hrun
    · cases hrun
    · simp_all

theorem Holds.special (h : F.Holds d₀ d) (hway : F.Way path.dropLast) (hp : F.Within d₀ (lexical [] path))
    (hrun : make .special path d = .ok d') : F.Holds d₀ d' := by
  obtain ⟨hnone, rfl⟩ := make_eq h hway hrun
  exact h.put (h.dir hp (by simp [hnone])) (by simp) (by simp)

/-- A link is made at a place the fence no longer speaks of. -/
theorem Opens.make (hopen : F.Opens G (lexical [] path)) (h : F.Holds d₀ d) (hway : F.Way path.dropLast)
    (hp : F.Within d₀ (lexical [] path)) (hrun : make n path d = .ok d') : G.Holds d₀ d' := by
  obtain ⟨hnone, rfl⟩ := make_eq h hway hrun
  have hzone := h.dir hp (by simp [hnone])
  obtain ⟨hdirect, hfresh⟩ := hopen.free hzone
  exact (hopen.mono h).put (hopen.zone ▸ hzone) (fun hd => absurd hd hdirect) (fun hf => absurd hf hfresh)

theorem Opens.symlink {t : Target α} (hopen : F.Opens G (lexical [] path)) (h : F.Holds d₀ d)
    (hway : F.Way path.dropLast) (hp : F.Within d₀ (lexical [] path)) (hrun : symlink t path d = .ok d') :
    G.Holds d₀ d' := by
  simp only [Files.symlink] at hrun
  split at hrun
  · cases hrun
  · exact hopen.make h hway hp hrun

theorem Opens.hardlink (hopen : F.Opens G (lexical [] path)) (h : F.Holds d₀ d) (hway : F.Way path.dropLast)
    (hp : F.Within d₀ (lexical [] path)) (hrun : hardlink source path d = .ok d') : G.Holds d₀ d' := by
  simp only [Files.hardlink] at hrun
  split at hrun
  · cases hrun
  · cases hrun
  · exact hopen.make h hway hp hrun

theorem Holds.unlink (h : F.Holds d₀ d) (hway : F.Way path.dropLast) (hp : F.Within d₀ (lexical [] path))
    (hrun : unlink path d = .ok d') : F.Holds d₀ d' := by
  simp only [Files.unlink] at hrun
  split at hrun
  · cases hrun
  · rename_i p hplace
    obtain rfl := place_eq (h.way hway) hplace
    split at hrun
    · cases hrun
    · cases hrun
    · rename_i n hnode hdir
      cases hrun
      exact h.put (h.dir hp (by simp_all)) (by simp) (by simp)

theorem Holds.writeFile (h : F.Holds d₀ d) (hway : F.Way path) (hp : F.Within d₀ (lexical [] path))
    (hfresh : F.zone (lexical [] path) → F.fresh (lexical [] path)) (hrun : writeFile data path d = .ok d') :
    F.Holds d₀ d' := by
  simp only [Files.writeFile] at hrun
  split at hrun
  · cases hrun
  · rename_i p hresolve
    obtain rfl := resolve_eq (h.way hway) hresolve
    split at hrun
    · rename_i hnone
      cases hrun
      have hput : F.Holds d₀ (d.put (lexical [] path) (some (.file d.next))) :=
        h.put (h.dir hp (by simp [hnone])) (by simp) (by simpa using fun _ => h.next)
      exact { hput.write h.next with next := h.next.trans (Nat.le_succ _) }
    · rename_i i hfile
      cases hrun
      exact h.write (h.fresh _ (hfresh (h.dir hp (by simp [hfile]))) i hfile)
    · cases hrun
    · cases hrun
    · cases hrun

/-- What is moved may hold links and old files: the fence says nothing of the place it comes to. -/
theorem Holds.move (h : F.Holds d₀ d) (hp : F.zone p) (hq : F.zone q)
    (hfree : ∀ r, q <+: r → ¬F.direct r ∧ ¬F.fresh r) : F.Holds d₀ (d.move p q) where
  outside r hr := by
    have hnq : ¬q <+: r := fun hbelow => hr (F.zone_below q r hbelow hq)
    have hnp : ¬p <+: r := fun hbelow => hr (F.zone_below p r hbelow hp)
    simpa [Disk.move, hnq, hnp] using h.outside r hr
  bytes := h.bytes
  next := h.next
  direct r hr := by
    have hnq : ¬q <+: r := fun hbelow => (hfree r hbelow).1 hr
    simp only [Disk.move, hnq, if_false]
    split
    · simp
    · exact h.direct r hr
  fresh r hr i := by
    have hnq : ¬q <+: r := fun hbelow => (hfree r hbelow).2 hr
    simp only [Disk.move, hnq, if_false]
    split
    · simp
    · exact h.fresh r hr i

theorem Holds.rename (h : F.Holds d₀ d) (hsource : F.Way source.dropLast) (hpath : F.Way path.dropLast)
    (hp : F.zone (lexical [] source)) (hq : F.zone (lexical [] path))
    (hfree : ∀ r, lexical [] path <+: r → ¬F.direct r ∧ ¬F.fresh r) (hrun : rename source path d = .ok d') :
    F.Holds d₀ d' := by
  have hmove : F.Holds d₀ (d.move (lexical [] source) (lexical [] path)) := h.move hp hq hfree
  simp only [Files.rename] at hrun
  split at hrun
  · split at hrun
    · cases hrun
    · cases hrun
    · rename_i p q hps hpq
      obtain rfl := place_eq (h.way hsource) hps
      obtain rfl := place_eq (h.way hpath) hpq
      split at hrun
      · cases hrun
      · split at hrun <;> cases hrun
        exact hmove
      · cases hrun
      · cases hrun
      · split at hrun <;> cases hrun
        · exact h
        · exact hmove
  · cases hrun

end

end Fence

end Files
