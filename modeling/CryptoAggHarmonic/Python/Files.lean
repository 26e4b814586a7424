import CryptoAggHarmonic.Lib.Effects
import CryptoAggHarmonic.Lib.Files
import CryptoAggHarmonic.Python.Text

/-!
# Paths and files

What the modelled functions use of `os`, `os.path`, `pathlib` and `shutil`. A program raises and keeps the changes made
before it raised. Rights, limits of the file system and other processes are left out.
-/

namespace CryptoAggHarmonic.PyOs

open Files

abbrev Text := List Char

inductive Raised
  | os (e : Errno)
  | value
  | key
  | attribute
  | recursion
  | extract
  | read
  | shutil
  deriving DecidableEq

/-- `except OSError`. `shutil.Error` is one. -/
def Raised.isOs : Raised → Bool
  | .os _ => true
  | .shutil => true
  | _ => false

abbrev PyDisk (β : Type) := Disk Text β

abbrev Py (β γ : Type) := EStateM Raised (PyDisk β) γ

variable {β : Type}

/-- A NUL in a path is a `ValueError`, what the system refuses an `OSError`. -/
def Raised.ofErrno : Errno → Raised
  | .badName => .value
  | e => .os e

def sys (call : PyDisk β → Except Errno (PyDisk β)) : Py β Unit := fun d =>
  match call d with
  | .ok d' => .ok () d'
  | .error e => .error (.ofErrno e) d

/-! ## Texts of paths -/

def isAbs (t : Text) : Bool := t.head? = some '/'

def component (c : Text) : Option (Step Text) :=
  if c = [] then none
  else if c = ['.'] then some .here
  else if c = ['.', '.'] then some .up
  else if '\x00' ∈ c then some (.stray c)
  else some (.down c)

def parse (t : Text) : Path Text := (t.splitOn '/').filterMap component

/-- `os.path.join(base, t)` without slashes at its end. -/
def join (base : Path Text) (t : Text) : Path Text := if isAbs t then parse t else base ++ parse t

/-- The text of a link; a slash at its end asks for a directory. -/
def linkTarget (t : Text) : Target Text :=
  { absolute := isAbs t, steps := parse t ++ if t.getLast? = some '/' then [.here] else [] }

/-- `os.path.join(base, t)` -/
def joinLink (base : Path Text) (t : Text) : Path Text :=
  if isAbs t then (linkTarget t).steps else base ++ (linkTarget t).steps

def normStep (rooted : Bool) (stack : List Text) (c : Text) : List Text :=
  if c = [] ∨ c = ['.'] then stack
  else if c ≠ ['.', '.'] ∨ (!rooted ∧ stack = []) ∨ stack.getLast? = some ['.', '.'] then stack ++ [c]
  else stack.dropLast

def initialSlashes (t : Text) : ℕ :=
  if isAbs t then if t.take 2 = ['/', '/'] ∧ t.take 3 ≠ ['/', '/', '/'] then 2 else 1 else 0

/-- `os.path.normpath` -/
def normpath (t : Text) : Text :=
  let comps := (t.splitOn '/').foldl (normStep (isAbs t)) []
  let path := List.replicate (initialSlashes t) '/' ++ ['/'].intercalate comps
  if path = [] then ['.'] else path

def rstripSlashes (t : Text) : Text := (t.reverse.dropWhile (· = '/')).reverse

/-- `os.path.dirname` -/
def dirname (t : Text) : Text :=
  let head := (t.reverse.dropWhile (· ≠ '/')).reverse
  if head.all (· = '/') then head else rstripSlashes head

/-! ## `os` -/

/-- `os.makedirs(path)`, the last component first. -/
def makedirsFrom : Path Text → Py β Unit
  | [] => sys (mkdir [])
  | s :: head => do
      let d ← get
      if isPresent d head.reverse then sys (mkdir (s :: head).reverse)
      else do
        tryCatch (makedirsFrom head) fun e => if e = .os .present then pure () else throw e
        if s = .here then pure () else sys (mkdir (s :: head).reverse)

def makedirs (path : Path Text) : Py β Unit := makedirsFrom path.reverse

/-! ## `pathlib` -/

/-- `base / t` -/
def joinPath (base : Path Text) (t : Text) : Path Text :=
  let parts := (parse t).filter (· ≠ .here)
  if isAbs t then parts else base ++ parts

/-- `exist_ok=True`: a directory that is there already is no error. -/
def orDir (path : Path Text) (e : Raised) : Py β Unit := do
  let d ← get
  if e.isOs ∧ isDir d path then pure () else throw e

/-- `path.mkdir(parents=True, exist_ok=True)`, the last component first. -/
def mkdirParentsFrom : Path Text → Py β Unit
  | [] => tryCatch (sys (mkdir [])) (orDir [])
  | s :: parent =>
      tryCatch (sys (mkdir (s :: parent).reverse)) fun e =>
        if e = .os .missing then do
          mkdirParentsFrom parent
          tryCatch (sys (mkdir (s :: parent).reverse)) fun e =>
            if e = .os .missing then throw e else orDir (s :: parent).reverse e
        else orDir (s :: parent).reverse e

def mkdirParents (path : Path Text) : Py β Unit := mkdirParentsFrom path.reverse

/-- `path.with_name(path.name + suffix)` -/
def withSuffix (suffix : Text) (path : Path Text) : Option (Path Text) :=
  match path.getLast? with
  | none => none
  | some .here => some (path.dropLast ++ [.down (['.'] ++ suffix)])
  | some .up => some (path.dropLast ++ [.down (['.', '.'] ++ suffix)])
  | some (.stray a) => some (path.dropLast ++ [.stray (a ++ suffix)])
  | some (.down a) => some (path.dropLast ++ [.down (a ++ suffix)])

/-! ## `shutil` -/

/-- `os.path.join(path, os.path.basename(source))` -/
def inside (path source : Path Text) : Path Text := path ++ source.getLast?.toList

/-- `shutil.move` on one file system: what it tries after a rename that failed fails too. -/
def move (source path : Path Text) : Py β Unit := do
  let d ← get
  if isDir d path then
    if (resolve d source).toOption = (resolve d path).toOption then sys (rename source path)
    else if isPresent d (inside path source) then throw .shutil
    else sys (rename source (inside path source))
  else sys (rename source path)

/-- `shutil.copy2` -/
def copyFile (source path : Path Text) : Py β Unit := do
  let d ← get
  match readFile source d with
  | .error e => throw (.ofErrno e)
  | .ok data => sys (writeFile data (if isDir d path then inside path source else path))

variable (scandir : PyDisk β → List Text → List Text)

/-- The names of `os.scandir(path)`, in the order of the file system. -/
def entries (path : Path Text) (d : PyDisk β) : Except Errno (List Text) :=
  match resolve d path with
  | .error e => .error e
  | .ok p =>
      match d.node p with
      | none => .error .missing
      | some .dir => .ok (scandir d p)
      | some _ => .error .notDir

/-- One entry; links are followed. -/
def copyEntry (copyDir : Path Text → Path Text → Py β Unit) (source path : Path Text) (a : Text) : Py β Unit := do
  let d ← get
  if isDir d (source ++ [.down a]) then copyDir (source ++ [.down a]) (path ++ [.down a])
  else copyFile (source ++ [.down a]) (path ++ [.down a])

/-- The entries in turn, past those that fail: whether one did. -/
def copyEntries (copyDir : Path Text → Path Text → Py β Unit) (source path : Path Text) :
    List Text → Bool → Py β Bool
  | [], failed => pure failed
  | a :: names, failed => do
      let failed ← tryCatch (do copyEntry copyDir source path a; pure failed) fun e =>
        if e.isOs then pure true else throw e
      copyEntries copyDir source path names failed

/-- `shutil.copytree(source, path)`; `n` bounds the depth of the calls. -/
def copytree : ℕ → Path Text → Path Text → Py β Unit
  | 0, _, _ => throw .recursion
  | n + 1, source, path => do
      let d ← get
      match entries scandir source d with
      | .error e => throw (.ofErrno e)
      | .ok names => do
          makedirs path
          let failed ← copyEntries (copytree n) source path names false
          if failed then throw .shutil else pure ()

end CryptoAggHarmonic.PyOs
