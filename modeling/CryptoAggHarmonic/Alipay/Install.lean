import CryptoAggHarmonic.Python.Files

/-!
# Extracting a tar archive

`TarFile.extractall` without a filter, as Python 3.11 runs it: whatever the members are, they are made. Owners, modes
and times are left out.
-/

namespace CryptoAggHarmonic.Alipay

open Files PyOs

variable {β : Type}

/-- Of a regular member, the bytes that can be read and whether they are all. -/
inductive TarType (β : Type)
  | reg (data : β) (complete : Bool)
  | dir
  | fifo
  | dev
  | sym
  | lnk
  deriving DecidableEq

structure TarInfo (β : Type) where
  name : Text
  linkname : Text
  type : TarType β
  deriving DecidableEq

def TarInfo.isSym (m : TarInfo β) : Bool := m.type matches .sym

def TarInfo.isLnk (m : TarInfo β) : Bool := m.type matches .lnk

/-- What the operating system and the rest of Python decide. -/
structure Host (β : Type) where
  recursionLimit : ℕ
  /-- The entries of a directory, in the order of the file system. -/
  scandir : PyDisk β → List Text → List Text
  /-- Device nodes may be made. -/
  privileged : Bool
  /-- The text of a file, if its bytes are UTF-8. -/
  readText : β → Option Text
  /-- The members of a gzipped tar archive; `none` if it is none. -/
  openTar : β → Option (List (TarInfo β))
  /-- `int(time.time())` -/
  now : ℕ

/-- `_getmember`: the nearest member of the name with the members before it; the nearest comes first. -/
def getMember (name : Text) : List (TarInfo β) → Option (TarInfo β × List (TarInfo β))
  | [] => none
  | m :: before => if normpath m.name = normpath name then some (m, before) else getMember name before

/-- `_find_link_target`: a symbolic link may name any member, a hard link one before it. -/
def findLinkTarget (all before : List (TarInfo β)) (m : TarInfo β) : Option (TarInfo β × List (TarInfo β)) :=
  if m.isSym then
    getMember (['/'].intercalate ([dirname m.name, m.linkname].filter (· ≠ []))) all.reverse
  else getMember m.linkname before

def makefile (data : β) (complete : Bool) (target : Path Text) : Py β Unit := do
  sys (writeFile data target)
  if complete then pure () else throw .read

def makedir (target : Path Text) : Py β Unit :=
  tryCatch (sys (mkdir target)) fun e => if e = .os .present then pure () else throw e

/-- How the attempt to make a link went; `absent`: the hard link's own target is not on the disk. -/
inductive LinkTry
  | made
  | absent
  | failed
  deriving DecidableEq

def unlinkEntry (target : Path Text) : Py β Unit := do
  let d ← get
  if isEntry d target then sys (unlink target) else pure ()

/-- `source` is the hard link's target on the disk, which only a member of the list itself has been given. -/
def tryLink (source : Option (Path Text)) (target : Path Text) (m : TarInfo β) : Py β LinkTry :=
  if m.isSym then do
    unlinkEntry target
    sys (symlink (linkTarget m.linkname) target)
    pure .made
  else
    match source with
    | none => throw .attribute
    | some source => do
        let d ← get
        if isPresent d source then do
          sys (hardlink source target)
          pure .made
        else pure .absent

/-- `makelink`: without the link, `again` extracts the member it names in its place. -/
def makelink (again : TarInfo β → List (TarInfo β) → Py β Unit) (all before : List (TarInfo β))
    (source : Option (Path Text)) (target : Path Text) (m : TarInfo β) : Py β Unit := do
  let outcome ← tryCatch (tryLink source target m) fun e =>
    if e.isOs ∨ e = .attribute then pure .failed else throw e
  if outcome = .made then pure ()
  else
    match findLinkTarget all before m with
    | some (m', before') => again m' before'
    | none => throw (if outcome = .failed then .extract else .key)

/-- The directories above `target`, unless there is something already. -/
def makeUpperDirs (target : Path Text) : Py β Unit := do
  let d ← get
  if isPresent d target.dropLast then pure () else makedirs target.dropLast

def makeMember (host : Host β) (link : Py β Unit) (target : Path Text) (m : TarInfo β) : Py β Unit :=
  match m.type with
  | .reg data complete => makefile data complete target
  | .dir => makedir target
  | .fifo => sys (make .special target)
  | .dev => if host.privileged then sys (make .special target) else throw (.os .refused)
  | .sym => link
  | .lnk => link

/-- `_extract_member`; the first argument bounds the depth of the calls. -/
def extractMember (host : Host β) (all : List (TarInfo β)) :
    ℕ → Option (Path Text) → Path Text → TarInfo β → List (TarInfo β) → Py β Unit
  | 0, _, _, _, _ => throw .recursion
  | n + 1, source, target, m, before => do
      makeUpperDirs target
      makeMember host (makelink (extractMember host all n none target) all before source target m) target m

/-- `_extract_one`: an `ExtractError` is no reason to stop. -/
def extractOne (host : Host β) (tmp : Path Text) (all before : List (TarInfo β)) (m : TarInfo β) : Py β Unit :=
  tryCatch
    (extractMember host all host.recursionLimit (if m.isLnk then some (joinLink tmp m.linkname) else none)
      (join tmp m.name) m before)
    fun e => if e = .extract then pure () else throw e

/-- The members of `extractall` from one on; those before it come first, the nearest at the head. -/
def extractFrom (host : Host β) (tmp : Path Text) (all : List (TarInfo β)) :
    List (TarInfo β) → List (TarInfo β) → Py β Unit
  | _, [] => pure ()
  | before, m :: ms => do
      extractOne host tmp all before m
      extractFrom host tmp all (m :: before) ms

def extractall (host : Host β) (tmp : Path Text) (members : List (TarInfo β)) : Py β Unit :=
  extractFrom host tmp members [] members

end CryptoAggHarmonic.Alipay

/-!
# Installing a skill

`_install_from_url` once the archive is there: it is unpacked under a temporary directory, the name is read from its
`SKILL.md`, and the directory of that file is copied to the name under the target directory. The downloaded file has no
suffix, so an archive is always opened as a gzipped tar; a zip is none.
-/

namespace CryptoAggHarmonic.Alipay

open Files PyOs

variable {β : Type}

inductive InstallError
  | notExtracted
  | noSkillMd
  | noMetadata
  | raised (e : Raised)
  deriving DecidableEq

/-- The archive is turned down; `raised` is the text of an exception. -/
def InstallError.text : InstallError → Option String
  | .notExtracted => some "Archive extraction failed or no SKILL.md found"
  | .noSkillMd => some "Archive does not contain SKILL.md"
  | .noMetadata => some "SKILL.md missing required metadata"
  | .raised _ => none

structure FulfillmentResult where
  success : Bool
  skillName : Option Text
  installPath : Option (Path Text)
  error : Option InstallError
  deriving DecidableEq

def FulfillmentResult.failure (e : InstallError) : FulfillmentResult :=
  { success := false, skillName := none, installPath := none, error := some e }

def skillMd : Text := "SKILL.md".toList

/-! ## Validation -/

/-- `_validate_archive_members` for one member. -/
def memberSafe (name : Text) : Bool :=
  name = [] ||
    let normalized := normpath name
    !("..".toList.isPrefixOf normalized || isAbs normalized) && !(decide ("..".toList <:+: normalized))

def validateArchiveMembers (members : List (TarInfo β)) : Bool := members.all fun m => memberSafe m.name

/-! ## Extraction -/

/-- The first directory below `dir` with a `SKILL.md`, itself first: `rglob` follows no link to a directory. -/
def findSkillRoot (host : Host β) (d : PyDisk β) : ℕ → Path Text → Except Raised (Option (Path Text))
  | 0, _ => .error .recursion
  | n + 1, dir =>
      if isFile d (dir ++ [.down skillMd]) then .ok (some dir)
      else
        match entries host.scandir dir d with
        | .error e => .error (.ofErrno e)
        | .ok names =>
            names.foldlM (fun found a =>
              match found with
              | some root => .ok (some root)
              | none =>
                  match lstat d (dir ++ [.down a]) with
                  | some .dir => findSkillRoot host d n (dir ++ [.down a])
                  | _ => .ok none) none

/-- `raw` is what the archive file holds. -/
def openAndExtract (host : Host β) (raw : β) (tmp : Path Text) : Py β Unit :=
  match host.openTar raw with
  | none => throw .value
  | some members => if validateArchiveMembers members then extractall host tmp members else throw .value

def secureExtract (host : Host β) (raw : β) (tmp : Path Text) : Py β (Option (Path Text)) := do
  let opened ← tryCatch (do openAndExtract host raw tmp; pure true) fun _ => pure false
  if opened then do
    let d ← get
    match findSkillRoot host d host.recursionLimit tmp with
    | .error e => throw e
    | .ok root => pure root
  else pure none

/-! ## The declared name -/

/-- `s.strip("\"'")` -/
def stripQuotes (s : Text) : Text :=
  let quote : Char → Bool := fun c => c = '"' || c = '\''
  ((s.dropWhile quote).reverse.dropWhile quote).reverse

def nameKey : Text := "name:".toList

/-- What follows `name:` in a line that starts with it. -/
def nameInLine (line : Text) : Option Text :=
  if nameKey.isPrefixOf (pyStrip line) then
    (textBefore nameKey line).map fun before => stripQuotes (pyStrip (line.drop (before.length + nameKey.length)))
  else none

/-- `name:\s*(.+)$` at the start of a text. The blanks go over line ends; without anything else the group is a blank. -/
def nameAt (text : Text) : Option Text :=
  if nameKey.isPrefixOf text then
    let rest := text.drop nameKey.length
    match rest.dropWhile pyIsSpace with
    | [] => if rest.any (· ≠ '\n') then some [] else none
    | c :: cs => some ((c :: cs).takeWhile (· ≠ '\n'))
  else none

/-- `re.search(r'^name:\s*(.+)$', text, re.MULTILINE)`, from a place that starts a line or not. -/
def searchName : Bool → Text → Option Text
  | _, [] => none
  | start, c :: cs =>
      match if start then nameAt (c :: cs) else none with
      | some group => some group
      | none => searchName (c = '\n') cs

/-- `_read_skill_name` of the text. A frontmatter without an end is an error, and no name is read. -/
def readSkillName (text : Text) : Option Text :=
  let anywhere := (searchName true text).map fun group => stripQuotes (pyStrip group)
  if "---".toList.isPrefixOf text then
    match textBefore "---".toList (text.drop 3) with
    | none => none
    | some frontmatter => ((splitlinesFrom [] frontmatter).findSome? nameInLine).or anywhere
  else anywhere

/-! ## Installation -/

def backupSuffix (host : Host β) : Text := ".backup-".toList ++ (Nat.repr host.now).toList

def backUp (host : Host β) (installPath : Path Text) : Py β Unit := do
  let d ← get
  if isPresent d installPath then
    match withSuffix (backupSuffix host) installPath with
    | none => throw .value
    | some backup => move installPath backup
  else pure ()

def installTo (host : Host β) (root installPath : Path Text) : Py β Unit := do
  mkdirParents installPath.dropLast
  backUp host installPath
  copytree host.scandir host.recursionLimit root installPath

/-- The download and the extraction: the directory of the `SKILL.md`. -/
def unpack (host : Host β) (raw : β) (tmp : Path Text) : Py β (Option (Path Text)) := do
  sys (writeFile raw (tmp ++ [.down "skill_archive".toList]))
  secureExtract host raw tmp

def skillNameAt (host : Host β) (root : Path Text) (d : PyDisk β) : Option Text :=
  ((readFile (root ++ [.down skillMd]) d).toOption.bind host.readText).bind readSkillName

/-- The steps after the extraction. -/
def installSkill (host : Host β) (target root : Path Text) : Py β FulfillmentResult := do
  let d ← get
  if isFile d (root ++ [.down skillMd]) then
    match skillNameAt host root d with
    | none => pure (.failure .noMetadata)
    | some name =>
        if name = [] then pure (.failure .noMetadata)
        else do
          installTo host root (joinPath target name)
          pure { success := true, skillName := some name, installPath := some (joinPath target name), error := none }
  else pure (.failure .noSkillMd)

/-- The body of the `with`: `tmp` is there. -/
def installArchive (host : Host β) (raw : β) (tmp target : Path Text) : Py β FulfillmentResult := do
  let root ← unpack host raw tmp
  match root with
  | none => pure (.failure .notExtracted)
  | some root => installSkill host target root

/-- `_install_from_url` for the downloaded bytes. The temporary directory is made before and removed after. -/
def installFromUrl (host : Host β) (raw : β) (tmp target : List Text) (d : PyDisk β) :
    FulfillmentResult × PyDisk β :=
  match installArchive host raw (tmp.map .down) (target.map .down) (d.putDir tmp) with
  | .ok result d' => (result, d'.remove tmp)
  | .error e d' => (.failure (.raised e), d'.remove tmp)

end CryptoAggHarmonic.Alipay
