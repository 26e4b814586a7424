import CryptoAggHarmonic.Python.PurePath
import CryptoAggHarmonic.Python.YamlText

/-!
# The gate of the loops

What the checker makes of `gate.yaml` and of the spelling of a path.
-/

namespace CryptoAggHarmonic.LoopTools

open PyOs

/-! ## The live tuning module -/

/-- `LIVE_TUNING_PATH` -/
def liveTuningPath : Text := "app/config/tuning.py".toList

def isLiveTuningPath (path : Text) : Bool :=
  asPosix path = liveTuningPath || ('/' :: liveTuningPath).isSuffixOf (asPosix path)

/-- The reason for the first path that is the live module. -/
def promotionAllowedForFiles : List Text → Bool × Text
  | [] => (true, "ok".toList)
  | path :: paths =>
      if isLiveTuningPath path then
        (false, "live TUNING promotion blocked: ".toList ++ path ++
          " (edit only via human PR + SIGHUP; see ADR-0003 D9)".toList)
      else promotionAllowedForFiles paths

/-! ## The configuration -/

/-- What `gate.yaml` is for the one who reads it. -/
inductive GateFile
  | missing
  /-- Reading raises something else than a `YAMLError`: bytes that are no UTF-8, a date that is none. -/
  | unreadable
  | notYaml
  | document (value : Yaml)

inductive Raised
  | typeError
  | reading
  deriving DecidableEq

abbrev Config := List (Yaml × Yaml)

def defaults : Config :=
  [(.str "denylist".toList, .seq []), (.str "always_exclude".toList, .seq []),
    (.str "auto_merge_allowlist".toList, .seq []), (.str "rate_limits".toList, .map []),
    (.str "loop_paused".toList, .bool false), (.str "min_readiness_score".toList, .int 58)]

/-- `cfg.get(key, default)` -/
def Config.get (cfg : Config) (key : String) (default : Yaml) : Yaml := (Yaml.lookup key.toList cfg).getD default

/-- An empty document is no mapping and counts as one. The keys of the file stand before the defaults. -/
def loadGateConfig : GateFile → Except Raised Config
  | .missing => .ok defaults
  | .unreadable => .error .reading
  | .notYaml => .ok defaults
  | .document (.map items) => .ok (items ++ defaults)
  | .document value => if value.truthy then .error .typeError else .ok defaults

/-! ## The checks -/

/-- The reason of the first pattern that takes the path; `fnmatch` raises for what is no text. -/
def firstMatch (label : String) (path : Text) : List Yaml → Except Raised (Option Text)
  | [] => .ok none
  | .str pattern :: patterns =>
      if Fnmatch.fnmatch path pattern then .ok (some (label.toList ++ ": ".toList ++ pattern))
      else firstMatch label path patterns
  | _ :: _ => .error .typeError

/-- `for pattern in cfg.get(label, [])` -/
def scanList (cfg : Config) (label : String) (path : Text) : Except Raised (Option Text) :=
  match (cfg.get label (.seq [])).iter? with
  | some patterns => firstMatch label path patterns
  | none => .error .typeError

/-- The two lists of `check_path`, one after the other. -/
def checkLists (cfg : Config) (path : Text) : Except Raised (Bool × Text) := do
  match ← scanList cfg "always_exclude" path with
  | some reason => return (false, reason)
  | none =>
      match ← scanList cfg "denylist" path with
      | some reason => return (false, reason)
      | none => return (true, "ok".toList)

/-- `hasApp`: the package `app` can be imported. -/
def checkPath (hasApp : Bool) (gate : GateFile) (path : Text) : Except Raised (Bool × Text) := do
  let cfg ← loadGateConfig gate
  if (cfg.get "loop_paused" .null).truthy then return (false, "loop_paused=true in gate.yaml".toList)
  let (ok, reason) := if hasApp then promotionAllowedForFiles [path] else (true, "ok".toList)
  if !ok then return (false, reason)
  checkLists cfg path

structure FilesReport where
  passed : Bool
  violations : List (Text × Text)
  summary : String
  deriving DecidableEq

def violationsOf (hasApp : Bool) (gate : GateFile) : List Text → Except Raised (List (Text × Text))
  | [] => .ok []
  | path :: paths => do
      let (allowed, reason) ← checkPath hasApp gate path
      let rest ← violationsOf hasApp gate paths
      return if allowed then rest else (path, reason) :: rest

def checkFiles (hasApp : Bool) (gate : GateFile) (paths : List Text) : Except Raised FilesReport := do
  let violations ← violationsOf hasApp gate paths
  return { passed := violations.length = 0, violations,
           summary := if violations.isEmpty then "all clear" else toString violations.length ++ " violation(s)" }

/-- Whether the loops may run, and why not. -/
def checkKillSwitch (gate : GateFile) : Except Raised (Bool × Yaml) := do
  let cfg ← loadGateConfig gate
  let paused := (cfg.get "loop_paused" (.bool false)).truthy
  return (!paused, if paused then cfg.get "pause_reason" (.str []) else .str "ok".toList)

/-! ## The file of the repository -/

def alwaysExclude : List String := ["**/secrets.yaml", "**/credentials.json", "**/.env", "**/*.key"]

def denylist : List String :=
  ["test-report-*.md", "__pycache__/", "*.pyc", ".git/", "docs/plans/", "frontend/node_modules/", ".scratch/",
    "*.egg-info/", ".venv/", "app/config/tuning.py", "app/services/binance/", "app/ft_strategy/deploy_pr.py"]

def texts (patterns : List String) : Yaml := .seq (patterns.map fun s => .str s.toList)

/-- `docs/loop-state/gate.yaml`, the keys the checks read. -/
def gateYaml : GateFile :=
  .document (.map [(.str "denylist".toList, texts denylist), (.str "always_exclude".toList, texts alwaysExclude),
    (.str "loop_paused".toList, .bool false), (.str "pause_reason".toList, .str [])])

end CryptoAggHarmonic.LoopTools

/-!
# What the gate answers

An answer of the checks in terms of the parts of a path and of the patterns that take it.
-/

namespace CryptoAggHarmonic.LoopTools

open PyOs

variable {root names : List Text} {gate : GateFile} {cfg : Config} {hasApp : Bool} {path pattern reason : Text}
  {label : String} {patterns : List Yaml} {texts : List Text}

def Denies (answer : Except Raised (Bool × Text)) : Prop := ∃ reason, answer = .ok (false, reason)

def Allows (answer : Except Raised (Bool × Text)) : Prop := ∃ reason, answer = .ok (true, reason)

def liveParts : List Text := ["app".toList, "config".toList, "tuning.py".toList]

/-! ## The live module -/

theorem isPart_liveParts : ∀ c ∈ liveParts, IsPart c := by
  simp [liveParts, IsPart]

theorem isLiveTuningPath_iff : isLiveTuningPath path ↔ liveParts <:+ parts path := by
  rw [← asPosix_iff isPart_liveParts (by simp [liveParts])]
  have hpath : liveTuningPath = ['/'].intercalate liveParts := by decide
  simp [isLiveTuningPath, hpath]

theorem promotionAllowedForFiles_singleton : (promotionAllowedForFiles [path]).1 = !isLiveTuningPath path := by
  simp only [promotionAllowedForFiles]
  cases isLiveTuningPath path <;> rfl

/-! ## The lists -/

theorem firstMatch_eq_none :
    firstMatch label path patterns = .ok none ↔
      ∀ x ∈ patterns, ∃ pattern, x = .str pattern ∧ ¬Fnmatch.fnmatch path pattern := by
  induction patterns with
  | nil => simp [firstMatch]
  | cons x patterns ih =>
      cases x with
      | str pattern =>
          rw [firstMatch]
          by_cases hmatch : Fnmatch.fnmatch path pattern <;> simp [hmatch, ih]
      | _ => simp [firstMatch]

/-- A list of texts is gone through without an exception. -/
theorem firstMatch_texts :
    firstMatch label path (texts.map .str) = .ok none ∨
      ∃ reason, firstMatch label path (texts.map .str) = .ok (some reason) := by
  induction texts with
  | nil => exact Or.inl rfl
  | cons pattern texts ih =>
      rw [List.map_cons, firstMatch]
      split
      · exact Or.inr ⟨_, rfl⟩
      · exact ih

theorem scanList_eq_none :
    scanList cfg label path = .ok none ↔
      ∃ patterns, (cfg.get label (.seq [])).iter? = some patterns ∧
        ∀ x ∈ patterns, ∃ pattern, x = .str pattern ∧ ¬Fnmatch.fnmatch path pattern := by
  rw [scanList]
  split
  · rename_i patterns hiter
    simp [hiter, firstMatch_eq_none]
  · rename_i hiter
    simp [hiter]

theorem scanList_texts (path : Text) (hlist : cfg.get label (.seq []) = .seq (texts.map .str)) :
    scanList cfg label path = .ok none ∨ ∃ reason, scanList cfg label path = .ok (some reason) := by
  rw [scanList, hlist]
  exact firstMatch_texts

/-- A list with something else than texts is not gone through to its end. -/
theorem scanList_ne_none (path : Text)
    (h : ∀ xs, (cfg.get label (.seq [])).iter? = some xs → ∃ x ∈ xs, ∀ pattern, x ≠ .str pattern) :
    scanList cfg label path ≠ .ok none := by
  rw [Ne, scanList_eq_none]
  rintro ⟨patterns, hiter, hall⟩
  obtain ⟨x, hx, hne⟩ := h patterns hiter
  obtain ⟨pattern, hpattern, -⟩ := hall x hx
  exact hne pattern hpattern

/-! ## The answer -/

theorem checkPath_of_error {e : Raised} (hload : loadGateConfig gate = .error e) :
    checkPath hasApp gate path = .error e := by
  simp [checkPath, hload, bind, Except.bind]

theorem truthy_get {key : String} : (cfg.get key (.bool false)).truthy = (cfg.get key .null).truthy := by
  simp only [Config.get]
  cases Yaml.lookup key.toList cfg <;> rfl

theorem checkKillSwitch_eq (hload : loadGateConfig gate = .ok cfg) :
    checkKillSwitch gate = .ok (!(cfg.get "loop_paused" .null).truthy,
      if (cfg.get "loop_paused" .null).truthy then cfg.get "pause_reason" (.str []) else .str "ok".toList) := by
  simp [checkKillSwitch, hload, bind, Except.bind, pure, Except.pure, truthy_get]

theorem denies_of_paused (hload : loadGateConfig gate = .ok cfg) (hpaused : (cfg.get "loop_paused" .null).truthy) :
    Denies (checkPath hasApp gate path) := by
  refine ⟨"loop_paused=true in gate.yaml".toList, ?_⟩
  simp [checkPath, hload, hpaused, bind, Except.bind, pure, Except.pure]

theorem denies_of_live (hload : loadGateConfig gate = .ok cfg) (happ : hasApp = true)
    (hlive : liveParts <:+ parts path) : Denies (checkPath hasApp gate path) := by
  have hpath := isLiveTuningPath_iff.mpr hlive
  cases hpaused : (cfg.get "loop_paused" .null).truthy with
  | true => exact denies_of_paused hload hpaused
  | false =>
      refine ⟨(promotionAllowedForFiles [path]).2, ?_⟩
      simp [checkPath, hload, hpaused, bind, Except.bind, pure, Except.pure, happ, promotionAllowedForFiles, hpath]

theorem checkPath_eq (hload : loadGateConfig gate = .ok cfg) (hpaused : (cfg.get "loop_paused" .null).truthy = false)
    (hlive : hasApp = true → ¬liveParts <:+ parts path) : checkPath hasApp gate path = checkLists cfg path := by
  rw [← isLiveTuningPath_iff, Bool.not_eq_true] at hlive
  cases hasApp with
  | false => simp [checkPath, hload, hpaused, bind, Except.bind]
  | true => simp [checkPath, hload, hpaused, bind, Except.bind, promotionAllowedForFiles, hlive rfl]

theorem checkLists_allows :
    Allows (checkLists cfg path) ↔
      scanList cfg "always_exclude" path = .ok none ∧ scanList cfg "denylist" path = .ok none := by
  rw [Allows, checkLists]
  cases halways : scanList cfg "always_exclude" path with
  | error e => simp [bind, Except.bind]
  | ok found =>
      cases found with
      | some reason => simp [bind, Except.bind, pure, Except.pure]
      | none =>
          cases hdeny : scanList cfg "denylist" path with
          | error e => simp [bind, Except.bind]
          | ok found => cases found <;> simp [bind, Except.bind, pure, Except.pure]

/-- Lists of texts raise nothing. -/
theorem checkLists_answers {always deny : List Text}
    (halways : cfg.get "always_exclude" (.seq []) = .seq (always.map .str))
    (hdeny : cfg.get "denylist" (.seq []) = .seq (deny.map .str)) :
    Denies (checkLists cfg path) ∨ Allows (checkLists cfg path) := by
  rw [Denies, Allows, checkLists]
  rcases scanList_texts path halways with h | ⟨reason, h⟩
  · rcases scanList_texts path hdeny with h' | ⟨reason, h'⟩ <;>
      simp [h, h', bind, Except.bind, pure, Except.pure]
  · simp [h, bind, Except.bind, pure, Except.pure]

theorem Denies.not_allows (h : Denies (checkPath hasApp gate path)) : ¬Allows (checkPath hasApp gate path) := by
  rintro ⟨reason, hallows⟩
  obtain ⟨reason', hdenies⟩ := h
  rw [hallows] at hdenies
  cases hdenies

/-- The path is let through when nothing stops it, and then both lists have been gone through. -/
theorem allows_iff (hload : loadGateConfig gate = .ok cfg) :
    Allows (checkPath hasApp gate path) ↔
      (cfg.get "loop_paused" .null).truthy = false ∧ (hasApp = true → ¬liveParts <:+ parts path) ∧
        scanList cfg "always_exclude" path = .ok none ∧ scanList cfg "denylist" path = .ok none := by
  cases hpaused : (cfg.get "loop_paused" .null).truthy with
  | true => simp [(denies_of_paused hload hpaused).not_allows]
  | false =>
      by_cases hlive : hasApp = true ∧ liveParts <:+ parts path
      · exact iff_of_false (denies_of_live hload hlive.1 hlive.2).not_allows fun h => h.2.1 hlive.1 hlive.2
      · have hlive' : hasApp = true → ¬liveParts <:+ parts path := fun happ h => hlive ⟨happ, h⟩
        rw [checkPath_eq hload hpaused hlive', checkLists_allows]
        exact ⟨fun h => ⟨rfl, hlive', h⟩, fun h => h.2.2⟩

/-- With lists of texts a path is denied when one of their patterns takes it. -/
theorem denies_of_pattern {always deny : List Text} (hload : loadGateConfig gate = .ok cfg)
    (halways : cfg.get "always_exclude" (.seq []) = .seq (always.map .str))
    (hdeny : cfg.get "denylist" (.seq []) = .seq (deny.map .str)) (hpattern : pattern ∈ always ++ deny)
    (hmatch : Fnmatch.fnmatch path pattern) : Denies (checkPath hasApp gate path) := by
  have hnot : ¬Allows (checkPath hasApp gate path) := by
    rw [allows_iff hload]
    rintro ⟨-, -, hnone, hnone'⟩
    have hfree {texts : List Text} {label : String} (hlist : cfg.get label (.seq []) = .seq (texts.map .str))
        (hnone : scanList cfg label path = .ok none) : pattern ∉ texts := by
      intro hmem
      obtain ⟨patterns, hpatterns, hall⟩ := scanList_eq_none.mp hnone
      rw [hlist, Yaml.iter?_seq, Option.some.injEq] at hpatterns
      subst hpatterns
      obtain ⟨text, htext, hfalse⟩ := hall _ (List.mem_map_of_mem hmem)
      cases htext
      exact hfalse hmatch
    rcases List.mem_append.mp hpattern with hmem | hmem
    · exact hfree halways hnone hmem
    · exact hfree hdeny hnone' hmem
  cases hpaused : (cfg.get "loop_paused" .null).truthy with
  | true => exact denies_of_paused hload hpaused
  | false =>
      by_cases hlive : hasApp = true ∧ liveParts <:+ parts path
      · exact denies_of_live hload hlive.1 hlive.2
      · have hlive' : hasApp = true → ¬liveParts <:+ parts path := fun happ h => hlive ⟨happ, h⟩
        rw [checkPath_eq hload hpaused hlive'] at hnot ⊢
        exact (checkLists_answers halways hdeny).resolve_right hnot

end CryptoAggHarmonic.LoopTools
