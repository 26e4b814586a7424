import Mathlib.Data.Rat.Floor
import Mathlib.Algebra.Order.Group.Abs
import CryptoAggHarmonic.Lib.Groups
import CryptoAggHarmonic.Lib.Steps
import CryptoAggHarmonic.Lib.Table
import CryptoAggHarmonic.Sql.Basic

/-!
# Notification preferences

`app/infra/notification_prefs_store.py` over its three backends: the table `user_notification_prefs` of
`migrations/005_notification_prefs.sql`, the hashes of Redis (which store strings and reject `None` and `bool`; their
expiry is left out) and the dictionary in memory. The clock is read once a call.
-/

namespace CryptoAggHarmonic.Infra

open Groups

/-! ## Values -/

/-- A value of a row, a hash or a payload. -/
inductive RawValue
  | none
  | bool (b : Bool)
  | int (n : ℤ)
  | float (x : ℚ)
  | str (s : String)
  deriving DecidableEq

abbrev Raw := List (String × RawValue)

/-- The conversions between numbers and texts; `none` where they raise. -/
structure PyText where
  int : String → Option ℤ
  float : String → Option ℚ
  str : RawValue → String

namespace RawValue

/-- `bool(v)` -/
def toBool : RawValue → Bool
  | .none => false
  | .bool b => b
  | .int n => n ≠ 0
  | .float x => x ≠ 0
  | .str s => s ≠ ""

/-- `int(v)` -/
def toInt (py : PyText) : RawValue → Option ℤ
  | .none => .none
  | .bool b => some (if b then 1 else 0)
  | .int n => some n
  | .float x => some (if 0 ≤ x then ⌊x⌋ else ⌈x⌉)
  | .str s => py.int s

/-- `float(v)` -/
def toFloat (py : PyText) : RawValue → Option ℚ
  | .none => .none
  | .bool b => some (if b then 1 else 0)
  | .int n => some n
  | .float x => some x
  | .str s => py.float s

/-- `str(v)` -/
def toStr (py : PyText) : RawValue → String
  | .str s => s
  | v => py.str v

def ofText : Option String → RawValue
  | .none => .none
  | some s => .str s

/-- The text of a `str`. -/
def text : RawValue → Option String
  | .str s => some s
  | _ => .none

end RawValue

/-! ## Preferences -/

structure NotificationPrefs where
  userId : String
  scanEnabled : Bool
  scanIntervalHours : ℤ
  minSignalScore : ℤ
  dingtalkWebhookUrl : RawValue
  dingtalkSecret : RawValue
  notifyOnPattern : Bool
  notifyBearishOnly : Bool
  sendDailySummary : Bool
  maxRiskPerTrade : ℚ
  createdAt : String
  updatedAt : String
  deriving DecidableEq

def DEFAULT_INTERVAL_HOURS : ℤ := 4

def DEFAULT_MIN_SCORE : ℤ := 60

def DEFAULT_MAX_RISK : ℚ := 2 / 100

def NotificationPrefs.defaults (userId now : String) : NotificationPrefs where
  userId := userId
  scanEnabled := true
  scanIntervalHours := DEFAULT_INTERVAL_HOURS
  minSignalScore := DEFAULT_MIN_SCORE
  dingtalkWebhookUrl := .none
  dingtalkSecret := .none
  notifyOnPattern := true
  notifyBearishOnly := false
  sendDailySummary := true
  maxRiskPerTrade := DEFAULT_MAX_RISK
  createdAt := now
  updatedAt := now

/-- `_dict_to_prefs`; `none` where it raises. -/
def dictToPrefs (py : PyText) (now : String) (d : Raw) : Option NotificationPrefs := do
  let get (key : String) (default : RawValue) : RawValue := (d.lookup key).getD default
  let userId ← d.lookup "user_id"
  let scanIntervalHours ← (get "scan_interval_hours" (.int DEFAULT_INTERVAL_HOURS)).toInt py
  let minSignalScore ← (get "min_signal_score" (.int DEFAULT_MIN_SCORE)).toInt py
  let maxRiskPerTrade ← (get "max_risk_per_trade" (.float DEFAULT_MAX_RISK)).toFloat py
  return {
    userId := userId.toStr py
    scanEnabled := (get "scan_enabled" (.bool true)).toBool
    scanIntervalHours
    minSignalScore
    dingtalkWebhookUrl := get "dingtalk_webhook_url" .none
    dingtalkSecret := get "dingtalk_secret" .none
    notifyOnPattern := (get "notify_on_pattern" (.bool true)).toBool
    notifyBearishOnly := (get "notify_bearish_only" (.bool false)).toBool
    sendDailySummary := (get "send_daily_summary" (.bool true)).toBool
    maxRiskPerTrade
    createdAt := (get "created_at" (.str now)).toStr py
    updatedAt := (get "updated_at" (.str now)).toStr py }

/-- An argument of `upsert_prefs`: left out (`...`), or given, perhaps as `None`. -/
inductive Arg (α : Type)
  | omitted
  | given (v : Option α)

/-- `_val` -/
def Arg.val {α : Type} (wrap : α → RawValue) (old : RawValue) : Arg α → RawValue
  | .omitted => old
  | .given .none => .none
  | .given (some v) => wrap v

structure PrefsArgs where
  dingtalkWebhookUrl : Arg String := .omitted
  dingtalkSecret : Arg String := .omitted
  scanIntervalHours : Arg ℤ := .omitted
  scanEnabled : Arg Bool := .omitted
  minSignalScore : Arg ℤ := .omitted
  notifyOnPattern : Arg Bool := .omitted
  notifyBearishOnly : Arg Bool := .omitted
  sendDailySummary : Arg Bool := .omitted
  maxRiskPerTrade : Arg ℚ := .omitted

def payloadOf (userId : String) (args : PrefsArgs) (current : NotificationPrefs) (now : String) : Raw :=
  [("user_id", .str userId),
    ("scan_enabled", args.scanEnabled.val .bool (.bool current.scanEnabled)),
    ("scan_interval_hours", args.scanIntervalHours.val .int (.int current.scanIntervalHours)),
    ("min_signal_score", args.minSignalScore.val .int (.int current.minSignalScore)),
    ("dingtalk_webhook_url", args.dingtalkWebhookUrl.val .str current.dingtalkWebhookUrl),
    ("dingtalk_secret", args.dingtalkSecret.val .str current.dingtalkSecret),
    ("notify_on_pattern", args.notifyOnPattern.val .bool (.bool current.notifyOnPattern)),
    ("notify_bearish_only", args.notifyBearishOnly.val .bool (.bool current.notifyBearishOnly)),
    ("send_daily_summary", args.sendDailySummary.val .bool (.bool current.sendDailySummary)),
    ("max_risk_per_trade", args.maxRiskPerTrade.val .float (.float current.maxRiskPerTrade)),
    ("updated_at", .str now)]

/-! ## The table -/

structure PrefsRow where
  userId : String
  dingtalkWebhookUrl : Option String
  dingtalkSecret : Option String
  scanIntervalHours : ℤ
  scanEnabled : Bool
  minSignalScore : ℤ
  notifyOnPattern : Bool
  notifyBearishOnly : Bool
  sendDailySummary : Bool
  maxRiskPerTrade : ℚ
  createdAt : String
  updatedAt : String
  deriving DecidableEq

/-- A row as the client gets it, without the `id` that nobody reads. -/
def PrefsRow.toRaw (row : PrefsRow) : Raw :=
  [("user_id", .str row.userId),
    ("dingtalk_webhook_url", .ofText row.dingtalkWebhookUrl),
    ("dingtalk_secret", .ofText row.dingtalkSecret),
    ("scan_interval_hours", .int row.scanIntervalHours),
    ("scan_enabled", .bool row.scanEnabled),
    ("min_signal_score", .int row.minSignalScore),
    ("notify_on_pattern", .bool row.notifyOnPattern),
    ("notify_bearish_only", .bool row.notifyBearishOnly),
    ("send_daily_summary", .bool row.sendDailySummary),
    ("max_risk_per_trade", .float row.maxRiskPerTrade),
    ("created_at", .str row.createdAt),
    ("updated_at", .str row.updatedAt)]

/-- `NUMERIC(5,4)`: rounded to four places, halves away from zero. -/
def toNumeric (x : ℚ) : Option ℚ :=
  let rounded : ℚ := (if 0 ≤ x then ⌊x * 10 ^ 4 + 1 / 2⌋ else ⌈x * 10 ^ 4 - 1 / 2⌉) / 10 ^ 4
  if |rounded| < 10 then some rounded else none

/-- `TEXT` holds no NUL. -/
def storableText (s : String) : Bool := !s.toList.contains '\x00'

def textColumn : RawValue → Option (Option String)
  | .none => some none
  | .str s => if storableText s then some (some s) else none
  | _ => none

/-- `TIMESTAMPTZ NOT NULL`; the texts of the clock are timestamps. -/
def timeColumn : RawValue → Option String
  | .str s => some s
  | _ => none

/-- `INT NOT NULL` -/
def intColumn : RawValue → Option ℤ
  | .int n => (Sql.toInteger n).toOption
  | _ => none

/-- `BOOLEAN NOT NULL` -/
def boolColumn : RawValue → Option Bool
  | .bool b => some b
  | _ => none

/-- `NUMERIC(5,4) NOT NULL` -/
def numericColumn : RawValue → Option ℚ
  | .float x => toNumeric x
  | _ => none

/-- The row of a payload; `none` where a column refuses its value. A new row is created now, and an old one keeps the
time it was created at; the trigger stamps the change. -/
def rowOfPayload (payload : Raw) (old : Option PrefsRow) (dbNow : String) : Option PrefsRow := do
  let get (key : String) : RawValue := (payload.lookup key).getD .none
  let userId ← (← textColumn (get "user_id"))
  let updatedAt ← timeColumn (get "updated_at")
  return {
    userId
    dingtalkWebhookUrl := ← textColumn (get "dingtalk_webhook_url")
    dingtalkSecret := ← textColumn (get "dingtalk_secret")
    scanIntervalHours := ← intColumn (get "scan_interval_hours")
    scanEnabled := ← boolColumn (get "scan_enabled")
    minSignalScore := ← intColumn (get "min_signal_score")
    notifyOnPattern := ← boolColumn (get "notify_on_pattern")
    notifyBearishOnly := ← boolColumn (get "notify_bearish_only")
    sendDailySummary := ← boolColumn (get "send_daily_summary")
    maxRiskPerTrade := ← numericColumn (get "max_risk_per_trade")
    createdAt := match old with
      | some row => row.createdAt
      | none => dbNow
    updatedAt := match old with
      | some _ => dbNow
      | none => updatedAt }

/-! ## The store -/

/-- Which clients `__init__` got. -/
structure Backends where
  client : Bool
  redis : Bool

def Backends.useMemory (b : Backends) : Bool := !b.client && !b.redis

/-- What becomes of the `upsert` request: it is answered, it does not arrive, or its answer does not. -/
inductive Reply
  | answered
  | refused
  | lost
  deriving DecidableEq

structure PrefsEnv where
  now : String
  dbNow : String
  /-- The `select` is answered. -/
  read : Bool := true
  write : Reply := .answered
  /-- Redis answers. -/
  redis : Bool := true

structure PrefsStores where
  table : Table PrefsRow.userId
  hashes : List (String × List (String × String))
  memory : List (String × Raw)

def PrefsStores.empty : PrefsStores where
  table := Table.empty
  hashes := []
  memory := []

section

variable (py : PyText) (b : Backends) (env : PrefsEnv) (w : PrefsStores)

def hashKey (userId : String) : String := "notif_prefs:" ++ userId

def readSupabase (userId : String) : Option NotificationPrefs :=
  if b.client && env.read then (w.table.get? userId).bind fun row => dictToPrefs py env.now row.toRaw else none

/-- `hgetall`: an empty hash is no hash. -/
def readRedis (userId : String) : Option NotificationPrefs :=
  if b.redis && env.redis then
    match w.hashes.lookup (hashKey userId) with
    | some (field :: fields) => dictToPrefs py env.now ((field :: fields).map fun e => (e.1, .str e.2))
    | _ => none
  else none

/-- `get_prefs`; `none` where it raises. -/
def getPrefs (userId : String) : Option (Option NotificationPrefs) :=
  if b.useMemory then
    match w.memory.lookup userId with
    | some raw => (dictToPrefs py env.now raw).map some
    | none => some none
  else some ((readSupabase py b env w userId).or (readRedis py b env w userId))

/-- `upsert(payload, on_conflict="user_id")`, and the row that comes back. Without a client it raises. -/
def writeSupabase (userId : String) (payload : Raw) : Table PrefsRow.userId × Option PrefsRow :=
  if !b.client || env.write = .refused then (w.table, none)
  else
    match rowOfPayload payload (w.table.get? userId) env.dbNow with
    | none => (w.table, none)
    | some row => (w.table.put row, if env.write = .answered then some row else none)

/-- The value that `hset` sends; `none` where it raises. -/
def redisText : RawValue → Option String
  | .none => none
  | .bool _ => none
  | v => some (v.toStr py)

/-- `hset(key, mapping=payload)` -/
def writeRedis (userId : String) (payload : Raw) : List (String × List (String × String)) :=
  if b.redis && env.redis then
    match payload.mapM fun e => (redisText py e.2).map fun text => (e.1, text) with
    | none => w.hashes
    | some fields =>
        let set (hash : List (String × String)) :=
          fields.foldl (fun hash e => bump e.1 (fun _ => e.2) e.2 hash) hash
        bump (hashKey userId) set [] w.hashes
  else w.hashes

/-- `upsert_prefs`; no preferences where it raises. -/
def upsertPrefs (userId : String) (args : PrefsArgs) : PrefsStores × Option NotificationPrefs :=
  match getPrefs py b env w userId with
  | none => (w, none)
  | some found =>
      let current := found.getD (.defaults userId env.now)
      let payload := payloadOf userId args current env.now
      if b.useMemory then
        ({ w with memory := bump userId (fun _ => payload) payload w.memory }, dictToPrefs py env.now payload)
      else
        let (table, row) := writeSupabase b env w userId payload
        match row.bind fun row => dictToPrefs py env.now row.toRaw with
        | some prefs => ({ w with table := table }, some prefs)
        | none =>
            ({ w with table := table, hashes := writeRedis py b env w userId payload },
              dictToPrefs py env.now payload)

/-- `list_enabled_users`; `none` where it raises. -/
def listEnabledUsers : Option (List (String × NotificationPrefs)) :=
  if b.useMemory then
    (w.memory.filter fun e => ((e.2.lookup "scan_enabled").getD (.bool false)).toBool).mapM fun e =>
      (dictToPrefs py env.now e.2).map fun prefs => (e.1, prefs)
  else if b.client && env.read then
    some (((w.table.rows.filter (·.scanEnabled)).mapM fun row =>
      (dictToPrefs py env.now row.toRaw).map fun prefs => (row.userId, prefs)).getD [])
  else some []

end

/-! ## Runs -/

inductive PrefsOp
  | get (userId : String)
  | upsert (userId : String) (args : PrefsArgs)
  | list

structure PrefsCall where
  op : PrefsOp
  env : PrefsEnv

/-- The stores after a call. -/
def prefsStep (py : PyText) (b : Backends) (w : PrefsStores) (c : PrefsCall) : PrefsStores :=
  match c.op with
  | .upsert userId args => (upsertPrefs py b c.env w userId args).1
  | _ => w

/-! ## What was given -/

/-- The fields that a user sets. -/
structure PrefsFields where
  scanEnabled : Bool := true
  scanIntervalHours : ℤ := DEFAULT_INTERVAL_HOURS
  minSignalScore : ℤ := DEFAULT_MIN_SCORE
  dingtalkWebhookUrl : Option String := none
  dingtalkSecret : Option String := none
  notifyOnPattern : Bool := true
  notifyBearishOnly : Bool := false
  sendDailySummary : Bool := true
  maxRiskPerTrade : ℚ := DEFAULT_MAX_RISK
  deriving DecidableEq

/-- The value of a field that has none for `None`. -/
def Arg.last {α : Type} (old : α) : Arg α → α
  | .given (some v) => v
  | _ => old

/-- The value of a field for which `None` is one. -/
def Arg.lastText (old : Option String) : Arg String → Option String
  | .omitted => old
  | .given v => v

def PrefsFields.give (f : PrefsFields) (args : PrefsArgs) : PrefsFields where
  scanEnabled := args.scanEnabled.last f.scanEnabled
  scanIntervalHours := args.scanIntervalHours.last f.scanIntervalHours
  minSignalScore := args.minSignalScore.last f.minSignalScore
  dingtalkWebhookUrl := args.dingtalkWebhookUrl.lastText f.dingtalkWebhookUrl
  dingtalkSecret := args.dingtalkSecret.lastText f.dingtalkSecret
  notifyOnPattern := args.notifyOnPattern.last f.notifyOnPattern
  notifyBearishOnly := args.notifyBearishOnly.last f.notifyBearishOnly
  sendDailySummary := args.sendDailySummary.last f.sendDailySummary
  maxRiskPerTrade := args.maxRiskPerTrade.last f.maxRiskPerTrade

/-- What the calls gave a user, over the defaults, and when the first of them was. -/
def lastGiven (calls : List PrefsCall) (userId : String) : Option (PrefsFields × String) :=
  calls.foldl (fun given c =>
    match c.op with
    | .upsert u args =>
        if u = userId then
          match given with
          | some (f, created) => some (f.give args, created)
          | none => some (PrefsFields.give {} args, c.env.dbNow)
        else given
    | _ => given) none

/-! ## Values that a column keeps -/

/-- Left out, or given as a value that is kept; `None` is not. -/
def Arg.Kept {α : Type} (ok : α → Prop) : Arg α → Prop
  | .omitted => True
  | .given none => False
  | .given (some v) => ok v

def Arg.KeptText : Arg String → Prop
  | .given (some s) => storableText s = true
  | _ => True

def KeptInt (n : ℤ) : Prop := -2 ^ 31 ≤ n ∧ n < 2 ^ 31

/-- At most four decimals, and less than ten. -/
def KeptRisk (x : ℚ) : Prop := toNumeric x = some x

/-- No column refuses or changes a value of the call. -/
structure Storable (userId : String) (args : PrefsArgs) : Prop where
  userId : storableText userId = true
  scanEnabled : args.scanEnabled.Kept fun _ => True
  scanIntervalHours : args.scanIntervalHours.Kept KeptInt
  minSignalScore : args.minSignalScore.Kept KeptInt
  dingtalkWebhookUrl : args.dingtalkWebhookUrl.KeptText
  dingtalkSecret : args.dingtalkSecret.KeptText
  notifyOnPattern : args.notifyOnPattern.Kept fun _ => True
  notifyBearishOnly : args.notifyBearishOnly.Kept fun _ => True
  sendDailySummary : args.sendDailySummary.Kept fun _ => True
  maxRiskPerTrade : args.maxRiskPerTrade.Kept KeptRisk

/-- The fields are values that the columns keep. -/
structure PrefsFields.Kept (f : PrefsFields) : Prop where
  scanIntervalHours : KeptInt f.scanIntervalHours
  minSignalScore : KeptInt f.minSignalScore
  dingtalkWebhookUrl : ∀ s ∈ f.dingtalkWebhookUrl, storableText s = true
  dingtalkSecret : ∀ s ∈ f.dingtalkSecret, storableText s = true
  maxRiskPerTrade : KeptRisk f.maxRiskPerTrade

section

variable {py : PyText} {b : Backends} {env : PrefsEnv} {w : PrefsStores} {userId now : String} {args : PrefsArgs}
  {f : PrefsFields} {row : PrefsRow} {calls : List PrefsCall} {c : PrefsCall}

theorem kept_defaults : PrefsFields.Kept {} where
  scanIntervalHours := by unfold KeptInt; decide
  minSignalScore := by unfold KeptInt; decide
  dingtalkWebhookUrl := by simp
  dingtalkSecret := by simp
  maxRiskPerTrade := by unfold KeptRisk; decide +kernel

theorem Arg.Kept.last {α : Type} {ok : α → Prop} {a : Arg α} {old : α} (h : a.Kept ok) (hold : ok old) :
    ok (a.last old) := by
  cases a with
  | omitted => exact hold
  | given v =>
      cases v with
      | none => exact h.elim
      | some v => exact h

theorem Arg.KeptText.last {a : Arg String} {old : Option String} (h : a.KeptText)
    (hold : ∀ s ∈ old, storableText s = true) : ∀ s ∈ a.lastText old, storableText s = true := by
  cases a with
  | omitted => exact hold
  | given v =>
      rintro s hs
      rw [Option.mem_def] at hs
      change v = some s at hs
      subst hs
      exact h

theorem PrefsFields.Kept.give (hf : f.Kept) (h : Storable userId args) : (f.give args).Kept where
  scanIntervalHours := h.scanIntervalHours.last hf.scanIntervalHours
  minSignalScore := h.minSignalScore.last hf.minSignalScore
  dingtalkWebhookUrl := h.dingtalkWebhookUrl.last hf.dingtalkWebhookUrl
  dingtalkSecret := h.dingtalkSecret.last hf.dingtalkSecret
  maxRiskPerTrade := h.maxRiskPerTrade.last hf.maxRiskPerTrade

/-! ## Columns -/

theorem boolColumn_val {a : Arg Bool} {old : Bool} (h : a.Kept fun _ => True) :
    boolColumn (a.val .bool (.bool old)) = some (a.last old) := by
  cases a with
  | omitted => rfl
  | given v =>
      cases v with
      | none => exact h.elim
      | some v => rfl

theorem intColumn_val {a : Arg ℤ} {old : ℤ} (h : a.Kept KeptInt) (hold : KeptInt old) :
    intColumn (a.val .int (.int old)) = some (a.last old) := by
  have hint : ∀ n, KeptInt n → intColumn (.int n) = some n := by
    intro n hn
    have hrange : Sql.toInteger n = .ok n := if_pos hn
    rw [intColumn, hrange]
    rfl
  cases a with
  | omitted => exact hint old hold
  | given v =>
      cases v with
      | none => exact h.elim
      | some v => exact hint v h

theorem numericColumn_val {a : Arg ℚ} {old : ℚ} (h : a.Kept KeptRisk) (hold : KeptRisk old) :
    numericColumn (a.val .float (.float old)) = some (a.last old) := by
  cases a with
  | omitted => exact hold
  | given v =>
      cases v with
      | none => exact h.elim
      | some v => exact h

theorem textColumn_ofText {t : Option String} (h : ∀ s ∈ t, storableText s = true) :
    textColumn (.ofText t) = some t := by
  cases t with
  | none => rfl
  | some s => simp [RawValue.ofText, textColumn, h s rfl]

theorem val_ofText {a : Arg String} {old : Option String} :
    a.val .str (.ofText old) = .ofText (a.lastText old) := by
  cases a with
  | omitted => rfl
  | given v => cases v <;> rfl

/-! ## The three encodings of the same fields -/

def NotificationPrefs.ofFields (userId : String) (f : PrefsFields) (createdAt updatedAt : String) :
    NotificationPrefs where
  userId := userId
  scanEnabled := f.scanEnabled
  scanIntervalHours := f.scanIntervalHours
  minSignalScore := f.minSignalScore
  dingtalkWebhookUrl := .ofText f.dingtalkWebhookUrl
  dingtalkSecret := .ofText f.dingtalkSecret
  notifyOnPattern := f.notifyOnPattern
  notifyBearishOnly := f.notifyBearishOnly
  sendDailySummary := f.sendDailySummary
  maxRiskPerTrade := f.maxRiskPerTrade
  createdAt := createdAt
  updatedAt := updatedAt

def PrefsRow.ofFields (userId : String) (f : PrefsFields) (createdAt updatedAt : String) : PrefsRow where
  userId := userId
  dingtalkWebhookUrl := f.dingtalkWebhookUrl
  dingtalkSecret := f.dingtalkSecret
  scanIntervalHours := f.scanIntervalHours
  scanEnabled := f.scanEnabled
  minSignalScore := f.minSignalScore
  notifyOnPattern := f.notifyOnPattern
  notifyBearishOnly := f.notifyBearishOnly
  sendDailySummary := f.sendDailySummary
  maxRiskPerTrade := f.maxRiskPerTrade
  createdAt := createdAt
  updatedAt := updatedAt

def PrefsRow.fields (row : PrefsRow) : PrefsFields where
  scanEnabled := row.scanEnabled
  scanIntervalHours := row.scanIntervalHours
  minSignalScore := row.minSignalScore
  dingtalkWebhookUrl := row.dingtalkWebhookUrl
  dingtalkSecret := row.dingtalkSecret
  notifyOnPattern := row.notifyOnPattern
  notifyBearishOnly := row.notifyBearishOnly
  sendDailySummary := row.sendDailySummary
  maxRiskPerTrade := row.maxRiskPerTrade

/-- A row reads back as its own fields. -/
theorem dictToPrefs_toRaw :
    dictToPrefs py now row.toRaw = some (.ofFields row.userId row.fields row.createdAt row.updatedAt) := by
  simp [dictToPrefs, PrefsRow.toRaw, NotificationPrefs.ofFields, PrefsRow.fields, RawValue.toBool, RawValue.toInt,
    RawValue.toFloat, RawValue.toStr, List.lookup_cons]

theorem rowOfPayload_payloadOf (hf : f.Kept) (h : Storable userId args) (u created updated now dbNow : String)
    (old : Option PrefsRow) :
    ∃ stamp, rowOfPayload (payloadOf userId args (.ofFields u f created updated) now) old dbNow =
      some (.ofFields userId (f.give args) ((old.map PrefsRow.createdAt).getD dbNow) stamp) := by
  have huser : textColumn (.str userId) = some (some userId) := by simp [textColumn, h.userId]
  have hurl := textColumn_ofText (h.dingtalkWebhookUrl.last hf.dingtalkWebhookUrl)
  have hsecret := textColumn_ofText (h.dingtalkSecret.last hf.dingtalkSecret)
  refine ⟨match old with
    | some _ => dbNow
    | none => now, ?_⟩
  cases old <;>
    simp [rowOfPayload, payloadOf, List.lookup_cons, NotificationPrefs.ofFields, PrefsRow.ofFields, PrefsFields.give, huser,
      timeColumn, val_ofText, hurl, hsecret,
      intColumn_val h.scanIntervalHours hf.scanIntervalHours, intColumn_val h.minSignalScore hf.minSignalScore,
      boolColumn_val h.scanEnabled, boolColumn_val h.notifyOnPattern, boolColumn_val h.notifyBearishOnly,
      boolColumn_val h.sendDailySummary, numericColumn_val h.maxRiskPerTrade hf.maxRiskPerTrade]

/-! ## Runs that the table serves -/

/-- The requests of the call are answered, and no column refuses or changes a value. -/
def PrefsCall.Served (c : PrefsCall) : Prop :=
  match c.op with
  | .upsert userId args => c.env.read = true ∧ c.env.write = .answered ∧ Storable userId args
  | _ => c.env.read = true

/-- The table has what was given, and nothing else was written. -/
structure ShowsGiven (w : PrefsStores) (calls : List PrefsCall) : Prop where
  hashes : w.hashes = []
  given : ∀ u, (w.table.get? u).map (fun row => (row.fields, row.createdAt)) = lastGiven calls u
  kept : ∀ row ∈ w.table.rows, row.fields.Kept

theorem lastGiven_append (userId : String) : lastGiven (calls ++ [c]) userId =
    match c.op with
    | .upsert u args =>
        if u = userId then
          match lastGiven calls userId with
          | some (f, created) => some (f.give args, created)
          | none => some (PrefsFields.give {} args, c.env.dbNow)
        else lastGiven calls userId
    | _ => lastGiven calls userId := List.foldl_concat ..

theorem getPrefs_served (py : PyText) (hclient : b.client = true) (hread : env.read = true) (hhashes : w.hashes = [])
    (userId : String) : getPrefs py b env w userId = some ((w.table.get? userId).map fun row =>
      .ofFields row.userId row.fields row.createdAt row.updatedAt) := by
  have hredis : readRedis py b env w userId = none := by simp [readRedis, hhashes]
  have hmemory : b.useMemory = false := by simp [Backends.useMemory, hclient]
  rw [getPrefs, hmemory, hredis]
  cases hrow : w.table.get? userId <;> simp [readSupabase, hclient, hread, hrow, dictToPrefs_toRaw]

/-- What an upsert reads before it writes. -/
theorem current_served (py : PyText) (env : PrefsEnv) (hclient : b.client = true) (hread : env.read = true)
    (hshows : ShowsGiven w calls) (userId : String) : ∃ found u f created updated,
      getPrefs py b env w userId = some found ∧
      found.getD (.defaults userId env.now) = .ofFields u f created updated ∧ f.Kept ∧
      f = ((lastGiven calls userId).map Prod.fst).getD {} := by
  have hget := getPrefs_served py hclient hread hshows.hashes userId
  have hgiven := hshows.given userId
  cases hrow : w.table.get? userId with
  | none =>
      rw [hrow] at hget hgiven
      exact ⟨_, userId, {}, env.now, env.now, hget, rfl, kept_defaults, by rw [← hgiven]; rfl⟩
  | some row =>
      rw [hrow] at hget hgiven
      exact ⟨_, _, _, _, _, hget, rfl, hshows.kept row (Table.get?_eq_some.mp hrow).1, by rw [← hgiven]; rfl⟩

theorem upsertPrefs_served (py : PyText) (hclient : b.client = true) (hread : env.read = true)
    (hwrite : env.write = .answered) (hstorable : Storable userId args) (hshows : ShowsGiven w calls) :
    ∃ row, (upsertPrefs py b env w userId args).1 = { w with table := w.table.put row } ∧ row.userId = userId ∧
      row.fields = (((lastGiven calls userId).map Prod.fst).getD {}).give args ∧
      row.createdAt = ((lastGiven calls userId).map Prod.snd).getD env.dbNow := by
  obtain ⟨found, u, f, created, updated, hget, hcurrent, hkept, hf⟩ :=
    current_served py env hclient hread hshows userId
  obtain ⟨stamp, hrow⟩ := rowOfPayload_payloadOf hkept hstorable u created updated env.now env.dbNow
    (w.table.get? userId)
  have hmemory : b.useMemory = false := by simp [Backends.useMemory, hclient]
  have hwritten : writeSupabase b env w userId (payloadOf userId args (.ofFields u f created updated) env.now) =
      (w.table.put (.ofFields userId (f.give args) (((w.table.get? userId).map PrefsRow.createdAt).getD env.dbNow)
        stamp), some (.ofFields userId (f.give args) (((w.table.get? userId).map PrefsRow.createdAt).getD env.dbNow)
        stamp)) := by
    simp [writeSupabase, hclient, hwrite, hrow]
  refine ⟨.ofFields userId (f.give args) (((w.table.get? userId).map PrefsRow.createdAt).getD env.dbNow) stamp, ?_,
    rfl, ?_, ?_⟩
  · simp [upsertPrefs, hget, hcurrent, hmemory, hwritten, dictToPrefs_toRaw]
  · rw [← hf]
    rfl
  · rw [← hshows.given userId, Option.map_map]
    rfl

/-- **One call** of a run that the table serves. -/
theorem ShowsGiven.step (hclient : b.client = true) (hserved : c.Served) (hshows : ShowsGiven w calls) :
    ShowsGiven (prefsStep py b w c) (calls ++ [c]) := by
  unfold PrefsCall.Served at hserved
  cases hop : c.op with
  | get userId =>
      refine ⟨?_, fun u => ?_, ?_⟩
      · simpa [prefsStep, hop] using hshows.hashes
      · simpa [prefsStep, hop, lastGiven_append] using hshows.given u
      · simpa [prefsStep, hop] using hshows.kept
  | list =>
      refine ⟨?_, fun u => ?_, ?_⟩
      · simpa [prefsStep, hop] using hshows.hashes
      · simpa [prefsStep, hop, lastGiven_append] using hshows.given u
      · simpa [prefsStep, hop] using hshows.kept
  | upsert userId args =>
      rw [hop] at hserved
      obtain ⟨hread, hwrite, hstorable⟩ := hserved
      obtain ⟨row, hstep, huser, hfields, hcreated⟩ :=
        upsertPrefs_served py hclient hread hwrite hstorable hshows
      have hstores : prefsStep py b w c = { w with table := w.table.put row } := by
        simpa [prefsStep, hop] using hstep
      rw [hstores]
      refine ⟨hshows.hashes, fun u => ?_, fun r hr => ?_⟩
      · rw [lastGiven_append, hop]
        dsimp only
        by_cases hu : userId = u
        · subst hu
          rw [if_pos rfl, ← huser, Table.get?_put, Option.map_some, hfields, hcreated, huser]
          cases lastGiven calls userId <;> rfl
        · rw [if_neg hu, Table.get?_put_of_ne (x := row) (huser ▸ Ne.symm hu)]
          exact hshows.given u
      · rcases Table.mem_put.mp hr with rfl | ⟨hr, -⟩
        · have hlast : (((lastGiven calls userId).map Prod.fst).getD {}).Kept := by
            obtain ⟨_, _, f, _, _, _, _, hkept, hf⟩ :=
              current_served py c.env hclient hread hshows userId
            exact hf ▸ hkept
          rw [hfields]
          exact hlast.give hstorable
        · exact hshows.kept r hr

theorem showsGiven_run (py : PyText) (hclient : b.client = true) (hserved : ∀ c ∈ calls, c.Served) :
    ShowsGiven (Steps.run (prefsStep py b) .empty calls) calls := by
  induction calls using List.reverseRecOn with
  | nil => exact ⟨rfl, fun u => rfl, fun row hrow => by cases hrow⟩
  | append_singleton calls c ih =>
      have hrun : Steps.run (prefsStep py b) .empty (calls ++ [c]) =
          prefsStep py b (Steps.run (prefsStep py b) .empty calls) c := List.foldl_concat ..
      rw [hrun]
      exact (ih fun c hc => hserved c (List.mem_append_left _ hc)).step hclient (hserved c (by simp))

theorem listEnabledUsers_served (hclient : b.client = true) (hread : env.read = true) :
    listEnabledUsers py b env w = some ((w.table.rows.filter (·.scanEnabled)).map fun row =>
      (row.userId, .ofFields row.userId row.fields row.createdAt row.updatedAt)) := by
  have hmemory : b.useMemory = false := by simp [Backends.useMemory, hclient]
  have hrows : ∀ rows : List PrefsRow, (rows.mapM fun row =>
      (dictToPrefs py env.now row.toRaw).map fun prefs => (row.userId, prefs)) =
      some (rows.map fun row => (row.userId, .ofFields row.userId row.fields row.createdAt row.updatedAt)) := by
    intro rows
    induction rows with
    | nil => rfl
    | cons row rows ih =>
        rw [List.mapM_cons, dictToPrefs_toRaw, ih]
        rfl
  simp [listEnabledUsers, hmemory, hclient, hread, hrows]

/-- The fields of preferences; what is not a text is none. -/
def NotificationPrefs.fields (p : NotificationPrefs) : PrefsFields where
  scanEnabled := p.scanEnabled
  scanIntervalHours := p.scanIntervalHours
  minSignalScore := p.minSignalScore
  dingtalkWebhookUrl := p.dingtalkWebhookUrl.text
  dingtalkSecret := p.dingtalkSecret.text
  notifyOnPattern := p.notifyOnPattern
  notifyBearishOnly := p.notifyBearishOnly
  sendDailySummary := p.sendDailySummary
  maxRiskPerTrade := p.maxRiskPerTrade

theorem fields_ofFields {created updated : String} :
    (NotificationPrefs.ofFields userId f created updated).fields = f := by
  have htext : ∀ t : Option String, (RawValue.ofText t).text = t := by
    intro t
    cases t <;> rfl
  simp [NotificationPrefs.fields, NotificationPrefs.ofFields, htext]

/-- What `get_prefs` answers is what was given last, created when the user was first written, and the users that
`list_enabled_users` lists are the ones whose scan was enabled last, each once. -/
structure RoundTrips (py : PyText) (b : Backends) (env : PrefsEnv) (w : PrefsStores) (calls : List PrefsCall) :
    Prop where
  get : ∀ userId, (getPrefs py b env w userId).map (Option.map fun p => (p.fields, p.createdAt)) =
    some (lastGiven calls userId)
  list : ∃ users, listEnabledUsers py b env w = some users ∧ (users.map Prod.fst).Nodup ∧
    ∀ userId f created, (∃ p, (userId, p) ∈ users ∧ p.fields = f ∧ p.createdAt = created) ↔
      lastGiven calls userId = some (f, created) ∧ f.scanEnabled = true

/-- **Preferences round-trip** in every run whose calls the table serves. -/
theorem prefs_roundTrip (py : PyText) (b : Backends) (calls : List PrefsCall) (env : PrefsEnv)
    (hclient : b.client = true) (hserved : ∀ c ∈ calls, c.Served) (hread : env.read = true) :
    RoundTrips py b env (Steps.run (prefsStep py b) .empty calls) calls := by
  have hshows := showsGiven_run py hclient hserved
  refine ⟨fun userId => ?_, _, listEnabledUsers_served hclient hread, ?_, fun userId f created => ?_⟩
  · rw [getPrefs_served py hclient hread hshows.hashes, Option.map_some, Option.map_map, ← hshows.given userId]
    simp only [Function.comp_def, fields_ofFields]
    rfl
  · rw [List.map_map]
    exact (Steps.run (prefsStep py b) .empty calls).table.keys.sublist (List.filter_sublist.map _)
  · rw [← hshows.given userId]
    simp only [List.mem_map, List.mem_filter, Prod.mk.injEq, Option.map_eq_some_iff, Table.get?_eq_some]
    constructor
    · rintro ⟨p, ⟨row, ⟨hrow, henabled⟩, rfl, rfl⟩, rfl, rfl⟩
      rw [fields_ofFields]
      exact ⟨⟨row, ⟨hrow, rfl⟩, rfl, rfl⟩, henabled⟩
    · rintro ⟨⟨row, ⟨hrow, rfl⟩, rfl, rfl⟩, henabled⟩
      exact ⟨_, ⟨row, ⟨hrow, henabled⟩, rfl, rfl⟩, fields_ofFields, rfl⟩

end

/-- No conversion between numbers and texts is asked for. -/
def noText : PyText where
  int _ := none
  float _ := none
  str _ := ""

def switchedOff : PrefsCall where
  op := .upsert "u1" { scanEnabled := .given (some false), dingtalkSecret := .given none }
  env := { now := "2026-08-10T00:00:00+00:00", dbNow := "2026-08-10T00:00:01+00:00" }

def raisedScore : PrefsCall where
  op := .upsert "u1" { minSignalScore := .given (some 70) }
  env := { now := "2026-08-11T00:00:00+00:00", dbNow := "2026-08-11T00:00:01+00:00" }

theorem switchedOff_roundTrip : RoundTrips noText ⟨true, true⟩ raisedScore.env
    (Steps.run (prefsStep noText ⟨true, true⟩) .empty [switchedOff, raisedScore]) [switchedOff, raisedScore] := by
  refine prefs_roundTrip noText ⟨true, true⟩ [switchedOff, raisedScore] raisedScore.env rfl ?_ rfl
  intro c hc
  rcases List.mem_pair.mp hc with rfl | rfl
  · refine ⟨rfl, rfl, ?_⟩
    constructor <;> trivial
  · refine ⟨rfl, rfl, ?_⟩
    constructor <;> trivial

/-! ## The other backends -/

section

variable {py : PyText} {b : Backends} {env : PrefsEnv} {w : PrefsStores} {userId : String}

theorem redisText_flag {a : Arg Bool} {old : Bool} : redisText py (a.val .bool (.bool old)) = none := by
  cases a with
  | omitted => rfl
  | given v => cases v <;> rfl

/-- Every payload has flags, and a flag is rejected. -/
theorem writeRedis_payloadOf {args : PrefsArgs} {current : NotificationPrefs} {now : String} :
    writeRedis py b env w userId (payloadOf userId args current now) = w.hashes := by
  have hrejected : ((payloadOf userId args current now).mapM fun e => (redisText py e.2).map fun text => (e.1, text)) =
      none := by
    simp [payloadOf, redisText_flag]
  unfold writeRedis
  rw [hrejected]
  split <;> rfl

/-- **Redis alone** never has the preferences of anybody. -/
theorem redis_keeps_nothing (hclient : b.client = false) (hredis : b.redis = true) (calls : List PrefsCall) :
    getPrefs py b env (Steps.run (prefsStep py b) .empty calls) userId = some none := by
  have hmemory : b.useMemory = false := by simp [Backends.useMemory, hredis]
  have hhashes : (Steps.run (prefsStep py b) .empty calls).hashes = [] := by
    induction calls using List.reverseRecOn with
    | nil => rfl
    | append_singleton calls c ih =>
        have hrun : Steps.run (prefsStep py b) .empty (calls ++ [c]) =
            prefsStep py b (Steps.run (prefsStep py b) .empty calls) c := List.foldl_concat ..
        rw [hrun]
        cases hop : c.op with
        | get u => simpa [prefsStep, hop] using ih
        | list => simpa [prefsStep, hop] using ih
        | upsert u args =>
            simp only [prefsStep, hop, upsertPrefs]
            split
            · exact ih
            · rw [hmemory]
              simpa [writeSupabase, hclient, writeRedis_payloadOf] using ih
  simp [getPrefs, hmemory, readSupabase, hclient, readRedis, hhashes]

/-- **In memory** preferences are created whenever they are read. -/
theorem memory_created_now (hmemory : b.useMemory = true) (calls : List PrefsCall) {p : NotificationPrefs}
    (h : getPrefs py b env (Steps.run (prefsStep py b) .empty calls) userId = some (some p)) :
    p.createdAt = env.now := by
  have hraw : ∀ u raw, (Steps.run (prefsStep py b) .empty calls).memory.lookup u = some raw →
      raw.lookup "created_at" = none := by
    clear h
    induction calls using List.reverseRecOn with
    | nil => intro u raw h; cases h
    | append_singleton calls c ih =>
        have hrun : Steps.run (prefsStep py b) .empty (calls ++ [c]) =
            prefsStep py b (Steps.run (prefsStep py b) .empty calls) c := List.foldl_concat ..
        rw [hrun]
        intro u raw hu
        cases hop : c.op with
        | get u' => exact ih u raw (by simpa [prefsStep, hop] using hu)
        | list => exact ih u raw (by simpa [prefsStep, hop] using hu)
        | upsert u' args =>
            simp only [prefsStep, hop, upsertPrefs] at hu
            split at hu
            · exact ih u raw hu
            · rw [if_pos hmemory] at hu
              dsimp only at hu
              rw [lookup_bump] at hu
              split_ifs at hu
              · cases hu
                simp [payloadOf, List.lookup_cons]
              · exact ih u raw hu
  rw [getPrefs, if_pos hmemory] at h
  cases hlookup : (Steps.run (prefsStep py b) .empty calls).memory.lookup userId with
  | none =>
      rw [hlookup] at h
      cases h
  | some raw =>
      rw [hlookup] at h
      obtain ⟨q, hq, hqp⟩ := Option.map_eq_some_iff.mp h
      cases hqp
      simp only [dictToPrefs, Option.bind_eq_bind, Option.bind_eq_some_iff, hraw userId raw hlookup] at hq
      obtain ⟨_, _, _, _, _, _, _, _, hq⟩ := hq
      cases hq
      rfl

end

/-- With Redis alone, scanning that was switched off is not found to be off. -/
theorem switchedOff_lost : ¬ ∀ (py : PyText) (b : Backends) (calls : List PrefsCall) (env : PrefsEnv),
    RoundTrips py b env (Steps.run (prefsStep py b) .empty calls) calls := by
  intro h
  have hget := (h noText ⟨false, true⟩ [switchedOff] raisedScore.env).get "u1"
  rw [redis_keeps_nothing rfl rfl] at hget
  revert hget
  decide +kernel

end CryptoAggHarmonic.Infra
