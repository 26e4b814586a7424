import CryptoAggHarmonic.Scan.Symbol

/-!
# The scan of all users

`scan_all_users` of `app/tasks/watchlist_scan.py`, user by user, with the locks in Redis and the table `scan_log`. What
the scans of the symbols, the inserts and the webhook come to is part of the input, and so is the time that passes.
-/

namespace CryptoAggHarmonic.Scan

/-! ## Time -/

/-- Times are in milliseconds. -/
def HOUR : ℕ := 3600000

def DAY : ℕ := 24 * HOUR

def LOCK_TTL : ℕ := HOUR

/-! ## A user's scan -/

structure NotificationPrefs where
  scanIntervalHours : ℤ := 4
  minSignalScore : ℤ := 60
  dingtalkWebhookUrl : Option String := none
  notifyOnPattern : Bool := true
  notifyBearishOnly : Bool := false
  sendDailySummary : Bool := true
  deriving DecidableEq

/-- What `scan_symbol` comes to. -/
inductive Scanned
  | raised
  | missing
  | result (r : ScanResult)
  deriving DecidableEq

/-- A symbol of the watchlist, with whether its row in `scan_log` can be inserted. -/
structure Item where
  symbol : String
  scanned : Scanned
  logged : Bool := true
  deriving DecidableEq

/-- The texts of the messages are made of these results. -/
inductive Message
  | signal (position : ℕ) (r : ScanResult)
  | dailySummary (symbolsScanned : ℕ) (strong medium : List (ℕ × ScanResult))
  deriving DecidableEq

/-- What `client.send` comes to: it returns `True` or `False`, or raises on an answer that is no JSON. -/
inductive SendOutcome
  | delivered
  | failed
  | raised
  deriving DecidableEq

/-- One user of one call, `wait` after what came before and `lasting` until its messages. A watchlist that cannot be read
is one whose first symbol raises. -/
structure Visit where
  userId : String
  prefs : NotificationPrefs
  wait : ℕ := 0
  lasting : ℕ := 0
  redis : Bool := true
  items : List Item
  send : Message → SendOutcome

/-- A row of `scan_log`. The number of the scan and the position in the watchlist are kept for the statements. -/
structure ScanLogRow where
  scan : ℕ
  position : ℕ
  userId : String
  symbol : String
  scanTime : ℕ
  signalsFound : ℕ
  topScore : ℤ
  topPattern : String
  topDirection : Option Direction
  topEntry : ℚ
  topStop : ℚ
  topTarget : ℚ
  isSent : Bool
  sentAt : Option ℕ
  errorMsg : Option SkipReason
  deriving DecidableEq

def logScan (scan position : ℕ) (userId : String) (now : ℕ) (symbol : String) (r : ScanResult) (isSent : Bool) :
    ScanLogRow where
  scan := scan
  position := position
  userId := userId
  symbol := symbol
  scanTime := now
  signalsFound := if r.skipped then 0 else 1
  topScore := r.score
  topPattern := r.pattern
  topDirection := r.direction
  topEntry := r.entryPrice
  topStop := r.stopPrice
  topTarget := r.target1
  isSent := isSent
  sentAt := if isSent then some now else none
  errorMsg := r.skipReason

/-- What the loop over the symbols has gathered; it is finished unless a symbol raised. -/
structure Pass where
  rows : List ScanLogRow := []
  strong : List (ℕ × ScanResult) := []
  medium : List (ℕ × ScanResult) := []
  totalScanned : ℕ := 0
  finished : Bool := true

def Pass.signals (p : Pass) : List (ℕ × ScanResult) := p.strong ++ p.medium

def Pass.addRow (p : Pass) (item : Item) (row : ScanLogRow) : Pass :=
  { p with rows := if item.logged then row :: p.rows else p.rows, totalScanned := p.totalScanned + 1 }

def Pass.addSignal (p : Pass) (position : ℕ) (r : ScanResult) : Pass :=
  match r.grade with
  | .strong => { p with strong := (position, r) :: p.strong }
  | .medium => { p with medium := (position, r) :: p.medium }
  | .skip => p

/-- The loop of `_scan_user`, from one position on. -/
def scanItems (scan : ℕ) (userId : String) (now : ℕ) (minSignalScore : ℤ) : ℕ → List Item → Pass
  | _, [] => {}
  | position, item :: items =>
      match item.scanned with
      | .raised => { finished := false }
      | .missing => scanItems scan userId now minSignalScore (position + 1) items
      | .result r =>
          let rest := scanItems scan userId now minSignalScore (position + 1) items
          if r.skipped ∨ r.score < minSignalScore then
            rest.addRow item (logScan scan position userId now item.symbol r false)
          else
            -- the row is written before anything is sent
            (rest.addSignal position r).addRow item (logScan scan position userId now item.symbol r true)

def NotificationPrefs.hasWebhook (prefs : NotificationPrefs) : Bool := prefs.dingtalkWebhookUrl.any (· ≠ "")

def signalMessages (p : Pass) : List Message := p.signals.map fun x => .signal x.1 x.2

def summaryMessages (prefs : NotificationPrefs) (p : Pass) : List Message :=
  if prefs.sendDailySummary ∧ p.signals ≠ [] then [.dailySummary p.totalScanned p.strong p.medium] else []

/-- The messages that are posted one after the other, until one raises. -/
def postAll (send : Message → SendOutcome) : List Message → List Message
  | [] => []
  | m :: ms => if send m = .raised then [m] else m :: postAll send ms

def messagesOf (prefs : NotificationPrefs) (p : Pass) (send : Message → SendOutcome) : List Message :=
  if p.finished ∧ prefs.hasWebhook then postAll send (signalMessages p ++ summaryMessages prefs p) else []

/-! ## The lock -/

def lockKey (userId : String) (intervalHours : ℤ) : String :=
  "scan_lock:" ++ userId ++ ":" ++ toString intervalHours ++ "h"

/-- Keys with the time they expire at. Without Redis the scan goes ahead. -/
def acquireScanLock (locks : List (String × ℕ)) (redis : Bool) (key : String) (now : ℕ) :
    Option (List (String × ℕ)) :=
  if !redis then some locks
  else if locks.any fun lock => lock.1 = key ∧ now < lock.2 then none
  else some ((key, now + LOCK_TTL) :: locks)

/-! ## Runs -/

/-- A message that was posted. -/
structure Dispatch where
  scan : ℕ
  userId : String
  prefs : NotificationPrefs
  postedAt : ℕ
  message : Message
  delivered : Bool
  deriving DecidableEq

structure ScanStart where
  userId : String
  intervalHours : ℤ
  startedAt : ℕ
  deriving DecidableEq

/-- The clock, Redis and the table; the posts and the starts are kept for the statements. -/
structure World where
  clock : ℕ := 0
  locks : List (String × ℕ) := []
  log : List ScanLogRow := []
  dispatches : List Dispatch := []
  scans : List ScanStart := []

def Visit.start (v : Visit) (w : World) : ℕ := w.clock + v.wait

def Visit.finish (v : Visit) (w : World) : ℕ := v.start w + v.lasting

def Visit.pass (v : Visit) (w : World) : Pass :=
  scanItems w.scans.length v.userId (v.start w) v.prefs.minSignalScore 0 v.items

def Visit.dispatch (v : Visit) (w : World) (m : Message) : Dispatch where
  scan := w.scans.length
  userId := v.userId
  prefs := v.prefs
  postedAt := v.finish w
  message := m
  delivered := v.send m = .delivered

def visitUser (w : World) (v : Visit) : World :=
  match acquireScanLock w.locks v.redis (lockKey v.userId v.prefs.scanIntervalHours) (v.start w) with
  | none => { w with clock := v.start w }
  | some locks =>
      { clock := v.finish w
        locks := locks
        log := w.log ++ (v.pass w).rows
        dispatches := w.dispatches ++ (messagesOf v.prefs (v.pass w) v.send).map (v.dispatch w)
        scans := w.scans ++ [⟨v.userId, v.prefs.scanIntervalHours, v.start w⟩] }

/-- One call for all the users that are enabled. -/
def scanAllUsers (w : World) (visits : List Visit) : World := visits.foldl visitUser w

end CryptoAggHarmonic.Scan
