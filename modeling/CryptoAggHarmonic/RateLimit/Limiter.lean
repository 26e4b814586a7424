import Mathlib.Algebra.Order.Field.Rat
import Mathlib.Algebra.Order.Floor.Ring
import Mathlib.Data.Rat.Floor
import Mathlib.Data.String.Basic
import CryptoAggHarmonic.Lib.Window
import CryptoAggHarmonic.Lib.Steps

/-!
# The rate limiter

`app/api/rate_limit.py`: a list of times for every key of a user and an endpoint. The clock is read up to three times in
a check.
-/

namespace CryptoAggHarmonic.RateLimit

open SlidingLog

structure RateLimitConfig where
  requests : ℕ
  windowSeconds : ℕ
  deriving DecidableEq

/-! ## The store -/

/-- A dict with an empty list for a key that is not there. -/
structure SlidingWindowStore where
  data : String → List ℚ

namespace SlidingWindowStore

def empty : SlidingWindowStore := ⟨fun _ => []⟩

def setKey (s : SlidingWindowStore) (key : String) (times : List ℚ) : SlidingWindowStore :=
  ⟨fun k => if k = key then times else s.data k⟩

/-- `_prune` -/
def prune (s : SlidingWindowStore) (key : String) (cutoff : ℚ) : SlidingWindowStore :=
  s.setKey key (recent cutoff (s.data key))

def isAllowed (s : SlidingWindowStore) (key : String) (maxRequests windowSeconds : ℕ) (now : ℚ) :
    SlidingWindowStore × Bool :=
  let s := s.prune key (now - windowSeconds)
  if (s.data key).length ≥ maxRequests then (s, false) else (s.setKey key (s.data key ++ [now]), true)

def remaining (s : SlidingWindowStore) (key : String) (maxRequests windowSeconds : ℕ) (now : ℚ) :
    SlidingWindowStore × ℤ :=
  let s := s.prune key (now - windowSeconds)
  (s, max 0 ((maxRequests : ℤ) - (s.data key).length))

end SlidingWindowStore

/-! ## The limiter -/

def DEFAULT_LIMITS : List (String × RateLimitConfig) :=
  [("analyze", ⟨10, 60⟩), ("batch_quotes", ⟨30, 60⟩), ("watchlist_crud", ⟨60, 60⟩), ("history", ⟨120, 60⟩),
    ("health", ⟨300, 60⟩), ("admin", ⟨10, 60⟩)]

def configFor (endpoint : String) : RateLimitConfig := (DEFAULT_LIMITS.lookup endpoint).getD ⟨60, 60⟩

/-- `_key_for` -/
def keyFor (userId : Option String) (endpoint : String) : String :=
  let uid := if userId.getD "" = "" then "anonymous" else userId.getD ""
  uid ++ ":" ++ endpoint

/-- `int(x)` -/
def truncate (x : ℚ) : ℤ := if 0 ≤ x then ⌊x⌋ else ⌈x⌉

/-- A call of `check`, with what the clock shows. -/
structure Call where
  userId : Option String
  endpoint : String
  asked : ℚ
  counted : ℚ
  answered : ℚ
  asked_le : asked ≤ counted
  counted_le : counted ≤ answered

def Call.key (c : Call) : String := keyFor c.userId c.endpoint

structure Answer where
  allowed : Bool
  remaining : ℤ
  resetIn : ℤ
  deriving DecidableEq

/-- The seconds until the oldest entry expires. -/
def resetIn (timestamps : List ℚ) (windowSeconds : ℕ) (now : ℚ) : ℤ :=
  match timestamps.min? with
  | some oldest => truncate (oldest + windowSeconds - now) + 1
  | none => windowSeconds

def check (s : SlidingWindowStore) (c : Call) : SlidingWindowStore × Answer :=
  let config := configFor c.endpoint
  let (s, allowed) := s.isAllowed c.key config.requests config.windowSeconds c.asked
  let (s, remaining) := s.remaining c.key config.requests config.windowSeconds c.counted
  if allowed then (s, ⟨true, remaining, 0⟩)
  else (s, ⟨false, 0, max 1 (resetIn (s.data c.key) config.windowSeconds c.answered)⟩)

/-! ## Runs -/

/-- The store after a sequence of calls. -/
def after (calls : List Call) : SlidingWindowStore := Steps.run (fun s c => (check s c).1) .empty calls

/-- The answer to a call after others. -/
def answer (before : List Call) (c : Call) : Answer := (check (after before) c).2

/-- When the allowed requests of a key were made. -/
def allowedTimes (key : String) : SlidingWindowStore → List Call → List ℚ
  | _, [] => []
  | s, c :: calls =>
      (if c.key = key ∧ (check s c).2.allowed = true then [c.asked] else []) ++ allowedTimes key (check s c).1 calls

end CryptoAggHarmonic.RateLimit
