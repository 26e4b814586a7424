import Mathlib.Algebra.Order.Field.Rat
import CryptoAggHarmonic.Python.Basic

/-!
# The state machine of an open position

`app/services/position_manager.py`. Prices and sizes are exact rationals. A `PositionState` carries the
checks of `__post_init__`, so that the contracts of `process_bar` on its argument hold by construction.
-/

namespace CryptoAggHarmonic.Position

inductive CloseReason
  | stop
  | timeStop
  | tp3
  deriving DecidableEq, Repr

structure PositionState where
  bullish : Bool
  entryPrice : ℚ
  initialStop : ℚ
  currentStop : ℚ
  tp1 : ℚ
  tp2 : ℚ
  tp3 : ℚ
  atr : ℚ
  cdLegBars : ℕ
  chandelierPeriod : ℕ := 22
  chandelierAtrMult : ℚ := 2
  timeStopCdMult : ℚ := 3 / 2
  barsHeld : ℕ := 0
  sizeRemaining : ℚ := 1
  tp1Hit : Bool := false
  tp2Hit : Bool := false
  tp3Hit : Bool := false
  closed : Bool := false
  closeReason : Option CloseReason := none
  chandelierHigh : Option ℚ := none
  chandelierLow : Option ℚ := none
  entryPrice_pos : 0 < entryPrice
  initialStop_pos : 0 < initialStop
  tps_pos : 0 < tp1 ∧ 0 < tp2 ∧ 0 < tp3
  atr_pos : 0 < atr
  sizeRemaining_mem : 0 ≤ sizeRemaining ∧ sizeRemaining ≤ 1
  deriving DecidableEq

structure Bar where
  high : ℚ
  low : ℚ
  close : ℚ
  deriving DecidableEq, Repr

inductive Action
  | hold (reason : String)
  | closePartial (sizePct : ℚ) (reason : String)
  | moveStop (newStop : ℚ) (reason : String)
  | closeAll (reason : String)
  deriving DecidableEq, Repr

def PositionState.setSizeRemaining (s : PositionState) (x : ℚ) (h : 0 ≤ x ∧ x ≤ 1) : PositionState :=
  { s with sizeRemaining := x, sizeRemaining_mem := h }

def PositionState.setCurrentStop (s : PositionState) (x : ℚ) : PositionState := { s with currentStop := x }

/-- `dataclasses.replace(state, size_remaining=x)`: the copy runs `__post_init__` again. -/
def PositionState.replaceSizeRemaining (s : PositionState) (x : ℚ) : Except PyError PositionState :=
  if h : 0 ≤ x ∧ x ≤ 1 then .ok (s.setSizeRemaining x h)
  else .error (.valueError "size_remaining must be in [0, 1]")

def PositionState.close (s : PositionState) (reason : CloseReason) : PositionState :=
  { s with closed := true, sizeRemaining := 0, closeReason := some reason,
           sizeRemaining_mem := ⟨le_refl 0, zero_le_one⟩ }

/-- Trailing stop: the extreme since TP1 less (short: plus) `k` ATR. -/
def chandelierStop (s : PositionState) : Except PyError ℚ :=
  let k := s.chandelierAtrMult
  if s.bullish then
    match s.chandelierHigh with
    | none => .error .assertionError
    | some high => .ok (high - k * s.atr)
  else
    match s.chandelierLow with
    | none => .error .assertionError
    | some low => .ok (low + k * s.atr)

def tpHit (barHigh barLow tp : ℚ) (bullish : Bool) : Bool :=
  if bullish then decide (barHigh ≥ tp) else decide (barLow ≤ tp)

def stopHit (barHigh barLow stop : ℚ) (bullish : Bool) : Bool :=
  if bullish then decide (barLow ≤ stop) else decide (barHigh ≥ stop)

/-! ## The take-profit ladder -/

inductive TpName
  | tp1
  | tp2
  | tp3
  deriving DecidableEq, Repr

/-- The `next_stop_label` of a rung; the last rung has none. -/
inductive NextStop
  | breakeven
  | tp1
  deriving DecidableEq, Repr

structure TpTarget where
  price : ℚ
  name : TpName
  closePct : ℚ
  nextStop : Option NextStop
  deriving DecidableEq, Repr

def TpName.str : TpName → String
  | .tp1 => "tp1"
  | .tp2 => "tp2"
  | .tp3 => "tp3"

def TpName.hitReason (n : TpName) : String := n.str ++ "_hit"

def TpName.afterReason (n : TpName) : String := "after_" ++ n.str

/-- `getattr(state, f"{tp_name}_hit")`. -/
def PositionState.isHit (s : PositionState) : TpName → Bool
  | .tp1 => s.tp1Hit
  | .tp2 => s.tp2Hit
  | .tp3 => s.tp3Hit

/-- The flag of a rung set; TP1 also starts the chandelier at the bar's extreme. -/
def PositionState.markHit (s : PositionState) (name : TpName) (bar : Bar) : PositionState :=
  match name with
  | .tp1 =>
      { s with tp1Hit := true
               chandelierHigh := if s.bullish then some bar.high else none
               chandelierLow := if s.bullish then none else some bar.low }
  | .tp2 => { s with tp2Hit := true }
  | .tp3 => { s with tp3Hit := true }

def NextStop.price (s : PositionState) : NextStop → ℚ
  | .breakeven => s.entryPrice
  | .tp1 => s.tp1

def tpTargets (s : PositionState) : List TpTarget :=
  [⟨s.tp1, .tp1, 1 / 2, some .breakeven⟩, ⟨s.tp2, .tp2, 3 / 10, some .tp1⟩, ⟨s.tp3, .tp3, 1 / 5, none⟩]

/-- The loop over the rungs. It stops at the first rung not reached, and at the rung that closes the
position. -/
def tpLoop (bar : Bar) : List TpTarget → PositionState → List Action →
    Except PyError (PositionState × List Action)
  | [], s, actions => .ok (s, actions)
  | t :: ts, s, actions =>
      if s.isHit t.name then tpLoop bar ts s actions
      else if ¬ tpHit bar.high bar.low t.price s.bullish then .ok (s, actions)
      else
        match (s.markHit t.name bar).replaceSizeRemaining (s.sizeRemaining - t.closePct) with
        | .error e => .error e
        | .ok s =>
            let actions := actions ++ [.closePartial t.closePct t.name.hitReason]
            match t.nextStop with
            | none => .ok (s.close .tp3, actions ++ [.closeAll "tp3_full_close"])
            | some next =>
                let newStop := next.price s
                if newStop ≠ s.currentStop then
                  tpLoop bar ts (s.setCurrentStop newStop)
                    (actions ++ [.moveStop newStop t.name.afterReason])
                else tpLoop bar ts s actions

/-! ## One bar -/

def PositionState.tick (s : PositionState) : PositionState := { s with barsHeld := s.barsHeld + 1 }

/-- The running extreme since TP1 taken one bar further. -/
def PositionState.extendChandelier (s : PositionState) (bar : Bar) : PositionState :=
  if s.bullish then { s with chandelierHigh := some (max (s.chandelierHigh.getD bar.high) bar.high) }
  else { s with chandelierLow := some (min (s.chandelierLow.getD bar.low) bar.low) }

def chandelierRatchet (bar : Bar) (s : PositionState) (actions : List Action) :
    Except PyError (PositionState × List Action) :=
  if s.tp1Hit && !s.closed && decide (s.barsHeld > 0) then
    let s := s.extendChandelier bar
    match chandelierStop s with
    | .error e => .error e
    | .ok trail =>
        let improved := (s.bullish && decide (trail > s.currentStop)) ||
          (!s.bullish && decide (trail < s.currentStop))
        if improved then
          .ok (s.setCurrentStop trail, actions ++ [.moveStop trail "chandelier_ratchet"])
        else .ok (s, actions)
  else .ok (s, actions)

/-- The body of `process_bar`, without its `@ensure`. -/
def processBarBody (state : PositionState) (bar : Bar) : Except PyError (PositionState × List Action) :=
  if state.closed then .ok (state, [.hold "already closed"])
  else
    let s := state.tick
    if stopHit bar.high bar.low s.currentStop s.bullish then
      .ok (s.close .stop, [.closeAll "initial_or_trail_stop_hit"])
    else if (s.barsHeld : ℚ) > s.timeStopCdMult * s.cdLegBars then
      .ok (s.close .timeStop, [.closeAll "time_stop"])
    else
      match tpLoop bar (tpTargets s) s [] with
      | .error e => .error e
      | .ok (s, actions) =>
          -- TP3 returns from inside the loop; the ratchet leaves a closed position alone.
          match chandelierRatchet bar s actions with
          | .error e => .error e
          | .ok (s, actions) =>
              .ok (s, if actions.isEmpty then [.hold "bar_no_event"] else actions)

def processBar (state : PositionState) (bar : Bar) : Except PyError (PositionState × List Action) :=
  match processBarBody state bar with
  | .error e => .error e
  | .ok (s, actions) =>
      if ¬ s.closed ∨ s.closeReason.isSome then .ok (s, actions)
      else .error (.violation "not result[0].closed or result[0].close_reason is not None")

end CryptoAggHarmonic.Position
