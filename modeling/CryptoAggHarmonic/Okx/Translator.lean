import CryptoAggHarmonic.Domain.Signals
import CryptoAggHarmonic.Lib.OrientedOrder

/-!
# The order of a signal

`app/services/okx/translator.py`: the parameters of a spot order with its attached closing orders, and what makes them a
bracket.
-/

namespace CryptoAggHarmonic.Okx

open Domain Rounding
open Oriented (Lt Le)

inductive Side
  | buy
  | sell
  deriving DecidableEq, Repr

inductive OrdType
  | market
  | limit
  | postOnly
  | fok
  | ioc
  deriving DecidableEq, Repr

/-- The numbers are texts. -/
structure OKXOrderParams where
  instId : String
  side : Side
  ordType : OrdType
  sz : String
  px : Option (List Char) := none
  clOrdId : String
  tpTriggerPx : Option (List Char) := none
  tpOrdPx : Option (List Char) := none
  slTriggerPx : Option (List Char) := none
  slOrdPx : Option (List Char) := none
  deriving DecidableEq, Repr

/-- The ways to a `ValueError`, with what its text shows. -/
inductive Refusal
  | missingPrices (entry exit stop : Option ℚ)
  | confidence (confidence : ℚ)
  | regime (regime : Option String)
  | unknownMode (mode : Mode)
  deriving DecidableEq, Repr

/-- `f"{x:.8f}".rstrip("0").rstrip(".")` -/
def priceText (x : ℚ) : List Char := pyRstrip '.' (pyRstrip '0' (fmtFixed 8 x).toList)

/-- `hex` is the part of the order id that is drawn at random. -/
def translatePattern (hex : String) (signal : HarmonicSignal) : Except Refusal OKXOrderParams :=
  match signal.entryPrice, signal.exitPrice, signal.stopLoss with
  | some entryPrice, some exitPrice, some stopLoss => .ok
      { instId := signal.instrument
        side := .buy
        ordType := .limit
        sz := "0"
        px := some (priceText entryPrice)
        clOrdId := "OKX-LOOP-" ++ hex
        tpTriggerPx := some (priceText exitPrice)
        tpOrdPx := some (priceText (exitPrice * 0.999))
        slTriggerPx := some (priceText stopLoss)
        slOrdPx := some (priceText (stopLoss * 1.001)) }
  | _, _, _ => .error (.missingPrices signal.entryPrice signal.exitPrice signal.stopLoss)

def translateIndicator (hex : String) (signal : HarmonicSignal) : Except Refusal OKXOrderParams :=
  if signal.confidence < 0.5 then .error (.confidence signal.confidence) else translatePattern hex signal

def translateRegime (hex : String) (signal : HarmonicSignal) : Except Refusal OKXOrderParams :=
  if signal.regime ∉ [some "bullish", some "bearish", some "ranging"] then .error (.regime signal.regime)
  else do
    let order ← translatePattern hex signal
    return if signal.regime = some "bearish" then { order with side := .sell } else order

def translate (hex : String) (signal : HarmonicSignal) (mode : Mode) : Except Refusal OKXOrderParams :=
  match mode with
  | .pattern => translatePattern hex signal
  | .indicator => translateIndicator hex signal
  | .regime => translateRegime hex signal
  | .unknown _ => .error (.unknownMode mode)

/-! ## The bracket -/

/-- The stop, the price and the target in the order of the side, and each closing limit not beyond its trigger, so that it
fills. -/
structure Bracket (up : Bool) (px tpTriggerPx tpOrdPx slTriggerPx slOrdPx : ℚ) : Prop where
  stop : Lt up slTriggerPx px
  target : Lt up px tpTriggerPx
  tpFills : Le up tpOrdPx tpTriggerPx
  slFills : Le up slOrdPx slTriggerPx

/-- The prices as the exchange reads them. -/
def Coherent (order : OKXOrderParams) : Prop :=
  ∃ px tp tpOrd sl slOrd, order.px = some px ∧ order.tpTriggerPx = some tp ∧ order.tpOrdPx = some tpOrd ∧
    order.slTriggerPx = some sl ∧ order.slOrdPx = some slOrd ∧
    Bracket (order.side = .buy) (readDecimal px) (readDecimal tp) (readDecimal tpOrd) (readDecimal sl)
      (readDecimal slOrd)

/-- Every order that the translation returns is a bracket. -/
def Brackets (signal : HarmonicSignal) (mode : Mode) : Prop :=
  ∀ hex order, translate hex signal mode = .ok order → Coherent order

/-! ## The condition -/

/-- No order is made of the signal. -/
def Refused (signal : HarmonicSignal) (mode : Mode) : Prop :=
  signal.entryPrice = none ∨ signal.exitPrice = none ∨ signal.stopLoss = none ∨
    match mode with
    | .pattern => False
    | .indicator => signal.confidence < 0.5
    | .regime => signal.regime ∉ [some "bullish", some "bearish", some "ranging"]
    | .unknown _ => True

def sideOf (signal : HarmonicSignal) (mode : Mode) : Side :=
  if mode = .regime ∧ signal.regime = some "bearish" then .sell else .buy

/-- The levels in the order of the side at eight decimals, and the price that is moved to the wrong side of its trigger so
small that eight decimals do not show it. -/
structure Fits (signal : HarmonicSignal) (side : Side) : Prop where
  levels : ∀ entry ∈ signal.entryPrice, ∀ exit ∈ signal.exitPrice, ∀ stop ∈ signal.stopLoss,
    Lt (side = .buy) (roundTo 8 stop) (roundTo 8 entry) ∧ Lt (side = .buy) (roundTo 8 entry) (roundTo 8 exit)
  stop : side = .buy → ∀ stop ∈ signal.stopLoss, roundTo 8 (stop * 1.001) = roundTo 8 stop
  exit : side = .sell → ∀ exit ∈ signal.exitPrice, roundTo 8 (exit * 0.999) = roundTo 8 exit

end CryptoAggHarmonic.Okx
