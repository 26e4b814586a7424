import CryptoAggHarmonic.Domain.Signals
import CryptoAggHarmonic.Lib.OrientedOrder
import Mathlib.Order.Interval.Set.Defs
import Mathlib.Tactic.FieldSimp
import Mathlib.Tactic.Linarith
import Mathlib.Tactic.Ring

/-!
# The strategy of a signal

`app/services/freqtrade/translator.py` in its pattern mode. The source is a program text; what is modelled is the class
that it defines, with its attributes and its methods.
-/

namespace CryptoAggHarmonic.Freqtrade

open Domain
open Oriented (Lt)

structure TranslatorConfig where
  timeframe : String := "1h"
  stakeAmount : ℚ := 100
  dryRun : Bool := true
  canShort : Bool := false
  trailingStop : Bool := false
  stoploss : ℚ := -0.10
  deriving DecidableEq, Repr

/-- The class that is written out. -/
structure Strategy where
  name : List Char
  timeframe : String
  stoploss : ℚ
  trailingStop : Bool
  canShort : Bool
  dryRun : Bool
  minimalRoi : List (String × ℚ) := [("0", 0.05), ("30", 0.03), ("60", 0.01)]
  entryPrice : ℚ
  tp1Price : ℚ
  stopPrice : ℚ
  zrpc : ℚ
  zrpcTolPct : ℚ
  direction : Direction
  confidence : ℚ
  deriving DecidableEq, Repr

/-- The `ValueError` for a level that is missing, with what its text shows. -/
structure MissingLevels where
  entry : Option ℚ
  exit : Option ℚ
  stop : Option ℚ
  deriving DecidableEq, Repr

def translatePattern (signal : HarmonicSignal) (config : TranslatorConfig) : Except MissingLevels Strategy :=
  match signal.entryPrice, signal.exitPrice, signal.stopLoss with
  | some entryPrice, some exitPrice, some stopLoss =>
      let zrpc := signal.zrpcPrice.getD entryPrice
      .ok
        { name := "Harmonic".toList ++ signal.patternType.toList.filter (· ≠ ' ') ++
            config.timeframe.toList.filter (· ≠ '/')
          timeframe := config.timeframe
          stoploss := config.stoploss
          trailingStop := config.trailingStop
          canShort := config.canShort
          dryRun := config.dryRun
          entryPrice := entryPrice
          tp1Price := exitPrice
          stopPrice := stopLoss
          zrpc := zrpc
          zrpcTolPct := 0.005
          direction := if entryPrice ≥ zrpc then .long else .short
          confidence := signal.confidence }
  | _, _, _ => .error ⟨signal.entryPrice, signal.exitPrice, signal.stopLoss⟩

/-! ## The methods of the class -/

namespace Strategy

/-- `in_zrpc_band`; a close of 0 gives an infinity or a NaN. -/
def inZrpcBand (self : Strategy) (close : ℚ) : Bool :=
  close ≠ 0 ∧ |(close - self.zrpc) / close| ≤ self.zrpcTolPct

/-- `zrpc_touch`: in the band, and not on the bar before. -/
def zrpcTouch (self : Strategy) (closes : List ℚ) : List Bool :=
  let bands := closes.map self.inZrpcBand
  List.zipWith (fun inBand prevIn => inBand && !prevIn) bands (false :: bands)

structure EntryFlags where
  enterLong : Bool := false
  enterShort : Bool := false
  deriving DecidableEq, Repr

def populateEntryTrend (self : Strategy) (closes : List ℚ) : List EntryFlags :=
  (self.zrpcTouch closes).map fun touch =>
    match self.direction with
    | .long => { enterLong := touch }
    | .short => { enterShort := touch }

structure ExitFlags where
  exitLong : Bool := false
  exitShort : Bool := false
  deriving DecidableEq, Repr

def populateExitTrend (self : Strategy) (closes : List ℚ) : List ExitFlags :=
  closes.map fun close =>
    match self.direction with
    | .long => { exitLong := close ≥ self.tp1Price }
    | .short => { exitShort := close ≤ self.tp1Price }

def customStoploss (self : Strategy) (currentRate : ℚ) : ℚ :=
  if currentRate ≤ 0 then self.stoploss
  else max ((self.stopPrice - currentRate) / currentRate) self.stoploss

end Strategy

/-! ## What the class runs under -/

/-- The engine that runs the strategy: where a stop is placed, by the value that `custom_stoploss` returns. It documents
this for values that are not positive. -/
structure StopRule where
  placed : Direction → ℚ → ℚ → ℚ
  long : ∀ rate value, value ≤ 0 → placed .long rate value = rate * (1 + value)
  short : ∀ rate value, value ≤ 0 → placed .short rate value = rate * (1 - value)

/-- The characters that go on a name, by the language's table for those outside ASCII. -/
def identifierChar (xidContinue : Char → Bool) (c : Char) : Bool :=
  if c.toNat < 128 then c.isAlphanum || c == '_' else xidContinue c

/-- The text has the class in it: its name, which starts with a letter, is one. Otherwise it is no program. -/
def Loads (xidContinue : Char → Bool) (strategy : Strategy) : Prop := strategy.name.all (identifierChar xidContinue)

/-- The levels of a signal in the order of its direction. -/
structure Levels (signal : HarmonicSignal) (direction : Direction) (entry exit stop : ℚ) : Prop where
  entryPrice : signal.entryPrice = some entry
  exitPrice : signal.exitPrice = some exit
  stopLoss : signal.stopLoss = some stop
  risk : Lt (direction = .long) stop entry
  reward : Lt (direction = .long) entry exit

/-- The share of the rate that a trade loses at the stop. -/
def lossAt (direction : Direction) (rate stop : ℚ) : ℚ :=
  match direction with
  | .long => (rate - stop) / rate
  | .short => (stop - rate) / rate

/-- The strategy trades the direction, and at this rate its stop is where it belongs. -/
structure Preserves (ft : StopRule) (xidContinue : Char → Bool) (config : TranslatorConfig) (direction : Direction)
    (stop rate : ℚ) (strategy : Strategy) : Prop where
  loads : Loads xidContinue strategy
  side : strategy.direction = direction
  enters : ∀ closes, ∀ flags ∈ strategy.populateEntryTrend closes,
    (flags.enterLong = true → direction = .long) ∧ (flags.enterShort = true → direction = .short)
  shorting : direction = .short → strategy.canShort = true
  range : strategy.customStoploss rate ∈ Set.Icc config.stoploss 0
  placed : 0 < rate → lossAt direction rate stop ∈ Set.Icc 0 (-config.stoploss) →
    ft.placed direction rate (strategy.customStoploss rate) = stop

/-- The condition: the texts make a name, the zone lies on the side of the entry that the code takes for the direction,
and the price has not passed the stop of a long and has passed the one of a short. -/
structure Meets (xidContinue : Char → Bool) (signal : HarmonicSignal) (config : TranslatorConfig)
    (direction : Direction) (entry stop rate : ℚ) : Prop where
  pattern : ∀ c ∈ signal.patternType.toList, c = ' ' ∨ identifierChar xidContinue c = true
  timeframe : ∀ c ∈ config.timeframe.toList, c = '/' ∨ identifierChar xidContinue c = true
  long : direction = .long → ∀ zrpc ∈ signal.zrpcPrice, zrpc ≤ entry
  short : direction = .short → config.canShort = true ∧ ∃ zrpc ∈ signal.zrpcPrice, entry < zrpc
  stoploss : config.stoploss ≤ 0
  rate : rate ≤ 0 ∨ stop ≤ rate

/-! ## What is kept of a signal -/

variable {ft : StopRule} {xidContinue : Char → Bool} {signal : HarmonicSignal} {config : TranslatorConfig}
  {direction : Direction} {strategy : Strategy} {entry exit stop rate : ℚ}

/-- What is written out for a signal with its levels. -/
theorem translatePattern_of_levels (config : TranslatorConfig) (h : Levels signal direction entry exit stop) :
    ∃ strategy, translatePattern signal config = .ok strategy ∧
      strategy.name = "Harmonic".toList ++ signal.patternType.toList.filter (· ≠ ' ') ++
        config.timeframe.toList.filter (· ≠ '/') ∧
      strategy.stoploss = config.stoploss ∧ strategy.canShort = config.canShort ∧ strategy.stopPrice = stop ∧
      strategy.direction = if entry ≥ signal.zrpcPrice.getD entry then .long else .short := by
  unfold translatePattern
  rw [h.entryPrice, h.exitPrice, h.stopLoss]
  exact ⟨_, rfl, rfl, rfl, rfl, rfl, rfl⟩

theorem loads_iff (hname : strategy.name = "Harmonic".toList ++ signal.patternType.toList.filter (· ≠ ' ') ++
      config.timeframe.toList.filter (· ≠ '/')) :
    Loads xidContinue strategy ↔
      (∀ c ∈ signal.patternType.toList, c = ' ' ∨ identifierChar xidContinue c = true) ∧
        ∀ c ∈ config.timeframe.toList, c = '/' ∨ identifierChar xidContinue c = true := by
  have hletters : "Harmonic".toList.all (identifierChar xidContinue) = true := rfl
  rw [Loads, hname, List.all_append, List.all_append, hletters, Bool.true_and, Bool.and_eq_true, List.all_eq_true,
    List.all_eq_true]
  simp only [List.mem_filter, decide_eq_true_eq, and_imp, or_iff_not_imp_left]

/-- The strategy enters on its own side. -/
theorem enters_side (closes : List ℚ) {flags : Strategy.EntryFlags} (h : flags ∈ strategy.populateEntryTrend closes) :
    (flags.enterLong = true → strategy.direction = .long) ∧
      (flags.enterShort = true → strategy.direction = .short) := by
  obtain ⟨touch, -, rfl⟩ := List.mem_map.mp h
  cases strategy.direction <;> simp

/-- The side that the code takes is that of the levels. -/
theorem side_iff : (if entry ≥ signal.zrpcPrice.getD entry then Direction.long else .short) = direction ↔
    (direction = .long → ∀ zrpc ∈ signal.zrpcPrice, zrpc ≤ entry) ∧
      (direction = .short → ∃ zrpc ∈ signal.zrpcPrice, entry < zrpc) := by
  cases signal.zrpcPrice with
  | none => cases direction <;> simp
  | some zrpc => cases direction <;> simp

theorem range_iff : (if rate ≤ 0 then config.stoploss else max ((stop - rate) / rate) config.stoploss) ∈
    Set.Icc config.stoploss 0 ↔ config.stoploss ≤ 0 ∧ (rate ≤ 0 ∨ stop ≤ rate) := by
  split_ifs with hrate
  · simp [hrate]
  · have hpos := not_le.mp hrate
    rw [Set.mem_Icc, max_le_iff, div_nonpos_iff]
    simp [hrate, hpos, hpos.le, and_comm]

/-- A stop that the price has not passed is placed at its level. -/
theorem placed_stop (hpos : 0 < rate) (hstop : stop ≤ rate) (hstoploss : config.stoploss ≤ 0)
    (hwithin : lossAt direction rate stop ∈ Set.Icc 0 (-config.stoploss)) :
    ft.placed direction rate (max ((stop - rate) / rate) config.stoploss) = stop := by
  have hnonpos : (stop - rate) / rate ≤ 0 := div_nonpos_of_nonpos_of_nonneg (sub_nonpos.mpr hstop) hpos.le
  have hmax : max ((stop - rate) / rate) config.stoploss ≤ 0 := max_le hnonpos hstoploss
  cases direction with
  | long =>
      have hloss : (stop - rate) / rate = -((rate - stop) / rate) := by ring
      have hle : config.stoploss ≤ (stop - rate) / rate := by
        have hwithin : (rate - stop) / rate ≤ -config.stoploss := hwithin.2
        rw [hloss]
        linarith
      rw [ft.long rate _ hmax, max_eq_left hle]
      field_simp
      ring
  | short =>
      -- the loss at the stop is not negative where the rate has not passed it: the two are the same
      have hzero : (stop - rate) / rate = 0 := le_antisymm hnonpos hwithin.1
      rw [ft.short rate _ hmax, hzero, max_eq_left hstoploss, sub_zero, mul_one]
      exact (sub_eq_zero.mp ((div_eq_zero_iff.mp hzero).resolve_right hpos.ne')).symm

/-- **The direction** and the stop of the strategy that is written out for a signal. -/
theorem preserves_iff (ft : StopRule) (xidContinue : Char → Bool) (signal : HarmonicSignal)
    (config : TranslatorConfig) (direction : Direction) (entry exit stop rate : ℚ)
    (h : Levels signal direction entry exit stop) :
    (∃ strategy, translatePattern signal config = .ok strategy ∧
      Preserves ft xidContinue config direction stop rate strategy) ↔
        Meets xidContinue signal config direction entry stop rate := by
  obtain ⟨strategy, hstrategy, hname, hstoploss, hshort, hstop, hside⟩ := translatePattern_of_levels config h
  have hcustom : strategy.customStoploss rate =
      if rate ≤ 0 then config.stoploss else max ((stop - rate) / rate) config.stoploss := by
    rw [Strategy.customStoploss, hstoploss, hstop]
  constructor
  · rintro ⟨strategy', hstrategy', hpreserves⟩
    rw [hstrategy, Except.ok.injEq] at hstrategy'
    subst hstrategy'
    obtain ⟨hpattern, htimeframe⟩ := (loads_iff hname).mp hpreserves.loads
    obtain ⟨hlong, hshort'⟩ := side_iff.mp (hside ▸ hpreserves.side)
    obtain ⟨hmax, hrate⟩ := range_iff.mp (hcustom ▸ hpreserves.range)
    exact ⟨hpattern, htimeframe, hlong, fun hs => ⟨hshort ▸ hpreserves.shorting hs, hshort' hs⟩, hmax, hrate⟩
  · intro hmeets
    have hdirection : strategy.direction = direction :=
      hside.trans (side_iff.mpr ⟨hmeets.long, fun hs => (hmeets.short hs).2⟩)
    refine ⟨strategy, hstrategy, (loads_iff hname).mpr ⟨hmeets.pattern, hmeets.timeframe⟩, hdirection,
      fun closes flags hflags => hdirection ▸ enters_side closes hflags, fun hs => hshort ▸ (hmeets.short hs).1,
      hcustom ▸ range_iff.mpr ⟨hmeets.stoploss, hmeets.rate⟩, fun hpos hwithin => ?_⟩
    rw [hcustom, if_neg (not_le.mpr hpos)]
    exact placed_stop hpos (hmeets.rate.resolve_left (not_le.mpr hpos)) hmeets.stoploss hwithin

/-- The documented rule, for every value. -/
def documentedStop : StopRule where
  placed direction rate value :=
    match direction with
    | .long => rate * (1 + value)
    | .short => rate * (1 - value)
  long _ _ _ := rfl
  short _ _ _ := rfl

def gartleyLong : HarmonicSignal where
  patternType := "Gartley"
  entryPrice := some 100
  exitPrice := some 110
  stopLoss := some 95

theorem gartleyLong_preserved : ∃ strategy, translatePattern gartleyLong {} = .ok strategy ∧
    Preserves documentedStop (fun _ => false) {} .long 95 100 strategy := by
  have hpattern : gartleyLong.patternType.toList.all (identifierChar fun _ => false) = true := rfl
  have htimeframe : "1h".toList.all (identifierChar fun _ => false) = true := rfl
  refine (preserves_iff documentedStop (fun _ => false) gartleyLong {} .long 100 110 95 100
    ⟨rfl, rfl, rfl, by decide +kernel, by decide +kernel⟩).mpr ⟨?_, ?_, ?_, by simp, by decide +kernel, ?_⟩
  · exact fun c hc => Or.inr (List.all_eq_true.mp hpattern c hc)
  · exact fun c hc => Or.inr (List.all_eq_true.mp htimeframe c hc)
  · rintro - zrpc hzrpc
    cases hzrpc
  · exact Or.inr (by norm_num)

/-- A long whose zone lies above its entry. -/
def batLong : HarmonicSignal where
  patternType := "Bat"
  entryPrice := some 50000
  exitPrice := some 51000
  stopLoss := some 49500
  zrpcPrice := some 50200

/-- It is written out as a short, with shorting switched off. -/
theorem batLong_turned : ¬ ∀ ft xidContinue signal config direction entry exit stop rate,
    Levels signal direction entry exit stop → ∃ strategy, translatePattern signal config = .ok strategy ∧
      Preserves ft xidContinue config direction stop rate strategy := by
  intro h
  obtain ⟨strategy, hstrategy, hpreserves⟩ := h documentedStop (fun _ => false) batLong {} .long 50000 51000 49500 50000
    ⟨rfl, rfl, rfl, by decide +kernel, by decide +kernel⟩
  obtain ⟨strategy', hstrategy', -, -, -, -, hside⟩ := translatePattern_of_levels {}
    (⟨rfl, rfl, rfl, by decide +kernel, by decide +kernel⟩ : Levels batLong .long 50000 51000 49500)
  rw [hstrategy, Except.ok.injEq] at hstrategy'
  rw [← hstrategy', hpreserves.side] at hside
  exact absurd hside (by decide +kernel)

end CryptoAggHarmonic.Freqtrade
