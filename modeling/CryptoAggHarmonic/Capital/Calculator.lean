import Mathlib.Algebra.Order.Field.Rat
import Mathlib.Algebra.Order.Floor.Ring
import Mathlib.Data.Rat.Floor
import CryptoAggHarmonic.Lib.Ladder
import CryptoAggHarmonic.Python.Text

/-!
# The unit of the capital

`lib/position/capital.ts`: the page stores in WU the capital that is typed in U.
-/

namespace CryptoAggHarmonic.Capital

def WU_UNIT : ℚ := 10000

def MIN_USEFUL_WU : ℚ := 1 / 100

inductive CapitalParseResult
  | ok (wu : ℚ) (warning : Option String)
  | rejected (reason : String)
  deriving DecidableEq

/-- `Math.round`, ties up -/
def mathRound (x : ℚ) : ℤ := ⌊x + 1 / 2⌋

def formatWuAsU (wu : ℚ) : String := toString (mathRound (wu * WU_UNIT))

/-- Of the finite number that `Number` reads. -/
def parseCapitalInput (num : ℚ) : CapitalParseResult :=
  if num ≤ 0 then .rejected "必须大于 0"
  else
    let wu := num / WU_UNIT
    if wu < MIN_USEFUL_WU then .ok wu (some "金额过小，分配将失去参考意义") else .ok wu none

/-!
# The position page

`lib/position/calculator.ts`, `defaults.ts`: the risk level of a planned trade, from the balances of the accounts.
-/

structure PositionConfig where
  totalCapitalWu : ℚ
  cutPositionWu : ℚ
  emergencyRatio : ℚ
  btcRatio : ℚ
  altcoinMaxRatio : ℚ
  midAccountRatio : ℚ
  smallAccountRatio : ℚ
  smallTradableRatio : ℚ

structure PositionBalance where
  emergencyWu : ℚ
  btcWu : ℚ
  midWu : ℚ
  smallTradableWu : ℚ
  smallReserveWu : ℚ
  cutPositionWu : ℚ

def defaultConfig : PositionConfig where
  totalCapitalWu := 10000
  cutPositionWu := 0
  emergencyRatio := 3 / 10
  btcRatio := 4 / 10
  altcoinMaxRatio := 15 / 100
  midAccountRatio := 25 / 100
  smallAccountRatio := 5 / 100
  smallTradableRatio := 14 / 100

/-- `Math.max(0, config.totalCapitalWu - config.cutPositionWu)` -/
def PositionConfig.regular (config : PositionConfig) : ℚ := max 0 (config.totalCapitalWu - config.cutPositionWu)

def createDefaultBalance (config : PositionConfig) : PositionBalance where
  emergencyWu := config.regular * config.emergencyRatio
  btcWu := config.regular * config.btcRatio
  midWu := config.regular * config.midAccountRatio
  smallTradableWu := config.regular * config.smallAccountRatio * config.smallTradableRatio
  smallReserveWu := config.regular * config.smallAccountRatio * (1 - config.smallTradableRatio)
  cutPositionWu := config.cutPositionWu

structure RiskLevel where
  level : ℕ
  label : String
  minWu : ℚ
  /-- `none` is `Infinity`. -/
  maxWu : Option ℚ
  trouble : String
  cooldown : String

def computeRiskLevels (_config : PositionConfig) (balance : PositionBalance) : List RiskLevel :=
  let st := max 0 balance.smallTradableWu
  let sr := max 0 (balance.smallTradableWu + balance.smallReserveWu)
  let mid := max sr (balance.smallTradableWu + balance.smallReserveWu + balance.midWu)
  let btc := max mid (balance.smallTradableWu + balance.smallReserveWu + balance.midWu + balance.btcWu)
  [{ level := 0, label := "0 级", minWu := 0, maxWu := some (st * (1 / 2)), trouble := "无额外麻烦",
     cooldown := "至少确认逻辑" },
   { level := 1, label := "1 级", minWu := st * (1 / 2), maxWu := some st, trouble := "消耗小账户可交易部分",
     cooldown := "冷静 30 分钟" },
   { level := 2, label := "2 级", minWu := st, maxWu := some sr, trouble := "触及小账户备用金",
     cooldown := "冷静 2 小时" },
   { level := 3, label := "3 级", minWu := sr, maxWu := some mid, trouble := "触及中账户",
     cooldown := "冷静 24 小时" },
   { level := 4, label := "4 级", minWu := mid, maxWu := some btc, trouble := "触及 BTC 趋势仓",
     cooldown := "冷静 1 周" },
   { level := 5, label := "5 级", minWu := btc, maxWu := none, trouble := "动用救命钱",
     cooldown := "原则上禁止" }]

/-- The loop over the levels, from the first of them. -/
def computeRiskLevel (config : PositionConfig) (balance : PositionBalance) (plannedTrade : ℚ) : RiskLevel :=
  match computeRiskLevels config balance with
  | [] => ⟨0, "", 0, none, "", ""⟩
  | first :: levels => Ladder.last (fun lvl => lvl.minWu ≤ plannedTrade) first (first :: levels)

/-! ## What if -/

inductive Account
  | emergency
  | btc
  | mid
  | smallTradable
  | smallReserve
  deriving DecidableEq

def PositionBalance.account (balance : PositionBalance) : Account → ℚ
  | .emergency => balance.emergencyWu
  | .btc => balance.btcWu
  | .mid => balance.midWu
  | .smallTradable => balance.smallTradableWu
  | .smallReserve => balance.smallReserveWu

/-- The variables of the simulation. -/
structure Draining where
  remaining : Account → ℚ
  consumed : Account → ℚ
  toConsume : ℚ

def drain (s : Draining) (key : Account) : Draining :=
  if s.toConsume ≤ 0 then s
  else
    let available := s.remaining key
    let take := min available s.toConsume
    { remaining := Function.update s.remaining key (available - take)
      consumed := Function.update s.consumed key take
      toConsume := s.toConsume - take }

/-- The order in which the accounts are drained. -/
def priority : List Account := [.smallTradable, .smallReserve, .mid, .btc, .emergency]

structure WhatIfResult where
  tradeWu : ℚ
  consumed : Account → ℚ
  remaining : Account → ℚ
  remainingTotalWu : ℚ
  touchesEmergency : Bool

def simulateWhatIf (_config : PositionConfig) (balance : PositionBalance) (tradeWu : ℚ) : WhatIfResult :=
  let s := priority.foldl drain { remaining := balance.account, consumed := fun _ => 0, toConsume := tradeWu }
  { tradeWu := tradeWu
    consumed := s.consumed
    remaining := s.remaining
    remainingTotalWu := s.remaining .emergency + s.remaining .btc + s.remaining .mid + s.remaining .smallTradable +
      s.remaining .smallReserve
    touchesEmergency := s.consumed .emergency > 0 }

/-!
# The assistant's position check

`PositionCheckTool._compute_risk`: the risk level of a planned trade, from the ratios of the saved config. Config and
balance are dictionaries, a field that is missing has its default.
-/

open Rounding

structure ConfigDict where
  totalCapitalWu : Option ℚ
  cutPositionWu : Option ℚ
  btcRatio : Option ℚ
  altcoinMaxRatio : Option ℚ
  smallAccountRatio : Option ℚ
  smallTradableRatio : Option ℚ

structure BalanceDict where
  smallTradableWu : Option ℚ

/-- What the page saves. -/
def PositionConfig.dict (config : PositionConfig) : ConfigDict where
  totalCapitalWu := some config.totalCapitalWu
  cutPositionWu := some config.cutPositionWu
  btcRatio := some config.btcRatio
  altcoinMaxRatio := some config.altcoinMaxRatio
  smallAccountRatio := some config.smallAccountRatio
  smallTradableRatio := some config.smallTradableRatio

def PositionBalance.dict (balance : PositionBalance) : BalanceDict := ⟨some balance.smallTradableWu⟩

structure Rung where
  level : ℕ
  threshold : ℚ
  trouble : String
  cooldown : String

structure Risk where
  riskLevel : ℕ
  riskLabel : String
  trouble : String
  cooldown : String
  availableWu : ℚ
  suggestion : String

/-- `levels` -/
def rungs (smallTradable smallAccount altLimit btcTrend regular : ℚ) : List Rung :=
  [⟨0, smallTradable, "无额外麻烦", "至少确认逻辑"⟩, ⟨1, smallAccount, "需划转小账户备用", "暂停 5 分钟"⟩,
    ⟨2, altLimit, "换账户 / 换手机", "暂停 15 分钟"⟩, ⟨3, btcTrend, "必须回家电脑操作", "隔夜复盘"⟩,
    ⟨4, regular, "再次从理财资管划转", "原则上禁止"⟩]

def suggestionFor (riskLevel : ℕ) (trouble cooldown : String) (available : ℚ) : String :=
  if riskLevel = 0 then "计划金额在风控可接受范围内，当前小账户可交易额度约 " ++ fmtFixed 2 available ++ " WU。"
  else if riskLevel < 5 then
    "触发 " ++ toString riskLevel ++ " 级风控，需跨越：" ++ trouble ++ "。建议 " ++ cooldown ++ "。"
  else "计划金额超过常规管理资金，建议减少仓位或重新配置资金。"

def computeRisk (config : ConfigDict) (balance : BalanceDict) (planned : ℚ) : Risk :=
  let regular := max 0 (config.totalCapitalWu.getD 0 - config.cutPositionWu.getD 0)
  if regular ≤ 0 then
    { riskLevel := 5, riskLabel := "5 级", trouble := "常规管理资金为零", cooldown := "禁止", availableWu := 0
      suggestion := "常规管理资金不足，请检查总资金与切割仓位设置。" }
  else
    let btcTrend := regular * config.btcRatio.getD (1 / 2)
    let altLimit := regular * config.altcoinMaxRatio.getD (2 / 10)
    let smallAccount := altLimit * config.smallAccountRatio.getD (5 / 100)
    let smallTradable := smallAccount * config.smallTradableRatio.getD (7 / 10)
    let available := balance.smallTradableWu.getD smallTradable
    let found := (rungs smallTradable smallAccount altLimit btcTrend regular).find? fun r => planned ≤ r.threshold
    let riskLevel := (found.map Rung.level).getD 5
    let trouble := (found.map Rung.trouble).getD "无法覆盖"
    let cooldown := (found.map Rung.cooldown).getD "禁止"
    { riskLevel, riskLabel := toString riskLevel ++ " 级", trouble, cooldown, availableWu := roundTo 2 available
      suggestion := suggestionFor riskLevel trouble cooldown available }

end CryptoAggHarmonic.Capital
