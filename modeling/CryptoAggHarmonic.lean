import CryptoAggHarmonic.Alipay.Theorems
import CryptoAggHarmonic.Analyze.Theorems
import CryptoAggHarmonic.Backtest.Theorems
import CryptoAggHarmonic.Bench.Theorems
import CryptoAggHarmonic.Capital.Sessions
import CryptoAggHarmonic.Capital.Theorems
import CryptoAggHarmonic.Engine.Independence
import CryptoAggHarmonic.Engine.Theorems
import CryptoAggHarmonic.Engine.Symmetry
import CryptoAggHarmonic.Forming.Theorems
import CryptoAggHarmonic.FtStrategy.Isolation
import CryptoAggHarmonic.FtStrategy.Lemmas.Publish
import CryptoAggHarmonic.Freqtrade.Translator
import CryptoAggHarmonic.FtStrategy.Theorems
import CryptoAggHarmonic.Harness.Theorems
import CryptoAggHarmonic.Infra.FuturesSymbols
import CryptoAggHarmonic.Infra.NotificationPrefs
import CryptoAggHarmonic.Infra.Theorems
import CryptoAggHarmonic.Invites.Theorems
import CryptoAggHarmonic.Journal.Outbox
import CryptoAggHarmonic.Loop.Confinement
import CryptoAggHarmonic.Loop.Review
import CryptoAggHarmonic.Loop.Handover
import CryptoAggHarmonic.Loop.Search
import CryptoAggHarmonic.Loop.Theorems
import CryptoAggHarmonic.Loop.WalkForward
import CryptoAggHarmonic.LoopTools.Theorems
import CryptoAggHarmonic.Okx.Theorems
import CryptoAggHarmonic.Position.Theorems
import CryptoAggHarmonic.Quota.Theorems
import CryptoAggHarmonic.RateLimit.Theorems
import CryptoAggHarmonic.RsiPlan.Theorems
import CryptoAggHarmonic.RsiTrend.Theorems
import CryptoAggHarmonic.Scan.Theorems
import CryptoAggHarmonic.Vibe.Chat
import CryptoAggHarmonic.Vibe.Theorems
import CryptoAggHarmonic.Vibe.ToolCalls
import CryptoAggHarmonic.WalkForward.RollUp
import CryptoAggHarmonic.WalkForward.Theorems
import CryptoAggHarmonic.Watchlist.Page
import CryptoAggHarmonic.Domain.Theorems
