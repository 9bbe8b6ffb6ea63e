import Contender.Campaign.Config
import Contender.Campaign.RateShares
import Contender.Campaign.Resolution
import Contender.Campaign.RunCampaign
import Contender.Campaign.StageRates
import Contender.Cli.AutoFunding
import Contender.Cli.BuiltinPlaceholders
import Contender.Cli.BuiltinScenarios
import Contender.Cli.Erc20
import Contender.Cli.FillBlock
import Contender.Cli.FunctionCalls
import Contender.Cli.FundAccounts
import Contender.Cli.FundConfirmations
import Contender.Cli.FundDeadlock
import Contender.Cli.ParseDuration
import Contender.Cli.PoolFunding
import Contender.Cli.ReclaimEth
import Contender.Cli.UniV2
import Contender.Data.AssocMap
import Contender.Data.Bars
import Contender.Data.Broadcast
import Contender.Data.Chunks
import Contender.Data.FindByKey
import Contender.Data.Hex
import Contender.Data.Histogram
import Contender.Data.Journal
import Contender.Data.Json
import Contender.Data.KeyedChain
import Contender.Data.Leveling
import Contender.Data.OrderedMap
import Contender.Data.Pairings
import Contender.Data.Places
import Contender.Data.Polling
import Contender.Data.Quantiles
import Contender.Data.Replacement
import Contender.Data.Spending
import Contender.Data.Splitting
import Contender.Data.SqlText
import Contender.Data.StableSort
import Contender.Data.Tally
import Contender.Data.Text
import Contender.Data.Traverse
import Contender.Data.Trimming
import Contender.Engine.AdvanceChain
import Contender.Engine.AuthProvider
import Contender.Engine.ReplayChain
import Contender.Engine.ValidPayload
import Contender.Generator.AgentPools
import Contender.Generator.Authorizations
import Contender.Generator.CallValues
import Contender.Generator.CreateDef
import Contender.Generator.CreatePlan
import Contender.Generator.FunctionDef
import Contender.Generator.FuzzBounds
import Contender.Generator.FuzzValues
import Contender.Generator.FuzzedAddresses
import Contender.Generator.LoadTxs
import Contender.Generator.PlaceholderGroups
import Contender.Generator.PlaceholderOrder
import Contender.Generator.PlaceholderScan
import Contender.Generator.PlaceholderScope
import Contender.Generator.RandSeed
import Contender.Generator.RoundRequests
import Contender.Generator.ScenarioKeys
import Contender.Generator.SeedFile
import Contender.Generator.SetupNonces
import Contender.Generator.SetupOrder
import Contender.Generator.SetupPlan
import Contender.Generator.SetupSchedule
import Contender.Generator.SignerStore
import Contender.Generator.SpamLayout
import Contender.Generator.SpecialPlaceholders
import Contender.Generator.StepCoverage
import Contender.Generator.Templater
import Contender.Orchestrator.CancelTokens
import Contender.Orchestrator.CancelledRuns
import Contender.Orchestrator.RunCompletion
import Contender.Primitives
import Contender.Protocol.NestedBorrowing
import Contender.Protocol.WriteBehind
import Contender.Report.BlockStatistics
import Contender.Report.Campaign
import Contender.Report.Command
import Contender.Report.Heatmap
import Contender.Report.InclusionCharts
import Contender.Report.Latency
import Contender.Report.LatencyChart
import Contender.Report.PendingTxs
import Contender.Report.TxGasUsed
import Contender.Scenario.BatchCollection
import Contender.Scenario.BatchNonces
import Contender.Scenario.BatchOutcomes
import Contender.Scenario.DeferredBatch
import Contender.Scenario.DeployContracts
import Contender.Scenario.DispatchOrder
import Contender.Scenario.DumpTxCache
import Contender.Scenario.ExecuteSpam
import Contender.Scenario.FailedPreparation
import Contender.Scenario.FundSigners
import Contender.Scenario.GasAdder
import Contender.Scenario.GasBumps
import Contender.Scenario.GasLimits
import Contender.Scenario.Metadata
import Contender.Scenario.NonceRealignment
import Contender.Scenario.NonceTracking
import Contender.Scenario.PendingBatch
import Contender.Scenario.PrepareSpam
import Contender.Scenario.Requests
import Contender.Scenario.RunSetup
import Contender.Scenario.SenderOverride
import Contender.Scenario.SpamCost
import Contender.Scenario.SyncNonces
import Contender.Scenario.TxCallbacks
import Contender.Semantics.Cancellation
import Contender.Semantics.Effect
import Contender.Semantics.Execution
import Contender.Semantics.Progress
import Contender.Server.LogRouting
import Contender.Server.LogStreams
import Contender.Server.Sessions
import Contender.Server.SpamLifecycle
import Contender.Server.TokenRecipients
import Contender.Spammer.ActorLifetime
import Contender.Spammer.BlockCoverage
import Contender.Spammer.BlockReceipts
import Contender.Spammer.Draining
import Contender.Spammer.FlashblockMarks
import Contender.Spammer.FlushLoop
import Contender.Spammer.FlushMoves
import Contender.Spammer.FlushPotential
import Contender.Spammer.Recording
import Contender.Spammer.Representation
import Contender.Spammer.RowOrigins
import Contender.Spammer.RunAttribution
import Contender.Spammer.Simulation
import Contender.Spammer.SpamRpc
import Contender.Spammer.StaleBlocks
import Contender.Spammer.StaleExit
import Contender.Spammer.System
import Contender.Spammer.TxActor
import Contender.Spammer.WellFormed
import Contender.Sqlite.Database
import Contender.Sqlite.NamedTxs
import Contender.Sqlite.Pool
import Contender.Sqlite.RunTxs
import Contender.Sqlite.Runs
