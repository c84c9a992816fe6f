import Veryfront.Lib.OrdMap
import Veryfront.Lib.Runs
import Veryfront.Lib.ListUpdate
import Veryfront.Lib.Split
import Veryfront.Lib.Table
import Veryfront.Workflow.Types
import Veryfront.Workflow.Backend.Retention
import Veryfront.Workflow.Backend.MailboxSafety
import Veryfront.Workflow.Backend.Approvals
import Veryfront.Workflow.Backend.TerminalRetention
import Veryfront.Workflow.Backend.RetentionListing
import Veryfront.Workflow.Dag.Graph
import Veryfront.Workflow.Dag.Cycles
import Veryfront.Workflow.Dag.ContextPatch
import Veryfront.Workflow.Dag.Batch
import Veryfront.Workflow.Dag.Executor
import Veryfront.Workflow.Dag.Safety
import Veryfront.Workflow.Dag.RetryBudget
import Veryfront.Workflow.Runtime.Claim
import Veryfront.Workflow.Dsl.Namespacing
import Veryfront.Workflow.Dsl.OutputView
import Veryfront.Cache.DependencyFresh
import Veryfront.Security.AddressBlocks
import Veryfront.Security.EgressAdmission
import Veryfront.Lib.Cidr
import Veryfront.Cache.MultiTierSafety
import Veryfront.Cache.MemoryBackendSafety
import Veryfront.Cache.ImmutableL1Safety
import Veryfront.Provider.ProviderSseLines
import Veryfront.Chat.AgUiDecoderChunks
import Veryfront.Chat.ToolPairMoves
import Veryfront.Chat.ToolPairRepair
import Veryfront.Lib.JsonGrammar
import Veryfront.Lib.LinkedList
import Veryfront.Lib.Priority
import Veryfront.Utils.PermitSemaphore
import Veryfront.Routing.MatcherAgreement
import Veryfront.Utils.GlobLanguage
import Veryfront.Utils.LruCacheSafety
import Veryfront.Routing.StandardPatterns
import Veryfront.Agent.Conversation.AppendSafety
import Veryfront.Agent.Conversation.RunMirrorSafety
import Veryfront.Agent.Conversation.RunEventEncoder
import Veryfront.Agent.Conversation.ReasoningIdentity
import Veryfront.Agent.Conversation.LegacyReadContent
import Veryfront.Agent.AgUi.Bracketing
import Veryfront.Agent.AgUi.ToolCalls
import Veryfront.Agent.AgUi.FinishRecapture
import Veryfront.Agent.AgUi.FinishMetadata
import Veryfront.Agent.AgUi.FinishBudget
import Veryfront.Agent.Streaming.Handoff
import Veryfront.Agent.Streaming.TerminalResults
import Veryfront.Agent.Streaming.ToolInputDeltas
import Veryfront.Agent.Streaming.Deadlines
import Veryfront.Agent.Streaming.Lifecycle
import Veryfront.Agent.Streaming.LifecycleSafety
import Veryfront.Cache.DiskFrameRoundTrip
import Veryfront.Chat.ToolPairSafety
import Veryfront.Utils.LruCache
import Veryfront.Security.GuardedEgressFetch
import Veryfront.Security.RedirectChains
import Veryfront.Proxy.RoutingInvalidationRedis
import Veryfront.Proxy.RoutingConvergence
import Veryfront.Proxy.ResilientCache
import Veryfront.Proxy.ResilientCacheSafety
import Veryfront.Proxy.TokenManager
import Veryfront.Proxy.TokenManagerSafety
import Veryfront.Transforms.SourceSpans
import Veryfront.Agent.Streaming.MirroredToolSafety
import Veryfront.Agent.Streaming.DeadlineAccounting
import Veryfront.Schedule.CronNormalForm
import Veryfront.Config.FingerprintFrames
import Veryfront.Agent.Middleware.RateLimitSafety
import Veryfront.Security.SocksRoundTrip
import Veryfront.Sync.IgnoreCheckerSafety
import Veryfront.Transforms.LiteralDecoding
import Veryfront.Sync.GitIgnoreRouting
import Veryfront.Config.SnapshotBounds
import Veryfront.Workflow.Dag.OwnerPaths
import Veryfront.Utils.EnvLoaderUntainted
import Veryfront.Security.AuthEnvelopes
import Veryfront.Workflow.Backend.QueueOrder
import Veryfront.Workflow.Backend.Leases
