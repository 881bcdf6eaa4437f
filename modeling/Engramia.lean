import Engramia.Library.Run
import Engramia.Library.Relation
import Engramia.Library.Register
import Engramia.Library.KeyedTable
import Engramia.Library.Lists
import Engramia.Library.Whitespace
import Engramia.Library.ReadModifyWrite
import Engramia.Core.Stores
import Engramia.Billing.Plans
import Engramia.Billing.Enforcement
import Engramia.Billing.Store
import Engramia.Billing.Subscription
import Engramia.Billing.Metering
import Engramia.Billing.Webhook
import Engramia.Billing.Committed
import Engramia.Billing.Admin
import Engramia.Billing.Dunning
import Engramia.Billing.DunningRun
import Engramia.Billing.Effects
import Engramia.Billing.Delivery
import Engramia.Billing.AdminPlan
import Engramia.Billing.TenantView
import Engramia.Billing.Onboarding
import Engramia.Billing.Order
import Engramia.Billing.Overage
import Engramia.Billing.OverageRun
import Engramia.Jobs.Service
import Engramia.Jobs.Holding
import Engramia.Jobs.Dispatch
import Engramia.Jobs.Finished
import Engramia.Evaluation.Tools
import Engramia.Evaluation.Paths
import Engramia.Library.OrderedDict
import Engramia.Library.CacheAside
import Engramia.Credentials.Store
import Engramia.Credentials.Providers
import Engramia.Credentials.Routes
import Engramia.Credentials.Coherence
import Engramia.Credentials.Rotation
import Engramia.Credentials.ResolverRace
import Engramia.Credentials.RoleMeter
import Engramia.Credentials.CostCeiling
import Engramia.Credentials.Slots
import Engramia.Credentials.Lifecycle
import Engramia.Credentials.Unambiguous
import Engramia.Library.Versions
import Engramia.Credentials.Precondition
import Engramia.Keys.Permissions
import Engramia.Keys.Store
import Engramia.Keys.Routes
import Engramia.Keys.Escalation
import Engramia.Keys.RevocationRace
import Engramia.Library.Lineage
import Engramia.Library.Tally
import Engramia.Library.Expiry
import Engramia.Library.Json
import Engramia.Library.FileNames
import Engramia.AdminAuth.Sessions
import Engramia.AdminAuth.RefreshRace
import Engramia.AdminAuth.Totp
import Engramia.AdminAuth.Freshness
import Engramia.AdminAuth.Lockout
import Engramia.Mcp.TierGate
import Engramia.Mcp.Handler
import Engramia.Mcp.Tools
import Engramia.Mcp.Tenancy
import Engramia.CloudAuth.Tokens
import Engramia.CloudAuth.Revocation
import Engramia.CloudAuth.Registration
import Engramia.Pilots.Decision
import Engramia.Library.FileTree
import Engramia.Library.FileView
import Engramia.Library.Noninterference
import Engramia.Storage.AtomicWrite
import Engramia.Storage.Isolation
import Engramia.Storage.KeyMap
import Engramia.Storage.MemoryRows
import Engramia.Storage.Reachable
import Engramia.Storage.DeleteLoop
import Engramia.Storage.DeleteScope
import Engramia.Storage.DeleteExact
import Engramia.Library.Like
import Engramia.Storage.Backend
import Engramia.Storage.PostgresStore
import Engramia.Evaluation.Concurrency
import Engramia.Governance.Erasure
import Engramia.Governance.ErasureComplete
import Engramia.Governance.ErasureFlows
import Engramia.Governance.Retention
import Engramia.Governance.RetentionLaw
import Engramia.Governance.Export
import Engramia.Library.Net
import Engramia.Patterns.Dedup
import Engramia.Patterns.Persisted
import Engramia.Patterns.Quota
import Engramia.Patterns.QuotaRun
import Engramia.Patterns.Classification
import Engramia.Patterns.EvalHistory
import Engramia.Patterns.Forgetting
import Engramia.Jobs.Retry
import Engramia.Library.Rounding
import Engramia.Library.ContextRun
import Engramia.Evaluation.MultiEval
import Engramia.Evaluation.FeedbackDecay
import Engramia.Patterns.Aging
import Engramia.Credentials.Failover
import Engramia.Library.UnionFind
import Engramia.Recall.Grouping
import Engramia.Library.Ranking
import Engramia.Recall.Order
import Engramia.Recall.PlainPath
import Engramia.Recall.Limit
import Engramia.Recall.Parts
import Engramia.Recall.Pages
import Engramia.Recall.PageRuns
import Engramia.Library.JsonText
import Engramia.Library.JsonFrames
import Engramia.Llm.Extraction
import Engramia.Composition.Contracts
import Engramia.Composition.Composer
import Engramia.Evolution.PromptEvolver
import Engramia.Patterns.EvalLog
import Engramia.Evaluation.Timing
import Engramia.Patterns.AgingCompletes
import Engramia.Patterns.RoundTrip
import Engramia.Recall.Boosts
import Engramia.Library.DbStamp
import Engramia.Jobs.Backoff
import Engramia.Jobs.ExecutionLimit
import Engramia.Library.Percentile
import Engramia.Analytics.Rollup
import Engramia.Analytics.Windows
import Engramia.Api.RateLimit
import Engramia.Evaluation.FeedbackStore
import Engramia.Library.LeaderClusters
import Engramia.Evolution.FailureClusters
import Engramia.Billing.OverageSettings
import Engramia.Library.Regex
import Engramia.Library.RegexCount
import Engramia.Library.Insertions
import Engramia.Library.Placeholder
import Engramia.Governance.AuditLog
import Engramia.Governance.ScrubPatterns
import Engramia.Governance.AuditScrub
import Engramia.Governance.RegexRules
import Engramia.Governance.RegexRedaction
import Engramia.Patterns.BulkQuota
import Engramia.Credentials.CostRounding
import Engramia.Library.Double
import Engramia.Api.AdminCleanup
import Engramia.Library.Recency
import Engramia.Credentials.ResolverCache
import Engramia.Governance.Dsr
import Engramia.Library.Captures
import Engramia.Telemetry.LogRedaction
import Engramia.Telemetry.LogFilter
import Engramia.Credentials.Sealing
import Engramia.Credentials.Substitution
import Engramia.Credentials.Migration
import Engramia.Library.PartialIndex
import Engramia.Library.Ledger
import Engramia.Pilots.Waitlist
import Engramia.Credentials.VaultSession
import Engramia.Library.JsonDump
import Engramia.Library.Lines
import Engramia.Governance.Backup
import Engramia.Governance.BackupDownload
import Engramia.Api.Oidc
import Engramia.Api.AuthGate
