import MemoFlowApi.Concurrency.Program
import MemoFlowApi.Concurrency.Run
import MemoFlowApi.Concurrency.Typestate
import MemoFlowApi.Concurrency.Replay
import MemoFlowApi.Concurrency.View
import MemoFlowApi.Concurrency.Line
import MemoFlowApi.Concurrency.Sequential
import MemoFlowApi.Concurrency.Interleave
import MemoFlowApi.Lists.FirstByKey
import MemoFlowApi.Json
import MemoFlowApi.Planning.Job
import MemoFlowApi.Planning.Failures
import MemoFlowApi.Planning.Ports
import MemoFlowApi.Planning.Store
import MemoFlowApi.Planning.Pipeline
import MemoFlowApi.Planning.UseCases
import MemoFlowApi.Planning.Handlers
import MemoFlowApi.Planning.Effects
import MemoFlowApi.Planning.Roles
import MemoFlowApi.Planning.Conformance
import MemoFlowApi.Planning.Ownership
import MemoFlowApi.Planning.Lifecycle
import MemoFlowApi.Planning.Announcement
import MemoFlowApi.Planning.PlannerGate
import MemoFlowApi.Planning.Stranded
import MemoFlowApi.Planning.Transports
import MemoFlowApi.Planning.Passes
import MemoFlowApi.Planning.Redelivery
import MemoFlowApi.Planning.JobOrder
import MemoFlowApi.Planning.Assembly
import MemoFlowApi.Connectors.Connection
import MemoFlowApi.Connectors.Ports
import MemoFlowApi.Connectors.UseCases
import MemoFlowApi.Connectors.Effects
import MemoFlowApi.Connectors.Knowledge
import MemoFlowApi.Connectors.Reads
import MemoFlowApi.Connectors.TerminalStates
import MemoFlowApi.Connectors.Reports
import MemoFlowApi.Connectors.Replacement
import MemoFlowApi.Uuid
import MemoFlowApi.HttpError
import MemoFlowApi.Templates.Template
import MemoFlowApi.Documents.Section
import MemoFlowApi.Documents.Listing
import MemoFlowApi.Documents.Version
import MemoFlowApi.Documents.Ports
import MemoFlowApi.Documents.UseCases
import MemoFlowApi.Documents.Requests
import MemoFlowApi.Documents.SectionList
import MemoFlowApi.Documents.RoundTrip
import MemoFlowApi.Documents.Numbering
import MemoFlowApi.Calendar.Utc
import MemoFlowApi.Redis.Counters
import MemoFlowApi.Quota.RedisAiQuota
import MemoFlowApi.Quota.Limits
import MemoFlowApi.Concurrency.Sessions
import MemoFlowApi.Sql.Tables
import MemoFlowApi.Sql.Transactions
import MemoFlowApi.Templates.Ports
import MemoFlowApi.Templates.UseCases
import MemoFlowApi.Templates.Publishing
import MemoFlowApi.Templates.Audit
import MemoFlowApi.Gamification.Ports
import MemoFlowApi.Gamification.UseCases
import MemoFlowApi.Gamification.Stages
import MemoFlowApi.Gamification.Transactions
import MemoFlowApi.Gamification.Accounting
import MemoFlowApi.Js.Number
import MemoFlowApi.Js.Text
import MemoFlowApi.Js.Regex
import MemoFlowApi.Js.Scan
import MemoFlowApi.Prompts.Definitions
import MemoFlowApi.Prompts.Render
import MemoFlowApi.Prompts.Admission
import MemoFlowApi.Prompts.Guards
import MemoFlowApi.Prompts.FenceTags
import MemoFlowApi.Sources.Budget
import MemoFlowApi.Sources.Bounds
import MemoFlowApi.Sources.Cuts
import MemoFlowApi.Sources.Fence
import MemoFlowApi.Sources.Citations
import MemoFlowApi.Sources.CitationWords
import MemoFlowApi.Sources.Stretches
import MemoFlowApi.Sources.Nesting
import MemoFlowApi.Sources.Consistency
import MemoFlowApi.Sql.Select
import MemoFlowApi.Retrieval.SectionRetriever
import MemoFlowApi.Retrieval.Isolation
import MemoFlowApi.JsonSchema
import MemoFlowApi.Planning.ChunkContract
import MemoFlowApi.Gateway.Eviction
import MemoFlowApi.Leads.Consent
import MemoFlowApi.Leads.DueDates
import MemoFlowApi.Leads.Paging
import MemoFlowApi.Leads.Convergence
import MemoFlowApi.Leads.Recalculation
import MemoFlowApi.OpenRouter.Attempts
import MemoFlowApi.Suggestions.Reviews
import MemoFlowApi.Suggestions.Transparency
import MemoFlowApi.OpenRouter.Fences
import MemoFlowApi.Auth.LoginLimiter
import MemoFlowApi.Auth.LoginWindows
import MemoFlowApi.Auth.TokenStore
import MemoFlowApi.Auth.TokenPhases
import MemoFlowApi.Auth.TokenLocks
import MemoFlowApi.Auth.TokenRuns
import MemoFlowApi.Auth.Issuing
import MemoFlowApi.Auth.OneTime
import MemoFlowApi.Auth.Passwords
import MemoFlowApi.Auth.Superseded
import MemoFlowApi.Js.Promises
import MemoFlowApi.Amqp.JobChains
import MemoFlowApi.Amqp.Stages
import MemoFlowApi.Amqp.ChainOrder
import MemoFlowApi.Suggestions.Decisions
