import ForgeFlow.Base.GoString
import ForgeFlow.Base.KeyMap
import ForgeFlow.Base.Checks
import ForgeFlow.Base.Acyclic
import ForgeFlow.Base.Context
import ForgeFlow.Base.Lines
import ForgeFlow.Base.Prog
import ForgeFlow.Base.Sha256
import ForgeFlow.Base.Precedence
import ForgeFlow.Base.Greedy
import ForgeFlow.Base.Transition
import ForgeFlow.Base.Machine
import ForgeFlow.Base.Counting
import ForgeFlow.Workflow.Definition
import ForgeFlow.Workflow.Graph
import ForgeFlow.Workflow.Topology
import ForgeFlow.Workflow.Validation
import ForgeFlow.Workflow.LeastOrder
import ForgeFlow.Security.Model
import ForgeFlow.Security.RateLimit
import ForgeFlow.Execution.Run
import ForgeFlow.Execution.Reliability
import ForgeFlow.Execution.Store
import ForgeFlow.Execution.Operations
import ForgeFlow.Execution.TaskMoves
import ForgeFlow.Execution.History
import ForgeFlow.Execution.Validity
import ForgeFlow.Execution.Deadlines
import ForgeFlow.Execution.AttemptLimits
import ForgeFlow.Execution.Times
import ForgeFlow.Execution.Errors
import ForgeFlow.Execution.Broker
import ForgeFlow.Execution.Scheduler
import ForgeFlow.Execution.System
import ForgeFlow.Execution.Attempts
import ForgeFlow.Execution.Ledger
import ForgeFlow.Execution.Books
import ForgeFlow.Execution.Rounds
import ForgeFlow.Execution.Events
import ForgeFlow.Execution.Entry
import ForgeFlow.Execution.Plan
import ForgeFlow.Execution.Interleaving
import ForgeFlow.Execution.Conduct
import ForgeFlow.Execution.Handling
import ForgeFlow.Execution.Boarding
import ForgeFlow.Execution.Saves
import ForgeFlow.Execution.Staff
import ForgeFlow.Execution.Consistency
import ForgeFlow.Execution.Guarantees
import ForgeFlow.Execution.Conducted
import ForgeFlow.Execution.FailedRuns
import ForgeFlow.Execution.Renewals
import ForgeFlow.Execution.Concurrency
import ForgeFlow.Execution.EndedRuns
import ForgeFlow.Execution.Contexts
import ForgeFlow.Broker.Memory
import ForgeFlow.Broker.Invariants
import ForgeFlow.Broker.Receivers
import ForgeFlow.Execution.Transport
import ForgeFlow.Persistence.FileStore
import ForgeFlow.Persistence.Replay
import ForgeFlow.Persistence.Text
import ForgeFlow.Persistence.Journal
import ForgeFlow.Persistence.Encoding
import ForgeFlow.Persistence.Keys
import ForgeFlow.Persistence.References
import ForgeFlow.Persistence.Postgres
import ForgeFlow.Persistence.PostgresWorkflows
import ForgeFlow.Persistence.Resave
import ForgeFlow.Persistence.Agreement
import ForgeFlow.Api.Responses
import ForgeFlow.Api.Members
import ForgeFlow.Api.RunEvents
import ForgeFlow.Api.EventChannels
import ForgeFlow.Api.EventDelivery
import ForgeFlow.Api.EventLog
import ForgeFlow.Api.RunningGauge
import ForgeFlow.Api.Server
import ForgeFlow.Api.Isolation
import ForgeFlow.Api.Acceptance
import ForgeFlow.Api.Concealment
import ForgeFlow.Api.Disclosure
import ForgeFlow.Api.AuditTrail
import ForgeFlow.Api.Management
