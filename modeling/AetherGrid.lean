import AetherGrid.Service.Impl.Registry
import AetherGrid.Service.Impl.Scheduling
import AetherGrid.Service.Impl.Outcome
import AetherGrid.Service.Impl.Reconciliation
import AetherGrid.Domain.Lemmas
import AetherGrid.Store.Rules
import AetherGrid.Store.Lawful
import AetherGrid.Table.Sum
import AetherGrid.Cluster.Invariant
import AetherGrid.Cluster.Moves
import AetherGrid.Cluster.Handover
import AetherGrid.Store.Reads
import AetherGrid.Service.Lemmas.Lease
import AetherGrid.Service.Lemmas.Registry
import AetherGrid.Service.Lemmas.Outcome
import AetherGrid.Service.Lemmas.Execution
import AetherGrid.Service.Lemmas.Reconciliation
import AetherGrid.Service.Lemmas.Scheduling
import AetherGrid.Cluster.System
import AetherGrid.Cluster.Safety
import AetherGrid.Service.Lemmas.Tick
import AetherGrid.Service.Lemmas.DeadWorkers
import AetherGrid.Prog.Pool
import AetherGrid.Cluster.Concurrent
import AetherGrid.Cluster.Fencing
import AetherGrid.Cluster.Settlement
import AetherGrid.Cluster.Finality
import AetherGrid.Cluster.Assignments
import AetherGrid.Cluster.Lifecycle
import AetherGrid.Cluster.Messages
import AetherGrid.Prog.Trace
import AetherGrid.Cluster.Registration
import AetherGrid.Cluster.Renewal
import AetherGrid.Cluster.LateWorker
import AetherGrid.Cluster.Crash
import AetherGrid.Cluster.Executions
import AetherGrid.Cluster.Isolation
import AetherGrid.Domain.BestFit
import AetherGrid.Domain.Commands
import AetherGrid.Cluster.Recovery
import AetherGrid.Cluster.DroppedOutcome
import AetherGrid.Store.InMemoryLease
import AetherGrid.Migration.RequireTenant
import AetherGrid.Migration.Plan
import AetherGrid.Migration.Runner
import AetherGrid.ApiKey.Basic
import AetherGrid.ApiKey.Revocation
import AetherGrid.Wiring.Objects
import AetherGrid.Wiring.RefusedReport
import AetherGrid.Cluster.NodeBooks
import AetherGrid.Cluster.LostUpdate
import AetherGrid.Prog.Along
import AetherGrid.Store.Tenant
import AetherGrid.ApiKey.Tenant
import AetherGrid.Http.Routes
import AetherGrid.Domain.Fields
import AetherGrid.Agent.Lease
import AetherGrid.RateLimit.Bucket
import AetherGrid.RateLimit.Service
import AetherGrid.Prog.Keeps
import AetherGrid.Http.Confinement
import AetherGrid.Http.Isolation
import AetherGrid.Prog.Guarded
import AetherGrid.ResilientClient.Breaker
import AetherGrid.ResilientClient.Config
import AetherGrid.ResilientClient.Request
import AetherGrid.ResilientClient.Classification
import AetherGrid.ResilientClient.Token
import AetherGrid.Dashboard.AsyncResource
import AetherGrid.Civil.Datetime
import AetherGrid.Civil.Double
import AetherGrid.Civil.Timedelta
import AetherGrid.Store.SqliteJob
import AetherGrid.Csv.Reader
import AetherGrid.Rehearsal.Snapshot
import AetherGrid.Leadership.Election
import AetherGrid.Leadership.Stages
import AetherGrid.Leadership.Invariant
import AetherGrid.Leadership.Exclusion
import AetherGrid.JobExecution.Host
import AetherGrid.JobExecution.Supervision
import AetherGrid.JobExecution.Deadline
import AetherGrid.Http.ClusterStats
