import AetherGrid.Prog.Along
import AetherGrid.Store.Tenant
import AetherGrid.Service.Impl.Registry
import AetherGrid.Service.Impl.Outcome
import AetherGrid.ApiKey.Tenant

/-!
This module contains the routers over Postgres: what each route reads and writes for its caller, and how it
turns what a service returns or raises into a response.
-/

namespace AetherGrid

namespace PostgresNodeRepository

def list (env : Env) (db : DB) (tenantId : TenantId) : List Node :=
  env.nodeOrder.sort (db.nodes.rows.filter (·.tenantId = tenantId))

end PostgresNodeRepository

namespace PostgresJobRepository

def listQueued (env : Env) (db : DB) (tenantId : TenantId) : List Job :=
  env.jobOrder.sort (db.jobs.rows.filter (fun job => job.status = .queued ∧ job.tenantId = tenantId))

-- `ORDER BY submitted_at DESC LIMIT`
def listRecent (env : Env) (db : DB) (limit : Nat) (tenantId : TenantId) : List Job :=
  let jobs := env.jobOrder.sort (db.jobs.rows.filter (·.tenantId = tenantId))
  (jobs.insertionSort (fun a b => b.submittedAt ≤ a.submittedAt)).take limit

end PostgresJobRepository

namespace PostgresWorkerRepository

def list (env : Env) (db : DB) (tenantId : TenantId) : List Worker :=
  (env.workerOrder.sort (db.workers.rows.filter (·.tenantId = tenantId))).filterMap (toEntity env db)

end PostgresWorkerRepository

namespace PostgresEventRepository

def inOrder (order : RowOrder Event) (events : List Event) : List Event :=
  (order.sort events).insertionSort (fun a b => a.occurredAt ≤ b.occurredAt)

def list (order : RowOrder Event) (db : DB) (tenantId : TenantId) : List Event :=
  inOrder order (db.events.filter (·.tenantId = tenantId))

-- the aggregate is compared as the text it is stored as
def listByAggregate (order : RowOrder Event) (str : Nat → String) (db : DB) (aggregateId : String)
    (tenantId : TenantId) : List Event :=
  inOrder order
    (db.events.filter (fun event => str event.aggregateId.value = aggregateId ∧ event.tenantId = tenantId))

end PostgresEventRepository

namespace Http

structure JobResponse where
  id : JobId
  status : JobStatus
  resources : ResourceRequirements
  exitCode : Option Int
  submittedAt : Time
  startedAt : Option Time
  completedAt : Option Time
  deriving DecidableEq

def JobResponse.of (job : Job) : JobResponse where
  id := job.id
  status := job.status
  resources := job.resources
  exitCode := job.exitCode
  submittedAt := job.submittedAt
  startedAt := job.startedAt
  completedAt := job.completedAt

structure NodeResponse where
  id : NodeId
  capacity : ResourceRequirements
  available : ResourceRequirements
  isAlive : Bool
  isDraining : Bool
  deriving DecidableEq

def NodeResponse.of (node : Node) (now : Time) : NodeResponse where
  id := node.id
  capacity := node.capacity
  available := node.available
  isAlive := node.isAlive now
  isDraining := node.draining

structure RunningJobResponse where
  id : JobId
  status : JobStatus
  command : Option (List String)
  executionTimeout : Duration
  leaseId : Option LeaseId
  leaseAcquiredAt : Option Time
  leaseExpiresAt : Option Time
  deriving DecidableEq

structure WorkerResponse where
  id : WorkerId
  status : WorkerStatus
  nodeId : NodeId
  lastSeenAt : Time
  runningJob : Option RunningJobResponse
  deriving DecidableEq

def WorkerResponse.of (worker : Worker) (lease : Option Lease) : WorkerResponse where
  id := worker.id
  status := worker.status
  nodeId := worker.node.id
  lastSeenAt := worker.lastSeenAt
  runningJob := worker.runningJob.map fun job =>
    { id := job.id
      status := job.status
      command := job.command
      executionTimeout := job.executionTimeout
      leaseId := lease.map (·.id)
      leaseAcquiredAt := lease.map (·.acquiredAt)
      leaseExpiresAt := lease.map (·.expiresAt) }

structure WorkerSummaryResponse where
  id : WorkerId
  status : WorkerStatus
  nodeId : NodeId
  runningJobId : Option JobId
  lastSeenAt : Time
  deriving DecidableEq

def WorkerSummaryResponse.of (worker : Worker) : WorkerSummaryResponse where
  id := worker.id
  status := worker.status
  nodeId := worker.node.id
  runningJobId := worker.runningJob.map (·.id)
  lastSeenAt := worker.lastSeenAt

structure IssuedApiKeySummaryResponse where
  id : ApiKeyId
  label : String
  scopes : List String
  createdAt : Time
  revokedAt : Option Time
  deriving DecidableEq

def IssuedApiKeySummaryResponse.of (key : ApiKey) : IssuedApiKeySummaryResponse where
  id := key.id
  label := key.label
  scopes := key.scopes.mergeSort
  createdAt := key.createdAt
  revokedAt := key.revokedAt

inductive Detail where
  | text (message : String)
  | exception (e : Err)
  | keyException (e : ApiKeys.KeyErr)
  deriving DecidableEq

inductive Response where
  | jobCreated (id : JobId) (status : JobStatus)
  | job (job : JobResponse)
  | jobs (jobs : List JobResponse)
  | nodeCreated (id : NodeId)
  | node (node : NodeResponse)
  | nodes (nodes : List NodeResponse)
  | workerStatus (id : WorkerId) (status : WorkerStatus)
  | worker (worker : WorkerResponse)
  | workers (workers : List WorkerSummaryResponse)
  | events (events : List Event)
  | clusterHealth (totalNodes aliveNodes offlineNodes : Nat)
  | clusterResources (resources : ResourceRequirements)
  | apiKeyCreated (id : ApiKeyId) (label : String) (key : String)
  | issuedApiKeys (issued : List IssuedApiKeySummaryResponse)
  | noContent
  | failure (statusCode : Nat) (detail : Detail)
  | unprocessable
  | rateLimited (retryAfter : Nat)
  | internalServerError
  deriving DecidableEq

structure QueryEnv extends Env where
  eventOrder : RowOrder Event := .stored Event
  againFor : NodeId → Time := nowFor

inductive Handler where
  | service (program : Service Response)
  | query (answer : QueryEnv → DB → Response)
  | keyService (program : ApiKeys.KeyService Response)

def resourcesOf (cpuCores memoryMib vramMib : Int) : Option ResourceRequirements :=
  if cpuCores < 0 ∨ memoryMib < 0 ∨ vramMib < 0 then
    none
  else
    some ⟨cpuCores.toNat, memoryMib.toNat, vramMib.toNat⟩

section

variable (uuid : String → Option Nat) (str : Nat → String)

def withUuid (text : String) (otherwise : Response) (program : Nat → Service Response) : Service Response :=
  match uuid text with
  | none => return otherwise
  | some id => program id

namespace Jobs

structure CreateJobRequest where
  cpuCores : Int
  memoryMib : Int
  vramMib : Int
  command : Option (List String) := none

def CreateJobRequest.isValid (request : CreateJobRequest) : Bool :=
  0 < request.cpuCores && 0 < request.memoryMib && 0 ≤ request.vramMib
    && request.command.all fun command =>
      !command.isEmpty && command.all (fun part => !(ApiKeys.strip part).isEmpty)

def authorizeJobCreation (scopes : List String) (command : Option (List String))
    : Except ApiKeys.KeyErr Unit :=
  match command with
  | none => .ok ()
  | some _ =>
    if ApiKeys.jobsExecute ∉ scopes then .error (.scopeDenied ApiKeys.jobsExecute) else .ok ()

def createJob (caller : ApiKey) (request : Option CreateJobRequest) : Service Response :=
  match request.filter (·.isValid) with
  | none => return .unprocessable
  | some request =>
    match authorizeJobCreation caller.scopes request.command with
    | .error e => return .failure 403 (.keyException e)
    | .ok _ =>
      match resourcesOf request.cpuCores request.memoryMib request.vramMib with
      | none => return .internalServerError
      | some resources => do
        let job ← AetherGrid.createJob resources caller.tenantId request.command
        return .jobCreated job.id job.status

def maxJobsReturned : Nat := 50

def listJobs (caller : ApiKey) (env : QueryEnv) (db : DB) : Response :=
  .jobs ((PostgresJobRepository.listRecent env.toEnv db maxJobsReturned caller.tenantId).map JobResponse.of)

def listQueuedJobs (caller : ApiKey) (env : QueryEnv) (db : DB) : Response :=
  .jobs ((PostgresJobRepository.listQueued env.toEnv db caller.tenantId).map JobResponse.of)

def getJob (caller : ApiKey) (jobId : String) : Service Response :=
  withUuid uuid jobId .internalServerError fun id => do
    match ← JobRepository.getById ⟨id⟩ caller.tenantId with
    | none => return .failure 404 (.exception (.jobNotFound ⟨id⟩))
    | some job => return .job (JobResponse.of job)

def getJobHistory (caller : ApiKey) (jobId : String) (env : QueryEnv) (db : DB) : Response :=
  .events (PostgresEventRepository.listByAggregate env.eventOrder str db jobId caller.tenantId)

def found (job : Option Job) : Response :=
  match job with
  | none => .failure 404 (.text "Job not found.")
  | some job => .job (JobResponse.of job)

def cancelJob (caller : ApiKey) (jobId : String) : Service Response :=
  withUuid uuid jobId .internalServerError fun id =>
    (found <$> AetherGrid.cancelJob ⟨id⟩ caller.tenantId).catching fun e =>
      match e with
      | .invalidJobTransition _ => return .failure 409 (.exception e)
      | e => .raise e

def retryJob (caller : ApiKey) (jobId : String) : Service Response :=
  withUuid uuid jobId .internalServerError fun id =>
    found <$> AetherGrid.retryJob ⟨id⟩ caller.tenantId

end Jobs

namespace Nodes

structure CreateNodeRequest where
  cpuCores : Int
  memoryMib : Int
  vramMib : Int
  name : Option String := none

def createNode (caller : ApiKey) (request : Option CreateNodeRequest) : Service Response :=
  match request with
  | none => return .unprocessable
  | some request =>
    match resourcesOf request.cpuCores request.memoryMib request.vramMib with
    | none => return .internalServerError
    | some capacity => do
      let node ← AetherGrid.createNode capacity caller.tenantId request.name
      return .nodeCreated node.id

def listNodes (caller : ApiKey) (env : QueryEnv) (db : DB) : Response :=
  let nodes := PostgresNodeRepository.list env.toEnv db caller.tenantId
  .nodes (nodes.map (fun node => NodeResponse.of node (env.nowFor node.id)))

def listOfflineNodes (caller : ApiKey) (env : QueryEnv) (db : DB) : Response :=
  let nodes := PostgresNodeRepository.list env.toEnv db caller.tenantId
  let offline := nodes.filter (fun node => !node.isAlive (env.nowFor node.id))
  .nodes (offline.map (fun node => NodeResponse.of node (env.againFor node.id)))

def getNode (caller : ApiKey) (nodeId : String) : Service Response :=
  withUuid uuid nodeId .internalServerError fun id => do
    match ← NodeRepository.getById ⟨id⟩ caller.tenantId with
    | none => return .failure 404 (.text "Node not found.")
    | some node =>
      let now ← utcNow
      return .node (NodeResponse.of node now)

def heartbeatNode (caller : ApiKey) (nodeId : String) : Service Response :=
  withUuid uuid nodeId .internalServerError fun id => do
    match ← AetherGrid.heartbeatNode ⟨id⟩ caller.tenantId with
    | none => return .failure 404 (.text "Node not found.")
    | some node =>
      let now ← utcNow
      return .node (NodeResponse.of node now)

def drainNode (caller : ApiKey) (nodeId : String) : Service Response :=
  withUuid uuid nodeId .internalServerError fun id =>
    Prog.catching
      (do
        let node ← AetherGrid.drainNode ⟨id⟩ caller.tenantId
        let now ← utcNow
        return .node (NodeResponse.of node now))
      fun e =>
        match e with
        | .nodeNotFound _ => return .failure 404 (.exception e)
        | e => .raise e

def removeOfflineNode (caller : ApiKey) (nodeId : String) : Service Response :=
  withUuid uuid nodeId .internalServerError fun id =>
    ((fun _ => .noContent) <$> AetherGrid.removeOfflineNode ⟨id⟩ caller.tenantId).catching fun e =>
      match e with
      | .nodeNotFound _ => return .failure 404 (.exception e)
      | .nodeStillAlive _ => return .failure 409 (.exception e)
      | e => .raise e

end Nodes

namespace Workers

structure CreateWorkerRequest where
  nodeId : String
  managedBy : String := "DASHBOARD"

def workerManagement (value : String) : Option WorkerManagement :=
  match value with
  | "DASHBOARD" => some .dashboard
  | "AGENT" => some .agent
  | _ => none

def createWorker (caller : ApiKey) (request : Option CreateWorkerRequest) : Service Response :=
  match request with
  | none => return .unprocessable
  | some request =>
    withUuid uuid request.nodeId .internalServerError fun id => do
      match ← NodeRepository.getById ⟨id⟩ caller.tenantId with
      | none => return .failure 404 (.text "Node not found.")
      | some node =>
        match workerManagement request.managedBy with
        | none => return .internalServerError
        | some managedBy =>
          let worker ← AetherGrid.createWorker node managedBy
          let worker ← registerWorker worker
          return .workerStatus worker.id worker.status

def listWorkers (caller : ApiKey) (env : QueryEnv) (db : DB) : Response :=
  let workers := PostgresWorkerRepository.list env.toEnv db caller.tenantId
  let workers := workers.filter (fun worker => worker.node.tenantId = caller.tenantId)
  .workers (workers.map WorkerSummaryResponse.of)

def malformedWorkerId : Response :=
  .failure 422 (.text "Malformed worker id.")

def malformedJobId : Response :=
  .failure 422 (.text "Malformed job id.")

def workerNotFound : Response :=
  .failure 404 (.text "Worker not found.")

def findWorker (id : WorkerId) (tenantId : TenantId) : Service (Option Worker) := do
  match ← WorkerRepository.getById id tenantId with
  | none => return none
  | some worker => if worker.node.tenantId ≠ tenantId then return none else return some worker

def withLease (id : WorkerId) (tenantId : TenantId) (worker : Worker) : Service Response := do
  match worker.runningJob with
  | none => return .worker (WorkerResponse.of worker none)
  | some _ =>
    let lease ← LeaseRepository.getByWorkerId id tenantId
    return .worker (WorkerResponse.of worker lease)

def getWorker (caller : ApiKey) (workerId : String) : Service Response :=
  withUuid uuid workerId malformedWorkerId fun id => do
    match ← findWorker ⟨id⟩ caller.tenantId with
    | none => return workerNotFound
    | some worker => withLease ⟨id⟩ caller.tenantId worker

def answering {α : Type} (program : Service α) (failure : Err → Option Response)
    (next : α → Service Response) : Service Response := do
  let result : Response ⊕ α ← (Sum.inr <$> program).catching fun e =>
    match failure e with
    | none => .raise e
    | some response => return .inl response
  match result with
  | .inl response => return response
  | .inr a => next a

def startFailure (e : Err) : Option Response :=
  match e with
  | .workerNotFound _ => some (.failure 404 (.exception e))
  | .workerJobMismatch _ _ => some (.failure 409 (.exception e))
  | _ => none

def startJob (caller : ApiKey) (workerId jobId : String) : Service Response :=
  withUuid uuid workerId malformedWorkerId fun id =>
    withUuid uuid jobId malformedJobId fun jobId =>
      answering (AetherGrid.startJob ⟨id⟩ ⟨jobId⟩ caller.tenantId) startFailure
        (withLease ⟨id⟩ caller.tenantId)

structure ReportJobOutcomeRequest where
  exitCode : Option Int := none
  leaseId : LeaseId

def reportFailure (e : Err) : Option Response :=
  match e with
  | .workerNotFound _ => some (.failure 404 (.exception e))
  | .workerJobMismatch _ _ | .noActiveLease _ | .leaseNotFound _ => some (.failure 409 (.exception e))
  | _ => none

open ReportJobOutcome (Outcome)

def reportOutcome (outcome : Outcome) (caller : ApiKey) (workerId jobId : String)
    (request : Option ReportJobOutcomeRequest) : Service Response :=
  match request with
  | none => return .unprocessable
  | some request =>
    withUuid uuid workerId malformedWorkerId fun id =>
      withUuid uuid jobId malformedJobId fun jobId =>
        answering
          (ReportJobOutcome.report outcome ⟨id⟩ ⟨jobId⟩ caller.tenantId request.leaseId request.exitCode)
          reportFailure
          (fun worker => return .worker (WorkerResponse.of worker none))

def completeJob := reportOutcome uuid .complete
def failJob := reportOutcome uuid .fail
def confirmJobCancellation := reportOutcome uuid .cancel

def renewFailure (e : Err) : Option Response :=
  match e with
  | .noActiveLease _ | .leaseNotFound _ => some (.failure 409 (.exception e))
  | _ => none

def renewLease (caller : ApiKey) (workerId : String) (leaseId : Option LeaseId) : Service Response :=
  match leaseId with
  | none => return .unprocessable
  | some leaseId =>
    withUuid uuid workerId malformedWorkerId fun id => do
      match ← findWorker ⟨id⟩ caller.tenantId with
      | none => return workerNotFound
      | some worker =>
        answering (AetherGrid.renewLease ⟨id⟩ leaseId caller.tenantId) renewFailure
          (fun _ => withLease ⟨id⟩ caller.tenantId worker)

def heartbeatFailure (e : Err) : Option Response :=
  match e with
  | .workerNotFound _ => some workerNotFound
  | _ => none

def heartbeatWorker (caller : ApiKey) (workerId : String) : Service Response :=
  withUuid uuid workerId malformedWorkerId fun id =>
    answering (workerHeartbeat ⟨id⟩ caller.tenantId) heartbeatFailure
      (fun worker => return .workerStatus worker.id worker.status)

end Workers

namespace Events

def listEvents (caller : ApiKey) (env : QueryEnv) (db : DB) : Response :=
  .events (PostgresEventRepository.list env.eventOrder db caller.tenantId)

end Events

namespace Cluster

def getClusterHealth (caller : ApiKey) (env : QueryEnv) (db : DB) : Response :=
  let nodes := PostgresNodeRepository.list env.toEnv db caller.tenantId
  let aliveNodes := (nodes.filter (fun node => node.isAlive (env.nowFor node.id))).length
  .clusterHealth nodes.length aliveNodes (nodes.length - aliveNodes)

def getClusterCapacity (caller : ApiKey) (env : QueryEnv) (db : DB) : Response :=
  let nodes := PostgresNodeRepository.list env.toEnv db caller.tenantId
  .clusterResources (nodes.map (·.available)).sum

def getClusterUtilization (caller : ApiKey) (env : QueryEnv) (db : DB) : Response :=
  let nodes := PostgresNodeRepository.list env.toEnv db caller.tenantId
  .clusterResources (nodes.map (fun node => node.capacity - node.available)).sum

end Cluster

namespace ApiKeys

open AetherGrid.ApiKeys (KeyService KeyErr)

def keyFailure (e : KeyErr) : KeyService Response :=
  match e with
  | .apiKeyNotFound _ => return .failure 404 (.keyException e)
  | .scopeDenied _ => return .failure 403 (.keyException e)
  | e => .raise e

variable (hashSecret : String → String)

def createApiKey (caller : ApiKey) (label : Option String) : KeyService Response :=
  match label.filter (!·.isEmpty) with
  | none => return .unprocessable
  | some label =>
    match ApiKeys.authorizeKeyManagement caller.scopes with
    | .error e => return .failure 403 (.keyException e)
    | .ok _ => do
      let issued ← AetherGrid.ApiKeys.createApiKey hashSecret label [] (some caller)
      return .apiKeyCreated issued.id issued.label issued.plaintextKey

def revokeApiKey (caller : ApiKey) (apiKeyId : String) : KeyService Response :=
  match uuid apiKeyId with
  | none => return .internalServerError
  | some id =>
    ((fun _ => .noContent) <$> AetherGrid.ApiKeys.revokeApiKey ⟨id⟩ caller).catching keyFailure

def listIssuedApiKeys (caller : ApiKey) (apiKeyId : String) : KeyService Response :=
  match uuid apiKeyId with
  | none => return .internalServerError
  | some id =>
    ((fun issued => .issuedApiKeys (issued.map IssuedApiKeySummaryResponse.of)) <$>
      AetherGrid.ApiKeys.listIssuedApiKeys ⟨id⟩ caller).catching keyFailure

end ApiKeys

inductive Route where
  | createJob (request : Option Jobs.CreateJobRequest)
  | listJobs
  | listQueuedJobs
  | getJob (jobId : String)
  | getJobHistory (jobId : String)
  | cancelJob (jobId : String)
  | retryJob (jobId : String)
  | createNode (request : Option Nodes.CreateNodeRequest)
  | listNodes
  | listOfflineNodes
  | getNode (nodeId : String)
  | heartbeatNode (nodeId : String)
  | drainNode (nodeId : String)
  | removeOfflineNode (nodeId : String)
  | createWorker (request : Option Workers.CreateWorkerRequest)
  | listWorkers
  | getWorker (workerId : String)
  | startJob (workerId jobId : String)
  | completeJob (workerId jobId : String) (request : Option Workers.ReportJobOutcomeRequest)
  | failJob (workerId jobId : String) (request : Option Workers.ReportJobOutcomeRequest)
  | confirmJobCancellation (workerId jobId : String) (request : Option Workers.ReportJobOutcomeRequest)
  | renewLease (workerId : String) (leaseId : Option LeaseId)
  | heartbeatWorker (workerId : String)
  | listEvents
  | getClusterHealth
  | getClusterCapacity
  | getClusterUtilization
  | createApiKey (label : Option String)
  | revokeApiKey (apiKeyId : String)
  | listIssuedApiKeys (apiKeyId : String)

def Route.handler (hashSecret : String → String) (caller : ApiKey) (route : Route) : Handler :=
  match route with
  | .createJob request => .service (Jobs.createJob caller request)
  | .listJobs => .query (Jobs.listJobs caller)
  | .listQueuedJobs => .query (Jobs.listQueuedJobs caller)
  | .getJob jobId => .service (Jobs.getJob uuid caller jobId)
  | .getJobHistory jobId => .query (Jobs.getJobHistory str caller jobId)
  | .cancelJob jobId => .service (Jobs.cancelJob uuid caller jobId)
  | .retryJob jobId => .service (Jobs.retryJob uuid caller jobId)
  | .createNode request => .service (Nodes.createNode caller request)
  | .listNodes => .query (Nodes.listNodes caller)
  | .listOfflineNodes => .query (Nodes.listOfflineNodes caller)
  | .getNode nodeId => .service (Nodes.getNode uuid caller nodeId)
  | .heartbeatNode nodeId => .service (Nodes.heartbeatNode uuid caller nodeId)
  | .drainNode nodeId => .service (Nodes.drainNode uuid caller nodeId)
  | .removeOfflineNode nodeId => .service (Nodes.removeOfflineNode uuid caller nodeId)
  | .createWorker request => .service (Workers.createWorker uuid caller request)
  | .listWorkers => .query (Workers.listWorkers caller)
  | .getWorker workerId => .service (Workers.getWorker uuid caller workerId)
  | .startJob workerId jobId => .service (Workers.startJob uuid caller workerId jobId)
  | .completeJob workerId jobId request => .service (Workers.completeJob uuid caller workerId jobId request)
  | .failJob workerId jobId request => .service (Workers.failJob uuid caller workerId jobId request)
  | .confirmJobCancellation workerId jobId request =>
    .service (Workers.confirmJobCancellation uuid caller workerId jobId request)
  | .renewLease workerId leaseId => .service (Workers.renewLease uuid caller workerId leaseId)
  | .heartbeatWorker workerId => .service (Workers.heartbeatWorker uuid caller workerId)
  | .listEvents => .query (Events.listEvents caller)
  | .getClusterHealth => .query (Cluster.getClusterHealth caller)
  | .getClusterCapacity => .query (Cluster.getClusterCapacity caller)
  | .getClusterUtilization => .query (Cluster.getClusterUtilization caller)
  | .createApiKey label => .keyService (ApiKeys.createApiKey hashSecret caller label)
  | .revokeApiKey apiKeyId => .keyService (ApiKeys.revokeApiKey uuid caller apiKeyId)
  | .listIssuedApiKeys apiKeyId => .keyService (ApiKeys.listIssuedApiKeys uuid caller apiKeyId)

structure Stores where
  db : DB
  keys : ApiKeys.Store

structure Clock where
  authentication : Nat → ApiKeys.Env
  -- what the bucket of the caller says: the seconds until it has a token, if it has none
  retryAfter : Option Nat := none
  store : Nat → Env
  query : QueryEnv
  keys : Nat → ApiKeys.Env

def responseOf {ε : Type} (result : Except ε Response) : Response :=
  match result with
  | .ok response => response
  | .error _ => .internalServerError

open Prog in
def Handler.run (handler : Handler) (clock : Clock) (s : Stores) : Response × Stores :=
  match handler with
  | .service program =>
    let result := evalAlong postgres (fun _ => true) clock.store program s.db
    (responseOf result.1, { s with db := result.2 })
  | .query answer => (answer clock.query s.db, s)
  | .keyService program =>
    let result := evalAlong ApiKeys.postgres (fun _ => true) clock.keys program s.keys
    (responseOf result.1, { s with keys := result.2 })

structure Request where
  rawKey : String
  route : Route

def serve (hashSecret : String → String) (request : Request) (clock : Clock) (s : Stores)
    : Response × Stores :=
  let authenticated := Prog.evalAlong ApiKeys.postgres (fun _ => true) clock.authentication
    (ApiKeys.authenticate hashSecret request.rawKey) s.keys
  let s := { s with keys := authenticated.2 }
  match authenticated.1 with
  | .error (.invalidApiKey _) => (.failure 401 (.text "invalid or revoked credential"), s)
  | .error _ => (.internalServerError, s)
  | .ok caller =>
    match clock.retryAfter with
    | some seconds => (.rateLimited seconds, s)
    | none => (request.route.handler uuid str hashSecret caller).run clock s

end

end Http

end AetherGrid
