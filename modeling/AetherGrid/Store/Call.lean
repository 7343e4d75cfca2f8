import AetherGrid.Prog.Basic
import AetherGrid.Store.Basic

/-!
This module contains the calls a service makes: one constructor for each repository method, and the
readings of the clock and of `uuid4`.
-/

namespace AetherGrid

namespace PostgresEventRepository

def save (db : DB) (event : Event) : Except Err DB :=
  if (db.jobs.get? event.aggregateId).any (·.tenantId = event.tenantId) then
    .ok { db with events := db.events ++ [event] }
  else
    .error (.foreignKeyViolation "events_job_same_tenant")

end PostgresEventRepository

inductive Call where
  | utcNow
  | utcNowFor
  | uuid4
  | generateNodeName (id : NodeId)
  | saveNode (node : Node)
  | getNode (id : NodeId) (tenant : TenantId)
  | deleteNode (id : NodeId) (tenant : TenantId)
  | listNodes
  | listAvailableNodes
  | saveJob (job : Job)
  | getJob (id : JobId) (tenant : TenantId)
  | listJobs
  | saveWorker (worker : Worker)
  | getWorker (id : WorkerId) (tenant : TenantId)
  | getWorkerAcrossTenants (id : WorkerId)
  | getWorkerByNode (node : NodeId) (tenant : TenantId)
  | listWorkers
  | saveLease (lease : Lease)
  | renewLease (id : LeaseId) (duration : Duration) (tenant : TenantId)
  | getLeaseByJob (job : JobId) (tenant : TenantId)
  | getLeaseByWorker (worker : WorkerId) (tenant : TenantId)
  | listLeases
  | deleteLease (job : JobId) (tenant : TenantId)
  | deleteLeaseIfExpired (job : JobId) (tenant : TenantId)
  | saveEvent (job : JobId) (tenant : TenantId) (type : EventType)

abbrev Call.Res (c : Call) : Type :=
  match c with
  | .utcNow => Time
  | .utcNowFor => NodeId → Time
  | .uuid4 => Nat
  | .generateNodeName _ => String
  | .saveNode _ => Except Err Unit
  | .getNode _ _ => Option Node
  | .deleteNode _ _ => Unit
  | .listNodes => List Node
  | .listAvailableNodes => List Node
  | .saveJob _ => Except Err Unit
  | .getJob _ _ => Option Job
  | .listJobs => List Job
  | .saveWorker _ => Except Err Unit
  | .getWorker _ _ => Option Worker
  | .getWorkerAcrossTenants _ => Option Worker
  | .getWorkerByNode _ _ => Option Worker
  | .listWorkers => List Worker
  | .saveLease _ => Except Err Unit
  | .renewLease _ _ _ => Except Err Unit
  | .getLeaseByJob _ _ => Option Lease
  | .getLeaseByWorker _ _ => Option Lease
  | .listLeases => List Lease
  | .deleteLease _ _ => Unit
  | .deleteLeaseIfExpired _ _ => Bool
  | .saveEvent _ _ _ => Except Err Unit

abbrev signature : Signature where
  Call := Call
  Res := Call.Res

def commit (db : DB) (r : Except Err DB) : Except Err Unit × DB :=
  match r with
  | .ok db' => (.ok (), db')
  | .error e => (.error e, db)

def Call.exec (c : Call) (env : Env) (db : DB) : c.Res × DB :=
  match c with
  | .utcNow => (env.now, db)
  | .utcNowFor => (env.nowFor, db)
  | .uuid4 => (db.nextId, { db with nextId := db.nextId + 1 })
  | .generateNodeName id => (env.nodeName id, db)
  | .saveNode node => commit db (PostgresNodeRepository.save db node)
  | .getNode id tenant => (PostgresNodeRepository.getById db id tenant, db)
  | .deleteNode id tenant => ((), PostgresNodeRepository.delete db id tenant)
  | .listNodes => (PostgresNodeRepository.listAcrossTenants env db, db)
  | .listAvailableNodes => (PostgresNodeRepository.listAvailableAcrossTenants env db, db)
  | .saveJob job => commit db (PostgresJobRepository.save db job)
  | .getJob id tenant => (PostgresJobRepository.getById db id tenant, db)
  | .listJobs => (PostgresJobRepository.listAcrossTenants env db, db)
  | .saveWorker worker => commit db (PostgresWorkerRepository.save db worker)
  | .getWorker id tenant => (PostgresWorkerRepository.getById env db id tenant, db)
  | .getWorkerAcrossTenants id => (PostgresWorkerRepository.getByIdAcrossTenants env db id, db)
  | .getWorkerByNode node tenant => (PostgresWorkerRepository.getByNodeId env db node tenant, db)
  | .listWorkers => (PostgresWorkerRepository.listAcrossTenants env db, db)
  | .saveLease lease => commit db (PostgresLeaseRepository.save db lease)
  | .renewLease id duration tenant =>
    commit db (PostgresLeaseRepository.renew env db id duration tenant)
  | .getLeaseByJob job tenant => (PostgresLeaseRepository.getByJobId db job tenant, db)
  | .getLeaseByWorker worker tenant => (PostgresLeaseRepository.getByWorkerId db worker tenant, db)
  | .listLeases => (PostgresLeaseRepository.listAcrossTenants env db, db)
  | .deleteLease job tenant => ((), PostgresLeaseRepository.delete db job tenant)
  | .deleteLeaseIfExpired job tenant => PostgresLeaseRepository.deleteIfExpired env db job tenant
  | .saveEvent job tenant type =>
    -- the event takes its identifier and its time when it is built, right before the call
    let event := ⟨db.nextId, job, type, tenant, env.now⟩
    commit db (PostgresEventRepository.save { db with nextId := db.nextId + 1 } event)

abbrev postgres : Machine signature DB Env where
  exec := Call.exec

abbrev Service := Prog signature Err

@[simp]
def utcNow : Service Time := Prog.perform (S := signature) .utcNow

@[simp]
def utcNowFor : Service (NodeId → Time) := Prog.perform (S := signature) .utcNowFor

@[simp]
def uuid4 : Service Nat := Prog.perform (S := signature) .uuid4

@[simp]
def generateNodeName (id : NodeId) : Service String :=
  Prog.perform (S := signature) (.generateNodeName id)

def runCommand {σ α : Type} (command : EStateM Err σ α) (entity : σ) : Service (α × σ) :=
  match command.run entity with
  | .ok a entity => .ret (a, entity)
  | .error e _ => .raise e

namespace NodeRepository

def save (node : Node) : Service Unit :=
  .call (S := signature) (.saveNode node) Prog.ofExcept

@[simp]
def getById (id : NodeId) (tenant : TenantId) : Service (Option Node) :=
  Prog.perform (S := signature) (.getNode id tenant)

@[simp]
def delete (id : NodeId) (tenant : TenantId) : Service Unit :=
  Prog.perform (S := signature) (.deleteNode id tenant)

@[simp]
def listAcrossTenants : Service (List Node) :=
  Prog.perform (S := signature) .listNodes

@[simp]
def listAvailableAcrossTenants : Service (List Node) :=
  Prog.perform (S := signature) .listAvailableNodes

end NodeRepository

namespace JobRepository

def save (job : Job) : Service Unit :=
  .call (S := signature) (.saveJob job) Prog.ofExcept

@[simp]
def getById (id : JobId) (tenant : TenantId) : Service (Option Job) :=
  Prog.perform (S := signature) (.getJob id tenant)

@[simp]
def listAcrossTenants : Service (List Job) :=
  Prog.perform (S := signature) .listJobs

end JobRepository

namespace WorkerRepository

def save (worker : Worker) : Service Unit :=
  .call (S := signature) (.saveWorker worker) Prog.ofExcept

@[simp]
def getById (id : WorkerId) (tenant : TenantId) : Service (Option Worker) :=
  Prog.perform (S := signature) (.getWorker id tenant)

@[simp]
def getByIdAcrossTenants (id : WorkerId) : Service (Option Worker) :=
  Prog.perform (S := signature) (.getWorkerAcrossTenants id)

@[simp]
def getByNodeId (node : NodeId) (tenant : TenantId) : Service (Option Worker) :=
  Prog.perform (S := signature) (.getWorkerByNode node tenant)

@[simp]
def listAcrossTenants : Service (List Worker) :=
  Prog.perform (S := signature) .listWorkers

end WorkerRepository

namespace LeaseRepository

def save (lease : Lease) : Service Unit :=
  .call (S := signature) (.saveLease lease) Prog.ofExcept

def renew (id : LeaseId) (duration : Duration) (tenant : TenantId) : Service Unit :=
  .call (S := signature) (.renewLease id duration tenant) Prog.ofExcept

@[simp]
def getByJobId (job : JobId) (tenant : TenantId) : Service (Option Lease) :=
  Prog.perform (S := signature) (.getLeaseByJob job tenant)

@[simp]
def getByWorkerId (worker : WorkerId) (tenant : TenantId) : Service (Option Lease) :=
  Prog.perform (S := signature) (.getLeaseByWorker worker tenant)

@[simp]
def listAcrossTenants : Service (List Lease) :=
  Prog.perform (S := signature) .listLeases

@[simp]
def delete (job : JobId) (tenant : TenantId) : Service Unit :=
  Prog.perform (S := signature) (.deleteLease job tenant)

@[simp]
def deleteIfExpired (job : JobId) (tenant : TenantId) : Service Bool :=
  Prog.perform (S := signature) (.deleteLeaseIfExpired job tenant)

end LeaseRepository

namespace RecordJobEventsService

def recordForJob (job : Job) (type : EventType) : Service Unit :=
  .call (S := signature) (.saveEvent job.id job.tenantId type) Prog.ofExcept

end RecordJobEventsService

end AetherGrid
