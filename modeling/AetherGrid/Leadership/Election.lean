import AetherGrid.Prog.Pool

/-!
This module contains the election of the scheduler.
-/

namespace AetherGrid

namespace Leadership

open Prog

abbrev Session := Nat

inductive Task where
  | tryAcquire
  | clusterTick
  | reconcile
  | release
  deriving DecidableEq

def Task.isTick (task : Task) : Bool :=
  match task with
  | .clusterTick | .reconcile => true
  | .tryAcquire | .release => false

inductive Future where
  | absent
  | queued (task : Task)
  | running (task : Task)
  | done (task : Task) (result : Bool)
  | cancelled
  deriving DecidableEq

namespace Future

def isQueued (f : Future) : Bool :=
  match f with
  | .queued _ => true
  | _ => false

def isActive (f : Future) : Bool :=
  match f with
  | .queued _ | .running _ => true
  | .absent | .done _ _ | .cancelled => false

def isDone (f : Future) : Bool :=
  match f with
  | .done _ _ => true
  | _ => false

end Future

inductive Line where
  | unreachable (error : String)
  | reachable
  | leads
  | lost
  | released
  deriving DecidableEq

structure Process where
  connection : Option Session := none
  unreachable : Bool := false
  log : List Line := []
  -- the worker that is inside `with self._guard`
  guard : Option Nat := none
  futures : Nat → Future := fun _ => .absent
  submitted : Nat := 0
  cancelRequested : Bool := false
  -- once the loop was cancelled: the future it waited for, if that was running
  interrupted : Option (Option Nat) := none

/--
The database server and the processes.
-/
structure World (ι : Type) where
  lock : Option Session := none
  live : Session → Bool := fun _ => false
  opened : Session → Bool := fun _ => false
  owner : Session → Option ι := fun _ => none
  next : Session := 0
  processes : ι → Process := fun _ => {}

inductive Call (ι : Type) where
  | connect (i : ι)
  | selectOne (conn : Session)
  | tryAdvisoryLock (conn : Session)
  | advisoryUnlock (conn : Session)
  | close (conn : Session)
  | connection (i : ι)
  | setConnection (i : ι) (conn : Option Session)
  -- only a task inside `with self._guard` touches the flag, so its test, its change and the line are one call
  | noteUnreachable (i : ι) (error : String)
  | noteReachable (i : ι)
  | log (i : ι) (line : Line)
  | enter (i : ι) (k : Nat)
  | leave (i : ι) (k : Nat)
  | submit (i : ι) (task : Task)
  | await (i : ι) (k : Nat)
  | sleep (i : ι)
  | start (i : ι) (k : Nat)
  | finish (i : ι) (k : Nat) (result : Bool)
  | cancel (i : ι)
  | terminate (conn : Session)

abbrev Call.Answer {ι : Type} (c : Call ι) : Type :=
  match c with
  | .connect _ => Except String Session
  | .selectOne _ | .advisoryUnlock _ | .close _ => Except String Unit
  | .tryAdvisoryLock _ => Except String Bool
  | .connection _ => Option Session
  | .submit _ _ => Nat
  | .await _ _ => Option Bool
  | .sleep _ => Option Unit
  | .start _ _ => Option Task
  | _ => Unit

abbrev signature (ι : Type) : Signature where
  Call := Call ι
  Res c := c.Answer

inductive Fate where
  | works
  | fails (message : String)
  | failsLate (message : String)

namespace Process

def noteUnreachable (p : Process) (error : String) : Process :=
  if p.unreachable then
    p
  else
    { p with unreachable := true, log := p.log ++ [.unreachable error] }

def noteReachable (p : Process) : Process :=
  if p.unreachable then
    { p with unreachable := false, log := p.log ++ [.reachable] }
  else
    p

def submit (p : Process) (task : Task) : Process :=
  { p with
    futures := Function.update p.futures p.submitted (.queued task)
    submitted := p.submitted + 1 }

-- `task.cancel()` raises a `CancelledError` at the next `await`, once
def mustCancel (p : Process) : Bool :=
  p.cancelRequested && p.interrupted.isNone

def interruptAwait (p : Process) (k : Nat) : Process :=
  match p.futures k with
  | .queued _ =>
    { p with interrupted := some none, futures := Function.update p.futures k .cancelled }
  | .running _ => { p with interrupted := some (some k) }
  | .absent | .done _ _ | .cancelled => { p with interrupted := some none }

end Process

namespace World

variable {ι : Type} [DecidableEq ι]

def modify (s : World ι) (i : ι) (f : Process → Process) : World ι :=
  { s with processes := Function.update s.processes i (f (s.processes i)) }

-- a session whose client does not learn of it is closed from the start
def openSession (s : World ι) (i : ι) (known : Bool) : World ι :=
  { s with
    live := Function.update s.live s.next true
    opened := Function.update s.opened s.next known
    owner := Function.update s.owner s.next (some i)
    next := s.next + 1 }

-- the lock of a session ends with it
def endSession (s : World ι) (conn : Session) : World ι :=
  { s with
    lock := if s.lock = some conn then none else s.lock
    live := Function.update s.live conn false }

def closeClient (s : World ι) (conn : Session) : World ι :=
  { s with opened := Function.update s.opened conn false }

def mayLock (s : World ι) (conn : Session) : Bool :=
  s.lock = none ∨ s.lock = some conn

def takeLock (s : World ι) (conn : Session) : World ι :=
  if s.mayLock conn then { s with lock := some conn } else s

def dropLock (s : World ι) (conn : Session) : World ι :=
  { s with lock := if s.lock = some conn then none else s.lock }

def statement {α : Type} (s : World ι) (conn : Session) (fate : Fate) (answer : α) (after : World ι)
    : Except String α × World ι :=
  if s.live conn && s.opened conn then
    match fate with
    | .works => (.ok answer, after)
    | .fails message => (.error message, s)
    | .failsLate message => (.error message, after)
  else
    (.error "the connection is closed", s)

def connect (s : World ι) (i : ι) (fate : Fate) : Except String Session × World ι :=
  match fate with
  | .works => (.ok s.next, s.openSession i true)
  | .fails message => (.error message, s)
  | .failsLate message => (.error message, s.openSession i false)

def close (s : World ι) (conn : Session) (fate : Fate) : Except String Unit × World ι :=
  match fate with
  | .works => (.ok (), (s.closeClient conn).endSession conn)
  | .fails message => (.error message, s.closeClient conn)
  | .failsLate message => (.error message, (s.closeClient conn).endSession conn)

def await (s : World ι) (i : ι) (k : Nat) : Option Bool × World ι :=
  if (s.processes i).mustCancel then
    (none, s.modify i (·.interruptAwait k))
  else
    match (s.processes i).futures k with
    | .done _ result => (some result, s)
    | _ => (some false, s)

def sleep (s : World ι) (i : ι) : Option Unit × World ι :=
  if (s.processes i).mustCancel then
    (none, s.modify i ({ · with interrupted := some none }))
  else
    (some (), s)

def start (s : World ι) (i : ι) (k : Nat) : Option Task × World ι :=
  match (s.processes i).futures k with
  | .queued task =>
    (some task, s.modify i (fun p => { p with futures := Function.update p.futures k (.running task) }))
  | _ => (none, s)

def finish (s : World ι) (i : ι) (k : Nat) (result : Bool) : World ι :=
  match (s.processes i).futures k with
  | .running task =>
    s.modify i (fun p => { p with futures := Function.update p.futures k (.done task result) })
  | _ => s

def exec (c : Call ι) (fate : Fate) (s : World ι) : c.Answer × World ι :=
  match c with
  | .connect i => s.connect i fate
  | .selectOne conn => s.statement conn fate () s
  | .tryAdvisoryLock conn => s.statement conn fate (s.mayLock conn) (s.takeLock conn)
  | .advisoryUnlock conn => s.statement conn fate () (s.dropLock conn)
  | .close conn => s.close conn fate
  | .connection i => ((s.processes i).connection, s)
  | .setConnection i conn => ((), s.modify i ({ · with connection := conn }))
  | .noteUnreachable i error => ((), s.modify i (·.noteUnreachable error))
  | .noteReachable i => ((), s.modify i (·.noteReachable))
  | .log i line => ((), s.modify i (fun p => { p with log := p.log ++ [line] }))
  | .enter i k => ((), s.modify i ({ · with guard := some k }))
  | .leave i _ => ((), s.modify i ({ · with guard := none }))
  | .submit i task => ((s.processes i).submitted, s.modify i (·.submit task))
  | .await i k => s.await i k
  | .sleep i => s.sleep i
  | .start i k => s.start i k
  | .finish i k result => ((), s.finish i k result)
  | .cancel i => ((), s.modify i ({ · with cancelRequested := true }))
  | .terminate conn => ((), s.endSession conn)

def ready (s : World ι) (c : Call ι) : Bool :=
  match c with
  | .enter i _ => (s.processes i).guard.isNone
  | .await i k => (s.processes i).mustCancel || ((s.processes i).futures k).isDone
  | .start i k => ((s.processes i).futures k).isQueued
  | _ => true

end World

section programs

inductive Cancelled where
  | cancelled
  deriving DecidableEq

variable {ι : Type}

abbrev Code (ι : Type) := Prog (signature ι) Cancelled

def ask (c : Call ι) : Code ι c.Answer :=
  perform (S := signature ι) c

def stillConnected (conn : Session) : Code ι Bool := do
  match ← ask (.selectOne conn) with
  | .error _ => return false
  | .ok _ => return true

def closeConnection (conn : Session) : Code ι Unit := do
  let _ ← ask (.close conn)
  return

def takeLock (i : ι) : Code ι Bool := do
  match ← ask (.connect i) with
  | .error error =>
    ask (.noteUnreachable i error)
    return false
  | .ok connection =>
    match ← ask (.tryAdvisoryLock connection) with
    | .error error =>
      closeConnection connection
      ask (.noteUnreachable i error)
      return false
    | .ok row =>
      ask (.noteReachable i)
      if row then
        ask (.setConnection i (some connection))
        ask (.log i .leads)
        return true
      else
        closeConnection connection
        return false

-- the body of `with self._guard` in `try_acquire`
def tryAcquireLocked (i : ι) : Code ι Bool := do
  match ← ask (.connection i) with
  | some connection =>
    if ← stillConnected connection then
      return true
    else
      closeConnection connection
      ask (.setConnection i none)
      ask (.log i .lost)
      takeLock i
  | none => takeLock i

def tryAcquire (i : ι) (k : Nat) : Code ι Bool := do
  ask (.enter i k)
  let leads ← tryAcquireLocked i
  ask (.leave i k)
  return leads

def releaseLocked (i : ι) : Code ι Unit := do
  match ← ask (.connection i) with
  | none => return
  | some connection =>
    ask (.setConnection i none)
    let _ ← ask (.advisoryUnlock connection)
    closeConnection connection
    ask (.log i .released)

def release (i : ι) (k : Nat) : Code ι Unit := do
  ask (.enter i k)
  releaseLocked i
  ask (.leave i k)

def worker (i : ι) (k : Nat) : Code ι Unit := do
  match ← ask (.start i k) with
  | none => return
  | some .tryAcquire =>
    let leads ← tryAcquire i k
    ask (.finish i k leads)
  | some .clusterTick | some .reconcile => ask (.finish i k false)
  | some .release =>
    release i k
    ask (.finish i k false)

def toThread (i : ι) (task : Task) : Code ι Bool := do
  let k ← ask (.submit i task)
  match ← ask (.await i k) with
  | none => .raise .cancelled
  | some result => return result

def runClusterTick (i : ι) : Code ι Unit := do
  let _ ← toThread i .clusterTick
  let _ ← toThread i .reconcile
  return

def runLeaderTick (i : ι) : Code ι Unit := do
  let leads ← toThread i .tryAcquire
  if leads then
    runClusterTick i

def clusterRounds (i : ι) (rounds : Nat) : Code ι Unit := do
  match rounds with
  | 0 => return
  | rounds + 1 =>
    runLeaderTick i
    match ← ask (.sleep i) with
    | none => .raise .cancelled
    | some _ => clusterRounds i rounds

def runClusterLoop (i : ι) (rounds : Nat) : Code ι Unit :=
  (clusterRounds i rounds).catching (fun e => do
    let _ ← toThread i .release
    .raise e)

def terminateAll (sessions : List Session) : Code ι Unit :=
  forM sessions (fun conn => ask (.terminate conn))

inductive Thread (ι : Type) where
  | loop (i : ι)
  | worker (i : ι) (k : Nat)
  | lifespan (i : ι)
  | outside
  deriving DecidableEq

def Thread.code (rounds : ι → Nat) (sessions : List Session) (t : Thread ι) : Code ι Unit :=
  match t with
  | .loop i => runClusterLoop i (rounds i)
  | .worker i k => Leadership.worker i k
  | .lifespan i => ask (.cancel i)
  | .outside => terminateAll sessions

end programs

end Leadership

end AetherGrid
