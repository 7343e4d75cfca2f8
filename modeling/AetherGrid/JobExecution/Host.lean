import AetherGrid.Prog.Pool
import AetherGrid.Service.Impl.Outcome

/-!
This module contains the execution of a job's command: the owner that waits for it, the supervisor that
starts it and watches the owner, and the host they run on.
-/

namespace AetherGrid

namespace JobExecution

open Prog

inductive Signal where
  | sigterm
  | sigkill
  deriving DecidableEq

structure OSError where
  errno : Nat
  strerror : String
  filename : Option String
  deriving DecidableEq

def OSError.str (e : OSError) : String :=
  "[Errno " ++ toString e.errno ++ "] " ++ e.strerror
    ++ (match e.filename with
      | some filename => ": " ++ filename
      | none => "")

def OSError.isLaunchFault (e : OSError) : Bool :=
  e.errno = 2 || e.errno = 13 || e.errno = 1 || e.errno = 20

inductive Failure where
  | osError (e : OSError)
  | interrupt
  | unfinished
  deriving DecidableEq

inductive Life where
  | absent
  | running
  | ended (code : Int)
  deriving DecidableEq

inductive Status where
  | empty
  | report (e : OSError)
  | garbled
  deriving DecidableEq

structure Host where
  clock : Nat := 0
  ownerAlive : Bool := true
  leaseLost : Bool := false
  cancelled : Bool := false
  -- the ends of the two pipes that are open
  watchWrite : Bool := false
  statusRead : Bool := false
  statusWrite : Bool := false
  status : Status := .empty
  supervisor : Life := .absent
  handlesTerm : Bool := false
  watching : Bool := false
  watchBroken : Bool := false
  command : Life := .absent
  children : Nat := 0
  -- a SIGKILL is pending for every process of the group
  killed : Bool := false
  -- a signal or an error of its own ended the supervisor
  struck : Bool := false
  -- inherited by the processes: the kernel reaps their children
  ignoresSigchld : Bool := false

inductive Event where
  | commandEnds (code : Int)
  | fork
  | childEnds
  | supervisorKilled
  | supervisorFails
  | watchBreaks
  | ownerDies
  | leaseIsLost
  | cancelRequested
  deriving DecidableEq

inductive StopEvent where
  | leaseLost
  | cancel
  deriving DecidableEq

inductive Call where
  | monotonic
  | startSupervised (command : List String)
  | isSet (event : StopEvent)
  | select (timeout : Nat)
  | readStatus
  | communicate (timeout : Nat)
  | poll
  | killpg (sig : Signal)
  | closeWatch
  | closeStatus
  | wait
  | waitBriefly
  -- the arguments of a message are left out
  | warn (message : String)
  | leadsGroup
  | handleSigterm
  | startWatch
  | popenCommand (command : List String)
  | report (e : OSError)
  | closeStatusWrite
  | waitCommand
  | killSelf (number : Int)
  | exit (code : Int)
  | readWatch
  | killOwnGroup
  | event (e : Event)
  deriving DecidableEq

inductive KillAnswer where
  | sent
  | noSuchProcess
  | refused
  deriving DecidableEq

structure Output where
  stdout : String := ""
  stderr : String := ""
  deriving DecidableEq

abbrev Call.Answer (c : Call) : Type :=
  match c with
  | .monotonic => Nat
  | .startSupervised _ | .popenCommand _ => Except OSError Unit
  | .isSet _ | .select _ | .leadsGroup => Bool
  | .readStatus => Status
  | .communicate _ => Option (Output × Int)
  | .poll => Option Int
  | .killpg _ => KillAnswer
  | .waitCommand => Int
  | _ => Unit

inductive Thread where
  | owner
  | supervisor
  | watch
  | world
  deriving DecidableEq

def Call.caller (c : Call) : Thread :=
  match c with
  | .monotonic | .startSupervised _ | .isSet _ | .select _ | .readStatus | .communicate _ | .poll
  | .killpg _ | .closeWatch | .closeStatus | .wait | .waitBriefly | .warn _ => .owner
  | .leadsGroup | .handleSigterm | .startWatch | .popenCommand _ | .report _ | .closeStatusWrite
  | .waitCommand | .killSelf _ | .exit _ => .supervisor
  | .readWatch | .killOwnGroup => .watch
  | .event _ => .world

abbrev signature : Signature where
  Call := Call
  Res c := Option c.Answer

structure Choice where
  elapsed : Nat := 0
  interrupt : Bool := false
  -- the call has taken effect when the interrupt comes
  late : Bool := false
  error : Option OSError := none
  refuse : Bool := false
  torn : Bool := false
  -- the output pipes have no writer left
  eof : Bool := true
  output : Output := {}

namespace Host

def isRunning (l : Life) : Bool :=
  match l with
  | .running => true
  | .absent | .ended _ => false

def code (l : Life) : Option Int :=
  match l with
  | .ended code => some code
  | .absent | .running => none

def alive (s : Host) : Bool :=
  isRunning s.supervisor || isRunning s.command || s.children != 0

-- its threads end with it, and its end of the status pipe is closed
def endSupervisor (s : Host) (code : Int) : Host :=
  { s with supervisor := .ended code, watching := false, statusWrite := false }

def strikeSupervisor (s : Host) (code : Int) : Host :=
  { s.endSupervisor code with struck := true }

def killSupervisor (s : Host) (code : Int) : Host :=
  if isRunning s.supervisor then s.strikeSupervisor code else s

def sigkillGroup (s : Host) : Host :=
  { s with killed := true }

def sigtermGroup (s : Host) : Host :=
  if s.handlesTerm then s else s.killSupervisor (-15)

def signalGroup (s : Host) (sig : Signal) : Host :=
  match sig with
  | .sigterm => s.sigtermGroup
  | .sigkill => s.sigkillGroup

def killpg (s : Host) (sig : Signal) (refuse : Bool) : KillAnswer × Host :=
  if s.alive then
    if refuse then
      (.refused, s)
    else
      (.sent, s.signalGroup sig)
  else
    (.noSuchProcess, s)

def startSupervised (s : Host) (error : Option OSError) : Except OSError Unit × Host :=
  match error with
  | some e => (.error e, s)
  | none =>
    (.ok (),
      { s with watchWrite := true, statusRead := true, statusWrite := true, supervisor := .running })

def popenCommand (s : Host) (error : Option OSError) : Except OSError Unit × Host :=
  match error with
  | some e => (.error e, s)
  | none => (.ok (), { s with command := .running })

-- a supervisor killed in the middle of its report leaves a part of it
def report (s : Host) (e : OSError) (torn : Bool) : Host :=
  if !s.statusRead then
    s.strikeSupervisor 1
  else if torn then
    { s.strikeSupervisor (-9) with status := .garbled }
  else
    { s with status := .report e, statusWrite := false }

def step (s : Host) (e : Event) : Host :=
  match e with
  | .commandEnds code => if isRunning s.command then { s with command := .ended code } else s
  | .fork =>
    if !s.killed && (isRunning s.command || s.children != 0) then
      { s with children := s.children + 1 }
    else
      s
  | .childEnds => { s with children := s.children - 1 }
  | .supervisorKilled => s.killSupervisor (-9)
  | .supervisorFails => s.killSupervisor 1
  | .watchBreaks => { s with watchBroken := true }
  | .ownerDies => { s with ownerAlive := false, watchWrite := false, statusRead := false }
  | .leaseIsLost => { s with leaseLost := true }
  | .cancelRequested => { s with cancelled := true }

def isSet (s : Host) (event : StopEvent) : Bool :=
  match event with
  | .leaseLost => s.leaseLost
  | .cancel => s.cancelled

-- `Popen` takes the status of a child that is gone for 0
def reaped (s : Host) (code : Int) : Int :=
  if s.ignoresSigchld then 0 else code

def communicate (s : Host) (x : Choice) : Option (Output × Int) :=
  if x.eof then (code s.supervisor).map (fun code => (x.output, s.reaped code)) else none

def startWatch (s : Host) (error : Option OSError) : Host :=
  match error with
  | some _ => s.strikeSupervisor 1
  | none => { s with watching := true }

def exec (c : Call) (x : Choice) (s : Host) : c.Answer × Host :=
  match c with
  | .monotonic => (s.clock, s)
  | .startSupervised _ => s.startSupervised x.error
  | .isSet event => (s.isSet event, s)
  | .select _ => (!s.statusWrite || s.status ≠ .empty, s)
  | .readStatus => (s.status, s)
  | .communicate _ => (s.communicate x, s)
  | .poll => ((code s.supervisor).map s.reaped, s)
  | .killpg sig => s.killpg sig x.refuse
  | .closeWatch => ((), { s with watchWrite := false })
  | .closeStatus => ((), { s with statusRead := false })
  | .wait | .waitBriefly | .warn _ => ((), s)
  | .leadsGroup => (true, s)
  | .handleSigterm => ((), { s with handlesTerm := true })
  | .startWatch => ((), s.startWatch x.error)
  | .popenCommand _ => s.popenCommand x.error
  | .report e => ((), s.report e x.torn)
  | .closeStatusWrite => ((), { s with statusWrite := false })
  | .waitCommand => (s.reaped ((code s.command).getD 0), s)
  | .killSelf number => ((), s.endSupervisor (-number))
  | .exit code => ((), s.endSupervisor code)
  | .readWatch => ((), s)
  | .killOwnGroup => ((), s.sigkillGroup)
  | .event e => ((), s.step e)

def perform (c : Call) (x : Choice) (s : Host) : Option c.Answer × Host :=
  let s := { s with clock := s.clock + x.elapsed }
  if x.interrupt && c.caller = .owner then
    (none, if x.late then (s.exec c x).2 else s)
  else
    (some (s.exec c x).1, (s.exec c x).2)

def ready (s : Host) (c : Call) : Bool :=
  match c.caller with
  | .owner =>
    s.ownerAlive
      && (match c with
        | .readStatus => !s.statusWrite
        | .wait => !isRunning s.supervisor
        | _ => true)
  | .supervisor =>
    isRunning s.supervisor
      && (match c with
        | .waitCommand => !isRunning s.command
        | .popenCommand _ => !s.killed
        | _ => true)
  | .watch =>
    s.watching
      && (match c with
        | .readWatch => !s.watchWrite || s.watchBroken
        | _ => true)
  | .world => true

end Host

abbrev Code := Prog signature Failure

def ask (c : Call) : Code c.Answer :=
  request (S := signature) c (fun answer =>
    match answer with
    | some a => .ok a
    | none => .error .interrupt)

structure Result extends JobExecutionResult where
  duration : Nat
  stdout : String
  stderr : String
  deriving DecidableEq

section owner

structure Config where
  terminationGracePeriod : Nat := 5000000
  pollInterval : Nat := 200000
  given : StopEvent → Bool := fun _ => true

-- a model that ran out of rounds is not at the end of `p`
def tryFinally {α : Type} (p : Code α) (cleanup : Option Failure → Code Unit) : Code α :=
  ensuring (· == .unfinished) p cleanup

def signalGroup (sig : Signal) : Code Unit := do
  match ← ask (.killpg sig) with
  | .sent | .noSuchProcess => return
  | .refused =>
    ask <| .warn <|
      "Not permitted to send %s to process group %s, so a process of the job may be left running."

def closeDescriptors : Code Unit := do
  ask .closeWatch
  ask .closeStatus

def exitProcess (e : Option Failure) : Code Unit :=
  match e with
  | some .interrupt => ask .waitBriefly
  | _ => ask .wait

def supervising {α : Type} (body : Code α) : Code α :=
  tryFinally (tryFinally (tryFinally body (fun _ => signalGroup .sigkill)) (fun _ => closeDescriptors))
    exitProcess

inductive Launch where
  | pending
  | started
  | failed (e : OSError)

def readLaunchFailure (deadline : Nat) : Code Launch := do
  let now ← ask .monotonic
  if ← ask (.select (deadline - now)) then
    match ← ask .readStatus with
    | .empty => return .started
    | .report e => return .failed e
    | .garbled =>
      ask (.warn "unreadable launch report from the job supervisor: %r")
      return .started
  else
    return .pending

def collectStopped (config : Config) : Code (Option (Output × Int)) := do
  match ← ask (.communicate config.terminationGracePeriod) with
  | some collected => return some collected
  | none =>
    signalGroup .sigkill
    ask (.communicate config.terminationGracePeriod)

def terminateEarly (config : Config) (start : Nat) (timedOut cancelled leaseLost : Bool)
    : Code Result := do
  signalGroup .sigterm
  let collected ← collectStopped config
  let now ← ask .monotonic
  let output := (collected.map (·.1)).getD {}
  return {
    exitCode := collected.map (·.2), timedOut, cancelled, leaseLost
    duration := now - start, stdout := output.stdout, stderr := output.stderr }

def collectAfterSupervisorEnded (config : Config) (start : Nat) (code : Int) : Code Result := do
  signalGroup .sigkill
  let collected ← ask (.communicate config.terminationGracePeriod)
  let now ← ask .monotonic
  let output := (collected.map (·.1)).getD {}
  return {
    exitCode := some code, timedOut := false, cancelled := false
    duration := now - start, stdout := output.stdout, stderr := output.stderr }

def couldNotStart (e : OSError) (start : Nat) : Code Result := do
  ask (.warn "The command %r could not be started: %s")
  let now ← ask .monotonic
  return {
    exitCode := none, timedOut := false, cancelled := false
    duration := now - start, stdout := ""
    stderr := "The command could not be started: " ++ e.str ++ "\n" }

-- an event that `execute` was not given is never set
def isSet (config : Config) (event : StopEvent) : Code Bool :=
  if config.given event then
    ask (.isSet event)
  else
    return false

def waitLoop (config : Config) (start deadline : Nat) (rounds : Nat) (launchPending : Bool)
    : Code Result := do
  match rounds with
  | 0 => .raise .unfinished
  | rounds + 1 =>
    let now ← ask .monotonic
    if deadline ≤ now then
      terminateEarly config start true false false
    else
      let lost ← isSet config .leaseLost
      if lost then
        terminateEarly config start false false true
      else
        let cancelled ← isSet config .cancel
        if cancelled then
          terminateEarly config start false true false
        else
          let waitFor := min config.pollInterval (deadline - now)
          if launchPending then
            let now ← ask .monotonic
            match ← readLaunchFailure (now + waitFor) with
            | .pending => waitLoop config start deadline rounds true
            | .started => waitLoop config start deadline rounds false
            | .failed e =>
              if e.isLaunchFault then
                couldNotStart e start
              else
                .raise (.osError e)
          else
            match ← ask (.communicate waitFor) with
            | some (output, code) =>
              let now ← ask .monotonic
              return {
                exitCode := some code, timedOut := false, cancelled := false
                duration := now - start, stdout := output.stdout, stderr := output.stderr }
            | none =>
              match ← ask .poll with
              | none => waitLoop config start deadline rounds false
              | some code => collectAfterSupervisorEnded config start code

def executeCommand (config : Config) (command : List String) (timeout : Nat) (rounds : Nat)
    : Code Result := do
  let start ← ask .monotonic
  let deadline := start + timeout
  match ← ask (.startSupervised command) with
  | .error e => .raise (.osError e)
  | .ok _ => supervising (waitLoop config start deadline rounds true)

def nothingToRun : Result where
  exitCode := some 0
  timedOut := false
  cancelled := false
  duration := 0
  stdout := ""
  stderr := ""

def execute (config : Config) (command : Option (List String)) (timeout : Nat) (rounds : Nat)
    : Code Result :=
  match command with
  | none => return nothingToRun
  | some command => executeCommand config command timeout rounds

end owner

section supervisor

def usageExitCode : Int := 2
def launchFailedExitCode : Int := 127

def endLike (returncode : Int) : Code Unit := do
  if 0 ≤ returncode then
    ask (.exit returncode)
  else
    ask (.killSelf (-returncode))
    ask (.exit (128 - returncode))

def main (argv : List String) : Code Unit := do
  if argv.length < 5 ∨ argv[3]? ≠ some "--" then
    ask (.exit usageExitCode)
  else if ← ask .leadsGroup then
    ask .handleSigterm
    ask .startWatch
    match ← ask (.popenCommand (argv.drop 4)) with
    | .error e =>
      ask (.report e)
      ask (.exit launchFailedExitCode)
    | .ok _ =>
      ask .closeStatusWrite
      endLike (← ask .waitCommand)
  else
    ask (.exit usageExitCode)

-- what the owner puts on the command line after the name of the module
def supervisorArgv (command : List String) : List String :=
  ["job_supervisor", "WATCH_FD", "STATUS_FD", "--"] ++ command

def watch : Code Unit := do
  ask .readWatch
  ask .killOwnGroup

end supervisor

def happen (events : List Event) : Code Unit :=
  forM events (fun e => ask (.event e))

def Thread.code (config : Config) (command : Option (List String)) (timeout rounds : Nat) (events : List Event)
    (t : Thread) : Code (Option Result) :=
  match t with
  | .owner => some <$> execute config command timeout rounds
  | .supervisor => (fun _ => none) <$> main (supervisorArgv (command.getD []))
  | .watch => (fun _ => none) <$> JobExecution.watch
  | .world => (fun _ => none) <$> happen events

end JobExecution

end AetherGrid
