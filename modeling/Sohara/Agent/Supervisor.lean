import Mathlib.Algebra.Order.Ring.Nat
import Sohara.Plane.Registry
import Sohara.Transition.Runs

/-! # Supervision of one instance

The task that an agent runs for each instance: it launches the process, handles lifecycle
commands, and on every tick looks for an exit, probes the health of the instance, and
restarts it within the budget of its policy. What the operating system and the instance
answer belongs to the event that is handled.
-/

namespace Sohara

/-- Commands accepted from the agent loop. -/
inductive InstanceCommand where
  | start
  | stop
  | restart
  | pause
  | resume
  deriving DecidableEq, Repr

/-- The state that the supervisor shares with the agent loop. -/
structure Shared where
  id : String
  state : InstanceState
  paused : Bool
  healthy : Bool
  restarts : Nat
  admin : Option String
  trigger : Option String
  deriving DecidableEq, Repr

/-- Counters of restart attempts and health failures. -/
structure Counters where
  attempts : Nat := 0
  failures : Nat := 0
  deriving DecidableEq, Repr

/-- The handle of a process, by its number. -/
abbrev Child : Type := Nat

/-- A call that launches the process: the command line, and the handle held then. -/
structure SpawnCall where
  bin : String
  args : List String
  held : Option Child
  deriving DecidableEq, Repr

/-- The supervisor of one instance. -/
structure Supervisor where
  shared : Shared
  child : Option Child := none
  counters : Counters := {}
  /-- The calls that have launched the process so far. -/
  spawns : List SpawnCall := []
  deriving DecidableEq, Repr

/-- The result of a health probe. -/
structure Health where
  healthy : Bool
  paused : Bool
  deriving DecidableEq, Repr

/-- What looking for the exit of a process finds. -/
inductive WaitResult where
  | exited
  | running
  | error
  deriving DecidableEq, Repr

/-- What the operating system and the instance answer while an event is handled. -/
structure Answers where
  /-- A free loopback address. -/
  freeAddr : Option String := none
  /-- Launching a command line; none when it fails. -/
  spawn : String → List String → Option Child
  tryWait : Child → WaitResult
  /-- Probing the health at an admin address; none when the request fails. -/
  probe : String → Option String → Option Health
  /-- Posting to an admin address; whether the response is a success. -/
  post : String → Option String → String → Bool

/-- How long to wait before a restart attempt, if one is allowed. -/
def restartBackoff (policy : Policy) (attempts : Nat) : Option Duration :=
  if !policy.restart || policy.maxRestarts ≤ attempts then none
  else
    let factor := 2 ^ min attempts 10
    some (min (policy.backoffMs * factor) 60000)

/-- The command line of an instance. -/
def launchCommand (spec : InstanceSpec) (admin : String) : String × List String :=
  if spec.args.isEmpty then
    let serve := ["serve", spec.flow, "--admin", admin]
    let resume := if spec.resume then ["--resume"] else []
    let adminToken := match spec.adminToken with
      | some token => ["--admin-token", token]
      | none => []
    let relay := match spec.relay with
      | some relay => ["--relay", relay]
      | none => []
    let relayToken := match spec.relayToken with
      | some token => ["--relay-token", token]
      | none => []
    (spec.bin, serve ++ resume ++ adminToken ++ relay ++ relayToken)
  else (spec.bin, spec.args)

namespace Supervisor

/-- Changes the reported state. -/
def setState (state : InstanceState) (supervisor : Supervisor) : Supervisor :=
  { supervisor with shared := { supervisor.shared with state := state } }

section Process

variable (spec : InstanceSpec) (answers : Answers) (supervisor : Supervisor)

/-- Resolves the admin address once, then launches the process. -/
def spawnChild : Supervisor :=
  let admin := match supervisor.shared.admin with
    | some admin => some admin
    | none => answers.freeAddr
  let command := launchCommand spec (admin.getD "")
  let called : Supervisor := { supervisor with
    shared := { supervisor.shared with admin := admin, state := .starting }
    spawns := supervisor.spawns ++ [⟨command.1, command.2, supervisor.child⟩] }
  match answers.spawn command.1 command.2 with
  | some process =>
      { called with
        child := some process
        shared := { called.shared with state := .running, healthy := true } }
  | none => { called with shared := { called.shared with state := .failed, healthy := false } }

/-- Ends and reaps the process, if there is one. -/
def terminateChild : Supervisor := { supervisor with child := none }

/-- Pauses the instance at its admin address. -/
def pauseInstance : Supervisor :=
  match supervisor.shared.admin with
  | none => supervisor
  | some admin =>
      if answers.post admin spec.adminToken "/admin/pause" then
        { supervisor with shared := { supervisor.shared with paused := true, state := .paused } }
      else supervisor

/-- Resumes the instance at its admin address. -/
def resumeInstance : Supervisor :=
  match supervisor.shared.admin with
  | none => supervisor
  | some admin =>
      if answers.post admin spec.adminToken "/admin/resume" then
        { supervisor with shared := { supervisor.shared with paused := false, state := .running } }
      else supervisor

/-- Handles one lifecycle command. -/
def handleCommand (command : InstanceCommand) : Supervisor :=
  match command with
  | .start =>
      match supervisor.shared.state with
      | .stopped | .failed => supervisor.spawnChild spec answers
      | _ => supervisor
  | .stop => ((supervisor.setState .stopping).terminateChild).setState .stopped
  | .restart => ((supervisor.setState .restarting).terminateChild).spawnChild spec answers
  | .pause => supervisor.pauseInstance spec answers
  | .resume => supervisor.resumeInstance spec answers

/-- Counts a restart attempt. -/
def countAttempt : Supervisor :=
  let attempts := supervisor.counters.attempts + 1
  { supervisor with
    counters := { supervisor.counters with attempts := attempts }
    shared := { supervisor.shared with restarts := attempts } }

/-- Restarts according to the policy, or fails when the budget is spent. -/
def restartOrFail : Supervisor :=
  let counted := supervisor.countAttempt
  match restartBackoff spec.policy counted.counters.attempts with
  | some _ =>
      let restarted := ((counted.setState .restarting).terminateChild).spawnChild spec answers
      { restarted with counters := { restarted.counters with failures := 0 } }
  | none =>
      let failed := counted.terminateChild.setState .failed
      { failed with shared := { failed.shared with healthy := false } }

/-- Restarts when enough probes have failed in a row. -/
def checkHealthRestart : Supervisor :=
  if spec.policy.healthFailures ≤ supervisor.counters.failures then
    supervisor.restartOrFail spec answers
  else supervisor

/-- Counts a failed probe. -/
def failProbe : Supervisor :=
  { supervisor with
    counters := { supervisor.counters with failures := supervisor.counters.failures + 1 } }

/-- Takes over the result of a probe. -/
def applyHealth (health : Health) : Supervisor :=
  if !health.healthy then (supervisor.failProbe).checkHealthRestart spec answers
  else
    let state := if health.paused then .paused
      else if supervisor.shared.state = .paused then .running
      else supervisor.shared.state
    { supervisor with
      counters := { supervisor.counters with failures := 0 }
      shared := { supervisor.shared with
        healthy := true
        paused := health.paused
        state := state } }

/-- Whether the process, if there is one, is found to have exited. -/
def childExited : Bool :=
  match supervisor.child with
  | some child =>
      match answers.tryWait child with
      | .exited => true
      | .running => false
      | .error => true
  | none => false

/-- One supervision tick: looks for an exit, probes the health, applies the policy. -/
def superviseTick : Supervisor :=
  if supervisor.childExited answers then
    let exited : Supervisor := { supervisor with child := none }
    if exited.shared.state = .stopping then exited.setState .stopped
    else exited.restartOrFail spec answers
  else if !spec.healthEnabled || supervisor.child.isNone then supervisor
  else
    match supervisor.shared.admin with
    | none => supervisor
    | some admin =>
        match answers.probe admin spec.adminToken with
        | some health => supervisor.applyHealth spec answers health
        | none => (supervisor.failProbe).checkHealthRestart spec answers

end Process

/-- The supervisor of a new instance manager, before its task runs. -/
def new (spec : InstanceSpec) : Supervisor where
  shared :=
    { id := spec.id
      state := .starting
      paused := false
      healthy := false
      restarts := 0
      admin := spec.admin
      trigger := spec.trigger }

/-- The supervisor when its loop begins: launched, launched and paused, or stopped, as the
initial desired state says. -/
def initial (spec : InstanceSpec) (desired : String) (answers : Answers) : Supervisor :=
  if desired ≠ "stopped" then
    let launched := (new spec).spawnChild spec answers
    if desired = "paused" then launched.pauseInstance spec answers else launched
  else (new spec).setState .stopped

/-- What the loop of a supervisor handles. -/
inductive Event where
  | command (command : InstanceCommand) (answers : Answers)
  | tick (answers : Answers)

/-- The supervisor after an event. -/
def handle (spec : InstanceSpec) (supervisor : Supervisor) (event : Event) : Supervisor :=
  match event with
  | .command command answers => supervisor.handleCommand spec answers command
  | .tick answers => supervisor.superviseTick spec answers

/-- The supervisor after a sequence of events. -/
def run (spec : InstanceSpec) (desired : String) (answers : Answers) (events : List Event) :
    Supervisor :=
  events.foldl (handle spec) (initial spec desired answers)

end Supervisor

end Sohara
