import Sohara.Agent.Managers

/-! # The loop of an agent

An agent works through the answers to its heartbeats. It executes the commands in order,
acknowledges each, and then reconciles its managers with the desired list; commands that
are numbered up to the highest number of the answers before are skipped. The tasks of the
managers run next to the loop.
-/

namespace Sohara

/-- A step of the task that supervises an instance. -/
inductive Work where
  /-- The task begins: it launches the process, or not, as initially desired. -/
  | begin (answers : Answers)
  /-- The next lifecycle command is handled. -/
  | receive (answers : Answers)
  /-- The interval of the supervision ticks. -/
  | tick (answers : Answers)

/-- What is answered while the step is taken. -/
def Work.answers : Work → Answers
  | .begin answers => answers
  | .receive answers => answers
  | .tick answers => answers

/-- The task of a manager after a step, if it can take the step. -/
def InstanceManager.supervise (work : Work) (manager : InstanceManager) :
    Option InstanceManager :=
  match work, manager.beginning with
  | .begin answers, some desired =>
      some { manager with
        beginning := none
        supervisor := .initial manager.spec desired answers }
  | .receive answers, none =>
      match manager.mailbox with
      | [] => none
      | command :: rest =>
          some { manager with
            mailbox := rest
            supervisor := manager.supervisor.handleCommand manager.spec answers command }
  | .tick answers, none =>
      some { manager with supervisor := manager.supervisor.superviseTick manager.spec answers }
  | _, _ => none

namespace Managers

/-- The managers that an agent starts for the instances of its configuration. -/
def new (specs : List InstanceSpec) : Managers :=
  specs.foldl (fun managers spec =>
    let manager := InstanceManager.spawnWithDesired managers.started spec "running"
    ⟨managers.entries.insert spec.id manager, managers.started + 1⟩) {}

/-- The managers after a step of the task of one of them. -/
def supervise (id : String) (work : Work) (managers : Managers) : Option Managers := do
  let manager ← managers.get? id
  let next ← manager.supervise work
  return { managers with entries := managers.entries.insert id next }

section Looking

variable {managers next : Managers} {id : String}

/-- An agent starts the instances of its configuration as running. -/
theorem get?_new {specs : List InstanceSpec} {manager : InstanceManager}
    (present : (new specs).get? id = some manager) :
    ∃ number spec, manager = .spawnWithDesired number spec "running" := by
  unfold new at present
  induction specs using List.reverseRecOn with
  | nil => cases present
  | append_singleton earlier spec ih =>
      rw [List.foldl_append] at present
      unfold get? at present
      dsimp only [List.foldl_cons, List.foldl_nil] at present
      rw [Assoc.get?_insert] at present
      by_cases here : spec.id = id
      · rw [if_pos here] at present
        cases present
        exact ⟨_, spec, rfl⟩
      · rw [if_neg here] at present
        exact ih present

/-- A command goes to the mailbox of the manager it names. -/
theorem get?_execute (command : Command) :
    (managers.execute command).2.get? id = managers.get? id ∨
      ∃ op manager, parseOp command.op = some op ∧ command.instance_ = id ∧
        managers.get? id = some manager ∧
        (managers.execute command).2.get? id = some (manager.send op) := by
  unfold execute
  cases parsed : parseOp command.op with
  | none => exact .inl rfl
  | some op =>
      dsimp only
      cases named : managers.get? command.instance_ with
      | none => exact .inl rfl
      | some manager =>
          dsimp only
          unfold get?
          dsimp only
          rw [Assoc.get?_insert]
          by_cases here : command.instance_ = id
          · rw [if_pos here]
            rw [here] at named
            exact .inr ⟨op, manager, rfl, here, named, rfl⟩
          · rw [if_neg here]
            exact .inl rfl

/-- A step of a task changes its own manager. -/
theorem get?_supervise {other : String} {work : Work}
    (supervised : managers.supervise other work = some next) :
    (other ≠ id ∧ next.get? id = managers.get? id) ∨
      (other = id ∧ ∃ manager later, managers.get? id = some manager ∧
        manager.supervise work = some later ∧ next.get? id = some later) := by
  obtain ⟨manager, present, supervised⟩ := Option.bind_eq_some_iff.mp supervised
  obtain ⟨later, worked, same⟩ := Option.bind_eq_some_iff.mp supervised
  cases same
  have looked : Managers.get? { managers with entries := managers.entries.insert other later } id =
      if other = id then some later else managers.get? id := Assoc.get?_insert ..
  by_cases here : other = id
  · rw [if_pos here] at looked
    rw [here] at present
    exact .inr ⟨here, manager, later, present, worked, looked⟩
  · rw [if_neg here] at looked
    exact .inl ⟨here, looked⟩

end Looking

end Managers

/-- What a step of a task leaves of a manager. -/
inductive InstanceManager.Worked (manager : InstanceManager) : Work → InstanceManager → Prop where
  | began {answers : Answers} {desired : String} (beginning : manager.beginning = some desired) :
      Worked manager (.begin answers) { manager with
        beginning := none
        supervisor := .initial manager.spec desired answers }
  | received {answers : Answers} {command : InstanceCommand} {rest : List InstanceCommand}
      (begun : manager.beginning = none) (mailbox : manager.mailbox = command :: rest) :
      Worked manager (.receive answers) { manager with
        mailbox := rest
        supervisor := manager.supervisor.handleCommand manager.spec answers command }
  | ticked {answers : Answers} (begun : manager.beginning = none) :
      Worked manager (.tick answers) { manager with
        supervisor := manager.supervisor.superviseTick manager.spec answers }

theorem InstanceManager.worked {manager next : InstanceManager} {work : Work}
    (supervised : manager.supervise work = some next) : manager.Worked work next := by
  obtain ⟨number, id, spec, beginning, supervisor, mailbox⟩ := manager
  cases beginning with
  | some desired =>
      cases work with
      | begin answers =>
          cases supervised
          exact .began rfl
      | receive answers => cases supervised
      | tick answers => cases supervised
  | none =>
      cases work with
      | begin answers => cases supervised
      | receive answers =>
          cases mailbox with
          | nil => cases supervised
          | cons command rest =>
              cases supervised
              exact .received rfl rfl
      | tick answers =>
          cases supervised
          exact .ticked rfl

/-- The answer to a heartbeat that an agent works through. -/
structure Dispatch where
  /-- The commands that are left. -/
  commands : List Command
  desired : List DesiredInstance
  /-- The highest number so far. -/
  seq : Nat
  /-- The lifetime of the plane that gave the answer. -/
  epoch : Nat
  deriving DecidableEq, Repr

/-- The loop of an agent. -/
structure AgentLoop where
  managers : Managers := {}
  lastSeq : Nat := 0
  /-- The answer being worked through; the agent is waiting for one otherwise. -/
  dispatch : Option Dispatch := none
  /-- The commands executed so far, each with the lifetime of the plane that issued it. -/
  executed : List (Nat × Command) := []
  deriving DecidableEq, Repr

namespace AgentLoop

section Definitions

variable (agent : AgentLoop)

/-- Takes up the answer to a heartbeat. -/
def take (epoch : Nat) (response : HeartbeatResponse) : AgentLoop :=
  { agent with
    dispatch := some ⟨response.commands, response.desired, agent.lastSeq, epoch⟩ }

/-- Goes on with the answer: skips or executes the next command, which is acknowledged, and
reconciles at the end. -/
def proceed (hash : HashOrder) : Option (AgentLoop × Option CommandAck) :=
  match agent.dispatch with
  | none => none
  | some dispatch =>
      match dispatch.commands with
      | [] =>
          some ({ agent with
            managers := agent.managers.reconcile hash dispatch.desired
            lastSeq := dispatch.seq
            dispatch := none }, none)
      | command :: rest =>
          if command.seq ≤ agent.lastSeq then
            some ({ agent with dispatch := some { dispatch with commands := rest } }, none)
          else
            let (ack, managers) := agent.managers.execute command
            some ({ agent with
              managers := managers
              dispatch := some { dispatch with
                commands := rest
                seq := max dispatch.seq command.seq }
              executed := agent.executed ++ [(dispatch.epoch, command)] }, some ack)

/-- The highest number that the agent has executed. -/
def mark : Nat :=
  match agent.dispatch with
  | none => agent.lastSeq
  | some dispatch => dispatch.seq

/-- The commands that are left of the answer being worked through. -/
def left : List Command :=
  match agent.dispatch with
  | none => []
  | some dispatch => dispatch.commands

end Definitions

section Proceeding

variable {agent next : AgentLoop} {hash : HashOrder} {acked : Option CommandAck}

/-- **One step of the loop.** The answer is done, its next command is skipped, or it is
executed. -/
theorem proceed_cases (proceeded : agent.proceed hash = some (next, acked)) :
    ∃ dispatch, agent.dispatch = some dispatch ∧
      ((dispatch.commands = [] ∧ next.lastSeq = dispatch.seq ∧ next.dispatch = none ∧
          next.executed = agent.executed ∧ acked = none ∧
          next.managers = agent.managers.reconcile hash dispatch.desired) ∨
        ∃ command rest, dispatch.commands = command :: rest ∧ next.lastSeq = agent.lastSeq ∧
          ((command.seq ≤ agent.lastSeq ∧
              next.dispatch = some { dispatch with commands := rest } ∧
              next.executed = agent.executed ∧ acked = none ∧ next.managers = agent.managers) ∨
            (agent.lastSeq < command.seq ∧
              next.dispatch = some { dispatch with
                commands := rest
                seq := max dispatch.seq command.seq } ∧
              next.executed = agent.executed ++ [(dispatch.epoch, command)] ∧
              acked = some (agent.managers.execute command).1 ∧
              next.managers = (agent.managers.execute command).2))) := by
  unfold proceed at proceeded
  cases working : agent.dispatch with
  | none =>
      rw [working] at proceeded
      cases proceeded
  | some dispatch =>
      rw [working] at proceeded
      dsimp only at proceeded
      refine ⟨dispatch, rfl, ?_⟩
      cases commands : dispatch.commands with
      | nil =>
          rw [commands] at proceeded
          cases proceeded
          exact .inl ⟨rfl, rfl, rfl, rfl, rfl, rfl⟩
      | cons command rest =>
          rw [commands] at proceeded
          dsimp only at proceeded
          refine .inr ⟨command, rest, rfl, ?_⟩
          by_cases old : command.seq ≤ agent.lastSeq
          · rw [if_pos old] at proceeded
            cases proceeded
            exact ⟨rfl, .inl ⟨old, rfl, rfl, rfl, rfl⟩⟩
          · rw [if_neg old] at proceeded
            cases proceeded
            exact ⟨rfl, .inr ⟨Nat.lt_of_not_le old, rfl, rfl, rfl, rfl⟩⟩

end Proceeding

end AgentLoop

end Sohara
