import Sohara.Plane.Execution

/-! # The circuit breaker

The policy of an instance bounds its restarts: the supervisor gives up once its attempts
have reached the bound, and a failed instance is launched by nothing but a start. While the
plane wants the instance to run, it answers the report of a failure with a start. So the
bound holds for the plane and the agent together just in case no start is handled while the
instance is failed.
-/

namespace Sohara

open Transition

namespace Supervisor

variable {spec : InstanceSpec} {answers : Answers} {supervisor : Supervisor}

/-- The policy allows no further restart. -/
def Spent (spec : InstanceSpec) (supervisor : Supervisor) : Prop :=
  restartBackoff spec.policy supervisor.counters.attempts = none

/-- Attempts never come back. -/
theorem Spent.mono {later : Supervisor} (spent : supervisor.Spent spec)
    (attempts : supervisor.counters.attempts ≤ later.counters.attempts) : later.Spent spec := by
  unfold Spent at *
  rw [restartBackoff_eq_none_iff] at *
  exact spent.imp id fun reached => Nat.le_trans reached attempts

/-- The instance has not been stopped, and it has failed only by its policy. -/
structure Active (spec : InstanceSpec) (supervisor : Supervisor) : Prop where
  going : supervisor.shared.state ≠ .stopped ∧ supervisor.shared.state ≠ .stopping
  failed : supervisor.shared.state = .failed → supervisor.child = none ∧ supervisor.Spent spec

/-- The launches are covered by the first one and the attempts within the bound. -/
def Budgeted (spec : InstanceSpec) (supervisor : Supervisor) : Prop :=
  supervisor.spawns.length ≤ 1 + min supervisor.counters.attempts spec.policy.maxRestarts

/-- What a tick leaves of a supervisor. -/
inductive Ticked (spec : InstanceSpec) (answers : Answers) (supervisor : Supervisor) :
    Supervisor → Prop where
  /-- The process is left alone, and the reported state follows its health. -/
  | quiet {next : Supervisor} (spawns : next.spawns = supervisor.spawns)
      (attempts : next.counters.attempts = supervisor.counters.attempts)
      (child : next.child = supervisor.child)
      (state : next.shared.state = supervisor.shared.state ∨ next.shared.state = .running ∨
        next.shared.state = .paused) : Ticked spec answers supervisor next
  /-- The restart policy is applied. -/
  | applied (base : Supervisor) (spawns : base.spawns = supervisor.spawns)
      (attempts : base.counters.attempts = supervisor.counters.attempts) :
      Ticked spec answers supervisor (base.restartOrFail spec answers)
  /-- The process of a stopping instance is gone. -/
  | stopped {next : Supervisor} (stopping : supervisor.shared.state = .stopping) :
      Ticked spec answers supervisor next

theorem ticked_failProbe :
    Ticked spec answers supervisor (supervisor.failProbe.checkHealthRestart spec answers) := by
  unfold checkHealthRestart
  split
  · exact .applied _ rfl rfl
  · exact .quiet rfl rfl rfl (.inl rfl)

theorem ticked_superviseTick :
    Ticked spec answers supervisor (supervisor.superviseTick spec answers) := by
  unfold superviseTick
  split
  · dsimp only
    split
    · next stopping => exact .stopped stopping
    · exact .applied _ rfl rfl
  · split
    · exact .quiet rfl rfl rfl (.inl rfl)
    · split
      · exact .quiet rfl rfl rfl (.inl rfl)
      · split
        · next health _ =>
          unfold applyHealth
          split
          · exact ticked_failProbe
          · refine .quiet rfl rfl rfl ?_
            dsimp only
            split
            · exact .inr (.inr rfl)
            · split
              · exact .inr (.inl rfl)
              · exact .inl rfl
        · exact ticked_failProbe

section Launching

variable (launches : ∀ bin args, (answers.spawn bin args).isSome = true)
include launches

theorem active_spawnChild : (supervisor.spawnChild spec answers).Active spec := by
  have running := (@launched_spawnChild spec answers supervisor launches).2
  constructor
  · rw [running]
    exact ⟨by decide, by decide⟩
  · intro failed
    rw [running] at failed
    cases failed

/-- A restart by the policy, or its refusal, leaves an active instance. -/
theorem active_restartOrFail : (supervisor.restartOrFail spec answers).Active spec := by
  unfold restartOrFail
  dsimp only
  cases allowed : restartBackoff spec.policy supervisor.countAttempt.counters.attempts with
  | some backoff =>
      have launched := @active_spawnChild spec answers
        (supervisor.countAttempt.setState .restarting).terminateChild launches
      refine ⟨launched.going, fun failed => ?_⟩
      obtain ⟨idle, spent⟩ := launched.failed failed
      exact ⟨idle, spent⟩
  | none =>
      constructor
      · exact ⟨(fun state => nomatch state), (fun state => nomatch state)⟩
      · exact fun _ => ⟨rfl, allowed⟩

theorem Active.ticked {next : Supervisor} (active : supervisor.Active spec)
    (ticked : Ticked spec answers supervisor next) : next.Active spec := by
  cases ticked with
  | quiet spawns attempts child state =>
      constructor
      · rcases state with same | running | paused
        · rw [same]
          exact active.going
        · rw [running]
          exact ⟨by decide, by decide⟩
        · rw [paused]
          exact ⟨by decide, by decide⟩
      · intro failed
        rcases state with same | running | paused
        · rw [same] at failed
          obtain ⟨idle, spent⟩ := active.failed failed
          exact ⟨child.trans idle, spent.mono attempts.ge⟩
        · rw [running] at failed
          cases failed
        · rw [paused] at failed
          cases failed
  | applied base spawns attempts => exact active_restartOrFail launches
  | stopped stopping => exact absurd stopping active.going.2

/-- Starting and resuming keep an instance active. -/
theorem Active.start (active : supervisor.Active spec) :
    (supervisor.handleCommand spec answers .start).Active spec := by
  unfold handleCommand
  dsimp only
  split
  · exact active_spawnChild launches
  · exact active_spawnChild launches
  · exact active

theorem active_initial : (initial spec "running" answers).Active spec := by
  unfold initial
  rw [if_pos (by decide), if_neg (by decide)]
  exact active_spawnChild launches

end Launching

/-- A resume leaves the process alone. -/
theorem resumeInstance_cases : supervisor.resumeInstance spec answers = supervisor ∨
    ((supervisor.resumeInstance spec answers).shared.state = .running ∧
      (supervisor.resumeInstance spec answers).spawns = supervisor.spawns ∧
      (supervisor.resumeInstance spec answers).counters = supervisor.counters) := by
  rw [resumeInstance_eq]
  split
  · exact .inr ⟨rfl, rfl, rfl⟩
  · exact .inl rfl

theorem Active.resume (active : supervisor.Active spec) :
    (supervisor.handleCommand spec answers .resume).Active spec := by
  change (supervisor.resumeInstance spec answers).Active spec
  rcases @resumeInstance_cases spec answers supervisor with same | ⟨running, -, -⟩
  · rw [same]
    exact active
  · constructor
    · rw [running]
      exact ⟨by decide, by decide⟩
    · intro failed
      rw [running] at failed
      cases failed

theorem spawns_resume : (supervisor.handleCommand spec answers .resume).spawns =
    supervisor.spawns := by
  change (supervisor.resumeInstance spec answers).spawns = _
  rcases @resumeInstance_cases spec answers supervisor with same | ⟨-, spawns, -⟩
  · rw [same]
  · exact spawns

section Budget

/-- The restart policy stays within the budget. -/
theorem Budgeted.restartOrFail (budgeted : supervisor.Budgeted spec) :
    (supervisor.restartOrFail spec answers).Budgeted spec := by
  unfold Budgeted at *
  rw [attempts_restartOrFail]
  rcases @restartOrFail_cases spec answers supervisor with
    ⟨-, -, spawns, allowed⟩ | ⟨-, -, -, spawns⟩
  · obtain ⟨bin, args, launched⟩ := @spawns_spawnChild spec answers supervisor.emptied
    have within : supervisor.counters.attempts + 1 < spec.policy.maxRestarts := by
      by_contra beyond
      have refused := restartBackoff_eq_none_iff.mpr (.inr (Nat.le_of_not_lt beyond))
      rw [refused] at allowed
      cases allowed
    have one : supervisor.emptied.spawns = supervisor.spawns := rfl
    rw [spawns, launched, List.length_append, one, List.length_singleton]
    omega
  · rw [spawns]
    omega

theorem Budgeted.ticked {next : Supervisor} (budgeted : supervisor.Budgeted spec)
    (active : supervisor.Active spec) (ticked : Ticked spec answers supervisor next) :
    next.Budgeted spec := by
  cases ticked with
  | quiet spawns attempts child state =>
      unfold Budgeted
      rw [spawns, attempts]
      exact budgeted
  | applied base spawns attempts =>
      apply Budgeted.restartOrFail
      unfold Budgeted
      rw [spawns, attempts]
      exact budgeted
  | stopped stopping => exact absurd stopping active.going.2

theorem budgeted_initial : (initial spec "running" answers).Budgeted spec := by
  unfold initial
  rw [if_pos (by decide), if_neg (by decide)]
  obtain ⟨bin, args, launched⟩ := @spawns_spawnChild spec answers (new spec)
  unfold Budgeted
  rw [launched]
  exact Nat.le_add_right 1 _

theorem Budgeted.bounded (budgeted : supervisor.Budgeted spec) :
    supervisor.spawns.length ≤ 1 + spec.policy.maxRestarts :=
  Nat.le_trans budgeted (Nat.add_le_add_left (Nat.min_le_right _ _) 1)

end Budget

end Supervisor

namespace InstanceManager

variable {manager next : InstanceManager} {work : Work}

/-- The manager of an instance that is wanted running: nothing but starts and resumes wait,
and its task is active, once it has begun. -/
structure Steady (manager : InstanceManager) : Prop where
  mailbox : ∀ command ∈ manager.mailbox, command = .start ∨ command = .resume
  fresh : ∀ desired, manager.beginning = some desired →
    desired = "running" ∧ manager.supervisor = .new manager.spec
  active : manager.beginning = none → manager.supervisor.Active manager.spec

/-- The next step of the task handles a start while the instance is failed. -/
def Revives (manager : InstanceManager) (work : Work) : Prop :=
  (∃ answers, work = .receive answers) ∧ manager.mailbox.head? = some .start ∧
    manager.supervisor.shared.state = .failed

theorem steady_spawnWithDesired (number : Nat) (spec : InstanceSpec) :
    (spawnWithDesired number spec "running").Steady := by
  constructor
  · exact fun _ member => nomatch member
  · intro desired beginning
    cases beginning
    exact ⟨rfl, rfl⟩
  · exact fun begun => nomatch begun

theorem Steady.send (steady : manager.Steady) {command : InstanceCommand}
    (wanted : command = .start ∨ command = .resume) : (manager.send command).Steady := by
  refine ⟨?_, steady.fresh, steady.active⟩
  intro other member
  rcases List.mem_append.mp member with earlier | here
  · exact steady.mailbox other earlier
  · rw [List.mem_singleton.mp here]
    exact wanted

/-- The task keeps the manager steady. -/
theorem Steady.worked (steady : manager.Steady) (worked : manager.Worked work next)
    (launches : ∀ bin args, (work.answers.spawn bin args).isSome = true) : next.Steady := by
  cases worked with
  | began beginning =>
      obtain ⟨running, -⟩ := steady.fresh _ beginning
      subst running
      exact ⟨steady.mailbox, (fun _ beginning => nomatch beginning),
        fun _ => Supervisor.active_initial launches⟩
  | @received answers command rest begun mailbox =>
      have handled : (manager.supervisor.handleCommand manager.spec answers command).Active
          manager.spec := by
        have wanted := steady.mailbox command (mailbox ▸ List.mem_cons_self)
        rcases wanted with rfl | rfl
        · exact (steady.active begun).start launches
        · exact (steady.active begun).resume
      refine ⟨fun other member => ?_, fun desired beginning => ?_, fun _ => handled⟩
      · exact steady.mailbox other (mailbox ▸ List.mem_cons_of_mem _ member)
      · exact absurd (beginning : manager.beginning = some desired) (by rw [begun]; simp)
  | ticked begun =>
      refine ⟨steady.mailbox, fun desired beginning => ?_, fun _ => ?_⟩
      · exact absurd (beginning : manager.beginning = some desired) (by rw [begun]; simp)
      · exact (steady.active begun).ticked launches Supervisor.ticked_superviseTick

/-- Without a revival the launches stay within the budget, and a failed instance is not
launched. -/
theorem Steady.budgeted (steady : manager.Steady) (worked : manager.Worked work next)
    (calm : ¬ manager.Revives work) :
    (manager.supervisor.Budgeted manager.spec → next.supervisor.Budgeted next.spec) ∧
      (manager.supervisor.shared.state = .failed →
        next.supervisor.spawns = manager.supervisor.spawns) := by
  cases worked with
  | began beginning =>
      obtain ⟨running, new⟩ := steady.fresh _ beginning
      subst running
      refine ⟨fun _ => Supervisor.budgeted_initial, fun failed => ?_⟩
      rw [new] at failed
      cases failed
  | @received answers command rest begun mailbox =>
      have active := steady.active begun
      dsimp only
      rcases steady.mailbox command (mailbox ▸ List.mem_cons_self) with rfl | rfl
      · have idle : manager.supervisor.handleCommand manager.spec answers .start =
            manager.supervisor := by
          unfold Supervisor.handleCommand
          dsimp only
          split
          · next stopped => exact absurd stopped active.going.1
          · next failed =>
            exact absurd ⟨⟨answers, rfl⟩, congrArg List.head? mailbox, failed⟩ calm
          · rfl
        rw [idle]
        exact ⟨fun budgeted => budgeted, fun _ => rfl⟩
      · refine ⟨fun budgeted => ?_, fun _ => Supervisor.spawns_resume⟩
        change (manager.supervisor.resumeInstance manager.spec answers).Budgeted manager.spec
        rcases @Supervisor.resumeInstance_cases manager.spec answers manager.supervisor with
          same | ⟨-, spawns, counters⟩
        · rw [same]
          exact budgeted
        · unfold Supervisor.Budgeted
          rw [spawns, counters]
          exact budgeted
  | ticked begun =>
      have active := steady.active begun
      refine ⟨fun budgeted => budgeted.ticked active Supervisor.ticked_superviseTick,
        fun failed => ?_⟩
      dsimp only
      rw [Supervisor.superviseTick_of_idle (active.failed failed).1]

end InstanceManager

namespace Inner

/-- A plane on which instances have been declared. -/
def declaring (decls : List InstanceDecl) : Inner :=
  decls.foldl (fun inner decl => inner.declareInstance decl) {}

/-- Every instance is declared under its own id, which its spec has too. -/
def Authoritative (inner : Inner) : Prop :=
  ∀ id decl, inner.instances.get? id = some decl → decl.id = id ∧ decl.spec.id = id

theorem declaring_keeps (decls : List InstanceDecl) :
    (declaring decls).Authoritative ∧ (declaring decls).commands = fun _ => [] := by
  have init : (({} : Inner).Authoritative ∧ ({} : Inner).commands = fun _ => []) := by
    refine ⟨fun id decl present => ?_, rfl⟩
    cases present
  refine @foldl_keeps _ _ _ _
    (fun inner : Inner => inner.Authoritative ∧ inner.commands = fun _ => []) init ?_ decls
  intro inner decl ⟨authoritative, commands⟩
  refine ⟨fun id found present => ?_, commands⟩
  unfold declareInstance at present
  dsimp only at present
  rw [Assoc.get?_insert] at present
  by_cases here : decl.id = id
  · rw [if_pos here] at present
    cases present
    exact ⟨here, here⟩
  · rw [if_neg here] at present
    exact authoritative id found present

/-- The desired list of an answer. -/
theorem heartbeat_desired (hash : HashOrder) (time : String) (beat : Heartbeat) (inner : Inner) :
    (inner.heartbeat hash time beat).1.desired =
      (inner.declaredFor hash beat.nodeId).map fun decl => ⟨decl.spec, decl.desired.text⟩ := by
  have same : (inner.recorded time beat).declaredFor hash beat.nodeId =
      inner.declaredFor hash beat.nodeId := by
    unfold declaredFor
    rw [instances_recorded]
  rw [← same]
  rfl

end Inner

/-- A command for the instance starts or resumes it. -/
def Command.Wanted (id : String) (command : Command) : Prop :=
  command.instance_ = id → command.op = "start" ∨ command.op = "resume"

/-- The desired list has the instance, as running. -/
def Listed (id : String) (desired : List DesiredInstance) : Prop :=
  (∃ item ∈ desired, item.spec.id = id) ∧
    ∀ item ∈ desired, item.spec.id = id → item.desired = "running"

namespace ControlLoop

variable {control next last : ControlLoop} {event : LoopEvent} {decl : InstanceDecl}
  {moments : List (Moment LoopEvent ControlLoop)} {moment : Moment LoopEvent ControlLoop}

section Definitions

/-- The manager of an instance. -/
def manager? (node id : String) (control : ControlLoop) : Option InstanceManager :=
  (control.agents node).managers.get? id

/-- No operator changes a declaration, and a restarted plane has the same ones. -/
def Unattended (moment : Moment LoopEvent ControlLoop) : Prop :=
  ∀ id, moment.after.registry.instances.get? id = moment.before.registry.instances.get? id

/-- Launching the process of the instance succeeds; it may exit at any time. -/
def Launches (node id : String) (moment : Moment LoopEvent ControlLoop) : Prop :=
  ∀ work, moment.event = .supervise node id work →
    ∀ bin args, (work.answers.spawn bin args).isSome = true

/-- **The circuit breaker holds**: the instance keeps its manager, its process has been
launched at most once more than its policy allows restarts, and it is not launched once
it has failed and the budget is spent. -/
structure Breaks (node id : String) (moment : Moment LoopEvent ControlLoop) : Prop where
  kept : ∀ manager, moment.before.manager? node id = some manager →
    ∃ later, moment.after.manager? node id = some later ∧ later.number = manager.number
  bounded : ∀ manager, moment.after.manager? node id = some manager →
    manager.supervisor.spawns.length ≤ 1 + manager.spec.policy.maxRestarts
  final : ∀ manager later, moment.before.manager? node id = some manager →
    moment.after.manager? node id = some later → manager.supervisor.shared.state = .failed →
      manager.supervisor.Spent manager.spec →
        later.supervisor.spawns = manager.supervisor.spawns

/-- The supervisor of the instance handles a start while the instance is failed. -/
def Revived (node id : String) (moment : Moment LoopEvent ControlLoop) : Prop :=
  ∃ work manager, moment.event = .supervise node id work ∧
    moment.before.manager? node id = some manager ∧ manager.Revives work

end Definitions

section Tending

/-- What a step can do to the managers of a node. -/
theorem managers_cases (stepped : control.step event = some next) (node : String) :
    (next.agents node).managers = (control.agents node).managers ∨
      (∃ hash acked, (control.agents node).proceed hash = some (next.agents node, acked)) ∨
      ∃ id work, event = .supervise node id work ∧
        (control.agents node).managers.supervise id work =
          some (next.agents node).managers := by
  cases event with
  | supervise other id work =>
      obtain ⟨managers, supervised, same⟩ := Option.bind_eq_some_iff.mp stepped
      cases same
      by_cases here : node = other
      · subst here
        refine .inr (.inr ⟨id, work, rfl, ?_⟩)
        rw [agents_setAgent, if_pos rfl]
        exact supervised
      · refine .inl ?_
        rw [agents_setAgent, if_neg here]
  | proceed other hash =>
      obtain ⟨⟨agent, acked⟩, proceeded, same⟩ := Option.bind_eq_some_iff.mp stepped
      cases same
      by_cases here : node = other
      · subst here
        have moved : (control.setAgent node agent).agents node = agent :=
          (agents_setAgent node agent).trans (if_pos rfl)
        have gone := proceeded.trans (congrArg (fun next => some (next, acked)) moved.symm)
        exact .inr (.inl ⟨hash, acked, gone⟩)
      · have same : (control.setAgent other agent).agents node = control.agents node :=
          (agents_setAgent node agent).trans (if_neg here)
        exact .inl (congrArg AgentLoop.managers same)
  | heartbeat hash time beat arrives =>
      unfold step at stepped
      dsimp only at stepped
      split at stepped
      · cases stepped
        exact .inl rfl
      · cases stepped
      · cases stepped
        refine .inl ?_
        rw [agents_setAgent]
        by_cases here : node = beat.nodeId
        · rw [if_pos here, here]
          rfl
        · rw [if_neg here]
  | ack ack =>
      unfold step at stepped
      dsimp only at stepped
      split at stepped
      · cases stepped
        exact .inl rfl
      · cases stepped
  | call call =>
      cases stepped
      exact .inl rfl
  | restart flows instances routes =>
      cases stepped
      exact .inl rfl

/-- A system that tends an instance as running: the declarations are those of a registry,
nothing but starts and resumes of the instance are under way, every answer lists it as
running, and its manager is steady. -/
structure Tended (registry : Inner) (decl : InstanceDecl) (control : ControlLoop) : Prop where
  declared : ∀ id, control.registry.instances.get? id = registry.instances.get? id
  waiting : ∀ command ∈ control.registry.commands decl.node, command.Wanted decl.id
  left : ∀ command ∈ (control.agents decl.node).left, command.Wanted decl.id
  listed : ∀ dispatch, (control.agents decl.node).dispatch = some dispatch →
    Listed decl.id dispatch.desired
  steady : ∀ manager, control.manager? decl.node decl.id = some manager → manager.Steady

/-- What happens to the manager of a tended instance. -/
inductive Tending (decl : InstanceDecl) (event : LoopEvent) :
    Option InstanceManager → Option InstanceManager → Prop where
  | same (manager : Option InstanceManager) : Tending decl event manager manager
  | sent (manager : InstanceManager) {command : InstanceCommand}
      (wanted : command = .start ∨ command = .resume) :
      Tending decl event (some manager) (some (manager.send command))
  | worked {manager later : InstanceManager} {work : Work}
      (here : event = .supervise decl.node decl.id work) (worked : manager.Worked work later) :
      Tending decl event (some manager) (some later)
  | created (number : Nat) (spec : InstanceSpec) :
      Tending decl event none (some (.spawnWithDesired number spec "running"))

/-- **One step** of a tended system, at the manager of the instance. -/
theorem Tended.tending {registry : Inner} (tended : Tended registry decl control)
    (stepped : control.step event = some next) :
    Tending decl event (control.manager? decl.node decl.id) (next.manager? decl.node decl.id) := by
  unfold manager?
  rcases managers_cases stepped decl.node with
    same | ⟨hash, acked, goes⟩ | ⟨id, work, here, supervised⟩
  · rw [same]
    exact .same _
  · obtain ⟨dispatch, working, steps⟩ := AgentLoop.proceed_cases goes
    rcases steps with ⟨-, -, -, -, -, managers⟩ |
      ⟨command, rest, commands, -, ⟨-, -, -, -, managers⟩ | ⟨-, -, -, -, managers⟩⟩
    · obtain ⟨⟨item, member, named⟩, running⟩ := tended.listed dispatch working
      rw [managers, Managers.get?_reconcile, if_pos ⟨item, member, named⟩]
      cases present : (control.agents decl.node).managers.get? decl.id with
      | some manager =>
          rw [Managers.get?_spawned_of_some present]
          exact .same _
      | none =>
          rcases @Managers.get?_spawned_of_none _ dispatch.desired _ present with
            ⟨others, -⟩ | ⟨other, inside, same, number, started⟩
          · exact absurd named (others item member)
          · rw [started, running other inside same]
            exact .created number other.spec
    · rw [managers]
      exact .same _
    · rw [managers]
      rcases @Managers.get?_execute (control.agents decl.node).managers decl.id command with
        same | ⟨op, manager, parsed, named, present, sent⟩
      · rw [same]
        exact .same _
      · rw [present, sent]
        refine .sent manager ?_
        have inside : command ∈ (control.agents decl.node).left := by
          unfold AgentLoop.left
          rw [working]
          dsimp only
          rw [commands]
          exact List.mem_cons_self
        rcases tended.left command inside named with start | resume
        · rw [start] at parsed
          cases parsed
          exact .inl rfl
        · rw [resume] at parsed
          cases parsed
          exact .inr rfl
  · rcases @Managers.get?_supervise _ _ decl.id _ _ supervised with
      ⟨-, same⟩ | ⟨named, manager, later, present, worked, after⟩
    · rw [same]
      exact .same _
    · rw [present, after]
      rw [named] at here
      exact .worked here (InstanceManager.worked worked)

/-- The manager of a tended instance stays steady. -/
theorem Tending.steady {node id : String} {before after : Option InstanceManager}
    (here : decl.node = node ∧ decl.id = id) (tending : Tending decl event before after)
    (steady : ∀ manager, before = some manager → manager.Steady)
    (launches : Launches node id ⟨control, event, next⟩) :
    ∀ manager, after = some manager → manager.Steady := by
  obtain ⟨rfl, rfl⟩ := here
  intro manager present
  cases tending with
  | same => exact steady manager present
  | sent earlier wanted =>
      cases present
      exact (steady earlier rfl).send wanted
  | worked named worked =>
      cases present
      exact (steady _ rfl).worked worked (launches _ named)
  | created number spec =>
      cases present
      exact InstanceManager.steady_spawnWithDesired number spec

/-- A tended instance keeps its manager. -/
theorem Tending.kept {before after : Option InstanceManager}
    (tending : Tending decl event before after) {manager : InstanceManager}
    (present : before = some manager) :
    ∃ later, after = some later ∧ later.number = manager.number := by
  cases tending with
  | same => exact ⟨manager, present, rfl⟩
  | sent earlier wanted =>
      cases present
      exact ⟨_, rfl, rfl⟩
  | worked named worked =>
      cases present
      cases worked <;> exact ⟨_, rfl, rfl⟩
  | created number spec => cases present

/-- Without a revival the launches stay within the budget, and a failed instance is not
launched. -/
theorem Tending.budgeted {before after : Option InstanceManager}
    (tending : Tending decl event before after)
    (steady : ∀ manager, before = some manager → manager.Steady)
    (calm : ∀ manager work, before = some manager →
      event = .supervise decl.node decl.id work → ¬ manager.Revives work) :
    ((∀ manager, before = some manager → manager.supervisor.Budgeted manager.spec) →
        ∀ manager, after = some manager → manager.supervisor.Budgeted manager.spec) ∧
      ∀ manager later, before = some manager → after = some later →
        manager.supervisor.shared.state = .failed →
          later.supervisor.spawns = manager.supervisor.spawns := by
  cases tending with
  | same =>
      refine ⟨fun budgeted => budgeted, fun manager later present after _ => ?_⟩
      rw [present] at after
      cases after
      rfl
  | sent earlier wanted =>
      refine ⟨fun budgeted manager present => ?_, fun manager later present after _ => ?_⟩
      · cases present
        exact budgeted earlier rfl
      · cases present
        cases after
        rfl
  | @worked earlier later work named worked =>
      have kept := (steady earlier rfl).budgeted worked (calm earlier work rfl named)
      refine ⟨fun budgeted manager present => ?_, fun manager later present after failed => ?_⟩
      · cases present
        exact kept.1 (budgeted earlier rfl)
      · cases present
        cases after
        exact kept.2 failed
  | created number spec =>
      refine ⟨fun _ manager present => ?_, fun manager later present => nomatch present⟩
      cases present
      exact Nat.zero_le _

variable {registry : Inner} (authoritative : registry.Authoritative)
  (declared : registry.instances.get? decl.id = some decl) (wanted : decl.desired = .running)
include authoritative declared wanted

omit declared wanted in
/-- What is declared under the registry is found under its id. -/
theorem Tended.found (tended : Tended registry decl control) {id : String}
    {other : InstanceDecl} (present : control.registry.instances.get? id = some other) :
    registry.instances.get? other.id = some other ∧ other.spec.id = other.id := by
  rw [tended.declared] at present
  obtain ⟨named, same⟩ := authoritative id other present
  rw [named]
  exact ⟨present, same⟩

/-- What a heartbeat of a tended system answers: starts and resumes of the instance, and a
list that has it as running. -/
theorem Tended.heartbeat (tended : Tended registry decl control) (hash : HashOrder)
    (time : String) (beat : Heartbeat) (here : beat.nodeId = decl.node) :
    (∀ command ∈ (control.registry.heartbeat hash time beat).2.commands decl.node,
        command.Wanted decl.id) ∧
      Listed decl.id (control.registry.heartbeat hash time beat).1.desired := by
  constructor
  · intro command member named
    rw [← here] at member
    rcases Inner.mem_heartbeat hash time beat member with
      old | ⟨-, other, ⟨id, present⟩, -, op, ⟨report, -, called⟩, equal, same⟩
    · rw [here] at old
      exact tended.waiting command old named
    · obtain ⟨found, -⟩ := tended.found authoritative present
      rw [equal.symm.trans named, declared] at found
      cases found
      rw [wanted] at called
      rw [same]
      cases state : report.state <;> rw [state] at called <;> cases called <;> decide
  · rw [Inner.heartbeat_desired, here]
    constructor
    · refine ⟨⟨decl.spec, decl.desired.text⟩, List.mem_map.mpr ⟨decl, ?_, rfl⟩, ?_⟩
      · refine (Inner.mem_declaredFor hash).mpr ⟨⟨decl.id, ?_⟩, rfl⟩
        rw [tended.declared]
        exact declared
      · exact (authoritative _ _ declared).2
    · intro item member named
      obtain ⟨other, inside, rfl⟩ := List.mem_map.mp member
      obtain ⟨⟨id, present⟩, -⟩ := (Inner.mem_declaredFor hash).mp inside
      obtain ⟨found, same⟩ := tended.found authoritative present
      rw [← same, named, declared] at found
      cases found
      rw [wanted]
      rfl

/-- **One step** without operators keeps a system tended. -/
theorem Tended.step (tended : Tended registry decl control)
    (stepped : control.step event = some next) (unattended : Unattended ⟨control, event, next⟩)
    (launches : Launches decl.node decl.id ⟨control, event, next⟩) :
    Tended registry decl next := by
  have same : ∀ id, next.registry.instances.get? id = registry.instances.get? id := fun id =>
    (unattended id).trans (tended.declared id)
  have steady := (tended.tending stepped).steady ⟨rfl, rfl⟩ tended.steady launches
  suffices rest : (∀ command ∈ next.registry.commands decl.node, command.Wanted decl.id) ∧
      (∀ command ∈ (next.agents decl.node).left, command.Wanted decl.id) ∧
      ∀ dispatch, (next.agents decl.node).dispatch = some dispatch →
        Listed decl.id dispatch.desired from
    ⟨same, rest.1, rest.2.1, rest.2.2, steady⟩
  cases atNode stepped decl.node with
  | quiet commands counter epoch agent =>
      rw [commands, agent.left, agent.dispatch]
      exact ⟨tended.waiting, tended.left, tended.listed⟩
  | @lost hash time beat here registry epoch agent =>
      rw [registry, agent.left, agent.dispatch]
      exact ⟨(tended.heartbeat authoritative declared wanted hash time beat here).1, tended.left,
        tended.listed⟩
  | @taken hash time beat here registry epoch waits agent =>
      obtain ⟨starts, listed⟩ :=
        tended.heartbeat authoritative declared wanted hash time beat here
      rw [registry, agent]
      refine ⟨starts, ?_, fun dispatch working => ?_⟩
      · rw [← here] at starts ⊢
        exact starts
      · cases working
        exact listed
  | proceeds registry epoch goes =>
      rw [registry]
      refine ⟨tended.waiting, ?_⟩
      obtain ⟨dispatch, working, steps⟩ := AgentLoop.proceed_cases goes
      have left := tended.left
      have listed := tended.listed dispatch working
      unfold AgentLoop.left at *
      rw [working] at left
      dsimp only at left
      rcases steps with ⟨-, -, done, -⟩ |
        ⟨command, rest, commands, -, ⟨-, moved, -⟩ | ⟨-, moved, -⟩⟩
      · rw [done]
        exact ⟨(fun _ member => nomatch member), (fun _ working => nomatch working)⟩
      · rw [moved]
        rw [commands] at left
        refine ⟨fun other member => left other (List.mem_cons_of_mem _ member), ?_⟩
        intro later working
        cases working
        exact listed
      · rw [moved]
        rw [commands] at left
        refine ⟨fun other member => left other (List.mem_cons_of_mem _ member), ?_⟩
        intro later working
        cases working
        exact listed
  | @acked ack registry epoch agent =>
      rw [registry, agent.left, agent.dispatch, Inner.commands_ack]
      exact ⟨fun command member => tended.waiting command (List.mem_of_mem_filter member),
        tended.left, tended.listed⟩
  | restarted commands agent =>
      rw [commands, agent.left, agent.dispatch]
      exact ⟨(fun _ member => nomatch member), tended.left, tended.listed⟩

end Tending

section Breaker

/-- A new plane with declared instances tends each of them. -/
theorem tended_start (decls : List InstanceDecl) (configs : String → List InstanceSpec)
    (decl : InstanceDecl) : Tended (.declaring decls) decl (start (.declaring decls) configs) := by
  constructor
  · exact fun id => rfl
  · intro command member
    change command ∈ (Inner.declaring decls).commands decl.node at member
    rw [(Inner.declaring_keeps decls).2] at member
    cases member
  · exact fun _ member => nomatch member
  · exact fun _ working => nomatch working
  · intro manager present
    obtain ⟨number, spec, rfl⟩ := Managers.get?_new present
    exact InstanceManager.steady_spawnWithDesired number spec

/-- A revival launches the process of a failed instance whose budget is spent. -/
theorem not_breaks_of_revived {registry : Inner} (tended : Tended registry decl moment.before)
    (stepped : step moment.event moment.before = some moment.after)
    (revived : Revived decl.node decl.id moment) : ¬ Breaks decl.node decl.id moment := by
  obtain ⟨work, manager, happens, present, ⟨answers, rfl⟩, first, failed⟩ := revived
  intro breaks
  rw [happens] at stepped
  obtain ⟨managers, supervised, same⟩ := Option.bind_eq_some_iff.mp stepped
  have changed : (moment.after.agents decl.node).managers = managers := by
    rw [← Option.some.inj same, agents_setAgent, if_pos rfl]
  rcases @Managers.get?_supervise _ _ decl.id _ _ supervised with
    ⟨different, -⟩ | ⟨-, found, later, present', worked, after⟩
  · exact different rfl
  · rw [← changed] at after
    cases (present'.symm.trans present : some found = some manager)
    cases InstanceManager.worked worked with
    | @received _ command rest begun mailbox =>
        rw [mailbox] at first
        cases first
        obtain ⟨-, spent⟩ := ((tended.steady manager present).active begun).failed failed
        have kept := breaks.final manager _ present after failed spent
        obtain ⟨bin, args, launched⟩ := @Supervisor.spawns_spawnChild manager.spec answers
          manager.supervisor
        have handled : manager.supervisor.handleCommand manager.spec answers .start =
            manager.supervisor.spawnChild manager.spec answers := by
          unfold Supervisor.handleCommand
          rw [failed]
        dsimp only at kept
        rw [handled, launched] at kept
        have longer := congrArg List.length kept
        rw [List.length_append, List.length_singleton] at longer
        omega

/-- **When the circuit breaker holds.** In a run of a plane and its agents without operators,
with an instance declared as running whose launches succeed, the breaker holds at every step
just in case no start is handled while the instance is failed. -/
theorem breaks_iff (decls : List InstanceDecl) (configs : String → List InstanceSpec)
    (declared : (Inner.declaring decls).instances.get? decl.id = some decl)
    (wanted : decl.desired = .running)
    (run : Run step (start (.declaring decls) configs) moments last)
    (unattended : ∀ moment ∈ moments, Unattended moment)
    (launches : ∀ moment ∈ moments, Launches decl.node decl.id moment) :
    (∀ moment ∈ moments, Breaks decl.node decl.id moment) ↔
      ∀ moment ∈ moments, ¬ Revived decl.node decl.id moment := by
  have authoritative := (Inner.declaring_keeps decls).1
  have begins := tended_start decls configs decl
  constructor
  · intro breaks moment member revived
    obtain ⟨-, each⟩ := @Run.guarded _ _ _ _ _ _ _
      (fun moment => Unattended moment ∧ Launches decl.node decl.id moment) run begins
      (fun _ _ _ tended stepped allowed =>
        tended.step authoritative declared wanted stepped allowed.1 allowed.2)
      fun moment member => ⟨unattended moment member, launches moment member⟩
    obtain ⟨stepped, tended, -⟩ := each moment member
    exact not_breaks_of_revived tended stepped revived (breaks moment member)
  · intro calm
    have within : ∀ event before after, Tended (.declaring decls) decl before →
        step event before = some after → ¬ Revived decl.node decl.id ⟨before, event, after⟩ →
          _ := fun event before after tended stepped quiet =>
      (tended.tending stepped).budgeted tended.steady fun manager work present here revives =>
        quiet ⟨work, manager, here, present, revives⟩
    obtain ⟨-, each⟩ := @Run.guarded _ _ _ _ _ _
      (fun control => Tended (.declaring decls) decl control ∧
        ∀ manager, control.manager? decl.node decl.id = some manager →
          manager.supervisor.Budgeted manager.spec)
      (fun moment => (Unattended moment ∧ Launches decl.node decl.id moment) ∧
        ¬ Revived decl.node decl.id moment) run
      ⟨begins, fun manager present => by
        obtain ⟨number, spec, rfl⟩ := Managers.get?_new present
        exact Nat.zero_le _⟩
      (fun event before after tended stepped allowed =>
        ⟨tended.1.step authoritative declared wanted stepped allowed.1.1 allowed.1.2,
          (within event before after tended.1 stepped allowed.2).1 tended.2⟩)
      fun moment member =>
        ⟨⟨unattended moment member, launches moment member⟩, calm moment member⟩
    intro moment member
    obtain ⟨stepped, ⟨tended, -⟩, -, budgeted⟩ := each moment member
    constructor
    · exact fun manager present => (tended.tending stepped).kept present
    · exact fun manager present => (budgeted manager present).bounded
    · intro manager later present after failed _
      exact (within _ _ _ tended stepped (calm moment member)).2 manager later present after failed

/-- Whether an event can change the declarations. -/
def declares : LoopEvent → Bool
  | .call _ => true
  | .restart _ _ _ => true
  | _ => false

/-- The agents do not change the declarations. -/
theorem unattended_of_agents (stepped : step moment.event moment.before = some moment.after)
    (agents : declares moment.event = false) : Unattended moment := by
  obtain ⟨before, event, after⟩ := moment
  intro id
  dsimp only at stepped agents ⊢
  rw [registry_step stepped]
  cases event with
  | call call => cases agents
  | heartbeat hash time beat arrives =>
      exact congrArg (Assoc.get? id) (Inner.instances_heartbeat hash time beat)
  | proceed node hash => rfl
  | supervise node other work => rfl
  | ack ack => rfl
  | restart flows instances routes => cases agents

end Breaker

end ControlLoop

namespace Sample

open ControlLoop

/-- A worker that its policy allows one restart attempt. -/
def pressDecl : InstanceDecl :=
  { id := "p1", node := "n1",
    spec := { id := "p1", flow := "p.yaml", policy := { maxRestarts := 1 } } }

/-- A new plane with the declared worker, and agents without instances of their own. -/
def pressPlane : ControlLoop := start (.declaring [pressDecl]) fun _ => []

/-- The agent learns about the worker and launches it, and the process exits. -/
def pressExits : List LoopEvent :=
  [.heartbeat keyOrder "10:00:00" ⟨"n1", "09:59:59", []⟩ true, .proceed "n1" keyOrder,
    .supervise "n1" "p1" (.begin allWell), .supervise "n1" "p1" (.tick allExit)]

/-- The node reports the failure, the agent executes the start that is answered, and the
supervisor handles it. -/
def pressRevived (restarts : Nat) : List LoopEvent :=
  [.heartbeat keyOrder "10:00:05"
      ⟨"n1", "10:00:04", [⟨"p1", .failed, false, false, restarts, none, none⟩]⟩ true,
    .proceed "n1" keyOrder, .proceed "n1" keyOrder, .supervise "n1" "p1" (.receive allWell)]

/-- The first failure is revived, the start is acknowledged, the process exits again, and
the second failure is revived as well. -/
def pressCycles : List LoopEvent :=
  pressExits ++ pressRevived 1 ++
    [.ack ⟨1, true, none⟩, .supervise "n1" "p1" (.tick allExit)] ++ pressRevived 2

/-- As long as nothing revives the worker the breaker holds. -/
theorem pressExits_breaks : ∃ moments last, Run step pressPlane moments last ∧
    ∀ moment ∈ moments, Breaks "n1" "p1" moment := by
  have played : play step pressPlane pressExits = some (_, _) := rfl
  have run := Run.nil.play played
  refine ⟨_, _, run, (@breaks_iff _ pressDecl _ [pressDecl] (fun _ => []) rfl rfl run
    (fun moment member => unattended_of_agents (run.stepped member) ?_) ?_).mpr ?_⟩
  · revert moment
    decide
  · intro moment member work here
    simp only [List.nil_append, List.mem_cons, List.not_mem_nil, or_false] at member
    rcases member with rfl | rfl | rfl | rfl
    all_goals cases here
    all_goals exact fun _ _ => rfl
  · rintro moment member ⟨work, manager, here, -, ⟨answers, received⟩, -⟩
    simp only [List.nil_append, List.mem_cons, List.not_mem_nil, or_false] at member
    rcases member with rfl | rfl | rfl | rfl
    all_goals cases here
    all_goals cases received

/-- **Heartbeats bring a failed instance back**: with one restart allowed, the process of
the worker has been launched three times. -/
theorem pressCycles_not_breaks : ∃ moments last, Run step pressPlane moments last ∧
    (∀ moment ∈ moments, Unattended moment) ∧ (∀ moment ∈ moments, Launches "n1" "p1" moment) ∧
    (last.manager? "n1" "p1").map (fun manager =>
      (manager.spec.policy.maxRestarts, manager.supervisor.spawns.length)) = some (1, 3) ∧
    ¬ ∀ moment ∈ moments, Breaks "n1" "p1" moment := by
  have played : play step pressPlane pressCycles = some (_, _) := rfl
  have run := Run.nil.play played
  refine ⟨_, _, run, fun moment member => unattended_of_agents (run.stepped member) ?_, ?_, rfl,
    fun breaks => ?_⟩
  · revert moment
    decide
  · intro moment member work here
    simp only [List.nil_append, List.mem_cons, List.not_mem_nil, or_false] at member
    rcases member with rfl | rfl | rfl | rfl | rfl | rfl | rfl | rfl | rfl | rfl | rfl | rfl |
      rfl | rfl
    all_goals cases here
    all_goals exact fun _ _ => rfl
  · have bounded := (breaks _ (List.mem_of_getLast? rfl)).bounded _ rfl
    exact absurd bounded (by decide)

end Sample

end Sohara
