import Sohara.Agent.Lifecycle
import Sohara.Agent.Loop
import Sohara.Plane.Reconcile

/-! # Execution of commands

A plane and the agents of its nodes: heartbeats, whose answers may be lost, the loops of the
agents that work through the answers, the tasks of their managers, acknowledgements that
arrive any number of times or never, operators, and restarts of the plane.

The numbers of a node start from one in each lifetime of the plane, while the agent goes on
from the highest number it has seen. Within one lifetime the agent executes each number at
most once, in increasing order; a queued command that it has executed already blocks the
next one of its kind, and after a restart an agent skips what its earlier numbers cover.
-/

namespace Sohara

open Transition

/-- A plane, its lifetime, the agents of its nodes, and the acknowledgements sent so far. -/
structure ControlLoop where
  registry : Inner
  epoch : Nat := 0
  agents : String → AgentLoop
  acks : List CommandAck := []

/-- What can happen between a plane and its agents. -/
inductive LoopEvent where
  /-- The registry serves a caller that is no agent. -/
  | call (call : RegistryCall)
  /-- A heartbeat is answered. The answer arrives, at an agent that waits for one, or is
  lost. The reports may be of any age. -/
  | heartbeat (hash : HashOrder) (time : String) (beat : Heartbeat) (arrives : Bool)
  /-- The agent of a node goes on with the answer it works through. -/
  | proceed (node : String) (hash : HashOrder)
  /-- The task of a manager takes a step. -/
  | supervise (node id : String) (work : Work)
  /-- An acknowledgement that was sent arrives. -/
  | ack (ack : CommandAck)
  /-- The plane restarts with the declarations of its file. -/
  | restart (flows : List FlowDecl) (instances : List InstanceDecl) (routes : List RouteDecl)

/-- Whether the plane is restarted. -/
def LoopEvent.restarts : LoopEvent → Bool
  | .restart _ _ _ => true
  | _ => false

/-- What an event does to the registry. -/
def LoopEvent.onRegistry (event : LoopEvent) (registry : Inner) : Inner :=
  match event with
  | .call request => registry.perform request
  | .heartbeat hash time beat _ => (registry.heartbeat hash time beat).2
  | .ack received => registry.ack received
  | .restart flows instances routes => .load flows instances routes
  | .proceed _ _ => registry
  | .supervise _ _ _ => registry

namespace ControlLoop

section Definitions

/-- A plane, and agents that have just started. -/
def start (registry : Inner) (configs : String → List InstanceSpec) : ControlLoop where
  registry := registry
  agents node := { managers := .new (configs node) }

/-- Changes the agent of a node. -/
def setAgent (node : String) (agent : AgentLoop) (control : ControlLoop) : ControlLoop :=
  { control with agents := Function.update control.agents node agent }

/-- The system after an event, if the event can happen. -/
def step (event : LoopEvent) (control : ControlLoop) : Option ControlLoop :=
  match event with
  | .call call => some { control with registry := control.registry.perform call }
  | .heartbeat hash time beat arrives =>
      let (response, registry) := control.registry.heartbeat hash time beat
      let agent := control.agents beat.nodeId
      let answered := { control with registry := registry }
      match arrives, agent.dispatch with
      | false, _ => some answered
      | true, some _ => none
      | true, none => some (answered.setAgent beat.nodeId (agent.take control.epoch response))
  | .proceed node hash => do
      let (agent, acked) ← (control.agents node).proceed hash
      return { control.setAgent node agent with acks := control.acks ++ acked.toList }
  | .supervise node id work => do
      let agent := control.agents node
      let managers ← agent.managers.supervise id work
      return control.setAgent node { agent with managers := managers }
  | .ack ack =>
      if ack ∈ control.acks then some { control with registry := control.registry.ack ack }
      else none
  | .restart flows instances routes =>
      some { control with registry := .load flows instances routes, epoch := control.epoch + 1 }

end Definitions

variable {control next last : ControlLoop} {event : LoopEvent} {node : String}
  {moments : List (Moment LoopEvent ControlLoop)} {moment : Moment LoopEvent ControlLoop}

section Steps

/-- A step does to the registry what its event does. -/
theorem registry_step (stepped : control.step event = some next) :
    next.registry = event.onRegistry control.registry := by
  cases event with
  | call call =>
      cases stepped
      rfl
  | heartbeat hash time beat arrives =>
      unfold step at stepped
      dsimp only at stepped
      split at stepped <;> cases stepped <;> rfl
  | proceed node hash =>
      obtain ⟨⟨agent, acked⟩, -, same⟩ := Option.bind_eq_some_iff.mp stepped
      cases same
      rfl
  | supervise node id work =>
      obtain ⟨managers, -, same⟩ := Option.bind_eq_some_iff.mp stepped
      cases same
      rfl
  | ack ack =>
      unfold step at stepped
      dsimp only at stepped
      split at stepped <;> cases stepped
      rfl
  | restart flows instances routes =>
      cases stepped
      rfl

/-- The agent is at the same place of the same answer, and has executed the same. -/
structure Idles (agent next : AgentLoop) : Prop where
  lastSeq : next.lastSeq = agent.lastSeq
  dispatch : next.dispatch = agent.dispatch
  executed : next.executed = agent.executed

theorem Idles.refl (agent : AgentLoop) : Idles agent agent := ⟨rfl, rfl, rfl⟩

theorem Idles.mark {agent next : AgentLoop} (idles : Idles agent next) :
    next.mark = agent.mark := by
  unfold AgentLoop.mark
  rw [idles.dispatch, idles.lastSeq]

theorem Idles.left {agent next : AgentLoop} (idles : Idles agent next) :
    next.left = agent.left := by
  unfold AgentLoop.left
  rw [idles.dispatch]

/-- What a step does at one node: to its queue, its counter, and the loop of its agent. -/
inductive AtNode (node : String) (control next : ControlLoop) : LoopEvent → Prop where
  /-- Nothing happens to the queue and the loop. -/
  | quiet {event : LoopEvent}
      (commands : next.registry.commands node = control.registry.commands node)
      (counter : next.registry.counter node = control.registry.counter node)
      (epoch : next.epoch = control.epoch)
      (agent : Idles (control.agents node) (next.agents node)) : AtNode node control next event
  /-- The answer to a heartbeat of the node is lost. -/
  | lost {hash : HashOrder} {time : String} {beat : Heartbeat} (here : beat.nodeId = node)
      (registry : next.registry = (control.registry.heartbeat hash time beat).2)
      (epoch : next.epoch = control.epoch)
      (agent : Idles (control.agents node) (next.agents node)) :
      AtNode node control next (.heartbeat hash time beat false)
  /-- The waiting agent takes up the answer to its heartbeat. -/
  | taken {hash : HashOrder} {time : String} {beat : Heartbeat} (here : beat.nodeId = node)
      (registry : next.registry = (control.registry.heartbeat hash time beat).2)
      (epoch : next.epoch = control.epoch)
      (waits : (control.agents node).dispatch = none)
      (agent : next.agents node = (control.agents node).take control.epoch
        (control.registry.heartbeat hash time beat).1) :
      AtNode node control next (.heartbeat hash time beat true)
  /-- The agent goes on with its answer. -/
  | proceeds {hash : HashOrder} {acked : Option CommandAck}
      (registry : next.registry = control.registry)
      (epoch : next.epoch = control.epoch)
      (agent : (control.agents node).proceed hash = some (next.agents node, acked)) :
      AtNode node control next (.proceed node hash)
  /-- An acknowledgement is taken out of the queue. -/
  | acked {ack : CommandAck}
      (registry : next.registry = control.registry.ack ack)
      (epoch : next.epoch = control.epoch)
      (agent : Idles (control.agents node) (next.agents node)) :
      AtNode node control next (.ack ack)
  /-- The plane starts another lifetime, with an empty queue. -/
  | restarted {flows : List FlowDecl} {instances : List InstanceDecl} {routes : List RouteDecl}
      (commands : next.registry.commands node = [])
      (agent : Idles (control.agents node) (next.agents node)) :
      AtNode node control next (.restart flows instances routes)

theorem agents_setAgent (other : String) (agent : AgentLoop) :
    (control.setAgent node agent).agents other =
      if other = node then agent else control.agents other := by
  unfold setAgent
  dsimp only
  exact Function.update_apply _ _ _ _

/-- The answer to a heartbeat arrives at an agent that waits for it. -/
theorem taken_of_step {hash : HashOrder} {time : String} {beat : Heartbeat}
    (stepped : control.step (.heartbeat hash time beat true) = some next) :
    (control.agents beat.nodeId).dispatch = none ∧
      next = { control with registry := (control.registry.heartbeat hash time beat).2 }.setAgent
        beat.nodeId ((control.agents beat.nodeId).take control.epoch
          (control.registry.heartbeat hash time beat).1) := by
  unfold step at stepped
  dsimp only at stepped
  cases waits : (control.agents beat.nodeId).dispatch with
  | some dispatch =>
      rw [waits] at stepped
      cases stepped
  | none =>
      rw [waits] at stepped
      cases stepped
      exact ⟨rfl, rfl⟩

/-- **Every step is one of these at every node.** -/
theorem atNode (stepped : control.step event = some next) (node : String) :
    AtNode node control next event := by
  cases event with
  | call call =>
      cases stepped
      obtain ⟨commands, counter⟩ := Inner.queues_perform call control.registry
      exact .quiet (congrFun commands node) (congrFun counter node) rfl (.refl _)
  | heartbeat hash time beat arrives =>
      by_cases here : beat.nodeId = node
      · subst here
        cases arrives with
        | false =>
            cases stepped
            exact .lost rfl rfl rfl (.refl _)
        | true =>
            obtain ⟨waits, rfl⟩ := taken_of_step stepped
            refine .taken rfl rfl rfl waits ?_
            rw [agents_setAgent, if_pos rfl]
      · have commands := @Inner.commands_heartbeat_of_ne control.registry _ hash time beat here
        have counter := @Inner.counter_heartbeat_of_ne control.registry _ hash time beat here
        cases arrives with
        | false =>
            cases stepped
            exact .quiet commands counter rfl (.refl _)
        | true =>
            obtain ⟨waits, rfl⟩ := taken_of_step stepped
            refine .quiet commands counter rfl ?_
            rw [agents_setAgent, if_neg (Ne.symm here)]
            exact .refl _
  | proceed other hash =>
      obtain ⟨⟨agent, acked⟩, proceeded, same⟩ := Option.bind_eq_some_iff.mp stepped
      cases same
      by_cases here : other = node
      · subst here
        have moved : (control.setAgent other agent).agents other = agent :=
          (agents_setAgent other agent).trans (if_pos rfl)
        have gone := proceeded.trans (congrArg (fun next => some (next, acked)) moved.symm)
        exact .proceeds rfl rfl gone
      · have same : (control.setAgent other agent).agents node = control.agents node :=
          (agents_setAgent node agent).trans (if_neg (Ne.symm here))
        refine .quiet rfl rfl rfl ?_
        dsimp only
        rw [same]
        exact .refl _
  | supervise other id work =>
      obtain ⟨managers, supervised, same⟩ := Option.bind_eq_some_iff.mp stepped
      cases same
      refine .quiet rfl rfl rfl ?_
      rw [agents_setAgent]
      by_cases here : node = other
      · subst here
        rw [if_pos rfl]
        exact ⟨rfl, rfl, rfl⟩
      · rw [if_neg here]
        exact .refl _
  | ack ack =>
      unfold step at stepped
      dsimp only at stepped
      split at stepped
      · cases stepped
        exact .acked rfl rfl (.refl _)
      · cases stepped
  | restart flows instances routes =>
      cases stepped
      exact .restarted rfl (.refl _)

end Steps

section Order

/-- The queues are numbered, and no command waits twice. -/
structure Queued (inner : Inner) : Prop where
  numbered : inner.Numbered
  distinct : inner.Distinct

theorem queued_load (flows : List FlowDecl) (instances : List InstanceDecl)
    (routes : List RouteDecl) : Queued (.load flows instances routes) := by
  constructor
  · exact fun node => ⟨.nil, fun _ member => nomatch member⟩
  · exact fun node => .nil

/-- The queues stay numbered and without duplicates. -/
theorem Queued.step (queued : Queued control.registry)
    (stepped : control.step event = some next) : Queued next.registry := by
  rw [registry_step stepped]
  cases event with
  | call call =>
      obtain ⟨commands, counter⟩ := Inner.queues_perform call control.registry
      exact ⟨queued.numbered.congr commands counter, queued.distinct.congr commands⟩
  | heartbeat hash time beat arrives =>
      exact ⟨queued.numbered.heartbeat hash time beat, queued.distinct.heartbeat hash time beat⟩
  | proceed other hash => exact queued
  | supervise other id work => exact queued
  | ack ack => exact ⟨queued.numbered.ack ack, queued.distinct.ack ack⟩
  | restart flows instances routes => exact queued_load flows instances routes

/-- **What couples an agent with the counter of its node.** The agent has executed
increasing numbers up to its mark, and its mark is a number that the plane has issued; what
is left of its answer increases, is issued, and is either covered by the answers before or
beyond the mark. -/
structure Ordered (agent : AgentLoop) (counter : Nat) : Prop where
  increasing : (agent.executed.map fun entry => entry.2.seq).Pairwise (· < ·)
  marked : ∀ entry ∈ agent.executed, entry.2.seq ≤ agent.mark
  covered : agent.lastSeq ≤ agent.mark
  issued : agent.mark ≤ counter
  left : agent.left.Pairwise fun first second => first.seq < second.seq
  numbers : ∀ command ∈ agent.left,
    command.seq ≤ counter ∧ (command.seq ≤ agent.lastSeq ∨ agent.mark < command.seq)

variable {agent proceeded : AgentLoop} {counter later : Nat}

theorem Ordered.idles (ordered : Ordered agent counter) (idles : Idles agent proceeded)
    (issued : counter ≤ later) : Ordered proceeded later := by
  constructor
  · rw [idles.executed]
    exact ordered.increasing
  · rw [idles.executed, idles.mark]
    exact ordered.marked
  · rw [idles.lastSeq, idles.mark]
    exact ordered.covered
  · rw [idles.mark]
    exact Nat.le_trans ordered.issued issued
  · rw [idles.left]
    exact ordered.left
  · rw [idles.left, idles.lastSeq, idles.mark]
    intro command member
    obtain ⟨bounded, place⟩ := ordered.numbers command member
    exact ⟨Nat.le_trans bounded issued, place⟩

/-- A waiting agent takes up an answer. -/
theorem Ordered.take (ordered : Ordered agent counter) (waits : agent.dispatch = none)
    (issued : counter ≤ later) {epoch : Nat} {response : HeartbeatResponse}
    (increasing : response.commands.Pairwise fun first second => first.seq < second.seq)
    (bounded : ∀ command ∈ response.commands, command.seq ≤ later) :
    Ordered (agent.take epoch response) later := by
  have waiting : agent.mark = agent.lastSeq := by
    unfold AgentLoop.mark
    rw [waits]
  have marked := ordered.marked
  have known := ordered.issued
  rw [waiting] at marked known
  constructor
  · exact ordered.increasing
  · exact marked
  · exact Nat.le_refl _
  · exact Nat.le_trans known issued
  · exact increasing
  · exact fun command member => ⟨bounded command member, le_or_gt _ _⟩

/-- The agent goes on with its answer. -/
theorem Ordered.proceed (ordered : Ordered agent counter) {hash : HashOrder}
    {acked : Option CommandAck} (goes : agent.proceed hash = some (proceeded, acked)) :
    Ordered proceeded counter := by
  obtain ⟨increasing, marked, covered, issued, left, numbers⟩ := ordered
  obtain ⟨dispatch, working, steps⟩ := AgentLoop.proceed_cases goes
  unfold AgentLoop.mark AgentLoop.left at *
  rw [working] at marked covered issued left numbers
  dsimp only at marked covered issued left numbers
  rcases steps with ⟨-, last, done, executed, -, -⟩ | ⟨command, rest, commands, last, steps⟩
  · constructor
    · rwa [executed]
    · unfold AgentLoop.mark
      rwa [executed, done, last]
    · unfold AgentLoop.mark
      rw [done]
    · unfold AgentLoop.mark
      rwa [done, last]
    · unfold AgentLoop.left
      rw [done]
      exact .nil
    · unfold AgentLoop.left
      rw [done]
      exact fun _ member => nomatch member
  · rw [commands] at left numbers
    obtain ⟨before, left⟩ := List.pairwise_cons.mp left
    rcases steps with ⟨old, moved, executed, -, -⟩ | ⟨new, moved, executed, -, -⟩
    · constructor
      · rwa [executed]
      · unfold AgentLoop.mark
        rwa [executed, moved]
      · unfold AgentLoop.mark
        rwa [moved, last]
      · unfold AgentLoop.mark
        rwa [moved]
      · unfold AgentLoop.left
        rwa [moved]
      · unfold AgentLoop.left AgentLoop.mark
        rw [moved, last]
        exact fun other member => numbers other (List.mem_cons_of_mem _ member)
    · obtain ⟨bounded, place⟩ := numbers command List.mem_cons_self
      have beyond : dispatch.seq < command.seq := by
        rcases place with earlier | beyond
        · omega
        · exact beyond
      have highest : max dispatch.seq command.seq = command.seq := Nat.max_eq_right beyond.le
      rw [highest] at moved
      constructor
      · rw [executed, List.map_append, List.pairwise_append]
        refine ⟨increasing, List.pairwise_singleton _ _, ?_⟩
        intro number member other here
        obtain ⟨entry, inside, rfl⟩ := List.mem_map.mp member
        rw [List.mem_singleton.mp here]
        exact Nat.lt_of_le_of_lt (marked entry inside) beyond
      · unfold AgentLoop.mark
        rw [executed, moved]
        intro entry member
        rcases List.mem_append.mp member with earlier | here
        · exact Nat.le_trans (marked entry earlier) beyond.le
        · rw [List.mem_singleton.mp here]
      · unfold AgentLoop.mark
        rw [moved, last]
        exact new.le
      · unfold AgentLoop.mark
        rw [moved]
        exact bounded
      · unfold AgentLoop.left
        rwa [moved]
      · unfold AgentLoop.left AgentLoop.mark
        rw [moved, last]
        intro other member
        exact ⟨(numbers other (List.mem_cons_of_mem _ member)).1, .inr (before other member)⟩

/-- The queues are in order, and every agent is coupled with the counter of its node. -/
structure Coupled (control : ControlLoop) : Prop where
  queued : Queued control.registry
  ordered : ∀ node, Ordered (control.agents node) (control.registry.counter node)

theorem coupled_start (flows : List FlowDecl) (instances : List InstanceDecl)
    (routes : List RouteDecl) (configs : String → List InstanceSpec) :
    Coupled (start (.load flows instances routes) configs) := by
  refine ⟨queued_load flows instances routes, fun node => ?_⟩
  constructor
  · exact .nil
  · exact fun _ member => nomatch member
  · exact Nat.le_refl _
  · exact Nat.zero_le _
  · exact .nil
  · exact fun _ member => nomatch member

/-- **One step of a lasting plane** keeps the coupling. -/
theorem Coupled.step (coupled : Coupled control) (stepped : control.step event = some next)
    (lasting : event.restarts = false) : Coupled next := by
  have queued := coupled.queued.step stepped
  refine ⟨queued, fun node => ?_⟩
  have ordered := coupled.ordered node
  cases atNode stepped node with
  | quiet commands counter epoch agent => exact ordered.idles agent counter.ge
  | @lost hash time beat here registry epoch agent =>
      subst here
      refine ordered.idles agent ?_
      rw [registry]
      exact Inner.counter_heartbeat hash time beat
  | @taken hash time beat here registry epoch waits agent =>
      subst here
      have numbered := queued.numbered beat.nodeId
      rw [registry] at numbered
      rw [agent, registry]
      exact ordered.take waits (Inner.counter_heartbeat hash time beat) numbered.1
        fun command member => (numbered.2 command member).2
  | proceeds registry epoch agent =>
      rw [registry]
      exact ordered.proceed agent
  | acked registry epoch agent =>
      rw [registry]
      exact ordered.idles agent (Nat.le_refl _)
  | restarted commands agent => cases lasting

/-- In one lifetime of the plane everything stays coupled. -/
theorem Run.coupled {flows : List FlowDecl} {instances : List InstanceDecl}
    {routes : List RouteDecl} {configs : String → List InstanceSpec}
    (run : Run step (start (.load flows instances routes) configs) moments last)
    (lasting : ∀ moment ∈ moments, moment.event.restarts = false) :
    Coupled last ∧ ∀ moment ∈ moments, step moment.event moment.before = some moment.after ∧
      Coupled moment.before ∧ Coupled moment.after :=
  run.guarded (coupled_start flows instances routes configs)
    (fun _ _ _ coupled stepped allowed => coupled.step stepped allowed) lasting

/-- **At most once and in order.** While the plane lasts, each agent executes increasing
numbers, and the queue of each node increases, has no two commands of the same instance and
operation, and stays within the counter. -/
theorem executed_in_order (flows : List FlowDecl) (instances : List InstanceDecl)
    (routes : List RouteDecl) (configs : String → List InstanceSpec)
    (run : Run step (start (.load flows instances routes) configs) moments last)
    (lasting : ∀ moment ∈ moments, moment.event.restarts = false) (node : String) :
    ((last.agents node).executed.map fun entry => entry.2.seq).Pairwise (· < ·) ∧
      (last.registry.commands node).Pairwise (fun first second => first.seq < second.seq) ∧
      (last.registry.commands node).Pairwise (fun first second =>
        ¬ (first.instance_ = second.instance_ ∧ first.op = second.op)) ∧
      ∀ command ∈ last.registry.commands node, command.seq ≤ last.registry.counter node := by
  obtain ⟨⟨queued, ordered⟩, -⟩ := Run.coupled run lasting
  obtain ⟨increasing, bounded⟩ := queued.numbered node
  exact ⟨(ordered node).increasing, increasing, queued.distinct node,
    fun command member => (bounded command member).2⟩

end Order

section Custody

/-- A number is beyond all that the agent has executed or has still to go through. -/
def Beyond (agent : AgentLoop) (number : Nat) : Prop :=
  agent.mark < number ∧ ∀ command ∈ agent.left, command.seq < number

/-- All that the agent has executed or has still to go through is within a counter. -/
def Within (agent : AgentLoop) (counter : Nat) : Prop :=
  agent.mark ≤ counter ∧ ∀ command ∈ agent.left, command.seq ≤ counter

/-- **Where the commands are.** What is left of an answer has been executed, or is going to
be. What waits in the queue has been executed, or is left of an answer of this lifetime and
going to be executed, or is beyond all that the agent has seen. -/
structure Custody (agent : AgentLoop) (epoch : Nat) (queue : List Command) : Prop where
  taken : ∀ dispatch, agent.dispatch = some dispatch → ∀ command ∈ dispatch.commands,
    (dispatch.epoch, command) ∈ agent.executed ∨ agent.lastSeq < command.seq
  waiting : ∀ command ∈ queue, (epoch, command) ∈ agent.executed ∨ Beyond agent command.seq ∨
    ∃ dispatch, agent.dispatch = some dispatch ∧ dispatch.epoch = epoch ∧
      command ∈ dispatch.commands ∧ agent.lastSeq < command.seq

variable {agent proceeded : AgentLoop} {epoch : Nat} {queue later : List Command}

theorem Custody.idles (custody : Custody agent epoch queue) (idles : Idles agent proceeded)
    (sources : ∀ command ∈ later, command ∈ queue ∨ Beyond agent command.seq) :
    Custody proceeded epoch later := by
  constructor
  · rw [idles.dispatch, idles.executed, idles.lastSeq]
    exact custody.taken
  · unfold Beyond
    rw [idles.dispatch, idles.executed, idles.lastSeq, idles.mark, idles.left]
    intro command member
    rcases sources command member with old | new
    · exact custody.waiting command old
    · exact .inr (.inl new)

/-- Another lifetime of the plane begins with an empty queue. -/
theorem Custody.restarted (custody : Custody agent epoch queue) (idles : Idles agent proceeded)
    (next : Nat) : Custody proceeded next [] := by
  constructor
  · rw [idles.dispatch, idles.executed, idles.lastSeq]
    exact custody.taken
  · exact fun _ member => nomatch member

/-- A waiting agent takes up an answer with the queue. -/
theorem Custody.take (custody : Custody agent epoch queue) (waits : agent.dispatch = none)
    {response : HeartbeatResponse}
    (sources : ∀ command ∈ response.commands, command ∈ queue ∨ Beyond agent command.seq) :
    Custody (agent.take epoch response) epoch response.commands := by
  have waiting : agent.mark = agent.lastSeq := by
    unfold AgentLoop.mark
    rw [waits]
  have places : ∀ command ∈ response.commands,
      (epoch, command) ∈ agent.executed ∨ agent.lastSeq < command.seq := by
    intro command member
    rcases sources command member with old | ⟨beyond, -⟩
    · rcases custody.waiting command old with executed | ⟨beyond, -⟩ | ⟨dispatch, working, -⟩
      · exact .inl executed
      · exact .inr (waiting ▸ beyond)
      · rw [waits] at working
        cases working
    · exact .inr (waiting ▸ beyond)
  constructor
  · intro dispatch working command member
    cases working
    exact places command member
  · intro command member
    rcases places command member with executed | beyond
    · exact .inl executed
    · exact .inr (.inr ⟨_, rfl, rfl, member, beyond⟩)

/-- The agent goes on with its answer. -/
theorem Custody.proceed (custody : Custody agent epoch queue) {hash : HashOrder}
    {acked : Option CommandAck} (goes : agent.proceed hash = some (proceeded, acked)) :
    Custody proceeded epoch queue := by
  obtain ⟨taken, waiting⟩ := custody
  obtain ⟨dispatch, working, steps⟩ := AgentLoop.proceed_cases goes
  have taken := taken dispatch working
  unfold Beyond AgentLoop.mark AgentLoop.left at waiting
  rw [working] at waiting
  dsimp only at waiting
  rcases steps with
    ⟨empty, last, done, executed, -, -⟩ |
      ⟨first, rest, commands, last, ⟨old, moved, executed, -, -⟩ | ⟨new, moved, executed, -, -⟩⟩
  · constructor
    · rw [done]
      exact fun _ working => nomatch working
    · unfold Beyond AgentLoop.mark AgentLoop.left
      rw [done, executed, last]
      intro command member
      rcases waiting command member with ran | ⟨beyond, -⟩ | ⟨same, here, -, inside, -⟩
      · exact .inl ran
      · exact .inr (.inl ⟨beyond, fun _ member => nomatch member⟩)
      · cases here
        rw [empty] at inside
        cases inside
  · rw [commands] at taken waiting
    constructor
    · rw [moved, executed, last]
      intro same here command member
      cases here
      exact taken command (List.mem_cons_of_mem _ member)
    · unfold Beyond AgentLoop.mark AgentLoop.left
      rw [moved, executed, last]
      intro command member
      rcases waiting command member with
        ran | ⟨beyond, others⟩ | ⟨same, here, lifetime, inside, new⟩
      · exact .inl ran
      · exact .inr (.inl ⟨beyond, fun other member => others other (List.mem_cons_of_mem _ member)⟩)
      · cases here
        rw [commands] at inside
        rcases List.mem_cons.mp inside with rfl | inside
        · exact absurd new (Nat.not_lt.mpr old)
        · exact .inr (.inr ⟨_, rfl, lifetime, inside, new⟩)
  · rw [commands] at taken waiting
    constructor
    · rw [moved, executed, last]
      intro same here command member
      cases here
      rcases taken command (List.mem_cons_of_mem _ member) with ran | ahead
      · exact .inl (List.mem_append_left _ ran)
      · exact .inr ahead
    · unfold Beyond AgentLoop.mark AgentLoop.left
      rw [moved, executed, last]
      intro command member
      rcases waiting command member with
        ran | ⟨beyond, others⟩ | ⟨same, here, lifetime, inside, ahead⟩
      · exact .inl (List.mem_append_left _ ran)
      · refine .inr (.inl ⟨Nat.max_lt.mpr ⟨beyond, others first List.mem_cons_self⟩, ?_⟩)
        exact fun other member => others other (List.mem_cons_of_mem _ member)
      · cases here
        rw [commands] at inside
        rcases List.mem_cons.mp inside with rfl | inside
        · rw [← lifetime]
          exact .inl (List.mem_append_right _ List.mem_cons_self)
        · exact .inr (.inr ⟨_, rfl, lifetime, inside, ahead⟩)

/-- What a heartbeat queues, if anything, is numbered beyond all that the agent of the node
has executed or has still to go through. -/
def Fresh (moment : Moment LoopEvent ControlLoop) : Prop :=
  ∀ hash time beat arrives, moment.event = .heartbeat hash time beat arrives →
    moment.after.registry.commands beat.nodeId = moment.before.registry.commands beat.nodeId ∨
      Within (moment.before.agents beat.nodeId) (moment.before.registry.counter beat.nodeId)

/-- A command that the agent skips, because of its number, has been executed. -/
def SkipsExecuted (moment : Moment LoopEvent ControlLoop) : Prop :=
  ∀ node hash, moment.event = .proceed node hash →
    ∀ dispatch command rest, (moment.before.agents node).dispatch = some dispatch →
      dispatch.commands = command :: rest → command.seq ≤ (moment.before.agents node).lastSeq →
        (dispatch.epoch, command) ∈ (moment.before.agents node).executed

/-- Every agent and every queue are in custody. -/
def Kept (control : ControlLoop) : Prop :=
  ∀ node, Custody (control.agents node) control.epoch (control.registry.commands node)

theorem kept_start (flows : List FlowDecl) (instances : List InstanceDecl)
    (routes : List RouteDecl) (configs : String → List InstanceSpec) :
    Kept (start (.load flows instances routes) configs) := by
  refine fun node => ⟨fun dispatch working => ?_, fun command member => ?_⟩
  · cases working
  · cases member

/-- The commands after a heartbeat waited before, or are beyond. -/
theorem Fresh.sources {hash : HashOrder} {time : String} {beat : Heartbeat} {arrives : Bool}
    (fresh : Fresh ⟨control, .heartbeat hash time beat arrives, next⟩)
    (registry : next.registry = (control.registry.heartbeat hash time beat).2)
    {command : Command} (member : command ∈ next.registry.commands beat.nodeId) :
    command ∈ control.registry.commands beat.nodeId ∨
      Beyond (control.agents beat.nodeId) command.seq := by
  rcases fresh hash time beat arrives rfl with same | ⟨marked, left⟩
  · exact .inl (same ▸ member)
  · rw [registry] at member
    rcases Inner.mem_heartbeat hash time beat member with old | ⟨new, -⟩
    · exact .inl old
    · exact .inr ⟨Nat.lt_of_le_of_lt marked new, fun other inside =>
        Nat.lt_of_le_of_lt (left other inside) new⟩

/-- **One step** that queues only fresh numbers keeps the custody. -/
theorem Kept.step (kept : Kept control) (stepped : control.step event = some next)
    (fresh : Fresh ⟨control, event, next⟩) : Kept next := by
  intro node
  have custody := kept node
  cases atNode stepped node with
  | quiet commands counter epoch agent =>
      rw [epoch]
      exact custody.idles agent fun command member => .inl (commands ▸ member)
  | lost here registry epoch agent =>
      subst here
      rw [epoch]
      exact custody.idles agent fun command member => fresh.sources registry member
  | @taken hash time beat here registry epoch waits agent =>
      subst here
      have same : next.registry.commands beat.nodeId =
          (control.registry.heartbeat hash time beat).1.commands := by
        rw [registry, Inner.heartbeat_commands]
      rw [epoch, agent, same]
      refine custody.take waits fun command member => fresh.sources registry ?_
      rwa [same]
  | proceeds registry epoch agent =>
      rw [epoch, registry]
      exact custody.proceed agent
  | @acked ack registry epoch agent =>
      rw [epoch, registry, Inner.commands_ack]
      exact custody.idles agent fun command member => .inl (List.mem_of_mem_filter member)
  | restarted commands agent =>
      rw [commands]
      exact custody.restarted agent _

/-- In a run that queues only fresh numbers everything stays in custody. -/
theorem Run.kept {flows : List FlowDecl} {instances : List InstanceDecl}
    {routes : List RouteDecl} {configs : String → List InstanceSpec}
    (run : Run step (start (.load flows instances routes) configs) moments last)
    (fresh : ∀ moment ∈ moments, Fresh moment) :
    Kept last ∧ ∀ moment ∈ moments, step moment.event moment.before = some moment.after ∧
      Kept moment.before ∧ Kept moment.after :=
  run.guarded (kept_start flows instances routes configs)
    (fun _ _ _ kept stepped allowed => kept.step stepped allowed) fresh

/-- **When nothing is skipped that has not been executed.** However often the plane restarts:
if each heartbeat queues only numbers beyond what the agent of its node has seen, an agent
skips only what it has executed. -/
theorem skips_executed (flows : List FlowDecl) (instances : List InstanceDecl)
    (routes : List RouteDecl) (configs : String → List InstanceSpec)
    (run : Run step (start (.load flows instances routes) configs) moments last)
    (fresh : ∀ moment ∈ moments, Fresh moment) : ∀ moment ∈ moments, SkipsExecuted moment := by
  intro moment member node hash _ dispatch command rest working commands old
  obtain ⟨-, kept, -⟩ := (Run.kept run fresh).2 moment member
  have inside : command ∈ dispatch.commands := by
    rw [commands]
    exact List.mem_cons_self
  rcases (kept node).taken dispatch working command inside with executed | ahead
  · exact executed
  · exact absurd ahead (Nat.not_lt.mpr old)

/-- While the plane lasts, all numbers are fresh. -/
theorem Coupled.fresh (coupled : Coupled moment.before) : Fresh moment := by
  intro hash time beat arrives _
  have ordered := coupled.ordered beat.nodeId
  exact .inr ⟨ordered.issued, fun command member => (ordered.numbers command member).1⟩

end Custody

section Lost

/-- The answer to a heartbeat has a command that moves the instance, numbered beyond what
the agent of the node has executed. -/
def Moves (control : ControlLoop) (hash : HashOrder) (time : String) (beat : Heartbeat)
    (decl : InstanceDecl) (op : String) : Prop :=
  ∃ command ∈ (control.registry.heartbeat hash time beat).1.commands,
    Inner.Matches decl op command ∧
      ∀ entry ∈ (control.agents beat.nodeId).executed, entry.2.seq < command.seq

/-- No command for the instance and the operation still waits that the agent of the node
has executed. -/
def Settled (control : ControlLoop) (node : String) (decl : InstanceDecl) (op : String) : Prop :=
  ∀ command ∈ control.registry.commands node, Inner.Matches decl op command →
    ∀ entry ∈ (control.agents node).executed, entry.2 ≠ command

/-- A waiting command that has not been executed is beyond what has. -/
theorem lt_of_not_executed (coupled : Coupled control) (kept : Kept control) {command : Command}
    (waits : command ∈ control.registry.commands node)
    (fresh : ∀ entry ∈ (control.agents node).executed, entry.2 ≠ command) :
    (control.agents node).mark < command.seq := by
  rcases (kept node).waiting command waits with
    executed | ⟨beyond, -⟩ | ⟨dispatch, working, -, inside, ahead⟩
  · exact absurd rfl (fresh _ executed)
  · exact beyond
  · have left : command ∈ (control.agents node).left := by
      unfold AgentLoop.left
      rwa [working]
    rcases ((coupled.ordered node).numbers command left).2 with old | beyond
    · exact absurd ahead (Nat.not_lt.mpr old)
    · exact beyond

theorem moves_iff (coupled : Coupled control) (kept : Kept control) (hash : HashOrder)
    (time : String) (beat : Heartbeat) {id : String} {decl : InstanceDecl} {op : String}
    (present : control.registry.instances.get? id = some decl) (here : decl.node = beat.nodeId)
    (demands : Inner.Demands beat.instances decl op) :
    Moves control hash time beat decl op ↔ Settled control beat.nodeId decl op := by
  have answered : (control.registry.heartbeat hash time beat).1.commands =
      (control.registry.heartbeat hash time beat).2.commands beat.nodeId :=
    Inner.heartbeat_commands hash time beat
  constructor
  · rintro ⟨command, member, equal, beyond⟩ other waits matches_ entry ran same
    rw [answered] at member
    have kept := Inner.subset_heartbeat hash time beat waits
    have distinct := coupled.queued.distinct.heartbeat hash time beat
    have one := distinct.unique member kept equal matches_
    have below := beyond entry ran
    rw [same, one] at below
    exact Nat.lt_irrefl _ below
  · intro settled
    obtain ⟨command, queued, equal⟩ := Inner.queued_heartbeat hash time beat present here demands
    have beyond : (control.agents beat.nodeId).mark < command.seq := by
      rcases Inner.mem_heartbeat hash time beat queued with old | ⟨new, -⟩
      · exact lt_of_not_executed coupled kept old (settled command old equal)
      · exact Nat.lt_of_le_of_lt (coupled.ordered beat.nodeId).issued new
    refine ⟨command, answered ▸ queued, equal, fun entry ran => ?_⟩
    exact Nat.lt_of_le_of_lt ((coupled.ordered beat.nodeId).marked entry ran) beyond

/-- **When reconciliation is not blocked.** While the plane lasts, and however many answers
and acknowledgements are lost: at a heartbeat whose reports call for an operation on a
declared instance, the answer has a command for it that the agent is going to execute, just
in case no such command that it has executed is still waiting. -/
theorem moves_iff_settled (flows : List FlowDecl) (instances : List InstanceDecl)
    (routes : List RouteDecl) (configs : String → List InstanceSpec)
    (run : Run step (start (.load flows instances routes) configs) moments last)
    (lasting : ∀ moment ∈ moments, moment.event.restarts = false) :
    ∀ moment ∈ moments, ∀ hash time beat arrives,
      moment.event = .heartbeat hash time beat arrives →
        ∀ id decl op, moment.before.registry.instances.get? id = some decl →
          decl.node = beat.nodeId → Inner.Demands beat.instances decl op →
            (Moves moment.before hash time beat decl op ↔
              Settled moment.before beat.nodeId decl op) := by
  have coupled := (Run.coupled run lasting).2
  have fresh : ∀ moment ∈ moments, Fresh moment := fun moment member =>
    (coupled moment member).2.1.fresh
  intro moment member hash time beat arrives _ id decl op present here demands
  obtain ⟨-, kept, -⟩ := (Run.kept run fresh).2 moment member
  exact moves_iff (coupled moment member).2.1 kept hash time beat present here demands

end Lost

end ControlLoop

namespace Sample

open ControlLoop

/-- A worker that its policy does not restart. -/
def workerDecl : InstanceDecl :=
  { id := "w1", node := "n1",
    spec := { id := "w1", flow := "w.yaml", policy := { restart := false } } }

/-- A plane with the declared worker, and agents without instances of their own. -/
def workerPlane : ControlLoop := start (.load [] [workerDecl] []) fun _ => []

/-- The node reports that the worker has failed so many times. -/
def failedBeat (restarts : Nat) : Heartbeat :=
  ⟨"n1", "10:00:04", [⟨"w1", .failed, false, false, restarts, none, none⟩]⟩

/-- The report arrives, and so does the answer. -/
def failedReport (restarts : Nat) : LoopEvent :=
  .heartbeat keyOrder "10:00:05" (failedBeat restarts) true

/-- The agent learns about the worker and launches it, and the process exits. -/
def workerExits : List LoopEvent :=
  [.heartbeat keyOrder "10:00:00" ⟨"n1", "09:59:59", []⟩ true, .proceed "n1" keyOrder,
    .supervise "n1" "w1" (.begin allWell), .supervise "n1" "w1" (.tick allExit)]

/-- The failure is reported, the agent executes the start, whose acknowledgement is lost,
the worker is launched again, and the process exits again. -/
def workerRestarts : List LoopEvent :=
  [failedReport 1, .proceed "n1" keyOrder, .proceed "n1" keyOrder,
    .supervise "n1" "w1" (.receive allWell), .supervise "n1" "w1" (.tick allExit)]

/-- The acknowledgement arrives after all, the next failure is reported, and the agent executes
the next start. -/
def workerStartsAgain : List LoopEvent :=
  [.ack ⟨1, true, none⟩, failedReport 2, .proceed "n1" keyOrder]

/-- Two starts are executed, one after the other, and the second still waits. -/
theorem workerRestarts_in_order : ∃ moments last, Run step workerPlane moments last ∧
    (last.agents "n1").executed = [(0, ⟨1, "start", "w1"⟩), (0, ⟨2, "start", "w1"⟩)] ∧
    last.registry.commands "n1" = [⟨2, "start", "w1"⟩] ∧
    ((last.agents "n1").executed.map fun entry => entry.2.seq).Pairwise (· < ·) ∧
    ∀ command ∈ last.registry.commands "n1", command.seq ≤ last.registry.counter "n1" := by
  have played : play step workerPlane (workerExits ++ workerRestarts ++ workerStartsAgain) =
    some (_, _) := rfl
  have ordered := executed_in_order [] [workerDecl] [] (fun _ => []) (Run.nil.play played)
    (by decide) "n1"
  exact ⟨_, _, Run.nil.play played, rfl, rfl, ordered.1, ordered.2.2.2⟩

/-- The first report of the failure moves the worker. -/
theorem workerExits_moves : ∃ moments last, Run step workerPlane moments last ∧
    ∃ moment ∈ moments, moment.event = failedReport 1 ∧
      Moves moment.before keyOrder "10:00:05" (failedBeat 1) workerDecl "start" := by
  have played : play step workerPlane workerExits = some (_, _) := rfl
  have run := @Run.snoc _ _ step workerPlane _ _ _ (failedReport 1) (Run.nil.play played) rfl
  have moves := moves_iff_settled [] [workerDecl] [] (fun _ => []) run (by decide) _
    (List.mem_append_right _ List.mem_cons_self) keyOrder "10:00:05" (failedBeat 1) true rfl
    "w1" workerDecl "start" rfl rfl ⟨_, rfl, rfl⟩
  refine ⟨_, _, run, _, List.mem_append_right _ List.mem_cons_self, rfl, moves.mpr ?_⟩
  exact fun _ waits => nomatch waits

/-- **A lost acknowledgement blocks the next start**: the worker has failed again, and the
answer has only the command that the agent has executed. -/
theorem workerRestarts_blocked : ∃ moments last, Run step workerPlane moments last ∧
    (∀ moment ∈ moments, moment.event.restarts = false) ∧
    ∃ moment ∈ moments, moment.event = failedReport 2 ∧
      Inner.Demands (failedBeat 2).instances workerDecl "start" ∧
      ¬ Moves moment.before keyOrder "10:00:05" (failedBeat 2) workerDecl "start" := by
  have played : play step workerPlane (workerExits ++ workerRestarts) = some (_, _) := rfl
  have run := @Run.snoc _ _ step workerPlane _ _ _ (failedReport 2) (Run.nil.play played) rfl
  refine ⟨_, _, run, by decide, _, List.mem_append_right _ List.mem_cons_self, rfl,
    ⟨_, rfl, rfl⟩, ?_⟩
  rintro ⟨command, answered, -, beyond⟩
  obtain rfl := List.mem_singleton.mp (answered : command ∈ [⟨1, "start", "w1"⟩])
  exact absurd (beyond (0, ⟨1, "start", "w1"⟩) List.mem_cons_self) (by decide)

/-- **A restart of the plane makes the agent skip a new command**: the worker has failed
again, and the start of the second lifetime has the number of the first one. -/
theorem workerRestarts_skips : ∃ moments last, Run step workerPlane moments last ∧
    ∃ moment ∈ moments, moment.event = .proceed "n1" keyOrder ∧
      ¬ SkipsExecuted moment := by
  have played : play step workerPlane (workerExits ++ workerRestarts ++
    [.restart [] [workerDecl] [], failedReport 2]) = some (_, _) := rfl
  have run := @Run.snoc _ _ step workerPlane _ _ _ (.proceed "n1" keyOrder)
    (Run.nil.play played) rfl
  refine ⟨_, _, run, _, List.mem_append_right _ List.mem_cons_self, rfl, fun skips => ?_⟩
  have executed := skips "n1" keyOrder rfl _ ⟨1, "start", "w1"⟩ [] rfl rfl (by decide)
  have once : ((1, ⟨1, "start", "w1"⟩) : Nat × Command) ∈ [(0, ⟨1, "start", "w1"⟩)] := executed
  exact absurd once (by decide)

/-- With the restart before the first start, the agent skips only what it has executed. -/
theorem restarted_skips_executed : ∃ moments last, Run step workerPlane moments last ∧
    ∀ moment ∈ moments, SkipsExecuted moment := by
  have played : play step workerPlane ([.restart [] [workerDecl] []] ++ workerExits ++
    workerRestarts ++ [failedReport 2, .proceed "n1" keyOrder]) = some (_, _) := rfl
  refine ⟨_, _, Run.nil.play played,
    skips_executed [] [workerDecl] [] (fun _ => []) (Run.nil.play played) ?_⟩
  intro moment member hash time beat arrives here
  simp only [List.nil_append, List.mem_cons, List.not_mem_nil, or_false] at member
  rcases member with rfl | rfl | rfl | rfl | rfl | rfl | rfl | rfl | rfl | rfl | rfl | rfl
  all_goals cases here
  · exact .inl rfl
  · exact .inr ⟨by decide, by decide⟩
  · exact .inl rfl

end Sample

end Sohara
