import Sohara.Core.Control
import Sohara.Plane.Relay

/-! # The registry of the plane

Declarations of instances, flows and routes, what the agents last reported, and the queue
of commands for each node. A heartbeat compares the declared instances of its node with
the reported ones and queues a numbered command for each that has to move.

The functions here are the sections that the registry runs under its lock. Hash maps are
association lists; where one is iterated, its order is a parameter.
-/

namespace Sohara

/-- Desired instance state. -/
inductive Desired where
  | running
  | paused
  | stopped
  deriving DecidableEq, Repr, Inhabited

/-- The name of a desired state. -/
def Desired.text : Desired → String
  | .running => "running"
  | .paused => "paused"
  | .stopped => "stopped"

/-- Lifecycle state of one managed instance. -/
inductive InstanceState where
  | starting
  | running
  | paused
  | restarting
  | stopping
  | stopped
  | failed
  deriving DecidableEq, Repr

/-- The name of a lifecycle state. -/
def InstanceState.text : InstanceState → String
  | .starting => "starting"
  | .running => "running"
  | .paused => "paused"
  | .restarting => "restarting"
  | .stopping => "stopping"
  | .stopped => "stopped"
  | .failed => "failed"

/-- Restart and health policy for one instance. -/
structure Policy where
  restart : Bool := true
  maxRestarts : Nat := 5
  backoffMs : Duration := 2000
  healthFailures : Nat := 3
  deriving DecidableEq, Repr

/-- How to launch one instance. -/
structure InstanceSpec where
  id : String := ""
  flow : String := ""
  bin : String := "sohara"
  admin : Option String := none
  trigger : Option String := none
  relay : Option String := none
  relayToken : Option String := none
  adminToken : Option String := none
  resume : Bool := false
  args : List String := []
  healthEnabled : Bool := true
  policy : Policy := {}
  deriving DecidableEq, Repr

/-- A declared instance: where it runs, its launch spec, and the desired state. -/
structure InstanceDecl where
  id : String
  node : String
  flowId : Option String := none
  desired : Desired := .running
  spec : InstanceSpec
  deriving DecidableEq, Repr

/-- A stored flow fragment. -/
structure FlowDecl where
  id : String
  name : String
  yaml : String
  deriving DecidableEq, Repr

/-- Gateway routing mode. -/
inductive RouteMode where
  | proxy
  | bus
  deriving DecidableEq, Repr

/-- Candidate selection strategy. -/
inductive Strategy where
  | roundRobin
  | hash
  deriving DecidableEq, Repr

/-- A gateway route: from a path prefix to a group of instances. -/
structure RouteDecl where
  id : String
  path : String
  flowId : String
  mode : RouteMode := .proxy
  strategy : Strategy := .roundRobin
  stickyKey : Option String := none
  topic : Option String := none
  deriving DecidableEq, Repr

/-- One instance's state as reported in a heartbeat. -/
structure InstanceReport where
  id : String
  state : InstanceState
  paused : Bool
  healthy : Bool
  restarts : Nat
  admin : Option String
  trigger : Option String := none
  deriving DecidableEq, Repr

/-- The payload of a heartbeat. -/
structure Heartbeat where
  nodeId : String
  time : String
  instances : List InstanceReport
  deriving DecidableEq, Repr

/-- A command queued for an agent. -/
structure Command where
  seq : Nat
  op : String
  instance_ : String
  deriving DecidableEq, Repr

/-- The result of one command. -/
structure CommandAck where
  seq : Nat
  ok : Bool
  error : Option String
  deriving DecidableEq, Repr

/-- An instance that the plane wants on a node. -/
structure DesiredInstance where
  spec : InstanceSpec
  desired : String
  deriving DecidableEq, Repr

/-- The answer to a heartbeat. -/
structure HeartbeatResponse where
  commands : List Command := []
  desired : List DesiredInstance := []
  deriving DecidableEq, Repr

/-- An entry of the event history. -/
structure PlaneEvent where
  time : String
  kind : String
  message : String
  deriving DecidableEq, Repr

/-- The number of events retained. -/
def eventCap : Nat := 200

/-- What the registry keeps under its lock. -/
structure Inner where
  flows : Assoc FlowDecl := []
  instances : Assoc InstanceDecl := []
  actual : Assoc (List InstanceReport) := []
  lastSeen : Assoc String := []
  pending : Assoc (List Command) := []
  seq : Assoc Nat := []
  routes : Assoc RouteDecl := []
  roundRobin : Assoc Nat := []
  mailboxes : Mailboxes Value := {}
  events : List PlaneEvent := []

namespace Assoc

variable {V : Type}

/-- The values of a hash map in an iteration order. -/
def values (hash : HashOrder) (entries : Assoc V) : List V :=
  (hash.order (entries.map Prod.fst)).filterMap fun key => get? key entries

theorem mem_values {hash : HashOrder} {entries : Assoc V} {value : V} :
    value ∈ entries.values hash ↔ ∃ key, get? key entries = some value := by
  unfold values
  rw [List.mem_filterMap]
  refine exists_congr fun key => ⟨And.right, fun present => ⟨?_, present⟩⟩
  rw [(hash.perm _).mem_iff]
  by_contra absent
  rw [get?_eq_none absent] at present
  cases present

section Collecting

variable {key : V → String} {elements : List V} {id : String} {value : V}

/-- Collects values under their own keys; a later one replaces an earlier one. -/
def collect (key : V → String) (elements : List V) : Assoc V :=
  elements.foldl (fun entries value => entries.insert (key value) value) []

/-- Every value is stored under its own key. -/
def Keyed (key : V → String) (entries : Assoc V) : Prop :=
  ∀ id value, entries.get? id = some value → key value = id

theorem Keyed.insert {entries : Assoc V} (keyed : entries.Keyed key) (own : key value = id) :
    (entries.insert id value).Keyed key := by
  intro other found present
  rw [get?_insert] at present
  by_cases here : id = other
  · rw [if_pos here] at present
    cases present
    exact own.trans here
  · rw [if_neg here] at present
    exact keyed other found present

theorem Keyed.erase {entries : Assoc V} (keyed : entries.Keyed key) (removed : String) :
    (entries.erase removed).Keyed key := by
  intro other found present
  rw [get?_erase] at present
  by_cases here : removed = other
  · rw [if_pos here] at present
    cases present
  · rw [if_neg here] at present
    exact keyed other found present

theorem collect_eq_ofList (elements : List V) :
    collect key elements = ofList (elements.map fun value => (key value, value)) := by
  unfold collect ofList
  rw [List.foldl_map]

/-- What is collected is stored under its own key. -/
theorem keyed_collect (elements : List V) : (collect key elements).Keyed key := by
  intro id value present
  rw [collect_eq_ofList] at present
  obtain ⟨other, -, same⟩ := List.mem_map.mp (mem_of_get?_ofList present)
  cases same
  rfl

/-- Collecting the values of a map whose values know their keys gives the map. -/
theorem get?_collect_values (hash : HashOrder) {entries : Assoc V}
    (keyed : entries.Keyed key) (id : String) :
    (collect key (entries.values hash)).get? id = entries.get? id := by
  rw [collect_eq_ofList]
  refine get?_ofList_of_entries (fun name value member => ?_) (fun name value present => ?_) id
  · obtain ⟨other, inside, same⟩ := List.mem_map.mp member
    cases same
    obtain ⟨name, present⟩ := mem_values.mp inside
    rw [keyed name value present]
    exact present
  · refine List.mem_map.mpr ⟨value, mem_values.mpr ⟨name, present⟩, ?_⟩
    rw [keyed name value present]

end Collecting

end Assoc

namespace Inner

section Definitions

/-- The commands that wait for a node. -/
def commands (inner : Inner) (node : String) : List Command :=
  (inner.pending.get? node).getD []

/-- The number of the last command issued to a node. -/
def counter (inner : Inner) (node : String) : Nat :=
  (inner.seq.get? node).getD 0

/-- The registry that starts from the persisted declarations. -/
def load (flows : List FlowDecl) (instances : List InstanceDecl) (routes : List RouteDecl) :
    Inner where
  flows := flows.foldl (fun entries flow => entries.insert flow.id flow) []
  instances := instances.foldl (fun entries decl => entries.insert decl.id decl) []
  routes := routes.foldl (fun entries route => entries.insert route.id route) []

/-- Records one event, dropping the oldest on overflow. -/
def recordEventLocked (time kind message : String) (inner : Inner) : Inner :=
  let events := inner.events ++ [⟨time, kind, message⟩]
  { inner with events := if eventCap < events.length then events.tail else events }

/-- Declares or replaces an instance; the id of its spec is made authoritative. -/
def declareInstance (decl : InstanceDecl) (inner : Inner) : Inner :=
  let decl := { decl with spec := { decl.spec with id := decl.id } }
  { inner with instances := inner.instances.insert decl.id decl }

/-- Removes an instance declaration. -/
def removeInstance (id : String) (inner : Inner) : Inner :=
  { inner with instances := inner.instances.erase id }

/-- Changes the desired state of a declared instance. -/
def setDesired (id : String) (desired : Desired) (inner : Inner) : Inner :=
  match inner.instances.get? id with
  | none => inner
  | some decl =>
      { inner with instances := inner.instances.insert id { decl with desired := desired } }

/-- Stores a flow fragment. -/
def putFlow (flow : FlowDecl) (inner : Inner) : Inner :=
  { inner with flows := inner.flows.insert flow.id flow }

/-- Declares or replaces a gateway route. -/
def declareRoute (route : RouteDecl) (inner : Inner) : Inner :=
  { inner with routes := inner.routes.insert route.id route }

/-- Removes a gateway route. -/
def removeRoute (id : String) (inner : Inner) : Inner :=
  { inner with routes := inner.routes.erase id }

/-- The declared instances of one node. -/
def declaredFor (hash : HashOrder) (node : String) (inner : Inner) : List InstanceDecl :=
  (inner.instances.values hash).filter fun decl => decl.node = node

/-- The last report of an instance by a node. -/
def actualOf (node instance_ : String) (inner : Inner) : Option InstanceReport :=
  (inner.actual.get? node).bind fun reports => reports.find? fun report => report.id = instance_

/-- The state transitions in one batch of reports. -/
def stateTransitions (node : String) (reports : List InstanceReport) (inner : Inner) :
    List String :=
  reports.filterMap fun report =>
    let previous := (inner.actualOf node report.id).map (·.state)
    if previous = some report.state then none
    else some ("instance '" ++ report.id ++ "' state " ++
      (previous.map InstanceState.text).getD "unknown" ++ " -> " ++ report.state.text)

/-- The operation that moves an instance from its state toward the desired one. -/
def operation : Desired → InstanceState → Option String
  | .running, .stopped | .running, .failed => some "start"
  | .running, .paused => some "resume"
  | .paused, .running => some "pause"
  | .paused, .stopped | .paused, .failed => some "start"
  | .stopped, .running | .stopped, .paused | .stopped, .starting | .stopped, .restarting =>
      some "stop"
  | _, _ => none

/-- The command that moves an instance toward its desired state, if any; it is numbered
when it is queued. -/
def desiredCommand (decl : InstanceDecl) (actual : Option InstanceReport)
    (pending : List Command) : Option Command := do
  let actual ← actual
  let op ← operation decl.desired actual.state
  if pending.any fun command => command.instance_ = decl.id && command.op = op then none
  else some ⟨0, op, decl.id⟩

/-- Queues a command for a node under the next number of the node. -/
def enqueue (node : String) (command : Command) (inner : Inner) : Inner :=
  let seq := inner.counter node + 1
  { inner with
    seq := inner.seq.insert node seq
    pending := inner.pending.insert node (inner.commands node ++ [{ command with seq := seq }]) }

/-- Queues the commands that move the declared instances of a node toward their desired
states. -/
def enqueueReconcile (node : String) (reports : List InstanceReport)
    (declared : List InstanceDecl) (inner : Inner) : Inner :=
  declared.foldl (fun inner decl =>
    let actual := reports.find? fun report => report.id = decl.id
    match desiredCommand decl actual (inner.commands node) with
    | none => inner
    | some command => inner.enqueue node command) inner

/-- Records a heartbeat and queues commands; the answer has every queued command of the
node and its desired instances. -/
def heartbeat (hash : HashOrder) (time : String) (beat : Heartbeat) (inner : Inner) :
    HeartbeatResponse × Inner :=
  let node := beat.nodeId
  let transitions := inner.stateTransitions node beat.instances
  let reported := { inner with
    actual := inner.actual.insert node beat.instances
    lastSeen := inner.lastSeen.insert node beat.time }
  let recorded := transitions.foldl (fun inner transition =>
    inner.recordEventLocked time "state" transition) reported
  let declared := recorded.declaredFor hash node
  let queued := recorded.enqueueReconcile node beat.instances declared
  let desired := declared.map fun decl => ⟨decl.spec, decl.desired.text⟩
  (⟨queued.commands node, desired⟩, queued)

/-- Removes the acknowledged number from every queue. -/
def ack (ack : CommandAck) (inner : Inner) : Inner :=
  { inner with
    pending := inner.pending.mapValues fun pending =>
      pending.filter fun command => command.seq ≠ ack.seq }

/-- The instances that a route can go to, with their trigger addresses. -/
def runningTargets (hash : HashOrder) (route : RouteDecl) (inner : Inner) :
    List (String × String) :=
  let group := (inner.instances.values hash).filter fun decl => decl.flowId = some route.flowId
  group.filterMap fun decl => do
    let report ← inner.actualOf decl.node decl.id
    if report.state ≠ .running then none
    else
      let trigger ← report.trigger
      return (decl.id, trigger)

/-- Orders targets: by the hash of the sticky key, or rotated by the counter of the route. -/
def orderTargets (hashKeyOrder : String → String → Nat) (route : RouteDecl)
    (hashKey : Option String) (targets : List (String × String)) (inner : Inner) :
    List String × Inner :=
  match route.strategy, hashKey with
  | .hash, some key =>
      let sorted := targets.mergeSort fun left right =>
        hashKeyOrder key left.1 ≤ hashKeyOrder key right.1
      (sorted.map Prod.snd, inner)
  | _, _ =>
      let counter := (inner.roundRobin.get? route.id).getD 0
      let rotated := targets.rotateLeft (counter % targets.length)
      (rotated.map Prod.snd,
        { inner with roundRobin := inner.roundRobin.insert route.id (counter + 1) })

/-- The ordered trigger addresses for a request of a route. -/
def selectTargets (hash : HashOrder) (hashKeyOrder : String → String → Nat) (route : RouteDecl)
    (hashKey : Option String) (inner : Inner) : List String × Inner :=
  match inner.runningTargets hash route with
  | [] => ([], inner)
  | targets => inner.orderTargets hashKeyOrder route hashKey targets

end Definitions

section Queues

variable {inner : Inner} {node other : String}

@[simp] theorem commands_recordEventLocked (time kind message : String) (inner : Inner) :
    (inner.recordEventLocked time kind message).commands = inner.commands := rfl

@[simp] theorem counter_recordEventLocked (time kind message : String) (inner : Inner) :
    (inner.recordEventLocked time kind message).counter = inner.counter := rfl

/-- Recording events leaves the queues and the counters. -/
theorem queues_recordEvents (time kind : String) (messages : List String) (inner : Inner) :
    (messages.foldl (fun inner message => inner.recordEventLocked time kind message)
        inner).commands = inner.commands ∧
      (messages.foldl (fun inner message => inner.recordEventLocked time kind message)
        inner).counter = inner.counter := by
  induction messages generalizing inner with
  | nil => exact ⟨rfl, rfl⟩
  | cons message rest ih => exact ih _

theorem commands_enqueue (command : Command) :
    (inner.enqueue node command).commands other =
      if node = other then inner.commands node ++ [{ command with seq := inner.counter node + 1 }]
      else inner.commands other := by
  unfold commands enqueue
  rw [Assoc.get?_insert]
  split <;> rfl

theorem counter_enqueue (command : Command) :
    (inner.enqueue node command).counter other =
      if node = other then inner.counter node + 1 else inner.counter other := by
  unfold counter enqueue
  rw [Assoc.get?_insert]
  split <;> rfl

theorem commands_ack (received : CommandAck) (inner : Inner) (node : String) :
    (inner.ack received).commands node =
      (inner.commands node).filter fun command => command.seq ≠ received.seq := by
  unfold commands ack
  rw [Assoc.get?_mapValues]
  cases inner.pending.get? node <;> rfl

/-- An acknowledgement leaves a queue just in case the queue does not have its number. -/
theorem commands_ack_eq_iff (received : CommandAck) (inner : Inner) (node : String) :
    (inner.ack received).commands node = inner.commands node ↔
      ∀ command ∈ inner.commands node, command.seq ≠ received.seq := by
  rw [commands_ack, List.filter_eq_self]
  simp only [decide_eq_true_eq]

end Queues

section Numbering

variable {inner : Inner} {node : String}

/-- The queues are numbered: in each, the numbers increase, from one on, up to the counter of
its node. -/
def Numbered (inner : Inner) : Prop :=
  ∀ node, (inner.commands node).Pairwise (fun one other => one.seq < other.seq) ∧
    ∀ command ∈ inner.commands node, 0 < command.seq ∧ command.seq ≤ inner.counter node

/-- Only the queues and the counters matter. -/
theorem Numbered.congr {next : Inner} (numbered : inner.Numbered)
    (commands : next.commands = inner.commands) (counter : next.counter = inner.counter) :
    next.Numbered := by
  unfold Numbered
  rw [commands, counter]
  exact numbered

theorem Numbered.enqueue (numbered : inner.Numbered) (node : String) (command : Command) :
    (inner.enqueue node command).Numbered := by
  intro other
  obtain ⟨increasing, bounded⟩ := numbered other
  rw [commands_enqueue, counter_enqueue]
  by_cases same : node = other
  · subst same
    rw [if_pos rfl, if_pos rfl]
    constructor
    · rw [List.pairwise_append]
      refine ⟨increasing, List.pairwise_singleton _ _, ?_⟩
      intro queued member new here
      rw [List.mem_singleton.mp here]
      exact Nat.lt_succ_of_le (bounded queued member).2
    · intro queued member
      rcases List.mem_append.mp member with old | new
      · exact ⟨(bounded queued old).1, Nat.le_succ_of_le (bounded queued old).2⟩
      · rw [List.mem_singleton.mp new]
        exact ⟨Nat.succ_pos _, Nat.le_refl _⟩
  · rw [if_neg same, if_neg same]
    exact ⟨increasing, bounded⟩

theorem Numbered.enqueueReconcile (numbered : inner.Numbered) (node : String)
    (reports : List InstanceReport) (declared : List InstanceDecl) :
    (inner.enqueueReconcile node reports declared).Numbered := by
  unfold Inner.enqueueReconcile
  induction declared generalizing inner with
  | nil => exact numbered
  | cons decl rest ih =>
      rw [List.foldl_cons]
      apply ih
      dsimp only
      split
      · exact numbered
      · exact numbered.enqueue node _

theorem Numbered.heartbeat (numbered : inner.Numbered) (hash : HashOrder) (time : String)
    (beat : Heartbeat) : (inner.heartbeat hash time beat).2.Numbered := by
  apply Numbered.enqueueReconcile
  obtain ⟨commands, counter⟩ := queues_recordEvents time "state"
    (inner.stateTransitions beat.nodeId beat.instances)
    { inner with
      actual := inner.actual.insert beat.nodeId beat.instances
      lastSeen := inner.lastSeen.insert beat.nodeId beat.time }
  exact numbered.congr commands counter

theorem Numbered.ack (numbered : inner.Numbered) (received : CommandAck) :
    (inner.ack received).Numbered := by
  intro node
  obtain ⟨increasing, bounded⟩ := numbered node
  rw [commands_ack]
  refine ⟨increasing.filter _, ?_⟩
  intro command member
  exact bounded command (List.mem_of_mem_filter member)

/-- The numbers of a queue are distinct. -/
theorem Numbered.nodup (numbered : inner.Numbered) (node : String) :
    ((inner.commands node).map (·.seq)).Nodup :=
  List.pairwise_map.mpr ((numbered node).1.imp Nat.ne_of_lt)

end Numbering

section Selection

/-- Selecting targets leaves the queues and the counters of commands. -/
theorem queues_selectTargets (hash : HashOrder) (hashKeyOrder : String → String → Nat)
    (route : RouteDecl) (hashKey : Option String) (inner : Inner) :
    (inner.selectTargets hash hashKeyOrder route hashKey).2.commands = inner.commands ∧
      (inner.selectTargets hash hashKeyOrder route hashKey).2.counter = inner.counter := by
  unfold selectTargets
  split
  · exact ⟨rfl, rfl⟩
  · unfold orderTargets
    split <;> exact ⟨rfl, rfl⟩

end Selection

end Inner

end Sohara
