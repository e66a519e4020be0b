import Sohara.Plane.Registry
import Sohara.Transition.Runs

/-! # Commands and acknowledgements

Agents of any number of nodes send heartbeats and acknowledge the commands they receive,
while operators change the declarations, the gateway serves requests, and the plane
restarts. An acknowledgement names only the number of its command, and each node has
numbers of its own: it leaves the queues of the other nodes alone just in case none of
them has a command of that number.
-/

namespace Sohara

/-- What the registry does under its lock for callers other than the agents. -/
inductive RegistryCall where
  | declareInstance (decl : InstanceDecl)
  | removeInstance (id : String)
  | setDesired (id : String) (desired : Desired)
  | putFlow (flow : FlowDecl)
  | declareRoute (route : RouteDecl)
  | removeRoute (id : String)
  | recordEvent (time kind message : String)
  | selectTargets (hash : HashOrder) (hashKeyOrder : String → String → Nat) (route : RouteDecl)
      (hashKey : Option String)
  | relayPublish (topic : String) (payload : Value)
  | relayPull (subscriber : String) (subscriptions : List (String × Nat))

namespace Inner

/-- The registry after a call. -/
def perform (call : RegistryCall) (inner : Inner) : Inner :=
  match call with
  | .declareInstance decl => inner.declareInstance decl
  | .removeInstance id => inner.removeInstance id
  | .setDesired id desired => inner.setDesired id desired
  | .putFlow flow => inner.putFlow flow
  | .declareRoute route => inner.declareRoute route
  | .removeRoute id => inner.removeRoute id
  | .recordEvent time kind message => inner.recordEventLocked time kind message
  | .selectTargets hash hashKeyOrder route hashKey =>
      (inner.selectTargets hash hashKeyOrder route hashKey).2
  | .relayPublish topic payload =>
      { inner with mailboxes := inner.mailboxes.relayPublish topic payload }
  | .relayPull subscriber subscriptions =>
      { inner with mailboxes := (inner.mailboxes.relayPull subscriber subscriptions).2 }

/-- The calls leave the queues and the counters of commands. -/
theorem queues_perform (call : RegistryCall) (inner : Inner) :
    (inner.perform call).commands = inner.commands ∧
      (inner.perform call).counter = inner.counter := by
  cases call with
  | setDesired id desired =>
      unfold perform setDesired
      dsimp only
      split <;> exact ⟨rfl, rfl⟩
  | selectTargets hash hashKeyOrder route hashKey =>
      exact queues_selectTargets hash hashKeyOrder route hashKey inner
  | _ => exact ⟨rfl, rfl⟩

end Inner

/-- A plane, and the commands that the agents have received, each with the node. -/
structure Control where
  registry : Inner := {}
  received : List (String × Command) := []

/-- What can happen between a plane and its agents. -/
inductive ControlEvent where
  /-- The registry serves a caller that is no agent. -/
  | call (call : RegistryCall)
  /-- A heartbeat is answered, and the answer arrives or is lost. -/
  | heartbeat (hash : HashOrder) (time : String) (beat : Heartbeat) (arrives : Bool)
  /-- The agent of a node acknowledges a command that it has received. -/
  | ack (node : String) (ack : CommandAck)
  /-- The plane restarts with the declarations of its file. -/
  | restart (flows : List FlowDecl) (instances : List InstanceDecl) (routes : List RouteDecl)

namespace Control

/-- The system after an event, if the event can happen. -/
def step (event : ControlEvent) (control : Control) : Option Control :=
  match event with
  | .call call => some { control with registry := control.registry.perform call }
  | .heartbeat hash time beat arrives =>
      let (response, registry) := control.registry.heartbeat hash time beat
      let handed := if arrives then response.commands else []
      some ⟨registry, control.received ++ handed.map fun command => (beat.nodeId, command)⟩
  | .ack node ack =>
      if control.received.any fun receipt => receipt.1 = node && receipt.2.seq = ack.seq then
        some { control with registry := control.registry.ack ack }
      else none
  | .restart flows instances routes =>
      some { control with registry := .load flows instances routes }

/-- An event, with the systems before and after it. -/
structure Moment where
  before : Control
  event : ControlEvent
  after : Control

/-- A run from a new plane, with its moments. -/
inductive Run : List Moment → Control → Prop where
  | nil : Run [] {}
  | snoc {moments : List Moment} {control next : Control} {event : ControlEvent}
      (run : Run moments control) (stepped : control.step event = some next) :
      Run (moments ++ [⟨control, event, next⟩]) next

/-- The moment leaves the queue of every node alone but for the node that acknowledges. -/
def Moment.Isolated (moment : Moment) : Prop :=
  ∀ node ack, moment.event = .ack node ack → ∀ other, other ≠ node →
    moment.after.registry.commands other = moment.before.registry.commands other

/-- No other node has a queued command of the number that is acknowledged. -/
def Moment.Apart (moment : Moment) : Prop :=
  ∀ node ack, moment.event = .ack node ack → ∀ other, other ≠ node →
    ∀ command ∈ moment.before.registry.commands other, command.seq ≠ ack.seq

section Runs

variable {moments : List Moment} {moment : Moment} {control next last : Control}
  {event : ControlEvent}

/-- The queues stay numbered. -/
theorem numbered_step (numbered : control.registry.Numbered)
    (stepped : control.step event = some next) : next.registry.Numbered := by
  cases event with
  | call call =>
      cases stepped
      obtain ⟨commands, counter⟩ := Inner.queues_perform call control.registry
      exact numbered.congr commands counter
  | heartbeat hash time beat arrives =>
      cases stepped
      exact numbered.heartbeat hash time beat
  | ack node ack =>
      simp only [step] at stepped
      split at stepped
      · cases stepped
        exact numbered.ack ack
      · cases stepped
  | restart flows instances routes =>
      cases stepped
      exact fun node => ⟨.nil, nofun⟩

/-- **In every reachable state the queues are numbered.** -/
theorem Run.numbered (run : Run moments last) : last.registry.Numbered := by
  induction run with
  | nil => exact fun node => ⟨.nil, nofun⟩
  | snoc run stepped ih => exact numbered_step ih stepped

/-- The moments of a run are steps. -/
theorem Run.stepped (run : Run moments last) (member : moment ∈ moments) :
    moment.before.step moment.event = some moment.after := by
  induction run with
  | nil => cases member
  | snoc run stepped ih =>
      rcases List.mem_append.mp member with inside | here
      · exact ih inside
      · obtain rfl := List.mem_singleton.mp here
        exact stepped

/-- An acknowledgement is a call of the registry. -/
theorem registry_of_ack {node : String} {ack : CommandAck}
    (stepped : control.step (.ack node ack) = some next) :
    next.registry = control.registry.ack ack := by
  simp only [step] at stepped
  split at stepped
  · cases stepped
    rfl
  · cases stepped

/-- A moment is isolated just in case the acknowledged number is apart. -/
theorem isolated_iff (stepped : moment.before.step moment.event = some moment.after) :
    moment.Isolated ↔ moment.Apart := by
  unfold Moment.Isolated Moment.Apart
  apply forall_congr'
  intro node
  apply forall_congr'
  intro ack
  refine imp_congr_right fun acknowledged => ?_
  rw [acknowledged] at stepped
  rw [registry_of_ack stepped]
  exact forall_congr' fun other => imp_congr_right fun _ => Inner.commands_ack_eq_iff ack _ other

/-- **Acknowledgements leave the queues of the other nodes alone just in case no other node
has a queued command of an acknowledged number.** -/
theorem acks_isolated_iff (run : Run moments last) :
    (∀ moment ∈ moments, moment.Isolated) ↔ ∀ moment ∈ moments, moment.Apart :=
  forall_congr' fun _ => forall_congr' fun member => isolated_iff (run.stepped member)

/-- Plays events in turn; nothing when one of them cannot happen. -/
def play (control : Control) : List ControlEvent → Option (List Moment × Control)
  | [] => some ([], control)
  | event :: rest => do
      let next ← control.step event
      let (moments, last) ← play next rest
      return (⟨control, event, next⟩ :: moments, last)

/-- Playing events after a run extends the run. -/
theorem Run.play {events : List ControlEvent} {later : List Moment}
    (run : Run moments control) (played : control.play events = some (later, last)) :
    Run (moments ++ later) last :=
  Transition.extend_of_play (fun _ => rfl) (fun _ _ _ => rfl) Run.snoc run played

end Runs

end Control

namespace Sample

open Control

/-- Hash maps that are iterated in the order of insertion. -/
def insertionOrder : HashOrder := ⟨fun elements => elements, fun _ => .refl _⟩

/-- A node reports that its instance is stopped, and the answer arrives. -/
def stoppedBeat (node instance_ : String) : ControlEvent :=
  .heartbeat insertionOrder "10:00:05"
    ⟨node, "10:00:04", [⟨instance_, .stopped, false, true, 0, none, none⟩]⟩ true

/-- An instance is declared for each of two nodes, and both nodes get a first command. -/
def twoNodes : List ControlEvent :=
  [.call (.declareInstance { id := "i1", node := "n1", spec := {} }),
    .call (.declareInstance { id := "i2", node := "n2", spec := {} }),
    stoppedBeat "n1" "i1", stoppedBeat "n2" "i2"]

/-- The acknowledgement of a first command by a node. -/
def firstAck (node : String) : ControlEvent := .ack node ⟨1, true, none⟩

/-- **An acknowledgement takes the command of another node**: the first commands of two
nodes have the same number. -/
theorem twoNodes_not_isolated : ∃ moments last, Run moments last ∧
    ∃ moment ∈ moments, moment.event = firstAck "n1" ∧
      moment.before.registry.commands "n2" = [⟨1, "start", "i2"⟩] ∧
      moment.after.registry.commands "n2" = [] := by
  have played : Control.play {} (twoNodes ++ [firstAck "n1"]) = some (_, _) := rfl
  exact ⟨_, _, Run.nil.play played, _, List.mem_append_right _ (List.mem_of_getLast? rfl), rfl,
    rfl, rfl⟩

/-- Two instances are declared for one node and one for another, so that the first node gets two
commands, and the other a first one. -/
def unevenNodes : List ControlEvent :=
  [.call (.declareInstance { id := "i1", node := "n1", spec := {} }),
    .call (.declareInstance { id := "i2", node := "n2", spec := {} }),
    .call (.declareInstance { id := "i3", node := "n1", spec := {} }),
    .heartbeat insertionOrder "10:00:05"
      ⟨"n1", "10:00:04", [⟨"i1", .stopped, false, true, 0, none, none⟩,
        ⟨"i3", .stopped, false, true, 0, none, none⟩]⟩ true,
    stoppedBeat "n2" "i2"]

/-- The acknowledgement of the second command of a node leaves the first command of the other
queued. -/
theorem unevenNodes_isolated : ∃ moments last, Run moments last ∧
    (∃ moment ∈ moments, moment.event = .ack "n1" ⟨2, true, none⟩ ∧
      moment.before.registry.commands "n1" = [⟨1, "start", "i1"⟩, ⟨2, "start", "i3"⟩] ∧
      moment.before.registry.commands "n2" = [⟨1, "start", "i2"⟩] ∧
      moment.after.registry.commands "n1" = [⟨1, "start", "i1"⟩]) ∧
    ∀ moment ∈ moments, moment.Isolated := by
  have played : Control.play {} (unevenNodes ++ [.ack "n1" ⟨2, true, none⟩]) = some (_, _) := rfl
  refine ⟨_, _, Run.nil.play played, ?_, (acks_isolated_iff (Run.nil.play played)).mpr ?_⟩
  · exact ⟨_, List.mem_append_right _ (List.mem_of_getLast? rfl), rfl, rfl, rfl, rfl⟩
  intro moment member node ack acknowledged other different command queued
  simp only [List.nil_append, List.mem_cons, List.not_mem_nil, or_false] at member
  rcases member with rfl | rfl | rfl | rfl | rfl | rfl
  · cases acknowledged
  · cases acknowledged
  · cases acknowledged
  · cases acknowledged
  · cases acknowledged
  · cases acknowledged
    -- the queues of the nodes, at the acknowledgement
    change command ∈ (Assoc.get? other
      [("n1", [⟨1, "start", "i1"⟩, ⟨2, "start", "i3"⟩]), ("n2", [⟨1, "start", "i2"⟩])]).getD []
        at queued
    rw [Assoc.get?_cons, if_neg (Ne.symm different), Assoc.get?_cons] at queued
    split at queued
    · obtain rfl := List.mem_singleton.mp queued
      exact fun same => nomatch same
    · cases queued

end Sample

end Sohara
