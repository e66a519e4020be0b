import Sohara.Plane.Reconcile
import Sohara.Transition.Runs

/-! # Commands and the declarations

Commands wait while operators change the declarations. A heartbeat queues only what the
declarations call for, and its answer has all that waits: it is permitted by the
declarations just in case all commands that waited before are. No operator call looks at
the queues, so a command can outlive the declaration that it was queued for.
-/

namespace Sohara

open Transition

/-- What the registry serves under its lock. -/
inductive RegistryEvent where
  | call (call : RegistryCall)
  | heartbeat (hash : HashOrder) (time : String) (beat : Heartbeat)
  | ack (ack : CommandAck)

namespace Desired

/-- An operation that does not go against a desired state. -/
def Permits (desired : Desired) (op : String) : Prop :=
  match desired with
  | .stopped => op ≠ "start" ∧ op ≠ "resume" ∧ op ≠ "pause"
  | .running | .paused => op ≠ "stop"

/-- An operation that moves some reported state toward a desired one. -/
def Moves (desired : Desired) (op : String) : Prop :=
  ∃ state, Inner.operation desired state = some op

theorem Moves.permits {desired : Desired} {op : String} (moves : desired.Moves op) :
    desired.Permits op := by
  obtain ⟨state, called⟩ := moves
  unfold Permits
  cases desired <;> cases state <;> cases called <;> decide

end Desired

namespace Inner

section Definitions

/-- The registry after an event. -/
def serve (inner : Inner) (event : RegistryEvent) : Inner :=
  match event with
  | .call call => inner.perform call
  | .heartbeat hash time beat => (inner.heartbeat hash time beat).2
  | .ack ack => inner.ack ack

/-- The registry that has started from its file and served events. -/
def served (flows : List FlowDecl) (instances : List InstanceDecl) (routes : List RouteDecl)
    (events : List RegistryEvent) : Inner :=
  events.foldl serve (.load flows instances routes)

/-- A command for an instance that is declared on a node, whose desired state allows the
operation. -/
def Permitted (allows : Desired → String → Prop) (inner : Inner) (node : String)
    (command : Command) : Prop :=
  ∃ decl, inner.instances.get? command.instance_ = some decl ∧ decl.node = node ∧
    allows decl.desired command.op

/-- Every command of the answer to a heartbeat is permitted. -/
def Obeys (allows : Desired → String → Prop) (inner : Inner) (hash : HashOrder) (time : String)
    (beat : Heartbeat) : Prop :=
  ∀ command ∈ (inner.heartbeat hash time beat).1.commands,
    Permitted allows (inner.heartbeat hash time beat).2 beat.nodeId command

/-- Every command that waits for a node is permitted. -/
def Clean (allows : Desired → String → Prop) (inner : Inner) (node : String) : Prop :=
  ∀ command ∈ inner.commands node, Permitted allows inner node command

/-- An operator call after which every command that waits is permitted. -/
def Gentle (allows : Desired → String → Prop) (inner : Inner) (call : RegistryCall) : Prop :=
  ∀ node, ∀ command ∈ inner.commands node, Permitted allows (inner.perform call) node command

/-- Every operator call of a run is gentle. -/
def GentleRun (allows : Desired → String → Prop) (flows : List FlowDecl)
    (instances : List InstanceDecl) (routes : List RouteDecl) (events : List RegistryEvent) : Prop :=
  ∀ earlier call, earlier ++ [.call call] <+: events →
    Gentle allows (served flows instances routes earlier) call

end Definitions

variable {inner : Inner} {allows : Desired → String → Prop} {node : String} {command : Command}

theorem Permitted.congr {other : Inner} (permitted : Permitted allows inner node command)
    (instances : other.instances = inner.instances) : Permitted allows other node command := by
  unfold Permitted
  rw [instances]
  exact permitted

/-- The last event is served to the registry that the earlier ones leave. -/
theorem served_concat (flows : List FlowDecl) (instances : List InstanceDecl)
    (routes : List RouteDecl) (earlier : List RegistryEvent) (event : RegistryEvent) :
    served flows instances routes (earlier ++ [event]) =
      (served flows instances routes earlier).serve event := by
  unfold served
  rw [List.foldl_append]
  rfl

theorem Keyed.serve (keyed : inner.Keyed) (event : RegistryEvent) : (inner.serve event).Keyed := by
  cases event with
  | call call => exact keyed.perform call
  | heartbeat hash time beat => exact keyed.heartbeat hash time beat
  | ack ack => exact keyed

theorem keyed_served (flows : List FlowDecl) (instances : List InstanceDecl)
    (routes : List RouteDecl) (events : List RegistryEvent) :
    (served flows instances routes events).Keyed :=
  foldl_keeps (keyed_load flows instances routes) (fun _ event keyed => keyed.serve event) events

section Answers

variable (follows : ∀ desired op, desired.Moves op → allows desired op)
include follows

/-- **One heartbeat.** Its answer obeys the declarations just in case what waited does. -/
theorem obeys_iff (keyed : inner.Keyed) (hash : HashOrder) (time : String) (beat : Heartbeat) :
    Obeys allows inner hash time beat ↔ Clean allows inner beat.nodeId := by
  have instances := @instances_heartbeat inner hash time beat
  constructor
  · intro obeys command waits
    have answered := obeys command (subset_heartbeat hash time beat waits)
    exact answered.congr instances.symm
  · intro clean command answered
    rcases mem_heartbeat hash time beat answered with
      old | ⟨-, decl, ⟨id, present⟩, here, op, ⟨report, -, called⟩, named, same⟩
    · exact (clean command old).congr instances
    · refine ⟨decl, ?_, here, ?_⟩
      · rw [instances, named, keyed id decl present]
        exact present
      · rw [same]
        exact follows _ _ ⟨report.state, called⟩

/-- Events whose operator calls are gentle leave all queues clean. -/
theorem clean_of_gentle (flows : List FlowDecl) (instances : List InstanceDecl)
    (routes : List RouteDecl) (events : List RegistryEvent)
    (gentle : GentleRun allows flows instances routes events) (node : String) :
    Clean allows (served flows instances routes events) node := by
  induction events using List.reverseRecOn generalizing node with
  | nil => exact fun _ waits => nomatch waits
  | append_singleton earlier event ih =>
      have clean := ih fun before call reached =>
        gentle before call (reached.trans (List.prefix_append _ _))
      have keyed := keyed_served flows instances routes earlier
      rw [served_concat]
      intro command waits
      cases event with
      | call call =>
          have same := (queues_perform call (served flows instances routes earlier)).1
          refine gentle earlier call (List.prefix_refl _) node command ?_
          rw [← same]
          exact waits
      | heartbeat hash time beat =>
          by_cases here : beat.nodeId = node
          · subst here
            exact (obeys_iff follows keyed hash time beat).mpr (clean _) command waits
          · have same := @commands_heartbeat_of_ne (served flows instances routes earlier) _ hash
              time beat here
            have old : command ∈ (served flows instances routes earlier).commands node :=
              same ▸ waits
            exact (clean node command old).congr (instances_heartbeat hash time beat)
      | ack ack =>
          have old : command ∈ ((served flows instances routes earlier).ack ack).commands node :=
            waits
          rw [commands_ack] at old
          exact (clean node command (List.mem_of_mem_filter old)).congr rfl

end Answers

/-- **When answers obey the declarations.** After any sequence of operator calls, heartbeats
and acknowledgements: every command of an answer names an instance that is declared on the
node, with an operation that does not go against its desired state, just in case this holds
of all commands that waited; and so for operations that move toward the desired state. It
holds in every run whose operator calls are gentle. -/
theorem obedient_iff (flows : List FlowDecl) (instances : List InstanceDecl)
    (routes : List RouteDecl) (events : List RegistryEvent) (hash : HashOrder) (time : String)
    (beat : Heartbeat) :
    (Obeys Desired.Permits (served flows instances routes events) hash time beat ↔
        Clean Desired.Permits (served flows instances routes events) beat.nodeId) ∧
      (Obeys Desired.Moves (served flows instances routes events) hash time beat ↔
        Clean Desired.Moves (served flows instances routes events) beat.nodeId) ∧
      (GentleRun Desired.Permits flows instances routes events →
        Obeys Desired.Permits (served flows instances routes events) hash time beat) ∧
      (GentleRun Desired.Moves flows instances routes events →
        Obeys Desired.Moves (served flows instances routes events) hash time beat) := by
  have keyed := keyed_served flows instances routes events
  have permits := obeys_iff (fun _ _ moves => moves.permits) keyed hash time beat
  have moves := obeys_iff (fun _ _ moves => moves) keyed hash time beat
  refine ⟨permits, moves, fun gentle => permits.mpr ?_, fun gentle => moves.mpr ?_⟩
  · exact clean_of_gentle (fun _ _ moves => moves.permits) flows instances routes events gentle _
  · exact clean_of_gentle (fun _ _ moves => moves) flows instances routes events gentle _

end Inner

namespace Sample

open Sohara.Inner

/-- A worker whose desired state is running. -/
def mailDecl : InstanceDecl := { id := "mail-1", node := "n1", spec := { id := "mail-1" } }

/-- The node reports that the worker is stopped. -/
def mailStopped : Heartbeat :=
  ⟨"n1", "10:00:04", [⟨"mail-1", .stopped, false, false, 0, none, none⟩]⟩

/-- The worker is started while it is declared running, and the answer is lost. -/
def startQueued : List RegistryEvent :=
  [.call (.declareInstance mailDecl), .heartbeat insertionOrder "10:00:05" mailStopped]

/-- **A queued start outlives the declaration**: the worker is declared stopped, and the
answer still starts it; the worker is removed, and the answer still names it. -/
theorem startQueued_disobeys :
    ¬ Obeys Desired.Permits
        (served [] [] [] (startQueued ++ [.call (.setDesired "mail-1" .stopped)])) insertionOrder
        "10:00:10" mailStopped ∧
      ¬ Obeys Desired.Permits
        (served [] [] [] (startQueued ++ [.call (.removeInstance "mail-1")])) insertionOrder
        "10:00:10" mailStopped := by
  refine ⟨fun obeys => ?_, fun obeys => ?_⟩
  · obtain ⟨decl, present, -, permits⟩ := obeys ⟨1, "start", "mail-1"⟩ List.mem_cons_self
    cases present
    exact absurd rfl permits.1
  · obtain ⟨decl, present, -, -⟩ := obeys ⟨1, "start", "mail-1"⟩ List.mem_cons_self
    cases present

end Sample

end Sohara
