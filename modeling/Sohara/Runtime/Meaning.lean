import Sohara.Async.Accounting
import Sohara.Digraph.PathSum
import Sohara.Runtime.Termination

/-! # The path-sum meaning of stateless flows

A flow of sources, deterministic transforms, `switch`, `foreach`, `parallel`,
`delay` and sinks is a network over records up to their ids, timestamps and
correlations. The walk of a record sends exactly the path sum of the network,
whatever the order in which concurrent walks are interleaved.
-/

namespace Sohara

open Async Async.Program

/-- What a record carries through a flow: its payload, and its metadata without the
correlation that a `parallel` step draws. -/
structure Core where
  payload : Value
  metadata : Metadata

/-- The core of a record. -/
def Record.core (record : Record) : Core :=
  ⟨record.payload, record.metadata.erase "correlation"⟩

/-- The cores a transform passes on. -/
def outcomeCores : Except Error TransformOutcome → List Core
  | .ok (.pass record) => [record.core]
  | .ok .filtered => []
  | .ok (.expand records) => records.map Record.core
  | .ok (.fail _) => []
  | .error _ => []

/-- Whether a transform failed. -/
def isFailure : Except Error TransformOutcome → Bool
  | .ok (.fail _) => true
  | .error _ => true
  | _ => false

/-- The draws of a reference evaluation. -/
def Draws.blank : Draws := ⟨fun _ => "", fun _ => ""⟩

/-- What the transforms of a flow make of a core. -/
abbrev Action : Type := String → Core → List Core

namespace Executor

variable (executor : Executor)

section Reference

/-- The value of a deterministic expression. -/
def evalPure (expr : Expr) (value : Value) : Except ExprError Value :=
  eval executor.platform Draws.blank ⟨executor.vars⟩ expr [] value

/-- Whether a guard evaluates without error to a truthy value. -/
def holds (payload : Value) : Option Expr → Bool
  | none => true
  | some guard =>
      match executor.evalPure guard payload with
      | .ok value => isTruthy value
      | .error _ => false

theorem holds_some (payload : Value) (guard : Expr) :
    executor.holds payload (some guard) =
      match executor.evalPure guard payload with
      | .ok value => isTruthy value
      | .error _ => false := rfl

/-- The hops of a switch: each case that holds after none before it, then the
default. -/
def switchHops (default_ : String) : List SwitchCase → List (Network.Hop String Core)
  | [] => [⟨default_, fun _ => true⟩]
  | case :: rest =>
      ⟨case.to_, fun core => executor.holds core.payload (some case.when_)⟩ ::
        (switchHops default_ rest).map fun hop =>
          ⟨hop.target, fun core =>
            !executor.holds core.payload (some case.when_) && hop.passes core⟩

/-- The hops out of a node: the branches of a parallel step, the cases of a switch,
the routes of any other. -/
def hops (node : Node) : List (Network.Hop String Core) :=
  match node.step with
  | .sink => []
  | .control (.switch cases default_) => executor.switchHops default_ cases
  | .control (.parallel branches) => branches.map (⟨·, fun _ => true⟩)
  | _ => node.routes.map fun route =>
      ⟨route.to_, fun core => executor.holds core.payload route.when_⟩

/-- The items a `foreach` iterates over. -/
def items (over_ : Expr) (payload : Value) : List Value :=
  match executor.evalPure over_ payload with
  | .ok (.array items) => items
  | _ => []

/-- What leaves a node for an accepted core. -/
def leaves (action : Action) (node : Node) (core : Core) : List Core :=
  match node.step with
  | .transform => action node.id core
  | .control (.foreach over_ asField maxIterations) =>
      ((executor.items over_ core.payload).take maxIterations).map fun item =>
        { core with payload := setPath core.payload (asField.getD "item") item }
  | _ => [core]

/-- The network of a flow. -/
def network (action : Action) : Network String Core where
  accepts id core := (executor.graph.node id).any fun node => executor.holds core.payload node.when_
  act id core := ((executor.graph.node id).map fun node => executor.leaves action node core).getD []
  hops id := ((executor.graph.node id).map executor.hops).getD []
  final := executor.isSink

/-- The sum over all paths from a node. -/
def meaning (action : Action) (id : String) (core : Core) : Multiset (String × Core) :=
  (executor.network action).pathSum executor.graph.nodes.size id core

/-- The sum over all records of a source. -/
def sourceMeaning (action : Action) (streams : String → Except Error (List Item))
    (root : String) : Multiset (String × Core) :=
  match executor.graph.node root, streams root with
  | some ⟨_, _, _, .source, _, _, _⟩, .ok items =>
      (items.map fun item =>
        match item with
        | .ok record => executor.meaning action root record.core
        | .error _ => 0).sum
  | _, _ => 0

end Reference

section Conditions

/-- Steps without state, with deterministic expressions. -/
def StatelessStep (platform : Platform) : NodeStep → Prop
  | .source => True
  | .transform => True
  | .sink => True
  | .control (.switch cases _) => ∀ case ∈ cases, case.when_.Deterministic platform
  | .control (.foreach over_ _ _) => over_.Deterministic platform
  | .control (.parallel _) => True
  | .control (.delay _) => True
  | _ => False

/-- All nodes are stateless and all guards deterministic. -/
structure Stateless : Prop where
  steps : ∀ {id node}, executor.graph.node id = some node →
    StatelessStep executor.platform node.step
  guards : ∀ {id node}, executor.graph.node id = some node →
    ∀ guard, node.when_ = some guard → guard.Deterministic executor.platform
  edges : ∀ {id node}, executor.graph.node id = some node →
    ∀ route ∈ node.routes, ∀ guard, route.when_ = some guard →
      guard.Deterministic executor.platform

/-- An outcome of a transform that acts as given, and fails only where failures are
dropped. -/
def ActsAs (action : Action) (id : String) (record : Record)
    (outcome : Except Error TransformOutcome) : Prop :=
  ∀ node, executor.graph.node id = some node → node.step = .transform →
    outcomeCores outcome = action id record.core ∧
      (isFailure outcome = true → node.policy = .continue)

/-- The responses of a process without a store to deterministic components. -/
def Admits (action : Action) (streams : String → Except Error (List Item)) :
    (op : Op) → op.Response → Prop
  | .eval platform ctx expr value, response =>
      ∃ draws, response = eval platform draws ctx expr [] value
  | .hasStore, response => response = false
  | .transform id record, response => executor.ActsAs action id record response
  | .stream source, response => response = streams source
  | _, _ => True

end Conditions

/-- What an operation sends. -/
def sends (event : Event Engine) : Multiset (String × Core) :=
  match event.op with
  | .send sink record => {(sink, record.core)}
  | _ => 0

/-- What a call has to send. -/
def price (action : Action) (call : Call) : Multiset (String × Core) :=
  call.executor.meaning action call.node call.record.core

end Executor

end Sohara
