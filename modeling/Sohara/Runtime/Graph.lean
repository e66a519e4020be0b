import Sohara.Config.Flow

/-! # The flow graph

Construction of the runtime graph from a flow: one node per step, optionally one
source node per trigger, wired by declared edges or implicit chaining and by the
targets of control steps, then checked for unknown targets and cycles.
-/

namespace Sohara

/-- A routing rule from one node to the next. -/
structure Route where
  to_ : String
  when_ : Option Expr

/-- Per-node error policy. -/
inductive ErrorPolicy where
  | fail
  | continue
  | retry (max : Nat) (backoff : Duration)
  deriving DecidableEq, Repr, Inhabited

/-- What a node executes. -/
inductive NodeStep where
  | source
  | transform
  | sink
  | control (node : ControlNode)
  deriving Inhabited

/-- Whether a step is a sink. -/
def NodeStep.isSink : NodeStep → Bool
  | .sink => true
  | _ => false

/-- One node of the flow graph. -/
structure Node where
  id : String
  when_ : Option Expr
  policy : ErrorPolicy
  step : NodeStep
  routes : List Route
  /-- Number of routes pointing at this node. -/
  incoming : Nat
  /-- Initial accumulated state. -/
  state : Option Value
  deriving Inhabited

/-- The flow graph with id lookup. -/
structure FlowGraph where
  name : String
  nodes : BTreeMap Node
  roots : List String

/-- The node with an id. -/
def FlowGraph.node (graph : FlowGraph) (id : String) : Option Node := graph.nodes[id]?

/-- The nodes in key order. -/
def FlowGraph.nodeList (graph : FlowGraph) : List Node := graph.nodes.toList.map Prod.snd

/-- A node without its routes. -/
structure PartialNode where
  step : NodeStep
  when_ : Option Expr
  policy : ErrorPolicy
  state : Option Value

/-- A pre-built trigger instance. -/
structure Trigger where
  name : String

/-- The routes leaving each node. -/
abbrev Routes : Type := BTreeMap (List Route)

namespace Routes

/-- The routes leaving a node. -/
def from_ (routes : Routes) (id : String) : List Route := (routes[id]?).getD []

/-- Appends routes to a node's entry, creating it if needed. -/
def extend (routes : Routes) (id : String) (extra : List Route) : Routes :=
  routes.insert id (routes.from_ id ++ extra)

/-- All routes, with the node each one leaves. -/
def all (routes : Routes) : List (String × Route) :=
  routes.toList.flatMap fun entry => entry.2.map fun route => (entry.1, route)

/-- Number of routes pointing at a node. -/
def countIncoming (routes : Routes) (id : String) : Nat :=
  routes.all.countP fun entry => entry.2.to_ = id

/-- Ensures every route points at a known node other than its own. -/
def validateTargets (routes : Routes) (ids : List String) : Except Error Unit :=
  routes.all.forM fun entry =>
    if entry.2.to_ ∉ ids then
      .error (.config ("step '" ++ entry.1 ++ "' routes to unknown step '" ++ entry.2.to_ ++ "'"))
    else if entry.1 = entry.2.to_ then
      .error (.config ("self-loop on step '" ++ entry.1 ++ "' is not allowed"))
    else .ok ()

/-- Kahn's algorithm over all routes; fails when a cycle exists. -/
def checkAcyclic (hashOrder : HashOrder) (routes : Routes) (ids : List String) :
    Except Error Unit :=
  let targets := fun id => (routes.from_ id).map (·.to_)
  match Kahn.check ids (hashOrder.order ids) routes.keys targets with
  | some visited =>
      if visited ≠ ids.length then .error (.config FlowConfig.cycleMessage) else .ok ()
  | none => .error (.runtime "known id")

end Routes

namespace FlowGraph

section Building

variable (registry : Registry)

/-- The error policy of a step. -/
def resolvePolicy (step : StepConfig) : Except Error ErrorPolicy :=
  match step.onError.getD .fail with
  | .fail => .ok .fail
  | .continue => .ok .continue
  | .retry =>
      match step.retry with
      | none => .error (.config
          ("step '" ++ step.id ++ "': on_error: retry needs a 'retry' block"))
      | some retry =>
          match registry.parseDuration retry.backoff with
          | .ok backoff => .ok (.retry retry.max backoff)
          | .error error => .error (.config
              ("step '" ++ step.id ++ "': retry backoff: " ++ error))

/-- The build context of a step. -/
def stepContext (base : BuildContext) (step : StepConfig) (kind : StepKind)
    (stepType : String) : BuildContext :=
  { base with step := some ⟨step.id, step.name.getD step.id, kind.text, stepType⟩ }

/-- Builds a step through the registry, and whether it is a source. -/
def buildStepNode (step : StepConfig) (ctx : BuildContext) : Except Error (NodeStep × Bool) :=
  match step.kind, step.stepType with
  | some kind, some stepType =>
      match step.config with
      | .error error => .error (.config error.text)
      | .ok config =>
          match registry.build kind stepType (.object config)
              (stepContext ctx step kind stepType) with
          | .error error => .error (.config ("step '" ++ step.id ++ "': " ++ error.text))
          | .ok .source => .ok (.source, true)
          | .ok .transform => .ok (.transform, false)
          | .ok .sink => .ok (.sink, false)
          | .ok (.control node) => .ok (.control node, false)
  | none, _ => .error (.runtime "step kind validated at load")
  | _, none => .error (.runtime "step type validated at load")

/-- The parsed guard of a step. -/
def stepGuard (step : StepConfig) : Except Error (Option Expr) :=
  match step.when_ with
  | none => .ok none
  | some guard =>
      match registry.parse guard with
      | .ok expr => .ok (some expr)
      | .error error => .error (.config
          ("step '" ++ step.id ++ "': invalid 'when': " ++ error.text))

/-- Builds one step into the nodes and roots collected so far. -/
def buildPartial (ctx : BuildContext) (built : BTreeMap PartialNode × List String)
    (step : StepConfig) : Except Error (BTreeMap PartialNode × List String) := do
  let (stepNode, isSource) ← buildStepNode registry step ctx
  let when_ ← stepGuard registry step
  let policy ← resolvePolicy registry step
  return (built.1.insert step.id { step := stepNode, when_, policy, state := step.state },
    if isSource then built.2 ++ [step.id] else built.2)

/-- Builds every step of the flow, and the ids of the sources. -/
def buildPartials (flow : FlowConfig) (ctx : BuildContext) :
    Except Error (BTreeMap PartialNode × List String) :=
  flow.steps.foldlM (buildPartial registry ctx) (∅, [])

/-- Whether a node routes to listed targets instead of its successor. -/
def hasExplicitRoutes : Option PartialNode → Bool
  | some ⟨.control (.switch _ _), _, _, _⟩ => true
  | some ⟨.control (.parallel _), _, _, _⟩ => true
  | some ⟨.control (.loop _ _ (some _)), _, _, _⟩ => true
  | _ => false

/-- The targets a control step names itself. -/
def controlTargets : ControlNode → List String
  | .switch cases default_ => cases.map (·.to_) ++ [default_]
  | .parallel branches => branches
  | .loop _ _ (some body) => [body]
  | _ => []

/-- The route of a declared edge. -/
def edgeRoute (edge : EdgeConfig) : Except Error Route :=
  match edge.when_ with
  | none => .ok ⟨edge.to_, none⟩
  | some guard =>
      match registry.parse guard with
      | .ok expr => .ok ⟨edge.to_, some expr⟩
      | .error error => .error (.config ("edge '" ++ edge.from_ ++ "' -> '" ++ edge.to_ ++
          "': invalid 'when': " ++ error.text))

/-- Adds the route of a declared edge. -/
def addEdge (routes : Routes) (edge : EdgeConfig) : Except Error Routes := do
  let route ← edgeRoute registry edge
  return routes.extend edge.from_ [route]

/-- Adds the implicit route between consecutive steps. -/
def addLink (partials : BTreeMap PartialNode) (routes : Routes)
    (pair : StepConfig × StepConfig) : Routes :=
  if hasExplicitRoutes partials[pair.1.id]? then routes
  else routes.extend pair.1.id [⟨pair.2.id, none⟩]

/-- Adds the routes a control step names itself. -/
def addControl (routes : Routes) (entry : String × PartialNode) : Routes :=
  match entry.2.step with
  | .control node => routes.extend entry.1 ((controlTargets node).map (⟨·, none⟩))
  | _ => routes

/-- Consecutive steps in declaration order. -/
def windows (steps : List StepConfig) : List (StepConfig × StepConfig) :=
  steps.zip steps.tail

/-- Wires the declared edges, or consecutive steps when there are none. -/
def wireEdges (flow : FlowConfig) (partials : BTreeMap PartialNode) : Except Error Routes :=
  if flow.edges.isEmpty then .ok ((windows flow.steps).foldl (addLink partials) ∅)
  else flow.edges.foldlM (addEdge registry) ∅

/-- Wires the edges and the routes of control steps. -/
def wireRoutes (flow : FlowConfig) (partials : BTreeMap PartialNode) : Except Error Routes := do
  let routes ← wireEdges registry flow partials
  return partials.toList.foldl addControl routes

/-- A node with its routes attached. -/
def nodeOf (routes : Routes) (id : String) (node : PartialNode) : Node where
  id := id
  when_ := node.when_
  policy := node.policy
  step := node.step
  routes := routes.from_ id
  incoming := routes.countIncoming id
  state := node.state

/-- Attaches its routes to a partial node; a sink must have none. -/
def assembleNode (routes : Routes) (nodes : BTreeMap Node) (entry : String × PartialNode) :
    Except Error (BTreeMap Node) :=
  if entry.2.step.isSink && !(routes.from_ entry.1).isEmpty then
    .error (.config ("sink '" ++ entry.1 ++ "' cannot have outgoing edges"))
  else .ok (nodes.insert entry.1 (nodeOf routes entry.1 entry.2))

/-- Attaches routes to all partial nodes. -/
def assembleNodes (partials : BTreeMap PartialNode) (routes : Routes) :
    Except Error (BTreeMap Node) :=
  partials.toList.foldlM (assembleNode routes) ∅

variable (hashOrder : HashOrder)

/-- Wires, checks and assembles the graph. -/
def assemble (flow : FlowConfig) (partials : BTreeMap PartialNode) (roots : List String) :
    Except Error FlowGraph := do
  let routes ← wireRoutes registry flow partials
  routes.validateTargets partials.keys
  routes.checkAcyclic hashOrder partials.keys
  let nodes ← assembleNodes partials routes
  return { name := flow.name, nodes, roots }

/-- Builds the graph of a validated flow. -/
def build (flow : FlowConfig) (ctx : BuildContext) : Except Error FlowGraph := do
  let (partials, roots) ← buildPartials registry flow ctx
  assemble registry hashOrder flow partials roots

/-- The source node of a trigger. -/
def triggerNode : PartialNode := { step := .source, when_ := none, policy := .fail, state := none }

/-- Builds the graph with pre-built trigger instances as source roots. -/
def buildWithTriggers (flow : FlowConfig) (ctx : BuildContext) (triggers : List Trigger) :
    Except Error FlowGraph := do
  let (partials, roots) ← buildPartials registry flow ctx
  let ids := (flow.triggers.zip triggers).map (·.1.id)
  assemble registry hashOrder flow
    (ids.foldl (fun partials id => partials.insert id triggerNode) partials) (roots ++ ids)

end Building

end FlowGraph

end Sohara
