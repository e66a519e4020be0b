import Sohara.Core.Control
import Sohara.Digraph.Kahn

/-! # Flow configuration

The declared flow and its structural validation: version, ids, guards, and an
acyclic graph of declared edges.
-/

namespace Sohara

/-- Errors from validating a flow. -/
inductive ConfigError where
  | invalid (message : String)
  | unknownField (id field : String)
  | unsupported (id field : String)
  | configNotMap (id : String)
  deriving DecidableEq, Repr

/-- The displayed error. -/
def ConfigError.text : ConfigError → String
  | .invalid message => "invalid flow: " ++ message
  | .unknownField id field => "step '" ++ id ++ "': unknown field '" ++ field ++ "'"
  | .unsupported id field => "step '" ++ id ++ "': field '" ++ field ++
      "' belongs to a later stage (not supported in schema v1)"
  | .configNotMap id => "step '" ++ id ++ "': 'config' must be a mapping"

/-- Error strategy for a step. -/
inductive OnError where
  | fail
  | continue
  | retry
  deriving DecidableEq, Repr

/-- Retry parameters. -/
structure RetryConfig where
  max : Nat
  backoff : String

/-- One step declaration. -/
structure StepConfig where
  id : String
  kind : Option StepKind
  stepType : Option String
  /-- The template to merge into the step. -/
  useTemplate : Option String := none
  name : Option String
  description : Option String := none
  when_ : Option String
  onError : Option OnError
  retry : Option RetryConfig
  state : Option Value
  extra : Fields

/-- A trigger declaration. -/
structure TriggerConfig where
  id : String
  triggerType : String
  extra : Fields

/-- An edge declaration. -/
inductive EdgeConfig where
  | pair (source target : String)
  | object (source target : String) (guard : Option String)

namespace EdgeConfig

/-- Where the edge starts. -/
def from_ : EdgeConfig → String
  | .pair source _ => source
  | .object source _ _ => source

/-- Where the edge ends. -/
def to_ : EdgeConfig → String
  | .pair _ target => target
  | .object _ target _ => target

/-- The guard of the edge. -/
def when_ : EdgeConfig → Option String
  | .pair _ _ => none
  | .object _ _ guard => guard

end EdgeConfig

/-- The resolved config of one flow. -/
structure FlowConfig where
  name : String
  version : String
  vars : BTreeMap Value
  triggers : List TriggerConfig
  steps : List StepConfig
  edges : List EdgeConfig
  /-- Persist step states every so many processed records. -/
  checkpointEvery : Option Nat

/-- Step-level fields reserved for later stages. -/
def reservedFields : List String := ["timeout", "inputs"]

namespace StepConfig

/-- Rejects a key beside a nested config. -/
def rejectKey (step : StepConfig) (key : String) : ConfigError :=
  if key ∈ reservedFields then .unsupported step.id key else .unknownField step.id key

/-- The type config, from the nested `config` key or the flat shorthand. -/
def config (step : StepConfig) : Except ConfigError Fields :=
  match step.extra.get? "config" with
  | some value =>
      match step.extra.swapRemove "config" with
      | (key, _) :: _ => .error (step.rejectKey key)
      | [] =>
          match value with
          | .object fields => .ok fields
          | _ => .error (.configNotMap step.id)
  | none =>
      match step.extra.find? fun entry => entry.1 ∈ reservedFields with
      | some (key, _) => .error (.unsupported step.id key)
      | none => .ok step.extra

end StepConfig

/-- The trigger's config, from the nested `config` key or the flat shorthand. -/
def TriggerConfig.config (trigger : TriggerConfig) : Except ConfigError Fields :=
  match trigger.extra.get? "config" with
  | some value =>
      match trigger.extra.swapRemove "config" with
      | (key, _) :: _ => .error (.unknownField trigger.id key)
      | [] =>
          match value with
          | .object fields => .ok fields
          | _ => .error (.configNotMap trigger.id)
  | none => .ok trigger.extra

/-- Whether nothing is left of a text after trimming. -/
def isBlank (text : String) : Bool := text.toList.all isWhitespace

namespace FlowConfig

/-- The declared step ids. -/
def stepIds (flow : FlowConfig) : List String := flow.steps.map (·.id)

/-- The declared trigger ids. -/
def triggerIds (flow : FlowConfig) : List String := flow.triggers.map (·.id)

/-- Checks the schema version. -/
def validateVersion (flow : FlowConfig) : Except ConfigError Unit :=
  if flow.version = "1" then .ok ()
  else .error (.invalid
    ("unsupported schema version '" ++ flow.version ++ "' (supported: \"1\")"))

/-- Checks trigger ids and configs against the ids already taken. -/
def validateTriggersFrom (ids : List String) : List TriggerConfig → Except ConfigError Unit
  | [] => .ok ()
  | trigger :: rest => do
      if isBlank trigger.id then .error (.invalid "trigger id must not be empty")
      else if trigger.id ∈ ids then
        .error (.invalid ("duplicate id '" ++ trigger.id ++
          "' (trigger ids share the step id namespace)"))
      else
        let _ ← trigger.config
        validateTriggersFrom (trigger.id :: ids) rest

/-- Checks the triggers of the flow. -/
def validateTriggers (flow : FlowConfig) : Except ConfigError Unit :=
  validateTriggersFrom flow.stepIds flow.triggers

variable (registry : Registry) (hashOrder : HashOrder)

/-- Checks one step against the ids already taken. -/
def validateStep (ids : List String) (step : StepConfig) : Except ConfigError Unit :=
  if isBlank step.id then .error (.invalid "step id must not be empty")
  else if step.id ∈ ids then .error (.invalid ("duplicate step id '" ++ step.id ++ "'"))
  else if step.kind.isNone || step.stepType.isNone then
    .error (.invalid ("step '" ++ step.id ++
      "' is missing 'kind'/'type' (and no template provided them)"))
  else
    match step.when_ with
    | none => .ok ()
    | some guard =>
        match registry.parse guard with
        | .ok _ => .ok ()
        | .error error =>
            .error (.invalid ("step '" ++ step.id ++ "': invalid 'when': " ++ error.text))

/-- Checks the steps in declaration order. -/
def validateStepsFrom (ids : List String) : List StepConfig → Except ConfigError Unit
  | [] => .ok ()
  | step :: rest => do
      validateStep registry ids step
      validateStepsFrom (step.id :: ids) rest

/-- The number of steps of a kind. -/
def countKind (flow : FlowConfig) (kind : StepKind) : Nat :=
  flow.steps.countP fun step => step.kind = some kind

/-- Checks that something feeds the flow and something drains it. -/
def validateCounts (flow : FlowConfig) : Except ConfigError Unit :=
  if flow.countKind .source + flow.triggers.length = 0 then
    .error (.invalid "flow needs at least one source or trigger")
  else if flow.countKind .sink = 0 then .error (.invalid "flow needs at least one sink")
  else .ok ()

/-- Checks the steps of the flow. -/
def validateSteps (flow : FlowConfig) : Except ConfigError Unit := do
  if flow.steps.isEmpty then .error (.invalid "flow must declare at least one step")
  else
    validateStepsFrom registry [] flow.steps
    flow.validateCounts

/-- Checks the endpoints and the guard of one edge. -/
def validateEdge (flow : FlowConfig) (edge : EdgeConfig) : Except ConfigError Unit :=
  let ids := flow.stepIds ++ flow.triggerIds
  if edge.from_ ∉ ids then
    .error (.invalid ("edge from unknown step '" ++ edge.from_ ++ "'"))
  else if edge.to_ ∉ ids then .error (.invalid ("edge to unknown step '" ++ edge.to_ ++ "'"))
  else if edge.from_ = edge.to_ then
    .error (.invalid ("self-loop on step '" ++ edge.from_ ++ "' is not allowed"))
  else
    match edge.when_ with
    | none => .ok ()
    | some guard =>
        match registry.parse guard with
        | .ok _ => .ok ()
        | .error error =>
            .error (.invalid ("edge '" ++ edge.from_ ++ "' -> '" ++ edge.to_ ++
              "': invalid 'when': " ++ error.text))

/-- The text of the cycle error. -/
def cycleMessage : String :=
  "flow contains a cycle; loops must use control steps (foreach/loop)"

/-- Kahn's algorithm over the declared edges. -/
def checkAcyclic (edges : List EdgeConfig) : Except ConfigError Unit :=
  let origins := (edges.map (·.from_)).dedup
  let vertices := (edges.flatMap fun edge => [edge.from_, edge.to_]).dedup
  let targets := fun origin => (edges.filter (·.from_ = origin)).map (·.to_)
  match Kahn.check vertices (hashOrder.order vertices) origins targets with
  | some visited =>
      if visited ≠ vertices.length then .error (.invalid cycleMessage) else .ok ()
  | none => .error (.invalid "indegree entry")

/-- Checks the declared edges. -/
def validateEdges (flow : FlowConfig) : Except ConfigError Unit := do
  flow.edges.forM fun edge => flow.validateEdge registry edge
  checkAcyclic hashOrder flow.edges

/-- Validates a flow. -/
def validate (flow : FlowConfig) : Except ConfigError Unit := do
  flow.validateVersion
  flow.validateTriggers
  flow.validateSteps registry
  flow.validateEdges registry hashOrder
  flow.steps.forM fun step => do
    let _ ← step.config

end FlowConfig

end Sohara
