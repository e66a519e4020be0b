import Sohara.Async.Supervisor
import Sohara.Runtime.Walker

/-! # Sources, flushing, and approval

The programs around the walk: pumping a source, flushing batches and sinks,
running all sources, creating an executor, and releasing parked records.
-/

namespace Sohara

namespace Executor

variable (executor : Executor)

/-- Holds a pulled record while the run is paused. -/
def waitGate : Prog Unit :=
  if executor.pause then Perform.waitUnpaused else return ()

/-- Walks the elements of a source stream, up to the first failed walk. -/
def pump (root : String) : List Item → Prog Outcome
  | [] => return .ok ()
  | item :: rest => do
      executor.waitGate
      match item with
      | .ok record => (executor.walkTo record root).andThen (pump root rest)
      | .error error =>
          Perform.count .errors
          Perform.recordError root "source" error.text
          pump root rest

/-- Runs a source to completion. -/
def runSource (root : String) : Prog Outcome :=
  match executor.graph.node root with
  | some ⟨_, _, _, .source, _, _, _⟩ => do
      match ← Perform.stream root with
      | .error error => return .error error
      | .ok items => executor.pump root items
  | _ => return .ok ()

/-- Emits what is left in the listed batches. -/
def flushBatches : List String → Prog Outcome
  | [] => return .ok ()
  | id :: rest => do
      let records ← Perform.takeBatch id
      match records, executor.graph.node id with
      | [], _ => flushBatches rest
      | _, none => flushBatches rest
      | records, some node => (executor.emitBatch node records).andThen (flushBatches rest)

/-- Flushes the listed sinks, up to the first failure. -/
def flushSinks : List String → Prog Outcome
  | [] => return .ok ()
  | id :: rest => do
      match ← Perform.flush id with
      | .error error => return .error error
      | .ok () => flushSinks rest

/-- Flushes batches and sinks and persists the states. -/
def flushAll : Prog Outcome :=
  (executor.flushBatches executor.batches).andThen <|
    (flushSinks executor.sinks).andThen do
      executor.checkpoint
      return .ok ()

/-- The tasks of a run: one for every source. -/
def sourceTasks : List (Async.Task Engine) :=
  executor.graph.roots.map fun root => .run (executor.runSource root)

/-- The start of a run: the main task joins the sources, then flushes everything. -/
def run {W : Type} (world : W) : Async.Supervised Engine W := .start world executor.sourceTasks

/-- One step of a run. -/
abbrev RunStep {W : Type} (handle : Async.Handler Engine W) :
    Async.Supervised Engine W → Async.Supervised Engine W → Prop :=
  Async.Supervised.Step (S := Engine) walkCall handle executor.flushAll

/-- The states a run reaches. -/
abbrev RunReaches {W : Type} (handle : Async.Handler Engine W) :
    Async.Supervised Engine W → Async.Supervised Engine W → Prop :=
  Async.Supervised.Reaches (S := Engine) walkCall handle executor.flushAll

/-- Injects a record behind a node, then flushes everything. -/
def injectAndFlush (node : Node) (record : Record) : Prog Outcome :=
  (executor.route record node).andThen executor.flushAll

/-- Injects records one after the other, up to the first failure. -/
def injectAll (node : Node) : List Record → Prog Outcome
  | [] => return .ok ()
  | record :: rest => (executor.injectAndFlush node record).andThen (injectAll node rest)

/-- Whether a node is an approve step selected by the filter. -/
def isSelected (step : Option String) (node : Node) : Bool :=
  match node.step with
  | .control (.approve _) => step.all (· = node.id)
  | _ => false

/-- Releases the queue of one approve step and returns how many records it held. -/
def approveNode (node : Node) : Prog (Except Error Nat) := do
  match ← executor.takeApproveQueue node.id with
  | .error error => return .error error
  | .ok parked =>
      match ← executor.injectAll node parked with
      | .error error => return .error error
      | .ok () => return .ok parked.length

/-- Releases the queues of the listed approve steps, up to the first failure. -/
def approveNodes (approved : Nat) : List Node → Prog (Except Error Nat)
  | [] => return .ok approved
  | node :: rest => do
      match ← executor.approveNode node with
      | .error error => return .error error
      | .ok count => approveNodes (approved + count) rest

/-- The approve steps a pass visits, in key order. -/
def approveSteps (step : Option String) : List Node :=
  executor.graph.nodeList.filter (isSelected step)

end Executor

/-- Executor options. -/
structure ExecutorConfig where
  resume : Bool
  checkpointEvery : Option Nat
  pause : Bool

/-- What an executor is created over. -/
structure ExecutorEnv where
  platform : Platform
  hashOrder : HashOrder

/-- Creates an executor: resolves the run id and sets up the states. -/
def newExecutor (env : ExecutorEnv) (graph : FlowGraph) (vars : Fields)
    (config : ExecutorConfig) : Prog Executor := do
  let runId ← resolveRunId graph.name config.resume
  initialStates runId config.resume graph.nodeList
  return { graph, platform := env.platform, hashOrder := env.hashOrder, vars, runId,
           flowName := graph.name, checkpointEvery := config.checkpointEvery,
           pause := config.pause }

/-- Releases the approve queues of a graph, resuming the stored run. -/
def approveGraph (env : ExecutorEnv) (graph : FlowGraph) (vars : Fields)
    (step : Option String) : Prog (Except Error Nat) := do
  let executor ← newExecutor env graph vars
    { resume := true, checkpointEvery := none, pause := false }
  executor.approveNodes 0 (executor.approveSteps step)

/-- Approves every parked record of a flow, optionally of a single step, re-injecting
the records behind the gate and flushing. -/
def approvePending (env : ExecutorEnv) (registry : Registry) (flow : FlowConfig)
    (step : Option String) : Prog (Except Error Nat) :=
  let ctx : BuildContext :=
    { vars := flow.vars.toList, bus := false, flow := flow.name, step := none }
  match FlowGraph.build registry env.hashOrder flow ctx with
  | .error error => return .error error
  | .ok graph => approveGraph env graph ctx.vars step

end Sohara
