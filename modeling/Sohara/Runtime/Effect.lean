import Sohara.Async.Program
import Sohara.Runtime.Graph

/-! # The operations of the engine

Executors run as asynchronous programs. Their operations are the steps other
tasks can observe or interleave with: evaluations, counters, lock-protected
sections, store accesses, and the calls of sources, transforms and sinks. Their
recursive calls walk a record from a node.
-/

namespace Sohara

/-- The counters of an executor. -/
inductive Counter where
  | processed
  | filtered
  | errors
  | waiting
  | duplicates
  deriving DecidableEq, Repr

/-- The per-step counters. -/
inductive StatField where
  | processed
  | filtered
  | errors
  deriving DecidableEq, Repr

/-- An element of a source stream. -/
abbrev Item : Type := Except Error Record

/-- The atomic operations. -/
inductive Op where
  /-- A route led to an unknown node and its record was dropped. -/
  | unknownNode (id : String)
  | eval (platform : Platform) (ctx : EvalContext) (expr : Expr) (value : Value)
  | count (counter : Counter)
  | tickStep (id : String) (field : StatField)
  | recordError (step kind message : String)
  /-- Whether a state store is configured. -/
  | hasStore
  | load (key : String)
  | save (key : String) (value : Value)
  | delete (key : String)
  /-- Opens the stream of a source and yields its elements. -/
  | stream (source : String)
  | transform (node : String) (record : Record)
  | send (sink : String) (record : Record)
  | flush (sink : String)
  | freshUuid
  /-- A new record around a payload. -/
  | newRecord (payload : Value)
  | sleep (duration : Duration)
  | waitUnpaused
  | stateOf (id : String)
  | setState (id : String) (value : Value)
  /-- A copy of all accumulated states. -/
  | states
  /-- Adds a record to its group and takes the group when it is ready. -/
  | joinArrive (id correlation : String) (mode : JoinMode) (expected threshold : Nat)
      (record : Record)
  /-- Adds a record to a batch and takes the batch when it is due. -/
  | batchArrive (id : String) (size : Option Nat) (within : Option Duration) (record : Record)
  | takeBatch (id : String)
  /-- Adds one to the records since the last checkpoint and reads the sum. -/
  | bumpCheckpoint
  | resetCheckpoint

/-- What each operation responds with. -/
def Op.Response : Op → Type
  | .eval _ _ _ _ => Except ExprError Value
  | .hasStore => Bool
  | .load _ => Except Error (Option Value)
  | .save _ _ => Except Error Unit
  | .delete _ => Except Error Unit
  | .stream _ => Except Error (List Item)
  | .transform _ _ => Except Error TransformOutcome
  | .send _ _ => Except Error Unit
  | .flush _ => Except Error Unit
  | .freshUuid => String
  | .newRecord _ => Record
  | .stateOf _ => Option Value
  | .states => Assoc Value
  | .joinArrive _ _ _ _ _ _ => Option (List Record)
  | .batchArrive _ _ _ _ => Option (List Record)
  | .takeBatch _ => List Record
  | .bumpCheckpoint => Nat
  | _ => Unit

instance (op : Op) : Nonempty op.Response := by
  cases op <;> first
    | exact ⟨(() : Unit)⟩
    | exact ⟨(.ok .null : Except ExprError Value)⟩
    | exact ⟨(false : Bool)⟩
    | exact ⟨(.ok none : Except Error (Option Value))⟩
    | exact ⟨(.ok () : Except Error Unit)⟩
    | exact ⟨(.ok [] : Except Error (List Item))⟩
    | exact ⟨(.ok .filtered : Except Error TransformOutcome)⟩
    | exact ⟨("" : String)⟩
    | exact ⟨(default : Record)⟩
    | exact ⟨(none : Option Value)⟩
    | exact ⟨([] : Assoc Value)⟩
    | exact ⟨(none : Option (List Record))⟩
    | exact ⟨([] : List Record)⟩
    | exact ⟨(0 : Nat)⟩

/-- Whether the operation is awaited: locks, components and sleeps are, while store
accesses and counters run through. -/
def Op.yields : Op → Bool
  | .tickStep _ _ => true
  | .recordError _ _ _ => true
  | .stream _ => true
  | .transform _ _ => true
  | .send _ _ => true
  | .flush _ => true
  | .sleep _ => true
  | .waitUnpaused => true
  | .stateOf _ => true
  | .setState _ _ => true
  | .states => true
  | .joinArrive _ _ _ _ _ _ => true
  | .batchArrive _ _ _ _ => true
  | .takeBatch _ => true
  | _ => false

/-- Writing to the store. -/
def Op.isWrite : Op → Bool
  | .save _ _ => true
  | .delete _ => true
  | _ => false

/-- Writing under a key. -/
def Op.writes (key : String) : Op → Bool
  | .save other _ => other = key
  | .delete other => other = key
  | _ => false

/-- Loading a key. -/
def Op.loads (key : String) : Op → Bool
  | .load other => other = key
  | _ => false

/-- What stays the same for the life of an executor. -/
structure Executor where
  graph : FlowGraph
  platform : Platform
  hashOrder : HashOrder
  vars : Fields
  runId : String
  flowName : String
  checkpointEvery : Option Nat
  /-- Whether a pause gate is configured. -/
  pause : Bool

/-- A walk of a record from a node. -/
structure Call where
  executor : Executor
  record : Record
  node : String

/-- The vocabulary of the engine's programs. -/
abbrev Engine : Async.Signature where
  Op := Op
  Response := Op.Response
  yields := Op.yields
  Call := Call
  Failure := Error

instance (op : Engine.Op) : Nonempty (Engine.Response op) :=
  inferInstanceAs (Nonempty (Op.Response op))

/-- What a fallible step of the engine returns. -/
abbrev Outcome : Type := Engine.Outcome

/-- A program of the engine. -/
abbrev Prog (α : Type) : Type := Async.Program Engine α

namespace Perform

abbrev unknownNode (id : String) : Prog Unit := .op (S := Engine) (.unknownNode id)

abbrev eval (platform : Platform) (ctx : EvalContext) (expr : Expr) (value : Value) :
    Prog (Except ExprError Value) := .op (S := Engine) (.eval platform ctx expr value)

abbrev count (counter : Counter) : Prog Unit := .op (S := Engine) (.count counter)

abbrev tickStep (id : String) (field : StatField) : Prog Unit :=
  .op (S := Engine) (.tickStep id field)

abbrev recordError (step kind message : String) : Prog Unit :=
  .op (S := Engine) (.recordError step kind message)

abbrev hasStore : Prog Bool := .op (S := Engine) .hasStore

abbrev load (key : String) : Prog (Except Error (Option Value)) := .op (S := Engine) (.load key)

abbrev save (key : String) (value : Value) : Prog (Except Error Unit) :=
  .op (S := Engine) (.save key value)

abbrev delete (key : String) : Prog (Except Error Unit) := .op (S := Engine) (.delete key)

abbrev stream (source : String) : Prog (Except Error (List Item)) :=
  .op (S := Engine) (.stream source)

abbrev transform (node : String) (record : Record) : Prog (Except Error TransformOutcome) :=
  .op (S := Engine) (.transform node record)

abbrev send (sink : String) (record : Record) : Prog (Except Error Unit) :=
  .op (S := Engine) (.send sink record)

abbrev flush (sink : String) : Prog (Except Error Unit) := .op (S := Engine) (.flush sink)

abbrev freshUuid : Prog String := .op (S := Engine) .freshUuid

abbrev newRecord (payload : Value) : Prog Record := .op (S := Engine) (.newRecord payload)

abbrev sleep (duration : Duration) : Prog Unit := .op (S := Engine) (.sleep duration)

abbrev waitUnpaused : Prog Unit := .op (S := Engine) .waitUnpaused

abbrev stateOf (id : String) : Prog (Option Value) := .op (S := Engine) (.stateOf id)

abbrev setState (id : String) (value : Value) : Prog Unit :=
  .op (S := Engine) (.setState id value)

abbrev states : Prog (Assoc Value) := .op (S := Engine) .states

abbrev joinArrive (id correlation : String) (mode : JoinMode) (expected threshold : Nat)
    (record : Record) : Prog (Option (List Record)) :=
  .op (S := Engine) (.joinArrive id correlation mode expected threshold record)

abbrev batchArrive (id : String) (size : Option Nat) (within : Option Duration)
    (record : Record) : Prog (Option (List Record)) :=
  .op (S := Engine) (.batchArrive id size within record)

abbrev takeBatch (id : String) : Prog (List Record) := .op (S := Engine) (.takeBatch id)

abbrev bumpCheckpoint : Prog Nat := .op (S := Engine) .bumpCheckpoint

abbrev resetCheckpoint : Prog Unit := .op (S := Engine) .resetCheckpoint

end Perform

namespace Executor

variable (executor : Executor)

/-- The join settings found at a node: mode, incoming routes, and threshold. -/
def joinBuffer (id : String) : Option (JoinMode × Nat × Nat) :=
  match executor.graph.node id with
  | some ⟨_, _, _, .control (.join mode n), _, incoming, _⟩ => some (mode, incoming, n)
  | _ => none

/-- Whether a node is a batch. -/
def isBatch (id : String) : Bool :=
  match executor.graph.node id with
  | some ⟨_, _, _, .control (.batch _ _), _, _, _⟩ => true
  | _ => false

/-- The batch nodes, in the order of the buffer map. -/
def batches : List String :=
  executor.hashOrder.order (executor.graph.nodes.keys.filter executor.isBatch)

/-- Whether a node is a sink. -/
def isSink (id : String) : Bool :=
  match executor.graph.node id with
  | some node => node.step.isSink
  | none => false

/-- The sink nodes, in key order. -/
def sinks : List String := executor.graph.nodes.keys.filter executor.isSink

end Executor

end Sohara
