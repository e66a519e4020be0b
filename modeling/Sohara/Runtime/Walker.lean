import Sohara.Runtime.Persist

/-! # Walking a record through the graph

The per-record traversal: guards, routes, sinks, transforms with their error
policy, and the control steps. A walk awaits the walks it starts, one after the
other along routes and all at once behind a parallel step.
-/

namespace Sohara

open Async (Program)

namespace Executor

variable (executor : Executor)

/-- Evaluates an expression with the flow variables. -/
def evalExpr (expr : Expr) (value : Value) : Prog (Except ExprError Value) :=
  Perform.eval executor.platform ⟨executor.vars⟩ expr value

/-- Walks a record from another node. -/
def walkTo (record : Record) (target : String) : Prog Outcome :=
  Program.call (S := Engine) ⟨executor, record, target⟩

/-- Whether the guard of an edge lets a payload through. -/
def edgeOpen (id : String) (payload : Value) : Option Expr → Prog Bool
  | none => return true
  | some guard => do
      match ← executor.evalExpr guard payload with
      | .ok value => return isTruthy value
      | .error error =>
          Perform.count .errors
          Perform.recordError id "edge" error.text
          return false

/-- Forwards a record along the listed routes, up to the first failure. -/
def routeAlong (record : Record) (id : String) : List Route → Prog Outcome
  | [] => return .ok ()
  | route :: rest => do
      if ← executor.edgeOpen id record.payload route.when_ then
        (executor.walkTo record route.to_).andThen (routeAlong record id rest)
      else routeAlong record id rest

/-- Forwards a record along the routes of a node. -/
def route (record : Record) (node : Node) : Prog Outcome :=
  executor.routeAlong record node.id node.routes

/-- Forwards records one after the other, up to the first failure. -/
def routeEach (node : Node) : List Record → Prog Outcome
  | [] => return .ok ()
  | record :: rest => (executor.route record node).andThen (routeEach node rest)

section Transforms

/-- The end of a failed transform: dropped under `continue`, an error otherwise. -/
def settleFailure (node : Node) (failure : Error) : Prog Outcome := do
  Perform.count .errors
  Perform.tickStep node.id .errors
  Perform.recordError node.id "transform" failure.text
  match node.policy with
  | .continue => return .ok ()
  | _ => return .error failure

/-- One attempt at a transform. -/
def attemptTransform (node : Node) (record : Record) (onFailure : Error → Prog Outcome) :
    Prog Outcome := do
  match ← Perform.transform node.id record with
  | .ok (.pass record) =>
      Perform.tickStep node.id .processed
      executor.route record node
  | .ok .filtered =>
      Perform.count .filtered
      Perform.tickStep node.id .filtered
      return .ok ()
  | .ok (.expand records) =>
      Perform.tickStep node.id .processed
      executor.routeEach node records
  | .ok (.fail failure) => onFailure failure
  | .error failure => onFailure failure

/-- Attempts a transform, with the given number of attempts left after this one. -/
def retryTransform (node : Node) (record : Record) (backoff : Duration) : Nat → Prog Outcome
  | 0 => executor.attemptTransform node record (settleFailure node)
  | left + 1 => executor.attemptTransform node record fun _ => do
      Perform.sleep backoff
      retryTransform node record backoff left

/-- Applies a transform under the error policy of its node. -/
def applyTransform (node : Node) (record : Record) : Prog Outcome :=
  match node.policy with
  | .retry max backoff => executor.retryTransform node record backoff max
  | _ => executor.attemptTransform node record (settleFailure node)

end Transforms

/-- Sends a record to a sink, unless it was already delivered. -/
def deliver (node : Node) (record : Record) : Prog Unit := do
  if ← executor.isDelivered record then Perform.count .duplicates
  else
    match ← Perform.send node.id record with
    | .ok () =>
        executor.markDelivered record
        Perform.count .processed
        Perform.tickStep node.id .processed
        executor.maybeCheckpoint
    | .error error =>
        Perform.count .errors
        Perform.tickStep node.id .errors
        Perform.recordError node.id "sink" error.text

section Control

/-- Evaluates a condition; a failing one counts as false. -/
def evalBool (expr : Expr) (value : Value) : Prog Bool := do
  match ← executor.evalExpr expr value with
  | .ok value => return isTruthy value
  | .error _ =>
      Perform.count .errors
      return false

/-- Evaluates the items of a `foreach`. -/
def evalItems (expr : Expr) (record : Record) : Prog (Option (List Value)) := do
  match ← executor.evalExpr expr record.payload with
  | .ok (.array items) => return some items
  | _ =>
      Perform.count .errors
      return none

/-- The target of the first case that holds, else the default. -/
def selectCase (payload : Value) (default_ : String) : List SwitchCase → Prog String
  | [] => return default_
  | case :: rest => do
      if ← executor.evalBool case.when_ payload then return case.to_
      else selectCase payload default_ rest

/-- The record of one `foreach` item. -/
def child (record : Record) (asField : Option String) (item : Value) : Record :=
  record.set (asField.getD "item") item

/-- Repeats the body of a loop, or the routes behind it, while the condition holds. -/
def applyLoop (node : Node) (whileExpr : Expr) (body : Option String) (record : Record) :
    Nat → Prog Outcome
  | 0 => return .ok ()
  | left + 1 => do
      let value ← evalValue node record
      if ← executor.evalBool whileExpr value then
        (match body with
          | some target => executor.walkTo record target
          | none => executor.route record node).andThen
            (applyLoop node whileExpr body record left)
      else return .ok ()

/-- Gives a record a fresh correlation unless it has one. -/
def correlated (record : Record) : Prog Record :=
  match record.metadata.get? "correlation" with
  | some _ => return record
  | none => do
      let id ← Perform.freshUuid
      return { record with metadata := record.metadata.insert "correlation" id }

/-- Walks a record from every branch at once. -/
def applyParallel (branches : List String) (record : Record) : Prog Outcome := do
  let record ← correlated record
  Program.joinAll (S := Engine) (branches.map fun branch => ⟨executor, record, branch⟩)

/-- The fields of later records are written over those of the first. -/
def mergeInto (merged other : Record) : Record :=
  match merged.payload, other.payload with
  | .object target, .object source =>
      let fields := source.foldl (fun fields entry => Assoc.insert entry.1 entry.2 fields) target
      { merged with payload := .object fields }
  | _, _ => merged

/-- Merges the records of a group. -/
def mergeRecords : List Record → Prog Record
  | [] => Perform.newRecord (.object [])
  | first :: rest => return rest.foldl mergeInto first

/-- The correlation of a record, or a fresh one. -/
def correlationOf (record : Record) : Prog String :=
  match record.metadata.get? "correlation" with
  | some correlation => return correlation
  | none => Perform.freshUuid

/-- Adds a record to its join group and releases the merged group when ready. -/
def applyJoin (node : Node) (record : Record) : Prog Outcome := do
  let correlation ← correlationOf record
  match executor.joinBuffer node.id with
  | none => return .ok ()
  | some (mode, expected, n) =>
      match ← Perform.joinArrive node.id correlation mode (max expected 1) (max n 1) record with
      | none => return .ok ()
      | some records =>
          let merged ← mergeRecords records
          executor.route merged node

/-- Emits a buffered batch as a single `{ items: [...] }` record. -/
def emitBatch (node : Node) (records : List Record) : Prog Outcome := do
  let record ← Perform.newRecord (.object [("items", .array (records.map Record.toJson))])
  executor.route record node

/-- Adds a record to a batch and emits the batch when due. -/
def applyBatch (node : Node) (size : Option Nat) (within : Option Duration) (record : Record) :
    Prog Outcome :=
  if executor.isBatch node.id then do
    match ← Perform.batchArrive node.id size within record with
    | none => return .ok ()
    | some records => executor.emitBatch node records
  else return .ok ()

/-- Evaluates the fields of a state step into its state; `none` when one fails. -/
def evalState (synthetic : Value) : List (String × Expr) → Value → Prog (Option Value)
  | [], state => return some state
  | (field, expr) :: rest, state => do
      match ← executor.evalExpr expr synthetic with
      | .ok value =>
          evalState synthetic rest (match state with
            | .object fields => .object (Assoc.insert field value fields)
            | other => other)
      | .error _ =>
          Perform.count .errors
          return none

/-- Updates the state of a node from a record and forwards the record. -/
def applyState (node : Node) (exprs : List (String × Expr)) (record : Record) : Prog Outcome := do
  let synthetic ← evalValue node record
  let state ← stateValue node.id
  match ← executor.evalState synthetic exprs state with
  | none => return .ok ()
  | some state =>
      executor.updateState node.id state
      executor.route record node

/-- Parks a record for approval; without a store it is routed through. -/
def applyApprove (node : Node) (record : Record) : Prog Outcome := do
  if ← Perform.hasStore then
    match ← executor.parkApprove node record with
    | .error _ =>
        Perform.count .errors
        return .ok ()
    | .ok () =>
        Perform.count .waiting
        return .ok ()
  else executor.route record node

/-- Executes a control node for one record. -/
def applyControl (node : Node) (control : ControlNode) (record : Record) : Prog Outcome :=
  match control with
  | .switch cases default_ => do
      let target ← executor.selectCase record.payload default_ cases
      executor.walkTo record target
  | .foreach over_ asField maxIterations => do
      match ← executor.evalItems over_ record with
      | none => return .ok ()
      | some items =>
          executor.routeEach node ((items.take maxIterations).map (child record asField))
  | .loop whileExpr maxIterations body =>
      executor.applyLoop node whileExpr body record maxIterations
  | .parallel branches => executor.applyParallel branches record
  | .join _ _ => executor.applyJoin node record
  | .delay duration => do
      Perform.sleep duration
      executor.route record node
  | .batch size within => executor.applyBatch node size within record
  | .state exprs => executor.applyState node exprs record
  | .approve _ => executor.applyApprove node record

end Control

/-- Whether the guard of a node lets a payload through. -/
def nodeOpen (node : Node) (payload : Value) : Prog Bool :=
  match node.when_ with
  | none => return true
  | some guard => do
      match ← executor.evalExpr guard payload with
      | .ok value => return isTruthy value
      | .error error =>
          Perform.count .errors
          Perform.tickStep node.id .errors
          Perform.recordError node.id "when" error.text
          return false

/-- Executes the step of a node for one record. -/
def applyStep (node : Node) (record : Record) : Prog Outcome :=
  match node.step with
  | .sink => do
      executor.deliver node record
      return .ok ()
  | .transform => executor.applyTransform node record
  | .control control => executor.applyControl node control record
  | .source => executor.route record node

/-- Walks a record from a node. -/
def walk (record : Record) (id : String) : Prog Outcome :=
  match executor.graph.node id with
  | none => do
      Perform.unknownNode id
      return .ok ()
  | some node => do
      if ← executor.nodeOpen node record.payload then executor.applyStep node record
      else return .ok ()

end Executor

/-- The program of each call. -/
def walkCall (call : Engine.Call) : Prog Outcome :=
  call.executor.walk call.record call.node

end Sohara
