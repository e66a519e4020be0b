import Sohara.Async.Amid
import Sohara.Runtime.TracedRun

/-! # Routing and its failures

Routing evaluates guards and walks. A walk that has failed makes every walk that has led to
it fail alike, up to the program of the source or of the final flush. Nothing is done in
between.
-/

namespace Sohara

open Async Async.Program

section Routing

/-- What routing performs at a node: it evaluates guards and reports those that fail. -/
def Op.IsRouting (id : String) : Op → Prop
  | .eval _ _ _ _ => True
  | .count .errors => True
  | .recordError step kind _ => step = id ∧ kind = "edge"
  | _ => False

variable {executor : Executor} {host : Host} {rely : World → World → Prop} {node : Node}

/-- Forwarding along routes is routing: it evaluates guards and awaits walks. -/
theorem routing_routeAlong (record : Record) (id : String) (routes : List Route) :
    Safe (S := Engine) (fun _ _ => True) (Op.IsRouting id) (fun _ => True)
      (executor.routeAlong record id routes) := by
  induction routes with
  | nil => exact safe_pure _
  | cons route rest ih =>
      have guard : Safe (S := Engine) (fun _ _ => True) (Op.IsRouting id) (fun _ => True)
          (executor.edgeOpen id record.payload route.when_) := by
        cases route.when_ with
        | none => exact safe_pure _
        | some guard =>
            refine Safe.bind (safe_op trivial) fun result => ?_
            cases result with
            | ok value => exact safe_pure _
            | error failure =>
                exact Safe.bind (safe_op trivial) fun _ =>
                  Safe.bind (safe_op ⟨rfl, rfl⟩) fun _ => safe_pure _
      refine guard.bind fun isOpen => ?_
      cases isOpen with
      | false => exact ih
      | true => exact (safe_call trivial).andThen ih

/-- So is forwarding several records. -/
theorem routing_routeEach (records : List Record) :
    Safe (S := Engine) (fun _ _ => True) (Op.IsRouting node.id) (fun _ => True)
      (executor.routeEach node records) := by
  induction records with
  | nil => exact safe_pure _
  | cons record rest ih => exact (routing_routeAlong record node.id node.routes).andThen ih

variable {world after : World} {acts : List (Act Engine)}

/-- Routing performs nothing else. -/
theorem quiet_of_routing {α : Type} {program : Prog α} {value : α}
    (amid : program.Amid (World.perform host) rely world acts value after)
    (routing : Safe (S := Engine) (fun _ _ => True) (Op.IsRouting node.id) (fun _ => True)
      program) : ∀ op ∈ operations acts, op.IsRouting node.id :=
  (amid.obeys (fun _ _ => trivial) routing).1

end Routing

namespace Executor

variable {executor : Executor} {node : Node}

/-- A program without calls. -/
abbrev Alone {α : Type} (program : Prog α) : Prop :=
  Safe (S := Engine) (fun _ _ => True) (fun _ => True) (fun _ => False) program

/-- All operations are permitted, and no calls. -/
theorem performs_alone (executor : Executor) (node : Node) :
    executor.Performs (fun _ _ => True) (fun _ => True) (fun _ => False) node :=
  (allows_all node).performs

/-- Forwarding stops at the first walk that fails, with its failure. -/
theorem propagates_routeAlong (record : Record) (id : String) (routes : List Route) :
    (executor.routeAlong record id routes).Propagates := by
  induction routes with
  | nil => exact propagates_pure _
  | cons route rest ih =>
      refine propagates_bind (safe_edgeOpen (executor.performs_alone default) id record.payload
        route.when_) fun isOpen => ?_
      cases isOpen with
      | false => exact ih
      | true => exact (propagates_call _).andThen ih

/-- Routing behind a node fails as its walks do. -/
theorem propagates_route (record : Record) (node : Node) :
    (executor.route record node).Propagates :=
  propagates_routeAlong record node.id node.routes

/-- Routing records one after the other stops at the first that fails. -/
theorem propagates_routeEach (records : List Record) :
    (executor.routeEach node records).Propagates := by
  induction records with
  | nil => exact propagates_pure _
  | cons record rest ih => exact (propagates_route record node).andThen ih

/-- The end of a failed transform awaits nothing. -/
theorem propagates_settleFailure (failure : Error) : (settleFailure node failure).Propagates := by
  refine propagates_op_bind fun _ => propagates_op_bind fun _ => propagates_op_bind fun _ => ?_
  cases node.policy <;> exact propagates_pure _

/-- The failure of a walk behind a transform is not one of the transform: it is not recovered. -/
theorem propagates_attemptTransform (record : Record) {onFailure : Error → Prog Outcome}
    (recovers : ∀ failure, (onFailure failure).Propagates) :
    (executor.attemptTransform node record onFailure).Propagates := by
  refine propagates_op_bind fun outcome => ?_
  match outcome with
  | .ok (.pass record) => exact propagates_op_bind fun _ => propagates_route record node
  | .ok .filtered =>
      exact propagates_op_bind fun _ => propagates_op_bind fun _ => propagates_pure _
  | .ok (.expand records) => exact propagates_op_bind fun _ => propagates_routeEach records
  | .ok (.fail failure) => exact recovers failure
  | .error failure => exact recovers failure

/-- So no error policy catches what fails downstream. -/
theorem propagates_applyTransform (record : Record) :
    (executor.applyTransform node record).Propagates := by
  have once : (executor.attemptTransform node record (settleFailure node)).Propagates :=
    propagates_attemptTransform record propagates_settleFailure
  unfold applyTransform
  cases node.policy with
  | retry max backoff =>
      show (executor.retryTransform node record backoff max).Propagates
      induction max with
      | zero => exact once
      | succ left ih =>
          exact propagates_attemptTransform record fun _ => propagates_op_bind fun _ => ih
  | fail => exact once
  | «continue» => exact once

/-- A loop ends with the first failure of its body. -/
theorem propagates_applyLoop (whileExpr : Expr) (body : Option String) (record : Record)
    (left : Nat) : (executor.applyLoop node whileExpr body record left).Propagates := by
  induction left with
  | zero => exact propagates_pure _
  | succ left ih =>
      refine propagates_bind (safe_evalValue (executor.performs_alone node) record) fun value =>
        propagates_bind (safe_evalBool (executor.performs_alone node) whileExpr value)
          fun holds => ?_
      cases holds with
      | false => exact propagates_pure _
      | true => cases body with
        | some target => exact (propagates_call _).andThen ih
        | none => exact (propagates_route record node).andThen ih

/-- The emission of a batch fails as its routes do. -/
theorem propagates_emitBatch (records : List Record) :
    (executor.emitBatch node records).Propagates :=
  propagates_op_bind fun record => propagates_route record node

/-- A state step fails as its routes do. -/
theorem propagates_applyState (exprs : List (String × Expr)) (record : Record)
    (isState : node.step = .control (.state exprs)) :
    (executor.applyState node exprs record).Propagates := by
  have performs := executor.performs_alone node
  refine propagates_bind (safe_evalValue performs record) fun synthetic =>
    propagates_bind (safe_stateValue performs node.id) fun state =>
      propagates_bind (safe_evalState performs synthetic exprs state) fun result => ?_
  cases result with
  | none => exact propagates_pure _
  | some state =>
      exact propagates_bind (performs.update ⟨exprs, isState⟩ state) fun _ =>
        propagates_route record node

/-- Control steps hand on the failures of the walks they await. -/
theorem propagates_applyControl {control : ControlNode} (isControl : node.step = .control control)
    (record : Record) : (executor.applyControl node control record).Propagates := by
  have performs := executor.performs_alone node
  cases control with
  | switch cases_ default_ =>
      have selects : Alone (executor.selectCase record.payload default_ cases_) :=
        (obeys_selectCase performs record.payload cases_ default_).mono (fun _ => id)
          (fun _ => id) fun _ _ => trivial
      exact propagates_bind selects fun target => propagates_call _
  | foreach over_ asField maxIterations =>
      refine propagates_bind (safe_evalItems performs over_ record) fun items => ?_
      cases items with
      | none => exact propagates_pure _
      | some items => exact propagates_routeEach _
  | loop whileExpr maxIterations body => exact propagates_applyLoop whileExpr body record _
  | parallel branches =>
      exact propagates_bind (safe_correlated performs record) fun record => propagates_joinAll _
  | join mode n =>
      refine propagates_bind (safe_correlationOf performs record) fun correlation => ?_
      cases executor.joinBuffer node.id with
      | none => exact propagates_pure _
      | some settings =>
          obtain ⟨mode, expected, n⟩ := settings
          refine propagates_op_bind fun group => ?_
          cases group with
          | none => exact propagates_pure _
          | some records =>
              exact propagates_bind (safe_mergeRecords performs ⟨_, _, isControl⟩ records)
                fun merged => propagates_route merged node
  | delay duration => exact propagates_op_bind fun _ => propagates_route record node
  | batch size within =>
      show (executor.applyBatch node size within record).Propagates
      unfold applyBatch
      split
      · refine propagates_op_bind fun group => ?_
        cases group with
        | none => exact propagates_pure _
        | some records => exact propagates_emitBatch records
      · exact propagates_pure _
  | state exprs => exact propagates_applyState exprs record isControl
  | approve title =>
      refine propagates_op_bind fun stored => ?_
      cases stored with
      | false => exact propagates_route record node
      | true =>
          refine propagates_bind (safe_parkApprove performs isControl record) fun parked => ?_
          cases parked <;> exact propagates_op_bind fun _ => propagates_pure _

/-- **A failing walk makes the walk before it fail.** -/
theorem propagates_walk (record : Record) (id : String) : (executor.walk record id).Propagates := by
  unfold walk
  cases executor.graph.node id with
  | none => exact propagates_op_bind fun _ => propagates_pure _
  | some node =>
      have performs := executor.performs_alone node
      refine propagates_bind (safe_nodeOpen (performs.quiet) record.payload) fun isOpen => ?_
      cases isOpen with
      | false => exact propagates_pure _
      | true =>
          show (executor.applyStep node record).Propagates
          unfold applyStep
          cases step : node.step with
          | sink =>
              exact propagates_bind (safe_deliver performs step record) fun _ => propagates_pure _
          | transform => exact propagates_applyTransform record
          | control control => exact propagates_applyControl step record
          | source => exact propagates_route record node

/-- A source stops at the first record whose walk fails. -/
theorem propagates_pump (root : String) (items : List Item) :
    (executor.pump root items).Propagates := by
  induction items with
  | nil => exact propagates_pure _
  | cons item rest ih =>
      have gate : Alone executor.waitGate := by
        unfold waitGate
        cases executor.pause with
        | false => exact safe_pure _
        | true => exact safe_op trivial
      refine propagates_bind gate fun _ => ?_
      cases item with
      | ok record => exact (propagates_call _).andThen ih
      | error failure => exact propagates_op_bind fun _ => propagates_op_bind fun _ => ih

/-- What fails in a stream fails its source. -/
theorem propagates_runSource (root : String) : (executor.runSource root).Propagates := by
  unfold runSource
  split
  · refine propagates_op_bind fun opened => ?_
    cases opened with
    | error failure => exact propagates_pure _
    | ok items => exact propagates_pump root items
  · exact propagates_pure _

/-- Flushing stops at the first batch whose emission fails. -/
theorem propagates_flushBatches (ids : List String) :
    (executor.flushBatches ids).Propagates := by
  induction ids with
  | nil => exact propagates_pure _
  | cons id rest ih =>
      refine propagates_op_bind fun records => ?_
      cases executor.graph.node id with
      | none => cases records <;> exact ih
      | some node =>
          cases records with
          | nil => exact ih
          | cons record records => exact (propagates_emitBatch (record :: records)).andThen ih

/-- The final flush fails as the batches it emits. -/
theorem propagates_flushAll : executor.flushAll.Propagates := by
  have performs := executor.performs_alone default
  refine (propagates_flushBatches executor.batches).andThen (Propagates.andThen ?_ ?_)
  · exact propagates_of_safe (safe_flushSinks fun _ _ => trivial)
  · exact propagates_bind performs.checkpoint fun _ => propagates_pure _

/-- **A failing walk makes the run fail.** -/
theorem propagates_programs {program : Prog Outcome} (member : program ∈ executor.programs) :
    program.Propagates := by
  rcases List.mem_append.mp member with source | flush
  · obtain ⟨root, -, rfl⟩ := List.mem_map.mp source
    exact propagates_runSource root
  · rw [List.mem_singleton.mp flush]
    exact propagates_flushAll

end Executor

end Sohara
