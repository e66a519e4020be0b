import Sohara.Runtime.Runner

/-! # What a walk does

Beside quiet operations a walk saves step states, a sink is sent records and looks
up and saves their delivered markers, an approve step loads and saves its own queue
and counts the waiting records, a state step writes its own state, and records arrive
at a join or a batch with its settings and make the records they lead to. It awaits
walks only from the route targets of the node and from the targets its control step
names.
-/

namespace Sohara

open Async Async.Program

/-- Operations that neither use the entries of the store, nor send, nor flush, nor count a
waiting record, nor write a state, nor arrive at a join or a batch, nor take a batch, nor make
a record, nor report an unknown node. -/
def Op.IsQuiet : Op → Prop
  | .unknownNode _ => False
  | .joinArrive _ _ _ _ _ _ => False
  | .batchArrive _ _ _ _ => False
  | .takeBatch _ => False
  | .setState _ _ => False
  | .newRecord _ => False
  | .count .waiting => False
  | .send _ _ => False
  | .flush _ => False
  | .load _ => False
  | .save _ _ => False
  | .delete _ => False
  | _ => True

/-- The payload of an emitted batch. -/
def batchPayload (records : List Record) : Value :=
  .object [("items", .array (records.map Record.toJson))]

namespace Executor

variable (executor : Executor)

/-- The operations a walk performs at a node are permitted. -/
structure Allows (onOp : Op → Prop) (node : Node) : Prop where
  quiet : ∀ op : Op, op.IsQuiet → onOp op
  state : ∀ id value, onOp (.save (executor.stateKey id) value)
  send : node.step = .sink → ∀ record, onOp (.send node.id record)
  lookup : node.step = .sink → ∀ record, onOp (.load (executor.deliveredKey record))
  marker : node.step = .sink → ∀ record, onOp (.save (executor.deliveredKey record) (.bool true))
  queue : ∀ title, node.step = .control (.approve title) →
    onOp (.load (executor.approveKey node.id))
  park : ∀ title, node.step = .control (.approve title) →
    ∀ items, onOp (.save (executor.approveKey node.id) (.array items))
  wait : ∀ title, node.step = .control (.approve title) → onOp (.count .waiting)
  join : (∃ mode n, node.step = .control (.join mode n)) → ∀ mode expected n,
    executor.joinBuffer node.id = some (mode, expected, n) → ∀ correlation record,
      onOp (.joinArrive node.id correlation mode (max expected 1) (max n 1) record)
  update : (∃ exprs, node.step = .control (.state exprs)) → ∀ value, onOp (.setState node.id value)
  collect : ∀ size within, node.step = .control (.batch size within) →
    ∀ record, onOp (.batchArrive node.id size within record)
  merge : (∃ mode n, node.step = .control (.join mode n)) → onOp (.newRecord (.object []))
  emit : (∃ size within, node.step = .control (.batch size within)) →
    ∀ records, onOp (.newRecord (batchPayload records))

/-- The walks awaited at a node are permitted. -/
structure Leads (onCall : Call → Prop) (node : Node) : Prop where
  routes : ∀ route ∈ node.routes, ∀ record, onCall ⟨executor, record, route.to_⟩
  targets : ∀ control, node.step = .control control →
    ∀ target ∈ FlowGraph.controlTargets control, ∀ record, onCall ⟨executor, record, target⟩

/-- The operations a walk performs at a node are permitted, where what is saved of the
states may depend on the responses before. -/
structure Performs (admits : (op : Op) → op.Response → Prop) (onOp : Op → Prop)
    (onCall : Call → Prop) (node : Node) : Prop where
  quiet : ∀ op : Op, op.IsQuiet → onOp op
  update : (∃ exprs, node.step = .control (.state exprs)) →
    ∀ value, Safe (S := Engine) admits onOp onCall (executor.updateState node.id value)
  checkpoint : Safe (S := Engine) admits onOp onCall executor.checkpoint
  send : node.step = .sink → ∀ record, onOp (.send node.id record)
  lookup : node.step = .sink → ∀ record, onOp (.load (executor.deliveredKey record))
  marker : node.step = .sink → ∀ record, onOp (.save (executor.deliveredKey record) (.bool true))
  queue : ∀ title, node.step = .control (.approve title) →
    onOp (.load (executor.approveKey node.id))
  park : ∀ title, node.step = .control (.approve title) →
    ∀ items, onOp (.save (executor.approveKey node.id) (.array items))
  wait : ∀ title, node.step = .control (.approve title) → onOp (.count .waiting)
  join : (∃ mode n, node.step = .control (.join mode n)) → ∀ mode expected n,
    executor.joinBuffer node.id = some (mode, expected, n) → ∀ correlation record,
      onOp (.joinArrive node.id correlation mode (max expected 1) (max n 1) record)
  collect : ∀ size within, node.step = .control (.batch size within) →
    ∀ record, onOp (.batchArrive node.id size within record)
  merge : (∃ mode n, node.step = .control (.join mode n)) → onOp (.newRecord (.object []))
  emit : (∃ size within, node.step = .control (.batch size within)) →
    ∀ records, onOp (.newRecord (batchPayload records))

variable {executor} {admits : (op : Op) → op.Response → Prop} {onOp : Op → Prop}
  {onCall : Call → Prop} {node : Node}

namespace Allows

variable (allows : executor.Allows onOp node)
include allows

/-- A state is set, and saved when there is a store. -/
theorem safe_updateState (isState : ∃ exprs, node.step = .control (.state exprs)) (value : Value) :
    Safe admits onOp onCall (executor.updateState node.id value) := by
  refine Safe.bind (safe_op (allows.update isState value)) fun _ =>
    Safe.bind (safe_op (allows.quiet _ trivial)) fun stored => ?_
  cases stored
  · exact safe_pure _
  · exact (safe_op (allows.state node.id value)).bind fun _ => safe_pure _

/-- States are saved one after the other. -/
theorem safe_saveStates (states : Assoc Value) :
    Safe admits onOp onCall (executor.saveStates states) := by
  induction states with
  | nil => exact safe_pure _
  | cons entry rest ih => exact (safe_op (allows.state _ _)).bind fun _ => ih

/-- A checkpoint lists the states, saves them, and resets its counter. -/
theorem safe_checkpoint : Safe admits onOp onCall executor.checkpoint := by
  refine Safe.bind (safe_op (allows.quiet _ trivial)) fun stored => ?_
  cases stored
  · exact safe_pure _
  · exact Safe.bind (safe_op (allows.quiet _ trivial)) fun states =>
      (allows.safe_saveStates states).bind fun _ => safe_op (allows.quiet _ trivial)

/-- Saves that are permitted whatever they hold. -/
theorem performs : executor.Performs admits onOp onCall node where
  quiet := allows.quiet
  update := allows.safe_updateState
  checkpoint := allows.safe_checkpoint
  send := allows.send
  lookup := allows.lookup
  marker := allows.marker
  queue := allows.queue
  park := allows.park
  wait := allows.wait
  join := allows.join
  collect := allows.collect
  merge := allows.merge
  emit := allows.emit

end Allows

section Persistence

variable (performs : executor.Performs admits onOp onCall node)
include performs

/-- Quiet operations are permitted. -/
theorem safe_quiet {op : Op} (quiet : op.IsQuiet) :
    Safe (S := Engine) admits onOp onCall (.op op) :=
  safe_op (performs.quiet op quiet)

/-- Expressions are evaluated quietly. -/
theorem safe_evalExpr (expr : Expr) (value : Value) :
    Safe admits onOp onCall (executor.evalExpr expr value) :=
  safe_quiet performs trivial

/-- So is the value that conditions see, with the state of the node. -/
theorem safe_evalValue (record : Record) : Safe admits onOp onCall (evalValue node record) := by
  refine Safe.bind (safe_quiet performs trivial) fun state => ?_
  cases state <;> exact safe_pure _

/-- States are read quietly. -/
theorem safe_stateValue (id : String) : Safe admits onOp onCall (stateValue id) := by
  refine Safe.bind (safe_quiet performs trivial) fun state => ?_
  cases state <;> exact safe_pure _

/-- A checkpoint is made when it is due. -/
theorem safe_maybeCheckpoint : Safe admits onOp onCall executor.maybeCheckpoint := by
  unfold maybeCheckpoint
  cases executor.checkpointEvery with
  | none => exact safe_pure _
  | some every =>
      refine Safe.bind (safe_quiet performs trivial) fun since => ?_
      by_cases due : every ≤ since
      · simp only [due, if_true]
        exact performs.checkpoint
      · simp only [due, if_false]
        exact safe_pure _

/-- A sink looks up its marker of a record. -/
theorem safe_isDelivered (isSink : node.step = .sink) (record : Record) :
    Safe admits onOp onCall (executor.isDelivered record) := by
  refine Safe.bind (safe_quiet performs trivial) fun stored => ?_
  cases stored
  · exact safe_pure _
  · refine Safe.bind (safe_op (performs.lookup isSink record)) fun loaded => ?_
    match loaded with
    | .ok (some _) => exact safe_pure _
    | .ok none => exact safe_pure _
    | .error _ => exact safe_pure _

/-- A sink saves its marker of a record. -/
theorem safe_markDelivered (isSink : node.step = .sink) (record : Record) :
    Safe admits onOp onCall (executor.markDelivered record) := by
  refine Safe.bind (safe_quiet performs trivial) fun stored => ?_
  cases stored
  · exact safe_pure _
  · exact (safe_op (performs.marker isSink record)).bind fun _ => safe_pure _

/-- An approve step loads its queue and saves it. -/
theorem safe_parkApprove {title : String} (isApprove : node.step = .control (.approve title))
    (record : Record) : Safe admits onOp onCall (executor.parkApprove node record) := by
  refine Safe.bind (safe_quiet performs trivial) fun stored => ?_
  cases stored
  · exact safe_pure _
  · refine Safe.bind (safe_op (performs.queue title isApprove)) fun loaded => ?_
    cases loaded with
    | error _ => exact safe_pure _
    | ok content => exact safe_op (performs.park title isApprove _)

/-- A sink looks a record up, is sent it, and marks it. -/
theorem safe_deliver (isSink : node.step = .sink) (record : Record) :
    Safe admits onOp onCall (executor.deliver node record) := by
  refine (safe_isDelivered performs isSink record).bind fun delivered => ?_
  cases delivered
  · refine Safe.bind (safe_op (performs.send isSink record)) fun sent => ?_
    cases sent with
    | error _ =>
        exact Safe.bind (safe_quiet performs trivial) fun _ =>
          Safe.bind (safe_quiet performs trivial) fun _ =>
          safe_quiet performs trivial
    | ok _ =>
        exact (safe_markDelivered performs isSink record).bind fun _ =>
          Safe.bind (safe_quiet performs trivial) fun _ =>
            Safe.bind (safe_quiet performs trivial) fun _ =>
            safe_maybeCheckpoint performs
  · exact safe_quiet performs trivial

end Persistence

section Routing

variable (performs : executor.Performs admits onOp onCall node)
include performs

/-- Guards of edges are evaluated quietly. -/
theorem safe_edgeOpen (id : String) (payload : Value) (guard : Option Expr) :
    Safe admits onOp onCall (executor.edgeOpen id payload guard) := by
  cases guard with
  | none => exact safe_pure _
  | some guard =>
      refine (safe_evalExpr performs guard payload).bind fun result => ?_
      cases result with
      | ok value => exact safe_pure _
      | error _ =>
          exact Safe.bind (safe_quiet performs trivial) fun _ =>
            Safe.bind (safe_quiet performs trivial) fun _ => safe_pure _

/-- Forwarding awaits walks from the targets of the routes. -/
theorem safe_routeAlong (record : Record) (id : String) (routes : List Route)
    (permitted : ∀ route ∈ routes, onCall ⟨executor, record, route.to_⟩) :
    Safe admits onOp onCall (executor.routeAlong record id routes) := by
  induction routes with
  | nil => exact safe_pure _
  | cons route rest ih =>
      have others := ih fun other member => permitted other (List.mem_cons_of_mem _ member)
      refine (safe_edgeOpen performs id record.payload route.when_).bind fun isOpen => ?_
      cases isOpen
      · exact others
      · exact (safe_call (permitted route List.mem_cons_self)).andThen others

/-- Routing awaits walks from the route targets of a node. -/
theorem safe_route {target : Node} (leads : executor.Leads onCall target) (record : Record) :
    Safe admits onOp onCall (executor.route record target) :=
  safe_routeAlong performs record target.id target.routes fun route member =>
    leads.routes route member record

/-- A batch is emitted as one new record. -/
theorem safe_emitBatch {target : Node} (leads : executor.Leads onCall target)
    {records : List Record} (emits : onOp (.newRecord (batchPayload records))) :
    Safe admits onOp onCall (executor.emitBatch target records) :=
  Safe.bind (safe_op emits) fun record => safe_route performs leads record

variable (leads : executor.Leads onCall node)
include leads

/-- Several records are walked from the same targets. -/
theorem safe_routeEach (records : List Record) :
    Safe admits onOp onCall (executor.routeEach node records) := by
  induction records with
  | nil => exact safe_pure _
  | cons record rest ih => exact (safe_route performs leads record).andThen ih

/-- An attempt at a transform routes what it yields, or recovers. -/
theorem safe_attemptTransform (record : Record) {onFailure : Error → Prog Outcome}
    (recovers : ∀ failure, Safe admits onOp onCall (onFailure failure)) :
    Safe admits onOp onCall (executor.attemptTransform node record onFailure) := by
  refine Safe.bind (safe_quiet performs trivial) fun outcome => ?_
  match outcome with
  | .ok (.pass record) =>
      exact Safe.bind (safe_quiet performs trivial) fun _ => safe_route performs leads record
  | .ok .filtered =>
      exact Safe.bind (safe_quiet performs trivial) fun _ =>
        Safe.bind (safe_quiet performs trivial) fun _ =>
        safe_pure _
  | .ok (.expand records) =>
      exact Safe.bind (safe_quiet performs trivial) fun _ => safe_routeEach performs leads records
  | .ok (.fail failure) => exact recovers failure
  | .error failure => exact recovers failure

omit leads in
/-- A failed transform is counted and reported. -/
theorem safe_settleFailure (failure : Error) :
    Safe admits onOp onCall (settleFailure node failure) := by
  refine Safe.bind (safe_quiet performs trivial) fun _ =>
    Safe.bind (safe_quiet performs trivial) fun _ =>
    Safe.bind (safe_quiet performs trivial) fun _ => ?_
  cases node.policy <;> exact safe_pure _

/-- Retries are attempts, with pauses in between. -/
theorem safe_retryTransform (record : Record) (backoff : Duration) (left : Nat) :
    Safe admits onOp onCall (executor.retryTransform node record backoff left) := by
  induction left with
  | zero => exact safe_attemptTransform performs leads record (safe_settleFailure performs)
  | succ left ih =>
      exact safe_attemptTransform performs leads record fun _ =>
        Safe.bind (safe_quiet performs trivial) fun _ => ih

/-- A transform does the same under every error policy. -/
theorem safe_applyTransform (record : Record) :
    Safe admits onOp onCall (executor.applyTransform node record) := by
  have once : Safe admits onOp onCall
      (executor.attemptTransform node record (settleFailure node)) :=
    safe_attemptTransform performs leads record (safe_settleFailure performs)
  unfold applyTransform
  cases node.policy with
  | retry max backoff => exact safe_retryTransform performs leads record backoff max
  | fail => exact once
  | «continue» => exact once

end Routing

section Control

variable (performs : executor.Performs admits onOp onCall node)
include performs

/-- Conditions are evaluated quietly. -/
theorem safe_evalBool (expr : Expr) (value : Value) :
    Safe admits onOp onCall (executor.evalBool expr value) := by
  refine (safe_evalExpr performs expr value).bind fun result => ?_
  cases result with
  | ok value => exact safe_pure _
  | error _ => exact Safe.bind (safe_quiet performs trivial) fun _ => safe_pure _

/-- The items of a `foreach` are evaluated quietly. -/
theorem safe_evalItems (expr : Expr) (record : Record) :
    Safe admits onOp onCall (executor.evalItems expr record) := by
  refine (safe_evalExpr performs expr record.payload).bind fun result => ?_
  have failed : Safe admits onOp onCall
      (do Perform.count .errors; return none : Prog (Option (List Value))) :=
    Safe.bind (safe_quiet performs trivial) fun _ => safe_pure _
  match result with
  | .ok (.array items) => exact safe_pure _
  | .ok .null | .ok (.bool _) | .ok (.number _) | .ok (.string _) | .ok (.object _) | .error _ =>
      exact failed

/-- The case selected by a switch is one of its targets. -/
theorem obeys_selectCase (payload : Value) (cases_ : List SwitchCase) (default_ : String) :
    Program.Obeys admits onOp onCall (fun target => target ∈ cases_.map (·.to_) ++ [default_])
      (executor.selectCase payload default_ cases_) := by
  induction cases_ with
  | nil => exact List.mem_singleton_self default_
  | cons case rest ih =>
      refine Obeys.bind (safe_evalBool performs case.when_ payload) fun holds _ => ?_
      cases holds
      · exact ih.mono (fun _ => id) (fun _ => id) fun target member =>
          List.mem_cons_of_mem _ member
      · exact List.mem_cons_self

/-- The fields of a state are evaluated quietly. -/
theorem safe_evalState (synthetic : Value) (exprs : List (String × Expr)) (state : Value) :
    Safe admits onOp onCall (executor.evalState synthetic exprs state) := by
  induction exprs generalizing state with
  | nil => exact safe_pure _
  | cons entry rest ih =>
      refine (safe_evalExpr performs entry.2 synthetic).bind fun result => ?_
      cases result with
      | ok value => exact ih _
      | error _ => exact Safe.bind (safe_quiet performs trivial) fun _ => safe_pure _

/-- A fresh correlation is drawn quietly. -/
theorem safe_correlated (record : Record) : Safe admits onOp onCall (correlated record) := by
  unfold correlated
  cases record.metadata.get? "correlation" with
  | some _ => exact safe_pure _
  | none => exact Safe.bind (safe_quiet performs trivial) fun _ => safe_pure _

/-- The correlation of a record is found, or drawn, quietly. -/
theorem safe_correlationOf (record : Record) :
    Safe admits onOp onCall (correlationOf record) := by
  unfold correlationOf
  cases record.metadata.get? "correlation" with
  | some _ => exact safe_pure _
  | none => exact safe_quiet performs trivial

/-- A merge makes a record only when there is none to start from. -/
theorem safe_mergeRecords (isJoin : ∃ mode n, node.step = .control (.join mode n))
    (records : List Record) : Safe admits onOp onCall (mergeRecords records) := by
  cases records with
  | nil => exact safe_op (performs.merge isJoin)
  | cons first rest => exact safe_pure _

variable (leads : executor.Leads onCall node)
include leads

/-- A loop walks from its body, or from the routes behind it. -/
theorem safe_applyLoop {whileExpr : Expr} {body : Option String} {record : Record}
    (inner : ∀ target, body = some target → onCall ⟨executor, record, target⟩) (left : Nat) :
    Safe admits onOp onCall (executor.applyLoop node whileExpr body record left) := by
  induction left with
  | zero => exact safe_pure _
  | succ left ih =>
      refine (safe_evalValue performs record).bind fun value =>
        (safe_evalBool performs whileExpr value).bind fun holds => ?_
      cases holds
      · exact safe_pure _
      · cases body with
        | some target => exact (safe_call (inner target rfl)).andThen ih
        | none => exact (safe_route performs leads record).andThen ih

/-- A join is told of the record with its settings, and routes what it releases. -/
theorem safe_applyJoin (isJoin : ∃ mode n, node.step = .control (.join mode n))
    (record : Record) : Safe admits onOp onCall (executor.applyJoin node record) := by
  refine (safe_correlationOf performs record).bind fun correlation => ?_
  match buffer : executor.joinBuffer node.id with
  | none => exact safe_pure _
  | some (mode, expected, n) =>
      have arrives := performs.join isJoin mode expected n buffer correlation record
      refine Safe.bind (safe_op arrives) fun group => ?_
      cases group with
      | none => exact safe_pure _
      | some records =>
          exact (safe_mergeRecords performs isJoin records).bind fun merged =>
            safe_route performs leads merged

/-- A batch is told of the record, and emitted when it is due. -/
theorem safe_applyBatch {size : Option Nat} {within : Option Duration}
    (isBatch : node.step = .control (.batch size within)) (record : Record) :
    Safe admits onOp onCall (executor.applyBatch node size within record) := by
  unfold applyBatch
  split
  · refine Safe.bind (safe_op (performs.collect size within isBatch record)) fun batch => ?_
    cases batch with
    | none => exact safe_pure _
    | some records =>
        exact safe_emitBatch performs leads (performs.emit ⟨size, within, isBatch⟩ records)
  · exact safe_pure _

/-- A state step writes its own state. -/
theorem safe_applyState {exprs : List (String × Expr)}
    (isState : node.step = .control (.state exprs)) (record : Record) :
    Safe admits onOp onCall (executor.applyState node exprs record) := by
  refine (safe_evalValue performs record).bind fun synthetic =>
    (safe_stateValue performs node.id).bind fun state =>
      (safe_evalState performs synthetic exprs state).bind fun result => ?_
  cases result with
  | none => exact safe_pure _
  | some state =>
      exact (performs.update ⟨exprs, isState⟩ state).bind fun _ =>
        safe_route performs leads record

/-- An approve step parks the record, or routes it without a store. -/
theorem safe_applyApprove {title : String} (isApprove : node.step = .control (.approve title))
    (record : Record) : Safe admits onOp onCall (executor.applyApprove node record) := by
  refine Safe.bind (safe_quiet performs trivial) fun stored => ?_
  cases stored
  · exact safe_route performs leads record
  · refine (safe_parkApprove performs isApprove record).bind fun parked => ?_
    cases parked with
    | error _ => exact Safe.bind (safe_quiet performs trivial) fun _ => safe_pure _
    | ok _ => exact Safe.bind (safe_op (performs.wait title isApprove)) fun _ => safe_pure _

/-- A control step awaits walks from the routes and from the targets it names. -/
theorem safe_applyControl {control : ControlNode} (isControl : node.step = .control control)
    (record : Record) : Safe admits onOp onCall (executor.applyControl node control record) := by
  have targets := leads.targets control isControl
  cases control with
  | switch cases_ default_ =>
      exact Obeys.bind (obeys_selectCase performs record.payload cases_ default_)
        fun target member => safe_call (targets target member record)
  | foreach over_ asField maxIterations =>
      refine (safe_evalItems performs over_ record).bind fun items => ?_
      cases items with
      | none => exact safe_pure _
      | some items => exact safe_routeEach performs leads _
  | loop whileExpr maxIterations body =>
      refine safe_applyLoop performs leads (fun target named => ?_) maxIterations
      subst named
      exact targets target List.mem_cons_self record
  | parallel branches =>
      refine (safe_correlated performs record).bind fun record => safe_joinAll fun call member => ?_
      obtain ⟨branch, inside, rfl⟩ := List.mem_map.mp member
      exact targets branch inside record
  | join mode n => exact safe_applyJoin performs leads ⟨mode, n, isControl⟩ record
  | delay duration =>
      exact Safe.bind (safe_quiet performs trivial) fun _ => safe_route performs leads record
  | batch size within => exact safe_applyBatch performs leads isControl record
  | state exprs => exact safe_applyState performs leads isControl record
  | approve title => exact safe_applyApprove performs leads isControl record

end Control

/-- **What a step does**, whatever its operations respond and its walks return. -/
theorem safe_applyStep (performs : executor.Performs admits onOp onCall node)
    (leads : executor.Leads onCall node) (record : Record) : Safe admits onOp onCall
    (executor.applyStep node record) := by
  unfold applyStep
  cases step : node.step with
  | sink => exact (safe_deliver performs step record).bind fun _ => safe_pure _
  | transform => exact safe_applyTransform performs leads record
  | control control => exact safe_applyControl performs leads step record
  | source => exact safe_route performs leads record

/-- A guard only performs quiet operations. -/
theorem safe_nodeOpen (quiet : ∀ op : Op, op.IsQuiet → onOp op) (payload : Value) :
    Safe (S := Engine) admits onOp onCall (executor.nodeOpen node payload) := by
  unfold nodeOpen
  cases node.when_ with
  | none => exact safe_pure _
  | some guard =>
      refine Safe.bind (safe_op (quiet _ trivial)) fun result => ?_
      cases result with
      | ok value => exact safe_pure _
      | error _ =>
          exact Safe.bind (safe_op (quiet _ trivial)) fun _ =>
            Safe.bind (safe_op (quiet _ trivial)) fun _ =>
              Safe.bind (safe_op (quiet _ trivial)) fun _ => safe_pure _

/-- **What a walk does** from a known node. -/
theorem safe_walk {id : String} (found : executor.graph.node id = some node)
    (performs : executor.Performs admits onOp onCall node) (leads : executor.Leads onCall node)
    (record : Record) :
    Safe admits onOp onCall (executor.walk record id) := by
  unfold walk
  rw [found]
  refine (safe_nodeOpen performs.quiet record.payload).bind fun isOpen => ?_
  cases isOpen
  · exact safe_pure _
  · exact safe_applyStep performs leads record

end Executor

end Sohara
