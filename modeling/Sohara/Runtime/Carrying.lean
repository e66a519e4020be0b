import Sohara.Core.Transforms
import Sohara.Runtime.RunSafety

/-! # What walks carry

A walk hands its record on as it is, or what has been made of it. When a property holds of the
record, of what is made of it, and of the answers on the way, it holds of every record that the
walk hands on.
-/

namespace Sohara

open Async Async.Program

/-- The records that an application of a transform yields. -/
def yielded : Except Error TransformOutcome → List Record
  | .ok outcome => outcome.records
  | .error _ => []

namespace Executor

variable {executor : Executor} {admits : (op : Op) → op.Response → Prop} {onOp : Op → Prop}
  {onCall : Call → Prop} {node : Node} {carry : Record → Prop} {record : Record}

variable (performs : executor.Performs admits onOp onCall node)
  (calls : ∀ made target, carry made → onCall ⟨executor, made, target⟩)
include performs calls

theorem carries_route {target : Node} {made : Record} (carried : carry made) :
    Safe (S := Engine) admits onOp onCall (executor.route made target) :=
  safe_routeAlong performs made target.id target.routes fun _ _ => calls _ _ carried

theorem carries_routeEach {records : List Record} (each : ∀ made ∈ records, carry made) :
    Safe (S := Engine) admits onOp onCall (executor.routeEach node records) := by
  induction records with
  | nil => exact safe_pure _
  | cons made rest ih =>
      have others := ih fun other member => each other (List.mem_cons_of_mem _ member)
      exact Safe.andThen (carries_route performs calls (each made List.mem_cons_self)) others

theorem carries_applyLoop {whileExpr : Expr} {body : Option String} (carried : carry record)
    (left : Nat) :
    Safe (S := Engine) admits onOp onCall
      (executor.applyLoop node whileExpr body record left) := by
  induction left with
  | zero => exact safe_pure _
  | succ left ih =>
      refine (safe_evalValue performs record).bind fun value =>
        (safe_evalBool performs whileExpr value).bind fun holds => ?_
      cases holds
      · exact safe_pure _
      · cases body with
        | some target => exact Safe.andThen (safe_call (calls _ _ carried)) ih
        | none => exact Safe.andThen (carries_route performs calls carried) ih

/-- A transform node hands on what its transform has yielded. -/
theorem carries_applyTransform
    (answers : ∀ result, admits (.transform node.id record) result →
      ∀ made ∈ yielded result, carry made) :
    Safe (S := Engine) admits onOp onCall (executor.applyTransform node record) := by
  have attempt : ∀ onFailure : Error → Prog Outcome,
      (∀ failure, Safe (S := Engine) admits onOp onCall (onFailure failure)) →
        Safe (S := Engine) admits onOp onCall
          (executor.attemptTransform node record onFailure) := by
    intro onFailure recovers
    have answered : Program.Obeys (S := Engine) admits onOp onCall
        (admits (.transform node.id record)) (Perform.transform node.id record) :=
      ⟨performs.quiet _ trivial, fun _ admitted => admitted⟩
    refine Obeys.bind answered fun result admitted => ?_
    have each := answers result admitted
    cases result with
    | error failure => exact recovers failure
    | ok outcome =>
        cases outcome with
        | pass made =>
            exact Safe.bind (safe_quiet performs trivial) fun _ =>
              carries_route performs calls (each made List.mem_cons_self)
        | filtered =>
            exact Safe.bind (safe_quiet performs trivial) fun _ =>
              Safe.bind (safe_quiet performs trivial) fun _ => safe_pure _
        | expand records =>
            exact Safe.bind (safe_quiet performs trivial) fun _ =>
              carries_routeEach performs calls each
        | fail failure => exact recovers failure
  have retry : ∀ backoff left, Safe (S := Engine) admits onOp onCall
      (executor.retryTransform node record backoff left) := by
    intro backoff left
    induction left with
    | zero => exact attempt _ (safe_settleFailure performs)
    | succ left ih =>
        exact attempt _ fun _ => Safe.bind (safe_quiet performs trivial) fun _ => ih
  unfold applyTransform
  split
  · exact retry _ _
  · exact attempt _ (safe_settleFailure performs)

theorem carries_emitBatch {target : Node} {records : List Record}
    (emits : onOp (.newRecord (batchPayload records)))
    (made : ∀ payload made, admits (.newRecord payload) made → carry made) :
    Safe (S := Engine) admits onOp onCall (executor.emitBatch target records) := by
  have answered : Program.Obeys (S := Engine) admits onOp onCall
      (admits (.newRecord (batchPayload records)))
      (Perform.newRecord (batchPayload records)) := ⟨emits, fun _ admitted => admitted⟩
  exact Obeys.bind answered fun record admitted =>
    carries_route performs calls (made _ record admitted)

/-- **Control steps hand on what they are given**, but for a parallel step, which may give it a
correlation, and a join, which merges. -/
theorem carries_applyControl {control : ControlNode} (isControl : node.step = .control control)
    (notParallel : ∀ branches, control ≠ .parallel branches)
    (notJoin : ∀ mode n, control ≠ .join mode n) (carried : carry record)
    (children : ∀ field item, carry (child record field item))
    (batched : ∀ size within, control = .batch size within → ∀ payload made,
      admits (.newRecord payload) made → carry made) :
    Safe (S := Engine) admits onOp onCall (executor.applyControl node control record) := by
  cases control with
  | switch cases_ default_ =>
      exact Obeys.bind (obeys_selectCase performs record.payload cases_ default_)
        fun target _ => safe_call (calls _ _ carried)
  | foreach over_ asField maxIterations =>
      refine (safe_evalItems performs over_ record).bind fun items => ?_
      cases items with
      | none => exact safe_pure _
      | some items =>
          refine carries_routeEach performs calls fun made member => ?_
          obtain ⟨item, -, rfl⟩ := List.mem_map.mp member
          exact children asField item
  | loop whileExpr maxIterations body => exact carries_applyLoop performs calls carried _
  | delay duration =>
      exact Safe.bind (safe_quiet performs trivial) fun _ => carries_route performs calls carried
  | state exprs =>
      refine (safe_evalValue performs record).bind fun synthetic =>
        (safe_stateValue performs node.id).bind fun state =>
          (safe_evalState performs synthetic exprs state).bind fun result => ?_
      cases result with
      | none => exact safe_pure _
      | some state =>
          exact (performs.update ⟨exprs, isControl⟩ state).bind fun _ =>
            carries_route performs calls carried
  | batch size within =>
      show Safe (S := Engine) admits onOp onCall (executor.applyBatch node size within record)
      unfold applyBatch
      split
      · refine Safe.bind (safe_op (performs.collect size within isControl record)) fun batch => ?_
        cases batch with
        | none => exact safe_pure _
        | some records =>
            exact carries_emitBatch performs calls
              (performs.emit ⟨size, within, isControl⟩ records) (batched size within rfl)
      · exact safe_pure _
  | approve title =>
      refine Safe.bind (safe_quiet performs trivial) fun stored => ?_
      cases stored
      · exact carries_route performs calls carried
      · refine (safe_parkApprove performs isControl record).bind fun parked => ?_
        cases parked with
        | error _ => exact Safe.bind (safe_quiet performs trivial) fun _ => safe_pure _
        | ok _ =>
            exact Safe.bind (safe_op (performs.wait title isControl)) fun _ => safe_pure _
  | parallel branches => exact absurd rfl (notParallel branches)
  | join mode n => exact absurd rfl (notJoin mode n)

/-- The final flush walks with the records it makes. -/
theorem carries_flushAll (takes : ∀ id ∈ executor.batches, onOp (.takeBatch id))
    (flushes : ∀ id ∈ executor.sinks, onOp (.flush id))
    (emits : ∀ records, onOp (.newRecord (batchPayload records)))
    (made : ∀ payload made, admits (.newRecord payload) made → carry made) :
    Safe (S := Engine) admits onOp onCall executor.flushAll :=
  safe_flushAll_of_batches performs (safe_flushBatches_of_emits takes fun _ _ _ _ records =>
    carries_emitBatch performs calls (emits records) made) flushes

/-- A source walks with its items. -/
theorem carries_runSource {root : String}
    (items : ∀ source streamed, admits (.stream source) streamed → ∀ items, streamed = .ok items →
      ∀ made, .ok made ∈ items → carry made) :
    Safe (S := Engine) admits onOp onCall (executor.runSource root) := by
  unfold runSource
  split
  · have answered : Program.Obeys (S := Engine) admits onOp onCall (admits (.stream root))
        (Perform.stream root) := ⟨performs.quiet _ trivial, fun _ admitted => admitted⟩
    refine Obeys.bind answered fun streamed admitted => ?_
    cases streamed with
    | error _ => exact safe_pure _
    | ok streamed =>
        exact safe_pump performs fun made member =>
          calls _ _ (items root _ admitted streamed rfl made member)
  · exact safe_pure _

end Executor

end Sohara
