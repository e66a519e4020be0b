import Sohara.Runtime.Termination

/-! # What the programs around a walk do

Pumping a source, flushing, and injecting records behind a gate perform the
operations of walks, and await walks from the source, from the routes of batch
nodes, and from the routes of the gate. In a well-formed graph all of them halt.
-/

namespace Sohara

open Async Async.Program

namespace Executor

variable {executor : Executor} {admits : (op : Op) → op.Response → Prop} {onOp : Op → Prop}
  {onCall : Call → Prop} {node : Node}

theorem mem_batches {id : String} : id ∈ executor.batches ↔
    id ∈ executor.graph.nodes.keys ∧ executor.isBatch id = true := by
  unfold batches
  rw [(executor.hashOrder.perm _).mem_iff, List.mem_filter]

theorem mem_sinks {id : String} : id ∈ executor.sinks ↔
    id ∈ executor.graph.nodes.keys ∧ executor.isSink id = true := List.mem_filter

theorem isSink_iff {id : String} (found : executor.graph.node id = some node) :
    executor.isSink id = true ↔ node.step = .sink := by
  unfold isSink
  rw [found]
  obtain ⟨_, _, _, step, _, _, _⟩ := node
  cases step <;> simp [NodeStep.isSink]

/-- Batches are taken and emitted. -/
theorem safe_flushBatches_of_emits {ids : List String}
    (takes : ∀ id ∈ ids, onOp (.takeBatch id))
    (emits : ∀ id ∈ ids, ∀ node, executor.graph.node id = some node → ∀ records,
      Safe admits onOp onCall (executor.emitBatch node records)) :
    Safe admits onOp onCall (executor.flushBatches ids) := by
  induction ids with
  | nil => exact safe_pure _
  | cons id rest ih =>
      have others := ih (fun other member => takes other (List.mem_cons_of_mem _ member))
        fun other member => emits other (List.mem_cons_of_mem _ member)
      refine Safe.bind (safe_op (takes id List.mem_cons_self)) fun records => ?_
      cases found : executor.graph.node id with
      | none => cases records <;> exact others
      | some node =>
          cases records with
          | nil => exact others
          | cons record records => exact (emits id List.mem_cons_self node found _).andThen others

/-- Sinks are flushed one after the other. -/
theorem safe_flushSinks {ids : List String} (flushes : ∀ id ∈ ids, onOp (.flush id)) :
    Safe admits onOp onCall (flushSinks ids) := by
  induction ids with
  | nil => exact safe_pure _
  | cons id rest ih =>
      refine Safe.bind (safe_op (flushes id List.mem_cons_self)) fun flushed => ?_
      cases flushed with
      | error _ => exact safe_pure _
      | ok _ => exact ih fun other member => flushes other (List.mem_cons_of_mem _ member)

section Flushing

variable (performs : executor.Performs admits onOp onCall node)
include performs

theorem safe_flushBatches {ids : List String} (batch : ∀ id ∈ ids, executor.isBatch id = true)
    (takes : ∀ id ∈ ids, onOp (.takeBatch id))
    (emits : ∀ records, onOp (.newRecord (batchPayload records)))
    (leads : ∀ id node, executor.isBatch id = true → executor.graph.node id = some node →
      executor.Leads onCall node) :
    Safe admits onOp onCall (executor.flushBatches ids) :=
  safe_flushBatches_of_emits takes fun id member node found records =>
    safe_emitBatch performs (leads id node (batch id member) found) (emits records)

/-- After the batches, the sinks are flushed and the states saved. -/
theorem safe_flushAll_of_batches
    (batches : Safe admits onOp onCall (executor.flushBatches executor.batches))
    (flushes : ∀ id ∈ executor.sinks, onOp (.flush id)) :
    Safe admits onOp onCall executor.flushAll :=
  batches.andThen <| (safe_flushSinks flushes).andThen <|
    performs.checkpoint.bind fun _ => safe_pure _

theorem safe_flushAll (takes : ∀ id ∈ executor.batches, onOp (.takeBatch id))
    (flushes : ∀ id ∈ executor.sinks, onOp (.flush id))
    (emits : ∀ records, onOp (.newRecord (batchPayload records)))
    (leads : ∀ id node, executor.isBatch id = true →
    executor.graph.node id = some node → executor.Leads onCall node) :
    Safe admits onOp onCall executor.flushAll :=
  safe_flushAll_of_batches performs
    (safe_flushBatches performs (fun _ member => (mem_batches.mp member).2) takes emits leads)
    flushes

end Flushing

section Sources

variable (performs : executor.Performs admits onOp onCall node)
include performs

theorem safe_pump {root : String} {items : List Item}
    (walks : ∀ record, .ok record ∈ items → onCall ⟨executor, record, root⟩) :
    Safe admits onOp onCall (executor.pump root items) := by
  have gate : Safe admits onOp onCall executor.waitGate := by
    unfold waitGate
    split
    · exact safe_quiet performs trivial
    · exact safe_pure _
  induction items with
  | nil => exact safe_pure _
  | cons item rest ih =>
      have others := ih fun record member => walks record (List.mem_cons_of_mem _ member)
      refine gate.bind fun _ => ?_
      cases item with
      | ok record => exact (safe_call (walks record List.mem_cons_self)).andThen others
      | error _ =>
          exact Safe.bind (safe_quiet performs trivial) fun _ =>
            Safe.bind (safe_quiet performs trivial) fun _ => others

theorem safe_runSource {root : String} (walks : ∀ node, executor.graph.node root = some node →
    ∀ record, onCall ⟨executor, record, root⟩) :
    Safe admits onOp onCall (executor.runSource root) := by
  unfold runSource
  split
  · next found =>
      refine Safe.bind (safe_quiet performs trivial) fun opened => ?_
      cases opened with
      | error _ => exact safe_pure _
      | ok items => exact safe_pump performs fun record _ => walks _ found record
  · exact safe_pure _

/-- Injection walks from the routes of the gate and of the batch nodes. -/
theorem safe_injectAll {gate : Node}
    (routes : ∀ route ∈ gate.routes, ∀ record, onCall ⟨executor, record, route.to_⟩)
    (takes : ∀ id ∈ executor.batches, onOp (.takeBatch id))
    (flushes : ∀ id ∈ executor.sinks, onOp (.flush id))
    (emits : ∀ records, onOp (.newRecord (batchPayload records)))
    (batches : ∀ id node, executor.isBatch id = true → executor.graph.node id = some node →
      executor.Leads onCall node) (records : List Record) :
    Safe admits onOp onCall (executor.injectAll gate records) := by
  induction records with
  | nil => exact safe_pure _
  | cons record rest ih =>
      have forwarded : Safe admits onOp onCall (executor.route record gate) :=
        safe_routeAlong performs record gate.id gate.routes fun route member =>
          routes route member record
      exact (forwarded.andThen (safe_flushAll performs takes flushes emits batches)).andThen ih

end Sources

section Halting

variable (formed : executor.graph.WellFormed)
include formed

/-- Every node leads to known walks. -/
theorem leads_known {id : String} {node : Node} (found : executor.graph.node id = some node) :
    executor.Leads executor.Known node := by
  obtain ⟨rank, -, descends⟩ := formed.ranked
  have leads := leads_of_wellFormed formed descends found
  exact ⟨fun route member record => (leads.routes route member record).1,
    fun control isControl target named record =>
      (leads.targets control isControl target named record).1⟩

theorem halts_program {program : Prog Outcome}
    (safe : Safe (S := Engine) (fun _ _ => True) (fun _ => True) executor.Known program) :
    Task.Halts (S := Engine) walkCall (.run program) :=
  Task.halts_of_obeys (fun _ known => halts_walk formed known) program safe

omit formed in
/-- Everything is permitted. -/
theorem allows_all (node : Node) : executor.Allows (fun _ => True) node := by
  constructor <;> intros <;> trivial

theorem halts_runSource (root : String) :
    Task.Halts (S := Engine) walkCall (.run (executor.runSource root)) :=
  halts_program formed <| safe_runSource (allows_all default).performs fun node found _ =>
    ⟨rfl, node, found⟩

theorem halts_flushAll : Task.Halts (S := Engine) walkCall (.run executor.flushAll) :=
  halts_program formed <|
    safe_flushAll (allows_all default).performs (fun _ _ => trivial) (fun _ _ => trivial)
      (fun _ => trivial)
      fun _ _ _ found => leads_known formed found

end Halting

section Progress

variable (formed : executor.graph.WellFormed) {W : Type} {handle : Handler Engine W} {world : W}

include formed in
/-- Every run of an accepted graph ends. -/
theorem halts_run :
    Supervised.Halts (S := Engine) walkCall handle executor.flushAll (executor.run world) := by
  refine Supervised.halts_start (fun task member => ?_) (halts_flushAll formed)
  obtain ⟨root, -, rfl⟩ := List.mem_map.mp member
  exact halts_runSource formed root

/-- A run that has not returned goes on. -/
theorem returned_or_step {state : Supervised Engine W}
    (reached : executor.RunReaches handle (executor.run world) state) :
    (∃ outcome, state.main = .returned outcome) ∨ ∃ next, executor.RunStep handle state next := by
  have settled : Supervised.Settled (executor.run world) := by
    refine ⟨fun task member => ?_, fun _ same => nomatch same⟩
    obtain ⟨root, -, rfl⟩ := List.mem_map.mp member
    trivial
  by_cases running : ∀ outcome, state.main ≠ .returned outcome
  · exact .inr ((settled.reaches reached).exists_step running)
  · exact .inl (not_forall_not.mp running)

end Progress

end Executor

end Sohara
