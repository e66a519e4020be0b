import Mathlib.Algebra.Group.Prod
import Sohara.Async.Ensures
import Sohara.Async.Phases
import Sohara.Buffer.Levels
import Sohara.Runtime.Alone
import Sohara.Runtime.JoinDrain
import Sohara.Runtime.Linear
import Sohara.Runtime.Pipeline
import Sohara.Runtime.RunMeaning

/-! # Linear flows run as pipelines

The executor pushes each record through a linear flow to its end before it turns to the
next one; the pipeline takes all pending records through one transform after the other.
Both hand the same records to the sink in the same order and count the same.
-/

namespace Sohara

open Async Async.Program Levels

/-- Records filtered and failures, which no sink gets to see. -/
abbrev Charge : Type := Nat × Nat

/-- The statistics with a charge added. -/
def PipelineStats.charge (cost : Charge) (stats : PipelineStats) : PipelineStats :=
  { stats with filtered := stats.filtered + cost.1, errors := stats.errors + cost.2 }

/-- What a run with one sink has come to. -/
structure Tally where
  /-- The records handed to the sink. -/
  sent : List (String × Record)
  /-- The records the sink has accepted since its last flush. -/
  accepted : List Record
  stats : PipelineStats

namespace Tally

instance : AddAction Charge Tally where
  vadd cost tally := { tally with stats := tally.stats.charge cost }
  zero_vadd _ := rfl
  add_vadd first second tally := by
    show ({ tally with stats := ⟨_, tally.stats.filtered + (first.1 + second.1),
      tally.stats.errors + (first.2 + second.2)⟩ } : Tally) = _
    rw [Nat.add_comm first.1, Nat.add_comm first.2, ← Nat.add_assoc, ← Nat.add_assoc]
    rfl

/-- A transform that is skipped when it fails. -/
def stage (act : Record → Except Error TransformOutcome) : Stage Record Charge where
  emits record :=
    match act record with
    | .ok (.pass record) => [record]
    | .ok (.expand records) => records
    | _ => []
  cost record :=
    match act record with
    | .ok .filtered => (1, 0)
    | .ok (.pass _) => 0
    | .ok (.expand _) => 0
    | .ok (.fail _) => (0, 1)
    | .error _ => (0, 1)

/-- Hands a record to the sink. -/
def deliver (host : Host) (sink : String) (tally : Tally) (record : Record) : Tally :=
  match host.send sink (World.historyOf sink tally.sent) record with
  | .ok () =>
      { sent := tally.sent ++ [(sink, record)], accepted := tally.accepted ++ [record],
        stats := { tally.stats with processed := tally.stats.processed + 1 } }
  | .error _ =>
      { tally with
        sent := tally.sent ++ [(sink, record)],
        stats := { tally.stats with errors := tally.stats.errors + 1 } }

section Delivery

variable {host : Host} {sink : String} {tally : Tally} {record : Record}

theorem deliver_ok {answer : Unit}
    (answered : host.send sink (World.historyOf sink tally.sent) record = .ok answer) :
    tally.deliver host sink record =
      { sent := tally.sent ++ [(sink, record)], accepted := tally.accepted ++ [record],
        stats := { tally.stats with processed := tally.stats.processed + 1 } } := by
  unfold deliver
  rw [answered]

theorem deliver_error {failure : Error}
    (answered : host.send sink (World.historyOf sink tally.sent) record = .error failure) :
    tally.deliver host sink record =
      { tally with
        sent := tally.sent ++ [(sink, record)],
        stats := { tally.stats with errors := tally.stats.errors + 1 } } := by
  unfold deliver
  rw [answered]

end Delivery

/-- What the sink does depends on the records alone. -/
theorem indifferent_deliver (host : Host) (sink : String) :
    Indifferent Charge (deliver host sink) := by
  intro cost tally record
  show deliver host sink { tally with stats := tally.stats.charge cost } record =
    { deliver host sink tally record with
      stats := (deliver host sink tally record).stats.charge cost }
  cases answered : host.send sink (World.historyOf sink tally.sent) record with
  | ok _ =>
      rw [deliver_ok answered, deliver_ok]
      · rfl
      · exact answered
  | error _ =>
      rw [deliver_error answered, deliver_error]
      · show Tally.mk _ _ ⟨_, _, tally.stats.errors + cost.2 + 1⟩ = _
        rw [Nat.add_right_comm]
        rfl
      · exact answered

end Tally

namespace World

/-- The counters both runners report. -/
def report (world : World) : PipelineStats :=
  ⟨world.counters .processed, world.counters .filtered, world.counters .errors⟩

/-- A world in which a sink has been handed a record. -/
def handing (world : World) (sink : String) (record : Record) : World :=
  { world with sent := world.sent ++ [(sink, record)] }

/-- A world in which a sink has accepted a record. -/
def accepting (world : World) (sink : String) (record : Record) : World :=
  { world.handing sink record with
    buffered := Function.update world.buffered sink (world.buffered sink ++ [record]) }

section Sending

variable {host : Host} {world : World} {sink : String} {record : Record}

theorem perform_send_ok {answer : Unit}
    (answered : host.send sink (historyOf sink world.sent) record = .ok answer) :
    perform host world (.send sink record) = (.ok (), world.accepting sink record) := by
  show world.send host sink record = _
  unfold send
  rw [answered]
  rfl

theorem perform_send_error {failure : Error}
    (answered : host.send sink (historyOf sink world.sent) record = .error failure) :
    perform host world (.send sink record) = (.error failure, world.handing sink record) := by
  show world.send host sink record = _
  unfold send
  rw [answered]
  rfl

end Sending

/-- What a run of an executor has come to. -/
def tally (sink : String) (world : World) : Tally :=
  ⟨world.sent, world.buffered sink, world.report⟩

end World

section Executing

variable {executor : Executor} {host : Host} {sink : String}
  {act : String → Record → Except Error TransformOutcome}

/-- A postcondition of a program over the engine. -/
abbrev Leaves (host : Host) {α : Type} (program : Prog α) (world : World)
    (post : α → World → Prop) : Prop :=
  Ensures (S := Engine) walkCall (World.perform host) program world post

/-- The end of a walk: no error, and the given tally. -/
def Ends (sink : String) (tally : Tally) (outcome : Outcome) (after : World) : Prop :=
  outcome = .ok () ∧ after.store = none ∧ after.tally sink = tally

/-- A walk that adds one record to the tally. -/
def Adds (executor : Executor) (host : Host) (sink id : String)
    (step : Tally → Record → Tally) : Prop :=
  ∀ world record, world.store = none →
    Leaves host (executor.walk record id) world (Ends sink (step (world.tally sink) record))

/-- Without a store nothing is looked up or saved. -/
theorem leaves_storeless {α : Type} {world : World} (absent : world.store = none) {stored : Prog α}
    {value : α} {post : α → World → Prop} (holds : post value world) :
    Leaves host (do if ← Perform.hasStore then stored else return value) world post := by
  apply ensures_op_bind
  show Leaves host (if world.store.isSome = true then stored else return value) world post
  rw [absent]
  exact ensures_pure holds

theorem leaves_checkpoint {world : World} {tally : Tally} (absent : world.store = none)
    (same : world.tally sink = tally) :
    Leaves host executor.checkpoint world fun _ => Ends sink tally (.ok ()) :=
  leaves_storeless absent ⟨rfl, absent, same⟩

/-- Without a store only the steps to a checkpoint are counted. -/
theorem leaves_maybeCheckpoint {world : World} {tally : Tally} (absent : world.store = none)
    (same : world.tally sink = tally) :
    Leaves host executor.maybeCheckpoint world fun _ => Ends sink tally (.ok ()) := by
  unfold Executor.maybeCheckpoint
  split
  · exact ensures_pure ⟨rfl, absent, same⟩
  · next every _ =>
      apply ensures_op_bind
      split
      · exact leaves_checkpoint absent same
      · exact ensures_pure ⟨rfl, absent, same⟩

theorem leaves_deliver {node : Node} {world : World} (record : Record)
    (named : node.id = sink) (absent : world.store = none) :
    Leaves host (executor.deliver node record) world
      fun _ => Ends sink ((world.tally sink).deliver host sink record) (.ok ()) := by
  subst named
  have unmarked : Leaves host (executor.isDelivered record) world
      fun delivered after => delivered = false ∧ after = world :=
    leaves_storeless absent ⟨rfl, rfl⟩
  refine (unmarked.mono fun delivered after same => ?_).bind
  obtain ⟨rfl, rfl⟩ := same
  apply ensures_op_bind
  cases answered : host.send node.id (World.historyOf node.id after.sent) record with
  | ok _ =>
      rw [World.perform_send_ok answered]
      have stillAbsent : (after.accepting node.id record).store = none := absent
      have marked : Leaves host (executor.markDelivered record) (after.accepting node.id record)
          fun _ between => between = after.accepting node.id record :=
        leaves_storeless stillAbsent rfl
      refine (marked.mono fun _ between same => ?_).bind
      rw [same]
      apply ensures_op_bind
      apply ensures_op_bind
      refine leaves_maybeCheckpoint absent ?_
      rw [Tally.deliver_ok (show host.send node.id (World.historyOf node.id
        (after.tally node.id).sent) record = .ok _ from answered)]
      show Tally.mk _ (Function.update after.buffered node.id _ node.id) _ = _
      rw [Function.update_self]
      rfl
  | error failure =>
      rw [World.perform_send_error answered]
      apply ensures_op_bind
      apply ensures_op_bind
      refine ensures_op ⟨rfl, absent, ?_⟩
      rw [Tally.deliver_error (show host.send node.id (World.historyOf node.id
        (after.tally node.id).sent) record = .error _ from answered)]
      rfl

/-- A node without a guard executes its step. -/
theorem walk_unguarded {id : String} {node : Node} (found : executor.graph.node id = some node)
    (unguarded : node.when_ = none) (record : Record) :
    executor.walk record id = executor.applyStep node record := by
  unfold Executor.walk Executor.nodeOpen
  rw [found]
  dsimp only
  rw [unguarded]
  rfl

section Forwarding

variable {node : Node} {next : String} {step : Tally → Record → Tally}
  (routes : node.routes = [⟨next, none⟩]) (adds : Adds executor host sink next step)
include routes adds

theorem leaves_route {world : World} (record : Record) (absent : world.store = none) :
    Leaves host (executor.route record node) world
      (Ends sink (step (world.tally sink) record)) := by
  unfold Executor.route
  rw [routes]
  show Leaves host ((executor.walkTo record next).andThen (return .ok ())) world _
  apply Ensures.andThen
  apply ensures_call
  refine (adds world record absent).mono fun outcome after ends => ?_
  obtain ⟨rfl, stillAbsent, same⟩ := ends
  exact ⟨rfl, ensures_pure ⟨rfl, stillAbsent, same⟩⟩

theorem leaves_routeEach {world : World} (records : List Record) (absent : world.store = none) :
    Leaves host (executor.routeEach node records) world
      (Ends sink (records.foldl step (world.tally sink))) := by
  induction records generalizing world with
  | nil => exact ensures_pure ⟨rfl, absent, rfl⟩
  | cons record rest ih =>
      apply Ensures.andThen
      refine (leaves_route routes adds record absent).mono fun outcome after ends => ?_
      obtain ⟨rfl, stillAbsent, same⟩ := ends
      refine ⟨rfl, ?_⟩
      rw [List.foldl_cons, ← same]
      exact ih stillAbsent

/-- A transform is a stage before what follows it. -/
theorem leaves_applyTransform (deterministic : ∀ id history record,
      host.transform id history record = act id record) (policy : node.policy = .continue)
    {world : World} (record : Record) (absent : world.store = none) :
    Leaves host (executor.applyTransform node record) world
      (Ends sink (((Tally.stage (act node.id)).emits record).foldl step
        ((Tally.stage (act node.id)).cost record +ᵥ world.tally sink))) := by
  have failing : ∀ {between : World} (failure : Error), between.store = none →
      Leaves host (Executor.settleFailure node failure) between
        (Ends sink (((0, 1) : Charge) +ᵥ between.tally sink)) := by
    intro between failure stillAbsent
    apply ensures_op_bind
    apply ensures_op_bind
    apply ensures_op_bind
    rw [policy]
    exact ensures_pure ⟨rfl, stillAbsent, rfl⟩
  unfold Executor.applyTransform
  rw [policy]
  apply ensures_op_bind
  have answered : (World.perform host world (.transform node.id record)).1 = act node.id record :=
    deterministic node.id _ record
  have stillAbsent : (World.perform host world (.transform node.id record)).2.store = none := absent
  have same : world.tally sink =
    (World.perform host world (.transform node.id record)).2.tally sink := rfl
  rw [answered, same]
  generalize (World.perform host world (.transform node.id record)).2 = between at stillAbsent
  unfold Tally.stage
  dsimp only
  cases act node.id record with
  | error failure => exact failing failure stillAbsent
  | ok outcome =>
      cases outcome with
      | fail failure => exact failing failure stillAbsent
      | filtered =>
          apply ensures_op_bind
          apply ensures_op_bind
          exact ensures_pure ⟨rfl, stillAbsent, rfl⟩
      | pass record =>
          apply ensures_op_bind
          dsimp only
          rw [zero_vadd]
          exact leaves_route routes adds record stillAbsent
      | expand records =>
          apply ensures_op_bind
          dsimp only
          rw [zero_vadd]
          exact leaves_routeEach routes adds records stillAbsent

end Forwarding

section Line

variable (deterministic : ∀ id history record, host.transform id history record = act id record)
  (formed : executor.graph.WellFormed)
include formed

theorem adds_sink (chain : executor.graph.Chain sink []) :
    Adds executor host sink sink (Tally.deliver host sink) := by
  intro world record absent
  obtain ⟨node, found, unguarded, isSink⟩ := chain
  rw [walk_unguarded found unguarded]
  unfold Executor.applyStep
  rw [isSink]
  refine ((leaves_deliver record (formed.named found) absent).mono fun _ after ends => ?_).bind
  exact ensures_pure ends

include deterministic

/-- **A chain of transforms pushes.** -/
theorem adds_chain {ids : List String} (chain : executor.graph.Chain sink ids) :
    Adds executor host sink (ids.head?.getD sink)
      (push (Tally.deliver host sink) (ids.map fun id => Tally.stage (act id))) := by
  induction ids with
  | nil => exact adds_sink formed chain
  | cons id rest ih =>
      obtain ⟨⟨node, found, unguarded, policy, isTransform, routes⟩, others⟩ := chain
      intro world record absent
      have walked := leaves_applyTransform routes (ih others) deterministic policy record absent
      rw [formed.named found] at walked
      show Leaves host (executor.walk record id) world _
      rw [walk_unguarded found unguarded]
      unfold Executor.applyStep
      rw [isTransform]
      exact walked

variable {source : String} {ids : List String} (line : executor.graph.IsLine source ids sink)
include line

theorem adds_source : Adds executor host sink source
    (push (Tally.deliver host sink) (ids.map fun id => Tally.stage (act id))) := by
  obtain ⟨node, found, unguarded, isSource, routes⟩ := line.entry
  intro world record absent
  rw [walk_unguarded found unguarded]
  unfold Executor.applyStep
  rw [isSource]
  exact leaves_route routes (adds_chain deterministic formed line.chain) record absent

end Line

section Sources

/-- An element of the source stream. -/
def Tally.intake (step : Tally → Record → Tally) (tally : Tally) : Item → Tally
  | .ok record => step tally record
  | .error _ => ((0, 1) : Charge) +ᵥ tally

variable {source : String} {step : Tally → Record → Tally}
  (adds : Adds executor host sink source step)
include adds

theorem leaves_pump {world : World} (items : List Item) (absent : world.store = none) :
    Leaves host (executor.pump source items) world
      (Ends sink (items.foldl (Tally.intake step) (world.tally sink))) := by
  have gate : ∀ {world : World}, world.store = none → Leaves host executor.waitGate world
      fun _ after => after.store = none ∧ after.tally sink = world.tally sink := by
    intro world absent
    unfold Executor.waitGate
    split
    · exact ensures_op ⟨absent, rfl⟩
    · exact ensures_pure ⟨absent, rfl⟩
  induction items generalizing world with
  | nil => exact ensures_pure ⟨rfl, absent, rfl⟩
  | cons item rest ih =>
      refine ((gate absent).mono fun _ between held => ?_).bind
      obtain ⟨stillAbsent, same⟩ := held
      rw [List.foldl_cons, ← same]
      cases item with
      | ok record =>
          apply Ensures.andThen
          apply ensures_call
          refine (adds between record stillAbsent).mono fun outcome after ends => ?_
          obtain ⟨rfl, absentAfter, added⟩ := ends
          refine ⟨rfl, ?_⟩
          have others := ih absentAfter
          rwa [added] at others
      | error failure =>
          apply ensures_op_bind
          apply ensures_op_bind
          exact ih stillAbsent

end Sources

section Ending

variable {world : World}

/-- A source whose stream cannot be opened ends the run. -/
def Opens (host : Host) (source sink : String) (step : Tally → Record → Tally) (tally : Tally)
    (outcome : Outcome) (after : World) : Prop :=
  (∃ failure, host.streams source = .error failure ∧ outcome = .error failure ∧
      after.sent = tally.sent) ∨
    ∃ items, host.streams source = .ok items ∧
      Ends sink (items.foldl (Tally.intake step) tally) outcome after

theorem leaves_runSource {source : String} {step : Tally → Record → Tally} {node : Node}
    (adds : Adds executor host sink source step) (found : executor.graph.node source = some node)
    (isSource : node.step = .source) (absent : world.store = none) :
    Leaves host (executor.runSource source) world
      (Opens host source sink step (world.tally sink)) := by
  obtain ⟨id, when_, policy, nodeStep, routes, incoming, state⟩ := node
  subst isSource
  unfold Executor.runSource
  rw [found]
  apply ensures_op_bind
  have answered : (World.perform host world (.stream source)).1 = host.streams source := rfl
  cases opened : host.streams source with
  | error failure =>
      rw [answered, opened]
      exact ensures_pure (.inl ⟨failure, opened, rfl, rfl⟩)
  | ok items =>
      rw [answered, opened]
      refine (leaves_pump adds items absent).mono fun outcome after ends => ?_
      exact .inr ⟨items, opened, ends⟩

/-- The answer of a sink to a flush. -/
def flushed (host : Host) (sink : String) (accepted : List Record) : Except Error Unit :=
  if accepted = [] then .ok () else host.flush sink accepted

theorem perform_flush_fst (host : Host) (sink : String) (world : World) :
    (World.perform host world (.flush sink)).1 = flushed host sink (world.buffered sink) := by
  show (world.flush host sink).1 = _
  unfold World.flush flushed
  by_cases empty : world.buffered sink = []
  · rw [if_pos empty, if_pos empty]
  · rw [if_neg empty, if_neg empty]
    cases host.flush sink (world.buffered sink) <;> rfl

/-- A flush neither hands over records nor counts. -/
theorem report_flush (host : Host) (sink : String) (world : World) :
    (World.perform host world (.flush sink)).2.report = world.report := by
  unfold World.report
  rw [World.perform_counters, World.perform_counters, World.perform_counters]
  rfl

theorem sent_flush (host : Host) (sink : String) (world : World) :
    (World.perform host world (.flush sink)).2.sent = world.sent :=
  (World.perform_sent host world _).trans (List.append_nil _)

variable {source : String} {ids : List String} (line : executor.graph.IsLine source ids sink)
include line

theorem batches_of_line : executor.batches = [] := by
  refine List.eq_nil_iff_forall_not_mem.mpr fun id member => ?_
  have isBatch := (Executor.mem_batches.mp member).2
  unfold Executor.isBatch at isBatch
  split at isBatch
  · next found => exact line.plain found rfl
  · cases isBatch

theorem sinks_of_line : executor.sinks = [sink] := by
  have listed : ∀ id, id ∈ executor.sinks ↔ id = sink := by
    intro id
    unfold Executor.sinks Executor.isSink
    rw [List.mem_filter, BTreeMap.mem_keys]
    constructor
    · rintro ⟨⟨node, found⟩, isSink⟩
      have lookup : executor.graph.node id = some node := found
      rw [lookup] at isSink
      refine line.drain lookup ?_
      cases step : node.step with
      | sink => rfl
      | _ => simp only [step, NodeStep.isSink] at isSink; cases isSink
    · rintro rfl
      obtain ⟨node, found, isSink⟩ := line.chain.last
      refine ⟨⟨node, found⟩, ?_⟩
      rw [found]
      dsimp only
      rw [isSink]
      rfl
  have distinct : executor.sinks.Nodup := List.Nodup.filter _ Std.TreeMap.nodup_keys
  exact List.perm_singleton.mp
    ((List.perm_ext_iff_of_nodup distinct (List.nodup_singleton sink)).mpr fun id =>
      (listed id).trans List.mem_singleton.symm)

/-- The end of a run flushes the sink. -/
theorem leaves_flushAll (absent : world.store = none) :
    Leaves host executor.flushAll world fun outcome after =>
      outcome = flushed host sink (world.buffered sink) ∧ after.sent = world.sent ∧
        after.report = world.report := by
  unfold Executor.flushAll
  rw [batches_of_line line, sinks_of_line line]
  apply Ensures.andThen
  refine ensures_pure ⟨rfl, ?_⟩
  have answer := perform_flush_fst host sink world
  have sent := sent_flush host sink world
  have report := report_flush host sink world
  have store := World.perform_store_none host world absent (.flush sink)
  cases answered : flushed host sink (world.buffered sink) with
  | error failure =>
      apply Ensures.andThen_error
      apply ensures_op_bind
      rw [answer, answered]
      exact ensures_pure ⟨failure, rfl, rfl, sent, report⟩
  | ok _ =>
      apply Ensures.andThen
      apply ensures_op_bind
      rw [answer, answered]
      refine ensures_pure ⟨rfl, ?_⟩
      have unsaved : Leaves host executor.checkpoint
          (World.perform host world (.flush sink)).2 fun _ after =>
            after.sent = world.sent ∧ after.report = world.report :=
        leaves_storeless store ⟨sent, report⟩
      refine (unsaved.mono fun _ after kept => ?_).bind
      exact ensures_pure ⟨rfl, kept⟩

end Ending

end Executing

section Pipelining

variable {host : Host} {sink : String} {act : String → Record → Except Error TransformOutcome}
  {world : World} {stats : PipelineStats}

/-- What a run of a pipeline has come to. -/
def World.pipelined (sink : String) (stats : PipelineStats) (world : World) : Tally :=
  ⟨world.sent, world.buffered sink, stats⟩

/-- The end of a part of a pipeline. -/
def Comes (sink : String) (tally : Tally) (stats : PipelineStats) (after : World) : Prop :=
  after.pipelined sink stats = tally

theorem leaves_sendAll (records : List Record) :
    Leaves host (Pipeline.sendAll sink stats records) world
      (Comes sink (records.foldl (Tally.deliver host sink) (world.pipelined sink stats))) := by
  induction records generalizing world stats with
  | nil => exact ensures_pure rfl
  | cons record rest ih =>
      apply ensures_op_bind
      rw [List.foldl_cons]
      cases answered : host.send sink (World.historyOf sink world.sent) record with
      | ok _ =>
          have delivered : (world.pipelined sink stats).deliver host sink record =
              (world.accepting sink record).pipelined sink
                { stats with processed := stats.processed + 1 } := by
            rw [@Tally.deliver_ok _ _ (world.pipelined sink stats) _ _ answered]
            show Tally.mk _ _ _ = Tally.mk _ (Function.update world.buffered sink _ sink) _
            rw [Function.update_self]
            rfl
          rw [World.perform_send_ok answered, delivered]
          exact ih
      | error failure =>
          have delivered : (world.pipelined sink stats).deliver host sink record =
              (world.handing sink record).pipelined sink
                { stats with errors := stats.errors + 1 } :=
            @Tally.deliver_error _ _ (world.pipelined sink stats) _ _ answered
          rw [World.perform_send_error answered, delivered]
          exact ih

section Transforming

variable (deterministic : ∀ id history record, host.transform id history record = act id record)
include deterministic

theorem leaves_applyOne (id : String) (record : Record) :
    Leaves host (Pipeline.applyOne id record stats) world fun result after =>
      result.1 = (Tally.stage (act id)).emits record ∧
        Comes sink ((Tally.stage (act id)).cost record +ᵥ world.pipelined sink stats) result.2
          after := by
  apply ensures_op_bind
  have answered : (World.perform host world (.transform id record)).1 = act id record :=
    deterministic id _ record
  rw [answered]
  unfold Tally.stage
  dsimp only
  cases act id record with
  | error failure => exact ensures_pure ⟨rfl, rfl⟩
  | ok outcome =>
      cases outcome with
      | fail failure => exact ensures_pure ⟨rfl, rfl⟩
      | filtered => exact ensures_pure ⟨rfl, rfl⟩
      | pass record => exact ensures_pure ⟨rfl, rfl⟩
      | expand records => exact ensures_pure ⟨rfl, rfl⟩

theorem leaves_applyPending (id : String) (next records : List Record) :
    Leaves host (Pipeline.applyPending id next stats records) world fun result after =>
      result.1 = next ++ records.flatMap (Tally.stage (act id)).emits ∧
        Comes sink ((records.map (Tally.stage (act id)).cost).sum +ᵥ world.pipelined sink stats)
          result.2 after := by
  induction records generalizing world stats next with
  | nil => exact ensures_pure ⟨(List.append_nil _).symm, (zero_vadd Charge _).symm⟩
  | cons record rest ih =>
      have first := @leaves_applyOne host sink act world stats deterministic id record
      refine (first.mono fun result after comes => ?_).bind
      obtain ⟨emitted, charged⟩ := comes
      refine (ih (next ++ result.1)).mono fun last ended comes => ?_
      unfold Comes at charged
      rw [emitted, charged, List.append_assoc, ← add_vadd, add_comm] at comes
      exact comes

theorem leaves_applyTransforms (ids : List String) (pending : List Record) :
    Leaves host (Pipeline.applyTransforms pending stats ids) world fun result after =>
      result.1 = survivors (ids.map fun id => Tally.stage (act id)) pending ∧
        Comes sink (total (ids.map fun id => Tally.stage (act id)) pending +ᵥ
          world.pipelined sink stats) result.2 after := by
  induction ids generalizing world stats pending with
  | nil => exact ensures_pure ⟨rfl, (zero_vadd Charge _).symm⟩
  | cons id rest ih =>
      have first := @leaves_applyPending host sink act world stats deterministic id [] pending
      refine (first.mono fun result after comes => ?_).bind
      obtain ⟨next, counted⟩ := result
      obtain ⟨emitted, charged⟩ := comes
      rw [List.nil_append] at emitted
      unfold Comes at charged
      dsimp only at emitted charged ⊢
      split
      · next none_ =>
          -- with nothing pending the remaining transforms neither emit nor cost anything
          rw [List.isEmpty_iff.mp none_] at emitted
          refine ensures_pure ⟨?_, ?_⟩
          · show next = survivors _ (pending.flatMap _)
            rw [← emitted, survivors_nil]
            exact List.isEmpty_iff.mp none_
          · show after.pipelined sink counted = (_ + total _ (pending.flatMap _)) +ᵥ _
            rw [← emitted, total_nil, add_zero]
            exact charged
      · refine (ih next).mono fun last ended comes => ?_
        rw [emitted, charged, ← add_vadd, add_comm] at comes
        exact comes

/-- **A pipeline takes a record through level by level**, which comes to the same. -/
theorem leaves_processRecord (ids : List String) (record : Record) :
    Leaves host (Pipeline.processRecord ids sink record stats) world
      (Comes sink (push (Tally.deliver host sink) (ids.map fun id => Tally.stage (act id))
        (world.pipelined sink stats) record)) := by
  have first := @leaves_applyTransforms host sink act world stats deterministic ids [record]
  refine (first.mono fun result after comes => ?_).bind
  obtain ⟨emitted, charged⟩ := comes
  have pushed := foldl_push (Tally.indifferent_deliver host sink)
    (ids.map fun id => Tally.stage (act id)) [record] (world.pipelined sink stats)
  rw [List.foldl_cons, List.foldl_nil, ← emitted, ← charged] at pushed
  rw [pushed]
  exact leaves_sendAll result.1

theorem leaves_pipeline_pump (ids : List String) (items : List Item) :
    Leaves host (Pipeline.pump ids sink stats items) world
      (Comes sink (items.foldl (Tally.intake
        (push (Tally.deliver host sink) (ids.map fun id => Tally.stage (act id))))
          (world.pipelined sink stats))) := by
  induction items generalizing world stats with
  | nil => exact ensures_pure rfl
  | cons item rest ih =>
      rw [List.foldl_cons]
      cases item with
      | error failure => exact ih
      | ok record =>
          have first := @leaves_processRecord host sink act world stats deterministic ids record
          refine (first.mono fun counted after comes => ?_).bind
          rw [show Tally.intake _ (world.pipelined sink stats) (.ok record) = _ from comes.symm]
          exact ih

/-- What a run returns: the error of the stream or of the flush, or what it has counted. -/
def Returns (host : Host) (source sink : String) (step : Tally → Record → Tally) (start : Tally)
    (result : Except Error PipelineStats) (sent : List (String × Record)) : Prop :=
  (∃ failure, host.streams source = .error failure ∧ result = .error failure ∧
      sent = start.sent) ∨
    ∃ items tally, host.streams source = .ok items ∧
      tally = items.foldl (Tally.intake step) start ∧ sent = tally.sent ∧
        result = (flushed host sink tally.accepted).map fun _ => tally.stats

omit deterministic in
theorem Returns.unique {source : String} {step : Tally → Record → Tally} {start : Tally}
    {first second : Except Error PipelineStats} {early late : List (String × Record)}
    (left : Returns host source sink step start first early)
    (right : Returns host source sink step start second late) : first = second ∧ early = late := by
  rcases left with ⟨_, opened, rfl, rfl⟩ | ⟨_, _, opened, rfl, rfl, rfl⟩ <;>
    rcases right with ⟨_, same, rfl, rfl⟩ | ⟨_, _, same, rfl, rfl, rfl⟩ <;>
      cases opened.symm.trans same <;> exact ⟨rfl, rfl⟩

theorem leaves_pipeline_run (source : String) (ids : List String) :
    Leaves host (Pipeline.run source ids sink) world fun result after =>
      Returns host source sink
        (push (Tally.deliver host sink) (ids.map fun id => Tally.stage (act id)))
        (world.pipelined sink .zero) result after.sent := by
  apply ensures_op_bind
  have answered : (World.perform host world (.stream source)).1 = host.streams source := rfl
  cases opened : host.streams source with
  | error failure =>
      rw [answered, opened]
      exact ensures_pure (.inl ⟨failure, opened, rfl, rfl⟩)
  | ok items =>
      rw [answered, opened]
      have pumped := @leaves_pipeline_pump host sink act world .zero deterministic ids items
      refine (pumped.mono fun counted after comes => ?_).bind
      apply ensures_op_bind
      unfold Comes at comes
      have answer := perform_flush_fst host sink after
      have sent := sent_flush host sink after
      have returned : ∀ result, result = (flushed host sink (after.buffered sink)).map
          (fun _ => counted) → Returns host source sink (push (Tally.deliver host sink)
            (ids.map fun id => Tally.stage (act id))) (world.pipelined sink .zero) result
              (World.perform host after (.flush sink)).2.sent := by
        intro result same
        refine .inr ⟨items, after.pipelined sink counted, opened, comes, sent, same⟩
      cases flushing : flushed host sink (after.buffered sink) with
      | error failure =>
          rw [answer, flushing]
          refine ensures_pure (returned _ ?_)
          rw [flushing]
          rfl
      | ok _ =>
          rw [answer, flushing]
          refine ensures_pure (returned _ ?_)
          rw [flushing]
          rfl

end Transforming

end Pipelining

section Walkless

/-- A program that walks no graph. -/
abbrev Walkless {α : Type} (program : Prog α) : Prop :=
  Safe (S := Engine) (fun _ _ => True) (fun _ => True) (fun _ => False) program

theorem walkless_applyPending (id : String) (next : List Record) (stats : PipelineStats)
    (records : List Record) : Walkless (Pipeline.applyPending id next stats records) := by
  induction records generalizing next stats with
  | nil => exact safe_pure _
  | cons record rest ih =>
      have first : Walkless (Pipeline.applyOne id record stats) := by
        refine Safe.bind (safe_op trivial) fun outcome => ?_
        split <;> exact safe_pure _
      exact Safe.bind first fun _ => ih _ _

theorem walkless_applyTransforms (ids : List String) (pending : List Record)
    (stats : PipelineStats) : Walkless (Pipeline.applyTransforms pending stats ids) := by
  induction ids generalizing pending stats with
  | nil => exact safe_pure _
  | cons id rest ih =>
      refine Safe.bind (walkless_applyPending id [] stats pending) fun result => ?_
      dsimp only
      split
      · exact safe_pure _
      · exact ih _ _

theorem walkless_sendAll (sink : String) (stats : PipelineStats) (records : List Record) :
    Walkless (Pipeline.sendAll sink stats records) := by
  induction records generalizing stats with
  | nil => exact safe_pure _
  | cons record rest ih =>
      refine Safe.bind (safe_op trivial) fun answer => ?_
      split <;> exact ih _

theorem walkless_pump (ids : List String) (sink : String) (stats : PipelineStats)
    (items : List Item) : Walkless (Pipeline.pump ids sink stats items) := by
  induction items generalizing stats with
  | nil => exact safe_pure _
  | cons item rest ih =>
      cases item with
      | error _ => exact ih _
      | ok record =>
          refine Safe.bind ?_ fun counted => ih counted
          exact Safe.bind (walkless_applyTransforms ids [record] stats) fun _ =>
            walkless_sendAll sink _ _

theorem walkless_pipeline (source : String) (ids : List String) (sink : String) :
    Walkless (Pipeline.run source ids sink) := by
  refine Safe.bind (safe_op trivial) fun opened => ?_
  split
  · exact safe_pure _
  · refine Safe.bind (walkless_pump ids sink .zero _) fun stats => ?_
    refine Safe.bind (safe_op trivial) fun answer => ?_
    split <;> exact safe_pure _

end Walkless

section Running

variable {executor : Executor} {host : Host} {source sink : String} {ids : List String}
  {act : String → Record → Except Error TransformOutcome} {world : World}

/-- What a run of an executor over a linear flow returns. -/
theorem returns_of_reaches
    (deterministic : ∀ id history record, host.transform id history record = act id record)
    (formed : executor.graph.WellFormed) (line : executor.graph.IsLine source ids sink)
    (absent : world.store = none) {state : Supervised Engine World} {outcome : Outcome}
    (reached : executor.RunReaches (World.perform host) (executor.run world) state)
    (ended : state.main = .returned outcome) :
    Returns host source sink
      (push (Tally.deliver host sink) (ids.map fun id => Tally.stage (act id)))
      (world.tally sink) (outcome.map fun _ => state.spawned.world.report)
        state.spawned.world.sent := by
  have single : executor.sourceTasks = [.run (executor.runSource source)] := by
    unfold Executor.sourceTasks
    rw [line.roots]
    rfl
  obtain ⟨node, found, -, isSource, -⟩ := line.entry
  have opens := leaves_runSource (adds_source deterministic formed line) found isSource absent
  obtain ⟨running, config, run, failed | ⟨joined, pass, evaluates⟩⟩ :=
    Supervised.returned_cases reached ended
  · obtain ⟨failure, rfl, member, same⟩ := failed
    obtain ⟨next, alone, ran⟩ := Task.ran_of_run run single
    rw [alone, List.mem_singleton] at member
    subst member
    rcases opens _ _ _ (evaluates_of_ran ran) with ⟨other, opened, equal, sent⟩ | ⟨_, _, ends⟩
    · cases equal
      rw [same]
      exact .inl ⟨failure, opened, rfl, sent⟩
    · cases ends.1
  · obtain ⟨next, alone, ran⟩ := Task.ran_of_run run single
    have done := joined next (by rw [alone]; exact List.mem_cons_self)
    subst done
    rcases opens _ _ _ (evaluates_of_ran ran) with ⟨_, _, equal, _⟩ | ⟨items, opened, ends⟩
    · cases equal
    · obtain ⟨-, stillAbsent, tally⟩ := ends
      obtain ⟨rfl, sent, report⟩ := leaves_flushAll line stillAbsent _ _ _ evaluates
      refine .inr ⟨items, config.world.tally sink, opened, tally, sent, ?_⟩
      rw [report]
      rfl

end Running

/-- **A linear flow runs as a pipeline.** Every run of a flow of a source, transforms that
continue on errors, and a sink, without a store, ends. It has then handed the same records
to the sink in the same order as the pipeline over the same components, and both return the
same statistics, or the same error. -/
theorem run_eq_pipeline {registry : Registry} {loading hashOrder : HashOrder} {flow : FlowConfig}
    {ctx : BuildContext} (executor : Executor) {source sink : StepConfig}
    {transforms : List StepConfig} (valid : flow.validate registry loading = .ok ())
    (built : FlowGraph.build registry hashOrder flow ctx = .ok executor.graph)
    (linear : FlowGraph.Linear registry ctx flow source transforms sink) (host : Host)
    (act : String → Record → Except Error TransformOutcome)
    (deterministic : ∀ id history record, host.transform id history record = act id record)
    (file : Entries) (written : String → List Record) :
    Supervised.Halts (S := Engine) walkCall (World.perform host) executor.flushAll
        (executor.run (World.start none file written)) ∧
      (∃ steps result after, Yields host
        (Pipeline.run source.id (transforms.map (·.id)) sink.id) (World.start none file written)
          steps result after) ∧
      ∀ state, executor.RunReaches (World.perform host)
          (executor.run (World.start none file written)) state →
        ((∃ outcome, state.main = .returned outcome) ∨
          ∃ next, executor.RunStep (World.perform host) state next) ∧
        ∀ outcome, state.main = .returned outcome →
          ∀ steps result after, Yields host
              (Pipeline.run source.id (transforms.map (·.id)) sink.id)
                (World.start none file written) steps result after →
            state.spawned.world.sent = after.sent ∧
              (outcome.map fun _ => state.spawned.world.report) = result := by
  have formed := FlowGraph.wellFormed_of_build built
  have line := linear.isLine (FlowConfig.nodup_stepIds valid) built
  refine ⟨Executor.halts_run formed, exists_evaluates (walkless_pipeline _ _ _) _,
    fun state reached => ⟨Executor.returned_or_step reached, ?_⟩⟩
  intro outcome ended steps result after yields
  have run := returns_of_reaches deterministic formed line rfl reached ended
  have piped := leaves_pipeline_run deterministic source.id (transforms.map (·.id)) _ _ _ yields
  obtain ⟨same, sent⟩ := run.unique piped
  exact ⟨sent, same⟩

namespace Sample

/-- A source, a transform that continues on errors, and a sink. -/
def lineFlow : FlowConfig :=
  { FlowGraph.Sample.intake with
    triggers := []
    steps := [FlowGraph.Sample.source "in",
      { FlowGraph.Sample.step "pick" .transform "map" with onError := some .continue },
      FlowGraph.Sample.sink "out"]
    edges := [] }

/-- The graph of the flow. -/
def lineGraph : FlowGraph where
  name := "intake"
  nodes := (((∅ : BTreeMap Node).insert "in"
    ⟨"in", none, .fail, .source, [⟨"pick", none⟩], 0, none⟩).insert "out"
      ⟨"out", none, .fail, .sink, [], 1, none⟩).insert "pick"
        ⟨"pick", none, .continue, .transform, [⟨"out", none⟩], 1, none⟩
  roots := ["in"]

theorem lineFlow_linear : FlowGraph.Linear FlowGraph.Sample.registry FlowGraph.Sample.ctx lineFlow
    (FlowGraph.Sample.source "in")
    [{ FlowGraph.Sample.step "pick" .transform "map" with onError := some .continue }]
    (FlowGraph.Sample.sink "out") where
  steps := rfl
  unwired := rfl
  unguarded step member := by
    rcases List.mem_cons.mp member with rfl | later
    · rfl
    · rcases List.mem_cons.mp later with rfl | last
      · rfl
      · rw [List.mem_singleton.mp last]
        rfl
  isSource := rfl
  isTransform step member := by
    rw [List.mem_singleton.mp member]
    rfl
  continues step member := by
    rw [List.mem_singleton.mp member]
  isSink := rfl

/-- Passes records without a payload and fails on others. -/
def pick (_ : String) (record : Record) : Except Error TransformOutcome :=
  match record.payload with
  | .null => .ok (.pass record)
  | _ => .ok (.fail (.config "payload"))

/-- The run over two records agrees with the pipeline. -/
theorem lineFlow_as_pipeline :
    ∃ steps result after, Yields { host twoRecords with transform := fun id _ => pick id }
        (Pipeline.run "in" ["pick"] "out") storeless steps result after ∧
      ∀ state, (executor lineGraph).RunReaches
          (World.perform { host twoRecords with transform := fun id _ => pick id })
          ((executor lineGraph).run storeless) state →
        ∀ outcome, state.main = .returned outcome →
          state.spawned.world.sent = after.sent ∧
            (outcome.map fun _ => state.spawned.world.report) = result := by
  have agreed := @run_eq_pipeline FlowGraph.Sample.registry FlowGraph.Sample.hashOrder
    FlowGraph.Sample.hashOrder lineFlow FlowGraph.Sample.ctx (executor lineGraph) _ _ _ rfl rfl
    lineFlow_linear { host twoRecords with transform := fun id _ => pick id } pick
    (fun _ _ _ => rfl) (fun _ => none) (fun _ => [])
  obtain ⟨-, ⟨steps, result, after, yields⟩, runs⟩ := agreed
  exact ⟨steps, result, after, yields, fun state reached outcome ended =>
    (runs state reached).2 outcome ended steps result after yields⟩

end Sample

end Sohara
