import Sohara.Async.Surely
import Sohara.Runtime.BatchEmission
import Sohara.Runtime.JoinDrain

/-! # What a run leaves in its batches

The final pass of a run takes every batch once, in the order of the buffer map, and what
it emits may lead to batches it has already taken. A batch is left empty when the last
record that arrives after it has been taken finds it due, and only then.
-/

namespace Sohara

open Async Async.Program

section Pass

variable {executor : Executor} {host : Host} {world after : World} {id : String}

/-- The final pass takes every batch. -/
theorem surely_flushBatches {ids : List String} (member : id ∈ ids) :
    (executor.flushBatches ids).Surely (S := Engine) (· = .takeBatch id) (· ≠ .ok ()) := by
  induction ids with
  | nil => cases member
  | cons head rest ih =>
      by_cases same : head = id
      · exact .inl (congrArg Op.takeBatch same)
      · have others := ih ((List.mem_cons.mp member).resolve_left (Ne.symm same))
        refine .inr fun records => ?_
        cases found : executor.graph.node head with
        | none => cases records <;> exact others
        | some node =>
            cases records with
            | nil => exact others
            | cons record records => exact surely_andThen (fun _ => nofun) others

theorem surely_flushAll (member : id ∈ executor.batches) :
    executor.flushAll.Surely (S := Engine) (· = .takeBatch id) (· ≠ .ok ()) := by
  refine (surely_flushBatches member).bind fun outcome failed => ?_
  cases outcome with
  | error _ => exact nofun
  | ok _ => exact absurd rfl failed

/-- A final pass that succeeds has taken every batch. -/
theorem takes_of_ran {pass : List (Occurrence Engine World)} (member : id ∈ executor.batches)
    (ran : Task.Ran (S := Engine) walkCall (World.perform host) (.run executor.flushAll) world pass
      (.run (.done (.ok ()))) after) : ∃ step ∈ pass, step.op.takes id = true := by
  have sure : (Task.run executor.flushAll).Surely (S := Engine) (· = .takeBatch id) (· ≠ .ok ()) :=
    surely_flushAll member
  rcases sure.ran ran with ⟨step, inside, same⟩ | failed
  · refine ⟨step, inside, ?_⟩
    rw [same]
    exact decide_eq_true rfl
  · exact absurd rfl failed

end Pass

/-- Every batch is empty, every record that was in it or has entered it was taken out with
one batch, and each batch that was taken has been emitted as one record. -/
def BatchesDrained (executor : Executor) (host : Host) (world : World)
    (steps : List (Occurrence Engine World)) (after : World) : Prop :=
  (∀ id ∈ executor.batches, after.collected id = [] ∧
    (batchesOf id (takenBatches host steps)).flatten = world.collected id ++ entries id steps) ∧
  (emissions steps).Perm (payloads (takenBatches host steps))

section Drained

variable {executor : Executor} {host : Host} {world between after : World}
  {running pass : List (Occurrence Engine World)}

/-- What is left to say when every batch has been taken and all that was taken is emitted. -/
theorem drained_iff (before : History (World.perform host) world running between)
    (history : History (World.perform host) between pass after)
    (taken : ∀ id ∈ executor.batches, ∃ step ∈ pass, step.op.takes id = true)
    (emitted : (emissions (running ++ pass)).Perm
      (payloads (takenBatches host (running ++ pass)))) :
    BatchesDrained executor host world (running ++ pass) after ↔
      ∀ id ∈ executor.batches, EndsDue host id pass := by
  constructor
  · rintro ⟨drained, -⟩ id member
    exact (collected_eq_nil_iff history (taken id member)).mp (drained id member).1
  · intro due
    refine ⟨fun id member => ?_, emitted⟩
    have empty := (collected_eq_nil_iff history (taken id member)).mpr (due id member)
    have total := balance (before.append history) id
    rw [empty, List.append_nil] at total
    exact ⟨empty, total.symm⟩

theorem emissions_inTask (index : Nat) :
    emissions (running ++ pass.map (Supervised.inTask index)) = emissions (running ++ pass) := by
  unfold emissions
  rw [List.flatMap_append, List.flatMap_append, List.flatMap_map]
  rfl

theorem takenBatches_inTask (index : Nat) :
    takenBatches host (running ++ pass.map (Supervised.inTask index)) =
      takenBatches host (running ++ pass) := by
  unfold takenBatches
  rw [List.filterMap_append, List.filterMap_append, List.filterMap_map]
  rfl

/-- A final pass of its own. -/
theorem drained_pass_iff (formed : executor.graph.WellFormed)
    (ran : Task.Ran (S := Engine) walkCall (World.perform host) (.run executor.flushAll) world pass
      (.run (.done (.ok ()))) after) :
    BatchesDrained executor host world pass after ↔
      ∀ id ∈ executor.batches, EndsDue host id pass := by
  have obeys : (Task.run executor.flushAll).Obeys (S := Engine) (fun _ _ => True) (fun _ => True)
      executor.Known :=
    Executor.safe_flushAll (Executor.allows_all default).performs (fun _ _ => trivial)
      (fun _ _ => trivial) (fun _ => trivial)
      fun _ _ _ found => Executor.leads_known formed found
  have history := ran.history
    (fun call known => Executor.safe_known formed
      (fun node => (Executor.allows_all node).performs) known) obeys
  have run := Supervised.run_last [] .refl ran
  have emitted := emissions_perm formed
    (List.forall_mem_singleton.mpr (Executor.emits_flushAll formed)) run
      (List.forall_mem_singleton.mpr nofun)
  rw [emissions_inTask, takenBatches_inTask] at emitted
  exact drained_iff .nil history.1 (fun id member => takes_of_ran member ran) emitted

end Drained

/-- **When the batches are drained.** Over an accepted graph, whatever the batches held
before and in whatever order they are visited, a final pass that succeeds leaves every
batch empty and every record emitted in one batch, exactly when the last record to arrive
at each batch after it has been taken finds it due. -/
theorem batches_drained_iff {registry : Registry} {hashOrder : HashOrder} {flow : FlowConfig}
    {ctx : BuildContext} (executor : Executor)
    (accepted : FlowGraph.Accepted registry hashOrder flow ctx executor.graph) (host : Host)
    (world : World) :
    (∀ pass after, Task.Ran (S := Engine) walkCall (World.perform host) (.run executor.flushAll)
        world pass (.run (.done (.ok ()))) after →
      (BatchesDrained executor host world pass after ↔
        ∀ id ∈ executor.batches, EndsDue host id pass)) ∧
    ∀ running pass state, executor.RunPhase host world running pass state →
      state.main = .returned (.ok ()) →
        (BatchesDrained executor host world (running ++ pass) state.spawned.world ↔
          ∀ id ∈ executor.batches, EndsDue host id pass) := by
  have formed := accepted.wellFormed
  refine ⟨fun pass after => drained_pass_iff formed, fun running pass state phase ended => ?_⟩
  obtain ⟨succeeded, run⟩ := phase.succeeded ended
  rw [← Executor.map_run_programs] at run
  have emitted := emissions_perm formed (fun _ => Executor.emits_programs formed) run
      fun task member => by
    rw [succeeded task member]
    exact nofun
  rw [emissions_inTask, takenBatches_inTask] at emitted
  obtain ⟨history, -⟩ := phase.history formed Executor.allows_all (fun _ _ => trivial)
    (fun _ _ => trivial)
    fun _ => trivial
  obtain ⟨between, before, last⟩ := history.split
  refine drained_iff before last (fun id member => ?_) emitted
  cases phase with
  | joining => cases ended
  | failed => cases ended
  | finishing => cases ended
  | returned _ _ _ ran =>
      cases ended
      exact takes_of_ran member ran

namespace Sample

/-- Components that also provide a batch step. -/
def batchRegistry : Registry :=
  { FlowGraph.Sample.registry with
    build := fun kind type config ctx =>
      match kind, type with
      | .transform, "batch" =>
          FlowGraph.Sample.requiring ["size"] (.control (.batch (some 10) none)) config
      | _, _ => FlowGraph.Sample.registry.build kind type config ctx }

/-- A step that makes batches of ten. -/
def tens (id : String) : StepConfig :=
  { FlowGraph.Sample.step id .transform "batch" with extra := [("size", .number (.posInt 10))] }

/-- Two batches one after the other. -/
def batchFlow : FlowConfig :=
  { FlowGraph.Sample.intake with
    triggers := []
    steps := [FlowGraph.Sample.source "in", tens "b", tens "a",
      FlowGraph.Sample.sink "out"]
    edges := [] }

/-- The graph of the two batches. -/
def batchGraph : FlowGraph where
  name := "intake"
  nodes := ((((∅ : BTreeMap Node).insert "a"
    ⟨"a", none, .fail, .control (.batch (some 10) none), [⟨"out", none⟩], 1, none⟩).insert "b"
      ⟨"b", none, .fail, .control (.batch (some 10) none), [⟨"a", none⟩], 1, none⟩).insert "in"
        ⟨"in", none, .fail, .source, [⟨"b", none⟩], 0, none⟩).insert "out"
          ⟨"out", none, .fail, .sink, [], 1, none⟩
  roots := ["in"]

theorem batchFlow_built : FlowGraph.build batchRegistry FlowGraph.Sample.hashOrder batchFlow
    FlowGraph.Sample.ctx = .ok batchGraph := rfl

theorem batchGraph_accepted : FlowGraph.Accepted batchRegistry FlowGraph.Sample.hashOrder batchFlow
    FlowGraph.Sample.ctx (executor batchGraph).graph := .inl batchFlow_built

/-- The run of one record, and its final pass. -/
def batching : (List (Occurrence Engine World) × Config Engine World) ×
    (List (Occurrence Engine World) × Config Engine World) :=
  (Supervised.playRunning (S := Engine) walkCall (World.perform (host single)) storeless
      (executor batchGraph).sourceTasks (List.replicate 20 0),
    Supervised.playPass (S := Engine) walkCall (World.perform (host single))
      (executor batchGraph).flushAll storeless (executor batchGraph).sourceTasks
      (List.replicate 20 0) (List.replicate 20 0))

theorem batching_phase : (executor batchGraph).RunPhase (host single) storeless batching.1.1
    (batching.2.1.map (Supervised.inTask 0))
    ⟨⟨batching.2.2.world, batching.1.2.tasks⟩, .returned (.ok ())⟩ :=
  Supervised.phase_of_play rfl rfl

/-- The record the later batch has made arrives at the earlier one when that has been taken. -/
theorem batching_held : (batching.2.2.world.collected "a").length = 1 := rfl

theorem batching_not_drained : ¬ BatchesDrained (executor batchGraph) (host single) storeless
    (batching.1.1 ++ batching.2.1.map (Supervised.inTask 0)) batching.2.2.world := by
  intro drained
  have listed : "a" ∈ (executor batchGraph).batches := by decide
  have held := batching_held
  rw [(drained.1 "a" listed).1] at held
  cases held

/-- A run has returned without an error, and a record is left in the earlier batch. -/
theorem batching_strands :
    FlowGraph.build batchRegistry FlowGraph.Sample.hashOrder batchFlow FlowGraph.Sample.ctx =
        .ok batchGraph ∧
      ∃ running pass state, (executor batchGraph).RunPhase (host single) storeless running pass
          state ∧
        state.main = .returned (.ok ()) ∧ (state.spawned.world.collected "a").length = 1 ∧
        ¬ BatchesDrained (executor batchGraph) (host single) storeless (running ++ pass)
          state.spawned.world :=
  ⟨rfl, _, _, _, batching_phase, rfl, batching_held, batching_not_drained⟩

/-- The record that arrives at the earlier batch does not find it due. -/
theorem batching_ends_early : ¬ ∀ id ∈ (executor batchGraph).batches,
    EndsDue (host single) id (batching.2.1.map (Supervised.inTask 0)) := by
  intro due
  exact batching_not_drained (((batches_drained_iff (executor batchGraph) batchGraph_accepted
    (host single) storeless).2 _ _ _ batching_phase rfl).mpr due)

end Sample

end Sohara
