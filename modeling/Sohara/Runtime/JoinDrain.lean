import Sohara.Runtime.JoinLedger
import Sohara.Runtime.RunMeaning

/-! # What a run leaves in its joins

The final pass of a run empties the batches but not the joins. The joins are left empty
when the arrivals fill complete groups, and only then.
-/

namespace Sohara

open Async Async.Program Gather

/-- No join holds a record, and every record that has arrived is in one released group. -/
def JoinsDrained (steps : List (Occurrence Engine World)) (after : World) : Prop :=
  ∀ name correlation, after.held name correlation = [] ∧
    (joinLedger id name correlation steps).released.flatten = arrivals id name correlation steps

section Drained

variable {registry : Registry} {hashOrder : HashOrder} {flow : FlowConfig} {ctx : BuildContext}
  {host : Host} {world : World}

/-- **When the joins are drained.** A run over an accepted graph, returned or not, has no
record left in a join exactly when the number of arrivals of every correlation at every
join is a multiple of the number the join waits for. -/
theorem joins_drained_iff (executor : Executor)
    (accepted : FlowGraph.Accepted registry hashOrder flow ctx executor.graph)
    (fresh : ∀ name, world.joins name = []) {running pass : List (Occurrence Engine World)}
    {state : Supervised Engine World} (phase : executor.RunPhase host world running pass state) :
    JoinsDrained (running ++ pass) state.spawned.world ↔
      ∀ name correlation, executor.awaited name ∣
        (arrivals id name correlation (running ++ pass)).length := by
  obtain ⟨history, joins⟩ :=
    phase.history accepted.wellFormed executor.allows_joins executor.takes_joins
      executor.flushes_joins executor.emits_joins
  refine forall_congr' fun name => forall_congr' fun correlation => ?_
  have empty : world.held name correlation = [] := by
    unfold World.held
    rw [fresh name]
    rfl
  have identity : (running ++ pass).map id = running ++ pass := List.map_id _
  rw [← identity] at history joins
  obtain ⟨same, holds⟩ := joinLedger_eq_gather history joins empty
  have total :=
    @flatten_gather _ (executor.awaited name) (arrivals id name correlation (running ++ pass))
  rw [← pending_eq_nil_iff (executor.awaited_pos name), ← same, holds]
  rw [← same] at total
  constructor
  · rintro ⟨none_, -⟩
    exact List.map_eq_nil_iff.mp none_
  · intro none_
    rw [none_, List.append_nil] at total
    exact ⟨List.map_eq_nil_iff.mpr none_, total⟩

end Drained

namespace Sample

/-- Components that also provide a parallel step and a join. -/
def forkRegistry : Registry :=
  { FlowGraph.Sample.registry with
    build := fun kind type config ctx =>
      match kind, type with
      | .control, "parallel" =>
          FlowGraph.Sample.requiring ["branches"] (.control (.parallel ["a", "b"])) config
      | .control, "join" => .ok (.control (.join .all 0))
      | _, _ => FlowGraph.Sample.registry.build kind type config ctx }

/-- Two transforms between a parallel step and a join. -/
def forkFlow : FlowConfig :=
  { FlowGraph.Sample.intake with
    triggers := []
    steps := [FlowGraph.Sample.source "in",
      { FlowGraph.Sample.step "fork" .control "parallel" with
        extra := [("branches", .array [.string "a", .string "b"])] },
      FlowGraph.Sample.step "a" .transform "map", FlowGraph.Sample.step "b" .transform "map",
      FlowGraph.Sample.step "meet" .control "join", FlowGraph.Sample.sink "out"]
    edges := [.pair "in" "fork", .pair "a" "meet", .pair "b" "meet", .pair "meet" "out"] }

/-- The graph of the two transforms. -/
def forkGraph : FlowGraph where
  name := "intake"
  nodes := ((((((∅ : BTreeMap Node).insert "a"
    ⟨"a", none, .fail, .transform, [⟨"meet", none⟩], 1, none⟩).insert "b"
      ⟨"b", none, .fail, .transform, [⟨"meet", none⟩], 1, none⟩).insert "fork"
        ⟨"fork", none, .fail, .control (.parallel ["a", "b"]), [⟨"a", none⟩, ⟨"b", none⟩], 1,
          none⟩).insert "in"
          ⟨"in", none, .fail, .source, [⟨"fork", none⟩], 0, none⟩).insert "meet"
            ⟨"meet", none, .fail, .control (.join .all 0), [⟨"out", none⟩], 2, none⟩).insert "out"
              ⟨"out", none, .fail, .sink, [], 1, none⟩
  roots := ["in"]

theorem forkFlow_built : FlowGraph.build forkRegistry FlowGraph.Sample.hashOrder forkFlow
    FlowGraph.Sample.ctx = .ok forkGraph := rfl

theorem forkGraph_accepted : FlowGraph.Accepted forkRegistry FlowGraph.Sample.hashOrder forkFlow
    FlowGraph.Sample.ctx (executor forkGraph).graph := .inl forkFlow_built

/-- One record from the source. -/
def single (_ : String) : Except Error (List Item) := .ok [.ok (record (.object []))]

/-- A process without a store. -/
def storeless : World := .start none (fun _ => none) fun _ => []

/-- The first branch filters its record. -/
def filtering : Host :=
  { host single with
    transform := fun node _ record => if node = "a" then .ok .filtered else .ok (.pass record) }

/-- The run whose first branch filters, and its final pass. -/
def filtered : (List (Occurrence Engine World) × Config Engine World) ×
    (List (Occurrence Engine World) × Config Engine World) :=
  (Supervised.playRunning (S := Engine) walkCall (World.perform filtering) storeless
      (executor forkGraph).sourceTasks (List.replicate 40 0),
    Supervised.playPass (S := Engine) walkCall (World.perform filtering)
      (executor forkGraph).flushAll storeless (executor forkGraph).sourceTasks
      (List.replicate 40 0) (List.replicate 20 0))

theorem filtered_phase : (executor forkGraph).RunPhase filtering storeless filtered.1.1
    (filtered.2.1.map (Supervised.inTask 0))
    ⟨⟨filtered.2.2.world, filtered.1.2.tasks⟩, .returned (.ok ())⟩ :=
  Supervised.phase_of_play rfl rfl

/-- A run has returned without an error, and its join holds the record of the second branch. -/
theorem filtered_strands :
    FlowGraph.build forkRegistry FlowGraph.Sample.hashOrder forkFlow FlowGraph.Sample.ctx =
        .ok forkGraph ∧
      ∃ running pass state, (executor forkGraph).RunPhase filtering storeless running pass state ∧
        state.main = .returned (.ok ()) ∧
        (state.spawned.world.held "meet" "id").map (·.payload) = [.object []] ∧
        (arrivals id "meet" "id" (running ++ pass)).length = 1 ∧
        (joinLedger id "meet" "id" (running ++ pass)).released = [] ∧
        [Counter.errors, .waiting, .duplicates].map state.spawned.world.counters = [0, 0, 0] :=
  ⟨rfl, _, _, _, filtered_phase, rfl, rfl, rfl, rfl, rfl⟩

/-- The one arrival of the filtered run is no complete group. -/
theorem filtered_incomplete : ¬ ∀ name correlation, (executor forkGraph).awaited name ∣
    (arrivals id name correlation
      (filtered.1.1 ++ filtered.2.1.map (Supervised.inTask 0))).length := by
  intro complete
  have drained := (joins_drained_iff (executor forkGraph) forkGraph_accepted (fun _ => rfl)
    filtered_phase).mpr complete
  have held : (filtered.2.2.world.held "meet" "id").length = 1 := rfl
  have none_ : filtered.2.2.world.held "meet" "id" = [] := (drained "meet" "id").1
  rw [none_] at held
  cases held

end Sample

end Sohara
