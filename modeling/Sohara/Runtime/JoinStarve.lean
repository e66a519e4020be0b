import Mathlib.Data.List.ProdSigma
import Sohara.Runtime.JoinBarrier

/-! # How often a join releases

A join in mode `all` waits for as many records as routes lead to it. When the branches of
a parallel step deliver one record each, it is the number of branches that arrives, and
the two numbers need not agree.
-/

namespace Sohara

open Async Async.Program Gather

namespace Executor

variable (executor : Executor)

/-- A visit of a parallel step with the given branches. -/
def IsFork (branches : List String) (fork : Visit Engine) : Prop :=
  ∃ hop rest node, fork.hops = hop :: rest ∧ executor.graph.node hop.call.node = some node ∧
    node.step = .control (.parallel branches)

end Executor

/-- A visit a branch of a parallel step has led to. -/
def BehindBranch (fork : Visit Engine) (position : Nat) (visit : Visit Engine) : Prop :=
  ∃ call, (fork.enter ⟨0, position, call⟩).Below visit

/-- Every branch of every execution has led to exactly one of the visits. -/
def OnceFromEach (executor : Executor) (forks : List (Visit Engine)) (branches : List String)
    (visits : List (Visit Engine)) : Prop :=
  (∀ fork ∈ forks, executor.IsFork branches fork) ∧
    ∃ via : Visit Engine → Visit Engine × Nat,
      (∀ visit ∈ visits, BehindBranch (via visit).1 (via visit).2 visit) ∧
        (visits.map via).Perm (forks ×ˢ List.range branches.length)

theorem OnceFromEach.length_eq {executor : Executor} {forks visits : List (Visit Engine)}
    {branches : List String} (once : OnceFromEach executor forks branches visits) :
    visits.length = branches.length * forks.length := by
  obtain ⟨-, via, -, perm⟩ := once
  have length := perm.length_eq
  rw [List.length_map, List.length_product, List.length_range] at length
  rw [length, Nat.mul_comm]

section Released

variable {registry : Registry} {hashOrder : HashOrder} {flow : FlowConfig} {ctx : BuildContext}
  {executor : Executor} {host : Host} {world : World}
  {steps : List (Occurrence (Traced Engine) World)} {config : Config (Traced Engine) World}
  {name correlation : String}

/-- **When a join releases once per execution.** The executions of a parallel step deliver
under a correlation, each branch one record. The join has then released one record for
each of them exactly when the number of routes into it fits the number of branches; for a
single execution, when it is at most that number and more than half of it. -/
theorem releases_once_iff
    (accepted : FlowGraph.Accepted registry hashOrder flow ctx executor.graph)
    (fresh : ∀ name, world.joins name = [])
    (run : executor.TracedRun host world steps config) {node : Node} {n : Nat}
    (found : executor.graph.node name = some node)
    (isJoin : node.step = .control (.join .all n)) {branches : List String}
    {forks : List (Visit Engine)} (once : OnceFromEach executor forks branches
      ((arrivals Occurrence.erase name correlation steps).map fun arrival => arrival.op.2)) :
    (joinLedger Occurrence.erase name correlation steps).released.length = forks.length ↔
      max (executor.graph.routesInto name).length 1 * forks.length ≤
          branches.length * forks.length ∧
        branches.length * forks.length <
          max (executor.graph.routesInto name).length 1 * (forks.length + 1) := by
  obtain ⟨history, joins⟩ :=
    run.erase.history accepted.wellFormed executor.allows_joins executor.takes_joins
      executor.flushes_joins executor.emits_joins
  have empty : world.held name correlation = [] := by
    unfold World.held
    rw [fresh name]
    rfl
  have waits : executor.awaited name = max (executor.graph.routesInto name).length 1 := by
    rw [← accepted.incoming found]
    unfold Executor.awaited Executor.joinBuffer
    rw [found]
    obtain ⟨_, _, _, step, _, _, _⟩ := node
    cases isJoin
    rfl
  have arrived := once.length_eq
  rw [List.length_map] at arrived
  rw [(joinLedger_eq_gather history joins empty).1, length_released (executor.awaited_pos name),
    arrived, waits]
  generalize max (executor.graph.routesInto name).length 1 = waited at waits ⊢
  have positive : 0 < waited := waits ▸ executor.awaited_pos name
  rw [Nat.div_eq_iff positive, Nat.mul_comm forks.length waited, Nat.mul_succ]
  refine and_congr_right fun _ => ?_
  omega

end Released

namespace Sample

/-- Components that also provide a parallel step, a switch and a join. -/
def armsRegistry : Registry :=
  { FlowGraph.Sample.registry with
    build := fun kind type config ctx =>
      match kind, type with
      | .control, "parallel" =>
          FlowGraph.Sample.requiring ["branches"] (.control (.parallel ["b", "pick"])) config
      | .control, "switch" => FlowGraph.Sample.requiring ["cases", "default"]
          (.control (.switch [⟨.lit (.bool true), "x"⟩] "y")) config
      | .control, "join" => .ok (.control (.join .all 0))
      | _, _ => FlowGraph.Sample.registry.build kind type config ctx }

/-- A branch with a switch whose arms meet at the join. -/
def armsFlow : FlowConfig :=
  { FlowGraph.Sample.intake with
    triggers := []
    steps := [FlowGraph.Sample.source "in",
      { FlowGraph.Sample.step "fork" .control "parallel" with
        extra := [("branches", .array [.string "b", .string "pick"])] },
      FlowGraph.Sample.step "b" .transform "map",
      { FlowGraph.Sample.step "pick" .control "switch" with
        extra := [("cases", .array [.object [("when", .string "true"), ("to", .string "x")]]),
          ("default", .string "y")] },
      FlowGraph.Sample.step "x" .transform "map", FlowGraph.Sample.step "y" .transform "map",
      FlowGraph.Sample.step "meet" .control "join", FlowGraph.Sample.sink "out"]
    edges := [.pair "in" "fork", .pair "b" "meet", .pair "x" "meet", .pair "y" "meet",
      .pair "meet" "out"] }

/-- The graph of the switch. -/
def armsGraph : FlowGraph where
  name := "intake"
  nodes := ((((((((∅ : BTreeMap Node).insert "b"
    ⟨"b", none, .fail, .transform, [⟨"meet", none⟩], 1, none⟩).insert "fork"
      ⟨"fork", none, .fail, .control (.parallel ["b", "pick"]), [⟨"b", none⟩, ⟨"pick", none⟩], 1,
        none⟩).insert "in"
        ⟨"in", none, .fail, .source, [⟨"fork", none⟩], 0, none⟩).insert "meet"
          ⟨"meet", none, .fail, .control (.join .all 0), [⟨"out", none⟩], 3, none⟩).insert "out"
            ⟨"out", none, .fail, .sink, [], 1, none⟩).insert "pick"
              ⟨"pick", none, .fail, .control (.switch [⟨.lit (.bool true), "x"⟩] "y"),
                [⟨"x", none⟩, ⟨"y", none⟩], 1, none⟩).insert "x"
                ⟨"x", none, .fail, .transform, [⟨"meet", none⟩], 1, none⟩).insert "y"
                  ⟨"y", none, .fail, .transform, [⟨"meet", none⟩], 1, none⟩
  roots := ["in"]

theorem armsGraph_accepted : FlowGraph.Accepted armsRegistry FlowGraph.Sample.hashOrder armsFlow
    FlowGraph.Sample.ctx (executor armsGraph).graph := .inl rfl

/-- The run over the switch. -/
def switched : List (Occurrence (Traced Engine) World) × Config (Traced Engine) World :=
  Config.play (S := Traced Engine) (tracedBody walkCall)
    (fun _ => tracedHandle (World.perform (host single)))
    ⟨storeless, spawnedAll (executor armsGraph).programs⟩ (List.replicate 60 0)

theorem switched_run :
    (executor armsGraph).TracedRun (host single) storeless switched.1 switched.2 :=
  Config.run_play _ _

/-- The record from the source. -/
def entering : Record := record (.object [])

/-- The visit of the parallel step. -/
def forkVisit : Visit Engine where
  origin := 0
  hops := [⟨0, 0, ⟨executor armsGraph, entering, "fork"⟩⟩,
    ⟨0, 0, ⟨executor armsGraph, entering, "in"⟩⟩]

/-- The record in both branches. -/
def branchedRecord : Record := { entering with metadata := [("correlation", "id")] }

/-- A walk of a branch. -/
def armsCall (node : String) : Call := ⟨executor armsGraph, branchedRecord, node⟩

/-- One record has arrived from each branch. -/
theorem switched_visits :
    (arrivals Occurrence.erase "meet" "id" switched.1).map (fun arrival => arrival.op.2) =
      [((forkVisit.enter ⟨0, 0, armsCall "b"⟩).enter ⟨0, 0, armsCall "meet"⟩),
        (((forkVisit.enter ⟨0, 1, armsCall "pick"⟩).enter ⟨0, 0, armsCall "x"⟩).enter
          ⟨0, 0, armsCall "meet"⟩)] := rfl

theorem switched_once : OnceFromEach (executor armsGraph) [forkVisit] ["b", "pick"]
    ((arrivals Occurrence.erase "meet" "id" switched.1).map fun arrival => arrival.op.2) := by
  have isFork : (executor armsGraph).IsFork ["b", "pick"] forkVisit := ⟨_, _, _, rfl, rfl, rfl⟩
  rw [switched_visits]
  refine ⟨fun fork member => List.mem_singleton.mp member ▸ isFork,
    fun visit => (forkVisit, visit.hops.length - 4), fun visit member => ?_, ?_⟩
  · rcases List.mem_cons.mp member with rfl | rest
    · exact ⟨armsCall "b", Visit.below_enter _ _⟩
    · obtain rfl := List.mem_singleton.mp rest
      exact ⟨armsCall "pick", (Visit.below_enter _ _).trans (Visit.below_enter _ _)⟩
  · exact List.Perm.refl _

/-- Each branch has delivered one record, the source is done, and the join has released
nothing: it waits for three. -/
theorem switched_starves :
    FlowGraph.build armsRegistry FlowGraph.Sample.hashOrder armsFlow FlowGraph.Sample.ctx =
        .ok armsGraph ∧
      ∃ steps config, (executor armsGraph).TracedRun (host single) storeless steps config ∧
        config.tasks.map Task.outcome? = [some (.ok ()), none] ∧
        OnceFromEach (executor armsGraph) [forkVisit] ["b", "pick"]
          ((arrivals Occurrence.erase "meet" "id" steps).map fun arrival => arrival.op.2) ∧
        (joinLedger Occurrence.erase "meet" "id" steps).released.length = 0 ∧
        (config.world.held "meet" "id").length = 2 :=
  ⟨rfl, switched.1, switched.2, switched_run, rfl, switched_once, rfl, rfl⟩

/-- Three routes lead to the join, and two branches to the parallel step. -/
theorem switched_misfit : ¬ (joinLedger Occurrence.erase "meet" "id" switched.1).released.length =
    [forkVisit].length := by
  intro releases
  have fits := (releases_once_iff armsGraph_accepted (fun _ => rfl) switched_run rfl rfl
    switched_once).mp releases
  exact absurd fits.1 (by decide)

end Sample

end Sohara
