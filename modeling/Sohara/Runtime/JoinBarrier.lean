import Sohara.Runtime.JoinDrain

/-! # Whether a join is a barrier

A join in mode `all` counts the records of a group, not the routes they have come by. Its
release means that every route has delivered exactly when no route has delivered twice.
-/

namespace Sohara

open Async Async.Program Gather

namespace FlowGraph

/-- A visit of a node may have come by a route: the route leads to the node, and it leaves
the node whose walk has led to the visit. -/
def CameBy (graph : FlowGraph) (name : String) (visit : Visit Engine) (route : String × Nat) :
    Prop :=
  route ∈ graph.routesInto name ∧
    ∀ hop parent rest, visit.hops = hop :: parent :: rest → route.1 = parent.call.node

end FlowGraph

namespace Executor

variable {executor : Executor}

/-- The node behind the settings of a join. -/
theorem joinBuffer_eq_some {name : String} {mode : JoinMode} {expected n : Nat}
    (buffer : executor.joinBuffer name = some (mode, expected, n)) :
    ∃ node, executor.graph.node name = some node ∧ node.step = .control (.join mode n) ∧
      node.incoming = expected := by
  unfold joinBuffer at buffer
  split at buffer
  · next found =>
      cases buffer
      exact ⟨_, found, rfl, rfl⟩
  · cases buffer

end Executor

/-- The arrivals a release merges: those since the last release, and the last one. -/
def mergedArrivals (name correlation : String) (before : List (Occurrence (Traced Engine) World))
    (step : Occurrence (Traced Engine) World) : List (Occurrence (Traced Engine) World) :=
  (joinLedger Occurrence.erase name correlation before).pending ++ [step]

section Released

variable {registry : Registry} {hashOrder : HashOrder} {flow : FlowConfig} {ctx : BuildContext}
  {executor : Executor} {host : Host} {world : World}
  {steps before after : List (Occurrence (Traced Engine) World)}
  {config : Config (Traced Engine) World} {step : Occurrence (Traced Engine) World}
  {name correlation : String} {group : List Record}

/-- **What a release merges**: the records of as many arrivals as are awaited. -/
theorem merged_of_released (formed : executor.graph.WellFormed)
    (fresh : ∀ name, world.joins name = [])
    (run : executor.TracedRun host world steps config) (split : steps = before ++ step :: after)
    (here : step.op.1.arrivesAt name correlation = true)
    (released : step.op.1.releasedIn step.world = some group) :
    (mergedArrivals name correlation before step).length = executor.awaited name ∧
      group = recordsOf Occurrence.erase (mergedArrivals name correlation before step) := by
  obtain ⟨history, joins⟩ := run.erase.history formed executor.allows_joins executor.takes_joins
    executor.flushes_joins executor.emits_joins
  subst split
  rw [List.map_append, List.map_cons] at history joins
  obtain ⟨earlier, -⟩ := history.at
  have empty : world.held name correlation = [] := by
    unfold World.held
    rw [fresh name]
    rfl
  obtain ⟨same, holds⟩ := joinLedger_eq_gather earlier
    (fun other member => joins other (List.mem_append_left _ member)) empty
  have settings : executor.JoinsAs step.op.1 :=
    joins step.erase (List.mem_append_right _ List.mem_cons_self)
  have short := (gather_sizes (executor.awaited_pos name)
    (arrivals Occurrence.erase name correlation before)).2
  have response :=
    released.symm.trans (@arrival_of_held _ Occurrence.erase name correlation executor
    host step.world _ step step.op.1 rfl here settings holds).1
  rw [← same] at short
  unfold mergedArrivals
  split at response
  · next due =>
      rw [List.length_append, List.length_singleton] at due ⊢
      exact ⟨by omega, Option.some.inj response⟩
  · cases response

/-- **When a join is a barrier.** Whenever a join in mode `all` releases a group, however
its arrivals are attributed to the routes they may have come by: every route into the join
has delivered a record of that correlation since the last release exactly when no route
has delivered two of them. -/
theorem barrier_iff (accepted : FlowGraph.Accepted registry hashOrder flow ctx executor.graph)
    (fresh : ∀ name, world.joins name = [])
    (run : executor.TracedRun host world steps config) (split : steps = before ++ step :: after)
    {expected threshold : Nat} {record : Record}
    (arrives : step.op.1 = .joinArrive name correlation .all expected threshold record)
    (released : step.op.1.releasedIn step.world = some group) (via : Visit Engine → String × Nat)
    (cameBy : ∀ arrival ∈ mergedArrivals name correlation before step,
      executor.graph.CameBy name arrival.op.2 (via arrival.op.2)) :
    (∀ route ∈ executor.graph.routesInto name,
        ∃ arrival ∈ mergedArrivals name correlation before step, via arrival.op.2 = route) ↔
      ((mergedArrivals name correlation before step).map fun arrival =>
        via arrival.op.2).Nodup := by
  have here : step.op.1.arrivesAt name correlation = true := by
    rw [arrives]
    exact decide_eq_true ⟨rfl, rfl⟩
  have length := (merged_of_released accepted.wellFormed fresh run split here released).1
  obtain ⟨-, joins⟩ :=
    run.erase.history accepted.wellFormed executor.allows_joins executor.takes_joins
      executor.flushes_joins executor.emits_joins
  have settings : executor.JoinsAs step.op.1 := by
    refine joins step.erase (List.mem_map_of_mem ?_)
    rw [split]
    exact List.mem_append_right _ List.mem_cons_self
  obtain ⟨incoming, n, buffer, -, -⟩ := settings _ _ _ _ _ _ arrives
  obtain ⟨node, found, -, rfl⟩ := Executor.joinBuffer_eq_some buffer
  have routes := accepted.incoming found
  have last : via step.op.2 ∈ executor.graph.routesInto name :=
    (cameBy step (List.mem_append_right _ List.mem_cons_self)).1
  have counted : executor.awaited name = (executor.graph.routesInto name).length := by
    have positive := List.length_pos_of_mem last
    unfold Executor.awaited
    rw [buffer, ← routes]
    show max node.incoming 1 = node.incoming
    omega
  have labelled : ∀ label ∈ (mergedArrivals name correlation before step).map
      fun arrival => via arrival.op.2, label ∈ executor.graph.routesInto name := by
    intro label member
    obtain ⟨arrival, inside, rfl⟩ := List.mem_map.mp member
    exact (cameBy arrival inside).1
  rw [← covers_iff_nodup (executor.graph.nodup_routesInto name) labelled
    (by rw [List.length_map, length, counted])]
  exact forall₂_congr fun route _ => List.mem_map.symm

end Released

namespace Sample

/-- The first branch makes two records of one. -/
def expanding : Host :=
  { host single with
    transform := fun node _ record =>
      if node = "a" then .ok (.expand [record, record]) else .ok (.pass record) }

/-- The run whose first branch expands. -/
def expanded : List (Occurrence (Traced Engine) World) × Config (Traced Engine) World :=
  Config.play (S := Traced Engine) (tracedBody walkCall)
    (fun _ => tracedHandle (World.perform expanding))
    ⟨storeless, spawnedAll (executor forkGraph).programs⟩ (List.replicate 40 0)

/-- The only route of the node a visit comes from. -/
def onlyRoute (visit : Visit Engine) : String × Nat :=
  match visit.hops with
  | _ :: parent :: _ => (parent.call.node, 0)
  | _ => ("", 0)

theorem expanded_run : (executor forkGraph).TracedRun expanding storeless expanded.1 expanded.2 :=
  Config.run_play _ _

theorem onlyRoute_fst {visit : Visit Engine} {hop parent : Hop Engine} {rest : List (Hop Engine)}
    (hops : visit.hops = hop :: parent :: rest) : (onlyRoute visit).1 = parent.call.node := by
  unfold onlyRoute
  rw [hops]

/-- The release of the expanding run, with what it merges. -/
theorem expanded_release : ∃ step after record, expanded.1 = expanded.1.take 5 ++ step :: after ∧
    step.op.1 = .joinArrive "meet" "id" .all 2 1 record ∧
    (∃ group, step.op.1.releasedIn step.world = some group) ∧
    ((mergedArrivals "meet" "id" (expanded.1.take 5) step).map fun arrival =>
      onlyRoute arrival.op.2) = [("a", 0), ("a", 0)] ∧
    step.world.transformed.map Prod.fst = ["a"] :=
  ⟨_, _, _, rfl, rfl, ⟨_, rfl⟩, rfl, rfl⟩

theorem cameBy_onlyRoute {step : Occurrence (Traced Engine) World}
    (merged : ((mergedArrivals "meet" "id" (expanded.1.take 5) step).map fun arrival =>
      onlyRoute arrival.op.2) = [("a", 0), ("a", 0)]) :
    ∀ arrival ∈ mergedArrivals "meet" "id" (expanded.1.take 5) step,
      onlyRoute arrival.op.2 = ("a", 0) ∧
        forkGraph.CameBy "meet" arrival.op.2 (onlyRoute arrival.op.2) := by
  intro arrival member
  have label : onlyRoute arrival.op.2 ∈ [("a", 0), ("a", 0)] :=
    merged ▸ List.mem_map_of_mem (f := fun arrival => onlyRoute arrival.op.2) member
  have same : onlyRoute arrival.op.2 = ("a", 0) := by
    rcases List.mem_cons.mp label with same | rest
    · exact same
    · exact List.mem_singleton.mp rest
  refine ⟨same, same ▸ (by decide), fun hop parent rest => onlyRoute_fst⟩

/-- The join has merged two records of the first branch before the second branch has run. -/
theorem expanded_overtakes :
    FlowGraph.build forkRegistry FlowGraph.Sample.hashOrder forkFlow FlowGraph.Sample.ctx =
        .ok forkGraph ∧
      ∃ steps config before step after record,
        (executor forkGraph).TracedRun expanding storeless steps config ∧
        steps = before ++ step :: after ∧ step.op.1 = .joinArrive "meet" "id" .all 2 1 record ∧
        (∃ group, step.op.1.releasedIn step.world = some group) ∧
        (∀ arrival ∈ mergedArrivals "meet" "id" before step,
          forkGraph.CameBy "meet" arrival.op.2 (onlyRoute arrival.op.2)) ∧
        ("b", 0) ∈ forkGraph.routesInto "meet" ∧
        (¬ ∃ arrival ∈ mergedArrivals "meet" "id" before step,
          onlyRoute arrival.op.2 = ("b", 0)) ∧
        step.world.transformed.map Prod.fst = ["a"] := by
  obtain ⟨step, after, record, split, arrives, released, merged, transformed⟩ := expanded_release
  have came := cameBy_onlyRoute merged
  refine ⟨rfl, expanded.1, expanded.2, _, step, after, record, expanded_run, split, arrives,
    released, fun arrival member => (came arrival member).2, by decide, ?_, transformed⟩
  rintro ⟨arrival, member, other⟩
  exact absurd ((came arrival member).1.symm.trans other) (by decide)

/-- The first branch has delivered two records of the group, so the release is early. -/
theorem expanded_uncovered : ∃ step, ¬ ∀ route ∈ forkGraph.routesInto "meet",
    ∃ arrival ∈ mergedArrivals "meet" "id" (expanded.1.take 5) step,
      onlyRoute arrival.op.2 = route := by
  obtain ⟨step, after, record, split, arrives, ⟨group, released⟩, merged, -⟩ := expanded_release
  refine ⟨step, fun covers => ?_⟩
  have nodup := (barrier_iff forkGraph_accepted (fun _ => rfl) expanded_run split arrives released
    onlyRoute fun arrival member => (cameBy_onlyRoute merged arrival member).2).mp covers
  rw [merged] at nodup
  exact absurd nodup (by decide)

end Sample

end Sohara
