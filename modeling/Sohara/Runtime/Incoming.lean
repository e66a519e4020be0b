import Mathlib.Algebra.GroupWithZero.Nat
import Mathlib.Algebra.BigOperators.Group.Finset.Basic
import Sohara.Runtime.WellFormed

/-! # The routes into a node

A node's incoming count is the number of routes of the accepted graph that lead to it.
Each such route is named by the node it leaves and its position there.
-/

namespace Sohara

namespace FlowGraph

/-- The routes into a node: the node each one leaves, and its position there. -/
def routesInto (graph : FlowGraph) (id : String) : List (String × Nat) :=
  graph.nodes.toList.flatMap fun entry =>
    (entry.2.routes.zipIdx.filter fun route => route.1.to_ = id).map fun route =>
      (entry.1, route.2)

/-- The routes into a node are distinct. -/
theorem nodup_routesInto (graph : FlowGraph) (id : String) : (graph.routesInto id).Nodup := by
  apply List.nodup_flatMap.mpr
  constructor
  · rintro ⟨source, node⟩ -
    apply List.Nodup.map_on
    · rintro ⟨first, position⟩ firstIn ⟨second, other⟩ secondIn same
      obtain rfl : position = other := congrArg Prod.snd same
      have left := List.mem_zipIdx_iff_getElem?.mp (List.mem_filter.mp firstIn).1
      have right := List.mem_zipIdx_iff_getElem?.mp (List.mem_filter.mp secondIn).1
      cases left.symm.trans right
      rfl
    · apply List.Nodup.filter
      apply List.Nodup.of_map Prod.snd
      rw [List.zipIdx_map_snd]
      exact List.nodup_range'
  · have distinct : graph.nodes.toList.Pairwise fun left right => left.1 ≠ right.1 :=
      List.pairwise_map.mp (BTreeMap.nodup_toList graph.nodes)
    refine distinct.imp fun {left right} different => ?_
    rintro route inLeft inRight
    obtain ⟨_, -, rfl⟩ := List.mem_map.mp inLeft
    obtain ⟨_, -, same⟩ := List.mem_map.mp inRight
    exact different (congrArg Prod.fst same).symm

/-- Summing over two lists that agree where there is something to sum. -/
theorem sum_map_eq_of_support {weight : String → Nat} {left right : List String}
    (leftNodup : left.Nodup) (rightNodup : right.Nodup)
    (same : ∀ id, weight id ≠ 0 → (id ∈ left ↔ id ∈ right)) :
    (left.map weight).sum = (right.map weight).sum := by
  rw [← List.sum_toFinset weight leftNodup, ← List.sum_toFinset weight rightNodup,
    ← Finset.sum_filter_ne_zero, ← Finset.sum_filter_ne_zero (s := right.toFinset)]
  congr 1
  ext id
  simp only [Finset.mem_filter, List.mem_toFinset]
  exact and_congr_left fun weighs => same id weighs

variable {registry : Registry} {hashOrder : HashOrder} {flow : FlowConfig}
  {partials : BTreeMap PartialNode} {roots : List String} {graph : FlowGraph}

/-- **The incoming count** of a node is the number of routes into it. -/
theorem incoming_of_assemble
    (assembled : assemble registry hashOrder flow partials roots = .ok graph)
    {id : String} {node : Node} (found : graph.node id = some node) :
    node.incoming = (graph.routesInto id).length := by
  obtain ⟨routes, nodes, -, valid, acyclic, attached, rfl⟩ := assemble_eq_ok.mp assembled
  obtain ⟨lookup, -⟩ := assembleNodes_eq_ok attached
  have targets := (routes.validateTargets_eq_ok _).mp valid
  obtain ⟨sources, -⟩ := Routes.exists_rank Std.TreeMap.nodup_keys
    (fun id route member => (targets id route member).1) acyclic
  have counted : node.incoming = routes.countIncoming id := by
    have found : nodes[id]? = some node := found
    rw [lookup id] at found
    obtain ⟨_, -, rfl⟩ := Option.map_eq_some_iff.mp found
    rfl
  let weight : String → Nat := fun source =>
    (routes.from_ source).countP fun route => route.to_ = id
  have overRoutes : routes.countIncoming id = (routes.keys.map weight).sum := by
    unfold Routes.countIncoming Routes.all
    rw [List.countP_flatMap, ← Std.TreeMap.map_fst_toList_eq_keys, List.map_map]
    congr 1
    refine List.map_congr_left fun entry member => ?_
    have own : routes.from_ entry.1 = entry.2 := by
      unfold Routes.from_
      rw [(BTreeMap.mem_toList _ _ _).mp member]
      rfl
    simp only [Function.comp_apply, weight, own, List.countP_map]
    rfl
  have overNodes : (routesInto ⟨flow.name, nodes, roots⟩ id).length =
      (nodes.keys.map weight).sum := by
    unfold routesInto
    rw [List.length_flatMap, ← Std.TreeMap.map_fst_toList_eq_keys, List.map_map]
    congr 1
    refine List.map_congr_left fun entry member => ?_
    have own : entry.2.routes = routes.from_ entry.1 := by
      have found := (BTreeMap.mem_toList _ _ _).mp member
      rw [lookup entry.1] at found
      obtain ⟨_, -, same⟩ := Option.map_eq_some_iff.mp found
      rw [← same]
      rfl
    simp only [Function.comp_apply, weight, List.length_map, ← List.countP_eq_length_filter, own]
    conv_rhs => rw [← List.zipIdx_map_fst 0 (routes.from_ entry.1), List.countP_map]
    rfl
  rw [counted, overRoutes, overNodes]
  refine sum_map_eq_of_support Std.TreeMap.nodup_keys Std.TreeMap.nodup_keys
    fun source weighs => ?_
  obtain ⟨route, member, -⟩ := List.countP_pos_iff.mp (Nat.pos_of_ne_zero weighs)
  have known : source ∈ nodes.keys := by
    obtain ⟨partial_, present⟩ := (BTreeMap.mem_keys _ _).mp (sources source route member)
    exact (BTreeMap.mem_keys _ _).mpr ⟨_, by rw [lookup source, present, Option.map_some]⟩
  have listed : source ∈ routes.keys := by
    cases entry : routes[source]? with
    | some extra => exact (BTreeMap.mem_keys _ _).mpr ⟨extra, entry⟩
    | none =>
        unfold Routes.from_ at member
        rw [entry] at member
        cases member
  exact ⟨fun _ => known, fun _ => listed⟩

variable {ctx : BuildContext}

theorem Accepted.incoming (accepted : Accepted registry hashOrder flow ctx graph) {id : String}
    {node : Node} (found : graph.node id = some node) :
    node.incoming = (graph.routesInto id).length := by
  rcases accepted with run | ⟨triggers, serve⟩
  · obtain ⟨⟨partials, roots⟩, -, assembled⟩ := Except.bind_eq_ok.mp run
    exact incoming_of_assemble assembled found
  · obtain ⟨⟨partials, roots⟩, -, assembled⟩ := Except.bind_eq_ok.mp serve
    exact incoming_of_assemble assembled found

end FlowGraph

end Sohara
