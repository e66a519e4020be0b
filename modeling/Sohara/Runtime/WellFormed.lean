import Sohara.Runtime.Wiring

/-! # Well-formed graphs

What an accepted graph guarantees to the walk of a record: every route and every
target of a control step leads to a node, and a rank bounded by the number of
nodes decreases along all of them.
-/

namespace Sohara

namespace FlowGraph

/-- The guarantees of an accepted graph. -/
structure WellFormed (graph : FlowGraph) : Prop where
  named : ∀ {id node}, graph.node id = some node → node.id = id
  known : ∀ {id node}, graph.node id = some node →
    ∀ route ∈ node.routes, ∃ target, graph.node route.to_ = some target
  explicit : ∀ {id node control}, graph.node id = some node → node.step = .control control →
    ∀ target ∈ controlTargets control, ∃ route ∈ node.routes, route.to_ = target
  drained : ∀ {id node}, graph.node id = some node → node.step = .sink → node.routes = []
  ranked : ∃ rank : String → Nat,
    (∀ {id node}, graph.node id = some node → rank id < graph.nodes.size) ∧
      ∀ {id node}, graph.node id = some node →
        ∀ route ∈ node.routes, rank route.to_ < rank id

/-- No two nodes of a well-formed graph have one id. -/
theorem WellFormed.nodup_ids {graph : FlowGraph} (formed : graph.WellFormed) :
    (graph.nodeList.map (·.id)).Nodup := by
  have named : graph.nodeList.map (·.id) = graph.nodes.toList.map Prod.fst := by
    unfold nodeList
    rw [List.map_map]
    refine List.map_congr_left fun entry member => ?_
    exact formed.named ((BTreeMap.mem_toList _ _ _).mp member)
  rw [named]
  exact BTreeMap.nodup_toList _

variable {registry : Registry} {hashOrder : HashOrder} {flow : FlowConfig}
  {partials : BTreeMap PartialNode} {routes : Routes}

/-- Assembly succeeds exactly when no sink has routes, and attaches every node's
own routes. -/
theorem assembleNodes_eq_ok {nodes : BTreeMap Node}
    (assembled : assembleNodes partials routes = .ok nodes) :
    (∀ id, nodes[id]? = (partials[id]?).map (nodeOf routes id)) ∧
      ∀ id node, partials[id]? = some node → node.step = .sink → routes.from_ id = [] := by
  have collected := Except.foldlM_induct assembled (motive := fun done nodes =>
      (∀ id node, nodes[id]? = some node → ∃ partial_, (id, partial_) ∈ done ∧
        node = nodeOf routes id partial_) ∧
      (∀ id partial_, (id, partial_) ∈ done → (∃ node, nodes[id]? = some node) ∧
        (partial_.step = .sink → routes.from_ id = [])))
    ⟨by simp, by simp⟩ (by
      rintro done nodes ⟨id, partial_⟩ after - ⟨sound, complete⟩ stepped
      unfold assembleNode at stepped
      split at stepped
      · cases stepped
      · next allowed =>
          cases stepped
          constructor
          · intro other node found
            rw [BTreeMap.get?_insert] at found
            split at found
            · next same =>
                cases found
                subst same
                exact ⟨partial_, by simp, rfl⟩
            · obtain ⟨origin, member, equal⟩ := sound other node found
              exact ⟨origin, by simp [member], equal⟩
          · intro other origin member
            rcases List.mem_append.mp member with old | new
            · obtain ⟨⟨node, found⟩, drained⟩ := complete other origin old
              refine ⟨?_, drained⟩
              rw [BTreeMap.get?_insert]
              split
              · exact ⟨_, rfl⟩
              · exact ⟨node, found⟩
            · cases List.mem_singleton.mp new
              refine ⟨⟨_, by rw [BTreeMap.get?_insert, if_pos rfl]⟩, fun sink => ?_⟩
              simpa [NodeStep.isSink, sink] using allowed)
  obtain ⟨sound, complete⟩ := collected
  refine ⟨fun id => ?_, fun id node found sink =>
    (complete id node ((BTreeMap.mem_toList _ _ _).mpr found)).2 sink⟩
  cases found : nodes[id]? with
  | some node =>
      obtain ⟨partial_, member, rfl⟩ := sound id node found
      rw [(BTreeMap.mem_toList _ _ _).mp member, Option.map_some]
  | none =>
      cases origin : partials[id]? with
      | none => rfl
      | some partial_ =>
          obtain ⟨⟨node, present⟩, -⟩ :=
            complete id partial_ ((BTreeMap.mem_toList _ _ _).mpr origin)
          rw [found] at present
          cases present

/-- Assembly of a graph without routes on sinks. -/
theorem exists_assembleNodes (drained : ∀ id node, partials[id]? = some node →
    node.step = .sink → routes.from_ id = []) :
    ∃ nodes, assembleNodes partials routes = .ok nodes := by
  refine Except.exists_foldlM ?_ ∅
  rintro nodes ⟨id, node⟩ member
  have found := (BTreeMap.mem_toList _ _ _).mp member
  refine ⟨nodes.insert id (nodeOf routes id node), if_neg ?_⟩
  cases stepEq : node.step with
  | sink => simp [NodeStep.isSink, drained id node found stepEq]
  | _ => simp [NodeStep.isSink]

/-- The stages of a successful assembly. -/
theorem assemble_eq_ok {roots : List String} {graph : FlowGraph} :
    assemble registry hashOrder flow partials roots = .ok graph ↔
      ∃ routes nodes, wireRoutes registry flow partials = .ok routes ∧
        routes.validateTargets partials.keys = .ok () ∧
        routes.checkAcyclic hashOrder partials.keys = .ok () ∧
        assembleNodes partials routes = .ok nodes ∧
        graph = { name := flow.name, nodes, roots } := by
  unfold assemble
  simp only [Except.bind_eq_ok]
  constructor
  · rintro ⟨routes, wired, ⟨⟩, valid, ⟨⟩, acyclic, nodes, assembled, same⟩
    exact ⟨routes, nodes, wired, valid, acyclic, assembled, (Except.ok.inj same).symm⟩
  · rintro ⟨routes, nodes, wired, valid, acyclic, assembled, rfl⟩
    exact ⟨routes, wired, (), valid, (), acyclic, nodes, assembled, rfl⟩

/-- **Accepted graphs are well formed.** -/
theorem wellFormed_of_assemble {roots : List String} {graph : FlowGraph}
    (accepted : assemble registry hashOrder flow partials roots = .ok graph) :
    graph.WellFormed := by
  obtain ⟨routes, nodes, wired, valid, acyclic, assembled, rfl⟩ := assemble_eq_ok.mp accepted
  obtain ⟨lookup, drained⟩ := assembleNodes_eq_ok assembled
  have targets := (routes.validateTargets_eq_ok _).mp valid
  obtain ⟨-, rank, bounded, descends⟩ := Routes.exists_rank Std.TreeMap.nodup_keys
    (fun id route member => (targets id route member).1) acyclic
  have origin : ∀ {id node}, nodes[id]? = some node →
      ∃ partial_, partials[id]? = some partial_ ∧ node = nodeOf routes id partial_ := by
    intro id node found
    rw [lookup id] at found
    obtain ⟨partial_, present, rfl⟩ := Option.map_eq_some_iff.mp found
    exact ⟨partial_, present, rfl⟩
  have present : ∀ {id}, id ∈ partials.keys → ∃ node, nodes[id]? = some node := by
    intro id member
    obtain ⟨partial_, found⟩ := (BTreeMap.mem_keys _ _).mp member
    exact ⟨_, by rw [lookup id, found, Option.map_some]⟩
  constructor
  · intro id node found
    obtain ⟨partial_, -, rfl⟩ := origin found
    rfl
  · intro id node found route member
    obtain ⟨partial_, -, rfl⟩ := origin found
    exact present (targets id route member).1
  · intro id node control found isControl target named
    obtain ⟨partial_, inPartials, rfl⟩ := origin found
    refine (mem_wireRoutes wired id target).mpr (.inr ⟨control, ?_, named⟩)
    rw [inPartials, Option.map_some]
    exact congrArg some isControl
  · intro id node found isSink
    obtain ⟨partial_, inPartials, rfl⟩ := origin found
    exact drained id partial_ inPartials isSink
  · have sizes : partials.keys.length = nodes.size := by
      rw [← Std.TreeMap.length_keys (t := nodes)]
      refine ((List.perm_ext_iff_of_nodup Std.TreeMap.nodup_keys
        Std.TreeMap.nodup_keys).mpr fun id => ?_).length_eq
      rw [BTreeMap.mem_keys, BTreeMap.mem_keys, lookup id]
      cases partials[id]? <;> simp
    refine ⟨rank, fun {id node} found => ?_, fun {id node} found route member => ?_⟩
    · obtain ⟨partial_, inPartials, -⟩ := origin found
      rw [← sizes]
      exact bounded id ((BTreeMap.mem_keys _ _).mpr ⟨_, inPartials⟩)
    · obtain ⟨partial_, -, rfl⟩ := origin found
      exact descends id route member

variable {ctx : BuildContext} {graph : FlowGraph}

theorem wellFormed_of_build (accepted : build registry hashOrder flow ctx = .ok graph) :
    graph.WellFormed := by
  obtain ⟨⟨partials, roots⟩, -, assembled⟩ := Except.bind_eq_ok.mp accepted
  exact wellFormed_of_assemble assembled

/-- A graph is named after its flow. -/
theorem name_of_build (accepted : build registry hashOrder flow ctx = .ok graph) :
    graph.name = flow.name := by
  obtain ⟨⟨partials, roots⟩, -, assembled⟩ := Except.bind_eq_ok.mp accepted
  obtain ⟨_, _, -, -, -, -, rfl⟩ := assemble_eq_ok.mp assembled
  rfl

theorem wellFormed_of_buildWithTriggers {triggers : List Trigger}
    (accepted : buildWithTriggers registry hashOrder flow ctx triggers = .ok graph) :
    graph.WellFormed := by
  obtain ⟨⟨partials, roots⟩, -, assembled⟩ := Except.bind_eq_ok.mp accepted
  exact wellFormed_of_assemble assembled

/-- A graph built in either mode. -/
def Accepted (registry : Registry) (hashOrder : HashOrder) (flow : FlowConfig)
    (ctx : BuildContext) (graph : FlowGraph) : Prop :=
  build registry hashOrder flow ctx = .ok graph ∨
    ∃ triggers, buildWithTriggers registry hashOrder flow ctx triggers = .ok graph

theorem Accepted.wellFormed (accepted : Accepted registry hashOrder flow ctx graph) :
    graph.WellFormed := by
  rcases accepted with run | ⟨triggers, serve⟩
  · exact wellFormed_of_build run
  · exact wellFormed_of_buildWithTriggers serve

end FlowGraph

end Sohara
