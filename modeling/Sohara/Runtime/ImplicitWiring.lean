import Sohara.Runtime.Linear

/-! # Implicit wiring

Without edges the steps are chained in declaration order, behind a single source or
trigger. The chain is made of the steps only: a trigger stays without routes, and several
sources are chained like other steps.
-/

namespace Sohara

/-- A factory builds a source or a sink just in case it is registered as one. Transforms may build
control steps, as those for batches and states do. -/
def Registry.Kinded (registry : Registry) : Prop :=
  ∀ {kind stepType config ctx built}, registry.build kind stepType config ctx = .ok built →
    (built = .source ↔ kind = .source) ∧ (built = .sink ↔ kind = .sink)

/-- Whether a node routes to targets it names. -/
def Node.routesExplicitly (node : Node) : Bool :=
  FlowGraph.hasExplicitRoutes (some ⟨node.step, node.when_, node.policy, node.state⟩)

/-- How a flow is started. -/
inductive Mode where
  | run
  | serve
  deriving DecidableEq, Repr

namespace FlowConfig

/-- The ids of the source steps, and of the triggers that a mode starts. -/
def rootIds (flow : FlowConfig) (mode : Mode) : List String :=
  (flow.steps.filter fun step => step.kind = some .source).map (·.id) ++
    match mode with
    | .run => []
    | .serve => flow.triggerIds

end FlowConfig

namespace FlowGraph

section Law

/-- The graph built for a mode. -/
def BuiltFor (mode : Mode) (registry : Registry) (hashOrder : HashOrder) (flow : FlowConfig)
    (ctx : BuildContext) (graph : FlowGraph) : Prop :=
  match mode with
  | .run => build registry hashOrder flow ctx = .ok graph
  | .serve => ∃ triggers, triggers.length = flow.triggers.length ∧
      buildWithTriggers registry hashOrder flow ctx triggers = .ok graph

/-- A node that passes every record on to one step. -/
def PassesTo (graph : FlowGraph) (id : String) (next : StepConfig) : Prop :=
  ∃ node, graph.node id = some node ∧ node.routes = [⟨next.id, none⟩]

/-- **Complete wiring.** A flow without edges has a single root; the records of a root go to
the first step behind it, and those of a step that does not route itself to the next one.
No root of any flow is left without a route. -/
structure Complete (flow : FlowConfig) (graph : FlowGraph) : Prop where
  single : flow.edges = [] → flow.countKind .source + flow.triggers.length = 1
  source : flow.edges = [] → ∀ (index : Nat) (step : StepConfig), flow.steps[index]? = some step →
    step.id ∈ graph.roots →
    ∃ next, flow.steps[index + 1]? = some next ∧ graph.PassesTo step.id next
  trigger : flow.edges = [] → ∀ trigger ∈ flow.triggers, trigger.id ∈ graph.roots →
    ∃ first, flow.steps.head? = some first ∧ graph.PassesTo trigger.id first
  chain : flow.edges = [] → ∀ (index : Nat) (step next : StepConfig),
    flow.steps[index]? = some step → flow.steps[index + 1]? = some next →
    ∀ node, graph.node step.id = some node → node.routesExplicitly = false →
      graph.PassesTo step.id next
  kept : ∀ root ∈ graph.roots, ∃ node, graph.node root = some node ∧ node.routes ≠ []

/-- What complete wiring asks of the flow: without edges a single root, which is no trigger
that the mode starts; with edges, an edge from every root. -/
def Rooted (mode : Mode) (flow : FlowConfig) : Prop :=
  if flow.edges = [] then
    flow.countKind .source + flow.triggers.length = 1 ∧ (mode = .serve → flow.triggers = [])
  else ∀ root ∈ flow.rootIds mode, ∃ edge ∈ flow.edges, edge.from_ = root

end Law

section Links

variable {steps : List StepConfig} {step next : StepConfig} {index : Nat}

/-- A step is linked to the next one. -/
theorem linksOf_of_next (distinct : (steps.map (·.id)).Nodup) (here : steps[index]? = some step)
    (after : steps[index + 1]? = some next) : linksOf steps step.id = [⟨next.id, none⟩] := by
  induction steps generalizing index with
  | nil => cases here
  | cons first rest ih =>
      obtain ⟨fresh, others⟩ := List.nodup_cons.mp distinct
      cases index with
      | zero =>
          cases here
          cases rest with
          | nil => cases after
          | cons second rest =>
              cases after
              exact linksOf_head fresh
      | succ index =>
          rw [List.getElem?_cons_succ] at here after
          rw [linksOf_cons_of_ne, ih others here after]
          intro same
          exact fresh (List.mem_map.mpr ⟨step, List.mem_of_getElem? here, same.symm⟩)

end Links

section Building

variable {registry : Registry} {hashOrder loading : HashOrder} {flow : FlowConfig}
  {ctx : BuildContext} {graph : FlowGraph} {mode : Mode}

/-- A step becomes a source or a sink just in case it is declared as one. -/
theorem kinds_of_buildStepNode (kinded : registry.Kinded) {step : StepConfig} {node : NodeStep}
    {isSource : Bool} (built : buildStepNode registry step ctx = .ok (node, isSource)) :
    (node = .source ↔ step.kind = some .source) ∧ (node = .sink ↔ step.kind = some .sink) ∧
      (isSource = true ↔ node = .source) := by
  unfold buildStepNode at built
  cases kind : step.kind with
  | none =>
      rw [kind] at built
      cases built
  | some kind =>
      cases stepType : step.stepType with
      | none =>
          simp only [kind, stepType] at built
          cases built
      | some stepType =>
          simp only [kind, stepType] at built
          cases config : step.config with
          | error error =>
              simp only [config] at built
              cases built
          | ok config =>
              simp only [config] at built
              split at built
              case h_1 => cases built
              all_goals
                next made =>
                  cases built
                  have kinds := kinded made
                  simp only [reduceCtorEq, false_iff, true_iff] at kinds
                  simp [kinds]

/-- The roots of the built steps are the source steps. -/
theorem rootOf_eq (kinded : registry.Kinded) {step : StepConfig} {node : PartialNode}
    (builds : Builds registry ctx step node) :
    rootOf registry ctx step = if step.kind = some .source then [step.id] else [] := by
  obtain ⟨⟨isSource, built⟩, -⟩ := builds
  obtain ⟨source, -, root⟩ := kinds_of_buildStepNode kinded built
  unfold rootOf
  rw [built]
  cases isSource with
  | true => exact (if_pos (source.mp (root.mp rfl))).symm
  | false => exact (if_neg fun declared => nomatch root.mpr (source.mpr declared)).symm

/-- The roots of the steps are their source steps. -/
theorem flatMap_rootOf (kinded : registry.Kinded) {steps : List StepConfig}
    (each : ∀ step ∈ steps, ∃ node, Builds registry ctx step node) :
    steps.flatMap (rootOf registry ctx) =
      (steps.filter fun step => step.kind = some .source).map (·.id) := by
  induction steps with
  | nil => rfl
  | cons step rest ih =>
      obtain ⟨node, builds⟩ := each step List.mem_cons_self
      rw [List.flatMap_cons, ih fun other member => each other (List.mem_cons_of_mem _ member),
        rootOf_eq kinded builds, List.filter_cons]
      by_cases source : step.kind = some .source <;> simp [source]

/-- What a built graph is made of. -/
structure Assembly (mode : Mode) (registry : Registry) (flow : FlowConfig) (ctx : BuildContext)
    (graph : FlowGraph) (partials : BTreeMap PartialNode) (routes : Routes) : Prop where
  wired : wireRoutes registry flow partials = .ok routes
  lookup : ∀ id, graph.node id = (partials[id]?).map (nodeOf routes id)
  drained : ∀ id node, partials[id]? = some node → node.step = .sink → routes.from_ id = []
  steps : ∀ step ∈ flow.steps, ∃ node, partials[step.id]? = some node ∧
      Builds registry ctx step node
  triggers : mode = .serve → ∀ id ∈ flow.triggerIds, partials[id]? = some triggerNode
  roots : graph.roots = flow.rootIds mode

theorem exists_assembly (kinded : registry.Kinded)
    (loaded : flow.validate registry loading = .ok ())
    (built : BuiltFor mode registry hashOrder flow ctx graph) :
    ∃ partials routes, Assembly mode registry flow ctx graph partials routes := by
  have distinct := FlowConfig.nodup_stepIds loaded
  cases mode with
  | run =>
      obtain ⟨⟨partials, roots⟩, parts, assembled⟩ := Except.bind_eq_ok.mp built
      obtain ⟨routes, nodes, wired, -, -, attached, rfl⟩ := assemble_eq_ok.mp assembled
      obtain ⟨each, rooted⟩ := builds_of_buildPartials parts distinct
      obtain ⟨lookup, drained⟩ := assembleNodes_eq_ok attached
      refine ⟨partials, routes, wired, lookup, drained, each, (fun serve => nomatch serve), ?_⟩
      refine (rooted.trans (flatMap_rootOf kinded fun step member => ?_)).trans
        (List.append_nil _).symm
      obtain ⟨node, -, builds⟩ := each step member
      exact ⟨node, builds⟩
  | serve =>
      obtain ⟨triggers, paired, built⟩ := built
      obtain ⟨⟨partials, roots⟩, parts, assembled⟩ := Except.bind_eq_ok.mp built
      rw [map_fst_zip_triggers paired] at assembled
      obtain ⟨routes, nodes, wired, -, -, attached, rfl⟩ := assemble_eq_ok.mp assembled
      obtain ⟨each, rooted⟩ := builds_of_buildPartials parts distinct
      obtain ⟨lookup, drained⟩ := assembleNodes_eq_ok attached
      have apart := (FlowConfig.validated_of_validate loaded).disjoint
      refine ⟨addTriggers partials flow.triggerIds, routes, wired, lookup, drained,
        fun step member => ?_, fun _ id member => ?_, ?_⟩
      · obtain ⟨node, found, builds⟩ := each step member
        refine ⟨node, ?_, builds⟩
        rw [get?_addTriggers, if_neg fun trigger =>
          apart step.id trigger (List.mem_map_of_mem member)]
        exact found
      · rw [get?_addTriggers, if_pos member]
      · refine congrArg (· ++ flow.triggerIds) (rooted.trans
          (flatMap_rootOf kinded fun step member => ?_))
        obtain ⟨node, -, builds⟩ := each step member
        exact ⟨node, builds⟩

theorem exists_sink_of_validate (loaded : flow.validate registry loading = .ok ()) :
    ∃ step ∈ flow.steps, step.kind = some .sink := by
  unfold FlowConfig.validate at loaded
  obtain ⟨_, -, rest⟩ := Except.bind_eq_ok.mp loaded
  obtain ⟨_, -, rest⟩ := Except.bind_eq_ok.mp rest
  obtain ⟨_, steps, -⟩ := Except.bind_eq_ok.mp rest
  unfold FlowConfig.validateSteps at steps
  split at steps
  case isTrue => cases steps
  case isFalse =>
    obtain ⟨_, -, counts⟩ := Except.bind_eq_ok.mp steps
    unfold FlowConfig.validateCounts at counts
    split at counts
    case isTrue => cases counts
    case isFalse =>
      split at counts
      case isTrue => cases counts
      case isFalse some =>
        obtain ⟨step, member, sink⟩ := List.countP_pos_iff.mp (Nat.pos_of_ne_zero some)
        exact ⟨step, member, of_decide_eq_true sink⟩

theorem mem_rootIds {id : String} : id ∈ flow.rootIds mode ↔
    (∃ step ∈ flow.steps, step.kind = some .source ∧ step.id = id) ∨
      mode = .serve ∧ id ∈ flow.triggerIds := by
  unfold FlowConfig.rootIds
  rw [List.mem_append, List.mem_map]
  refine or_congr (exists_congr fun step => ?_) ?_
  · rw [List.mem_filter, decide_eq_true_eq, and_assoc]
  · cases mode <;> simp

section Assembled

variable {partials : BTreeMap PartialNode} {routes : Routes}
variable (assembly : Assembly mode registry flow ctx graph partials routes)
variable (kinded : registry.Kinded) (loaded : flow.validate registry loading = .ok ())

include assembly kinded in
theorem Assembly.node_of_step {step : StepConfig} (member : step ∈ flow.steps) :
    ∃ node, partials[step.id]? = some node ∧ (node.step = .source ↔ step.kind = some .source) ∧
      (node.step = .sink ↔ step.kind = some .sink) ∧
      graph.node step.id = some (nodeOf routes step.id node) := by
  obtain ⟨node, found, ⟨isSource, built⟩, -⟩ := assembly.steps step member
  obtain ⟨source, sink, -⟩ := kinds_of_buildStepNode kinded built
  refine ⟨node, found, source, sink, ?_⟩
  rw [assembly.lookup, found]
  rfl

include assembly kinded in
/-- A root is a source node. -/
theorem Assembly.node_of_root {root : String} (isRoot : root ∈ flow.rootIds mode) :
    ∃ node, partials[root]? = some node ∧ node.step = .source ∧
      graph.node root = some (nodeOf routes root node) := by
  rcases mem_rootIds.mp isRoot with ⟨step, member, source, rfl⟩ | ⟨serves, trigger⟩
  · obtain ⟨node, found, isSource, -, present⟩ := assembly.node_of_step kinded member
    exact ⟨node, found, isSource.mpr source, present⟩
  · have found := assembly.triggers serves root trigger
    refine ⟨triggerNode, found, rfl, ?_⟩
    rw [assembly.lookup, found]
    rfl

include assembly loaded in
/-- Without edges, a step that does not route itself passes on to the next one. -/
theorem Assembly.passes (unwired : flow.edges = []) {index : Nat} {step next : StepConfig}
    (here : flow.steps[index]? = some step) (after : flow.steps[index + 1]? = some next)
    {node : PartialNode} (found : partials[step.id]? = some node)
    (implicit : hasExplicitRoutes (some node) = false) :
    routes.from_ step.id = [⟨next.id, none⟩] := by
  rw [from_wireRoutes_of_chain assembly.wired unwired, found, implicit, Option.map_some,
    Option.getD_some, controlRoutes_eq_nil implicit, List.append_nil]
  exact linksOf_of_next (FlowConfig.nodup_stepIds loaded) here after

include assembly kinded loaded in
/-- Without edges, something follows every source step: the sink is last. -/
theorem Assembly.exists_next (unwired : flow.edges = []) {index : Nat} {step : StepConfig}
    (here : flow.steps[index]? = some step) (source : step.kind = some .source) :
    ∃ next, flow.steps[index + 1]? = some next := by
  obtain ⟨sink, member, isSink⟩ := exists_sink_of_validate loaded
  obtain ⟨node, found, -, sinks, -⟩ := assembly.node_of_step kinded member
  have drains : node.step = .sink := sinks.mpr isSink
  obtain ⟨last, there⟩ := List.getElem?_of_mem member
  have final : flow.steps[last + 1]? = none := by
    cases after : flow.steps[last + 1]? with
    | none => rfl
    | some next =>
        have implicit : hasExplicitRoutes (some node) = false := by
          obtain ⟨step, guard, policy, state⟩ := node
          cases drains
          rfl
        have empty := assembly.drained sink.id node found drains
        rw [assembly.passes loaded unwired there after found implicit] at empty
        cases empty
  have apart : index ≠ last := by
    rintro rfl
    cases here.symm.trans there
    rw [source] at isSink
    cases isSink
  have inside := (List.getElem?_eq_some_iff.mp here).1
  have bound := List.getElem?_eq_none_iff.mp final
  have before := (List.getElem?_eq_some_iff.mp there).1
  exact ⟨_, List.getElem?_eq_getElem (show index + 1 < flow.steps.length by omega)⟩

include assembly loaded in
/-- Without edges, a trigger has no routes. -/
theorem Assembly.trigger_unrouted (unwired : flow.edges = []) (serves : mode = .serve)
    {id : String} (trigger : id ∈ flow.triggerIds) : routes.from_ id = [] := by
  have apart := (FlowConfig.validated_of_validate loaded).disjoint id trigger
  rw [from_wireRoutes_of_chain assembly.wired unwired, assembly.triggers serves id trigger,
    linksOf_of_notMem apart]
  rfl

include assembly kinded in
/-- With edges, a root has a route when an edge leaves it. -/
theorem Assembly.root_routed_iff (wired : flow.edges ≠ []) {root : String}
    (isRoot : root ∈ flow.rootIds mode) :
    routes.from_ root ≠ [] ↔ ∃ edge ∈ flow.edges, edge.from_ = root := by
  obtain ⟨node, found, source, -⟩ := assembly.node_of_root kinded isRoot
  have edges : declaredEdges flow partials = flow.edges.map fun edge => (edge.from_, edge.to_) :=
    if_neg (by simpa using wired)
  have connects := mem_wireRoutes assembly.wired root
  constructor
  · intro some
    obtain ⟨route, member⟩ := List.exists_mem_of_ne_nil _ some
    rcases (connects route.to_).mp ⟨route, member, rfl⟩ with declared | ⟨control, isControl, -⟩
    · rw [edges] at declared
      obtain ⟨edge, inside, same⟩ := List.mem_map.mp declared
      exact ⟨edge, inside, congrArg Prod.fst same⟩
    · rw [found, Option.map_some, source] at isControl
      cases isControl
  · rintro ⟨edge, inside, rfl⟩ empty
    have declared : (edge.from_, edge.to_) ∈ declaredEdges flow partials := by
      rw [edges]
      exact List.mem_map_of_mem inside
    obtain ⟨route, member, -⟩ := (connects edge.to_).mpr (.inl declared)
    rw [empty] at member
    cases member

include assembly in
/-- A root that is kept has a route. -/
theorem Assembly.routed_of_complete (complete : Complete flow graph) {root : String}
    (isRoot : root ∈ flow.rootIds mode) : routes.from_ root ≠ [] := by
  obtain ⟨node, present, routed⟩ := complete.kept root (assembly.roots ▸ isRoot)
  obtain ⟨origin, -, rfl⟩ :=
    Option.map_eq_some_iff.mp ((assembly.lookup root).symm.trans present)
  exact routed

include assembly loaded in
/-- Without edges, complete wiring starts no trigger. -/
theorem Assembly.untriggered_of_complete (unwired : flow.edges = [])
    (complete : Complete flow graph) (serves : mode = .serve) : flow.triggers = [] := by
  refine List.eq_nil_iff_forall_not_mem.mpr fun trigger member => ?_
  have declared : trigger.id ∈ flow.triggerIds := List.mem_map_of_mem member
  exact assembly.routed_of_complete complete (mem_rootIds.mpr (.inr ⟨serves, declared⟩))
    (assembly.trigger_unrouted loaded unwired serves declared)

include assembly kinded loaded in
/-- Without edges, a source step passes on to the next one. -/
theorem Assembly.source_passes (unwired : flow.edges = []) {index : Nat} {step : StepConfig}
    (here : flow.steps[index]? = some step) (source : step.kind = some .source) :
    ∃ next, flow.steps[index + 1]? = some next ∧ graph.PassesTo step.id next := by
  obtain ⟨next, after⟩ := assembly.exists_next kinded loaded unwired here source
  obtain ⟨node, found, isSource, present⟩ := assembly.node_of_root kinded
    (mem_rootIds.mpr (.inl ⟨step, List.mem_of_getElem? here, source, rfl⟩))
  have implicit : hasExplicitRoutes (some node) = false := by
    obtain ⟨step, guard, policy, state⟩ := node
    cases isSource
    rfl
  exact ⟨next, after, _, present, assembly.passes loaded unwired here after found implicit⟩

include assembly in
/-- When no trigger is started, the roots are the source steps. -/
theorem Assembly.source_of_root (untriggered : mode = .serve → flow.triggers = [])
    {root : String} (isRoot : root ∈ graph.roots) :
    ∃ step ∈ flow.steps, step.kind = some .source ∧ step.id = root := by
  rw [assembly.roots] at isRoot
  rcases mem_rootIds.mp isRoot with source | ⟨serves, trigger⟩
  · exact source
  · obtain ⟨declared, member, -⟩ := List.mem_map.mp trigger
    rw [untriggered serves] at member
    cases member

include assembly kinded loaded in
/-- Without edges, the steps are wired in a chain behind a single root that is no trigger. -/
theorem Assembly.complete_of_untriggered (unwired : flow.edges = [])
    (single : flow.countKind .source + flow.triggers.length = 1)
    (untriggered : mode = .serve → flow.triggers = []) : Complete flow graph where
  single _ := single
  source _ index step here isRoot := by
    obtain ⟨other, member, source, same⟩ := assembly.source_of_root untriggered isRoot
    have equal := List.inj_on_of_nodup_map (FlowConfig.nodup_stepIds loaded) member
      (List.mem_of_getElem? here) same
    exact assembly.source_passes kinded loaded unwired here (equal ▸ source)
  trigger _ trigger member isRoot := by
    obtain ⟨other, inside, -, same⟩ := assembly.source_of_root untriggered isRoot
    have apart := (FlowConfig.validated_of_validate loaded).disjoint trigger.id
      (List.mem_map_of_mem member)
    exact absurd (List.mem_map.mpr ⟨other, inside, same⟩) apart
  chain _ index step next here after node present implicit := by
    obtain ⟨origin, found, rfl⟩ :=
      Option.map_eq_some_iff.mp ((assembly.lookup step.id).symm.trans present)
    exact ⟨_, present, assembly.passes loaded unwired here after found implicit⟩
  kept root isRoot := by
    obtain ⟨step, member, source, rfl⟩ := assembly.source_of_root untriggered isRoot
    obtain ⟨index, here⟩ := List.getElem?_of_mem member
    obtain ⟨next, -, node, present, routed⟩ :=
      assembly.source_passes kinded loaded unwired here source
    refine ⟨node, present, ?_⟩
    rw [routed]
    exact List.cons_ne_nil _ _

include assembly kinded in
/-- With edges, wiring is complete when an edge leaves every root. -/
theorem Assembly.complete_iff_of_wired (wired : flow.edges ≠ []) : Complete flow graph ↔
    ∀ root ∈ flow.rootIds mode, ∃ edge ∈ flow.edges, edge.from_ = root := by
  constructor
  · intro complete root isRoot
    exact (assembly.root_routed_iff kinded wired isRoot).mp
      (assembly.routed_of_complete complete isRoot)
  · intro each
    refine ⟨fun empty => absurd empty wired, fun empty => absurd empty wired,
      fun empty => absurd empty wired, fun empty => absurd empty wired, ?_⟩
    intro root isRoot
    rw [assembly.roots] at isRoot
    obtain ⟨node, -, -, present⟩ := assembly.node_of_root kinded isRoot
    exact ⟨_, present, (assembly.root_routed_iff kinded wired isRoot).mpr (each root isRoot)⟩

end Assembled

/-- **Wiring is complete when the flow is rooted.** -/
theorem complete_iff (kinded : registry.Kinded) (loaded : flow.validate registry loading = .ok ())
    (built : BuiltFor mode registry hashOrder flow ctx graph) :
    Complete flow graph ↔ Rooted mode flow := by
  obtain ⟨partials, routes, assembly⟩ := exists_assembly kinded loaded built
  unfold Rooted
  by_cases unwired : flow.edges = []
  · rw [if_pos unwired]
    constructor
    · intro complete
      exact ⟨complete.single unwired, assembly.untriggered_of_complete loaded unwired complete⟩
    · intro rooted
      exact assembly.complete_of_untriggered kinded loaded unwired rooted.1 rooted.2
  · rw [if_neg unwired]
    exact assembly.complete_iff_of_wired kinded unwired

end Building

namespace Sample

/-- A component that is built is the one that the config is for. -/
theorem eq_of_requiring {needed : List String} {built step : BuiltStep} {config : Value}
    (made : requiring needed built config = .ok step) : step = built := by
  unfold requiring at made
  split at made
  · split at made <;> cases made
    rfl
  · cases made

theorem registry_kinded : registry.Kinded := by
  intro kind stepType config ctx built made
  unfold registry at made
  dsimp only at made
  split at made
  case h_5 => cases made
  all_goals
    obtain rfl := eq_of_requiring made
    simp

/-- An http trigger before one file sink, without edges. -/
def unwired : FlowConfig := { intake with edges := [] }

theorem unwired_loads : unwired.validate registry hashOrder = .ok () := rfl

theorem unwired_built : ∃ graph, BuiltFor .serve registry hashOrder unwired ctx graph :=
  ⟨_, [hook], rfl, rfl⟩

theorem unwired_complete_iff : ∃ graph, BuiltFor .serve registry hashOrder unwired ctx graph ∧
    (Complete unwired graph ↔ Rooted .serve unwired) := by
  obtain ⟨graph, built⟩ := unwired_built
  exact ⟨graph, built, complete_iff registry_kinded unwired_loads built⟩

/-- The records of the trigger have nowhere to go. -/
theorem trigger_not_wired : ∃ graph, BuiltFor .serve registry hashOrder unwired ctx graph ∧
    ¬Complete unwired graph := by
  obtain ⟨graph, built⟩ := unwired_built
  refine ⟨graph, built, fun complete => ?_⟩
  obtain ⟨partials, routes, assembly⟩ := exists_assembly registry_kinded unwired_loads built
  have isRoot : "hook" ∈ graph.roots := by
    rw [assembly.roots]
    exact mem_rootIds.mpr (.inr ⟨rfl, List.mem_singleton.mpr rfl⟩)
  obtain ⟨node, present, routed⟩ := complete.kept "hook" isRoot
  obtain ⟨origin, -, rfl⟩ := Option.map_eq_some_iff.mp ((assembly.lookup "hook").symm.trans present)
  exact routed (assembly.trigger_unrouted unwired_loads rfl rfl (List.mem_singleton.mpr rfl))

end Sample

end FlowGraph

end Sohara
