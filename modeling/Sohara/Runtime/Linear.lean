import Sohara.Runtime.Acceptance

/-! # Linear flows

A source, transforms that are skipped when they fail, and a sink, declared one after the
other without guards and without edges. The graph of such a flow is a chain.
-/

namespace Sohara

namespace FlowConfig

variable {registry : Registry}

theorem validateStep_fresh {ids : List String} {step : StepConfig}
    (valid : validateStep registry ids step = .ok ()) : step.id ∉ ids := by
  unfold validateStep at valid
  split at valid
  · cases valid
  · split at valid
    · cases valid
    · assumption

theorem validateStepsFrom_nodup {ids : List String} {steps : List StepConfig}
    (valid : validateStepsFrom registry ids steps = .ok ()) :
    (steps.map (·.id)).Nodup ∧ ∀ step ∈ steps, step.id ∉ ids := by
  induction steps generalizing ids with
  | nil => exact ⟨List.nodup_nil, fun _ member => nomatch member⟩
  | cons step rest ih =>
      obtain ⟨_, first, others⟩ := Except.bind_eq_ok.mp valid
      obtain ⟨distinct, fresh⟩ := ih others
      refine ⟨List.nodup_cons.mpr ⟨fun member => ?_, distinct⟩, fun other member => ?_⟩
      · obtain ⟨other, inside, same⟩ := List.mem_map.mp member
        exact fresh other inside (same ▸ List.mem_cons_self)
      · rcases List.mem_cons.mp member with rfl | inside
        · exact validateStep_fresh first
        · exact fun taken => fresh other inside (List.mem_cons_of_mem _ taken)

/-- The steps of a validated flow have different ids. -/
theorem nodup_stepIds {flow : FlowConfig} {hashOrder : HashOrder}
    (valid : flow.validate registry hashOrder = .ok ()) : flow.stepIds.Nodup := by
  unfold validate at valid
  obtain ⟨_, -, rest⟩ := Except.bind_eq_ok.mp valid
  obtain ⟨_, -, rest⟩ := Except.bind_eq_ok.mp rest
  obtain ⟨_, steps, -⟩ := Except.bind_eq_ok.mp rest
  unfold validateSteps at steps
  split at steps
  · cases steps
  · obtain ⟨_, each, -⟩ := Except.bind_eq_ok.mp steps
    exact (validateStepsFrom_nodup each).1

end FlowConfig

namespace FlowGraph

section Steps

variable {registry : Registry} {ctx : BuildContext}

/-- A step and its partial node. -/
def Builds (registry : Registry) (ctx : BuildContext) (step : StepConfig) (built : PartialNode) :
    Prop :=
  (∃ isSource, buildStepNode registry step ctx = .ok (built.step, isSource)) ∧
    stepGuard registry step = .ok built.when_ ∧
    resolvePolicy registry step = .ok built.policy ∧ built.state = step.state

theorem Builds.step_eq {step : StepConfig} {built : PartialNode} {node : NodeStep}
    {isSource : Bool} (builds : Builds registry ctx step built)
    (same : buildStepNode registry step ctx = .ok (node, isSource)) : built.step = node := by
  obtain ⟨⟨_, built⟩, -⟩ := builds
  exact congrArg Prod.fst (Except.ok.inj (built.symm.trans same))

/-- The id of a step that builds a source. -/
def rootOf (registry : Registry) (ctx : BuildContext) (step : StepConfig) : List String :=
  match buildStepNode registry step ctx with
  | .ok (_, true) => [step.id]
  | _ => []

/-- What the partial nodes of distinct steps are. -/
theorem builds_of_buildPartials {flow : FlowConfig} {partials : BTreeMap PartialNode}
    {roots : List String} (built : buildPartials registry flow ctx = .ok (partials, roots))
    (distinct : flow.stepIds.Nodup) :
    (∀ step ∈ flow.steps, ∃ node, partials[step.id]? = some node ∧ Builds registry ctx step node) ∧
      roots = flow.steps.flatMap (rootOf registry ctx) := by
  have collected := Except.foldlM_induct built (motive := fun done built =>
    (done.map (·.id)).Nodup →
      (∀ step ∈ done, ∃ node, built.1[step.id]? = some node ∧ Builds registry ctx step node) ∧
        built.2 = done.flatMap (rootOf registry ctx))
    (fun _ => ⟨(fun _ member => nomatch member), rfl⟩) ?_
  · exact collected distinct
  rintro done ⟨nodes, sources⟩ step ⟨after, sources'⟩ - holds stepped different
  rw [List.map_append] at different
  obtain ⟨earlier, -, apart⟩ := List.nodup_append.mp different
  obtain ⟨old, roots⟩ := holds earlier
  obtain ⟨⟨stepNode, isSource⟩, node, rest⟩ := Except.bind_eq_ok.mp stepped
  obtain ⟨when_, guard, rest⟩ := Except.bind_eq_ok.mp rest
  obtain ⟨policy, resolved, rest⟩ := Except.bind_eq_ok.mp rest
  cases rest
  refine ⟨fun other member => ?_, ?_⟩
  · dsimp only
    rw [BTreeMap.get?_insert]
    rcases List.mem_append.mp member with inside | new
    · have elsewhere : step.id ≠ other.id := fun same =>
        apart other.id (List.mem_map_of_mem inside) step.id (List.mem_singleton.mpr rfl) same.symm
      rw [if_neg elsewhere]
      exact old other inside
    · obtain rfl := List.mem_singleton.mp new
      rw [if_pos rfl]
      exact ⟨_, rfl, ⟨isSource, node⟩, guard, resolved, rfl⟩
  · dsimp only at roots ⊢
    rw [List.flatMap_append, ← roots, List.flatMap_singleton]
    unfold rootOf
    rw [node]
    cases isSource
    · exact (List.append_nil _).symm
    · rfl

/-- The routes between consecutive steps. -/
def linksOf (steps : List StepConfig) (id : String) : List Route :=
  (windows steps).flatMap fun pair => if pair.1.id = id then [⟨pair.2.id, none⟩] else []

theorem linksOf_cons_of_ne {step : StepConfig} {rest : List StepConfig} {id : String}
    (other : step.id ≠ id) : linksOf (step :: rest) id = linksOf rest id := by
  cases rest with
  | nil => rfl
  | cons next rest =>
      show (if step.id = id then [_] else []) ++ linksOf (next :: rest) id = _
      rw [if_neg other, List.nil_append]

theorem linksOf_of_notMem {steps : List StepConfig} {id : String}
    (absent : id ∉ steps.map (·.id)) : linksOf steps id = [] := by
  refine List.flatMap_eq_nil_iff.mpr fun pair member => if_neg fun same => absent ?_
  rw [← same]
  exact List.mem_map_of_mem (List.of_mem_zip member).1

theorem linksOf_head {step next : StepConfig} {rest : List StepConfig}
    (fresh : step.id ∉ (next :: rest).map (·.id)) :
    linksOf (step :: next :: rest) step.id = [⟨next.id, none⟩] := by
  show (if step.id = step.id then [_] else []) ++ linksOf (next :: rest) step.id = _
  rw [if_pos rfl, linksOf_of_notMem fresh, List.append_nil]

/-- A node that routes implicitly names no targets. -/
theorem controlRoutes_eq_nil {node : PartialNode}
    (implicit : hasExplicitRoutes (some node) = false) :
    controlRoutes node = [] := by
  obtain ⟨step, guard, policy, state⟩ := node
  cases step with
  | control control =>
      cases control with
      | loop condition bound body => cases body <;> first | rfl | cases implicit
      | switch | parallel => cases implicit
      | _ => rfl
  | _ => rfl

/-- Without edges, a node routes to the targets it names, or else to the next step. -/
theorem from_wireRoutes_of_chain {flow : FlowConfig} {partials : BTreeMap PartialNode}
    {routes : Routes} (wired : wireRoutes registry flow partials = .ok routes)
    (none_ : flow.edges = []) (id : String) :
    routes.from_ id = (if hasExplicitRoutes partials[id]? then [] else linksOf flow.steps id) ++
      ((partials[id]?).map controlRoutes).getD [] := by
  unfold wireRoutes wireEdges at wired
  rw [none_] at wired
  obtain ⟨declared, declares, rest⟩ := Except.map_eq_ok.mp wired
  cases declares
  subst rest
  rw [Routes.from_foldl _ _ _ (fun routes entry id => from_addControl routes entry id),
    BTreeMap.flatMap_key, Routes.from_foldl ∅ (fun pair => pair.1.id)
      (fun pair => if hasExplicitRoutes partials[pair.1.id]? then [] else [⟨pair.2.id, none⟩]),
    Routes.from_empty, List.nil_append]
  · congr 1
    unfold linksOf
    induction windows flow.steps with
    | nil => simp
    | cons pair pairs ih =>
        rw [List.flatMap_cons, ih, List.flatMap_cons]
        by_cases same : pair.1.id = id
        · rw [if_pos same, if_pos same, same]
          cases hasExplicitRoutes partials[id]? <;> rfl
        · rw [if_neg same, if_neg same]
          rfl
  · intro routes pair other
    unfold addLink
    split
    · simp
    · exact routes.from_extend _ _ _

/-- Without edges and control steps, the routes are the links between the steps. -/
theorem from_wireRoutes_of_links {flow : FlowConfig} {partials : BTreeMap PartialNode}
    {routes : Routes} (wired : wireRoutes registry flow partials = .ok routes)
    (none_ : flow.edges = []) (plain : ∀ (id : String) (node : PartialNode),
      partials[id]? = some node → ∀ control, node.step ≠ .control control) (id : String) :
    routes.from_ id = linksOf flow.steps id := by
  have implicit : ∀ node, partials[id]? = some node → hasExplicitRoutes (some node) = false := by
    rintro ⟨step, guard, policy, state⟩ found
    cases step with
    | control control => exact absurd rfl (plain id _ found control)
    | _ => rfl
  rw [from_wireRoutes_of_chain wired none_]
  cases found : partials[id]? with
  | none => exact List.append_nil _
  | some node =>
      rw [implicit node found, Option.map_some, Option.getD_some,
        controlRoutes_eq_nil (implicit node found), List.append_nil]
      rfl

end Steps

/-- The transforms from a node on, up to the sink. -/
def Chain (graph : FlowGraph) (sink : String) : List String → Prop
  | [] => ∃ node, graph.node sink = some node ∧ node.when_ = none ∧ node.step = .sink
  | id :: rest => (∃ node, graph.node id = some node ∧ node.when_ = none ∧
      node.policy = .continue ∧ node.step = .transform ∧
        node.routes = [⟨rest.head?.getD sink, none⟩]) ∧ Chain graph sink rest

/-- A chain ends in its sink. -/
theorem Chain.last {graph : FlowGraph} {sink : String} {ids : List String}
    (chain : graph.Chain sink ids) : ∃ node, graph.node sink = some node ∧ node.step = .sink := by
  induction ids with
  | nil =>
      obtain ⟨node, found, -, isSink⟩ := chain
      exact ⟨node, found, isSink⟩
  | cons id rest ih => exact ih chain.2

/-- What follows a step in a chain. -/
theorem linksOf_chain {step sink : StepConfig} {rest : List StepConfig}
    (fresh : step.id ∉ (rest ++ [sink]).map (·.id)) :
    linksOf (step :: (rest ++ [sink])) step.id =
      [⟨(rest.map (·.id)).head?.getD sink.id, none⟩] := by
  cases rest with
  | nil => exact linksOf_head fresh
  | cons next rest => exact linksOf_head fresh

theorem chain_of_links {graph : FlowGraph} {sink : StepConfig} {transforms : List StepConfig}
    (links : String → List Route)
    (last : ∃ node, graph.node sink.id = some node ∧ node.when_ = none ∧ node.step = .sink)
    (nodes : ∀ step ∈ transforms, ∃ node, graph.node step.id = some node ∧ node.when_ = none ∧
      node.policy = .continue ∧ node.step = .transform ∧ node.routes = links step.id)
    (linked : ∀ step ∈ transforms, links step.id = linksOf (transforms ++ [sink]) step.id)
    (distinct : ((transforms ++ [sink]).map (·.id)).Nodup) :
    graph.Chain sink.id (transforms.map (·.id)) := by
  induction transforms with
  | nil => exact last
  | cons step rest ih =>
      obtain ⟨fresh, others⟩ := List.nodup_cons.mp distinct
      refine ⟨?_, ih (fun other member => nodes other (List.mem_cons_of_mem _ member))
        (fun other member => ?_) others⟩
      · obtain ⟨node, found, unguarded, policy, isTransform, routes⟩ :=
          nodes step List.mem_cons_self
        refine ⟨node, found, unguarded, policy, isTransform, ?_⟩
        rw [routes, linked step List.mem_cons_self]
        exact linksOf_chain fresh
      · rw [linked other (List.mem_cons_of_mem _ member)]
        refine linksOf_cons_of_ne fun same => fresh ?_
        exact List.mem_map.mpr ⟨other, List.mem_append_left _ member, same.symm⟩

/-- A linear flow: a source, transforms that continue on errors, and a sink, in
declaration order. -/
structure Linear (registry : Registry) (ctx : BuildContext) (flow : FlowConfig)
    (source : StepConfig) (transforms : List StepConfig) (sink : StepConfig) : Prop where
  steps : flow.steps = source :: (transforms ++ [sink])
  unwired : flow.edges = []
  unguarded : ∀ step ∈ flow.steps, step.when_ = none
  isSource : buildStepNode registry source ctx = .ok (.source, true)
  isTransform : ∀ step ∈ transforms, buildStepNode registry step ctx = .ok (.transform, false)
  continues : ∀ step ∈ transforms, step.onError = some .continue
  isSink : buildStepNode registry sink ctx = .ok (.sink, false)

/-- The graph of a linear flow. -/
structure IsLine (graph : FlowGraph) (source : String) (transforms : List String)
    (sink : String) : Prop where
  roots : graph.roots = [source]
  entry : ∃ node, graph.node source = some node ∧ node.when_ = none ∧ node.step = .source ∧
    node.routes = [⟨transforms.head?.getD sink, none⟩]
  chain : graph.Chain sink transforms
  plain : ∀ {id node control}, graph.node id = some node → node.step ≠ .control control
  drain : ∀ {id node}, graph.node id = some node → node.step = .sink → id = sink

section Building

variable {registry : Registry} {hashOrder : HashOrder} {flow : FlowConfig} {ctx : BuildContext}
  {graph : FlowGraph} {source sink : StepConfig} {transforms : List StepConfig}

theorem Linear.built_step (linear : Linear registry ctx flow source transforms sink)
    {step : StepConfig} (member : step ∈ flow.steps) {node : NodeStep} {isSource : Bool}
    (built : buildStepNode registry step ctx = .ok (node, isSource)) :
    node = .source ∧ step = source ∨ node = .transform ∧ step ∈ transforms ∨
      node = .sink ∧ step = sink := by
  rw [linear.steps] at member
  rcases List.mem_cons.mp member with rfl | later
  · rw [linear.isSource] at built
    cases built
    exact .inl ⟨rfl, rfl⟩
  · rcases List.mem_append.mp later with inside | last
    · rw [linear.isTransform step inside] at built
      cases built
      exact .inr (.inl ⟨rfl, inside⟩)
    · obtain rfl := List.mem_singleton.mp last
      rw [linear.isSink] at built
      cases built
      exact .inr (.inr ⟨rfl, rfl⟩)

/-- The roots of a linear flow. -/
theorem Linear.roots (linear : Linear registry ctx flow source transforms sink) :
    flow.steps.flatMap (rootOf registry ctx) = [source.id] := by
  have none_ : transforms.flatMap (rootOf registry ctx) = [] := by
    refine List.flatMap_eq_nil_iff.mpr fun step member => ?_
    unfold rootOf
    rw [linear.isTransform step member]
  rw [linear.steps, List.flatMap_cons, List.flatMap_append, none_, List.flatMap_singleton]
  unfold rootOf
  rw [linear.isSource, linear.isSink]
  rfl

/-- **The graph of a linear flow is a line.** -/
theorem Linear.isLine (linear : Linear registry ctx flow source transforms sink)
    (distinct : flow.stepIds.Nodup) (accepted : build registry hashOrder flow ctx = .ok graph) :
    graph.IsLine source.id (transforms.map (·.id)) sink.id := by
  obtain ⟨⟨partials, roots⟩, built, assembled⟩ := Except.bind_eq_ok.mp accepted
  obtain ⟨routes, nodes, wired, -, -, attached, rfl⟩ := assemble_eq_ok.mp assembled
  obtain ⟨each, rooted⟩ := builds_of_buildPartials built distinct
  obtain ⟨lookup, -⟩ := assembleNodes_eq_ok attached
  -- every partial node is that of a declared step
  have origin : ∀ {id node}, partials[id]? = some node →
      ∃ step ∈ flow.steps, step.id = id ∧ Builds registry ctx step node := by
    intro id node found
    obtain ⟨step, member, rfl⟩ := List.mem_map.mp
      ((mem_keys_buildPartials built id).mp ((BTreeMap.mem_keys _ _).mpr ⟨node, found⟩))
    obtain ⟨other, present, builds⟩ := each step member
    cases found.symm.trans present
    exact ⟨step, member, rfl, builds⟩
  have plain : ∀ (id : String) (node : PartialNode), partials[id]? = some node →
      ∀ control, node.step ≠ .control control := by
    intro id node found control isControl
    obtain ⟨step, member, -, ⟨isSource, stepBuilt⟩, -⟩ := origin found
    rw [isControl] at stepBuilt
    rcases linear.built_step member stepBuilt with ⟨same, -⟩ | ⟨same, -⟩ | ⟨same, -⟩ <;> cases same
  have links := from_wireRoutes_of_links wired linear.unwired plain
  have node : ∀ step ∈ flow.steps, ∃ built, nodes[step.id]? = some (nodeOf routes step.id built) ∧
      built.when_ = none ∧ Builds registry ctx step built := by
    intro step member
    obtain ⟨built, found, builds⟩ := each step member
    refine ⟨built, by rw [lookup, found]; rfl, ?_, builds⟩
    have guard := builds.2.1
    unfold stepGuard at guard
    rw [linear.unguarded step member] at guard
    exact (Except.ok.inj guard).symm
  have ids := distinct
  unfold FlowConfig.stepIds at ids
  rw [linear.steps] at ids links node
  obtain ⟨fresh, others⟩ := List.nodup_cons.mp ids
  refine ⟨rooted.trans linear.roots, ?_, ?_, fun found isControl => ?_, fun found isSink => ?_⟩
  · obtain ⟨built, found, unguarded, builds⟩ := node source List.mem_cons_self
    exact ⟨_, found, unguarded, builds.step_eq linear.isSource,
      (links source.id).trans (linksOf_chain fresh)⟩
  · apply chain_of_links routes.from_
    · obtain ⟨built, found, unguarded, builds⟩ :=
        node sink (List.mem_cons_of_mem _ (List.mem_append_right _ List.mem_cons_self))
      exact ⟨_, found, unguarded, builds.step_eq linear.isSink⟩
    · intro step member
      obtain ⟨built, found, unguarded, builds⟩ :=
        node step (List.mem_cons_of_mem _ (List.mem_append_left _ member))
      have policy := builds.2.2.1
      unfold resolvePolicy at policy
      rw [linear.continues step member] at policy
      exact ⟨_, found, unguarded, (Except.ok.inj policy).symm,
        builds.step_eq (linear.isTransform step member), rfl⟩
    · intro step member
      rw [links]
      refine linksOf_cons_of_ne fun same => fresh ?_
      exact List.mem_map.mpr ⟨step, List.mem_append_left _ member, same.symm⟩
    · exact others
  · obtain ⟨built, present, rfl⟩ := Option.map_eq_some_iff.mp ((lookup _).symm.trans found)
    exact plain _ built present _ isControl
  · obtain ⟨built, present, rfl⟩ := Option.map_eq_some_iff.mp ((lookup _).symm.trans found)
    obtain ⟨step, member, rfl, ⟨_, stepBuilt⟩, -⟩ := origin present
    rw [show built.step = .sink from isSink] at stepBuilt
    rcases linear.built_step member stepBuilt with ⟨same, -⟩ | ⟨same, -⟩ | ⟨-, rfl⟩
    · cases same
    · cases same
    · rfl

end Building

end FlowGraph

end Sohara
