import Sohara.Runtime.WellFormed

/-! # Which flows the graph builders accept

Both builders accept a flow of the right shape exactly when its edges stay
between the nodes they build: `buildWithTriggers` knows steps and triggers,
`build` knows the steps only.
-/

namespace Sohara

namespace FlowConfig

variable {registry : Registry} {hashOrder : HashOrder} {flow : FlowConfig}

theorem validateTriggersFrom_disjoint {triggers : List TriggerConfig} {ids : List String}
    (valid : validateTriggersFrom ids triggers = .ok ()) :
    ∀ trigger ∈ triggers, trigger.id ∉ ids := by
  induction triggers generalizing ids with
  | nil => intro trigger member; cases member
  | cons trigger rest ih =>
      unfold validateTriggersFrom at valid
      split at valid
      · cases valid
      · split at valid
        · cases valid
        · next fresh =>
            obtain ⟨_, -, others⟩ := Except.bind_eq_ok.mp valid
            intro other member
            rcases List.mem_cons.mp member with rfl | inside
            · exact fresh
            · exact fun taken => ih others other inside (List.mem_cons_of_mem _ taken)

/-- What validation promises to the graph builders. -/
structure Validated (registry : Registry) (flow : FlowConfig) : Prop where
  disjoint : ∀ id ∈ flow.triggerIds, id ∉ flow.stepIds
  endpoints : ∀ edge ∈ flow.edges,
    edge.from_ ∈ flow.stepIds ++ flow.triggerIds ∧ edge.to_ ∈ flow.stepIds ++ flow.triggerIds
  guards : ∀ edge ∈ flow.edges, ∃ route, FlowGraph.edgeRoute registry edge = .ok route

theorem validated_of_validate (valid : flow.validate registry hashOrder = .ok ()) :
    flow.Validated registry := by
  unfold validate at valid
  obtain ⟨_, -, rest⟩ := Except.bind_eq_ok.mp valid
  obtain ⟨_, triggers, rest⟩ := Except.bind_eq_ok.mp rest
  obtain ⟨_, -, rest⟩ := Except.bind_eq_ok.mp rest
  obtain ⟨_, edges, -⟩ := Except.bind_eq_ok.mp rest
  obtain ⟨_, each, -⟩ := Except.bind_eq_ok.mp edges
  have checked := Except.forM_eq_ok.mp each
  refine ⟨fun id member => ?_, fun edge member => ?_, fun edge member => ?_⟩
  · obtain ⟨trigger, declared, rfl⟩ := List.mem_map.mp member
    exact validateTriggersFrom_disjoint triggers trigger declared
  · have valid := checked edge member
    unfold validateEdge at valid
    dsimp only at valid
    split at valid
    · cases valid
    · next fromKnown =>
        split at valid
        · cases valid
        · next toKnown =>
            exact ⟨Decidable.not_not.mp fromKnown, Decidable.not_not.mp toKnown⟩
  · have valid := checked edge member
    unfold validateEdge at valid
    dsimp only at valid
    unfold FlowGraph.edgeRoute
    split at valid <;> [cases valid; skip]
    split at valid <;> [cases valid; skip]
    split at valid <;> [cases valid; skip]
    cases guarded : edge.when_ with
    | none => exact ⟨_, rfl⟩
    | some guard =>
        rw [guarded] at valid
        cases parsed : registry.parse guard with
        | ok expr =>
            simp only [parsed]
            exact ⟨_, rfl⟩
        | error error =>
            simp only [parsed] at valid
            cases valid

end FlowConfig

namespace FlowGraph

section Modes

variable {registry : Registry} {hashOrder : HashOrder} {flow : FlowConfig}
  {partials : BTreeMap PartialNode} {roots : List String} {ctx : BuildContext}

/-- The partial nodes are the declared steps. -/
theorem mem_keys_buildPartials (built : buildPartials registry flow ctx = .ok (partials, roots))
    (id : String) : id ∈ partials.keys ↔ id ∈ flow.stepIds := by
  rw [BTreeMap.mem_keys]
  refine Except.foldlM_induct built (motive := fun done built =>
    (∃ node, built.1[id]? = some node) ↔ id ∈ done.map (·.id)) (by simp) ?_
  rintro done ⟨nodes, sources⟩ step ⟨after, _⟩ - holds stepped
  obtain ⟨⟨stepNode, isSource⟩, -, rest⟩ := Except.bind_eq_ok.mp stepped
  obtain ⟨when_, -, rest⟩ := Except.bind_eq_ok.mp rest
  obtain ⟨policy, -, rest⟩ := Except.bind_eq_ok.mp rest
  cases rest
  rw [List.map_append, List.mem_append, ← holds]
  dsimp only
  rw [BTreeMap.get?_insert]
  by_cases same : step.id = id
  · simp [same]
  · simp [same, Ne.symm same]

/-- The edges of a flow start and end at its declared ids, when its control
targets do. -/
theorem Connects.source_mem (valid : flow.Validated registry)
    (built : buildPartials registry flow ctx = .ok (partials, roots)) {source target : String}
    (connects : Connects flow partials source target) :
    source ∈ flow.stepIds ++ flow.triggerIds := by
  rcases connects with declared | ⟨node, found, -⟩
  · unfold declaredEdges at declared
    split at declared
    · obtain ⟨pair, member, equal⟩ := List.mem_map.mp declared
      have first := (List.of_mem_zip (List.mem_filter.mp member).1).1
      cases equal
      exact List.mem_append_left _ (List.mem_map_of_mem first)
    · obtain ⟨edge, member, equal⟩ := List.mem_map.mp declared
      cases equal
      exact (valid.endpoints edge member).1
  · obtain ⟨partial_, present, -⟩ := Option.map_eq_some_iff.mp found
    exact List.mem_append_left _ ((mem_keys_buildPartials built source).mp
      ((BTreeMap.mem_keys _ _).mpr ⟨_, present⟩))

/-- Wiring succeeds when the guards of the edges parse. -/
theorem exists_wireRoutes (valid : flow.Validated registry) (partials : BTreeMap PartialNode) :
    ∃ routes, wireRoutes registry flow partials = .ok routes := by
  have wired : ∃ routes, wireEdges registry flow partials = .ok routes := by
    unfold wireEdges
    split
    · exact ⟨_, rfl⟩
    · refine Except.exists_foldlM (fun routes edge member => ?_) ∅
      obtain ⟨route, parsed⟩ := valid.guards edge member
      exact ⟨_, Except.map_eq_ok.mpr ⟨route, parsed, rfl⟩⟩
  obtain ⟨routes, wired⟩ := wired
  exact ⟨_, Except.map_eq_ok.mpr ⟨routes, wired, rfl⟩⟩

variable (roots hashOrder) in
/-- Assembly succeeds when all edges run between the given nodes, without cycles and
not out of sinks. -/
theorem exists_assemble (valid : flow.Validated registry)
    (inside : ∀ source target, Connects flow partials source target →
      source ∈ partials.keys ∧ target ∈ partials.keys)
    (acyclic : ∀ id, ¬ Relation.TransGen (Connects flow partials) id id)
    (drained : ∀ id node, partials[id]? = some node → node.step = .sink →
      ∀ target, ¬ Connects flow partials id target) :
    ∃ graph, assemble registry hashOrder flow partials roots = .ok graph := by
  obtain ⟨routes, wired⟩ := exists_wireRoutes valid partials
  have connects := mem_wireRoutes wired
  have sinks : ∀ id node, partials[id]? = some node → node.step = .sink →
      routes.from_ id = [] := by
    intro id node found sink
    refine List.eq_nil_iff_forall_not_mem.mpr fun route member => ?_
    exact drained id node found sink route.to_ ((connects id route.to_).mp ⟨route, member, rfl⟩)
  obtain ⟨nodes, assembled⟩ := exists_assembleNodes sinks
  refine ⟨_, assemble_eq_ok.mpr ⟨routes, nodes, wired, ?_, ?_, assembled, rfl⟩⟩
  · rw [Routes.validateTargets_eq_ok]
    intro id route member
    have edge := (connects id route.to_).mp ⟨route, member, rfl⟩
    refine ⟨(inside id route.to_ edge).2, fun same => acyclic id (.single ?_)⟩
    rw [← same] at edge
    exact edge
  · refine Routes.checkAcyclic_eq_ok Std.TreeMap.nodup_keys (fun id route member =>
      inside id route.to_ ((connects id route.to_).mp ⟨route, member, rfl⟩)) fun id cycle => ?_
    exact acyclic id (Relation.TransGen.mono (fun source target => (connects source target).mp)
      id id cycle)

/-- In an assembled graph all edges run between the given nodes. -/
theorem inside_of_assemble {graph : FlowGraph}
    (assembled : assemble registry hashOrder flow partials roots = .ok graph)
    {source target : String} (connects : Connects flow partials source target) :
    source ∈ partials.keys ∧ target ∈ partials.keys := by
  obtain ⟨routes, nodes, wired, valid, acyclic, -, -⟩ := assemble_eq_ok.mp assembled
  obtain ⟨route, member, rfl⟩ := (mem_wireRoutes wired source target).mpr connects
  have targets := (routes.validateTargets_eq_ok _).mp valid
  obtain ⟨origins, -⟩ := Routes.exists_rank Std.TreeMap.nodup_keys
    (fun id route member => (targets id route member).1) acyclic
  exact ⟨origins source route member, (targets source route member).1⟩

section Triggers

/-- The partial nodes with one source per trigger. -/
def addTriggers (partials : BTreeMap PartialNode) (ids : List String) : BTreeMap PartialNode :=
  ids.foldl (fun partials id => partials.insert id triggerNode) partials

theorem get?_addTriggers (ids : List String) (id : String) :
    (addTriggers partials ids)[id]? = if id ∈ ids then some triggerNode else partials[id]? := by
  unfold addTriggers
  induction ids generalizing partials with
  | nil => simp
  | cons first rest ih =>
      rw [List.foldl_cons, ih, BTreeMap.get?_insert]
      by_cases inside : id ∈ rest
      · simp [inside]
      · by_cases same : first = id
        · simp [same]
        · simp [inside, same, Ne.symm same]

/-- Trigger nodes add no edges. -/
theorem connects_addTriggers (valid : flow.Validated registry)
    (built : buildPartials registry flow ctx = .ok (partials, roots)) (source target : String) :
    Connects flow (addTriggers partials flow.triggerIds) source target ↔
      Connects flow partials source target := by
  have unchanged : ∀ id ∈ flow.stepIds,
      (addTriggers partials flow.triggerIds)[id]? = partials[id]? := by
    intro id declared
    rw [get?_addTriggers, if_neg fun trigger => valid.disjoint id trigger declared]
  have edges : declaredEdges flow (addTriggers partials flow.triggerIds) =
      declaredEdges flow partials := by
    unfold declaredEdges
    refine if_congr Iff.rfl (congrArg _ (List.filter_congr fun pair member => ?_)) rfl
    rw [unchanged pair.1.id (List.mem_map_of_mem (List.of_mem_zip member).1)]
  unfold Connects
  rw [edges]
  refine or_congr Iff.rfl (exists_congr fun node => and_congr_left fun _ => ?_)
  by_cases trigger : source ∈ flow.triggerIds
  · have absent : partials[source]? = none := by
      rw [Option.eq_none_iff_forall_ne_some]
      intro node found
      exact valid.disjoint source trigger ((mem_keys_buildPartials built source).mp
        ((BTreeMap.mem_keys _ _).mpr ⟨node, found⟩))
    rw [get?_addTriggers, if_pos trigger, absent]
    simp [triggerNode]
  · rw [get?_addTriggers, if_neg trigger]

/-- The shape asked of a flow: known control targets, nothing behind a sink, and no
cycle along its edges and control routes. -/
structure Shaped (flow : FlowConfig) (partials : BTreeMap PartialNode) : Prop where
  known : ∀ source target, Connects flow partials source target →
    target ∈ flow.stepIds ++ flow.triggerIds
  drained : ∀ id node, partials[id]? = some node → node.step = .sink →
    ∀ target, ¬ Connects flow partials id target
  acyclic : ∀ id, ¬ Relation.TransGen (Connects flow partials) id id

/-- With one instance for each trigger, the nodes added are those of all triggers. -/
theorem map_fst_zip_triggers {triggers : List Trigger}
    (paired : triggers.length = flow.triggers.length) :
    (flow.triggers.zip triggers).map (·.1.id) = flow.triggerIds := by
  have firsts : (flow.triggers.zip triggers).map Prod.fst = flow.triggers :=
    List.map_fst_zip paired.ge
  calc (flow.triggers.zip triggers).map (·.1.id)
      = ((flow.triggers.zip triggers).map Prod.fst).map (·.id) := by rw [List.map_map]; rfl
    _ = flow.triggerIds := by rw [firsts]; rfl

/-- **With triggers**, every flow of the right shape is accepted. -/
theorem exists_buildWithTriggers (valid : flow.Validated registry)
    (built : buildPartials registry flow ctx = .ok (partials, roots))
    (shaped : Shaped flow partials) {triggers : List Trigger}
    (paired : triggers.length = flow.triggers.length) :
    ∃ graph, buildWithTriggers registry hashOrder flow ctx triggers = .ok graph := by
  have ids := map_fst_zip_triggers paired
  have connects := connects_addTriggers valid built
  have declared : ∀ id, id ∈ flow.stepIds ++ flow.triggerIds →
      id ∈ (addTriggers partials flow.triggerIds).keys := by
    intro id member
    rw [BTreeMap.mem_keys, get?_addTriggers]
    split
    · exact ⟨_, rfl⟩
    · next notTrigger =>
        rw [← BTreeMap.mem_keys, mem_keys_buildPartials built]
        exact (List.mem_append.mp member).resolve_right notTrigger
  obtain ⟨graph, assembled⟩ := exists_assemble hashOrder (roots ++ flow.triggerIds) valid
    (fun source target edge =>
      ⟨declared source (Connects.source_mem valid built ((connects source target).mp edge)),
        declared target (shaped.known source target ((connects source target).mp edge))⟩)
    (fun id cycle => shaped.acyclic id
      (Relation.TransGen.mono (fun source target => (connects source target).mp) id id cycle))
    (fun id node found sink target edge => by
      rw [get?_addTriggers] at found
      split at found
      · cases found
        cases sink
      · exact shaped.drained id node found sink target ((connects id target).mp edge))
  refine ⟨graph, Except.bind_eq_ok.mpr ⟨(partials, roots), built, ?_⟩⟩
  simp only [ids]
  exact assembled

/-- **Without triggers**, a flow of the right shape is accepted exactly when no edge
touches a trigger. -/
theorem build_eq_ok_iff (valid : flow.Validated registry)
    (built : buildPartials registry flow ctx = .ok (partials, roots))
    (shaped : Shaped flow partials) :
    (∃ graph, build registry hashOrder flow ctx = .ok graph) ↔
      ∀ source target, Connects flow partials source target →
        source ∉ flow.triggerIds ∧ target ∉ flow.triggerIds := by
  have keys := mem_keys_buildPartials built
  constructor
  · rintro ⟨graph, accepted⟩ source target edge
    obtain ⟨⟨partials', roots'⟩, built', assembled⟩ := Except.bind_eq_ok.mp accepted
    cases built.symm.trans built'
    obtain ⟨sourceIn, targetIn⟩ := inside_of_assemble assembled edge
    exact ⟨fun trigger => valid.disjoint source trigger ((keys source).mp sourceIn),
      fun trigger => valid.disjoint target trigger ((keys target).mp targetIn)⟩
  · intro untouched
    obtain ⟨graph, assembled⟩ := exists_assemble hashOrder roots valid
      (fun source target edge => by
        obtain ⟨notSource, notTarget⟩ := untouched source target edge
        exact ⟨(keys source).mpr ((List.mem_append.mp
            (Connects.source_mem valid built edge)).resolve_right notSource),
          (keys target).mpr ((List.mem_append.mp
            (shaped.known source target edge)).resolve_right notTarget)⟩)
      shaped.acyclic shaped.drained
    exact ⟨graph, Except.bind_eq_ok.mpr ⟨(partials, roots), built, assembled⟩⟩

end Triggers

/-- **Acceptance in both modes.** A validated flow whose components build and whose
edges have the right shape is accepted by both builders exactly when no edge
touches a trigger: built without triggers, the graph has no node for it. -/
theorem accepted_both_iff {loading : HashOrder} (valid : flow.validate registry loading = .ok ())
    (built : buildPartials registry flow ctx = .ok (partials, roots))
    (shaped : Shaped flow partials) {triggers : List Trigger}
    (paired : triggers.length = flow.triggers.length) :
    ((∃ graph, build registry hashOrder flow ctx = .ok graph) ∧
        ∃ graph, buildWithTriggers registry hashOrder flow ctx triggers = .ok graph) ↔
      ∀ source target, Connects flow partials source target →
        source ∉ flow.triggerIds ∧ target ∉ flow.triggerIds := by
  have validated := FlowConfig.validated_of_validate valid
  rw [and_iff_left (exists_buildWithTriggers validated built shaped paired)]
  exact build_eq_ok_iff validated built shaped

end Modes

namespace Sample

/-- A component whose config needs the given fields. -/
def requiring (needed : List String) (built : BuiltStep) (config : Value) :
    Except Error BuiltStep :=
  match config with
  | .object fields =>
      if needed.all fun field => (Assoc.get? field fields).isSome then .ok built
      else .error (.config "missing field")
  | _ => .error (.config "invalid type")

/-- Built-in components that need no expressions to be parsed. -/
def registry : Registry where
  build kind stepType config _ :=
    match kind, stepType with
    | .source, "file" => requiring ["path", "format"] .source config
    | .transform, "map" => requiring [] .transform config
    | .transform, "assert" => requiring ["expect"] .transform config
    | .sink, "file" => requiring ["path", "format"] .sink config
    | _, _ => .error (.config "unknown step")
  parse _ := .error (.parse "empty expression")
  parseDuration _ := .error "invalid duration"

/-- Iteration in insertion order. -/
def hashOrder : HashOrder := ⟨fun elements => elements, fun _ => .refl _⟩

/-- A context without variables and without a bus. -/
def ctx : BuildContext := { vars := [], bus := false, flow := "intake", step := none }

/-- A step of a kind, without options. -/
def step (id : String) (kind : StepKind) (stepType : String) : StepConfig where
  id := id
  kind := some kind
  stepType := some stepType
  name := none
  when_ := none
  onError := none
  retry := none
  state := none
  extra := []

/-- Where a file component reads or writes. -/
def fileAt (id : String) : Fields :=
  [("path", .string (id ++ ".jsonl")), ("format", .string "jsonl")]

/-- A step that reads a file. -/
def source (id : String) : StepConfig := { step id .source "file" with extra := fileAt id }

/-- A step that writes a file. -/
def sink (id : String) : StepConfig := { step id .sink "file" with extra := fileAt id }

/-- A serve flow: an http trigger feeding one file sink. -/
def intake : FlowConfig where
  name := "intake"
  version := "1"
  vars := ∅
  triggers := [{
    id := "hook"
    triggerType := "http"
    extra := [("method", .string "POST"), ("path", .string "/orders")] }]
  steps := [sink "out"]
  edges := [.pair "hook" "out"]
  checkpointEvery := none

/-- The trigger of the serve flow, once it is built. -/
def hook : Trigger := ⟨"http:POST /orders"⟩

/-- The only step of the serve flow. -/
def intakePartials : BTreeMap PartialNode :=
  (∅ : BTreeMap PartialNode).insert "out"
    { step := .sink, when_ := none, policy := .fail, state := none }

theorem intake_built : buildPartials registry intake ctx = .ok (intakePartials, []) := rfl

theorem intake_connects (source target : String)
    (connects : Connects intake intakePartials source target) :
    source = "hook" ∧ target = "out" := by
  rcases connects with declared | ⟨node, found, -⟩
  · have edges : declaredEdges intake intakePartials = [("hook", "out")] := rfl
    rw [edges, List.mem_singleton] at declared
    cases declared
    exact ⟨rfl, rfl⟩
  · obtain ⟨partial_, present, isControl⟩ := Option.map_eq_some_iff.mp found
    unfold intakePartials at present
    rw [BTreeMap.get?_insert] at present
    split at present
    · cases present
      cases isControl
    · simp at present

theorem intake_shaped : Shaped intake intakePartials := by
  refine ⟨fun source target edge => ?_, fun id node found sink target edge => ?_,
    fun id cycle => ?_⟩
  · rw [(intake_connects source target edge).2]
    decide
  · rw [(intake_connects id target edge).1] at found
    simp [intakePartials] at found
  · obtain ⟨middle, first, -⟩ := Relation.TransGen.head'_iff.mp cycle
    obtain ⟨before, -, last⟩ := Relation.TransGen.tail'_iff.mp cycle
    have start := (intake_connects id middle first).1
    have finish := (intake_connects before id last).2
    rw [start] at finish
    exact absurd finish (by decide)

/-- The serve flow builds with its trigger, but not without it. -/
theorem intake_rejected_without_triggers :
    intake.validate registry hashOrder = .ok () ∧
      buildPartials registry intake ctx = .ok (intakePartials, []) ∧
      Shaped intake intakePartials ∧
      build registry hashOrder intake ctx = .error (.config FlowConfig.cycleMessage) :=
  ⟨rfl, rfl, intake_shaped, rfl⟩

theorem intake_not_accepted_both :
    ¬ ((∃ graph, build registry hashOrder intake ctx = .ok graph) ∧
      ∃ graph, buildWithTriggers registry hashOrder intake ctx [hook] = .ok graph) :=
  fun both => ((@accepted_both_iff _ _ _ _ _ _ hashOrder rfl intake_built intake_shaped _ rfl).mp
    both "hook" "out" (.inl (by decide))).1 (by decide)

end Sample

end FlowGraph

end Sohara
