import Sohara.Runtime.Creation
import Sohara.Runtime.JoinDrain
import Sohara.Runtime.StateRaces

/-! # What state expressions see

The expressions of a state step see the record beside the state once the step has one, and the
plain payload before. A step that declares a state has one from the creation of its executor
on; another has one from its first update on.
-/

namespace Sohara

open Async Async.Program

section Definitions

variable (executor : Executor) (host : Host) (name : String) (exprs : List (String × Expr))

/-- A step of a run evaluates a field of a state step for a record on a value. -/
def EvaluatesField (record : Record) (value : Value)
    (before : List (Occurrence (Traced Engine) World)) (step : Occurrence (Traced Engine) World) :
    Prop :=
  Executor.brings name step.op.2 = some record ∧
    (∃ first second left state, executor.updating name exprs host before step.op.2 =
      .evaluating first second left state) ∧
    ∃ platform ctx expr, step.op.1 = .eval platform ctx expr value

/-- The fields of a state step are evaluated on values of one shape: the record beside the state,
always, or the plain payload, always. -/
def OneShape (steps : List (Occurrence (Traced Engine) World)) : Prop :=
  EachStep (fun before step => ∀ record value,
      EvaluatesField executor host name exprs record value before step →
        ∃ state, value = .object [("record", record.payload), ("state", state)]) steps ∨
    EachStep (fun before step => ∀ record value,
      EvaluatesField executor host name exprs record value before step →
        value = record.payload) steps

/-- The state has been updated. -/
def Updated (steps : List (Occurrence (Traced Engine) World)) : Prop :=
  ∃ write ∈ steps, ∃ value, write.op.1 = .setState name value

/-- The fields are evaluated on what the visit has read. -/
def EvaluatesRead (before : List (Occurrence (Traced Engine) World))
    (step : Occurrence (Traced Engine) World) : Prop :=
  ∀ record value, EvaluatesField executor host name exprs record value before step →
    ∃ read ∈ before, read.op = (.stateOf name, step.op.2) ∧
      value = syntheticValue record.payload (read.world.states.get? name)

end Definitions

section Shapes

variable {registry : Registry} {hashOrder : HashOrder} {flow : FlowConfig} {ctx : BuildContext}
  {env : ExecutorEnv} {graph : FlowGraph} {vars : Fields} {config : ExecutorConfig}
  {executor : Executor} {host : Host} {world opened : World} {name : String} {node : Node}
  {exprs : List (String × Expr)} {steps before after : List (Occurrence (Traced Engine) World)}
  {creating : List (Occurrence Engine World)} {step : Occurrence (Traced Engine) World}
  {stopped : Config (Traced Engine) World} {record : Record} {value : Value}

/-- **A state is there from its first update on.** -/
theorem isSome_of_history {last : World}
    (history : History (tracedHandle (World.perform host)) world steps last) :
    (last.states.get? name).isSome = true ↔
      (world.states.get? name).isSome = true ∨ Updated name steps := by
  induction history with
  | nil => exact ⟨.inl, fun cases => cases.resolve_right fun ⟨_, member, _⟩ => nomatch member⟩
  | @snoc steps between history task op ih =>
      have earlier : Updated name (steps ++ [⟨task, between, op⟩]) ↔
          Updated name steps ∨ ∃ value, op.1 = .setState name value := by
        unfold Updated
        constructor
        · rintro ⟨write, member, value, writes⟩
          rcases List.mem_append.mp member with old | new
          · exact .inl ⟨write, old, value, writes⟩
          · rw [List.mem_singleton.mp new] at writes
            exact .inr ⟨value, writes⟩
        · rintro (⟨write, member, writes⟩ | writes)
          · exact ⟨write, List.mem_append_left _ member, writes⟩
          · exact ⟨_, List.mem_append_right _ List.mem_cons_self, writes⟩
      rw [earlier, ← or_assoc, ← ih]
      show ((World.perform host between op.1).2.states.get? name).isSome = true ↔ _
      by_cases writes : ∃ value, op.1 = .setState name value
      · obtain ⟨value, written⟩ := writes
        rw [written, World.perform_states]
        refine iff_of_true ?_ (.inr ⟨value, rfl⟩)
        exact Option.isSome_of_eq_some (Assoc.get?_insert_self name value between.states)
      · rw [states_perform fun value written => writes ⟨value, written⟩]
        exact (or_iff_left writes).symm

/-- Every evaluation of a run is on what its visit has read. -/
theorem evaluatesRead_run (formed : executor.graph.WellFormed)
    (found : executor.graph.node name = some node) (isState : node.step = .control (.state exprs))
    (run : executor.TracedRun host world steps stopped) :
    EachStep (EvaluatesRead executor host name exprs) steps := by
  have initial : Serialized executor host name exprs (world.states.get? name) [] world :=
    serialized_run formed found isState .refl
  refine (updates_run formed found isState (fun steps last =>
    Serialized executor host name exprs (world.states.get? name) steps last ∧
      EachStep (EvaluatesRead executor host name exprs) steps) ?_ ⟨initial, eachStep_nil⟩ run).2
  rintro steps last index op visit ⟨serialized, each⟩ permitted
  refine ⟨serialized.step permitted, eachStep_snoc.mpr ⟨each, ?_⟩⟩
  rintro record value ⟨brings, ⟨first, second, left, state, evaluating⟩, platform, ctx, expr, same⟩
  obtain rfl : op = .eval platform ctx expr value := same
  have brings : Executor.brings name visit = some record := brings
  have evaluating : executor.updating name exprs host steps visit =
      .evaluating first second left state := evaluating
  unfold Executor.updates at permitted
  rw [brings, evaluating] at permitted
  cases left with
  | nil => exact nomatch permitted
  | cons entry left =>
      have sees : Op.eval platform ctx expr value = .eval executor.platform ⟨executor.vars⟩ entry.2
        (syntheticValue record.payload first) := permitted
      obtain ⟨read, member, reads, current⟩ :=
        serialized.reads visit first (by rw [evaluating]; rfl)
      refine ⟨read, member, reads, ?_⟩
      rw [current]
      exact (Op.eval.inj sees).2.2.2

/-- **What state expressions see.** An executor is created in a fresh process and runs. The
fields of a step that declares a state are evaluated on the record beside the state, always; those
of a step that declares none on the plain payload when its visit has read before the first update
of the run, and on the record beside the state when it has read after it. -/
theorem context_shape (accepted : FlowGraph.Accepted registry hashOrder flow ctx graph)
    (found : graph.node name = some node) (isState : node.step = .control (.state exprs))
    {store : Option Entries} {file : Entries} {written : String → List Record}
    (created : Yields host (newExecutor env graph vars config) (.start store file written) creating
      executor opened)
    (run : executor.TracedRun host opened (before ++ step :: after) stopped)
    (evaluates : EvaluatesField executor host name exprs record value before step) :
    ∃ early read late, before = early ++ read :: late ∧ read.op = (.stateOf name, step.op.2) ∧
      (node.state.isSome = true ∨ Updated name early →
        ∃ state, value = .object [("record", record.payload), ("state", state)]) ∧
      (node.state = none → ¬ Updated name early → value = record.payload) := by
  have formed := accepted.wellFormed
  have creation := yields_newExecutor formed rfl created
  have known : executor.graph.node name = some node := by rw [creation.built]; exact found
  have formed : executor.graph.WellFormed := by rw [creation.built]; exact formed
  obtain ⟨read, member, reads, rfl⟩ :=
    evaluatesRead_run formed known isState run before step after rfl record value evaluates
  obtain ⟨early, late, rfl⟩ := List.append_of_mem member
  rw [List.append_assoc, List.cons_append] at run
  obtain ⟨between, -, earlier, here, -, -⟩ := run.split
  have present : (between.world.states.get? name).isSome = true ↔
      (opened.states.get? name).isSome = true ∨ Updated name early :=
    isSome_of_history earlier.leads
  rw [here, creation.states name node found] at present
  have declared : (startingState opened.entries executor.runId config.resume node).isSome =
      node.state.isSome := Option.isSome_map ..
  rw [declared] at present
  refine ⟨early, read, late, rfl, reads, fun either => ?_, fun undeclared never => ?_⟩
  · obtain ⟨state, current⟩ := Option.isSome_iff_exists.mp (present.mpr either)
    rw [current]
    exact ⟨state, rfl⟩
  · have absent : read.world.states.get? name = none := by
      refine Option.not_isSome_iff_eq_none.mp fun some_ => ?_
      rcases present.mp some_ with declares | updated
      · rw [undeclared] at declares
        cases declares
      · exact never updated
    rw [absent]
    rfl

end Shapes

namespace Sample

/-- A field of the payload is kept. -/
def keepFields : List (String × Expr) := [("last", .path ["n"])]

/-- Components that also provide a state step. -/
def keepRegistry : Registry :=
  { FlowGraph.Sample.registry with
    build := fun kind type config ctx =>
      match kind, type with
      | .transform, "state" =>
          FlowGraph.Sample.requiring ["expr"] (.control (.state keepFields)) config
      | _, _ => FlowGraph.Sample.registry.build kind type config ctx }

/-- A state step that declares no state. -/
def keepFlow : FlowConfig :=
  { FlowGraph.Sample.intake with
    triggers := []
    steps := [FlowGraph.Sample.source "in",
      { FlowGraph.Sample.step "keep" .transform "state" with
        extra := [("expr", .object [("last", .string "n")])] },
      FlowGraph.Sample.sink "out"]
    edges := [.pair "in" "keep", .pair "keep" "out"] }

/-- The graph of the state step. -/
def keepGraph : FlowGraph where
  name := "intake"
  nodes := (((∅ : BTreeMap Node).insert "in"
    ⟨"in", none, .fail, .source, [⟨"keep", none⟩], 0, none⟩).insert "keep"
      ⟨"keep", none, .fail, .control (.state keepFields), [⟨"out", none⟩], 1, none⟩).insert "out"
        ⟨"out", none, .fail, .sink, [], 1, none⟩
  roots := ["in"]

theorem keepFlow_built : FlowGraph.build keepRegistry FlowGraph.Sample.hashOrder keepFlow
    FlowGraph.Sample.ctx = .ok keepGraph := rfl

/-- The executor that is created. -/
def keepExecutor : Executor := { executor keepGraph with runId := "id" }

/-- The payload of every record. -/
def kept : Value := .object [("n", .bool true)]

/-- What the second record is evaluated on. -/
def keptBeside : Value := .object [("record", kept), ("state", .object [("last", .bool true)])]

theorem kept_ne (value : Value) (rest : Fields) : kept ≠ .object (("record", value) :: rest) := by
  intro same
  have keys : "n" = "record" := congrArg Prod.fst (List.cons.inj (Value.object.inj same)).1
  exact absurd keys (by decide)

/-- Two records with one payload. -/
def alike (_ : String) : Except Error (List Item) := .ok [.ok (record kept), .ok (record kept)]

/-- The process once its executor is created. -/
def keepOpened : World := (World.perform (host alike) storeless .freshUuid).2

theorem keep_created : ∃ creating, Yields (host alike)
    (newExecutor ⟨platform, FlowGraph.Sample.hashOrder⟩ keepGraph [] ⟨false, none, false⟩) storeless
      creating keepExecutor keepOpened :=
  ⟨_, .perform (.perform (.done ..))⟩

/-- A run of the two records. -/
def keepRun : List (Occurrence (Traced Engine) World) × Config (Traced Engine) World :=
  Config.play (S := Traced Engine) (tracedBody walkCall)
    (fun _ => tracedHandle (World.perform (host alike)))
    ⟨keepOpened, spawnedAll keepExecutor.programs⟩ (List.replicate 30 0)

theorem keep_run : keepExecutor.TracedRun (host alike) keepOpened keepRun.1 keepRun.2 :=
  Config.run_play _ _

/-- The visits of the state step. -/
def keepVisit (round : Nat) : Visit Engine :=
  ⟨0, [⟨0, 0, ⟨keepExecutor, record kept, "keep"⟩⟩, ⟨round, 0, ⟨keepExecutor, record kept, "in"⟩⟩]⟩

/-- The visit of the sink by the first record. -/
def sinkVisit : Visit Engine := (keepVisit 0).enter ⟨0, 0, ⟨keepExecutor, record kept, "out"⟩⟩

/-- Whether a step belongs to a visit of the state step. -/
def ofRound (round : Nat) (step : Occurrence (Traced Engine) World) : Bool :=
  step.op.2.hops.map (·.round) = [0, round]

theorem keep_visits : keepRun.1.map (·.op.2) =
    ⟨0, []⟩ :: (List.replicate 5 (keepVisit 0) ++
      (List.replicate 5 sinkVisit ++ List.replicate 4 (keepVisit 1))) := rfl

theorem keep_tells (round : Nat) {step : Occurrence (Traced Engine) World}
    (member : step ∈ keepRun.1) : ofRound round step = true ↔ step.op.2 = keepVisit round := by
  have inside : step.op.2 ∈ keepRun.1.map (·.op.2) := List.mem_map_of_mem member
  have cases_ : step.op.2 = ⟨0, []⟩ ∨ step.op.2 = sinkVisit ∨
      ∃ other, step.op.2 = keepVisit other := by
    rw [keep_visits, List.mem_cons, List.mem_append, List.mem_append] at inside
    rcases inside with root | first | sink | second
    · exact .inl root
    · exact .inr (.inr ⟨0, (List.mem_replicate.mp first).2⟩)
    · exact .inr (.inl (List.mem_replicate.mp sink).2)
    · exact .inr (.inr ⟨1, (List.mem_replicate.mp second).2⟩)
  unfold ofRound
  rw [decide_eq_true_iff]
  rcases cases_ with root | sink | ⟨other, visit⟩
  · rw [root]
    exact ⟨(fun same => nomatch same), fun same => nomatch same⟩
  · rw [sink]
    constructor
    · intro same
      cases congrArg List.length same
    · intro same
      cases congrArg (fun visit => visit.hops.length) same
  · rw [visit]
    constructor
    · intro same
      obtain rfl : other = round := (List.cons.inj (List.cons.inj same).2).1
      rfl
    · intro same
      rw [same]
      rfl

/-- The first record is evaluated on its payload. -/
theorem keep_first : ∃ step, keepRun.1 = keepRun.1.take 3 ++ step :: keepRun.1.drop 4 ∧
    EvaluatesField keepExecutor (host alike) "keep" keepFields (record kept) kept (keepRun.1.take 3)
      step := by
  refine ⟨_, rfl, rfl, ⟨none, none, keepFields, .object [], ?_⟩, _, _, _, rfl⟩
  exact progress_eq_foldl fun step member => keep_tells 0 (List.mem_of_mem_take member)

/-- The second record is evaluated beside the state. -/
theorem keep_second : ∃ step, keepRun.1 = keepRun.1.take 13 ++ step :: keepRun.1.drop 14 ∧
    EvaluatesField keepExecutor (host alike) "keep" keepFields (record kept) keptBeside
      (keepRun.1.take 13) step := by
  refine ⟨_, rfl, rfl,
    ⟨some (.object [("last", .bool true)]), some (.object [("last", .bool true)]), keepFields,
      .object [("last", .bool true)], ?_⟩, _, _, _, rfl⟩
  exact progress_eq_foldl fun step member => keep_tells 1 (List.mem_of_mem_take member)

/-- Two records with one payload are evaluated on values of two shapes, and the expression that
has resolved for the first one fails for the second. -/
theorem shapes_differ :
    FlowGraph.build keepRegistry FlowGraph.Sample.hashOrder keepFlow FlowGraph.Sample.ctx =
        .ok keepGraph ∧
      ∃ creating steps stopped,
        Yields (host alike) (newExecutor ⟨platform, FlowGraph.Sample.hashOrder⟩ keepGraph []
          ⟨false, none, false⟩) storeless creating keepExecutor keepOpened ∧
        keepExecutor.TracedRun (host alike) keepOpened steps stopped ∧
        ¬ OneShape keepExecutor (host alike) "keep" keepFields steps ∧
        eval platform Draws.blank ⟨[]⟩ (.path ["n"]) [] kept = .ok (.bool true) ∧
        eval platform Draws.blank ⟨[]⟩ (.path ["n"]) [] keptBeside =
          .error (.eval "field 'n' not found") := by
  obtain ⟨creating, created⟩ := keep_created
  obtain ⟨first, early, onPayload⟩ := keep_first
  obtain ⟨second, late, beside⟩ := keep_second
  refine ⟨keepFlow_built, creating, _, _, created, keep_run, ?_, rfl, rfl⟩
  rintro (always | never)
  · obtain ⟨state, same⟩ := always _ first _ early _ _ onPayload
    exact kept_ne _ _ same
  · exact kept_ne _ _ (never _ second _ late _ _ beside).symm

/-- The state has been updated before the second record is read. -/
theorem keep_updated : ∃ early read late, keepRun.1.take 13 = early ++ read :: late ∧
    Updated "keep" early := by
  obtain ⟨creating, created⟩ := keep_created
  obtain ⟨step, split, beside⟩ := keep_second
  have run := keep_run
  rw [split] at run
  obtain ⟨early, read, late, same, -, -, plain⟩ := context_shape (.inl keepFlow_built) rfl rfl
    created run beside
  refine ⟨early, read, late, same, by_contra fun never => ?_⟩
  exact kept_ne _ _ (plain rfl never).symm

end Sample

end Sohara
