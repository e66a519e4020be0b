import Sohara.Runtime.Creation
import Sohara.Runtime.JoinDrain
import Sohara.Runtime.TracedRun

/-! # Restarting a run

A process that stops leaves the store file. The next one resumes the stored run id and finds
under the keys of the run what was saved last, but it sets up the states of those steps only
that declare one: what other steps have saved is not read back.
-/

namespace Sohara

open Async Async.Program

section Definitions

/-- The last state persisted of a step. -/
def Executor.lastPersisted (executor : Executor) (opened : World)
    (steps : List (Occurrence Engine World)) (id : String) : Option Value :=
  lastSaved (executor.stateKey id) (opened.file (executor.stateKey id)) steps

/-- The process that follows one that has stopped, over its store file. -/
def World.restarted (stopped : World) : World :=
  .start (some stopped.file) stopped.file stopped.written

/-- What a run never does to the entries of its store: it writes no other run id, and deletes
nothing. -/
def Op.Keeps (flow : String) (op : Op) : Prop :=
  op.writes (runIdKey flow) = false ∧ ∀ key, op ≠ .delete key

/-- Every step starts with its last persisted state, or else with the state it declares. -/
def Restores (executor : Executor) (opened : World) (steps : List (Occurrence Engine World))
    (restarted : World) : Prop :=
  ∀ id node, executor.graph.node id = some node →
    restarted.states.get? id = (executor.lastPersisted opened steps id).or node.state

end Definitions

/-- Every step keeps the run id and deletes nothing. -/
theorem Executor.allows_keeps {executor : Executor}
    (plain : PlainId executor.flowName executor.runId) (node : Node) :
    executor.Allows (Op.Keeps executor.flowName) node where
  quiet op quiet := by
    cases op with
    | save key value => exact quiet.elim
    | delete key => exact quiet.elim
    | _ => exact ⟨rfl, fun _ => Op.noConfusion⟩
  state id value := ⟨decide_eq_false (plain.state id).2, fun _ => Op.noConfusion⟩
  send _ _ := ⟨rfl, fun _ => Op.noConfusion⟩
  lookup _ _ := ⟨rfl, fun _ => Op.noConfusion⟩
  marker _ record := ⟨decide_eq_false (plain.marker _).2, fun _ => Op.noConfusion⟩
  queue _ _ := ⟨rfl, fun _ => Op.noConfusion⟩
  park _ _ items := by
    refine ⟨decide_eq_false fun same => ?_, fun _ => Op.noConfusion⟩
    have isQueue := executor.isQueueKey_approveKey node.id
    rw [same, isQueueKey_runIdKey] at isQueue
    cases isQueue
  wait _ _ := ⟨rfl, fun _ => Op.noConfusion⟩
  join _ _ _ _ _ _ _ := ⟨rfl, fun _ => Op.noConfusion⟩
  update _ _ := ⟨rfl, fun _ => Op.noConfusion⟩
  collect _ _ _ _ := ⟨rfl, fun _ => Op.noConfusion⟩
  merge _ := ⟨rfl, fun _ => Op.noConfusion⟩
  emit _ _ := ⟨rfl, fun _ => Op.noConfusion⟩

section Restart

variable {registry : Registry} {hashOrder : HashOrder} {flow : FlowConfig} {ctx : BuildContext}
  {env env' : ExecutorEnv} {graph : FlowGraph} {vars vars' : Fields}
  {config config' : ExecutorConfig} {executor executor' : Executor} {host host' : Host}
  {file : Entries} {written : String → List Record} {opened restarted : World}
  {first steps second : List (Occurrence Engine World)} {walks : List Call}
  {stopped : Config Engine World}

/-- A declared state is set up, and no other. -/
theorem startingState_eq_or_iff {entries : Entries} {runId : String} {node : Node} :
    startingState entries runId true node =
        (entries (runId ++ ":state:" ++ node.id)).or node.state ↔
      (node.state = none → entries (runId ++ ":state:" ++ node.id) = none) := by
  unfold startingState
  cases node.state with
  | none =>
      rw [Option.or_none]
      exact ⟨fun same _ => same.symm, fun absent => (absent rfl).symm⟩
  | some declared =>
      refine iff_of_true ?_ nofun
      cases entries (runId ++ ":state:" ++ node.id) <;> rfl

/-- **When a restart restores the states.** An executor is created over a working store, and its
run is stopped at any time. The next executor that resumes takes up the run, and every step
starts with its last persisted state exactly if no step without a declared state has persisted
one. -/
theorem restart_restores_iff
    (accepted : FlowGraph.Accepted registry hashOrder flow ctx graph)
    (uuids : ∀ time, PlainId graph.name (host.uuid time)) (plainEntry : PlainEntry graph.name file)
    (working : ∀ time, host.persist time = .ok ())
    (created : Yields host (newExecutor env graph vars config) (.start (some file) file written)
      first executor opened)
    (known : ∀ call ∈ walks, executor.Known call)
    (run : executor.RunBeside walks host opened steps stopped)
    (resume : config'.resume = true)
    (resumed : Yields host' (newExecutor env' graph vars' config') stopped.world.restarted second
      executor' restarted) :
    executor'.runId = executor.runId ∧
      (Restores executor opened steps restarted ↔
        ∀ id node, graph.node id = some node → node.state = none →
          executor.lastPersisted opened steps id = none) := by
  have formed := accepted.wellFormed
  have creation := yields_newExecutor formed rfl created
  have synced : opened.store = some opened.file :=
    created.keeps (motive := fun world => world.store = some world.file)
      (fun step _ same => synced_perform working same step.op) rfl
  have held : opened.entries = opened.file := entries_of_synced synced
  obtain ⟨⟨named, plain⟩, -, -⟩ :=
    grows_of_parks uuids (parksPlain_newExecutor env graph vars config)
    ⟨file, rfl, plainEntry⟩ created
  rw [← named] at plain
  obtain ⟨history, permitted⟩ := run.history (by rw [creation.built]; exact formed)
    (Executor.allows_keeps plain default) (fun _ => Executor.allows_keeps plain _)
    (fun _ _ => ⟨rfl, fun _ => Op.noConfusion⟩) (fun _ _ => ⟨rfl, fun _ => Op.noConfusion⟩)
    (fun _ => ⟨rfl, fun _ => Op.noConfusion⟩) known
  obtain ⟨-, saved⟩ := entries_of_history (Option.isSome_of_eq_some synced) history
    fun step member => (permitted step member).2
  have file := entries_of_synced (synced_of_history working synced history)
  rw [file, held] at saved
  have resumption := yields_newExecutor formed rfl resumed
  have stored : stopped.world.file (runIdKey graph.name) = some (.string executor.runId) := by
    rw [← creation.runId rfl, held, ← named, saved]
    refine lastSaved_of_silent fun step member value same => ?_
    have silent := (permitted step member).1
    rw [same] at silent
    exact of_decide_eq_false silent rfl
  obtain ⟨same, kept⟩ := resumption.resumes resume _ stored
  have entries : restarted.entries = stopped.world.file := kept
  refine ⟨same, ?_⟩
  have each : ∀ id node, graph.node id = some node →
      (restarted.states.get? id = (executor.lastPersisted opened steps id).or node.state ↔
        (node.state = none → executor.lastPersisted opened steps id = none)) := by
    intro id node found
    have key : executor.runId ++ ":state:" ++ node.id = executor.stateKey id := by
      rw [formed.named found]
      rfl
    rw [resumption.states id node found, same, resume, entries, Executor.lastPersisted, ← saved,
      ← key]
    exact startingState_eq_or_iff
  unfold Restores
  rw [creation.built]
  exact ⟨fun restores id node found => (each id node found).mp (restores id node found),
    fun absent id node found => (each id node found).mpr (absent id node found)⟩

end Restart

namespace Sample

/-- A letter is noted for every record. -/
def noteFields : List (String × Expr) := [("seen", .lit (.string "x"))]

/-- Components that also provide a state step. -/
def noteRegistry : Registry :=
  { FlowGraph.Sample.registry with
    build := fun kind type config ctx =>
      match kind, type with
      | .transform, "state" =>
          FlowGraph.Sample.requiring ["expr"] (.control (.state noteFields)) config
      | _, _ => FlowGraph.Sample.registry.build kind type config ctx }

/-- A state step between a source and a sink. -/
def noteFlow (declared : Option Value) : FlowConfig :=
  { FlowGraph.Sample.intake with
    triggers := []
    steps := [FlowGraph.Sample.source "in",
      { FlowGraph.Sample.step "note" .transform "state" with
        state := declared
        extra := [("expr", .object [("seen", .string "'x'")])] },
      FlowGraph.Sample.sink "out"]
    edges := [.pair "in" "note", .pair "note" "out"] }

/-- The graph of the state step. -/
def noteGraph (declared : Option Value) : FlowGraph where
  name := "intake"
  nodes := (((∅ : BTreeMap Node).insert "in"
    ⟨"in", none, .fail, .source, [⟨"note", none⟩], 0, none⟩).insert "note"
      ⟨"note", none, .fail, .control (.state noteFields), [⟨"out", none⟩], 1, declared⟩).insert
        "out" ⟨"out", none, .fail, .sink, [], 1, none⟩
  roots := ["in"]

theorem noteFlow_built : FlowGraph.build noteRegistry FlowGraph.Sample.hashOrder (noteFlow none)
    FlowGraph.Sample.ctx = .ok (noteGraph none) := rfl

theorem noteFlow_built_declared : FlowGraph.build noteRegistry FlowGraph.Sample.hashOrder
    (noteFlow (some (.object []))) FlowGraph.Sample.ctx = .ok (noteGraph (some (.object []))) := rfl

/-- The executor that is created. -/
def noteExecutor (declared : Option Value) : Executor :=
  { executor (noteGraph declared) with runId := "id" }

/-- A process over an empty store. -/
def noteStart : World := .start (some fun _ => none) (fun _ => none) fun _ => []

/-- The process once its executor is created. -/
def noteOpened (declared : Option Value) : World :=
  { (World.perform (host single) (World.perform (host single) noteStart .freshUuid).2
      (.save (runIdKey "intake") (.string "id"))).2 with
    states := (declared.map fun state => ("note", state)).toList }

theorem note_created (declared : Option Value) : ∃ first, Yields (host single)
    (newExecutor ⟨platform, FlowGraph.Sample.hashOrder⟩ (noteGraph declared) []
      ⟨false, none, false⟩) noteStart first (noteExecutor declared) (noteOpened declared) := by
  cases declared with
  | none => exact ⟨_, .perform (.perform (.perform (.done ..)))⟩
  | some state => exact ⟨_, .perform (.perform (.perform (.perform (.done ..))))⟩

/-- A run of the one record of the source. -/
def noteRun (declared : Option Value) : List (Occurrence Engine World) × Config Engine World :=
  Config.play (S := Engine) walkCall (fun _ => World.perform (host single))
    ⟨noteOpened declared, (noteExecutor declared).programs.map Task.run⟩ (List.replicate 20 0)

theorem note_run (declared : Option Value) : (noteExecutor declared).RunBeside [] (host single)
    (noteOpened declared) (noteRun declared).1 (noteRun declared).2 :=
  Config.run_play _ _

/-- Only the source and the sink declare no state. -/
theorem note_undeclared {declared : Value} {id : String} {node : Node}
    (found : (noteGraph (some declared)).node id = some node) (undeclared : node.state = none) :
    id = "in" ∨ id = "out" := by
  unfold FlowGraph.node noteGraph at found
  rw [BTreeMap.get?_insert, BTreeMap.get?_insert, BTreeMap.get?_insert] at found
  by_cases sink : "out" = id
  · exact .inr sink.symm
  · rw [if_neg sink] at found
    by_cases note : "note" = id
    · rw [if_pos note] at found
      cases found
      cases undeclared
    · rw [if_neg note] at found
      by_cases source : "in" = id
      · exact .inl source.symm
      · rw [if_neg source] at found
        cases found

theorem note_persisted (declared : Option Value)
    (is : declared = none ∨ declared = some (.object [])) :
    (noteExecutor declared).lastPersisted (noteOpened declared) (noteRun declared).1 "note" =
      some (.object [("seen", .string "x")]) := by
  rcases is with rfl | rfl <;> rfl

/-- The next process resumes the run, and the letter noted by a step that declares no state is
lost. -/
theorem restart_forgets :
    FlowGraph.build noteRegistry FlowGraph.Sample.hashOrder (noteFlow none) FlowGraph.Sample.ctx =
        .ok (noteGraph none) ∧
      ∃ first second opened steps stopped restarted,
        Yields (host single) (newExecutor ⟨platform, FlowGraph.Sample.hashOrder⟩ (noteGraph none) []
          ⟨false, none, false⟩) noteStart first (noteExecutor none) opened ∧
        (noteExecutor none).RunBeside [] (host single) opened steps stopped ∧
        Yields (host single) (newExecutor ⟨platform, FlowGraph.Sample.hashOrder⟩ (noteGraph none) []
          ⟨true, none, false⟩) stopped.world.restarted second (noteExecutor none) restarted ∧
        (noteExecutor none).lastPersisted opened steps "note" =
          some (.object [("seen", .string "x")]) ∧
        restarted.states.get? "note" = none ∧
        ¬ Restores (noteExecutor none) opened steps restarted := by
  obtain ⟨first, created⟩ := note_created none
  have resumed : ∃ second restarted, Yields (host single)
      (newExecutor ⟨platform, FlowGraph.Sample.hashOrder⟩ (noteGraph none) [] ⟨true, none, false⟩)
        (noteRun none).2.world.restarted second (noteExecutor none) restarted ∧
      restarted.states.get? "note" = none :=
    ⟨_, _, .perform (.perform (.perform (.perform (.perform (.perform (.perform (.perform
      (.done ..)))))))), rfl⟩
  obtain ⟨second, restarted, resumed, lost⟩ := resumed
  have persisted := note_persisted none (.inl rfl)
  refine ⟨noteFlow_built, first, second, _, _, _, restarted, created, note_run none, resumed,
    persisted, lost, fun restores => ?_⟩
  have found := restores "note" _ rfl
  rw [persisted, lost] at found
  cases found

/-- The letter noted by a step that declares a state is found again. -/
theorem restart_remembers : ∃ opened steps restarted,
    Restores (noteExecutor (some (.object []))) opened steps restarted ∧
      restarted.states.get? "note" = some (.object [("seen", .string "x")]) := by
  obtain ⟨first, created⟩ := note_created (some (.object []))
  have resumed : ∃ second restarted, Yields (host single)
      (newExecutor ⟨platform, FlowGraph.Sample.hashOrder⟩ (noteGraph (some (.object []))) []
        ⟨true, none, false⟩) (noteRun (some (.object []))).2.world.restarted second
          (noteExecutor (some (.object []))) restarted :=
    ⟨_, _, .perform (.perform (.perform (.perform (.perform (.perform (.perform (.perform (.perform
      (.done ..)))))))))⟩
  obtain ⟨second, restarted, resumed⟩ := resumed
  have plain : PlainId "intake" "id" := ⟨by decide, by decide⟩
  have uuids : ∀ time, PlainId "intake" ((host single).uuid time) := fun _ => plain
  have unstored : PlainEntry "intake" fun _ => none := fun _ stored => nomatch stored
  have noWalks : ∀ call ∈ ([] : List Call),
      (noteExecutor (some (.object []))).Known call := fun _ member => nomatch member
  obtain ⟨-, restores⟩ := restart_restores_iff (.inl noteFlow_built_declared) uuids unstored
    (fun _ => rfl) created noWalks (note_run _) rfl resumed
  have restored := restores.mpr fun id node found undeclared => by
    obtain rfl | rfl := note_undeclared found undeclared
    · rfl
    · rfl
  refine ⟨_, _, restarted, restored, ?_⟩
  rw [restored "note" _ rfl, note_persisted _ (.inr rfl)]
  rfl

end Sample

end Sohara
