import Sohara.Async.History
import Sohara.Async.Lineage
import Sohara.Runtime.Incoming
import Sohara.Runtime.RunSafety
import Sohara.Runtime.World

/-! # Runs with the visits of their operations

A run of an executor seen as a run of its programs: one for every source, and the final
flush. Traced, every operation carries the chain of walks that leads to it, so that one
can say along which route a record has come to a step.
-/

namespace Sohara

open Async Async.Program

namespace Executor

variable (executor : Executor)

/-- The programs of a run: the sources, and the final flush. -/
def programs : List (Prog Outcome) :=
  executor.graph.roots.map executor.runSource ++ [executor.flushAll]

theorem map_run_programs :
    executor.programs.map Task.run = executor.sourceTasks ++ [.run executor.flushAll] := by
  unfold programs sourceTasks
  rw [List.map_append, List.map_map]
  rfl

/-- A run of the programs with its operations. -/
abbrev ProgramRun (host : Host) (world : World) (steps : List (Occurrence Engine World))
    (config : Config Engine World) : Prop :=
  Config.Run (S := Engine) walkCall (fun _ => World.perform host) (fun _ _ => False)
    ⟨world, executor.programs.map Task.run⟩ steps config

/-- A run of the programs beside any number of walks. -/
abbrev RunBeside (walks : List Call) (host : Host) (world : World)
    (steps : List (Occurrence Engine World)) (config : Config Engine World) : Prop :=
  Config.Run (S := Engine) walkCall (fun _ => World.perform host) (fun _ _ => False)
    ⟨world, (walks.map walkCall ++ executor.programs).map Task.run⟩ steps config

/-- A run of the programs with the visits of its operations. -/
abbrev TracedRun (host : Host) (world : World) (steps : List (Occurrence (Traced Engine) World))
    (config : Config (Traced Engine) World) : Prop :=
  Config.Run (tracedBody walkCall) (fun _ => tracedHandle (World.perform host)) (fun _ _ => False)
    ⟨world, spawnedAll executor.programs⟩ steps config

/-- The phases of a run. -/
abbrev RunPhase (host : Host) (world : World) (running pass : List (Occurrence Engine World))
    (state : Supervised Engine World) : Prop :=
  Supervised.Phase (S := Engine) walkCall (World.perform host) executor.flushAll world
    executor.sourceTasks running pass state

variable {executor} {host : Host} {world : World}

theorem erase_spawnedAll (programs : List (Prog Outcome)) :
    (spawnedAll programs).map Task.erase = programs.map Task.run := by
  unfold spawnedAll spawned
  rw [List.map_map]
  conv_rhs => rw [← List.zipIdx_map_fst 0 programs, List.map_map]
  refine List.map_congr_left fun entry _ => ?_
  exact congrArg Task.run (erase_traced _ _ _)

theorem TracedRun.erase {steps : List (Occurrence (Traced Engine) World)}
    {config : Config (Traced Engine) World} (run : executor.TracedRun host world steps config) :
    executor.ProgramRun host world (steps.map Occurrence.erase) config.erase := by
  have erased := Config.Run.erase run
  rwa [Config.erase, erase_spawnedAll] at erased

/-- **Every run can be traced.** -/
theorem ProgramRun.traced {steps : List (Occurrence Engine World)} {config : Config Engine World}
    (run : executor.ProgramRun host world steps config) :
    ∃ steps' config', executor.TracedRun host world steps' config' ∧
      steps'.map Occurrence.erase = steps ∧ config'.erase = config := by
  unfold ProgramRun at run
  rw [← erase_spawnedAll] at run
  exact @Config.Run.lift _ _ _ _ ⟨world, spawnedAll executor.programs⟩ _ _ run

/-- The phases of a run make a run of the programs. -/
theorem RunPhase.asRun {running pass : List (Occurrence Engine World)}
    {state : Supervised Engine World} (phase : executor.RunPhase host world running pass state) :
    ∃ last, executor.ProgramRun host world
      (running ++ pass.map (Supervised.inTask state.spawned.tasks.length))
        ⟨state.spawned.world, state.spawned.tasks ++ [last]⟩ := by
  unfold ProgramRun
  rw [map_run_programs]
  exact Supervised.Phase.asRun phase

/-- **Every reachable state of a run has a traced run leading to its world.** -/
theorem exists_tracedRun {state : Supervised Engine World}
    (reached : executor.RunReaches (World.perform host) (executor.run world) state) :
    ∃ steps config, executor.TracedRun host world steps config ∧
      config.world = state.spawned.world := by
  obtain ⟨running, pass, phase⟩ := Supervised.phase_of_reaches reached
  obtain ⟨last, run⟩ := RunPhase.asRun phase
  obtain ⟨steps, config, traced, -, same⟩ := run.traced
  exact ⟨steps, config, traced, congrArg Config.world same⟩

section Operations

variable {onOp : Op → Prop}

/-- Programs of a run perform what walks may perform, and walk from known nodes. -/
theorem safe_programs (formed : executor.graph.WellFormed)
    {admits : (op : Op) → op.Response → Prop}
    (performs : executor.Performs admits onOp executor.Known default)
    (takes : ∀ id ∈ executor.batches, onOp (.takeBatch id))
    (flushes : ∀ id ∈ executor.sinks, onOp (.flush id))
    (emits : ∀ records, onOp (.newRecord (batchPayload records))) :
    ∀ program ∈ executor.programs, Safe (S := Engine) admits onOp executor.Known program := by
  intro program member
  rcases List.mem_append.mp member with source | flush
  · obtain ⟨root, -, rfl⟩ := List.mem_map.mp source
    exact safe_runSource performs fun node found _ => ⟨rfl, node, found⟩
  · rw [List.mem_singleton.mp flush]
    exact safe_flushAll performs takes flushes emits fun id node _ found => leads_known formed found

theorem safe_known (formed : executor.graph.WellFormed)
    {admits : (op : Op) → op.Response → Prop}
    (performs : ∀ node, executor.Performs admits onOp executor.Known node) {call : Call}
    (known : executor.Known call) :
    Safe (S := Engine) admits onOp executor.Known (walkCall call) := by
  obtain ⟨rfl, node, found⟩ := known
  exact safe_walk found (performs node) (leads_known formed found) call.record

/-- What holds of the walks beside and of the programs holds of all that run. -/
theorem forall_beside {holds : Prog Outcome → Prop} {walks : List Call}
    (beside : ∀ call ∈ walks, holds (walkCall call))
    (own : ∀ program ∈ executor.programs, holds program) :
    ∀ program ∈ walks.map walkCall ++ executor.programs, holds program := by
  intro program member
  rcases List.mem_append.mp member with walk | inside
  · obtain ⟨call, listed, rfl⟩ := List.mem_map.mp walk
    exact beside call listed
  · exact own program inside

/-- A run beside known walks starts with what is permitted to all of them. -/
theorem obeys_beside {admits : (op : Op) → op.Response → Prop} {walks : List Call}
    (bodies : ∀ call, executor.Known call →
      Safe (S := Engine) admits onOp executor.Known (walkCall call))
    (own : ∀ program ∈ executor.programs, Safe (S := Engine) admits onOp executor.Known program)
    (known : ∀ call ∈ walks, executor.Known call) (world : World) :
    Config.Obeys (S := Engine) admits onOp executor.Known
      ⟨world, (walks.map walkCall ++ executor.programs).map Task.run⟩ := by
  intro task member
  obtain ⟨program, inside, rfl⟩ := List.mem_map.mp member
  exact forall_beside (fun call listed => bodies call (known call listed)) own program inside

/-- The history of a run beside other walks, when the nodes of the graph may perform the
operations. -/
theorem RunBeside.history {walks : List Call} {steps : List (Occurrence Engine World)}
    {config : Config Engine World} (formed : executor.graph.WellFormed)
    (quiet : executor.Allows onOp default)
    (allows : ∀ {id node}, executor.graph.node id = some node → executor.Allows onOp node)
    (takes : ∀ id ∈ executor.batches, onOp (.takeBatch id))
    (flushes : ∀ id ∈ executor.sinks, onOp (.flush id))
    (emits : ∀ records, onOp (.newRecord (batchPayload records)))
    (known : ∀ call ∈ walks, executor.Known call)
    (run : executor.RunBeside walks host world steps config) :
    History (World.perform host) world steps config.world ∧ Permitted onOp steps := by
  have bodies : ∀ call, executor.Known call →
      Safe (S := Engine) (fun _ _ => True) onOp executor.Known (walkCall call) := by
    rintro call ⟨rfl, node, found⟩
    exact safe_walk found (allows found).performs (leads_known formed found) call.record
  have obeys := obeys_beside bodies (safe_programs formed quiet.performs takes flushes emits) known world
  have history := Config.Run.history bodies obeys run
  exact ⟨history.1, history.2.1⟩

/-- **The history of a run**: permitted operations, each in the world the earlier ones
lead to. -/
theorem ProgramRun.history {steps : List (Occurrence Engine World)}
    {config : Config Engine World} (formed : executor.graph.WellFormed)
    (allows : ∀ node, executor.Allows onOp node)
    (takes : ∀ id ∈ executor.batches, onOp (.takeBatch id))
    (flushes : ∀ id ∈ executor.sinks, onOp (.flush id))
    (emits : ∀ records, onOp (.newRecord (batchPayload records)))
    (run : executor.ProgramRun host world steps config) :
    History (World.perform host) world steps config.world ∧ Permitted onOp steps := by
  have beside : executor.RunBeside [] host world steps config := run
  refine beside.history formed (allows default) (fun _ => allows _) takes flushes emits
    fun call member => ?_
  cases member

/-- The history of the phases of a run. -/
theorem RunPhase.history {running pass : List (Occurrence Engine World)}
    {state : Supervised Engine World} (formed : executor.graph.WellFormed)
    (allows : ∀ node, executor.Allows onOp node)
    (takes : ∀ id ∈ executor.batches, onOp (.takeBatch id))
    (flushes : ∀ id ∈ executor.sinks, onOp (.flush id))
    (emits : ∀ records, onOp (.newRecord (batchPayload records)))
    (phase : executor.RunPhase host world running pass state) :
    History (World.perform host) world (running ++ pass) state.spawned.world ∧
      Permitted onOp (running ++ pass) := by
  have member : ∀ program ∈ executor.programs,
      Safe (S := Engine) (fun _ _ => True) onOp executor.Known program :=
    safe_programs formed (allows default).performs takes flushes emits
  refine Supervised.Phase.history
    (fun call known => safe_known formed (fun node => (allows node).performs) known)
    (fun task inside => ?_) (member _ ?_) phase
  · obtain ⟨root, isRoot, rfl⟩ := List.mem_map.mp inside
    exact member _ (List.mem_append_left _ (List.mem_map.mpr ⟨root, isRoot, rfl⟩))
  · exact List.mem_append_right _ List.mem_cons_self

end Operations

end Executor

end Sohara
