import Sohara.Async.Obligation
import Sohara.Runtime.JoinDrain
import Sohara.Runtime.Parking
import Sohara.Runtime.SavedValues
import Sohara.Runtime.StateRaces

/-! # Stale saves

Updates and checkpoints take a state under the lock and save it after the lock is released, so
that a save may come after a newer update and its save. What the store holds in the end is what
memory holds exactly if the last save of each updated state is not overtaken in this way.
-/

namespace Sohara

open Async Async.Program

/-- What a task does to the states. -/
inductive StateCall where
  | update (id : String) (state : Value)
  | checkpoint
  | maybeCheckpoint

namespace Executor

variable (executor : Executor)

/-- The program of one call. -/
def stateCall : StateCall → Prog Unit
  | .update id state => executor.updateState id state
  | .checkpoint => executor.checkpoint
  | .maybeCheckpoint => executor.maybeCheckpoint

/-- A task that makes calls one after the other. -/
def stateCalls : List StateCall → Prog Outcome
  | [] => return .ok ()
  | call :: rest => do
      executor.stateCall call
      stateCalls rest

/-- A run of tasks that update states and take checkpoints side by side. -/
abbrev StateRun (tasks : List (List StateCall)) (host : Host) (world : World)
    (steps : List (Occurrence Engine World)) (config : Config Engine World) : Prop :=
  Config.Run (S := Engine) walkCall (fun _ => World.perform host) (fun _ _ => False)
    ⟨world, (tasks.map executor.stateCalls).map Task.run⟩ steps config

/-- The state of a step has been updated. -/
def UpdatedIn (id : String) (steps : List (Occurrence Engine World)) : Prop :=
  ∃ step ∈ steps, ∃ state, step.op = .setState id state

/-- The store holds for every updated step the state that memory holds. -/
def HoldsLatest (steps : List (Occurrence Engine World)) (world : World) : Prop :=
  ∀ id, UpdatedIn id steps → world.entries (executor.stateKey id) = world.states.get? id

/-- The last save of every updated step saves what memory still holds then. -/
def LastSavesFresh (steps : List (Occurrence Engine World)) : Prop :=
  ∀ id, UpdatedIn id steps → ∀ before save after state, steps = before ++ save :: after →
    save.op = .save (executor.stateKey id) state →
      (∀ later ∈ after, ∀ other, later.op ≠ .save (executor.stateKey id) other) →
        save.world.states.get? id = some state

end Executor

section Programs

variable {executor : Executor} {id : String}

/-- Updating a state. -/
def Op.Updates (id : String) (op : Op) : Prop := ∃ state, op = .setState id state

/-- Saving under a key. -/
def Op.Saves (key : String) (op : Op) : Prop := ∃ state, op = .save key state

variable (executor id) in
/-- Updates of a state are followed by saves. -/
abbrev SavesUpdates {α : Type} (program : Prog α) : Prop :=
  program.Honors Parking.Admits (Op.Updates id) (Op.Saves (executor.stateKey id))

theorem savesUpdates_of_safe {α : Type} {program : Prog α}
    (safe : Safe (S := Engine) Parking.Admits (fun op => ∀ state, op ≠ .setState id state)
      (fun _ => False) program) : SavesUpdates executor id program :=
  honors_of_safe (safe.mono (fun _ silent ⟨state, same⟩ => silent state same) (fun _ call => call)
    fun _ holds => holds)

theorem savesUpdates_updateState (other : String) (state : Value) :
    SavesUpdates executor id (executor.updateState other state) := by
  refine honors_op_bind (fun updates _ _ => ?_) fun _ _ => ?_
  · obtain ⟨_, same⟩ := updates
    cases same
    refine .inr fun stored admitted => ?_
    obtain rfl : stored = true := admitted
    exact .inl ⟨state, rfl⟩
  · refine (honors_op fun ⟨_, same⟩ => nomatch same).bind fun stored => ?_
    cases stored with
    | false => exact honors_pure _
    | true => exact (honors_op fun ⟨_, same⟩ => nomatch same).bind fun _ => honors_pure _

theorem savesUpdates_stateCalls (calls : List StateCall) :
    SavesUpdates executor id (executor.stateCalls calls) := by
  have silent : executor.Allows (fun op => ∀ state, op ≠ .setState id state) default :=
    Executor.allows_silent default fun _ => nofun
  induction calls with
  | nil => exact honors_pure _
  | cons call rest ih =>
      refine Honors.bind ?_ fun _ => ih
      cases call with
      | update other state => exact savesUpdates_updateState other state
      | checkpoint => exact savesUpdates_of_safe silent.performs.checkpoint
      | maybeCheckpoint =>
          exact savesUpdates_of_safe (Executor.safe_maybeCheckpoint silent.performs)

/-- Nothing is deleted. -/
theorem allows_undeleting (node : Node) :
    executor.Allows (fun op => ∀ key, op ≠ .delete key) node where
  quiet op quiet key same := by
    rw [same] at quiet
    exact quiet
  state _ _ _ := Op.noConfusion
  send _ _ _ := Op.noConfusion
  lookup _ _ _ := Op.noConfusion
  marker _ _ _ := Op.noConfusion
  queue _ _ _ := Op.noConfusion
  park _ _ _ _ := Op.noConfusion
  wait _ _ _ := Op.noConfusion
  join _ _ _ _ _ _ _ _ := Op.noConfusion
  update _ _ _ := Op.noConfusion
  collect _ _ _ _ _ := Op.noConfusion
  merge _ _ := Op.noConfusion
  emit _ _ _ := Op.noConfusion

theorem safe_stateCalls (calls : List StateCall) :
    Safe (S := Engine) (fun _ _ => True) (fun op => ∀ key, op ≠ .delete key) (fun _ => False)
      (executor.stateCalls calls) := by
  induction calls with
  | nil => exact safe_pure _
  | cons call rest ih =>
      refine Safe.bind ?_ fun _ => ih
      cases call with
      | update other state =>
          let node : Node := ⟨other, none, .fail, .control (.state []), [], 0, none⟩
          exact (allows_undeleting node).safe_updateState ⟨[], rfl⟩ state
      | checkpoint => exact (allows_undeleting default).safe_checkpoint
      | maybeCheckpoint => exact Executor.safe_maybeCheckpoint (allows_undeleting default).performs

end Programs

section Runs

variable {executor : Executor} {tasks : List (List StateCall)} {host : Host} {world : World}
  {steps : List (Occurrence Engine World)} {config : Config Engine World}

/-- What holds of all programs of calls holds of all tasks at the start. -/
theorem forall_stateCalls {property : Prog Outcome → Prop}
    (each : ∀ calls, property (executor.stateCalls calls)) :
    ∀ task ∈ (tasks.map executor.stateCalls).map (Task.run (S := Engine)),
      ∃ program, task = .run program ∧ property program :=
  List.forall_mem_map.mpr (List.forall_mem_map.mpr fun calls _ => ⟨_, rfl, each calls⟩)

/-- Every update of a finished run is followed by a save. -/
theorem saved_after_updates (id : String) (present : world.store.isSome = true)
    (run : executor.StateRun tasks host world steps config)
    (done : ∀ task ∈ config.tasks, task.outcome?.isSome = true) :
    Config.Met (Op.Updates id) (Op.Saves (executor.stateKey id)) False steps := by
  have admitted : ∀ (world : World) (op : Op), world.store.isSome = true →
      Parking.Admits op (World.perform host world op).1 := by
    intro world op present
    cases op with
    | hasStore => exact present
    | _ => exact trivial
  have honors : Config.Honors Parking.Admits (Op.Updates id) (Op.Saves (executor.stateKey id))
      (⟨world, (tasks.map executor.stateCalls).map Task.run⟩ : Config Engine World) :=
    forall_stateCalls savesUpdates_stateCalls
  exact Config.Run.met_of_done admitted (fun world op present => isSome_perform present op) present
    honors run done

/-- An updated state has a last save. -/
theorem exists_last_save {id : String} (present : world.store.isSome = true)
    (run : executor.StateRun tasks host world steps config)
    (done : ∀ task ∈ config.tasks, task.outcome?.isSome = true)
    (updated : Executor.UpdatedIn id steps) :
    ∃ before save after state, steps = before ++ save :: after ∧
      save.op = .save (executor.stateKey id) state ∧
      ∀ later ∈ after, ∀ other, later.op ≠ .save (executor.stateKey id) other := by
  obtain ⟨step, member, updates⟩ := updated
  obtain ⟨before, after, rfl⟩ := List.append_of_mem member
  obtain ⟨save, later, saves⟩ := (saved_after_updates id present run done before step after rfl
    updates).resolve_left not_false
  have some_ : ∃ save ∈ before ++ step :: after, Op.Saves (executor.stateKey id) save.op :=
    ⟨save, List.mem_append_right _ (List.mem_cons_of_mem _ later), saves⟩
  obtain ⟨before, save, after, same, ⟨state, saved⟩, last⟩ := exists_last some_
  exact ⟨before, save, after, state, same, saved,
    fun later member other same => last later member ⟨other, same⟩⟩

/-- **The end of a run of updates and checkpoints.** Its last save of a state is what the store
holds, and since then memory is as it was. -/
theorem end_of_run {id : String} {before after : List (Occurrence Engine World)}
    {save : Occurrence Engine World} {state : Value} (present : world.store.isSome = true)
    (run : executor.StateRun tasks host world (before ++ save :: after) config)
    (done : ∀ task ∈ config.tasks, task.outcome?.isSome = true)
    (saved : save.op = .save (executor.stateKey id) state)
    (last : ∀ later ∈ after, ∀ other, later.op ≠ .save (executor.stateKey id) other) :
    config.world.entries (executor.stateKey id) = some state ∧
      config.world.states.get? id = save.world.states.get? id := by
  have history := run.leads
  have obeys : Config.Obeys (S := Engine) (fun _ _ => True) (fun op => ∀ key, op ≠ .delete key)
      (fun _ => False) ⟨world, (tasks.map executor.stateCalls).map Task.run⟩ := by
    intro task member
    obtain ⟨program, rfl, safe⟩ := forall_stateCalls safe_stateCalls task member
    exact safe
  have kept := (run.permitted (fun _ never => never.elim) obeys fun _ _ => trivial).1
  obtain ⟨-, entries⟩ := entries_of_history present history kept
  refine ⟨?_, ?_⟩
  · rw [entries]
    exact lastSaved_of_last saved last
  · -- an update after the last save would be followed by another one
    have untouched :
        Permitted (S := Engine) (fun op => ∀ value, op ≠ .setState id value) after := by
      intro step member value updates
      obtain ⟨first, second, rfl⟩ := List.append_of_mem member
      obtain ⟨other, later, value, saves⟩ := (saved_after_updates id present run done
        (before ++ save :: first) step second (by rw [List.append_assoc, List.cons_append])
          ⟨value, updates⟩).resolve_left not_false
      exact last other (List.mem_append_right _ (List.mem_cons_of_mem _ later)) value saves
    rw [(states_of_history history.at.2 untouched).2]
    refine states_perform fun value same => ?_
    rw [saved] at same
    cases same

/-- **When the store ends with the latest state.** In every run of updates and checkpoints whose
tasks have all completed, the store holds for every updated step what memory holds exactly if no
last save of one has been overtaken by a newer update. -/
theorem store_latest_iff (present : world.store.isSome = true)
    (run : executor.StateRun tasks host world steps config)
    (done : ∀ task ∈ config.tasks, task.outcome?.isSome = true) :
    executor.HoldsLatest steps config.world ↔ executor.LastSavesFresh steps := by
  constructor
  · rintro latest id updated before save after state rfl saved last
    obtain ⟨entries, memory⟩ := end_of_run present run done saved last
    rw [← memory, ← latest id updated]
    exact entries
  · intro fresh id updated
    obtain ⟨before, save, after, state, rfl, saved, last⟩ :=
      exists_last_save present run done updated
    obtain ⟨entries, memory⟩ := end_of_run present run done saved last
    rw [entries, memory]
    exact (fresh id updated before save after state rfl saved last).symm

end Runs

namespace Sample

/-- The state of the first update. -/
def older : Value := .object [("seen", .string "x")]

/-- The state of the second update. -/
def newer : Value := .object [("seen", .string "xx")]

theorem older_ne_newer : older ≠ newer := by
  intro same
  have values := congrArg Prod.snd (List.cons.inj (Value.object.inj same)).1
  have texts : "x" = "xx" := Value.string.inj values
  exact absurd texts (by decide)

/-- One task updates a state and takes a checkpoint, and the other one updates the state. -/
def racers : List (List StateCall) := [[.update "n" older, .checkpoint], [.update "n" newer]]

/-- A process over an empty store. -/
def unsaved : World := .start (some fun _ => none) (fun _ => none) fun _ => []

/-- A run of the two tasks. -/
def race (schedule : List Nat) : List (Occurrence Engine World) × Config Engine World :=
  Config.play (S := Engine) walkCall (fun _ => World.perform (host single))
    ⟨unsaved, (racers.map (executor copyGraph).stateCalls).map Task.run⟩ schedule

theorem race_run (schedule : List Nat) : (executor copyGraph).StateRun racers (host single) unsaved
    (race schedule).1 (race schedule).2 :=
  Config.run_play _ _

/-- The checkpoint of the first task has been taken before the second task updates the state, and
is saved afterwards. -/
def overtaken : List Nat := List.replicate 5 0 ++ List.replicate 3 1 ++ List.replicate 2 0

/-- All tasks have completed, memory holds the newer state, and the store the older one. -/
theorem overtaken_save_loses : ∃ steps config, (executor copyGraph).StateRun racers (host single)
      unsaved steps config ∧
    (∀ task ∈ config.tasks, task.outcome?.isSome = true) ∧
    config.world.states.get? "n" = some newer ∧
    config.world.entries ((executor copyGraph).stateKey "n") = some older ∧
    ¬ (executor copyGraph).HoldsLatest steps config.world := by
  have done : ((race overtaken).2.tasks.all fun task => task.outcome?.isSome) = true := rfl
  refine ⟨_, _, race_run overtaken, List.all_eq_true.mp done, rfl, rfl, fun latest => ?_⟩
  have updated : Executor.UpdatedIn "n" (race overtaken).1 :=
    ⟨_, List.mem_of_getElem? (i := 0) rfl, older, rfl⟩
  have same : some older = some newer := latest "n" updated
  exact older_ne_newer (Option.some.inj same)

/-- The states updated in a run. -/
def updatedIds (steps : List (Occurrence Engine World)) : List String :=
  steps.filterMap fun step => match step.op with
    | .setState id _ => some id
    | _ => none

theorem mem_updatedIds {id : String} {steps : List (Occurrence Engine World)}
    (updated : Executor.UpdatedIn id steps) : id ∈ updatedIds steps := by
  obtain ⟨step, member, state, updates⟩ := updated
  refine List.mem_filterMap.mpr ⟨step, member, ?_⟩
  rw [updates]

/-- When the first task completes before the second one starts, no save is overtaken. -/
theorem serial_saves_fresh : (executor copyGraph).LastSavesFresh
    (race (List.replicate 10 0 ++ List.replicate 5 1)).1 := by
  have done : ((race (List.replicate 10 0 ++ List.replicate 5 1)).2.tasks.all fun task =>
    task.outcome?.isSome) = true := rfl
  refine (store_latest_iff rfl (race_run _) (List.all_eq_true.mp done)).mp fun id updated => ?_
  have inside : id ∈ ["n", "n"] := mem_updatedIds updated
  obtain rfl : id = "n" := by simpa using inside
  rfl

end Sample

end Sohara
