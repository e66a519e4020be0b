import Sohara.Async.Trace

/-! # Scheduled execution

The executable counterpart of a run: a schedule lists which task advances next, and
each task advances at the leftmost place it can. What a schedule plays is a run.
-/

namespace Async

variable {S : Signature} {W : Type}

namespace Task

variable (body : S.Call → Program S S.Outcome) (handle : Handler S W)

/-- The leftmost step of a task, with the operation it performs. -/
def advance : Task S → W → Option (Option S.Op × Task S)
  | .call target, _ => some (none, .run (body target))
  | .run (.done _), _ => none
  | .run (.perform op next), world => some (some op, .run (next (handle world op).1))
  | .run (.await calls next), _ => some (none, thenRun (spawn calls) next)
  | .both left right, world =>
      match right.suspended, advance left world with
      | true, some (op, next) => some (op, pair next right)
      | _, _ =>
          if left.suspended then (advance right world).map fun step => (step.1, pair left step.2)
          else none
  | .await child next, world =>
      (advance child world).map fun step => (step.1, thenRun step.2 next)

variable {body handle}

/-- Advancing is a step, with the response of the handler. -/
theorem step_of_advance {task next : Task S} {world : W} {op : Option S.Op}
    (advanced : advance body handle task world = some (op, next)) :
    Step body task (op.map fun op => ⟨op, (handle world op).1⟩) next := by
  induction task generalizing op next with
  | call target => cases advanced; exact .enter target
  | run program =>
      cases program with
      | done outcome => cases advanced
      | perform op rest => cases advanced; exact .perform op rest _
      | await calls rest => cases advanced; exact .start calls rest
  | both left right ihLeft ihRight =>
      unfold advance at advanced
      split at advanced
      · next waiting stepped =>
          cases advanced
          exact .left waiting (ihLeft stepped)
      · split at advanced
        · next waiting =>
            obtain ⟨step, stepped, same⟩ := Option.map_eq_some_iff.mp advanced
            cases same
            exact .right waiting (ihRight stepped)
        · cases advanced
  | await child rest ih =>
      unfold advance at advanced
      obtain ⟨step, stepped, same⟩ := Option.map_eq_some_iff.mp advanced
      cases same
      exact .child rest (ih stepped)

end Task

namespace Config

variable (body : S.Call → Program S S.Outcome) (handle : Nat → Handler S W)

/-- Advances the scheduled tasks in turn and lists the operations performed; a task
that cannot advance is passed over. -/
def play (config : Config S W) : List Nat → List (Occurrence S W) × Config S W
  | [] => ([], config)
  | index :: rest =>
      match config.tasks[index]? with
      | none => play config rest
      | some task =>
          match task.advance body (handle index) config.world with
          | none => play config rest
          | some (none, next) => play ⟨config.world, config.tasks.set index next⟩ rest
          | some (some op, next) =>
              let played :=
                play ⟨(handle index config.world op).2, config.tasks.set index next⟩ rest
              (⟨index, config.world, op⟩ :: played.1, played.2)

variable {body handle} {environment : W → W → Prop}

/-- What is played after a run extends it. -/
theorem Run.play {start config : Config S W} {steps : List (Occurrence S W)}
    (run : Run body handle environment start steps config) (schedule : List Nat) :
    Run body handle environment start (steps ++ (config.play body handle schedule).1)
      (config.play body handle schedule).2 := by
  induction schedule generalizing steps config with
  | nil => rwa [Config.play, List.append_nil]
  | cons index rest ih =>
      unfold Config.play
      cases selected : config.tasks[index]? with
      | none => exact ih run
      | some task =>
          cases advanced : task.advance body (handle index) config.world with
          | none => simpa only [advanced] using ih run
          | some result =>
              obtain ⟨op, next⟩ := result
              have step := Task.step_of_advance advanced
              cases op with
              | none => simpa only [advanced] using ih (run.silent index selected step)
              | some op =>
                  have extended := ih (run.event index op selected step)
                  rw [List.append_assoc, List.singleton_append] at extended
                  simpa only [advanced] using extended

/-- **Soundness of schedules.** -/
theorem run_play (start : Config S W) (schedule : List Nat) :
    Run body handle environment start (start.play body handle schedule).1
      (start.play body handle schedule).2 :=
  Run.refl.play schedule

end Config

end Async
