import Sohara.Async.BigStep
import Sohara.Async.Supervisor

/-! # The phases of a supervised run

While the main task joins, only the spawned tasks perform operations. The final program
starts when all of them have succeeded, and then runs alone. So a supervised run is a run
of the spawned tasks, followed by an evaluation of the final program when there was no
failure.
-/

namespace Async

variable {S : Signature} {W : Type}

namespace Supervised

/-- Tasks that have all succeeded. -/
def AllSucceeded (tasks : List (Task S)) : Prop := ∀ task ∈ tasks, task = .run (.done (.ok ()))

section Definitions

variable (body : S.Call → Program S S.Outcome) (handle : Handler S W)
  (finish : Program S S.Outcome) (world : W) (tasks : List (Task S))

/-- How a supervised run got to a state: the operations of the spawned tasks, and those of
the final program. -/
inductive Phase : List (Occurrence S W) → List (Occurrence S W) → Supervised S W → Prop where
  | joining {running : List (Occurrence S W)} {config : Config S W} {index : Nat}
      (run : Config.Run body (fun _ => handle) (fun _ _ => False) ⟨world, tasks⟩ running config)
      (joined : AllSucceeded (config.tasks.take index)) :
      Phase running [] ⟨config, .joining index⟩
  | failed {running : List (Occurrence S W)} {config : Config S W} {failure : S.Failure}
      (run : Config.Run body (fun _ => handle) (fun _ _ => False) ⟨world, tasks⟩ running config)
      (failed : .run (.done (.error failure)) ∈ config.tasks) :
      Phase running [] ⟨config, .returned (.error failure)⟩
  | finishing {running pass : List (Occurrence S W)} (config : Config S W) {task : Task S}
      {after : W}
      (run : Config.Run body (fun _ => handle) (fun _ _ => False) ⟨world, tasks⟩ running config)
      (joined : AllSucceeded config.tasks)
      (ran : Task.Ran body handle (.run finish) config.world pass task after) :
      Phase running pass ⟨⟨after, config.tasks⟩, .finishing task⟩
  | returned {running pass : List (Occurrence S W)} (config : Config S W)
      {outcome : S.Outcome} {after : W}
      (run : Config.Run body (fun _ => handle) (fun _ _ => False) ⟨world, tasks⟩ running config)
      (joined : AllSucceeded config.tasks)
      (ran : Task.Ran body handle (.run finish) config.world pass (.run (.done outcome)) after) :
      Phase running pass ⟨⟨after, config.tasks⟩, .returned outcome⟩

end Definitions

variable {body : S.Call → Program S S.Outcome} {handle : Handler S W}
  {finish : Program S S.Outcome} {world : W} {tasks : List (Task S)}

/-- One more step of the spawned tasks. -/
theorem run_step {start before after : Config S W} {steps : List (Occurrence S W)}
    (run : Config.Run body (fun _ => handle) (fun _ _ => False) start steps before)
    (step : Config.Step body handle before after) :
    ∃ more, Config.Run body (fun _ => handle) (fun _ _ => False) start (steps ++ more) after ∧
      ∀ index : Nat, before.tasks[index]? = some (.run (.done (.ok ()))) →
        after.tasks[index]? = some (.run (.done (.ok ()))) := by
  cases step with
  | task position selected moves =>
      have kept : ∀ {task next : Task S} {event : Option (Event S)},
          before.tasks[position]? = some task → Task.Step body task event next →
            ∀ index : Nat, before.tasks[index]? = some (.run (.done (.ok ()))) →
              (before.tasks.set position next)[index]? = some (.run (.done (.ok ()))) := by
        intro task next event selected step index done
        rw [List.getElem?_set_ne]
        · exact done
        · rintro rfl
          cases selected.symm.trans done
          cases step
      cases moves with
      | silent _ step =>
          refine ⟨[], ?_, kept selected step⟩
          rw [List.append_nil]
          exact .silent position run selected step
      | event _ op step =>
          exact ⟨_, .event position op run selected step, kept selected step⟩

theorem mem_of_failed {before after : Config S W} {failure : S.Failure}
    (step : Config.Step body handle before after)
    (failed : .run (.done (.error failure)) ∈ before.tasks) :
    .run (.done (.error failure)) ∈ after.tasks := by
  obtain ⟨index, selected⟩ := List.mem_iff_getElem?.mp failed
  cases step with
  | @task position task next after current moves =>
      have other : position ≠ index := by
        rintro rfl
        cases current.symm.trans selected
        cases moves with
        | silent _ step => cases step
        | event _ op step => cases step
      apply List.mem_of_getElem? (i := index)
      rw [List.getElem?_set_ne other]
      exact selected

/-- Joined tasks stay as they are. -/
theorem AllSucceeded.take_step {before after : Config S W} {index : Nat}
    (joined : AllSucceeded (before.tasks.take index))
    (kept : ∀ index : Nat, before.tasks[index]? = some (.run (.done (.ok ()))) →
      after.tasks[index]? = some (.run (.done (.ok ()))))
    (same : after.tasks.length = before.tasks.length) :
    AllSucceeded (after.tasks.take index) := by
  intro task member
  obtain ⟨position, inside, selected⟩ := List.mem_take_iff_getElem.mp member
  have bound : position < before.tasks.length := by omega
  have earlier : before.tasks[position] = .run (.done (.ok ())) :=
    joined _ (List.mem_take_iff_getElem.mpr ⟨position, by omega, rfl⟩)
  have now := kept position (by rw [List.getElem?_eq_getElem bound, earlier])
  rw [List.getElem?_eq_getElem (by omega)] at now
  exact selected.symm.trans (Option.some.inj now)

/-- **Every supervised run goes through its phases.** -/
theorem phase_of_reaches {state : Supervised S W}
    (reached : Reaches body handle finish (start world tasks) state) :
    ∃ running pass, Phase body handle finish world tasks running pass state := by
  induction reached with
  | refl => exact ⟨[], [], .joining .refl fun _ member => nomatch member⟩
  | tail _ step ih =>
      obtain ⟨running, pass, phase⟩ := ih
      cases phase with
      | @joining config index run joined =>
          cases step with
          | @spawned _ after _ step =>
              obtain ⟨more, run, kept⟩ := run_step run step
              have same : after.tasks.length = config.tasks.length := by
                cases step
                exact List.length_set
              exact ⟨_, _, .joining run (joined.take_step kept same)⟩
          | join done =>
              refine ⟨_, _, .joining run fun task member => ?_⟩
              rw [List.take_add_one, done] at member
              rcases List.mem_append.mp member with earlier | last
              · exact joined task earlier
              · exact List.mem_singleton.mp last
          | fail done => exact ⟨_, _, .failed run (List.mem_of_getElem? done)⟩
          | finish all =>
              rw [List.take_of_length_le all] at joined
              exact ⟨_, _, .finishing _ run joined (.refl ..)⟩
      | failed run failed =>
          cases step with
          | spawned _ step =>
              obtain ⟨more, run, -⟩ := run_step run step
              exact ⟨_, _, .failed run (mem_of_failed step failed)⟩
      | finishing config run joined ran =>
          cases step with
          | spawned _ step =>
              refine absurd step fun step => not_step_of_outcome (fun task member => ?_) step
              rw [joined task member]
              rfl
          | main moves =>
              cases moves with
              | silent _ step =>
                  have extended := ran.trans (.silent step (.refl ..))
                  exact ⟨_, _, .finishing config run joined extended⟩
              | event _ op step =>
                  have extended := ran.trans (.event op step (.refl ..))
                  exact ⟨_, _, .finishing config run joined extended⟩
          | returned outcome => exact ⟨_, _, .returned config run joined ran⟩
      | returned config run joined ran =>
          cases step with
          | spawned _ step =>
              refine absurd step fun step => not_step_of_outcome (fun task member => ?_) step
              rw [joined task member]
              rfl

/-- **A supervised run that has returned.** A spawned task has failed, or all have succeeded
and the final program has evaluated to what is returned. -/
theorem returned_cases {state : Supervised S W} {outcome : S.Outcome}
    (reached : Reaches body handle finish (start world tasks) state)
    (ended : state.main = .returned outcome) :
    ∃ running config,
      Config.Run body (fun _ => handle) (fun _ _ => False) ⟨world, tasks⟩ running config ∧
      ((∃ failure, outcome = .error failure ∧ .run (.done (.error failure)) ∈ config.tasks ∧
          state.spawned.world = config.world) ∨
        AllSucceeded config.tasks ∧ ∃ pass,
          Program.Evaluates body handle finish config.world pass outcome state.spawned.world) := by
  obtain ⟨running, pass, phase⟩ := phase_of_reaches reached
  cases phase with
  | joining => cases ended
  | failed run failed =>
      cases ended
      exact ⟨_, _, run, .inl ⟨_, rfl, failed, rfl⟩⟩
  | finishing => cases ended
  | returned config run joined ran =>
      cases ended
      exact ⟨_, _, run, .inr ⟨joined, _, Program.evaluates_of_ran ran⟩⟩

/-- An occurrence in the task of the given number. -/
def inTask (index : Nat) (step : Occurrence S W) : Occurrence S W :=
  ⟨index, step.world, step.op⟩

/-- A further task that does nothing. -/
theorem run_beside {start config : Config S W} {steps : List (Occurrence S W)} (extra : Task S)
    (run : Config.Run body (fun _ => handle) (fun _ _ => False) start steps config) :
    Config.Run body (fun _ => handle) (fun _ _ => False) ⟨start.world, start.tasks ++ [extra]⟩ steps
      ⟨config.world, config.tasks ++ [extra]⟩ := by
  have inside : ∀ {tasks : List (Task S)} {index : Nat} {task : Task S},
      tasks[index]? = some task → index < tasks.length := fun selected =>
    (List.getElem?_eq_some_iff.mp selected).1
  induction run with
  | refl => exact .refl
  | silent index _ selected step ih =>
      rw [← List.set_append_left _ _ (inside selected)]
      exact .silent index ih ((List.getElem?_append_left (inside selected)).trans selected) step
  | event index op _ selected step ih =>
      rw [← List.set_append_left _ _ (inside selected)]
      exact .event index op ih ((List.getElem?_append_left (inside selected)).trans selected) step
  | environment _ changed => exact changed.elim

/-- The last task going on alone. -/
theorem run_last {start : Config S W} {steps more : List (Occurrence S W)} {between after : W}
    {task next : Task S} (others : List (Task S))
    (run : Config.Run body (fun _ => handle) (fun _ _ => False) start steps
      ⟨between, others ++ [task]⟩)
    (ran : Task.Ran body handle task between more next after) :
    Config.Run body (fun _ => handle) (fun _ _ => False) start
      (steps ++ more.map (inTask others.length)) ⟨after, others ++ [next]⟩ := by
  have selected : ∀ task : Task S, (others ++ [task])[others.length]? = some task := by
    intro task
    rw [List.getElem?_append_right (Nat.le_refl _), Nat.sub_self]
    rfl
  induction ran generalizing steps with
  | refl =>
      rw [List.map_nil, List.append_nil]
      exact run
  | silent step _ ih =>
      have stepped := run.silent others.length (selected _) step
      rw [List.set_append_right _ _ (Nat.le_refl _), Nat.sub_self, List.set_cons_zero] at stepped
      exact ih stepped
  | event op step _ ih =>
      have stepped := run.event others.length op (selected _) step
      rw [List.set_append_right _ _ (Nat.le_refl _), Nat.sub_self, List.set_cons_zero] at stepped
      rw [List.map_cons, List.append_cons]
      exact ih stepped

/-- **A supervised run is a run** of the spawned tasks and the final program. -/
theorem Phase.asRun {running pass : List (Occurrence S W)} {state : Supervised S W}
    (phase : Phase body handle finish world tasks running pass state) :
    ∃ last, Config.Run body (fun _ => handle) (fun _ _ => False) ⟨world, tasks ++ [.run finish]⟩
      (running ++ pass.map (inTask state.spawned.tasks.length))
        ⟨state.spawned.world, state.spawned.tasks ++ [last]⟩ := by
  cases phase with
  | joining run joined =>
      refine ⟨.run finish, ?_⟩
      rw [List.map_nil, List.append_nil]
      exact run_beside (.run finish) run
  | failed run failed =>
      refine ⟨.run finish, ?_⟩
      rw [List.map_nil, List.append_nil]
      exact run_beside (.run finish) run
  | finishing _ run joined ran => exact ⟨_, run_last _ (run_beside (.run finish) run) ran⟩
  | returned _ run joined ran => exact ⟨_, run_last _ (run_beside (.run finish) run) ran⟩

/-- A supervised run that has succeeded is a run in which all tasks have. -/
theorem Phase.succeeded {running pass : List (Occurrence S W)} {state : Supervised S W}
    (phase : Phase body handle finish world tasks running pass state)
    (ended : state.main = .returned (.ok ())) :
    AllSucceeded (state.spawned.tasks ++ [.run (.done (.ok ()))]) ∧
      Config.Run body (fun _ => handle) (fun _ _ => False) ⟨world, tasks ++ [.run finish]⟩
        (running ++ pass.map (inTask state.spawned.tasks.length))
          ⟨state.spawned.world, state.spawned.tasks ++ [.run (.done (.ok ()))]⟩ := by
  cases phase with
  | joining => cases ended
  | failed => cases ended
  | finishing => cases ended
  | returned _ run joined ran =>
      cases ended
      refine ⟨fun task member => ?_, run_last _ (run_beside (.run finish) run) ran⟩
      exact (List.mem_append.mp member).elim (joined task) List.mem_singleton.mp

section Scheduled

variable (body handle finish world tasks)

/-- The spawned tasks as scheduled. -/
def playRunning (schedule : List Nat) : List (Occurrence S W) × Config S W :=
  Config.play body (fun _ => handle) ⟨world, tasks⟩ schedule

/-- The final program after the spawned tasks. -/
def playPass (schedule last : List Nat) : List (Occurrence S W) × Config S W :=
  Config.play body (fun _ => handle)
    ⟨(playRunning body handle world tasks schedule).2.world, [.run finish]⟩ last

variable {body handle finish world tasks}

/-- **A scheduled supervised run.** The spawned tasks play until all have succeeded, then
the final program plays to its end. -/
theorem phase_of_play {schedule last : List Nat} {outcome : S.Outcome}
    (joined : (playRunning body handle world tasks schedule).2.tasks =
      List.replicate tasks.length (.run (.done (.ok ()))))
    (finished : (playPass body handle finish world tasks schedule last).2.tasks =
      [.run (.done outcome)]) :
    Phase body handle finish world tasks (playRunning body handle world tasks schedule).1
      ((playPass body handle finish world tasks schedule last).1.map (inTask 0))
      ⟨⟨(playPass body handle finish world tasks schedule last).2.world,
        (playRunning body handle world tasks schedule).2.tasks⟩, .returned outcome⟩ := by
  obtain ⟨next, alone, ran⟩ := Task.ran_of_run (Config.run_play ⟨_, [.run finish]⟩ last) rfl
  unfold playPass at finished
  rw [finished] at alone
  cases alone
  refine .returned _ (Config.run_play ⟨world, tasks⟩ schedule) ?_ ran
  rw [joined]
  exact fun task member => List.eq_of_mem_replicate member

end Scheduled

end Supervised

end Async
