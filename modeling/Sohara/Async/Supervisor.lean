import Sohara.Async.Accounting

/-! # A main task joining spawned tasks

The main task waits for the spawned tasks in their order, returns the first
failure it meets, and otherwise runs a final program. Spawned tasks keep running
whatever the main task does.

When all programs halt so does the whole, and it can only stop after the main
task has returned. When the spawned tasks are accounted for, everything is spent
once the main task has joined them.
-/

namespace Async

variable {S : Signature} {W : Type}

/-- The progress of the main task. -/
inductive Main (S : Signature) : Type where
  | joining (index : Nat)
  | finishing (task : Task S)
  | returned (outcome : S.Outcome)

/-- Spawned tasks over a world, with the main task joining them. -/
structure Supervised (S : Signature) (W : Type) where
  spawned : Config S W
  main : Main S

namespace Supervised

section Steps

variable (body : S.Call → Program S S.Outcome) (handle : Handler S W)
  (finish : Program S S.Outcome)

/-- One step of a spawned task or of the main task. -/
inductive Step : Supervised S W → Supervised S W → Prop where
  | spawned {before after : Config S W} (main : Main S)
      (step : Config.Step body handle before after) : Step ⟨before, main⟩ ⟨after, main⟩
  | join {config : Config S W} {index : Nat}
      (done : config.tasks[index]? = some (.run (.done (.ok ())))) :
      Step ⟨config, .joining index⟩ ⟨config, .joining (index + 1)⟩
  | fail {config : Config S W} {index : Nat} {failure : S.Failure}
      (done : config.tasks[index]? = some (.run (.done (.error failure)))) :
      Step ⟨config, .joining index⟩ ⟨config, .returned (.error failure)⟩
  | finish {config : Config S W} {index : Nat} (all : config.tasks.length ≤ index) :
      Step ⟨config, .joining index⟩ ⟨config, .finishing (.run finish)⟩
  | main {config : Config S W} {task next : Task S} {after : W}
      (moves : Task.Moves body handle task config.world next after) :
      Step ⟨config, .finishing task⟩ ⟨⟨after, config.tasks⟩, .finishing next⟩
  | returned {config : Config S W} (outcome : S.Outcome) :
      Step ⟨config, .finishing (.run (.done outcome))⟩ ⟨config, .returned outcome⟩

/-- States connected by a finite run. -/
def Reaches : Supervised S W → Supervised S W → Prop :=
  Relation.ReflTransGen (Step body handle finish)

/-- No infinite run starts at the state. -/
def Halts : Supervised S W → Prop :=
  Acc fun after before => Step body handle finish before after

/-- The start: nothing joined yet. -/
def start (world : W) (tasks : List (Task S)) : Supervised S W := ⟨⟨world, tasks⟩, .joining 0⟩

end Steps

variable {body : S.Call → Program S S.Outcome} {handle : Handler S W}
  {finish : Program S S.Outcome}

section Halting

/-- One step of one of several tasks. -/
def TaskStep (body : S.Call → Program S S.Outcome) (before after : List (Task S)) : Prop :=
  ∃ index task event next, before[index]? = some task ∧ Task.Step body task event next ∧
    after = before.set index next

/-- Halting tasks halt together. -/
theorem tasks_halt {tasks : List (Task S)} (each : ∀ task ∈ tasks, Task.Halts body task) :
    Acc (fun after before => TaskStep body before after) tasks := by
  induction tasks with
  | nil =>
      refine .intro _ fun after step => ?_
      obtain ⟨index, task, event, next, selected, -, -⟩ := step
      cases selected
  | cons task rest ih =>
      have others := ih fun other member => each other (List.mem_cons_of_mem _ member)
      have first := each task List.mem_cons_self
      clear ih each
      induction first generalizing rest with
      | intro task _ ihTask =>
        induction others with
        | intro rest restSteps ihRest =>
          refine .intro _ fun after step => ?_
          obtain ⟨index, chosen, event, next, selected, step, rfl⟩ := step
          cases index with
          | zero =>
              cases selected
              exact ihTask next ⟨event, step⟩ rest (Acc.intro rest restSteps)
          | succ index => exact ihRest _ ⟨index, chosen, event, next, selected, step, rfl⟩

theorem taskStep_of_step {before after : Config S W} (step : Config.Step body handle before after) :
    TaskStep body before.tasks after.tasks := by
  cases step with
  | task index selected moves =>
      cases moves with
      | silent _ step => exact ⟨index, _, _, _, selected, step, rfl⟩
      | event _ op step => exact ⟨index, _, _, _, selected, step, rfl⟩

/-- **Termination.** Halting tasks and a halting final program halt together. -/
theorem halts_start {world : W} {tasks : List (Task S)}
    (each : ∀ task ∈ tasks, Task.Halts body task) (last : Task.Halts body (.run finish)) :
    Halts body handle finish (start world tasks) := by
  have general : ∀ tasks, Acc (fun after before => TaskStep body before after) tasks →
      (∀ world outcome, Halts body handle finish ⟨⟨world, tasks⟩, .returned outcome⟩) ∧
      (∀ task, Task.Halts body task → ∀ world,
        Halts body handle finish ⟨⟨world, tasks⟩, .finishing task⟩) ∧
      ∀ index world, Halts body handle finish ⟨⟨world, tasks⟩, .joining index⟩ := by
    intro tasks halts
    induction halts with
    | intro tasks _ ih =>
      have returned : ∀ world outcome,
          Halts body handle finish ⟨⟨world, tasks⟩, .returned outcome⟩ := by
        refine fun world outcome => .intro _ fun after step => ?_
        cases step with
        | spawned _ step => exact (ih _ (taskStep_of_step step)).1 _ outcome
      have finishing : ∀ task, Task.Halts body task → ∀ world,
          Halts body handle finish ⟨⟨world, tasks⟩, .finishing task⟩ := by
        intro task halts
        induction halts with
        | intro task taskSteps ihTask =>
          refine fun world => .intro _ fun after step => ?_
          cases step with
          | spawned _ step =>
              exact (ih _ (taskStep_of_step step)).2.1 task (.intro task taskSteps) _
          | main moves =>
              cases moves with
              | silent _ step => exact ihTask _ ⟨_, step⟩ _
              | event _ op step => exact ihTask _ ⟨_, step⟩ _
          | returned outcome => exact returned _ outcome
      refine ⟨returned, finishing, fun index => ?_⟩
      -- joined tasks only grow in number
      induction left : tasks.length - index using Nat.strong_induction_on generalizing index with
      | _ left ihLeft =>
        refine fun world => .intro _ fun after step => ?_
        cases step with
        | spawned _ step => exact (ih _ (taskStep_of_step step)).2.2 index _
        | join done =>
            have inside : index < tasks.length := (List.getElem?_eq_some_iff.mp done).1
            exact ihLeft (tasks.length - (index + 1)) (by omega) (index + 1) rfl world
        | fail done => exact returned _ _
        | finish all => exact finishing _ last _
  exact (general tasks (tasks_halt each)).2.2 0 world

end Halting

section Progress

/-- Every task is reduced. -/
def Settled (state : Supervised S W) : Prop :=
  (∀ task ∈ state.spawned.tasks, task.Settled) ∧
    ∀ task, state.main = .finishing task → task.Settled

theorem settled_of_moves {task next : Task S} {world after : W} (settled : task.Settled)
    (moves : Task.Moves body handle task world next after) : next.Settled := by
  cases moves with
  | silent _ step => exact settled.step step
  | event _ op step => exact settled.step step

theorem Settled.reaches {state next : Supervised S W} (settled : state.Settled)
    (reached : Reaches body handle finish state next) : next.Settled := by
  induction reached with
  | refl => exact settled
  | tail _ step ih =>
      obtain ⟨tasks, main⟩ := ih
      cases step with
      | spawned main' step =>
          cases step with
          | task index selected moves =>
              refine ⟨fun task member => ?_, main⟩
              rcases List.mem_or_eq_of_mem_set member with old | rfl
              · exact tasks task old
              · exact settled_of_moves (tasks _ (List.mem_of_getElem? selected)) moves
      | join done => exact ⟨tasks, fun _ same => nomatch same⟩
      | fail done => exact ⟨tasks, fun _ same => nomatch same⟩
      | finish all =>
          refine ⟨tasks, fun task same => ?_⟩
          cases same
          trivial
      | main moves =>
          refine ⟨tasks, fun task same => ?_⟩
          cases same
          exact settled_of_moves (main _ rfl) moves
      | returned outcome => exact ⟨tasks, fun _ same => nomatch same⟩

/-- An operation can be answered in any way. -/
theorem exists_step_response {task next : Task S} {event : Event S}
    (step : Task.Step body task (some event) next) (response : S.Response event.op) :
    ∃ next, Task.Step body task (some ⟨event.op, response⟩) next := by
  generalize performed : some event = label at step
  induction step with
  | enter target => cases performed
  | perform op after _ =>
      cases performed
      exact ⟨_, .perform op after response⟩
  | start calls after => cases performed
  | left waiting _ ih => exact (ih performed).imp' _ fun _ step => .left waiting step
  | right waiting _ ih => exact (ih performed).imp' _ fun _ step => .right waiting step
  | child after _ ih => exact (ih performed).imp' _ fun _ step => .child after step

variable (body handle) in
theorem exists_moves [∀ op : S.Op, Nonempty (S.Response op)] {task : Task S}
    (settled : task.Settled) (unfinished : task.outcome? = none) (world : W) :
    ∃ next after, Task.Moves body handle task world next after := by
  obtain ⟨event, next, step⟩ := settled.exists_step body unfinished
  cases event with
  | none => exact ⟨next, world, .silent world step⟩
  | some event =>
      obtain ⟨next, step⟩ := exists_step_response step (handle world event.op).1
      exact ⟨next, _, .event world event.op step⟩

/-- **Progress.** Until the main task has returned, there is a next step. -/
theorem Settled.exists_step [∀ op : S.Op, Nonempty (S.Response op)] {state : Supervised S W}
    (settled : state.Settled) (running : ∀ outcome, state.main ≠ .returned outcome) :
    ∃ next, Step body handle finish state next := by
  obtain ⟨⟨world, tasks⟩, main⟩ := state
  cases main with
  | joining index =>
      cases selected : tasks[index]? with
      | none => exact ⟨_, .finish (List.getElem?_eq_none_iff.mp selected)⟩
      | some task =>
          cases done : task.outcome? with
          | none =>
              obtain ⟨next, after, moves⟩ := exists_moves body handle
                (settled.1 task (List.mem_of_getElem? selected)) done world
              exact ⟨_, .spawned _ (.task index selected moves)⟩
          | some outcome =>
              rw [Task.outcome?_eq_some done] at selected
              cases outcome with
              | ok _ => exact ⟨_, .join selected⟩
              | error failure => exact ⟨_, .fail selected⟩
  | finishing task =>
      cases done : task.outcome? with
      | none =>
          obtain ⟨next, after, moves⟩ := exists_moves body handle
            (settled.2 task rfl) done world
          exact ⟨_, .main moves⟩
      | some outcome =>
          rw [Task.outcome?_eq_some done]
          exact ⟨_, .returned outcome⟩
  | returned outcome => exact absurd rfl (running outcome)

end Progress

section Accounting

variable {M : Type} [AddCommMonoid M] (admits : (op : S.Op) → S.Response op → Prop)
  (cost : Event S → M) (admissible : S.Call → Prop) (price : S.Call → M) (measure : W → M)
  (onOp : S.Op → Prop) (onCall : S.Call → Prop) (total : M)

/-- The accounts of a run: while the main task joins, spent and unspent amounts add
up to the total; afterwards everything is spent and nothing is left running. -/
def Accounted (state : Supervised S W) : Prop :=
  match state.main with
  | .joining index =>
      state.spawned.Costs admits cost admissible price measure total ∧
        ∀ earlier < index, ∃ task, state.spawned.tasks[earlier]? = some task ∧
          task.outcome? ≠ none
  | .finishing task =>
      measure state.spawned.world = total ∧
        (∀ task ∈ state.spawned.tasks, task.outcome? = some (.ok ())) ∧
          task.Obeys admits onOp onCall
  | .returned _ =>
      measure state.spawned.world = total ∧
        ∀ task ∈ state.spawned.tasks, task.outcome? = some (.ok ())

variable {admits cost admissible price measure onOp onCall total} {invariant : W → Prop}

/-- A finished task does not step. -/
theorem not_step_of_outcome {config next : Config S W}
    (finished : ∀ task ∈ config.tasks, task.outcome? = some (.ok ()))
    (step : Config.Step body handle config next) : False := by
  cases step with
  | task index selected moves =>
      have done := Task.outcome?_eq_some (finished _ (List.mem_of_getElem? selected))
      subst done
      cases moves with
      | silent _ step => cases step
      | event _ op step => cases step

/-- **Accounting rule for a whole run.** -/
theorem Accounted.reaches (invariant : W → Prop) {state next : Supervised S W}
    (bodies : ∀ target, admissible target →
      (body target).Costs admits cost admissible price (· = .ok ()) (price target))
    (lasts : ∀ target, onCall target → (body target).Obeys admits onOp onCall fun _ => True)
    (last : finish.Obeys admits onOp onCall fun _ => True)
    (admitted : ∀ world op, invariant world → admits op (handle world op).1)
    (preserved : ∀ world op, invariant world → invariant (handle world op).2)
    (measured : ∀ world op,
      measure (handle world op).2 = measure world + cost ⟨op, (handle world op).1⟩)
    (idle : ∀ op response, onOp op → cost ⟨op, response⟩ = 0)
    (holds : invariant state.spawned.world)
    (accounted : state.Accounted admits cost admissible price measure onOp onCall total)
    (reached : Reaches body handle finish state next) :
    next.Accounted admits cost admissible price measure onOp onCall total ∧
      invariant next.spawned.world := by
  induction reached with
  | refl => exact ⟨accounted, holds⟩
  | tail _ step ih =>
      obtain ⟨accounted, holds⟩ := ih
      cases step with
      | @spawned before after main step =>
          have kept : invariant after.world := by
            cases step with
            | task index selected moves =>
                cases moves with
                | silent => exact holds
                | event _ op => exact preserved _ op holds
          cases main with
          | joining index =>
              obtain ⟨costs, joined⟩ := accounted
              refine ⟨⟨costs.step bodies admitted measured holds step, ?_⟩, kept⟩
              intro earlier below
              obtain ⟨task, selected, done⟩ := joined earlier below
              cases step with
              | @task chosen running next _ running_ moves =>
                  refine ⟨task, ?_, done⟩
                  rw [List.getElem?_set_ne, selected]
                  rintro rfl
                  rw [selected] at running_
                  cases running_
                  obtain ⟨outcome, ended⟩ := Option.ne_none_iff_exists'.mp done
                  rw [Task.outcome?_eq_some ended] at moves
                  cases moves with
                  | silent _ step => cases step
                  | event _ _ step => cases step
          | finishing task => exact (not_step_of_outcome accounted.2.1 step).elim
          | returned outcome => exact (not_step_of_outcome accounted.2 step).elim
      | @join config index done =>
          obtain ⟨costs, joined⟩ := accounted
          refine ⟨⟨costs, fun earlier below => ?_⟩, holds⟩
          rcases Nat.lt_succ_iff_lt_or_eq.mp below with before | rfl
          · exact joined earlier before
          · exact ⟨_, done, fun same => nomatch same⟩
      | @fail config index failure done =>
          obtain ⟨⟨amounts, each, -⟩, -⟩ := accounted
          obtain ⟨amount, -, costs, -, -⟩ := Config.exchange each done
          exact nomatch (costs.of_outcome rfl).2
      | @finish config index all =>
          obtain ⟨costs, joined⟩ := accounted
          obtain ⟨spent, finished⟩ := costs.finished fun task member => by
            obtain ⟨earlier, inside, rfl⟩ := List.mem_iff_getElem.mp member
            obtain ⟨task, selected, done⟩ := joined earlier (Nat.lt_of_lt_of_le inside all)
            rw [List.getElem?_eq_getElem inside] at selected
            rw [Option.some.inj selected]
            exact done
          exact ⟨⟨spent, finished, last⟩, holds⟩
      | @main config task next after moves =>
          obtain ⟨spent, finished, obeys⟩ := accounted
          cases moves with
          | silent _ step =>
              exact ⟨⟨spent, finished, obeys.step lasts step fun _ same => (nomatch same)⟩, holds⟩
          | event _ op step =>
              have permitted : onOp op := obeys.permits step
              refine ⟨⟨?_, finished, obeys.step lasts step fun performed same => ?_⟩,
                preserved _ op holds⟩
              · show measure (handle config.world op).2 = total
                rw [measured, idle op _ permitted, add_zero]
                exact spent
              · cases same
                exact admitted _ op holds
      | returned outcome => exact ⟨⟨accounted.1, accounted.2.1⟩, holds⟩

end Accounting

end Supervised

end Async
