import Sohara.Async.Task

/-! # Tasks over a shared world

A machine runs any number of tasks over one world. A handler gives the response
of every operation and its effect on the world; the scheduler picks the task and
the position inside it. An invariant that all permitted operations preserve
holds in every configuration of every run.
-/

namespace Async

variable {S : Signature} {W : Type}

/-- The response of each operation in a world, and the world it leaves. -/
abbrev Handler (S : Signature) (W : Type) : Type :=
  W → (op : S.Op) → S.Response op × W

namespace Task

variable (body : S.Call → Program S S.Outcome) (handle : Handler S W)

/-- One step of a task over a world. -/
inductive Moves : Task S → W → Task S → W → Prop where
  | silent {task next : Task S} (world : W) (step : Step body task none next) :
      Moves task world next world
  | event {task next : Task S} (world : W) (op : S.Op)
      (step : Step body task (some ⟨op, (handle world op).1⟩) next) :
      Moves task world next (handle world op).2

variable {body handle} {onOp : S.Op → Prop} {onCall : S.Call → Prop}
  {admits : (op : S.Op) → S.Response op → Prop} {invariant : W → Prop}

/-- **Invariant rule for one task.** Permitted operations get admitted responses and
preserve the invariant; then so does every step of an obeying task. -/
theorem Obeys.moves {task next : Task S} {world after : W}
    (bodies : ∀ target, onCall target → (body target).Obeys admits onOp onCall fun _ => True)
    (admitted : ∀ world op, invariant world → onOp op → admits op (handle world op).1)
    (preserved : ∀ world op, invariant world → onOp op → invariant (handle world op).2)
    (obeys : task.Obeys admits onOp onCall) (holds : invariant world)
    (moves : Moves body handle task world next after) :
    next.Obeys admits onOp onCall ∧ invariant after := by
  cases moves with
  | silent _ step => exact ⟨obeys.step bodies step (fun _ same => nomatch same), holds⟩
  | event _ op step =>
      have permitted : onOp op := obeys.permits step
      refine ⟨obeys.step bodies step fun performed same => ?_, preserved _ op holds permitted⟩
      cases same
      exact admitted _ op holds permitted

end Task

/-- A world with the tasks running over it. -/
structure Config (S : Signature) (W : Type) where
  world : W
  tasks : List (Task S)

namespace Config

variable (body : S.Call → Program S S.Outcome) (handle : Handler S W)

/-- One step of one task. -/
inductive Step : Config S W → Config S W → Prop where
  | task {config : Config S W} (index : Nat) {task next : Task S} {after : W}
      (selected : config.tasks[index]? = some task)
      (moves : Task.Moves body handle task config.world next after) :
      Step config ⟨after, config.tasks.set index next⟩

/-- Configurations connected by a finite run. -/
def Reaches : Config S W → Config S W → Prop :=
  Relation.ReflTransGen (Step body handle)

variable {body handle} {onOp : S.Op → Prop} {onCall : S.Call → Prop}
  {admits : (op : S.Op) → S.Response op → Prop} {invariant : W → Prop}

/-- Every task of the configuration obeys the safety judgement. -/
def Obeys (admits : (op : S.Op) → S.Response op → Prop) (onOp : S.Op → Prop)
    (onCall : S.Call → Prop) (config : Config S W) : Prop :=
  ∀ task ∈ config.tasks, task.Obeys admits onOp onCall

/-- **Invariant rule for whole runs.** -/
theorem Obeys.reaches {config next : Config S W}
    (bodies : ∀ target, onCall target → (body target).Obeys admits onOp onCall fun _ => True)
    (admitted : ∀ world op, invariant world → onOp op → admits op (handle world op).1)
    (preserved : ∀ world op, invariant world → onOp op → invariant (handle world op).2)
    (obeys : config.Obeys admits onOp onCall) (holds : invariant config.world)
    (reached : Reaches body handle config next) :
    next.Obeys admits onOp onCall ∧ invariant next.world := by
  induction reached with
  | refl => exact ⟨obeys, holds⟩
  | tail _ step ih =>
      obtain ⟨tasksObey, worldHolds⟩ := ih
      cases step with
      | task index selected moves =>
          have running := tasksObey _ (List.mem_of_getElem? selected)
          obtain ⟨after, kept⟩ := running.moves bodies admitted preserved worldHolds moves
          refine ⟨fun other member => ?_, kept⟩
          rcases List.mem_or_eq_of_mem_set member with old | rfl
          · exact tasksObey other old
          · exact after

end Config

end Async
