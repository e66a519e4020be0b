import Mathlib.Data.List.Induction
import Sohara.Async.Phases

/-! # Histories

The operations of a run as a history of its world: each operation happens in the world
the earlier ones have led to. Configurations, tasks and programs leave histories of
permitted operations only, so what holds of every history holds of every run.
-/

namespace Async

variable {S : Signature} {W : Type}

/-- The last element with a property. -/
theorem exists_last {T : Type} {property : T → Prop} {items : List T}
    (some_ : ∃ item ∈ items, property item) : ∃ before last after,
      items = before ++ last :: after ∧ property last ∧ ∀ later ∈ after, ¬ property later := by
  induction items with
  | nil =>
      obtain ⟨item, member, -⟩ := some_
      cases member
  | cons first rest ih =>
      by_cases later : ∃ item ∈ rest, property item
      · obtain ⟨before, last, after, rfl, holds, none_⟩ := ih later
        exact ⟨first :: before, last, after, rfl, holds, none_⟩
      · obtain ⟨item, member, holds⟩ := some_
        rcases List.mem_cons.mp member with rfl | inside
        · exact ⟨[], item, rest, rfl, holds, fun other inside found => later ⟨other, inside, found⟩⟩
        · exact absurd ⟨item, inside, holds⟩ later

/-- From one world to another through the listed operations. -/
inductive History (handle : Handler S W) (world : W) : List (Occurrence S W) → W → Prop where
  | nil : History handle world [] world
  | snoc {steps : List (Occurrence S W)} {between : W}
      (history : History handle world steps between)
      (task : Nat) (op : S.Op) :
      History handle world (steps ++ [⟨task, between, op⟩]) (handle between op).2

variable {body : S.Call → Program S S.Outcome} {handle : Handler S W}
  {world between after : W} {steps more : List (Occurrence S W)}

theorem History.append (first : History handle world steps between)
    (second : History handle between more after) :
    History handle world (steps ++ more) after := by
  induction second with
  | nil =>
      rw [List.append_nil]
      exact first
  | snoc _ task op ih =>
      rw [← List.append_assoc]
      exact ih.snoc task op

/-- One operation before a history. -/
theorem History.cons (task : Nat) (op : S.Op)
    (rest : History handle (handle world op).2 steps after) :
    History handle world (⟨task, world, op⟩ :: steps) after :=
  History.append (.snoc .nil task op) rest

theorem History.of_nil (history : History handle world [] after) : after = world := by
  generalize same : [] = steps at history
  cases history with
  | nil => rfl
  | snoc => exact absurd (congrArg List.length same) (by simp)

theorem History.of_snoc {step : Occurrence S W}
    (history : History handle world (steps ++ [step]) after) :
    History handle world steps step.world ∧ after = (handle step.world step.op).2 := by
  generalize same : steps ++ [step] = all at history
  cases history with
  | nil => exact absurd same (by simp)
  | snoc earlier task op =>
      obtain ⟨rfl, rfl⟩ := List.append_singleton_inj.mp same
      exact ⟨earlier, rfl⟩

theorem History.split (history : History handle world (steps ++ more) after) :
    ∃ between, History handle world steps between ∧ History handle between more after := by
  induction more using List.reverseRecOn generalizing after with
  | nil =>
      rw [List.append_nil] at history
      exact ⟨after, history, .nil⟩
  | append_singleton more last ih =>
      rw [← List.append_assoc] at history
      obtain ⟨earlier, rfl⟩ := history.of_snoc
      obtain ⟨between, first, second⟩ := ih earlier
      exact ⟨between, first, second.snoc last.task last.op⟩

/-- Each operation happens in the world the earlier ones lead to. -/
theorem History.at {before rest : List (Occurrence S W)} {step : Occurrence S W}
    (history : History handle world (before ++ step :: rest) after) :
    History handle world before step.world ∧
      History handle (handle step.world step.op).2 rest after := by
  rw [List.append_cons] at history
  obtain ⟨reached, first, others⟩ := history.split
  obtain ⟨earlier, rfl⟩ := first.of_snoc
  exact ⟨earlier, others⟩

section Runs

variable {onOp : S.Op → Prop} {onCall : S.Call → Prop}

/-- The operations performed are permitted. -/
def Permitted (onOp : S.Op → Prop) (steps : List (Occurrence S W)) : Prop :=
  ∀ step ∈ steps, onOp step.op

theorem Permitted.append (first : Permitted onOp steps) (second : Permitted onOp more) :
    Permitted onOp (steps ++ more) := fun step member =>
  (List.mem_append.mp member).elim (first step) (second step)

theorem Permitted.snoc {task : Nat} {op : S.Op} (earlier : Permitted onOp steps)
    (last : onOp op) : Permitted onOp (steps ++ [⟨task, between, op⟩]) :=
  earlier.append fun _ member => List.mem_singleton.mp member ▸ last

/-- **The operations of a configuration**, from tasks that obey under the responses they get.
That a response is admitted may depend on what has been performed before. -/
theorem Config.Run.permitted_of_earlier {admits : (op : S.Op) → S.Response op → Prop}
    {start config : Config S W}
    (bodies : ∀ target, onCall target → (body target).Obeys admits onOp onCall fun _ => True)
    (obeys : start.Obeys admits onOp onCall)
    (run : Config.Run body (fun _ => handle) (fun _ _ => False) start steps config)
    (admitted : ∀ before step rest, steps = before ++ step :: rest →
      Permitted onOp (before ++ [step]) → admits step.op (handle step.world step.op).1) :
    Permitted onOp steps ∧ config.Obeys admits onOp onCall := by
  have moved : ∀ {config : Config S W} {index : Nat} {next : Task S},
      config.Obeys admits onOp onCall → next.Obeys admits onOp onCall →
        ∀ task ∈ config.tasks.set index next, task.Obeys admits onOp onCall := by
    intro config index next obeys after other member
    rcases List.mem_or_eq_of_mem_set member with old | rfl
    · exact obeys other old
    · exact after
  induction run with
  | refl => exact ⟨(fun _ member => nomatch member), obeys⟩
  | silent index _ selected step ih =>
      obtain ⟨permitted, obeys⟩ := ih admitted
      have running := obeys _ (List.mem_of_getElem? selected)
      exact ⟨permitted, moved obeys (running.step bodies step fun _ same => nomatch same)⟩
  | @event _ between index _ _ op _ selected step ih =>
      obtain ⟨permitted, obeys⟩ := ih fun before earlier rest split =>
        admitted before earlier (rest ++ [_]) (by rw [split, List.append_assoc, List.cons_append])
      have running := obeys _ (List.mem_of_getElem? selected)
      have extended : Permitted onOp (_ ++ [⟨index, between.world, op⟩]) :=
        permitted.snoc (running.permits step)
      refine ⟨extended, moved obeys (running.step bodies step ?_)⟩
      intro performed same
      cases same
      exact admitted _ _ [] rfl extended
  | environment _ changed => exact changed.elim

/-- The operations of a configuration under responses that are admitted anyway. -/
theorem Config.Run.permitted {admits : (op : S.Op) → S.Response op → Prop}
    {start config : Config S W}
    (bodies : ∀ target, onCall target → (body target).Obeys admits onOp onCall fun _ => True)
    (obeys : start.Obeys admits onOp onCall)
    (run : Config.Run body (fun _ => handle) (fun _ _ => False) start steps config)
    (admitted : ∀ step ∈ steps, admits step.op (handle step.world step.op).1) :
    Permitted onOp steps ∧ config.Obeys admits onOp onCall := by
  refine run.permitted_of_earlier bodies obeys fun before step rest split _ => admitted step ?_
  rw [split]
  exact List.mem_append_right _ List.mem_cons_self

/-- A run of one world is a history of it. -/
theorem Config.Run.leads {start config : Config S W}
    (run : Config.Run body (fun _ => handle) (fun _ _ => False) start steps config) :
    History handle start.world steps config.world := by
  induction run with
  | refl => exact .nil
  | silent _ _ _ _ ih => exact ih
  | event index op _ _ _ ih => exact ih.snoc index op
  | environment _ changed => exact changed.elim

/-- **The history of a configuration**, from tasks that obey. -/
theorem Config.Run.history {start config : Config S W}
    (bodies : ∀ target, onCall target →
      (body target).Obeys (fun _ _ => True) onOp onCall fun _ => True)
    (obeys : start.Obeys (fun _ _ => True) onOp onCall)
    (run : Config.Run body (fun _ => handle) (fun _ _ => False) start steps config) :
    History handle start.world steps config.world ∧ Permitted onOp steps ∧
      config.Obeys (fun _ _ => True) onOp onCall :=
  ⟨run.leads, run.permitted bodies obeys fun _ _ => trivial⟩

/-- **The history of a task.** -/
theorem Task.Ran.history {task next : Task S}
    (bodies : ∀ target, onCall target →
      (body target).Obeys (fun _ _ => True) onOp onCall fun _ => True)
    (obeys : task.Obeys (fun _ _ => True) onOp onCall)
    (ran : Task.Ran body handle task world steps next after) :
    History handle world steps after ∧ Permitted onOp steps := by
  induction ran with
  | refl => exact ⟨.nil, fun _ member => nomatch member⟩
  | silent step _ ih => exact ih (obeys.step bodies step fun _ _ => trivial)
  | event op step _ ih =>
      obtain ⟨history, permitted⟩ := ih (obeys.step bodies step fun _ _ => trivial)
      refine ⟨.cons 0 op history, fun other member => ?_⟩
      rcases List.mem_cons.mp member with rfl | later
      · exact obeys.permits step
      · exact permitted other later

/-- An evaluation performs permitted operations. -/
theorem Program.Evaluates.permitted {α : Type} {program : Program S α} {post : α → Prop}
    {value : α} (bodies : ∀ target, onCall target →
      (body target).Obeys (fun _ _ => True) onOp onCall fun _ => True)
    (obeys : program.Obeys (fun _ _ => True) onOp onCall post)
    (evaluates : Program.Evaluates body handle program world steps value after) :
    Permitted onOp steps := by
  induction evaluates with
  | done => exact fun _ member => nomatch member
  | perform _ ih =>
      intro step member
      rcases List.mem_cons.mp member with rfl | later
      · exact obeys.1
      · exact ih (obeys.2 _ trivial) step later
  | await ran _ ih =>
      exact (ran.history bodies (Task.obeys_spawn obeys.1)).2.append (ih (obeys.2 _))

/-- **The history of a supervised run**, over both of its phases. -/
theorem Supervised.Phase.history {finish : Program S S.Outcome} {tasks : List (Task S)}
    {running pass : List (Occurrence S W)} {state : Supervised S W}
    (bodies : ∀ target, onCall target →
      (body target).Obeys (fun _ _ => True) onOp onCall fun _ => True)
    (spawned : ∀ task ∈ tasks, task.Obeys (fun _ _ => True) onOp onCall)
    (last : finish.Obeys (fun _ _ => True) onOp onCall fun _ => True)
    (phase : Supervised.Phase body handle finish world tasks running pass state) :
    History handle world (running ++ pass) state.spawned.world ∧
      Permitted onOp (running ++ pass) := by
  have obeys : Config.Obeys (fun _ _ => True) onOp onCall ⟨world, tasks⟩ := spawned
  have lastObeys : (Task.run finish).Obeys (fun _ _ => True) onOp onCall := last
  cases phase with
  | joining run _ =>
      obtain ⟨history, permitted, -⟩ := run.history bodies obeys
      rw [List.append_nil]
      exact ⟨history, permitted⟩
  | failed run _ =>
      obtain ⟨history, permitted, -⟩ := run.history bodies obeys
      rw [List.append_nil]
      exact ⟨history, permitted⟩
  | finishing _ run _ ran =>
      obtain ⟨first, early, -⟩ := run.history bodies obeys
      obtain ⟨second, late⟩ := ran.history bodies lastObeys
      exact ⟨first.append second, early.append late⟩
  | returned _ run _ ran =>
      obtain ⟨first, early, -⟩ := run.history bodies obeys
      obtain ⟨second, late⟩ := ran.history bodies lastObeys
      exact ⟨first.append second, early.append late⟩

end Runs

end Async
