import Sohara.Async.Trace

/-! # A program's share of a run

In a run of several tasks each task performs operations of its own, in worlds that the
others have changed in between. `Task.Did` is the share of one task, `Program.Does` that of a
program that has come to its end; calls that are awaited have a share of their own in it.
A composition does what its parts do one after the other.
-/

namespace Async

variable {S : Signature} {W α β : Type}

/-- The operations that a task has performed in a run. -/
def share (index : Nat) (steps : List (Occurrence S W)) : List (Occurrence S W) :=
  steps.filter (·.task = index)

section Shares

variable {index : Nat} {steps : List (Occurrence S W)} {step : Occurrence S W}

@[simp] theorem share_nil : share index ([] : List (Occurrence S W)) = [] := rfl

theorem mem_share : step ∈ share index steps ↔ step ∈ steps ∧ step.task = index := by
  unfold share
  rw [List.mem_filter, decide_eq_true_iff]

theorem share_snoc_self : share step.task (steps ++ [step]) = share step.task steps ++ [step] := by
  have listed : [step].filter (·.task = step.task) = [step] :=
    List.filter_cons_of_pos (decide_eq_true rfl)
  unfold share
  rw [List.filter_append, listed]

theorem share_snoc_of_ne (other : step.task ≠ index) :
    share index (steps ++ [step]) = share index steps := by
  have skipped : [step].filter (·.task = index) = [] :=
    List.filter_cons_of_neg (by simpa using other)
  unfold share
  rw [List.filter_append, skipped, List.append_nil]

end Shares

namespace Task

section Definitions

variable (body : S.Call → Program S S.Outcome) (handle : Handler S W)

/-- A task becomes another one by the listed operations, each in the world it comes upon. -/
inductive Did : Task S → List (Occurrence S W) → Task S → Prop where
  | refl (task : Task S) : Did task [] task
  | silent {task next last : Task S} {steps : List (Occurrence S W)}
      (step : Step body task none next) (rest : Did next steps last) : Did task steps last
  | event {task next last : Task S} {steps : List (Occurrence S W)} (performed : Occurrence S W)
      (step : Step body task (some ⟨performed.op, (handle performed.world performed.op).1⟩) next)
      (rest : Did next steps last) : Did task (performed :: steps) last

end Definitions

variable {body : S.Call → Program S S.Outcome} {handle : Handler S W}
  {task next last : Task S} {steps more : List (Occurrence S W)}

theorem Did.trans (first : Did body handle task steps next)
    (second : Did body handle next more last) : Did body handle task (steps ++ more) last := by
  induction first with
  | refl => exact second
  | silent step _ ih => exact .silent step (ih second)
  | event performed step _ ih => exact .event performed step (ih second)

/-- A finished task does nothing more. -/
theorem Did.of_done {outcome : S.Outcome} (did : Did body handle (.run (.done outcome)) steps last) :
    last = .run (.done outcome) ∧ steps = [] := by
  cases did with
  | refl => exact ⟨rfl, rfl⟩
  | silent step => cases step
  | event performed step => cases step

/-- An awaited task does its share before its continuation does. -/
theorem Did.of_thenRun {child : Task S} {rest : S.Outcome → Program S S.Outcome}
    {result : S.Outcome} (did : Did body handle (thenRun child rest) steps (.run (.done result))) :
    ∃ first second outcome, steps = first ++ second ∧
      Did body handle child first (.run (.done outcome)) ∧
      Did body handle (.run (rest outcome)) second (.run (.done result)) := by
  generalize started : thenRun child rest = start at did
  generalize ended : Task.run (.done result) = finish at did
  induction did generalizing child with
  | refl =>
      rcases thenRun_cases child rest with ⟨outcome, rfl, resumed⟩ | waiting
      · refine ⟨[], [], outcome, rfl, .refl _, ?_⟩
        rw [← resumed, started]
        exact .refl _
      · rw [waiting] at started
        cases started.trans ended.symm
  | silent step others ih =>
      rcases thenRun_cases child rest with ⟨outcome, rfl, resumed⟩ | waiting
      · refine ⟨[], _, outcome, rfl, .refl _, ?_⟩
        rw [← resumed, started]
        exact .silent step others
      · rw [waiting] at started
        subst started
        cases step with
        | child _ inner =>
            obtain ⟨first, second, outcome, rfl, done, continued⟩ := ih rfl ended
            exact ⟨first, second, outcome, rfl, .silent inner done, continued⟩
  | event performed step others ih =>
      rcases thenRun_cases child rest with ⟨outcome, rfl, resumed⟩ | waiting
      · refine ⟨[], _, outcome, rfl, .refl _, ?_⟩
        rw [← resumed, started]
        exact .event performed step others
      · rw [waiting] at started
        subst started
        cases step with
        | child _ inner =>
            obtain ⟨first, second, outcome, rfl, done, continued⟩ := ih rfl ended
            exact ⟨_ :: first, second, outcome, rfl, .event performed inner done, continued⟩

/-- **Safety of a share.** -/
theorem Did.obeys {admits : (op : S.Op) → S.Response op → Prop} {onOp : S.Op → Prop}
    {onCall : S.Call → Prop} (did : Did body handle task steps next)
    (bodies : ∀ target, onCall target → (body target).Obeys admits onOp onCall fun _ => True)
    (obeys : task.Obeys admits onOp onCall)
    (admitted : ∀ step ∈ steps, admits step.op (handle step.world step.op).1) :
    (∀ step ∈ steps, onOp step.op) ∧ next.Obeys admits onOp onCall := by
  induction did with
  | refl => exact ⟨(fun _ member => nomatch member), obeys⟩
  | silent step _ ih => exact ih (obeys.step bodies step fun _ same => nomatch same) admitted
  | event performed step _ ih =>
      have moved := obeys.step bodies step fun event same => by
        cases same
        exact admitted _ List.mem_cons_self
      obtain ⟨others, kept⟩ := ih moved fun other member =>
        admitted other (List.mem_cons_of_mem _ member)
      exact ⟨List.forall_mem_cons.mpr ⟨obeys.permits step, others⟩, kept⟩

end Task

namespace Config

variable {body : S.Call → Program S S.Outcome} {handle : Nat → Handler S W}
  {environment : W → W → Prop} {start config : Config S W} {steps : List (Occurrence S W)}

/-- **Shares of a run.** Every task has done the operations that the run lists for it. -/
theorem Run.did (run : Run body handle environment start steps config) {index : Nat}
    {task : Task S} (selected : start.tasks[index]? = some task) :
    ∃ next, config.tasks[index]? = some next ∧
      Task.Did body (handle index) task (share index steps) next := by
  have others : ∀ {tasks : List (Task S)} {position : Nat} {before after next : Task S},
      tasks[position]? = some before → tasks[index]? = some next →
        (position = index ∧ before = next ∧ (tasks.set position after)[index]? = some after) ∨
          position ≠ index ∧ (tasks.set position after)[index]? = some next := by
    intro tasks position before after next here there
    by_cases same : position = index
    · subst same
      refine .inl ⟨rfl, Option.some.inj (here.symm.trans there), ?_⟩
      rw [List.getElem?_set_self', here]
      rfl
    · exact .inr ⟨same, by rwa [List.getElem?_set_ne same]⟩
  induction run with
  | refl => exact ⟨task, selected, .refl _⟩
  | environment _ _ ih => exact ih
  | silent position run chosen step ih =>
      obtain ⟨next, there, did⟩ := ih
      rcases others chosen there with ⟨rfl, rfl, now⟩ | ⟨-, now⟩
      · refine ⟨_, now, ?_⟩
        have extended := did.trans (.silent step (.refl _))
        rwa [List.append_nil] at extended
      · exact ⟨next, now, did⟩
  | @event steps config position before next op run chosen step ih =>
      obtain ⟨last, there, did⟩ := ih
      rcases others chosen there with ⟨rfl, rfl, now⟩ | ⟨differ, now⟩
      · refine ⟨_, now, ?_⟩
        have extended : share position (steps ++ [⟨position, config.world, op⟩]) =
            share position steps ++ [⟨position, config.world, op⟩] :=
          @share_snoc_self _ _ steps ⟨position, config.world, op⟩
        rw [extended]
        exact did.trans (.event ⟨position, config.world, op⟩ step (.refl _))
      · refine ⟨last, now, ?_⟩
        rwa [share_snoc_of_ne differ]

/-- Only the tasks at the start perform operations. -/
theorem Run.within (run : Run body handle environment start steps config) :
    config.tasks.length = start.tasks.length ∧
      ∀ step ∈ steps, step.task < start.tasks.length := by
  induction run with
  | refl => exact ⟨rfl, fun _ member => nomatch member⟩
  | environment _ _ ih => exact ih
  | silent _ _ _ _ ih => exact ⟨(List.length_set ..).trans ih.1, ih.2⟩
  | event index op _ selected _ ih =>
      refine ⟨(List.length_set ..).trans ih.1, fun step member => ?_⟩
      rcases List.mem_append.mp member with old | new
      · exact ih.2 step old
      · obtain rfl := List.mem_singleton.mp new
        exact ih.1 ▸ (List.getElem?_eq_some_iff.mp selected).1

end Config

namespace Program

section Definitions

variable (body : S.Call → Program S S.Outcome) (handle : Handler S W)

/-- A program comes to its end by the listed operations, its own and those of the calls it
awaits. -/
inductive Does {α : Type} : Program S α → List (Occurrence S W) → α → Prop where
  | done (value : α) : Does (.done value) [] value
  | perform (performed : Occurrence S W) {next : S.Response performed.op → Program S α}
      {steps : List (Occurrence S W)} {value : α}
      (rest : Does (next (handle performed.world performed.op).1) steps value) :
      Does (.perform performed.op next) (performed :: steps) value
  | await {calls : List S.Call} {next : S.Outcome → Program S α}
      {first second : List (Occurrence S W)} {outcome : S.Outcome} {value : α}
      (below : Task.Did body handle (Task.spawn calls) first (.run (.done outcome)))
      (rest : Does (next outcome) second value) : Does (.await calls next) (first ++ second) value

end Definitions

variable {body : S.Call → Program S S.Outcome} {handle : Handler S W}
  {steps : List (Occurrence S W)}

/-- A program that has run as a task. -/
theorem does_of_did {program : Program S S.Outcome} {outcome : S.Outcome}
    (did : Task.Did body handle (.run program) steps (.run (.done outcome))) :
    Does body handle program steps outcome := by
  induction program generalizing steps with
  | done value =>
      obtain ⟨same, rfl⟩ := did.of_done
      cases same
      exact .done _
  | perform op next ih =>
      cases did with
      | silent step => cases step
      | event performed step rest =>
          obtain ⟨index, world, op⟩ := performed
          cases step
          exact .perform ⟨index, world, op⟩ (ih _ rest)
  | await calls next ih =>
      cases did with
      | silent step rest =>
          cases step
          obtain ⟨first, second, result, rfl, below, others⟩ := rest.of_thenRun
          exact .await below (ih _ others)
      | event _ step => cases step

theorem does_pure {value result : α} (does : Does body handle (pure value) steps result) :
    steps = [] ∧ result = value := by
  cases does
  exact ⟨rfl, rfl⟩

/-- An operation is performed before the rest. -/
theorem does_op_bind {op : S.Op} {rest : S.Response op → Program S α} {result : α}
    (does : Does body handle (Program.op op >>= rest) steps result) :
    ∃ index world more, steps = ⟨index, world, op⟩ :: more ∧
      Does body handle (rest (handle world op).1) more result := by
  have performs : Does body handle (.perform op rest) steps result := does
  cases performs with
  | perform performed rest => exact ⟨_, _, _, rfl, rest⟩

/-- **The share of a composition.** -/
theorem does_bind {program : Program S α} {rest : α → Program S β} {result : β}
    (does : Does body handle (program >>= rest) steps result) :
    ∃ first second value, steps = first ++ second ∧ Does body handle program first value ∧
      Does body handle (rest value) second result := by
  change Does body handle (program.bind rest) steps result at does
  induction program generalizing steps with
  | done value => exact ⟨[], steps, value, rfl, .done _, does⟩
  | perform op next ih =>
      cases does with
      | perform performed others =>
          obtain ⟨first, second, value, rfl, left, right⟩ := ih _ others
          exact ⟨_ :: first, second, value, rfl, .perform performed left, right⟩
  | await calls next ih =>
      cases does with
      | await below others =>
          obtain ⟨first, second, value, rfl, left, right⟩ := ih _ others
          exact ⟨_, second, value, (List.append_assoc ..).symm, .await below left, right⟩

/-- The second program is reached by success only. -/
theorem does_andThen {first second : Program S S.Outcome} {result : S.Outcome}
    (does : Does body handle (first.andThen second) steps result) :
    (∃ failure, result = .error failure ∧ Does body handle first steps (.error failure)) ∨
      ∃ earlier later, steps = earlier ++ later ∧ Does body handle first earlier (.ok ()) ∧
        Does body handle second later result := by
  unfold andThen at does
  rw [← bind_eq] at does
  obtain ⟨earlier, later, outcome, rfl, left, right⟩ := does_bind does
  cases outcome with
  | ok value => exact .inr ⟨earlier, later, rfl, left, right⟩
  | error failure =>
      obtain ⟨rfl, rfl⟩ := does_pure right
      refine .inl ⟨failure, rfl, ?_⟩
      rwa [List.append_nil]

/-- **Safety of a program's share.** -/
theorem Does.obeys {admits : (op : S.Op) → S.Response op → Prop} {onOp : S.Op → Prop}
    {onCall : S.Call → Prop} {post : α → Prop} {program : Program S α} {value : α}
    (does : Does body handle program steps value)
    (bodies : ∀ target, onCall target → (body target).Obeys admits onOp onCall fun _ => True)
    (obeys : program.Obeys admits onOp onCall post)
    (admitted : ∀ step ∈ steps, admits step.op (handle step.world step.op).1) :
    (∀ step ∈ steps, onOp step.op) ∧ post value := by
  induction does with
  | done => exact ⟨(fun _ member => nomatch member), obeys⟩
  | perform performed _ ih =>
      obtain ⟨others, result⟩ := ih (obeys.2 _ (admitted _ List.mem_cons_self))
        fun other member => admitted other (List.mem_cons_of_mem _ member)
      exact ⟨List.forall_mem_cons.mpr ⟨obeys.1, others⟩, result⟩
  | await below _ ih =>
      obtain ⟨inner, -⟩ := below.obeys bodies (Task.obeys_spawn obeys.1)
        fun other member => admitted other (List.mem_append_left _ member)
      obtain ⟨others, result⟩ := ih (obeys.2 _)
        fun other member => admitted other (List.mem_append_right _ member)
      refine ⟨fun step member => ?_, result⟩
      rcases List.mem_append.mp member with left | right
      · exact inner step left
      · exact others step right

end Program

end Async
