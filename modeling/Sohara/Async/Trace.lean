import Sohara.Async.Machine

/-! # Runs with their operations

`Config.Run` is a finite run of several tasks together with the operations it
performs: which task performs each, and in which world. Each task may have a handler
of its own, and the environment may change the world between steps. Conditions on
the order of steps are conditions on the list of operations.
-/

namespace Async

variable {S : Signature} {W : Type}

/-- An operation of a run: the task performing it and the world it is performed in. -/
structure Occurrence (S : Signature) (W : Type) where
  task : Nat
  world : W
  op : S.Op

section Prefixes

variable {T : Type}

/-- Every element of a list satisfies a condition on it and the elements before it. -/
def EachStep (holds : List T → T → Prop) (steps : List T) : Prop :=
  ∀ before step after, steps = before ++ step :: after → holds before step

/-- Splitting an extended list at one of its elements. -/
theorem snoc_eq_append_cons {items before after : List T} {last item : T} :
    items ++ [last] = before ++ item :: after ↔
      (items = before ∧ last = item ∧ after = []) ∨
        ∃ rest, after = rest ++ [last] ∧ items = before ++ item :: rest := by
  constructor
  · intro same
    rcases List.eq_nil_or_concat after with rfl | ⟨rest, final, rfl⟩
    · obtain ⟨rfl, rfl⟩ := List.append_singleton_inj.mp same
      exact .inl ⟨rfl, rfl, rfl⟩
    · rw [List.concat_eq_append, ← List.cons_append, ← List.append_assoc] at same
      obtain ⟨rfl, rfl⟩ := List.append_singleton_inj.mp same
      exact .inr ⟨rest, List.concat_eq_append .., rfl⟩
  · rintro (⟨rfl, rfl, rfl⟩ | ⟨rest, rfl, rfl⟩)
    · rfl
    · rw [List.append_assoc, List.cons_append]

variable {holds : List T → T → Prop}

theorem eachStep_nil : EachStep holds [] := by
  rintro before step after split
  exact absurd (congrArg List.length split) (by simp)

theorem eachStep_snoc {steps : List T} {last : T} :
    EachStep holds (steps ++ [last]) ↔ EachStep holds steps ∧ holds steps last := by
  unfold EachStep
  constructor
  · intro all
    refine ⟨fun before other after split => ?_, all steps last [] rfl⟩
    exact all before other (after ++ [last]) (by rw [split]; simp)
  · rintro ⟨earlier, final⟩ before other after split
    rcases snoc_eq_append_cons.mp split with ⟨rfl, rfl, rfl⟩ | ⟨rest, rfl, rfl⟩
    · exact final
    · exact earlier before other rest rfl

end Prefixes

namespace Config

section Runs

variable (body : S.Call → Program S S.Outcome) (handle : Nat → Handler S W)
  (environment : W → W → Prop)

/-- A run with the operations it performs, in their order. -/
inductive Run (start : Config S W) : List (Occurrence S W) → Config S W → Prop where
  | refl : Run start [] start
  | silent {steps : List (Occurrence S W)} {config : Config S W} (index : Nat)
      {task next : Task S} (run : Run start steps config)
      (selected : config.tasks[index]? = some task) (step : Task.Step body task none next) :
      Run start steps ⟨config.world, config.tasks.set index next⟩
  | event {steps : List (Occurrence S W)} {config : Config S W} (index : Nat)
      {task next : Task S} (op : S.Op) (run : Run start steps config)
      (selected : config.tasks[index]? = some task)
      (step : Task.Step body task (some ⟨op, (handle index config.world op).1⟩) next) :
      Run start (steps ++ [⟨index, config.world, op⟩])
        ⟨(handle index config.world op).2, config.tasks.set index next⟩
  | environment {steps : List (Occurrence S W)} {config : Config S W} {after : W}
      (run : Run start steps config) (changed : environment config.world after) :
      Run start steps ⟨after, config.tasks⟩

end Runs

section Splits

variable {body : S.Call → Program S S.Outcome} {handle : Nat → Handler S W}
  {environment : W → W → Prop} {start config : Config S W} {before rest : List (Occurrence S W)}
  {step : Occurrence S W}

/-- A run up to one of its operations, and to right after it. -/
theorem Run.split (run : Run body handle environment start (before ++ step :: rest) config) :
    ∃ between next, Run body handle environment start before between ∧
      between.world = step.world ∧ Run body handle environment start (before ++ [step]) next ∧
        next.world = (handle step.task step.world step.op).2 := by
  generalize split : before ++ step :: rest = steps at run
  induction run generalizing rest with
  | refl => exact absurd (congrArg List.length split) (by simp)
  | silent _ _ _ _ ih => exact ih split
  | environment _ _ ih => exact ih split
  | event index op run selected performed ih =>
      rcases snoc_eq_append_cons.mp split.symm with ⟨rfl, rfl, rfl⟩ | ⟨rest', -, same⟩
      · exact ⟨_, _, run, rfl, .event index op run selected performed, rfl⟩
      · exact ih same.symm

end Splits

end Config

end Async
