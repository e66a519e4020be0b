import Sohara.Async.Protocol
import Sohara.Async.Schedule

/-! # Results of programs

`Task.Ran` is a finite run of one task with the operations it performs, and
`Program.Evaluates` relates a program running alone to the values it may return,
whatever the interleaving of the calls it awaits. A composition evaluates to what its
parts evaluate to in turn, so a result is explained by following the program.
-/

namespace Async

variable {S : Signature} {W : Type}

namespace Task

section Runs

variable (body : S.Call → Program S S.Outcome) (handle : Handler S W)

/-- A finite run of one task over a world. -/
inductive Ran : Task S → W → List (Occurrence S W) → Task S → W → Prop where
  | refl (task : Task S) (world : W) : Ran task world [] task world
  | silent {task next last : Task S} {world after : W} {steps : List (Occurrence S W)}
      (step : Step body task none next) (rest : Ran next world steps last after) :
      Ran task world steps last after
  | event {task next last : Task S} {world after : W} {steps : List (Occurrence S W)} (op : S.Op)
      (step : Step body task (some ⟨op, (handle world op).1⟩) next)
      (rest : Ran next (handle world op).2 steps last after) :
      Ran task world (⟨0, world, op⟩ :: steps) last after

end Runs

variable {body : S.Call → Program S S.Outcome} {handle : Handler S W}
  {task next last : Task S} {world middle after : W} {steps more : List (Occurrence S W)}

theorem Ran.trans (first : Ran body handle task world steps next middle)
    (second : Ran body handle next middle more last after) :
    Ran body handle task world (steps ++ more) last after := by
  induction first with
  | refl => exact second
  | silent step _ ih => exact .silent step (ih second)
  | event op step _ ih => exact .event op step (ih second)

/-- A run of a single task. -/
theorem ran_of_run {start config : Config S W}
    (run : Config.Run body (fun _ => handle) (fun _ _ => False) start steps config)
    (single : start.tasks = [task]) : ∃ next, config.tasks = [next] ∧
      Ran body handle task start.world (steps.map fun step => ⟨0, step.world, step.op⟩) next
        config.world := by
  induction run with
  | refl => exact ⟨task, single, .refl ..⟩
  | silent index _ selected step ih =>
      obtain ⟨next, alone, ran⟩ := ih
      rw [alone] at selected
      cases index with
      | zero =>
          cases selected
          have extended := ran.trans (.silent step (.refl ..))
          rw [List.append_nil] at extended
          exact ⟨_, by rw [alone]; rfl, extended⟩
      | succ index => cases selected
  | event index op _ selected step ih =>
      obtain ⟨next, alone, ran⟩ := ih
      rw [alone] at selected
      cases index with
      | zero =>
          cases selected
          refine ⟨_, by rw [alone]; rfl, ?_⟩
          rw [List.map_append]
          exact ran.trans (.event op step (.refl ..))
      | succ index => cases selected
  | environment _ changed => exact changed.elim

/-- A finished task has run to its end. -/
theorem Ran.of_done {outcome : S.Outcome}
    (ran : Ran body handle (.run (.done outcome)) world steps last after) :
    last = .run (.done outcome) ∧ steps = [] ∧ after = world := by
  cases ran with
  | refl => exact ⟨rfl, rfl, rfl⟩
  | silent step => cases step
  | event op step => cases step

/-- An awaited task runs to its end before its continuation does. -/
theorem Ran.of_thenRun {child : Task S} {rest : S.Outcome → Program S S.Outcome}
    {result : S.Outcome}
    (ran : Ran body handle (thenRun child rest) world steps (.run (.done result)) after) :
    ∃ first second outcome between, steps = first ++ second ∧
      Ran body handle child world first (.run (.done outcome)) between ∧
      Ran body handle (.run (rest outcome)) between second (.run (.done result)) after := by
  generalize started : thenRun child rest = start at ran
  generalize ended : Task.run (.done result) = finish at ran
  induction ran generalizing child with
  | refl task world =>
      rcases thenRun_cases child rest with ⟨outcome, rfl, resumed⟩ | waiting
      · refine ⟨[], [], outcome, world, rfl, .refl .., ?_⟩
        rw [← resumed, started]
        exact .refl ..
      · rw [waiting] at started
        cases started.trans ended.symm
  | silent step others ih =>
      rcases thenRun_cases child rest with ⟨outcome, rfl, resumed⟩ | waiting
      · refine ⟨[], _, outcome, _, rfl, .refl .., ?_⟩
        rw [← resumed, started]
        exact .silent step others
      · rw [waiting] at started
        subst started
        cases step with
        | child _ inner =>
            obtain ⟨first, second, outcome, between, rfl, ran, continued⟩ := ih rfl ended
            exact ⟨first, second, outcome, between, rfl, .silent inner ran, continued⟩
  | event op step others ih =>
      rcases thenRun_cases child rest with ⟨outcome, rfl, resumed⟩ | waiting
      · refine ⟨[], _, outcome, _, rfl, .refl .., ?_⟩
        rw [← resumed, started]
        exact .event op step others
      · rw [waiting] at started
        subst started
        cases step with
        | child _ inner =>
            obtain ⟨first, second, outcome, between, rfl, ran, continued⟩ := ih rfl ended
            exact ⟨_ :: first, second, outcome, between, rfl, .event op inner ran, continued⟩

/-- A task paired with one that has succeeded runs as it would alone. -/
theorem Ran.of_pair {child : Task S} {result : S.Outcome}
    (ran : Ran body handle (pair child (.run (.done (.ok ())))) world steps
      (.run (.done result)) after) :
    Ran body handle child world steps (.run (.done result)) after := by
  have resolved : ∀ outcome : S.Outcome,
      pair (.run (.done outcome)) (.run (.done (.ok ()))) = .run (.done outcome) := by
    intro outcome
    cases outcome <;> rfl
  have shapes : ∀ child : Task S, (∃ outcome, child = .run (.done outcome)) ∨
      pair child (.run (.done (.ok ()))) = .both child (.run (.done (.ok ()))) := by
    intro child
    cases unfinished : child.outcome? with
    | some outcome => exact .inl ⟨outcome, outcome?_eq_some unfinished⟩
    | none => exact .inr (pair_eq_both unfinished fun _ same => nomatch same)
  generalize started : pair child (.run (.done (.ok ()))) = start at ran
  generalize ended : Task.run (.done result) = finish at ran
  induction ran generalizing child with
  | refl task world =>
      rcases shapes child with ⟨outcome, rfl⟩ | open_
      · rw [← started, resolved]
        exact .refl ..
      · rw [open_] at started
        cases started.trans ended.symm
  | silent step others ih =>
      rcases shapes child with ⟨outcome, rfl⟩ | open_
      · rw [resolved] at started
        subst started
        cases step
      · rw [open_] at started
        subst started
        cases step with
        | left _ inner => exact .silent inner (ih rfl ended)
        | right _ inner => cases inner
  | event op step others ih =>
      rcases shapes child with ⟨outcome, rfl⟩ | open_
      · rw [resolved] at started
        subst started
        cases step
      · rw [open_] at started
        subst started
        cases step with
        | left _ inner => exact .event op inner (ih rfl ended)
        | right _ inner => cases inner

/-- What every performed operation preserves holds after a run. -/
theorem Ran.keeps {motive : W → Prop} (ran : Ran body handle task world steps next after)
    (preserved : ∀ step ∈ steps, motive step.world → motive (handle step.world step.op).2)
    (holds : motive world) : motive after := by
  induction ran with
  | refl => exact holds
  | silent step _ ih => exact ih preserved holds
  | event op step _ ih =>
      exact ih (fun other member => preserved other (List.mem_cons_of_mem _ member))
        (preserved _ List.mem_cons_self holds)

section Protocols

variable {G : Type} {protocol : Protocol S G} {admits : (op : S.Op) → S.Response op → Prop}
  {onCall : S.Call → Prop} (invariant : List (Occurrence S W) → W → G → Prop)

/-- **Protocol rule for one task.** -/
theorem Follows.ran {task next : Task S} {state : G} {earlier : List (Occurrence S W)}
    (bodies : ∀ target, onCall target → (body target).Follows protocol admits onCall
      (fun _ state => state = protocol.rest) protocol.rest)
    (preserved : ∀ steps world state op, invariant steps world state →
      protocol.permits state op → admits op (handle world op).1 ∧
        invariant (steps ++ [⟨0, world, op⟩]) (handle world op).2
          (protocol.advance state op (handle world op).1))
    (settled : task.Settled) (follows : task.Follows protocol admits onCall state)
    (holds : invariant earlier world state)
    (ran : Task.Ran body handle task world steps next after) :
    ∃ reached, next.Settled ∧ next.Follows protocol admits onCall reached ∧
      invariant (earlier ++ steps) after reached := by
  induction ran generalizing state earlier with
  | refl =>
      rw [List.append_nil]
      exact ⟨state, settled, follows, holds⟩
  | silent step _ ih =>
      have moved := follows.step bodies settled step fun _ same => nomatch same
      exact ih (settled.step step) moved holds
  | event op step _ ih =>
      obtain ⟨admitted, kept⟩ := preserved _ _ state op holds (follows.permits step)
      have moved := follows.step bodies settled step fun performed same => by
        cases same
        exact admitted
      obtain ⟨reached, done⟩ := ih (settled.step step) moved kept
      rw [List.append_assoc, List.singleton_append] at done
      exact ⟨reached, done⟩

end Protocols

end Task

namespace Program

section Evaluation

variable (body : S.Call → Program S S.Outcome) (handle : Handler S W)

/-- A program running alone from a world may perform the operations and return the
value, leaving the other world. -/
inductive Evaluates {α : Type} : Program S α → W → List (Occurrence S W) → α → W → Prop where
  | done (value : α) (world : W) : Evaluates (.done value) world [] value world
  | perform {op : S.Op} {next : S.Response op → Program S α} {world after : W}
      {steps : List (Occurrence S W)} {value : α}
      (rest : Evaluates (next (handle world op).1) (handle world op).2 steps value after) :
      Evaluates (.perform op next) world (⟨0, world, op⟩ :: steps) value after
  | await {calls : List S.Call} {next : S.Outcome → Program S α} {world middle after : W}
      {first second : List (Occurrence S W)} {outcome : S.Outcome} {value : α}
      (ran : Task.Ran body handle (Task.spawn calls) world first (.run (.done outcome)) middle)
      (rest : Evaluates (next outcome) middle second value after) :
      Evaluates (.await calls next) world (first ++ second) value after

end Evaluation

variable {body : S.Call → Program S S.Outcome} {handle : Handler S W} {α β : Type}
  {world after : W} {steps : List (Occurrence S W)}

theorem evaluates_pure {value result : α} :
    Evaluates body handle (pure value) world steps result after ↔
      steps = [] ∧ result = value ∧ after = world := by
  constructor
  · intro evaluates
    cases evaluates
    exact ⟨rfl, rfl, rfl⟩
  · rintro ⟨rfl, rfl, rfl⟩
    exact .done ..

theorem evaluates_op {op : S.Op} {response : S.Response op} :
    Evaluates body handle (Program.op op) world steps response after ↔
      steps = [⟨0, world, op⟩] ∧ response = (handle world op).1 ∧ after = (handle world op).2 := by
  constructor
  · intro evaluates
    cases evaluates with
    | perform rest =>
        cases rest
        exact ⟨rfl, rfl, rfl⟩
  · rintro ⟨rfl, rfl, rfl⟩
    exact .perform (.done ..)

/-- **Evaluation of a composition.** -/
theorem evaluates_bind {program : Program S α} {rest : α → Program S β} {result : β} :
    Evaluates body handle (program >>= rest) world steps result after ↔
      ∃ first second value middle, steps = first ++ second ∧
        Evaluates body handle program world first value middle ∧
        Evaluates body handle (rest value) middle second result after := by
  show Evaluates body handle (program.bind rest) world steps result after ↔ _
  constructor
  · intro evaluates
    induction program generalizing world steps with
    | done value => exact ⟨[], steps, value, world, rfl, .done .., evaluates⟩
    | perform op next ih =>
        cases evaluates with
        | perform others =>
            obtain ⟨first, second, value, middle, rfl, left, right⟩ := ih _ others
            exact ⟨_ :: first, second, value, middle, rfl, .perform left, right⟩
    | await calls next ih =>
        cases evaluates with
        | await ran others =>
            obtain ⟨first, second, value, middle, rfl, left, right⟩ := ih _ others
            exact ⟨_, second, value, middle, (List.append_assoc ..).symm, .await ran left, right⟩
  · rintro ⟨first, second, value, middle, rfl, left, right⟩
    induction left with
    | done => exact right
    | perform _ ih => exact .perform (ih right)
    | await ran _ ih =>
        rw [List.append_assoc]
        exact .await ran (ih right)

/-- An operation is performed before the rest. -/
theorem evaluates_op_bind {op : S.Op} {rest : S.Response op → Program S β} {result : β}
    (evaluates : Evaluates body handle (Program.op op >>= rest) world steps result after) :
    ∃ more, steps = ⟨0, world, op⟩ :: more ∧
      Evaluates body handle (rest (handle world op).1) (handle world op).2 more result after := by
  obtain ⟨_, more, _, _, rfl, performed, others⟩ := evaluates_bind.mp evaluates
  obtain ⟨rfl, rfl, rfl⟩ := evaluates_op.mp performed
  exact ⟨more, rfl, others⟩

/-- The second program runs when the first one succeeds. -/
theorem evaluates_andThen {first second : Program S S.Outcome} {result : S.Outcome} :
    Evaluates body handle (first.andThen second) world steps result after ↔
      (∃ failure, result = .error failure ∧
          Evaluates body handle first world steps (.error failure) after) ∨
        ∃ earlier later middle, steps = earlier ++ later ∧
          Evaluates body handle first world earlier (.ok ()) middle ∧
          Evaluates body handle second middle later result after := by
  unfold andThen
  rw [← bind_eq, evaluates_bind]
  constructor
  · rintro ⟨earlier, later, outcome, middle, rfl, left, right⟩
    cases outcome with
    | ok value => exact .inr ⟨earlier, later, middle, rfl, left, right⟩
    | error failure =>
        obtain ⟨rfl, rfl, rfl⟩ := evaluates_pure.mp right
        refine .inl ⟨failure, rfl, ?_⟩
        rwa [List.append_nil]
  · rintro (⟨failure, rfl, left⟩ | ⟨earlier, later, middle, rfl, left, right⟩)
    · exact ⟨steps, [], .error failure, after, (List.append_nil _).symm, left, .done ..⟩
    · exact ⟨earlier, later, .ok (), middle, rfl, left, right⟩

/-- A program that runs as a task evaluates to its outcome. -/
theorem evaluates_of_ran {program : Program S S.Outcome} {outcome : S.Outcome}
    (ran : Task.Ran body handle (.run program) world steps (.run (.done outcome)) after) :
    Evaluates body handle program world steps outcome after := by
  induction program generalizing world steps with
  | done value =>
      obtain ⟨same, rfl, rfl⟩ := ran.of_done
      cases same
      exact .done ..
  | perform op next ih =>
      cases ran with
      | silent step => cases step
      | event _ step rest =>
          cases step
          exact .perform (ih _ rest)
  | await calls next ih =>
      cases ran with
      | silent step rest =>
          cases step
          obtain ⟨first, second, result, middle, rfl, awaited, others⟩ := rest.of_thenRun
          exact .await awaited (ih _ others)
      | event _ step => cases step

/-- What is played to the end of a single task is an evaluation of its program. -/
theorem evaluates_of_play {program : Program S S.Outcome} {outcome : S.Outcome}
    {schedule : List Nat}
    (finished : (Config.play body (fun _ => handle) ⟨world, [.run program]⟩ schedule).2.tasks =
      [.run (.done outcome)]) :
    ∃ steps, Evaluates body handle program world steps outcome
      (Config.play body (fun _ => handle) ⟨world, [.run program]⟩ schedule).2.world := by
  obtain ⟨next, alone, ran⟩ := Task.ran_of_run
    (Config.run_play ⟨world, [.run program]⟩ schedule) rfl
  rw [finished] at alone
  cases alone
  exact ⟨_, evaluates_of_ran ran⟩

/-- What every performed operation preserves holds after an evaluation. -/
theorem Evaluates.keeps {motive : W → Prop} {program : Program S α} {value : α}
    (evaluates : Evaluates body handle program world steps value after)
    (preserved : ∀ step ∈ steps, motive step.world → motive (handle step.world step.op).2)
    (holds : motive world) : motive after := by
  induction evaluates with
  | done => exact holds
  | perform _ ih =>
      exact ih (fun other member => preserved other (List.mem_cons_of_mem _ member))
        (preserved _ List.mem_cons_self holds)
  | await ran _ ih =>
      exact ih (fun other member => preserved other (List.mem_append_right _ member))
        (ran.keeps (fun other member => preserved other (List.mem_append_left _ member)) holds)

/-- A call evaluates as its body does. -/
theorem evaluates_call {target : S.Call} {outcome : S.Outcome}
    (evaluates : Evaluates body handle (Program.call target) world steps outcome after) :
    Evaluates body handle (body target) world steps outcome after := by
  cases evaluates with
  | await ran rest =>
      cases rest
      rw [List.append_nil]
      have alone : Task.Ran body handle (.call target) world _ (.run (.done _)) _ := ran.of_pair
      cases alone with
      | silent step rest =>
          cases step
          exact evaluates_of_ran rest
      | event _ step => cases step

section Protocols

variable {G : Type} {protocol : Protocol S G} {admits : (op : S.Op) → S.Response op → Prop}
  {onCall : S.Call → Prop} (invariant : List (Occurrence S W) → W → G → Prop)

/-- **Protocol rule for results.** A program that follows a protocol returns in the
state its value promises, and an invariant preserved by permitted operations holds. -/
theorem Follows.evaluates {program : Program S α} {post : α → G → Prop} {state : G} {value : α}
    {earlier : List (Occurrence S W)}
    (bodies : ∀ target, onCall target → (body target).Follows protocol admits onCall
      (fun _ state => state = protocol.rest) protocol.rest)
    (preserved : ∀ steps world state op, invariant steps world state →
      protocol.permits state op → admits op (handle world op).1 ∧
        invariant (steps ++ [⟨0, world, op⟩]) (handle world op).2
          (protocol.advance state op (handle world op).1))
    (follows : program.Follows protocol admits onCall post state)
    (holds : invariant earlier world state)
    (evaluates : Evaluates body handle program world steps value after) :
    ∃ reached, post value reached ∧ invariant (earlier ++ steps) after reached := by
  induction evaluates generalizing state earlier with
  | done =>
      rw [List.append_nil]
      exact ⟨state, follows, holds⟩
  | perform _ ih =>
      obtain ⟨-, permitted, rest⟩ := follows
      obtain ⟨admitted, kept⟩ := preserved _ _ state _ holds permitted
      obtain ⟨reached, done⟩ := ih (rest _ admitted) kept
      rw [List.append_assoc, List.singleton_append] at done
      exact ⟨reached, done⟩
  | await ran _ ih =>
      obtain ⟨rfl, allowed, rest⟩ := follows
      obtain ⟨between, -, done, kept⟩ := Task.Follows.ran invariant bodies preserved
        (Task.settled_spawn _) (Task.follows_spawn allowed) holds ran
      obtain rfl : between = protocol.rest := done.done
      obtain ⟨reached, done⟩ := ih (rest _) kept
      rw [List.append_assoc] at done
      exact ⟨reached, done⟩

end Protocols

end Program

end Async
