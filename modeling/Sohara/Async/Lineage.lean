import Sohara.Async.Phases

/-! # The lineage of a call

Traced programs carry with every operation the place in the tree of calls that performs
it. Tracing is an instance of the same machine over a larger signature, so traced runs
are runs, and erasing the places relates them to the runs of the plain programs, in
both directions.
-/

namespace Async

variable {S : Signature} {W α : Type}

/-- A call on the way to a visit: in which round its parent awaited it, and at which
position. -/
structure Hop (S : Signature) where
  round : Nat
  position : Nat
  call : S.Call

/-- A place in the tree of calls: the spawned program it belongs to, and the calls
leading to it, the latest first. -/
structure Visit (S : Signature) where
  origin : Nat
  hops : List (Hop S)

namespace Visit

/-- The visit of a call awaited here. -/
def enter (visit : Visit S) (hop : Hop S) : Visit S := ⟨visit.origin, hop :: visit.hops⟩

/-- The call a visit belongs to, unless it is the start of a spawned program. -/
def call (visit : Visit S) : Option S.Call := visit.hops.head?.map Hop.call

@[simp] theorem call_enter (visit : Visit S) (hop : Hop S) :
    (visit.enter hop).call = some hop.call := rfl

/-- Calls awaited together, with their visits. -/
def awaits (visit : Visit S) (round : Nat) (calls : List S.Call) : List (S.Call × Visit S) :=
  calls.zipIdx.map fun entry => (entry.1, visit.enter ⟨round, entry.2, entry.1⟩)

/-- A visit and everything it has led to. -/
def Below (visit other : Visit S) : Prop :=
  visit.origin = other.origin ∧ visit.hops <:+ other.hops

theorem Below.refl (visit : Visit S) : visit.Below visit := ⟨rfl, List.suffix_rfl⟩

theorem Below.trans {first second third : Visit S} (upper : first.Below second)
    (lower : second.Below third) : first.Below third :=
  ⟨upper.1.trans lower.1, upper.2.trans lower.2⟩

theorem below_enter (visit : Visit S) (hop : Hop S) : visit.Below (visit.enter hop) :=
  ⟨rfl, List.suffix_cons hop visit.hops⟩

end Visit

/-- Operations and calls with the visits they belong to. -/
abbrev Traced (S : Signature) : Signature where
  Op := S.Op × Visit S
  Response op := S.Response op.1
  yields op := S.yields op.1
  Call := S.Call × Visit S
  Failure := S.Failure

namespace Program

/-- The program of a visit, from the given round of calls on. -/
def traced (visit : Visit S) : Nat → Program S α → Program (Traced S) α
  | _, .done value => .done value
  | round, .perform op next => .perform (op, visit) fun response =>
      (next response).traced visit round
  | round, .await calls next =>
      .await (visit.awaits round calls) fun outcome => (next outcome).traced visit (round + 1)

/-- Forgets the visits. -/
def erase : Program (Traced S) α → Program S α
  | .done value => .done value
  | .perform op next => .perform op.1 fun response => (next response).erase
  | .await calls next => .await (calls.map Prod.fst) fun outcome => (next outcome).erase

theorem map_fst_awaits (visit : Visit S) (round : Nat) (calls : List S.Call) :
    (visit.awaits round calls).map Prod.fst = calls := by
  unfold Visit.awaits
  rw [List.map_map]
  exact List.zipIdx_map_fst 0 calls

@[simp] theorem erase_traced (visit : Visit S) (round : Nat) (program : Program S α) :
    (program.traced visit round).erase = program := by
  induction program generalizing round with
  | done value => rfl
  | perform op next ih => simp only [traced, erase, ih]
  | await calls next ih => simp only [traced, erase, ih, map_fst_awaits]

end Program

/-- The program of a traced call. -/
def tracedBody (body : S.Call → Program S S.Outcome) (target : (Traced S).Call) :
    Program (Traced S) S.Outcome :=
  (body target.1).traced target.2 0

/-- The world answers as before. -/
def tracedHandle (handle : Handler S W) : Handler (Traced S) W := fun world op =>
  handle world op.1

/-- A spawned program. -/
def spawned (origin : Nat) (program : Program S S.Outcome) : Program (Traced S) S.Outcome :=
  program.traced ⟨origin, []⟩ 0

/-- Spawned programs with their origins. -/
def spawnedAll (programs : List (Program S S.Outcome)) : List (Task (Traced S)) :=
  programs.zipIdx.map fun entry => .run (spawned entry.2 entry.1)

/-- A performed operation without its visit. -/
def Event.erase (event : Event (Traced S)) : Event S := ⟨event.op.1, event.response⟩

namespace Task

/-- Forgets the visits. -/
def erase : Task (Traced S) → Task S
  | .call target => .call target.1
  | .run program => .run program.erase
  | .both left right => .both left.erase right.erase
  | .await child next => .await child.erase fun outcome => (next outcome).erase

theorem outcome?_erase (task : Task (Traced S)) : task.erase.outcome? = task.outcome? := by
  cases task with
  | run program => cases program <;> rfl
  | _ => rfl

theorem suspended_erase (task : Task (Traced S)) : task.erase.suspended = task.suspended := by
  induction task with
  | call target => rfl
  | run program => cases program <;> rfl
  | both left right ihLeft ihRight => simp only [erase, suspended, ihLeft, ihRight]
  | await child next ih => exact ih

theorem erase_pair (left right : Task (Traced S)) :
    (pair left right).erase = pair left.erase right.erase := by
  unfold pair
  rw [outcome?_erase, outcome?_erase]
  rcases left.outcome? with - | - | - <;> rcases right.outcome? with - | - | - <;> rfl

theorem erase_thenRun (child : Task (Traced S))
    (next : S.Outcome → Program (Traced S) S.Outcome) :
    (thenRun child next).erase = thenRun child.erase fun outcome => (next outcome).erase := by
  unfold thenRun
  rw [outcome?_erase]
  cases child.outcome? <;> rfl

theorem erase_spawn (calls : List (Traced S).Call) :
    (spawn calls).erase = spawn (calls.map Prod.fst) := by
  induction calls with
  | nil => rfl
  | cons target rest ih =>
      show (pair (.call target) (spawn rest)).erase = _
      rw [erase_pair, ih]
      rfl

variable {body : S.Call → Program S S.Outcome}

/-- **Traced steps are steps.** -/
theorem erase_step {task next : Task (Traced S)} {event : Option (Event (Traced S))}
    (step : Step (tracedBody body) task event next) :
    Step body task.erase (event.map Event.erase) next.erase := by
  induction step with
  | enter target =>
      have entered : Step body (.call target.1) none (.run (body target.1)) := .enter target.1
      rwa [← Program.erase_traced target.2 0 (body target.1)] at entered
  | perform op after response =>
      exact .perform op.1 (fun response => (after response).erase) response
  | start calls after =>
      rw [erase_thenRun, erase_spawn]
      exact .start _ _
  | left waiting step ih =>
      rw [erase_pair]
      exact .left ((suspended_erase _).trans waiting) ih
  | right waiting step ih =>
      rw [erase_pair]
      exact .right ((suspended_erase _).trans waiting) ih
  | child rest step ih =>
      rw [erase_thenRun]
      exact .child _ ih

/-- **Steps can be traced.** -/
theorem lift_step {task : Task (Traced S)} {event : Option (Event S)} {next : Task S}
    (step : Step body task.erase event next) :
    ∃ event' next', Step (tracedBody body) task event' next' ∧ event'.map Event.erase = event ∧
      next'.erase = next := by
  induction task generalizing event next with
  | call target =>
      cases step
      refine ⟨none, _, .enter target, rfl, ?_⟩
      exact congrArg Task.run (Program.erase_traced target.2 0 (body target.1))
  | run program =>
      cases program with
      | done value => cases step
      | perform op after =>
          cases step with
          | perform _ _ response =>
              exact ⟨some ⟨op, response⟩, _, .perform op after response, rfl, rfl⟩
      | await calls after =>
          cases step
          refine ⟨none, _, .start calls after, rfl, ?_⟩
          rw [erase_thenRun, erase_spawn]
  | both left right ihLeft ihRight =>
      cases step with
      | left waiting step =>
          obtain ⟨event', next', lifted, sameEvent, rfl⟩ := ihLeft step
          exact ⟨event', _, .left ((suspended_erase right).symm.trans waiting) lifted, sameEvent,
            erase_pair _ _⟩
      | right waiting step =>
          obtain ⟨event', next', lifted, sameEvent, rfl⟩ := ihRight step
          exact ⟨event', _, .right ((suspended_erase left).symm.trans waiting) lifted, sameEvent,
            erase_pair _ _⟩
  | await child rest ih =>
      cases step with
      | child _ step =>
          obtain ⟨event', next', lifted, sameEvent, rfl⟩ := ih step
          exact ⟨event', _, .child rest lifted, sameEvent, erase_thenRun _ _⟩

theorem lift_event {task : Task (Traced S)} {op : S.Op} {response : S.Response op} {next : Task S}
    (step : Step body task.erase (some ⟨op, response⟩) next) :
    ∃ visit next', Step (tracedBody body) task (some ⟨(op, visit), response⟩) next' ∧
      next'.erase = next := by
  obtain ⟨event', next', lifted, sameEvent, erased⟩ := lift_step step
  obtain ⟨⟨⟨performed, visit⟩, answer⟩, rfl, same⟩ := Option.map_eq_some_iff.mp sameEvent
  cases same
  exact ⟨visit, next', lifted, erased⟩

end Task

/-- An occurrence without its visit. -/
def Occurrence.erase (step : Occurrence (Traced S) W) : Occurrence S W :=
  ⟨step.task, step.world, step.op.1⟩

/-- A configuration without visits. -/
def Config.erase (config : Config (Traced S) W) : Config S W :=
  ⟨config.world, config.tasks.map Task.erase⟩

theorem Config.erase_set (world : W) (tasks : List (Task (Traced S))) (index : Nat)
    (next : Task (Traced S)) : Config.erase ⟨world, tasks.set index next⟩ =
      ⟨world, (tasks.map Task.erase).set index next.erase⟩ := by
  unfold Config.erase
  rw [List.map_set]

theorem Config.getElem?_erase {config : Config (Traced S) W} {index : Nat} {task : Task (Traced S)}
    (selected : config.tasks[index]? = some task) :
    config.erase.tasks[index]? = some task.erase := by
  unfold Config.erase
  rw [List.getElem?_map, selected, Option.map_some]

variable {body : S.Call → Program S S.Outcome} {handle : Handler S W}

/-- **Traced runs are runs.** -/
theorem Config.Run.erase {start config : Config (Traced S) W}
    {steps : List (Occurrence (Traced S) W)}
    (run : Config.Run (tracedBody body) (fun _ => tracedHandle handle) (fun _ _ => False) start
      steps config) :
    Config.Run body (fun _ => handle) (fun _ _ => False) start.erase (steps.map Occurrence.erase)
      config.erase := by
  induction run with
  | refl => exact .refl
  | silent index _ selected step ih =>
      rw [Config.erase_set]
      exact .silent index ih (Config.getElem?_erase selected) (Task.erase_step step)
  | event index op _ selected step ih =>
      rw [Config.erase_set, List.map_append]
      exact .event index op.1 ih (Config.getElem?_erase selected) (Task.erase_step step)
  | environment _ changed => exact changed.elim

/-- **Runs can be traced.** -/
theorem Config.Run.lift {start : Config (Traced S) W} {config : Config S W}
    {steps : List (Occurrence S W)}
    (run : Config.Run body (fun _ => handle) (fun _ _ => False) start.erase steps config) :
    ∃ steps' config', Config.Run (tracedBody body) (fun _ => tracedHandle handle)
      (fun _ _ => False) start steps' config' ∧ steps'.map Occurrence.erase = steps ∧
        config'.erase = config := by
  induction run with
  | refl => exact ⟨[], start, .refl, rfl, rfl⟩
  | silent index _ selected step ih =>
      obtain ⟨steps', config', run, sameSteps, rfl⟩ := ih
      rw [Config.erase, List.getElem?_map] at selected
      obtain ⟨task, current, rfl⟩ := Option.map_eq_some_iff.mp selected
      obtain ⟨event', next', lifted, sameEvent, rfl⟩ := Task.lift_step step
      obtain rfl := Option.map_eq_none_iff.mp sameEvent
      exact ⟨steps', _, .silent index run current lifted, sameSteps, Config.erase_set ..⟩
  | event index op _ selected step ih =>
      obtain ⟨steps', config', run, rfl, rfl⟩ := ih
      rw [Config.erase, List.getElem?_map] at selected
      obtain ⟨task, current, rfl⟩ := Option.map_eq_some_iff.mp selected
      obtain ⟨visit, next', lifted, rfl⟩ := Task.lift_event step
      refine ⟨_, _, .event index (op, visit) run current lifted, ?_, Config.erase_set ..⟩
      rw [List.map_append]
      rfl
  | environment _ changed => exact changed.elim

namespace Task

/-- **Running alone, traced, is running alone.** -/
theorem Ran.erase {task next : Task (Traced S)} {world after : W}
    {steps : List (Occurrence (Traced S) W)}
    (ran : Ran (tracedBody body) (tracedHandle handle) task world steps next after) :
    Ran body handle task.erase world (steps.map Occurrence.erase) next.erase after := by
  induction ran with
  | refl => exact .refl _ _
  | silent step _ ih => exact .silent (erase_step step) ih
  | event op step _ ih => exact .event op.1 (erase_step step) ih

/-- **Running alone can be traced.** -/
theorem Ran.lift {task : Task (Traced S)} {world after : W} {steps : List (Occurrence S W)}
    {next : Task S} (ran : Ran body handle task.erase world steps next after) :
    ∃ steps' next', Ran (tracedBody body) (tracedHandle handle) task world steps' next' after ∧
      steps'.map Occurrence.erase = steps ∧ next'.erase = next := by
  generalize source : task.erase = start at ran
  induction ran generalizing task with
  | refl => exact ⟨[], task, .refl _ _, rfl, source⟩
  | silent step _ ih =>
      subst source
      obtain ⟨event', next', lifted, sameEvent, same⟩ := lift_step step
      obtain rfl := Option.map_eq_none_iff.mp sameEvent
      obtain ⟨steps', last, ran, sameSteps, reached⟩ := ih same
      exact ⟨steps', last, .silent lifted ran, sameSteps, reached⟩
  | @event _ _ _ _ _ _ op step _ ih =>
      subst source
      obtain ⟨visit, next', lifted, same⟩ := lift_event step
      obtain ⟨steps', last, ran, rfl, reached⟩ := ih same
      exact ⟨_, last, .event (op, visit) lifted ran, rfl, reached⟩

theorem erase_eq_done {task : Task (Traced S)} {outcome : S.Outcome} :
    task.erase = .run (.done outcome) ↔ task = .run (.done outcome) := by
  constructor
  · intro finished
    have same : task.outcome? = some outcome := by
      rw [← outcome?_erase, finished]
      rfl
    exact outcome?_eq_some same
  · intro finished
    rw [finished]
    rfl

end Task

/-- Progress of the main task without visits. -/
def Main.erase : Main (Traced S) → Main S
  | .joining index => .joining index
  | .finishing task => .finishing task.erase
  | .returned outcome => .returned outcome

/-- A supervised state without visits. -/
def Supervised.erase (state : Supervised (Traced S) W) : Supervised S W :=
  ⟨state.spawned.erase, state.main.erase⟩

namespace Supervised

theorem allSucceeded_erase {tasks : List (Task (Traced S))} :
    AllSucceeded (tasks.map Task.erase) ↔ AllSucceeded tasks := by
  unfold AllSucceeded
  simp only [List.forall_mem_map, Task.erase_eq_done]

/-- **Supervised runs can be traced.** -/
theorem Phase.lift {finish : Program (Traced S) S.Outcome} {world : W}
    {tasks : List (Task (Traced S))} {running pass : List (Occurrence S W)} {state : Supervised S W}
    (phase : Phase body handle finish.erase world (tasks.map Task.erase) running pass state) :
    ∃ running' pass' state',
      Phase (tracedBody body) (tracedHandle handle) finish world tasks running' pass' state' ∧
        running'.map Occurrence.erase = running ∧ pass'.map Occurrence.erase = pass ∧
          state'.erase = state := by
  cases phase with
  | joining run joined =>
      obtain ⟨running', config', traced, same, rfl⟩ :=
        @Config.Run.lift _ _ _ _ ⟨world, tasks⟩ _ _ run
      rw [Config.erase, ← List.map_take, allSucceeded_erase] at joined
      exact ⟨running', [], _, .joining traced joined, same, rfl, rfl⟩
  | failed run failed =>
      obtain ⟨running', config', traced, same, rfl⟩ :=
        @Config.Run.lift _ _ _ _ ⟨world, tasks⟩ _ _ run
      obtain ⟨task, member, failed⟩ := List.mem_map.mp failed
      rw [Task.erase_eq_done] at failed
      exact ⟨running', [], _, .failed traced (failed ▸ member), same, rfl, rfl⟩
  | finishing _ run joined ran =>
      obtain ⟨running', config', traced, same, rfl⟩ :=
        @Config.Run.lift _ _ _ _ ⟨world, tasks⟩ _ _ run
      obtain ⟨pass', last, alone, samePass, rfl⟩ := @Task.Ran.lift _ _ _ _ (.run finish) _ _ _ _ ran
      exact ⟨running', pass', _, .finishing config' traced (allSucceeded_erase.mp joined) alone,
        same, samePass, rfl⟩
  | returned _ run joined ran =>
      obtain ⟨running', config', traced, same, rfl⟩ :=
        @Config.Run.lift _ _ _ _ ⟨world, tasks⟩ _ _ run
      obtain ⟨pass', last, alone, samePass, finished⟩ :=
        @Task.Ran.lift _ _ _ _ (.run finish) _ _ _ _ ran
      obtain rfl := Task.erase_eq_done.mp finished
      exact ⟨running', pass', _, .returned config' traced (allSucceeded_erase.mp joined) alone,
        same, samePass, rfl⟩

/-- **Traced supervised runs are supervised runs.** -/
theorem Phase.erase {finish : Program (Traced S) S.Outcome} {world : W}
    {tasks : List (Task (Traced S))} {running pass : List (Occurrence (Traced S) W)}
    {state : Supervised (Traced S) W}
    (phase : Phase (tracedBody body) (tracedHandle handle) finish world tasks running pass state) :
    Phase body handle finish.erase world (tasks.map Task.erase) (running.map Occurrence.erase)
      (pass.map Occurrence.erase) state.erase := by
  cases phase with
  | joining run joined =>
      refine .joining run.erase ?_
      rw [Config.erase, ← List.map_take, allSucceeded_erase]
      exact joined
  | failed run failed =>
      exact .failed run.erase (List.mem_map.mpr ⟨_, failed, rfl⟩)
  | finishing _ run joined ran =>
      exact .finishing _ run.erase (allSucceeded_erase.mpr joined) ran.erase
  | returned _ run joined ran =>
      exact .returned _ run.erase (allSucceeded_erase.mpr joined) ran.erase

end Supervised

end Async
