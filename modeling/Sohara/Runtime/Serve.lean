import Sohara.Async.BigStep
import Sohara.Runtime.PauseGate
import Sohara.Runtime.RunSafety
import Sohara.Runtime.World

/-! # Serving a flow

The executor and serve mode as one machine. Each source has a task that pulls items from a
live stream, holds each at the pause gate, and walks it. The main task of the executor joins
the sources in their order, flushes, and returns. Serve mode waits for it or for a shutdown,
on which it stops the triggers one after the other and then waits for the executor.

An executor that is not served is the machine without a shutdown.
-/

namespace Sohara

open Async

/-- Where the task of a source is. -/
inductive Pumping where
  | opening
  | polling
  /-- Holds an item at the pause gate. -/
  | gated (item : Item)
  /-- Walks a record, or reports an error of the stream. -/
  | working (task : Task Engine)
  | ended (outcome : Outcome)

/-- A source that has not ended. -/
def Pumping.Active : Pumping → Prop
  | .ended _ => False
  | _ => True

/-- Where serve mode is. -/
inductive ServePhase where
  | serving
  /-- Stops the trigger of the given number next. -/
  | stopping (index : Nat)
  /-- Has stopped all triggers, and waits for the executor. -/
  | awaiting
  | returned (outcome : Outcome)

/-- A served executor: its world, the tasks of its sources, its main task, its pause gate, and
the triggers that have been stopped. -/
structure Serving where
  world : World
  sources : List Pumping
  main : Main Engine := .joining 0
  gate : PauseGate Nat Nat := {}
  stopped : List String := []
  phase : ServePhase := .serving

/-- The steps of a served executor. -/
inductive ServeEvent where
  /-- The stream of a source opens. -/
  | opened (index : Nat)
  /-- A root that is no source has nothing to do. -/
  | skipped (index : Nat)
  /-- The stream of a source fails to open. -/
  | refused (index : Nat) (error : Error)
  | pulled (index : Nat) (item : Item)
  /-- A source leaves the pause gate. -/
  | passed (index : Nat)
  /-- A source performs one step of processing an item. -/
  | worked (index : Nat)
  | processed (index : Nat) (outcome : Outcome)
  /-- The stream of a source ends. -/
  | drained (index : Nat)
  | joined
  | failed
  | finishing
  /-- The main task performs one step of the final flush. -/
  | flushed
  | finished (outcome : Outcome)
  | gate (event : GateEvent Nat Nat)
  | requested
  | stopped (trigger : String)
  | unstopped (trigger : String) (error : Error)
  | allStopped
  | answered

namespace Executor

variable (executor : Executor)

/-- Whether a root is a source. -/
def opens (root : String) : Bool :=
  match executor.graph.node root with
  | some ⟨_, _, _, .source, _, _, _⟩ => true
  | _ => false

/-- What the task of a source does with an item. -/
def process (root : String) : Item → Prog Outcome
  | .ok record => executor.walkTo record root
  | .error error => do
      Perform.count .errors
      Perform.recordError root "source" error.text
      return .ok ()

/-- A served executor at its start. -/
def serving (world : World) : Serving where
  world := world
  sources := executor.graph.roots.map fun _ => .opening

end Executor

namespace Serving

section Definitions

/-- Moves the task of a source. -/
def setSource (index : Nat) (pumping : Pumping) (state : Serving) : Serving :=
  { state with sources := state.sources.set index pumping }

/-- What a source task does after it has processed an item. -/
def afterItem : Outcome → Pumping
  | .ok () => .polling
  | .error error => .ended (.error error)

variable (executor : Executor) (host : Host) (triggers : List String)

/-- A step of a served executor. -/
inductive Step : Serving → ServeEvent → Serving → Prop where
  | opened {state : Serving} {index : Nat} {root : String}
      (rooted : executor.graph.roots[index]? = some root) (source : executor.opens root = true)
      (opening : state.sources[index]? = some .opening) :
      Step state (.opened index) (state.setSource index .polling)
  | skipped {state : Serving} {index : Nat} {root : String}
      (rooted : executor.graph.roots[index]? = some root) (other : executor.opens root = false)
      (opening : state.sources[index]? = some .opening) :
      Step state (.skipped index) (state.setSource index (.ended (.ok ())))
  | refused {state : Serving} {index : Nat} {root : String} (error : Error)
      (rooted : executor.graph.roots[index]? = some root) (source : executor.opens root = true)
      (opening : state.sources[index]? = some .opening) :
      Step state (.refused index error) (state.setSource index (.ended (.error error)))
  | pulled {state : Serving} {index : Nat} {root : String} (item : Item)
      (rooted : executor.graph.roots[index]? = some root)
      (polling : state.sources[index]? = some .polling) (ungated : executor.pause = false) :
      Step state (.pulled index item)
        (state.setSource index (.working (.run (executor.process root item))))
  | held {state : Serving} {index : Nat} (item : Item) {gate : PauseGate Nat Nat}
      (polling : state.sources[index]? = some .polling) (gated : executor.pause = true)
      (entered : state.gate.step (.enter index) = some gate) :
      Step state (.pulled index item) { state.setSource index (.gated item) with gate := gate }
  | passed {state : Serving} {index : Nat} {root : String} {item : Item}
      (rooted : executor.graph.roots[index]? = some root)
      (gated : state.sources[index]? = some (.gated item))
      (away : state.gate.waiters index = .away) :
      Step state (.passed index)
        (state.setSource index (.working (.run (executor.process root item))))
  | worked {state : Serving} {index : Nat} {task next : Task Engine} {after : World}
      (working : state.sources[index]? = some (.working task))
      (moves : Task.Moves walkCall (World.perform host) task state.world next after) :
      Step state (.worked index) { state.setSource index (.working next) with world := after }
  | processed {state : Serving} {index : Nat} {outcome : Outcome}
      (working : state.sources[index]? = some (.working (.run (.done outcome)))) :
      Step state (.processed index outcome) (state.setSource index (afterItem outcome))
  | drained {state : Serving} {index : Nat} (polling : state.sources[index]? = some .polling) :
      Step state (.drained index) (state.setSource index (.ended (.ok ())))
  | joined {state : Serving} {index : Nat} (joining : state.main = .joining index)
      (done : state.sources[index]? = some (.ended (.ok ()))) :
      Step state .joined { state with main := .joining (index + 1) }
  | failed {state : Serving} {index : Nat} {error : Error} (joining : state.main = .joining index)
      (done : state.sources[index]? = some (.ended (.error error))) :
      Step state .failed { state with main := .returned (.error error) }
  | finishing {state : Serving} {index : Nat} (joining : state.main = .joining index)
      (all : state.sources.length ≤ index) :
      Step state .finishing { state with main := .finishing (.run executor.flushAll) }
  | flushed {state : Serving} {task next : Task Engine} {after : World}
      (flushing : state.main = .finishing task)
      (moves : Task.Moves walkCall (World.perform host) task state.world next after) :
      Step state .flushed { state with main := .finishing next, world := after }
  | finished {state : Serving} {outcome : Outcome}
      (flushing : state.main = .finishing (.run (.done outcome))) :
      Step state (.finished outcome) { state with main := .returned outcome }
  | gate {state : Serving} {event : GateEvent Nat Nat} {gate : PauseGate Nat Nat}
      (inside : ∀ waiter, event ≠ .enter waiter) (stepped : state.gate.step event = some gate) :
      Step state (.gate event) { state with gate := gate }
  | requested {state : Serving} (serving : state.phase = .serving) :
      Step state .requested { state with phase := .stopping 0 }
  | stopped {state : Serving} {index : Nat} {trigger : String}
      (stopping : state.phase = .stopping index) (next : triggers[index]? = some trigger) :
      Step state (.stopped trigger)
        { state with phase := .stopping (index + 1), stopped := state.stopped ++ [trigger] }
  | unstopped {state : Serving} {index : Nat} {trigger : String} (error : Error)
      (stopping : state.phase = .stopping index) (next : triggers[index]? = some trigger) :
      Step state (.unstopped trigger error) { state with phase := .returned (.error error) }
  | allStopped {state : Serving} {index : Nat} (stopping : state.phase = .stopping index)
      (all : triggers.length ≤ index) : Step state .allStopped { state with phase := .awaiting }
  | answered {state : Serving} {outcome : Outcome}
      (waiting : state.phase = .serving ∨ state.phase = .awaiting)
      (returned : state.main = .returned outcome) :
      Step state .answered { state with phase := .returned outcome }

/-- A step, with the states before and after it. -/
structure Moment where
  before : Serving
  event : ServeEvent
  after : Serving

/-- A run of a served executor, with its moments. -/
inductive Run (first : Serving) : List Moment → Serving → Prop where
  | nil : Run first [] first
  | snoc {moments : List Moment} {state next : Serving} {event : ServeEvent}
      (run : Run first moments state) (step : Step executor host triggers state event next) :
      Run first (moments ++ [⟨state, event, next⟩]) next

end Definitions

section Runs

variable {executor : Executor} {host : Host} {triggers : List String} {first state last : Serving}
  {moments : List Moment} {index : Nat} {task next : Task Engine} {world after : World}
  {steps : List (Occurrence Engine World)} {event : ServeEvent}

/-- Another run may start where a run ends. -/
theorem Run.anew (_run : Run executor host triggers first moments state) :
    Run executor host triggers state [] state := .nil

/-- Putting a source where it is changes nothing. -/
theorem setSource_self {pumping : Pumping} (here : state.sources[index]? = some pumping) :
    state.setSource index pumping = state := by
  obtain ⟨inside, same⟩ := List.getElem?_eq_some_iff.mp here
  unfold setSource
  rw [← same, List.set_getElem_self]

/-- A task that takes its steps as steps of the server takes its runs as runs of it. -/
theorem Run.ran (hold : Task Engine → World → Serving)
    (holds : ∀ {task next : Task Engine} {world after : World},
      Task.Moves walkCall (World.perform host) task world next after →
        Step executor host triggers (hold task world) event (hold next after))
    (run : Run executor host triggers first moments (hold task world))
    (ran : Task.Ran (S := Engine) walkCall (World.perform host) task world steps next after) :
    ∃ more, Run executor host triggers first (moments ++ more) (hold next after) ∧
      ∀ moment ∈ more, moment.event = event := by
  induction ran generalizing moments with
  | refl =>
      refine ⟨[], ?_, List.forall_mem_nil _⟩
      rwa [List.append_nil]
  | silent step _ ih =>
      obtain ⟨more, extended, events⟩ := ih (run.snoc (holds (.silent _ step)))
      rw [List.append_assoc, List.singleton_append] at extended
      exact ⟨_, extended, List.forall_mem_cons.mpr ⟨rfl, events⟩⟩
  | event op step _ ih =>
      obtain ⟨more, extended, events⟩ := ih (run.snoc (holds (.event _ op step)))
      rw [List.append_assoc, List.singleton_append] at extended
      exact ⟨_, extended, List.forall_mem_cons.mpr ⟨rfl, events⟩⟩

/-- A source may process its item as a run of its task does. -/
theorem Run.work (index : Nat) (run : Run executor host triggers first moments state)
    (working : state.sources[index]? = some (.working task))
    (ran : Task.Ran (S := Engine) walkCall (World.perform host) task state.world steps next
      after) :
    ∃ more, Run executor host triggers first (moments ++ more)
        { state.setSource index (.working next) with world := after } ∧
      ∀ moment ∈ more, moment.event = .worked index := by
  have inside : index < state.sources.length := (List.getElem?_eq_some_iff.mp working).1
  apply Run.ran fun task world => { state.setSource index (.working task) with world }
  · intro task next world after moves
    have stepped : Step executor host triggers
        { state.setSource index (.working task) with world } (.worked index) _ :=
      .worked (List.getElem?_set_self inside) moves
    simpa only [setSource, List.set_set] using stepped
  · show Run executor host triggers first moments (state.setSource index (.working task))
    rwa [setSource_self working]
  · exact ran

/-- The main task may flush as a run of its task does. -/
theorem Run.flush (run : Run executor host triggers first moments state)
    (flushing : state.main = .finishing task)
    (ran : Task.Ran (S := Engine) walkCall (World.perform host) task state.world steps next
      after) :
    ∃ more, Run executor host triggers first (moments ++ more)
        { state with main := .finishing next, world := after } ∧
      ∀ moment ∈ more, moment.event = .flushed := by
  apply Run.ran fun task world => { state with main := .finishing task, world }
  · exact fun moves => .flushed rfl moves
  · rwa [← flushing]
  · exact ran

/-- A source may process its item to the end. -/
theorem Run.process {outcome : Outcome} (index : Nat)
    (run : Run executor host triggers first moments state)
    (working : state.sources[index]? = some (.working task))
    (ran : Task.Ran (S := Engine) walkCall (World.perform host) task state.world steps
      (.run (.done outcome)) after) :
    ∃ more, Run executor host triggers first (moments ++ more)
        { state.setSource index (afterItem outcome) with world := after } ∧
      ∀ moment ∈ more, moment.event = .worked index ∨ moment.event = .processed index outcome := by
  obtain ⟨more, worked, events⟩ := run.work index working ran
  have inside : index < state.sources.length := (List.getElem?_eq_some_iff.mp working).1
  have processed := worked.snoc (.processed (List.getElem?_set_self inside))
  rw [List.append_assoc] at processed
  simp only [setSource, List.set_set] at processed
  refine ⟨_, processed, List.forall_mem_append.mpr ⟨fun moment member => ?_, ?_⟩⟩
  · exact .inl (events moment member)
  · exact List.forall_mem_singleton.mpr (.inr rfl)

/-- The main task may flush to the end. -/
theorem Run.finish {outcome : Outcome} (run : Run executor host triggers first moments state)
    (flushing : state.main = .finishing task)
    (ran : Task.Ran (S := Engine) walkCall (World.perform host) task state.world steps
      (.run (.done outcome)) after) :
    ∃ more, Run executor host triggers first (moments ++ more)
        { state with main := .returned outcome, world := after } ∧
      ∀ moment ∈ more, moment.event = .flushed ∨ moment.event = .finished outcome := by
  obtain ⟨more, flushed, events⟩ := run.flush flushing ran
  have finished := flushed.snoc (.finished rfl)
  rw [List.append_assoc] at finished
  refine ⟨_, finished, List.forall_mem_append.mpr ⟨fun moment member => ?_, ?_⟩⟩
  · exact .inl (events moment member)
  · exact List.forall_mem_singleton.mpr (.inr rfl)

/-- A single task that is played runs. -/
theorem ran_of_play (schedule : List Nat)
    (played : (Config.play (S := Engine) walkCall (fun _ => World.perform host)
      ⟨world, [task]⟩ schedule).2.tasks = [next]) :
    ∃ steps, Task.Ran (S := Engine) walkCall (World.perform host) task world steps next
      (Config.play (S := Engine) walkCall (fun _ => World.perform host)
        ⟨world, [task]⟩ schedule).2.world := by
  have run : Config.Run (S := Engine) walkCall (fun _ => World.perform host) (fun _ _ => False)
      ⟨world, [task]⟩ _ _ := Config.run_play _ schedule
  obtain ⟨reached, alone, ran⟩ := Task.ran_of_run run rfl
  rw [played] at alone
  cases alone
  exact ⟨_, ran⟩

end Runs

end Serving

end Sohara
