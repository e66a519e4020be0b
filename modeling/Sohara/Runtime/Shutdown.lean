import Sohara.Runtime.RunMeaning
import Sohara.Runtime.Serve

/-! # Shutting down while paused

Once shutdown has been requested and all triggers have been stopped, serve mode waits for the
executor, and the executor for its sources. A source that holds an item at the raised pause
gate stays there until the gate is resumed: the shutdown does not open it. When the gate
opens for whoever is held, and lets the items through that the streams still hold, the server
returns by itself.
-/

namespace Sohara

open Async Async.Program Relation

/-- A step that takes no item off a stream, ends no stream, and sets no pause flag. -/
def ServeEvent.Internal : ServeEvent → Prop
  | .pulled _ _ => False
  | .drained _ => False
  | .gate (.store _ _) => False
  | _ => True

namespace Serving

section Definitions

variable (executor : Executor) (host : Host) (triggers : List String)

/-- The steps of a server by itself, with the items that its streams still hold: the pause
flag is not set by another call, and a stream ends when it has yielded what it holds. -/
inductive Winds : Serving × (Nat → List Item) → Serving × (Nat → List Item) → Prop where
  | server {state next : Serving} {backlog : Nat → List Item} {event : ServeEvent}
      (step : Step executor host triggers state event next) (internal : event.Internal) :
      Winds (state, backlog) (next, backlog)
  | pulled {state next : Serving} {backlog : Nat → List Item} {index : Nat} {item : Item}
      {rest : List Item} (holds : backlog index = item :: rest)
      (step : Step executor host triggers state (.pulled index item) next) :
      Winds (state, backlog) (next, Function.update backlog index rest)
  | drained {state next : Serving} {backlog : Nat → List Item} {index : Nat}
      (empty : backlog index = [])
      (step : Step executor host triggers state (.drained index) next) :
      Winds (state, backlog) (next, backlog)

/-- The server can return by itself, with all its sources ended. -/
def Returns (state : Serving) (backlog : Nat → List Item) : Prop :=
  ∃ last rest outcome, ReflTransGen (Winds executor host triggers) (state, backlog) (last, rest) ∧
    last.phase = .returned outcome ∧ ∀ pumping ∈ last.sources, ∃ result, pumping = .ended result

/-- The gate opens for every source it holds, and while the flag is raised, no stream of a
source that goes on holds another item. -/
structure Passable (state : Serving) (backlog : Nat → List Item) : Prop where
  opens : ∀ (index : Nat) (item : Item), state.sources[index]? = some (.gated item) →
    state.gate.Opens index
  clear : state.gate.paused = true → ∀ (index : Nat) (pumping : Pumping),
    state.sources[index]? = some pumping → pumping.Active → backlog index = []

/-- A root whose source has a stream. -/
def Rooted (index : Nat) : Prop :=
  ∃ root, executor.graph.roots[index]? = some root ∧ executor.opens root = true

/-- The task of a source can go on. -/
def Able (index : Nat) : Pumping → Prop
  | .opening => True
  | .polling => Rooted executor index
  | .gated _ => Rooted executor index
  | .working task =>
      Rooted executor index ∧ task.Settled ∧ Task.Halts (S := Engine) walkCall task
  | .ended _ => True

/-- What holds in every state of a served executor: its sources and its main task can go on,
and only sources that hold an item are at the gate. -/
structure Lively (state : Serving) : Prop where
  rooted : state.sources.length = executor.graph.roots.length
  able : ∀ (index : Nat) (pumping : Pumping), state.sources[index]? = some pumping →
    Able executor index pumping
  flushing : ∀ task, state.main = .finishing task →
    task.Settled ∧ Task.Halts (S := Engine) walkCall task
  away : ∀ index, (∀ item, state.sources[index]? ≠ some (.gated item)) →
    state.gate.waiters index = .away

end Definitions

section Liveliness

variable {executor : Executor} {host : Host} {triggers : List String} {state next : Serving}
  {event : ServeEvent} {index : Nat} {before after : Pumping} {world : World}
  {task following : Task Engine}

theorem halts_of_moves {last : World} (halts : Task.Halts (S := Engine) walkCall task)
    (moves : Task.Moves walkCall (World.perform host) task world following last) :
    Task.Halts (S := Engine) walkCall following := by
  cases moves with
  | silent _ step => exact halts.step step
  | event _ op step => exact halts.step step

/-- Processing an item halts. -/
theorem able_process (formed : executor.graph.WellFormed) {root : String} (item : Item)
    (rooted : executor.graph.roots[index]? = some root) (opens : executor.opens root = true) :
    Able executor index (.working (.run (executor.process root item))) := by
  refine ⟨⟨root, rooted, opens⟩, trivial, ?_⟩
  obtain ⟨node, found⟩ : ∃ node, executor.graph.node root = some node := by
    unfold Executor.opens at opens
    split at opens
    · next found => exact ⟨_, found⟩
    · cases opens
  apply Executor.halts_program formed
  cases item with
  | ok record => exact safe_call ⟨rfl, node, found⟩
  | error error =>
      exact Safe.bind (safe_op trivial) fun _ => Safe.bind (safe_op trivial) fun _ => safe_pure _

/-- A source that is not at the gate, and moves, keeps the server lively. -/
theorem Lively.source (lively : state.Lively executor)
    (here : state.sources[index]? = some before) (able : Able executor index after)
    (away : state.gate.waiters index = .away) :
    Lively executor { state.setSource index after with world := world } := by
  have inside : index < state.sources.length := (List.getElem?_eq_some_iff.mp here).1
  have source (other : Nat) : (state.sources.set index after)[other]? =
      if index = other then some after else state.sources[other]? := by
    rw [List.getElem?_set, if_pos inside]
  refine ⟨(List.length_set ..).trans lively.rooted, fun other pumping found => ?_,
    lively.flushing, fun other ungated => ?_⟩
  · simp only [setSource] at found
    rw [source] at found
    split at found
    · next same =>
        cases found
        rwa [← same]
    · exact lively.able other pumping found
  · by_cases same : index = other
    · rwa [← same]
    · refine lively.away other fun item gated => ungated item ?_
      simp only [setSource]
      rwa [source, if_neg same]

/-- Every step keeps a server lively. -/
theorem lively_step (formed : executor.graph.WellFormed) (lively : state.Lively executor)
    (step : Step executor host triggers state event next) : next.Lively executor := by
  have away {index : Nat} {before : Pumping} (here : state.sources[index]? = some before)
      (ungated : ∀ item, before ≠ .gated item) : state.gate.waiters index = .away :=
    lively.away index fun item gated => ungated item (Option.some.inj (here.symm.trans gated))
  cases step with
  | opened rooted opens here => exact lively.source here ⟨_, rooted, opens⟩ (away here nofun)
  | skipped _ _ here => exact lively.source here trivial (away here nofun)
  | refused _ _ _ here => exact lively.source here trivial (away here nofun)
  | pulled item rooted here =>
      obtain ⟨root, found, opens⟩ := lively.able _ _ here
      cases rooted.symm.trans found
      exact lively.source here (able_process formed item rooted opens) (away here nofun)
  | @held index item gate here _ entered =>
      have inside : index < state.sources.length := (List.getElem?_eq_some_iff.mp here).1
      have rooted : Rooted executor index := lively.able _ _ here
      have stays : Lively executor
          { state.setSource index (.gated item) with world := state.world } :=
        lively.source here rooted (away here nofun)
      refine ⟨stays.rooted, stays.able, lively.flushing, fun other ungated => ?_⟩
      · have different : index ≠ other := by
          rintro rfl
          exact ungated item (List.getElem?_set_self inside)
        refine PauseGate.away_step (lively.away other fun held gated => ungated held ?_)
          (fun same => different (by cases same; rfl)) entered
        exact (List.getElem?_set_ne different).trans gated
  | passed rooted here gone =>
      obtain ⟨root, found, opens⟩ := lively.able _ _ here
      cases rooted.symm.trans found
      exact lively.source here (able_process formed _ rooted opens) gone
  | worked here moves =>
      obtain ⟨rooted, settled, halts⟩ := lively.able _ _ here
      exact lively.source here
        ⟨rooted, Supervised.settled_of_moves settled moves, halts_of_moves halts moves⟩
        (away here nofun)
  | @processed index outcome here =>
      cases outcome with
      | ok _ => exact lively.source here (lively.able _ _ here).1 (away here nofun)
      | error _ => exact lively.source here trivial (away here nofun)
  | drained here => exact lively.source here trivial (away here nofun)
  | joined => exact ⟨lively.rooted, lively.able, nofun, lively.away⟩
  | failed => exact ⟨lively.rooted, lively.able, nofun, lively.away⟩
  | finishing =>
      refine ⟨lively.rooted, lively.able, fun task same => ?_, lively.away⟩
      cases same
      exact ⟨trivial, Executor.halts_flushAll formed⟩
  | flushed flushing moves =>
      obtain ⟨settled, halts⟩ := lively.flushing _ flushing
      refine ⟨lively.rooted, lively.able, fun task same => ?_, lively.away⟩
      cases same
      exact ⟨Supervised.settled_of_moves settled moves, halts_of_moves halts moves⟩
  | finished => exact ⟨lively.rooted, lively.able, nofun, lively.away⟩
  | gate inside stepped =>
      exact ⟨lively.rooted, lively.able, lively.flushing, fun index ungated =>
        PauseGate.away_step (lively.away index ungated) (inside index) stepped⟩
  | _ => exact ⟨lively.rooted, lively.able, lively.flushing, lively.away⟩

/-- A served executor is lively. -/
theorem Run.lively {moments : List Moment} (formed : executor.graph.WellFormed)
    (run : Run executor host triggers (executor.serving world) moments state) :
    state.Lively executor := by
  induction run with
  | nil =>
      refine ⟨List.length_map .., fun index pumping here => ?_, nofun, fun _ _ => rfl⟩
      obtain ⟨root, -, rfl⟩ := List.mem_map.mp (List.mem_of_getElem? here)
      trivial
  | snoc _ step ih => exact lively_step formed ih step

end Liveliness

section Return

variable {executor : Executor} {host : Host} {triggers : List String} {state next last : Serving}
  {backlog : Nat → List Item} {event : ServeEvent} {moments : List Moment} {index : Nat}
  {task : Task Engine}

/-- A run that only works is one of the server. -/
theorem Run.winds (run : Run executor host triggers state moments last)
    (internal : ∀ moment ∈ moments, moment.event.Internal) :
    ReflTransGen (Winds executor host triggers) (state, backlog) (last, backlog) := by
  induction run with
  | nil => exact .refl
  | snoc _ step ih =>
      rw [List.forall_mem_append, List.forall_mem_singleton] at internal
      exact (ih internal.1).tail (.server step internal.2)

/-- Whoever is at the gate may proceed. -/
theorem winds_proceeds {gate : PauseGate Nat Nat}
    (proceeds : ReflTransGen PauseGate.Proceeds state.gate gate) :
    ReflTransGen (Winds executor host triggers) (state, backlog)
      ({ state with gate := gate }, backlog) := by
  induction proceeds with
  | refl => exact .refl
  | tail _ proceeds ih =>
      obtain ⟨event, inside, uncalled, stepped⟩ := proceeds
      refine ih.tail (.server (.gate inside stepped) ?_)
      cases event with
      | store setter paused => exact uncalled setter paused rfl
      | _ => trivial

/-- A source that works comes to the end of its item. -/
theorem exists_processed (working : state.sources[index]? = some (.working task))
    (settled : task.Settled) (halts : Task.Halts (S := Engine) walkCall task) :
    ∃ outcome world, ReflTransGen (Winds executor host triggers) (state, backlog)
      ({ state.setSource index (afterItem outcome) with world := world }, backlog) := by
  obtain ⟨steps, outcome, world, ran⟩ : ∃ steps outcome world, Task.Ran (S := Engine) walkCall
      (World.perform host) task state.world steps (.run (.done outcome)) world :=
    halts.exists_ran settled state.world
  have start : Run executor host triggers state [] state := .nil
  obtain ⟨moments, run, events⟩ := start.process index working ran
  refine ⟨outcome, world, run.winds fun moment member => ?_⟩
  rcases events moment member with event | event <;> rw [event] <;> trivial

/-- A source takes the next item off its stream, and through the clear gate. -/
theorem exists_pulled {root : String} {item : Item} {rest : List Item}
    (rooted : executor.graph.roots[index]? = some root)
    (polling : state.sources[index]? = some .polling) (away : state.gate.waiters index = .away)
    (clear : state.gate.paused = false) (holds : backlog index = item :: rest) :
    ReflTransGen (Winds executor host triggers) (state, backlog)
      (state.setSource index (.working (.run (executor.process root item))),
        Function.update backlog index rest) := by
  cases gated : executor.pause with
  | false => exact .single (.pulled holds (.pulled item rooted polling gated))
  | true =>
      have inside : index < state.sources.length := (List.getElem?_eq_some_iff.mp polling).1
      have held : Winds executor host triggers (state, backlog)
          (_, Function.update backlog index rest) :=
        .pulled holds (.held item polling gated (if_pos away))
      have loads : (state.gate.setWaiter index .checking).step (.load index) = some state.gate := by
        have checking : (state.gate.setWaiter index .checking).waiters index = .checking := by
          rw [PauseGate.waiters_setWaiter, if_pos rfl]
        refine (if_pos checking).trans (congrArg some ?_)
        rw [show (state.gate.setWaiter index .checking).paused = false from clear]
        exact PauseGate.setWaiter_back away .checking
      have loaded : Step executor host triggers
          { state.setSource index (.gated item) with gate := state.gate.setWaiter index .checking }
          (.gate (.load index)) (state.setSource index (.gated item)) := .gate nofun loads
      have passed : Step executor host triggers (state.setSource index (.gated item))
          (.passed index) _ := .passed rooted (List.getElem?_set_self inside) away
      simp only [setSource, List.set_set] at passed
      exact ((ReflTransGen.single held).tail (.server loaded trivial)).tail
        (.server passed trivial)

/-- A source that polls comes to the end of its stream, or to a failure. -/
theorem exists_drained (formed : executor.graph.WellFormed) (rooted : Rooted executor index)
    (polling : state.sources[index]? = some .polling) (away : state.gate.waiters index = .away)
    (clear : state.gate.paused = true → backlog index = []) :
    ∃ outcome world rest, ReflTransGen (Winds executor host triggers) (state, backlog)
      ({ state.setSource index (.ended outcome) with world := world },
        Function.update backlog index rest) := by
  obtain ⟨root, found, opens⟩ := rooted
  have inside : index < state.sources.length := (List.getElem?_eq_some_iff.mp polling).1
  generalize holds : backlog index = items
  induction items generalizing state backlog with
  | nil =>
      refine ⟨.ok (), state.world, [], ?_⟩
      rw [← holds, Function.update_eq_self]
      exact .single (.drained holds (.drained polling))
  | cons item rest ih =>
      have lowered : state.gate.paused = false := by
        cases raised : state.gate.paused with
        | false => rfl
        | true => cases holds.symm.trans (clear raised)
      have pulled : ReflTransGen (Winds executor host triggers) (state, backlog) _ :=
        exists_pulled found polling away lowered holds
      obtain ⟨-, settled, halts⟩ := able_process formed item found opens
      have working : (state.setSource index (.working (.run (executor.process root item)))).sources[
          index]? = some (.working (.run (executor.process root item))) :=
        List.getElem?_set_self inside
      obtain ⟨outcome, world, processed⟩ := exists_processed working settled halts
      simp only [setSource, List.set_set] at processed pulled
      have reached := pulled.trans processed
      cases outcome with
      | error error => exact ⟨.error error, world, rest, reached⟩
      | ok _ =>
          obtain ⟨outcome, world', rest', drained⟩ := @ih
            { state.setSource index .polling with world := world }
            (Function.update backlog index rest) (List.getElem?_set_self inside) away
            (fun raised => by cases lowered.symm.trans raised)
            (lt_of_lt_of_eq inside (List.length_set ..).symm) (Function.update_self ..)
          simp only [setSource, List.set_set, Function.update_idem] at drained
          exact ⟨outcome, world', rest', reached.trans drained⟩

/-- A source that works comes to the end of its stream, or to a failure. -/
theorem exists_worked (formed : executor.graph.WellFormed)
    (able : Able executor index (.working task))
    (working : state.sources[index]? = some (.working task))
    (away : state.gate.waiters index = .away)
    (clear : state.gate.paused = true → backlog index = []) :
    ∃ outcome world rest, ReflTransGen (Winds executor host triggers) (state, backlog)
      ({ state.setSource index (.ended outcome) with world := world },
        Function.update backlog index rest) := by
  obtain ⟨rooted, settled, halts⟩ := able
  have inside : index < state.sources.length := (List.getElem?_eq_some_iff.mp working).1
  obtain ⟨outcome, world, processed⟩ := exists_processed working settled halts
  cases outcome with
  | error error =>
      refine ⟨.error error, world, backlog index, ?_⟩
      rw [Function.update_eq_self]
      exact processed
  | ok _ =>
      have polling : (state.setSource index .polling).sources[index]? = some .polling :=
        List.getElem?_set_self inside
      obtain ⟨outcome, world', rest, drained⟩ := @exists_drained executor host triggers
        { state.setSource index .polling with world := world } backlog index formed rooted polling
        away clear
      simp only [setSource, List.set_set] at drained processed
      exact ⟨outcome, world', rest, processed.trans drained⟩

/-- **Every source comes to an end** when the gate does not hold it, and lets its items
through. -/
theorem exists_ended (formed : executor.graph.WellFormed) (lively : state.Lively executor)
    {pumping : Pumping} (here : state.sources[index]? = some pumping)
    (away : state.gate.waiters index = .away)
    (clear : state.gate.paused = true → pumping.Active → backlog index = []) :
    ∃ outcome world rest, ReflTransGen (Winds executor host triggers) (state, backlog)
      ({ state.setSource index (.ended outcome) with world := world },
        Function.update backlog index rest) := by
  have inside : index < state.sources.length := (List.getElem?_eq_some_iff.mp here).1
  have able := lively.able _ _ here
  cases pumping with
  | ended outcome =>
      refine ⟨outcome, state.world, backlog index, ?_⟩
      rw [Function.update_eq_self, setSource_self here]
  | polling => exact exists_drained formed able here away fun raised => clear raised trivial
  | working task => exact exists_worked formed able here away fun raised => clear raised trivial
  | gated item =>
      obtain ⟨root, rooted, opens⟩ := able
      have passed : Winds executor host triggers (state, backlog) (_, backlog) :=
        .server (.passed rooted here away) trivial
      obtain ⟨outcome, world, rest, worked⟩ := @exists_worked executor host triggers
        (state.setSource index (.working (.run (executor.process root item)))) backlog index _
        formed (able_process formed item rooted opens) (List.getElem?_set_self inside) away
        fun raised => clear raised trivial
      simp only [setSource, List.set_set] at worked passed
      exact ⟨outcome, world, rest, .head passed worked⟩
  | opening =>
      obtain ⟨root, rooted⟩ : ∃ root, executor.graph.roots[index]? = some root :=
        ⟨_, List.getElem?_eq_getElem (lively.rooted ▸ inside)⟩
      cases opens : executor.opens root with
      | false =>
          refine ⟨.ok (), state.world, backlog index, ?_⟩
          rw [Function.update_eq_self]
          exact .single (.server (.skipped rooted opens here) trivial)
      | true =>
          have opened : Winds executor host triggers (state, backlog) (_, backlog) :=
            .server (.opened rooted opens here) trivial
          obtain ⟨outcome, world, rest, drained⟩ := @exists_drained executor host triggers
            (state.setSource index .polling) backlog index formed ⟨root, rooted, opens⟩
            (List.getElem?_set_self inside) away fun raised => clear raised trivial
          simp only [setSource, List.set_set] at drained opened
          exact ⟨outcome, world, rest, .head opened drained⟩

/-- Nobody is at the gate, and while the flag is raised, no stream of a source that goes on
holds an item. -/
structure Freed (executor : Executor) (state : Serving) (backlog : Nat → List Item) : Prop where
  lively : state.Lively executor
  awaiting : state.phase = .awaiting
  away : ∀ index, state.gate.waiters index = .away
  clear : state.gate.paused = true → ∀ (index : Nat) (pumping : Pumping),
    state.sources[index]? = some pumping → pumping.Active → backlog index = []

/-- The gate can let everybody go. -/
theorem exists_freed (lively : state.Lively executor) (awaiting : state.phase = .awaiting)
    (passable : state.Passable backlog) :
    ∃ next, ReflTransGen (Winds executor host triggers) (state, backlog) (next, backlog) ∧
      Freed executor next backlog := by
  have opens (index : Nat) : state.gate.Opens index := by
    by_cases gated : ∃ item, state.sources[index]? = some (.gated item)
    · obtain ⟨item, gated⟩ := gated
      exact passable.opens index item gated
    · exact .inl (lively.away index fun item held => gated ⟨item, held⟩)
  obtain ⟨gate, proceeds, paused, gone⟩ := PauseGate.exists_opened
    (List.range state.sources.length) fun index _ => opens index
  have away (index : Nat) : gate.waiters index = .away := by
    by_cases inside : index < state.sources.length
    · exact gone index (List.mem_range.mpr inside)
    · refine PauseGate.away_of_proceeds proceeds (lively.away index fun item held => inside ?_)
      exact (List.getElem?_eq_some_iff.mp held).1
  refine ⟨{ state with gate := gate }, winds_proceeds proceeds,
    ⟨lively.rooted, lively.able, lively.flushing, fun index _ => away index⟩, awaiting, away, ?_⟩
  intro raised
  exact passable.clear (paused.symm.trans raised)

/-- One source comes to an end, and those that have stay there. -/
theorem Freed.exists_ended (formed : executor.graph.WellFormed)
    (freed : Freed executor state backlog) (rooted : index < executor.graph.roots.length) :
    ∃ next : Serving × (Nat → List Item),
      ReflTransGen (Winds executor host triggers) (state, backlog) next ∧
      Freed executor next.1 next.2 ∧ (∃ outcome, next.1.sources[index]? = some (.ended outcome)) ∧
      ∀ other : Nat, (∃ outcome, state.sources[other]? = some (.ended outcome)) →
        ∃ outcome, next.1.sources[other]? = some (.ended outcome) := by
  obtain ⟨lively, awaiting, away, clear⟩ := freed
  have inside : index < state.sources.length := lt_of_lt_of_eq rooted lively.rooted.symm
  have here := List.getElem?_eq_getElem inside
  obtain ⟨outcome, world, rest, winds⟩ := Serving.exists_ended formed lively here (away index)
    fun raised active => clear raised index _ here active
  have source (other : Nat) : (state.sources.set index (.ended outcome))[other]? =
      if index = other then some (.ended outcome) else state.sources[other]? := by
    rw [List.getElem?_set, if_pos inside]
  refine ⟨(_, _), winds, ⟨?_, awaiting, away, ?_⟩, ?_, ?_⟩
  · exact lively.source here trivial (away index)
  · intro raised other pumping held active
    simp only [setSource] at held
    rw [source] at held
    split at held
    · cases held
      exact active.elim
    · next different =>
        exact (Function.update_of_ne (Ne.symm different) _ _).trans
          (clear raised other pumping held active)
  · exact ⟨outcome, List.getElem?_set_self inside⟩
  · rintro other ⟨result, ended⟩
    simp only [setSource]
    rw [source]
    split
    · exact ⟨_, rfl⟩
    · exact ⟨result, ended⟩

/-- All sources can come to an end. -/
theorem Freed.exists_all_ended (formed : executor.graph.WellFormed)
    (freed : Freed executor state backlog) :
    ∃ next : Serving × (Nat → List Item),
      ReflTransGen (Winds executor host triggers) (state, backlog) next ∧
      Freed executor next.1 next.2 ∧
      ∀ pumping ∈ next.1.sources, ∃ outcome, pumping = .ended outcome := by
  obtain ⟨next, winds, kept, ended, -⟩ := reach_all
    (fun server : Serving × (Nat → List Item) => Freed executor server.1 server.2)
    (fun index server => ∃ outcome, server.1.sources[index]? = some (.ended outcome))
    (List.range executor.graph.roots.length)
    (fun index member server freed => freed.exists_ended formed (List.mem_range.mp member))
    (state, backlog) freed
  refine ⟨next, winds, kept, fun pumping member => ?_⟩
  obtain ⟨index, inside, rfl⟩ := List.mem_iff_getElem.mp member
  obtain ⟨outcome, same⟩ := ended index
    (List.mem_range.mpr (lt_of_lt_of_eq inside kept.lively.rooted))
  rw [List.getElem?_eq_getElem inside] at same
  exact ⟨outcome, Option.some.inj same⟩

/-- The main task returns when all sources have ended. -/
theorem exists_returned (formed : executor.graph.WellFormed) (lively : state.Lively executor)
    (ended : ∀ pumping ∈ state.sources, ∃ outcome, pumping = .ended outcome) :
    ∃ outcome world, ReflTransGen (Winds executor host triggers) (state, backlog)
      ({ state with main := .returned outcome, world := world }, backlog) := by
  have finish {state : Serving} {task : Task Engine} (flushing : state.main = .finishing task)
      (settled : task.Settled) (halts : Task.Halts (S := Engine) walkCall task) :
      ∃ outcome world, ReflTransGen (Winds executor host triggers) (state, backlog)
        ({ state with main := .returned outcome, world := world }, backlog) := by
    obtain ⟨steps, outcome, world, ran⟩ : ∃ steps outcome world, Task.Ran (S := Engine) walkCall
        (World.perform host) task state.world steps (.run (.done outcome)) world :=
      halts.exists_ran settled state.world
    have start : Run executor host triggers state [] state := .nil
    obtain ⟨moments, run, events⟩ := start.finish flushing ran
    refine ⟨outcome, world, run.winds fun moment member => ?_⟩
    rcases events moment member with event | event <;> rw [event] <;> trivial
  have join (left index : Nat) (state : Serving) (rest : state.sources.length - index = left)
      (joining : state.main = .joining index)
      (ended : ∀ pumping ∈ state.sources, ∃ outcome, pumping = .ended outcome) :
      ∃ outcome world, ReflTransGen (Winds executor host triggers) (state, backlog)
        ({ state with main := .returned outcome, world := world }, backlog) := by
    induction left generalizing index state with
    | zero =>
        have finishing : Winds executor host triggers (state, backlog) (_, backlog) :=
          .server (.finishing joining (Nat.sub_eq_zero_iff_le.mp rest)) trivial
        obtain ⟨outcome, world, flushed⟩ := @finish
          { state with main := .finishing (.run executor.flushAll) } _ rfl trivial
          (Executor.halts_flushAll formed)
        exact ⟨outcome, world, .head finishing flushed⟩
    | succ left ih =>
        have inside : index < state.sources.length := by omega
        obtain ⟨outcome, same⟩ := ended _ (List.getElem_mem inside)
        have here : state.sources[index]? = some (.ended outcome) := by
          rw [List.getElem?_eq_getElem inside, same]
        cases outcome with
        | error error =>
            have failed : Winds executor host triggers (state, backlog) (_, backlog) :=
              .server (.failed joining here) trivial
            exact ⟨.error error, state.world, .single failed⟩
        | ok _ =>
            have joined : Winds executor host triggers (state, backlog) (_, backlog) :=
              .server (.joined joining here) trivial
            have fewer : state.sources.length - (index + 1) = left := by omega
            obtain ⟨outcome, world, others⟩ := ih (index + 1)
              { state with main := .joining (index + 1) } fewer rfl ended
            exact ⟨outcome, world, .head joined others⟩
  cases main : state.main with
  | joining index => exact join _ index state rfl main ended
  | finishing task => exact finish main (lively.flushing task main).1 (lively.flushing task main).2
  | returned outcome =>
      refine ⟨outcome, state.world, ?_⟩
      rw [← main]

/-- Without another call, a source that the gate does not open for stays held. -/
theorem held_step {item : Item} (step : Step executor host triggers state event next)
    (uncalled : ∀ setter paused, event ≠ .gate (.store setter paused))
    (held : state.sources[index]? = some (.gated item)) (closed : ¬state.gate.Opens index) :
    next.sources[index]? = some (.gated item) ∧ ¬next.gate.Opens index := by
  have elsewhere {other : Nat} {before : Pumping} (after : Pumping)
      (here : state.sources[other]? = some before) (different : before ≠ .gated item) :
      (state.sources.set other after)[index]? = some (.gated item) := by
    rw [List.getElem?_set_ne, held]
    rintro rfl
    exact different (Option.some.inj (here.symm.trans held))
  cases step with
  | opened _ _ here => exact ⟨elsewhere _ here nofun, closed⟩
  | skipped _ _ here => exact ⟨elsewhere _ here nofun, closed⟩
  | refused _ _ _ here => exact ⟨elsewhere _ here nofun, closed⟩
  | pulled _ _ here => exact ⟨elsewhere _ here nofun, closed⟩
  | held _ here _ entered =>
      exact ⟨elsewhere _ here nofun, fun opens => closed (opens.of_step entered nofun)⟩
  | @passed other _ _ _ here away =>
      have different : other ≠ index := by
        rintro rfl
        exact closed (.inl away)
      refine ⟨?_, closed⟩
      show (state.sources.set other _)[index]? = _
      rw [List.getElem?_set_ne different, held]
  | worked here => exact ⟨elsewhere _ here nofun, closed⟩
  | processed here => exact ⟨elsewhere _ here nofun, closed⟩
  | drained here => exact ⟨elsewhere _ here nofun, closed⟩
  | gate _ stepped =>
      refine ⟨held, fun opens => closed (opens.of_step stepped ?_)⟩
      intro setter paused same
      exact uncalled setter paused (by rw [same])
  | _ => exact ⟨held, closed⟩

/-- The steps of a server by itself include no call. -/
theorem Winds.exists_step {rest : Nat → List Item}
    (winds : Winds executor host triggers (state, backlog) (next, rest)) :
    ∃ event, Step executor host triggers state event next ∧
      ∀ setter paused, event ≠ .gate (.store setter paused) := by
  cases winds with
  | server step internal =>
      refine ⟨_, step, fun setter paused same => ?_⟩
      rw [same] at internal
      exact internal
  | pulled _ step => exact ⟨_, step, nofun⟩
  | drained _ step => exact ⟨_, step, nofun⟩

/-- **A held source is held forever** unless the gate opens for it. -/
theorem held_forever {item : Item} {rest : Nat → List Item}
    (winds : ReflTransGen (Winds executor host triggers) (state, backlog) (last, rest))
    (held : state.sources[index]? = some (.gated item)) (closed : ¬state.gate.Opens index) :
    last.sources[index]? = some (.gated item) ∧ ¬last.gate.Opens index := by
  generalize reached : (last, rest) = server at winds
  induction winds generalizing last rest with
  | refl =>
      cases reached
      exact ⟨held, closed⟩
  | @tail middle _ _ winds ih =>
      subst reached
      obtain ⟨event, step, uncalled⟩ := winds.exists_step
      obtain ⟨still, shut⟩ := @ih middle.1 middle.2 rfl
      exact held_step step uncalled still shut

/-- The main task goes on waiting for a held source, and serve mode for the main task. -/
theorem waits_step {item : Item} (step : Step executor host triggers state event next)
    (joining : state.main = .joining index) (awaiting : state.phase = .awaiting)
    (held : state.sources[index]? = some (.gated item)) :
    next.main = .joining index ∧ next.phase = .awaiting := by
  cases step with
  | joined other done =>
      cases other.symm.trans joining
      cases done.symm.trans held
  | failed other done =>
      cases other.symm.trans joining
      cases done.symm.trans held
  | finishing other all =>
      cases other.symm.trans joining
      exact absurd (List.getElem?_eq_some_iff.mp held).1 (Nat.not_lt.mpr all)
  | flushed flushing => cases flushing.symm.trans joining
  | finished flushing => cases flushing.symm.trans joining
  | requested serving => cases serving.symm.trans awaiting
  | stopped stopping => cases stopping.symm.trans awaiting
  | unstopped _ stopping => cases stopping.symm.trans awaiting
  | allStopped stopping => cases stopping.symm.trans awaiting
  | answered _ returned => cases returned.symm.trans joining
  | _ => exact ⟨joining, awaiting⟩

/-- **A shutdown is blocked** while the main task waits for a held source: the server does not
return without another call. -/
theorem never_returned {item : Item} {rest : Nat → List Item}
    (winds : ReflTransGen (Winds executor host triggers) (state, backlog) (last, rest))
    (joining : state.main = .joining index) (awaiting : state.phase = .awaiting)
    (held : state.sources[index]? = some (.gated item)) (closed : ¬state.gate.Opens index) :
    last.main = .joining index ∧ last.phase = .awaiting := by
  generalize reached : (last, rest) = server at winds
  induction winds generalizing last rest with
  | refl =>
      cases reached
      exact ⟨joining, awaiting⟩
  | @tail middle _ before winds ih =>
      subst reached
      obtain ⟨event, step, -⟩ := winds.exists_step
      obtain ⟨main, phase⟩ := @ih middle.1 middle.2 rfl
      exact waits_step step main phase (held_forever before held closed).1

/-- **A shutdown completes** when the gate opens for every source it holds, and, while the
flag is raised, no stream of a source that goes on holds another item. It does not when the
gate stays closed for a source. -/
theorem shutdown_completes {registry : Registry} {hashOrder : HashOrder} {flow : FlowConfig}
    {ctx : BuildContext}
    (accepted : FlowGraph.Accepted registry hashOrder flow ctx executor.graph) {world : World}
    (run : Run executor host triggers (executor.serving world) moments state)
    (awaiting : state.phase = .awaiting) :
    (state.Passable backlog → state.Returns executor host triggers backlog) ∧
      (state.Returns executor host triggers backlog → ∀ (index : Nat) (item : Item),
        state.sources[index]? = some (.gated item) → state.gate.Opens index) := by
  have formed := accepted.wellFormed
  constructor
  · intro passable
    obtain ⟨freed, first, held⟩ := exists_freed (run.lively formed) awaiting passable
    obtain ⟨⟨last, rest⟩, second, kept, ended⟩ := held.exists_all_ended formed
    obtain ⟨outcome, world, third⟩ := exists_returned formed kept.lively ended
    have answered : Winds executor host triggers
        ({ last with main := .returned outcome, world := world }, rest) (_, rest) :=
      .server (.answered (.inr kept.awaiting) rfl) trivial
    exact ⟨_, rest, outcome, ((first.trans second).trans third).tail answered, rfl, ended⟩
  · rintro ⟨last, rest, outcome, winds, -, ended⟩ index item held
    by_contra closed
    obtain ⟨result, same⟩ :=
      ended _ (List.mem_of_getElem? (held_forever winds held closed).1)
    cases same

end Return

end Serving

namespace Sample

open Serving

/-- The graph of an http trigger in front of a sink. -/
def hookGraph : FlowGraph where
  name := "intake"
  nodes := ((∅ : BTreeMap Node).insert "hook"
    ⟨"hook", none, .fail, .source, [⟨"out", none⟩], 0, none⟩).insert "out"
      ⟨"out", none, .fail, .sink, [], 1, none⟩
  roots := ["hook"]

theorem hookGraph_built : FlowGraph.buildWithTriggers FlowGraph.Sample.registry
    FlowGraph.Sample.hashOrder FlowGraph.Sample.intake FlowGraph.Sample.ctx
      [FlowGraph.Sample.hook] = .ok hookGraph := rfl

/-- The executor of the http trigger, with a pause gate. -/
def hookExecutor : Executor := { executor hookGraph with pause := true }

/-- A served http trigger without a store. -/
def hookServer : Serving := hookExecutor.serving (.start none (fun _ => none) fun _ => [])

/-- An http trigger that is paused, and holds an item at the gate. -/
theorem exists_held : ∃ moments state,
    Run hookExecutor (host twoRecords) ["hook"] hookServer moments state ∧
    state.main = .joining 0 ∧ state.phase = .serving ∧ state.stopped = [] ∧
    state.sources = [.gated (.ok (record .null))] ∧ state.gate.paused = true ∧
    state.gate.waiters 0 = .waiting ∧ state.gate.setters 0 = .idle := by
  have root : hookExecutor.graph.roots[0]? = some "hook" := rfl
  have start : Run hookExecutor (host twoRecords) ["hook"] hookServer [] _ := .nil
  have opened := start.snoc (.opened root rfl rfl)
  have paused := opened.snoc (show Step _ _ _ _ (.gate (.store 0 true)) _ from .gate nofun rfl)
  have held := paused.snoc (show Step _ _ _ _ (.pulled 0 (.ok (record .null))) _ from
    .held _ rfl rfl rfl)
  have seen := held.snoc (show Step _ _ _ _ (.gate (.load 0)) _ from .gate nofun rfl)
  have waiting := seen.snoc (show Step _ _ _ _ (.gate (.register 0)) _ from .gate nofun rfl)
  exact ⟨_, _, waiting, rfl, rfl, rfl, rfl, rfl, rfl, rfl⟩

/-- **A paused server that is shut down never returns**: all its triggers are stopped, but its
source is held at the gate. -/
theorem hookServer_blocked :
    FlowGraph.buildWithTriggers FlowGraph.Sample.registry FlowGraph.Sample.hashOrder
        FlowGraph.Sample.intake FlowGraph.Sample.ctx [FlowGraph.Sample.hook] = .ok hookGraph ∧
      ∃ moments state, Run hookExecutor (host twoRecords) ["hook"] hookServer moments state ∧
        state.phase = .awaiting ∧ state.stopped = ["hook"] ∧
        ∀ backlog last rest outcome,
          ReflTransGen (Winds hookExecutor (host twoRecords) ["hook"]) (state, backlog)
            (last, rest) → last.phase ≠ .returned outcome := by
  obtain ⟨moments, state, run, main, phase, none_, sources, paused, waiting, -⟩ := exists_held
  have requested := run.snoc (.requested phase)
  have stopped := requested.snoc (.stopped rfl rfl)
  have awaiting := stopped.snoc (.allStopped rfl (Nat.le_refl 1))
  refine ⟨hookGraph_built, _, _, awaiting, rfl, congrArg (· ++ ["hook"]) none_, ?_⟩
  intro backlog last rest outcome winds returned
  have held : state.sources[0]? = some (.gated (.ok (record .null))) := by rw [sources]; rfl
  have closed : ¬state.gate.Opens 0 := by
    rintro (away | ⟨clear, -⟩)
    · cases waiting.symm.trans away
    · cases paused.symm.trans clear
  cases (never_returned winds main rfl held closed).2.symm.trans returned

/-- **A server that is resumed before it is shut down returns**, also with another item to
come. -/
theorem hookServer_returns : ∃ moments state,
    Run hookExecutor (host twoRecords) ["hook"] hookServer moments state ∧
    state.phase = .awaiting ∧ state.sources = [.gated (.ok (record .null))] ∧
    state.Returns hookExecutor (host twoRecords) ["hook"] fun _ => [.ok (record (.bool true))] := by
  obtain ⟨moments, state, run, main, phase, none_, sources, paused, waiting, idle⟩ := exists_held
  have resumed := run.snoc (show Step _ _ _ _ (.gate (.store 0 false)) _ from
    .gate nofun (if_pos idle))
  have requested := resumed.snoc (.requested phase)
  have stopped := requested.snoc (.stopped rfl rfl)
  have awaiting := stopped.snoc (.allStopped rfl (Nat.le_refl 1))
  have notifying : (PauseGate.setSetter 0 .notifying { state.gate with paused := false }).setters 0
      = .notifying := rfl
  exact ⟨_, _, awaiting, rfl, sources, (@shutdown_completes _ _ _ _ _ _ FlowGraph.Sample.registry
    FlowGraph.Sample.hashOrder FlowGraph.Sample.intake FlowGraph.Sample.ctx
    (.inr ⟨_, hookGraph_built⟩) _ awaiting rfl).1
      ⟨fun _ _ _ => .inr ⟨rfl, fun _ => .inr ⟨0, notifying⟩⟩, nofun⟩⟩

end Sample

end Sohara
