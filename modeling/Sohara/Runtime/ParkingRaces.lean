import Sohara.Async.Schedule
import Sohara.Runtime.Parking
import Sohara.Runtime.RunMeaning

/-! # Parking from concurrent sources

Parking loads a queue and saves it with one more record, in two separate accesses to
the store. A run of concurrent sources keeps every parked record exactly when no queue
is written between a load and the save that follows it; otherwise records are lost,
while the waiting counter counts every one of them.
-/

namespace Sohara

open Async Async.Program

namespace Parking

variable {key : String} {base : List Value} {steps : List (Occurrence Engine World)}
  {world : World} {states : List Parking} {host : Host}

/-- A queue during a run: complete as long as it is undisturbed, shorter than that
afterwards, and known to every task that has loaded it since the last write. -/
structure QueueHolds (key : String) (base : List Value) (steps : List (Occurrence Engine World))
    (world : World) (states : List Parking) : Prop where
  complete : Undisturbed key steps → world.queue key = base ++ parkedAt (· = key) steps
  bounded : (world.queue key).length ≤ base.length + (parkedAt (· = key) steps).length
  lossy : ¬ Undisturbed key steps →
    (world.queue key).length < base.length + (parkedAt (· = key) steps).length
  current : ∀ (index : Nat) (stored : Option Value),
      states[index]? = some (Parking.loaded key stored) →
    UpToDate key index steps → Executor.queued stored = world.queue key
  loadedBounded : ∀ (index : Nat) (stored : Option Value),
      states[index]? = some (Parking.loaded key stored) →
    (Executor.queued stored).length ≤ base.length + (parkedAt (· = key) steps).length
  loadedLossy : ∀ (index : Nat) (stored : Option Value),
      states[index]? = some (Parking.loaded key stored) →
    ¬ (Undisturbed key steps ∧ UpToDate key index steps) →
      (Executor.queued stored).length < base.length + (parkedAt (· = key) steps).length

/-- Operations other than writes under the key keep it. -/
theorem QueueHolds.other (holds : QueueHolds key base steps world states) {index : Nat} {op : Op}
    {after : World} {state : Parking} (silent : Op.writes key op = false)
    (same : after.queue key = world.queue key)
    (loads : ∀ stored, state = .loaded key stored →
      Op.loads key op = true ∧ Executor.queued stored = world.queue key) :
    QueueHolds key base (steps ++ [⟨index, world, op⟩]) after (states.set index state) := by
  have parks : parkedAt (· = key) [⟨index, world, op⟩] = [] := by
    refine parkedAt_of_not_writes fun other writes => ?_
    rw [decide_eq_false_iff_not]
    rintro rfl
    rw [silent] at writes
    cases writes
  have undisturbed : Undisturbed key (steps ++ [⟨index, world, op⟩]) ↔ Undisturbed key steps := by
    rw [undisturbed_snoc]
    exact and_iff_left fun writes => absurd (writes.symm.trans silent) (by simp)
  have chosen : ∀ other stored,
      (states.set index state)[other]? = some (Parking.loaded key stored) →
      (other = index ∧ state = .loaded key stored) ∨
        other ≠ index ∧ states[other]? = some (Parking.loaded key stored) := by
    intro other stored selected
    by_cases equal : other = index
    · subst equal
      rw [List.getElem?_set_self'] at selected
      obtain ⟨_, -, is⟩ := Option.map_eq_some_iff.mp selected
      exact .inl ⟨rfl, is⟩
    · rw [List.getElem?_set_ne (Ne.symm equal)] at selected
      exact .inr ⟨equal, selected⟩
  constructor
  · intro clean
    rw [same, parkedAt_snoc, parks, List.append_nil]
    exact holds.complete (undisturbed.mp clean)
  · rw [same, parkedAt_snoc, parks, List.append_nil]
    exact holds.bounded
  · intro disturbed
    rw [same, parkedAt_snoc, parks, List.append_nil]
    exact holds.lossy (undisturbed.not.mp disturbed)
  · intro other stored selected fresh
    rw [same]
    rcases chosen other stored selected with ⟨rfl, rfl⟩ | ⟨different, old⟩
    · exact (loads stored rfl).2
    · rcases upToDate_snoc.mp fresh with ⟨own, -⟩ | ⟨earlier, -⟩
      · exact absurd own.symm different
      · exact holds.current other stored old earlier
  · intro other stored selected
    rw [parkedAt_snoc, parks, List.append_nil]
    rcases chosen other stored selected with ⟨rfl, rfl⟩ | ⟨-, old⟩
    · rw [(loads stored rfl).2]
      exact holds.bounded
    · exact holds.loadedBounded other stored old
  · intro other stored selected stale
    rw [parkedAt_snoc, parks, List.append_nil]
    rcases chosen other stored selected with ⟨rfl, rfl⟩ | ⟨-, old⟩
    · rw [(loads stored rfl).2]
      refine holds.lossy fun clean => stale ⟨undisturbed.mpr clean, ?_⟩
      exact upToDate_snoc.mpr (.inl ⟨rfl, (loads stored rfl).1⟩)
    · refine holds.loadedLossy other stored old fun fresh => stale ⟨undisturbed.mpr fresh.1, ?_⟩
      exact upToDate_snoc.mpr (.inr ⟨fresh.2, silent⟩)

/-- Parking one more record keeps it. -/
theorem QueueHolds.park (holds : QueueHolds key base steps world states) {index : Nat}
    {stored : Option Value} {item : Value} {after : World}
    (loaded : states[index]? = some (Parking.loaded key stored))
    (saved : after.queue key = Executor.queued stored ++ [item]) :
    QueueHolds key base
      (steps ++ [⟨index, world, .save key (.array (Executor.queued stored ++ [item]))⟩]) after
      (states.set index .parked) := by
  have parks : parkedAt (· = key) (steps ++
      [⟨index, world, .save key (.array (Executor.queued stored ++ [item]))⟩]) =
        parkedAt (· = key) steps ++ [item] := by
    rw [parkedAt_snoc, parkedAt_save, if_pos (decide_eq_true rfl)]
  have writes : Op.writes key (.save key (.array (Executor.queued stored ++ [item]))) = true :=
    decide_eq_true rfl
  have bound := holds.loadedBounded index stored loaded
  have chosen : ∀ (other : Nat) kept,
      (states.set index .parked)[other]? = some (Parking.loaded key kept) →
      states[other]? = some (Parking.loaded key kept) := by
    intro other kept selected
    by_cases equal : other = index
    · subst equal
      rw [List.getElem?_set_self'] at selected
      obtain ⟨_, -, is⟩ := Option.map_eq_some_iff.mp selected
      cases is
    · rwa [List.getElem?_set_ne (Ne.symm equal)] at selected
  constructor
  · intro clean
    obtain ⟨earlier, last⟩ := undisturbed_snoc.mp clean
    rw [saved, parks, holds.current index stored loaded (last writes), holds.complete earlier,
      List.append_assoc]
  · rw [saved, parks, List.length_append, List.length_append]
    simp only [List.length_singleton]
    omega
  · intro disturbed
    rw [saved, parks, List.length_append, List.length_append]
    simp only [List.length_singleton]
    -- the queue that was loaded is older than the stored one, or already lossy
    have short := holds.loadedLossy index stored loaded fun fresh =>
      disturbed (undisturbed_snoc.mpr ⟨fresh.1, fun _ => fresh.2⟩)
    omega
  · intro other kept selected fresh
    rcases upToDate_snoc.mp fresh with ⟨-, loads⟩ | ⟨-, silent⟩
    · cases loads
    · rw [writes] at silent
      cases silent
  · intro other kept selected
    have := holds.loadedBounded other kept (chosen other kept selected)
    rw [parks, List.length_append]
    omega
  · intro other kept selected _
    have := holds.loadedBounded other kept (chosen other kept selected)
    rw [parks, List.length_append]
    simp only [List.length_singleton]
    omega

section Steps

variable {flow : String}

/-- The whole store and the waiting counter during a run. -/
structure Holds (flow : String) (initial : World) (steps : List (Occurrence Engine World))
    (world : World) (states : List Parking) : Prop where
  stored : world.store.isSome = true
  waiting : world.counters .waiting + (states.map owed).sum =
    initial.counters .waiting + (parkedAt (isQueueKey flow) steps).length
  queues : ∀ key, isQueueKey flow key = true →
    QueueHolds key (initial.queue key) steps world states

/-- Nothing has happened, and nobody is in the middle of anything. -/
theorem Holds.initial {tasks : List Parking} (stored : world.store.isSome = true)
    (resting : ∀ state ∈ tasks, state = .idle) : Holds flow world [] world tasks := by
  have unloaded : ∀ {key : String} {index : Nat} {stored : Option Value},
      tasks[index]? ≠ some (Parking.loaded key stored) := fun selected =>
    nomatch resting _ (List.mem_of_getElem? selected)
  refine ⟨stored, ?_, fun key _ => ?_⟩
  · rw [List.sum_eq_zero fun weight member => ?_]
    · rfl
    · obtain ⟨state, inside, rfl⟩ := List.mem_map.mp member
      rw [resting state inside]
      rfl
  · have base : parkedAt (· = key) ([] : List (Occurrence Engine World)) = [] := rfl
    constructor
    · rw [base, List.append_nil]
      exact fun _ => rfl
    · exact Nat.le_add_right _ _
    · exact fun disturbed => absurd undisturbed_nil disturbed
    · exact fun index stored selected => absurd selected unloaded
    · exact fun index stored selected => absurd selected unloaded
    · exact fun index stored selected => absurd selected unloaded

/-- **Step of the parking protocol.** -/
theorem Holds.step {initial : World} (persists : ∀ time, host.persist time = .ok ())
    (holds : Holds flow initial steps world states) {index : Nat} {state : Parking} {op : Op}
    (current : states[index]? = some state) (permitted : Permits flow false state op) :
    Admits op (World.perform host world op).1 ∧
      Holds flow initial (steps ++ [⟨index, world, op⟩]) (World.perform host world op).2
        (states.set index (advance flow state op (World.perform host world op).1)) := by
  have kept : (World.perform host world op).2.store.isSome = true := by
    rw [World.perform_store, Option.isSome_map]
    exact holds.stored
  refine ⟨?_, ?_⟩
  · cases op with
    | hasStore => exact holds.stored
    | _ => trivial
  obtain ⟨others, sum, replace⟩ := Config.sum_set owed current
  have waiting := holds.waiting
  cases state with
  | idle =>
      have silent : ∀ key, isQueueKey flow key = true → Op.writes key op = false :=
        fun key isQueue => not_writes_of_idle permitted isQueue
      have next := advance_idle flow host world op
      have idle : owed (advance flow .idle op (World.perform host world op).1) = 0 := by
        rcases next with resting | ⟨key, -, loaded⟩
        · rw [resting]
          rfl
        · rw [loaded]
          rfl
      have uncounted : World.counted op .waiting = 0 := by
        cases op with
        | count counter => cases counter <;> first | rfl | exact permitted.elim
        | _ => rfl
      have unparked : parkedAt (isQueueKey flow) [⟨index, world, op⟩] = [] :=
        parkedAt_of_not_writes fun key writes => by
          cases isQueue : isQueueKey flow key with
          | false => rfl
          | true => exact nomatch (silent key isQueue).symm.trans writes
      refine ⟨kept, ?_, fun key isQueue => ?_⟩
      · rw [World.perform_counters, uncounted, replace, idle, parkedAt_snoc, unparked,
          List.append_nil, ← waiting, sum]
        rfl
      · refine (holds.queues key isQueue).other (silent key isQueue)
          (World.queue_perform (silent key isQueue)) fun stored after => ?_
        rcases next with resting | ⟨name, rfl, loaded⟩
        · exact nomatch resting.symm.trans after
        · cases loaded.symm.trans after
          exact ⟨decide_eq_true rfl, rfl⟩
  | loaded key stored =>
      obtain ⟨isQueue, ⟨item, rfl⟩ | ⟨impossible, -⟩⟩ := permitted
      · have next : advance flow (.loaded key stored)
            (.save key (.array (Executor.queued stored ++ [item])))
            (World.perform host world
              (.save key (.array (Executor.queued stored ++ [item])))).1 = .parked := by
          rw [World.perform_save_fst host world persists]
          rfl
        have added : (parkedAt (isQueueKey flow) (steps ++ [⟨index, world,
            .save key (.array (Executor.queued stored ++ [item]))⟩])).length =
              (parkedAt (isQueueKey flow) steps).length + 1 := by
          rw [parkedAt_snoc, parkedAt_save, if_pos isQueue, List.length_append]
          rfl
        rw [next]
        refine ⟨kept, ?_, fun other otherQueue => ?_⟩
        · rw [World.perform_counters, replace, added]
          rw [sum] at waiting
          simp only [owed, World.counted] at waiting ⊢
          omega
        · by_cases same : key = other
          · subst same
            exact (holds.queues key isQueue).park current (World.queue_save _ _ _ holds.stored)
          · refine (holds.queues other otherQueue).other (decide_eq_false same)
              (World.queue_perform (decide_eq_false same)) fun _ after => ?_
            cases after
      · cases impossible
  | parked =>
      obtain rfl : op = .count .waiting := permitted
      refine ⟨kept, ?_, fun key isQueue => ?_⟩
      · have unparked : parkedAt (isQueueKey flow) [⟨index, world, .count .waiting⟩] = [] := rfl
        rw [World.perform_counters, replace, parkedAt_snoc, unparked, List.append_nil, ← waiting,
          sum]
        show _ + 1 + (0 + others) = _ + (1 + others)
        omega
      · refine (holds.queues key isQueue).other rfl (World.queue_perform rfl) fun _ after => ?_
        cases after

end Steps

end Parking

/-- **Parking under interleaving.** When all sources of a run have finished, the waiting
counter has counted every parked record; a queue has kept all of them exactly when no
park has written it between the load and the save of another. -/
theorem queue_complete_iff (executor : Executor) (plain : PlainId executor.flowName executor.runId)
    (host : Host)
    (persists : ∀ time, host.persist time = .ok ()) (world : World)
    (stored : world.store.isSome = true) {steps : List (Occurrence Engine World)}
    {config : Config Engine World}
    (run : Config.Run (S := Engine) walkCall (fun _ => World.perform host) (fun _ _ => False)
      ⟨world, executor.sourceTasks⟩ steps config)
    (finished : ∀ task ∈ config.tasks, task.outcome? ≠ none) :
    config.world.counters .waiting = world.counters .waiting +
        (parkedAt (isQueueKey executor.flowName) steps).length ∧
      ∀ gate, ((config.world.queue (executor.approveKey gate)).Perm
            (world.queue (executor.approveKey gate) ++
              parkedAt (· = executor.approveKey gate) steps) ↔
          Undisturbed (executor.approveKey gate) steps) ∧
        (parkedAt (isQueueKey executor.flowName) steps =
            parkedAt (· = executor.approveKey gate) steps →
          ((config.world.queue (executor.approveKey gate)).length + world.counters .waiting =
              (world.queue (executor.approveKey gate)).length + config.world.counters .waiting ↔
            Undisturbed (executor.approveKey gate) steps)) := by
  have start : Config.Follows (Parking.protocol executor.flowName false) Parking.Admits
      (InFlow executor.flowName) ⟨world, executor.sourceTasks⟩
      (executor.graph.roots.map fun _ => Parking.idle) := by
    refine List.forall₂_map_left_iff.mpr (List.forall₂_map_right_iff.mpr ?_)
    exact List.forall₂_same.mpr fun root _ => ⟨trivial, Executor.parks_runSource plain root⟩
  have initial : Parking.Holds executor.flowName world [] world
      (executor.graph.roots.map fun _ => Parking.idle) :=
    .initial stored fun state member => (List.mem_map.mp member).choose_spec.2.symm
  obtain ⟨states, follows, holds⟩ := start.run (Parking.Holds executor.flowName world)
    Executor.parks_walkCall
    (fun steps world states index state op holds current permitted =>
      Parking.Holds.step persists holds current permitted)
    (fun _ _ _ _ _ never => never.elim) initial run
  have resting := follows.finished finished
  have waiting : config.world.counters .waiting = world.counters .waiting +
      (parkedAt (isQueueKey executor.flowName) steps).length := by
    have settled : (states.map Parking.owed).sum = 0 := by
      refine List.sum_eq_zero fun weight member => ?_
      obtain ⟨state, inside, rfl⟩ := List.mem_map.mp member
      rw [resting state inside]
      rfl
    have counted := holds.waiting
    rwa [settled, Nat.add_zero] at counted
  refine ⟨waiting, fun gate => ?_⟩
  have queue := holds.queues _ (Executor.isQueueKey_approveKey _ gate)
  have counts : (config.world.queue (executor.approveKey gate)).length =
      (world.queue (executor.approveKey gate)).length +
        (parkedAt (· = executor.approveKey gate) steps).length ↔
      Undisturbed (executor.approveKey gate) steps := by
    refine ⟨fun same => ?_, fun clean => ?_⟩
    · by_contra disturbed
      exact absurd same (Nat.ne_of_lt (queue.lossy disturbed))
    · rw [queue.complete clean, List.length_append]
  refine ⟨⟨fun kept => counts.mp ?_, fun clean => ?_⟩, fun only => ?_⟩
  · rw [kept.length_eq, List.length_append]
  · rw [queue.complete clean]
  · rw [← counts, waiting, only]
    omega

namespace Sample

/-- Components that also provide approve steps. -/
def gateRegistry : Registry :=
  { FlowGraph.Sample.registry with
    build := fun kind type config ctx =>
      match kind, type with
      | .control, "approve" => .ok (.control (.approve "approval"))
      | _, _ => FlowGraph.Sample.registry.build kind type config ctx }

/-- Two sources in front of one approve step, and a sink behind it. -/
def gateFlow : FlowConfig :=
  { FlowGraph.Sample.intake with
    triggers := []
    steps := [FlowGraph.Sample.source "a", FlowGraph.Sample.source "b",
      FlowGraph.Sample.step "gate" .control "approve", FlowGraph.Sample.sink "out"]
    edges := [.pair "a" "gate", .pair "b" "gate", .pair "gate" "out"] }

/-- The graph of the two sources. -/
def gateGraph : FlowGraph where
  name := "intake"
  nodes := ((((∅ : BTreeMap Node).insert "a"
    ⟨"a", none, .fail, .source, [⟨"gate", none⟩], 0, none⟩).insert "b"
      ⟨"b", none, .fail, .source, [⟨"gate", none⟩], 0, none⟩).insert "gate"
        ⟨"gate", none, .fail, .control (.approve "approval"), [⟨"out", none⟩], 2, none⟩).insert
          "out" ⟨"out", none, .fail, .sink, [], 1, none⟩
  roots := ["a", "b"]

/-- One record from each source, named after it. -/
def oneRecord (source : String) : Except Error (List Item) := .ok [.ok (record (.string source))]

/-- A process with an empty store. -/
def emptyStore : World := .start (some fun _ => none) (fun _ => none) fun _ => []

/-- Both sources load the empty queue before either of them saves it. -/
def racing : List (Occurrence Engine World) × Config Engine World :=
  Config.play (S := Engine) walkCall (fun _ => World.perform (host oneRecord))
    ⟨emptyStore, (executor gateGraph).sourceTasks⟩
    (List.replicate 8 0 ++ List.replicate 8 1 ++ List.replicate 9 0 ++ List.replicate 9 1)

theorem racing_run : Config.Run (S := Engine) walkCall (fun _ => World.perform (host oneRecord))
    (fun _ _ => False) ⟨emptyStore, (executor gateGraph).sourceTasks⟩ racing.1 racing.2 :=
  Config.run_play _ _

/-- Two sources have parked a record each, and the queue holds one of them. -/
theorem racing_loses :
    FlowGraph.build gateRegistry FlowGraph.Sample.hashOrder gateFlow FlowGraph.Sample.ctx =
        .ok gateGraph ∧
      ∃ steps config, Config.Run (S := Engine) walkCall
          (fun _ => World.perform (host oneRecord)) (fun _ _ => False)
          ⟨emptyStore, (executor gateGraph).sourceTasks⟩ steps config ∧
        (config.tasks.all fun task => task.outcome?.isSome) = true ∧
        config.world.counters .waiting = 2 ∧
        config.world.queue ((executor gateGraph).approveKey "gate") = [.string "b"] :=
  ⟨rfl, racing.1, racing.2, racing_run, rfl, rfl, rfl⟩

theorem plainId : PlainId "intake" "run" := ⟨by decide, by decide⟩

/-- The queue has been written between a load and the save that follows it. -/
theorem racing_disturbed :
    ¬ Undisturbed ((executor gateGraph).approveKey "gate") racing.1 := by
  have finished : (racing.2.tasks.all fun task => task.outcome?.isSome) = true := rfl
  have counted := queue_complete_iff (executor gateGraph) plainId (host oneRecord)
    (fun _ => rfl) emptyStore rfl racing_run fun task member => by
      rw [← Option.isSome_iff_ne_none]
      exact List.all_eq_true.mp finished task member
  intro clean
  have length := (((counted.2 "gate").2 rfl).mpr clean :)
  exact absurd length (by decide)

end Sample

end Sohara
