import Sohara.Async.Amid
import Sohara.Runtime.BatchDrain

/-! # What enters a batch leaves it

Arrivals take a batch when its size or its window is reached, and the final flush takes what
is left. Whatever the tasks and the clock do in between, the batches taken out of a buffer are
the arrivals in their order, and no batch outgrows its size.
-/

namespace Sohara

open Async Async.Program

/-- Arrivals at a batch come with its size and its window. -/
def Op.ArrivesBy (id : String) (size : Option Nat) (within : Option Duration) : Op → Prop
  | .batchArrive other size' within' _ => other = id → size' = size ∧ within' = within
  | _ => True

section Law

/-- A batch that is not empty and within its size. -/
def Fits (size : Option Nat) (records : List Record) : Prop :=
  records ≠ [] ∧ ∀ limit, size = some limit → records.length ≤ max limit 1

/-- The last operation on the buffer of a batch takes it. -/
def Flushed (id : String) (steps : List (Occurrence Engine World)) : Prop :=
  ∃ step, (steps.filter fun step => step.op.touches id).getLast? = some step ∧
    step.op.takes id = true

/-- **A batch conserves its records.** What has been taken out of the buffer is what has
entered it, in this order; the batches fit, nothing is emitted but batches that have been
taken, and when all tasks have ended, all of them. -/
structure Conserves (host : Host) (id : String) (size : Option Nat)
    (steps : List (Occurrence Engine World)) (config : Config Engine World) : Prop where
  order : (batchesOf id (takenBatches host steps)).flatten = entries id steps
  fits : ∀ batch ∈ batchesOf id (takenBatches host steps), Fits size batch
  filled : ∀ batch ∈ takenBatches host steps, batch.2 ≠ []
  emitted : (emissions steps : Multiset Value) ≤ payloads (takenBatches host steps)
  all : (∀ task ∈ config.tasks, task.outcome? ≠ none) →
    (emissions steps).Perm (payloads (takenBatches host steps))

end Law

section Visits

variable (executor : Executor) (host : Host) (rely : World → World → Prop) (node : Node)

/-- A batch is made into one record, which is routed once. -/
inductive EmitsOnce (batch : List Record) : List (Act Engine) → Outcome → World → Prop where
  | routes {made : Record} {routed : List (Act Engine)} {between after : World} {outcome : Outcome}
      (payload : made.payload = batchPayload batch)
      (routes : (executor.route made node).Amid (World.perform host) rely between routed outcome
        after) :
      EmitsOnce batch (.performed (.newRecord (batchPayload batch)) made :: routed) outcome after

/-- What the execution of a batch does with one record: it arrives once, and the batch that its
arrival finds due is emitted at once. -/
inductive Gathers (size : Option Nat) (within : Option Duration) (record : Record)
    (acts : List (Act Engine)) (outcome : Outcome) (after : World) : Prop where
  | holds (same : acts = [.performed (.batchArrive node.id size within record) none])
      (done : outcome = .ok ()) : Gathers size within record acts outcome after
  | emits {batch : List Record} {emitting : List (Act Engine)}
      (same : acts = .performed (.batchArrive node.id size within record) (some batch) :: emitting)
      (emits : EmitsOnce executor host rely node batch emitting outcome after) :
      Gathers size within record acts outcome after

/-- What the final flush does with the listed batches: each is taken once, and what it has held is
emitted at once, up to the first failure. -/
inductive Drains : List String → List (Act Engine) → Outcome → Prop where
  | nil : Drains [] [] (.ok ())
  | empty {id : String} {ids : List String} {acts : List (Act Engine)} {outcome : Outcome}
      (rest : Drains ids acts outcome) :
      Drains (id :: ids) (.performed (.takeBatch id) ([] : List Record) :: acts) outcome
  | emits {id : String} {ids : List String} {node : Node} {first : Record} {more : List Record}
      {emitting acts : List (Act Engine)} {outcome : Outcome} {between : World}
      (found : executor.graph.node id = some node)
      (emits : EmitsOnce executor host rely node (first :: more) emitting (.ok ()) between)
      (rest : Drains ids acts outcome) :
      Drains (id :: ids) (.performed (.takeBatch id) (first :: more) :: (emitting ++ acts)) outcome
  | fails {id : String} {ids : List String} {node : Node} {first : Record} {more : List Record}
      {emitting : List (Act Engine)} {failure : Error} {between : World}
      (found : executor.graph.node id = some node)
      (emits : EmitsOnce executor host rely node (first :: more) emitting (.error failure) between) :
      Drains (id :: ids) (.performed (.takeBatch id) (first :: more) :: emitting) (.error failure)

variable {executor host rely node} {size : Option Nat} {within : Option Duration} {record : Record}
  {world after : World} {acts : List (Act Engine)} {outcome : Outcome}

theorem emitsOnce_of_amid {batch : List Record}
    (amid : (executor.emitBatch node batch).Amid (World.perform host) rely world acts outcome
      after) : EmitsOnce executor host rely node batch acts outcome after := by
  obtain ⟨between, routed, -, rfl, routes⟩ := amid.of_op_bind
  exact .routes rfl routes

/-- **One execution of a batch.** -/
theorem gathers_of_amid (isBatch : executor.isBatch node.id = true)
    (amid : (executor.applyBatch node size within record).Amid (World.perform host) rely world acts
      outcome after) :
    Gathers executor host rely node size within record acts outcome after := by
  unfold Executor.applyBatch at amid
  rw [if_pos isBatch] at amid
  obtain ⟨arrival, emitting, response, between, rfl, arrived, continued⟩ := amid.of_bind
  obtain ⟨found, -, -, rfl, -⟩ := arrived.of_op
  cases response with
  | none =>
      obtain ⟨rfl, rfl, -⟩ := continued.of_done
      exact .holds rfl rfl
  | some batch => exact .emits rfl (emitsOnce_of_amid continued)

/-- **One execution of the final flush.** -/
theorem drains_of_amid {ids : List String}
    (known : ∀ id ∈ ids, ∃ node, executor.graph.node id = some node)
    (amid : (executor.flushBatches ids).Amid (World.perform host) rely world acts outcome after) :
    Drains executor host rely ids acts outcome := by
  induction ids generalizing world acts with
  | nil =>
      obtain ⟨rfl, rfl, -⟩ := amid.of_done
      exact .nil
  | cons id ids ih =>
      have others := fun other member => known other (List.mem_cons_of_mem _ member)
      obtain ⟨node, found⟩ := known id List.mem_cons_self
      obtain ⟨taking, rest, records, between, rfl, taken, continued⟩ := amid.of_bind
      obtain ⟨full, -, -, rfl, -⟩ := taken.of_op
      rw [found] at continued
      rw [List.singleton_append]
      cases records with
      | nil => exact .empty (ih others continued)
      | cons first more =>
          rcases continued.of_andThen with ⟨failure, rfl, fails⟩ |
            ⟨earlier, later, between, rfl, emitted, continued⟩
          · exact .fails found (emitsOnce_of_amid fails)
          · exact .emits found (emitsOnce_of_amid emitted) (ih others continued)

end Visits

section Bounds

variable {host : Host} {world after : World} {id : String} {size : Option Nat}
  {within : Option Duration} {op : Op} {steps : List (Occurrence Engine World)}

/-- The batch holds fewer records than its size. -/
def World.HasRoom (world : World) (id : String) (size : Option Nat) : Prop :=
  ∀ limit, size = some limit → (world.collected id).length < max limit 1

theorem World.hasRoom_of_empty (empty : world.collected id = []) : world.HasRoom id size := by
  intro limit _
  rw [empty]
  exact Nat.lt_of_lt_of_le Nat.zero_lt_one (Nat.le_max_right limit 1)

/-- What is taken out of any buffer is not empty. -/
theorem ne_nil_of_taken {batch : String × List Record}
    (taken : op.taken host world = some batch) : batch.2 ≠ [] := by
  cases op with
  | batchArrive other size within record =>
      rw [taken_batchArrive] at taken
      split at taken
      · cases taken
        exact List.append_ne_nil_of_right_ne_nil _ (List.cons_ne_nil _ _)
      · cases taken
  | takeBatch other =>
      rw [taken_takeBatch] at taken
      split at taken
      · cases taken
      · next filled =>
          cases taken
          exact filled
  | _ => cases taken

variable (host) in
/-- Step of a batch: what is taken fits, and there is room again. -/
theorem World.HasRoom.perform (room : world.HasRoom id size)
    (arrives : op.ArrivesBy id size within) :
    (World.perform host world op).2.HasRoom id size ∧
      ∀ batch ∈ batchesOf id (op.taken host world).toList, Fits size batch := by
  have kept : op.enters id = false → op.takes id = false →
      (World.perform host world op).2.HasRoom id size := by
    intro quiet left limit same
    rw [collected_perform quiet left]
    exact room limit same
  have untaken : op.taken host world = none →
      ∀ batch ∈ batchesOf id (op.taken host world).toList, Fits size batch := by
    intro nothing batch member
    rw [nothing] at member
    cases member
  cases op with
  | batchArrive other size' within' record =>
      by_cases same : other = id
      · subst same
        obtain ⟨same, -⟩ := arrives rfl
        subst same
        have enters : (Op.batchArrive other size' within' record).enters other = true :=
          decide_eq_true rfl
        rw [taken_batchArrive]
        by_cases due : (Op.batchArrive other size' within' record).findsDue host world = true
        · have empty : (World.perform host world
              (.batchArrive other size' within' record)).2.collected other = [] := by
            rw [collected_of_enters enters, if_pos due]
          refine ⟨World.hasRoom_of_empty empty, fun batch member => ?_⟩
          rw [if_pos due] at member
          obtain rfl : batch = world.collected other ++ [record] := by
            simpa [batchesOf] using member
          refine ⟨List.append_ne_nil_of_right_ne_nil _ (List.cons_ne_nil _ _),
            fun limit same => ?_⟩
          rw [List.length_append, List.length_singleton]
          exact room limit same
        · refine ⟨fun limit same => ?_, fun batch member => ?_⟩
          · rw [collected_of_enters enters, if_neg due]
            have brought : (Op.batchArrive other size' within' record).entering other =
                [record] := if_pos rfl
            rw [brought]
            have early : ¬limit ≤ (world.collected other ++ [record]).length := by
              intro full
              refine due (Bool.or_eq_true_iff.mpr (.inl ?_))
              rw [same]
              exact decide_eq_true full
            exact Nat.lt_of_lt_of_le (Nat.lt_of_not_le early) (Nat.le_max_left limit 1)
          · rw [if_neg due] at member
            cases member
      · refine ⟨kept (decide_eq_false same) rfl, fun batch member => ?_⟩
        rw [taken_batchArrive] at member
        split at member <;> simp [batchesOf, same] at member
  | takeBatch other =>
      by_cases same : other = id
      · subst same
        have takes : (Op.takeBatch other).takes other = true := decide_eq_true rfl
        refine ⟨World.hasRoom_of_empty (collected_of_takes takes), fun batch member => ?_⟩
        rw [taken_takeBatch] at member
        split at member
        · cases member
        · next filled =>
            obtain rfl : batch = world.collected other := by simpa [batchesOf] using member
            exact ⟨filled, fun limit same => Nat.le_of_lt (room limit same)⟩
      · refine ⟨kept rfl (decide_eq_false same), fun batch member => ?_⟩
        rw [taken_takeBatch] at member
        split at member <;> simp [batchesOf, same] at member
  | _ => exact ⟨kept rfl rfl, untaken rfl⟩

/-- **No batch outgrows its size**, whatever happens in between. -/
theorem fits_of_history (history : History (World.perform host) world steps after)
    (arrives : Permitted (Op.ArrivesBy id size within) steps) (room : world.HasRoom id size) :
    after.HasRoom id size ∧ ∀ batch ∈ batchesOf id (takenBatches host steps), Fits size batch := by
  induction history with
  | nil => exact ⟨room, fun _ member => nomatch member⟩
  | @snoc steps between earlier task op ih =>
      obtain ⟨roomBetween, before⟩ :=
        ih fun step member => arrives step (List.mem_append_left _ member)
      have last : op.ArrivesBy id size within :=
        arrives _ (List.mem_append_right _ List.mem_cons_self)
      obtain ⟨roomAfter, now⟩ := roomBetween.perform host last
      refine ⟨roomAfter, fun batch member => ?_⟩
      rw [takenBatches_snoc] at member
      unfold batchesOf at member
      rw [List.filter_append, List.map_append, List.mem_append] at member
      exact member.elim (before batch) (now batch)

/-- After the final flush the buffer is empty. -/
theorem collected_of_flushed (history : History (World.perform host) world steps after)
    (flushed : Flushed id steps) : after.collected id = [] := by
  induction history with
  | nil =>
      obtain ⟨step, last, -⟩ := flushed
      cases last
  | @snoc steps between earlier task op ih =>
      obtain ⟨step, last, takes⟩ := flushed
      rw [List.filter_append] at last
      cases touches : op.touches id with
      | true =>
          simp only [List.filter_cons, List.filter_nil, touches, if_true,
            List.getLast?_concat] at last
          cases last
          exact collected_of_takes takes
      | false =>
          simp only [List.filter_cons, List.filter_nil, touches, Bool.false_eq_true, if_false,
            List.append_nil] at last
          obtain ⟨quiet, left⟩ := Bool.or_eq_false_iff.mp touches
          rw [collected_perform quiet left]
          exact ih ⟨step, last, takes⟩

end Bounds

section Runs

variable {registry : Registry} {hashOrder : HashOrder} {flow : FlowConfig} {ctx : BuildContext}
  {executor : Executor} {host : Host} {world : World} {id : String} {node : Node}
  {size : Option Nat} {within : Option Duration} {walks : List Call}
  {steps : List (Occurrence Engine World)} {config : Config Engine World}

namespace Executor

theorem isBatch_of_step (found : executor.graph.node id = some node)
    (isBatch : node.step = .control (.batch size within)) : executor.isBatch id = true := by
  unfold Executor.isBatch
  rw [found]
  obtain ⟨_, _, _, step, _, _, _⟩ := node
  cases isBatch
  rfl

theorem allows_arriving {other : Node} (settings : ∀ size' within',
    other.step = .control (.batch size' within') → other.id = id →
      size' = size ∧ within' = within) :
    executor.Allows (Op.ArrivesBy id size within) other where
  quiet op quiet := by
    cases op with
    | batchArrive _ _ _ _ => exact quiet.elim
    | _ => trivial
  state _ _ := trivial
  send _ _ := trivial
  lookup _ _ := trivial
  marker _ _ := trivial
  queue _ _ := trivial
  park _ _ _ := trivial
  wait _ _ := trivial
  join _ _ _ _ _ _ _ := trivial
  update _ _ := trivial
  collect size' within' isBatch _ := settings size' within' isBatch
  merge _ := trivial
  emit _ _ := trivial

/-- Every arrival of a run comes with the settings of its node. -/
theorem RunBeside.arrives (formed : executor.graph.WellFormed)
    (found : executor.graph.node id = some node)
    (isBatch : node.step = .control (.batch size within))
    (known : ∀ call ∈ walks, executor.Known call)
    (run : executor.RunBeside walks host world steps config) :
    History (World.perform host) world steps config.world ∧
      Permitted (Op.ArrivesBy id size within) steps := by
  refine run.history formed (allows_arriving fun _ _ same => nomatch same)
    (fun {name other} present => allows_arriving fun size' within' same named => ?_)
    (fun _ _ => trivial) (fun _ _ => trivial) (fun _ => trivial) known
  have here : name = id := (formed.named present).symm.trans named
  rw [here] at present
  cases present.symm.trans found
  cases same.symm.trans isBatch
  exact ⟨rfl, rfl⟩

end Executor

/-- **Batches conserve what enters them.** In every run of an accepted graph, beside any number
of other walks, with any clock and in any order, when the final flush is the last to touch the
buffer of a batch. And every execution of the batch, whatever happens in between, arrives once
and emits what its arrival takes, as the final flush does with what it takes. -/
theorem batch_conserves
    (accepted : FlowGraph.Accepted registry hashOrder flow ctx executor.graph)
    (found : executor.graph.node id = some node)
    (isBatch : node.step = .control (.batch size within)) :
    (∀ {walks steps config}, (∀ call ∈ walks, executor.Known call) → world.collected id = [] →
      executor.RunBeside walks host world steps config → Flushed id steps →
        Conserves host id size steps config) ∧
      (∀ {rely world record acts outcome after},
        (executor.applyBatch node size within record).Amid (World.perform host) rely world acts
            outcome after →
          Gathers executor host rely node size within record acts outcome after) ∧
      id ∈ executor.batches ∧
      ∀ {rely world acts outcome after},
        (executor.flushBatches executor.batches).Amid (World.perform host) rely world acts outcome
            after → Drains executor host rely executor.batches acts outcome := by
  have formed := accepted.wellFormed
  have buffered : executor.isBatch id = true := Executor.isBatch_of_step found isBatch
  refine ⟨fun known empty run flushed => ?_, fun amid => ?_, ?_, fun amid => ?_⟩
  · obtain ⟨history, arrives⟩ := run.arrives formed found isBatch known
    have emits : ∀ program ∈ _ ++ executor.programs, executor.Emits program :=
      Executor.forall_beside
        (fun call listed => Executor.emits_walkCall formed (known call listed))
        fun program own => Executor.emits_programs formed own
    refine ⟨?_, (fits_of_history history arrives (World.hasRoom_of_empty empty)).2, ?_, ?_,
      emissions_perm formed emits run⟩
    · have total := balance history id
      rw [empty, List.nil_append, collected_of_flushed history flushed, List.append_nil] at total
      exact total.symm
    · exact List.forall_mem_filterMap.mpr fun _ _ _ => ne_nil_of_taken
    · obtain ⟨states, -, balanced⟩ := Emitting.balanced_run formed emits run
      exact Multiset.le_iff_exists_add.mpr ⟨_, balanced.symm⟩
  · rw [← formed.named found] at buffered
    exact gathers_of_amid buffered amid
  · exact Executor.mem_batches.mpr ⟨(BTreeMap.mem_keys _ _).mpr ⟨node, found⟩, buffered⟩
  · exact drains_of_amid (fun id member =>
      (BTreeMap.mem_keys _ _).mp (Executor.mem_batches.mp member).1) amid

end Runs

namespace Sample

/-- Components that also provide a batch step with a size and a window. -/
def windowRegistry : Registry :=
  { FlowGraph.Sample.registry with
    build := fun kind type config ctx =>
      match kind, type with
      | .transform, "batch" => FlowGraph.Sample.requiring ["size", "within"]
          (.control (.batch (some 3) (some 5000))) config
      | _, _ => FlowGraph.Sample.registry.build kind type config ctx }

/-- Two sources in front of a batch. -/
def gatherFlow : FlowConfig :=
  { FlowGraph.Sample.intake with
    triggers := []
    steps := [FlowGraph.Sample.source "a", FlowGraph.Sample.source "b",
      { FlowGraph.Sample.step "batch" .transform "batch" with
        extra := [("size", .number (.posInt 3)), ("within", .string "5s")] },
      FlowGraph.Sample.sink "out"]
    edges := [.pair "a" "batch", .pair "b" "batch", .pair "batch" "out"] }

/-- The graph of the batch. -/
def gatherGraph : FlowGraph where
  name := "intake"
  nodes := ((((∅ : BTreeMap Node).insert "a"
    ⟨"a", none, .fail, .source, [⟨"batch", none⟩], 0, none⟩).insert "b"
      ⟨"b", none, .fail, .source, [⟨"batch", none⟩], 0, none⟩).insert "batch"
        ⟨"batch", none, .fail, .control (.batch (some 3) (some 5000)), [⟨"out", none⟩], 2,
          none⟩).insert "out" ⟨"out", none, .fail, .sink, [], 1, none⟩
  roots := ["a", "b"]

theorem gatherGraph_accepted : FlowGraph.Accepted windowRegistry FlowGraph.Sample.hashOrder
    gatherFlow FlowGraph.Sample.ctx (executor gatherGraph).graph := .inl rfl

/-- Three records from each source, while six seconds pass. -/
def ticking : Host :=
  { host fun source => .ok (["1", "2", "3"].map fun number =>
      .ok (record (.string (source ++ number)))) with
    clock := fun asked => if asked < 5 then 0 else 6000 }

/-- The sources take turns. -/
def turns : List Nat :=
  (List.replicate 12 [0, 1]).flatten ++ List.replicate 30 1 ++ List.replicate 30 0

/-- The run of both sources, and its final pass. -/
def gathering : (List (Occurrence Engine World) × Config Engine World) ×
    (List (Occurrence Engine World) × Config Engine World) :=
  (Supervised.playRunning (S := Engine) walkCall (World.perform ticking) storeless
      (executor gatherGraph).sourceTasks turns,
    Supervised.playPass (S := Engine) walkCall (World.perform ticking)
      (executor gatherGraph).flushAll storeless (executor gatherGraph).sourceTasks turns
      (List.replicate 40 0))

theorem gathering_phase : (executor gatherGraph).RunPhase ticking storeless gathering.1.1
    (gathering.2.1.map (Supervised.inTask 0))
    ⟨⟨gathering.2.2.world, gathering.1.2.tasks⟩, .returned (.ok ())⟩ :=
  Supervised.phase_of_play rfl rfl

/-- The steps of the run and of its final pass. -/
def gatheringSteps : List (Occurrence Engine World) :=
  gathering.1.1 ++ (gathering.2.1.map (Supervised.inTask 0)).map (Supervised.inTask 2)

/-- A batch is taken for its size, one for its window, and the last one by the final flush. -/
theorem gathering_conserves :
    (∃ config, Conserves ticking "batch" (some 3) gatheringSteps config) ∧
      (batchesOf "batch" (takenBatches ticking gatheringSteps)).map (·.map (·.payload)) =
        [[.string "a1", .string "b1", .string "a2"], [.string "b2", .string "b3"],
          [.string "a3"]] := by
  obtain ⟨last, alone⟩ := gathering_phase.asRun
  have run : (executor gatherGraph).RunBeside [] ticking storeless gatheringSteps
    ⟨gathering.2.2.world, gathering.1.2.tasks ++ [last]⟩ := alone
  have none_ : ∀ call ∈ ([] : List Call), (executor gatherGraph).Known call :=
    fun _ member => nomatch member
  obtain ⟨conserves, -⟩ := @batch_conserves _ _ _ _ (executor gatherGraph) ticking storeless
    "batch" _ _ _ gatherGraph_accepted rfl rfl
  exact ⟨⟨_, conserves none_ rfl run ⟨_, rfl, rfl⟩⟩, rfl⟩

end Sample

end Sohara
