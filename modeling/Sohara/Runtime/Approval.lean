import Sohara.Runtime.Alone
import Sohara.Runtime.Coherence

/-! # Releasing parked records

An approval pass takes the queue of each approve step before it injects the first of
its records, and ends at the first injection that fails. The records it has taken and
not injected are then neither parked nor released.
-/

namespace Sohara

open Async Async.Program

section Passes

variable {host : Host} {executor : Executor} {world after : World}
  {steps : List (Occurrence Engine World)}

section Taking

theorem yields_newRecords {payloads : List Value} {records : List Record}
    (yields : Yields host (Executor.newRecords payloads) world steps records after) :
    records.map (·.payload) = payloads ∧ (∀ record ∈ records, record.metadata = []) ∧
      after.store = world.store ∧ ∀ chosen, parkedAt chosen steps = [] := by
  induction payloads generalizing world steps records with
  | nil =>
      obtain ⟨rfl, rfl, rfl⟩ := evaluates_pure.mp yields
      exact ⟨rfl, (fun _ member => nomatch member), rfl, fun _ => rfl⟩
  | cons payload rest ih =>
      obtain ⟨_, rfl, others⟩ := evaluates_op_bind yields
      obtain ⟨more, _, created, _, rfl, others, ended⟩ := evaluates_bind.mp others
      obtain ⟨rfl, rfl, rfl⟩ := evaluates_pure.mp ended
      obtain ⟨payloads, plain, store, silent⟩ := ih others
      refine ⟨congrArg (payload :: ·) payloads, fun record member => ?_, store, fun chosen => ?_⟩
      · rcases List.mem_cons.mp member with rfl | inside
        · rfl
        · exact plain record inside
      · rw [List.append_nil]
        exact silent chosen

/-- What taking the queue of an approve step does. -/
structure Taken (executor : Executor) (id : String) (world : World)
    (steps : List (Occurrence Engine World)) (result : Except Error (List Record))
    (after : World) : Prop where
  stored : after.PlainStore executor.flowName
  emptied : after.queue (executor.approveKey id) = []
  others : ∀ key, key ≠ executor.approveKey id → after.queue key = world.queue key
  silent : ∀ chosen, parkedAt chosen steps = []
  payloads : ∀ records, result = .ok records →
    records.map (·.payload) = world.queue (executor.approveKey id)
  bare : ∀ records, result = .ok records → ∀ record ∈ records, record.metadata = []

/-- Deleting a queue and leaving the store alone afterwards. -/
theorem Taken.of_delete {id : String} {result : Except Error (List Record)}
    {more : List (Occurrence Engine World)} (stored : world.PlainStore executor.flowName)
    (kept : after.store = (World.perform host world (.delete (executor.approveKey id))).2.store)
    (silent : ∀ chosen, parkedAt chosen more = [])
    (payloads : ∀ records, result = .ok records →
      records.map (·.payload) = world.queue (executor.approveKey id))
    (bare : ∀ records, result = .ok records → ∀ record ∈ records, record.metadata = []) :
    Taken executor id world
      (⟨0, world, .hasStore⟩ :: ⟨0, world, .load (executor.approveKey id)⟩ ::
        ⟨0, world, .delete (executor.approveKey id)⟩ :: more) result after := by
  have isQueue := executor.isQueueKey_approveKey id
  have permitted : Parking.Permits executor.flowName true (.loaded (executor.approveKey id) none)
      (.delete (executor.approveKey id)) := ⟨isQueue, .inr ⟨rfl, rfl⟩⟩
  have queues : ∀ key, after.queue key =
      (World.perform host world (.delete (executor.approveKey id))).2.queue key := by
    intro key
    unfold World.queue
    rw [kept]
  refine ⟨?_, ?_, fun key different => ?_, silent, payloads, bare⟩
  · unfold World.PlainStore
    rw [kept]
    exact stored.perform permitted
  · obtain ⟨entries, found, -⟩ := stored
    rw [queues]
    unfold World.queue
    rw [World.perform_store, found]
    show Executor.queued (Function.update entries _ none _) = []
    rw [Function.update_self]
    rfl
  · rw [queues]
    exact World.queue_perform (decide_eq_false (Ne.symm different))

/-- **Taking a queue** empties it and returns its payloads, without their metadata. -/
theorem yields_takeApproveQueue {id : String} {result : Except Error (List Record)}
    (stored : world.PlainStore executor.flowName)
    (yields : Yields host (executor.takeApproveQueue id) world steps result after) :
    Taken executor id world steps result after := by
  have present := stored
  obtain ⟨entries, found, -⟩ := present
  obtain ⟨_, rfl, opened⟩ := yields_hasStore yields
  rw [found] at opened
  obtain ⟨_, rfl, loaded⟩ := yields_load opened
  obtain ⟨_, response, rfl, deleted⟩ := yields_delete loaded
  cases response with
  | error failure =>
      obtain ⟨rfl, rfl, rfl⟩ := evaluates_pure.mp deleted
      exact .of_delete stored rfl (fun _ => rfl) (fun _ same => nomatch same)
        fun _ same => nomatch same
  | ok _ =>
      obtain ⟨more, _, records, _, rfl, created, ended⟩ := evaluates_bind.mp deleted
      obtain ⟨rfl, rfl, rfl⟩ := evaluates_pure.mp ended
      obtain ⟨payloads, bare, kept, silent⟩ := yields_newRecords created
      refine .of_delete stored kept (fun chosen => ?_) (fun _ same => ?_) fun _ same => ?_
      · rw [List.append_nil]
        exact silent chosen
      · cases same
        exact payloads
      · cases same
        exact bare

end Taking

section Releasing

variable {gate : Node}

/-- A gate is released by taking its queue and injecting what was taken. -/
theorem yields_approveNode {result : Except Error Nat}
    (yields : Yields host (executor.approveNode gate) world steps result after) :
    (∃ failure, result = .error failure ∧
        Yields host (executor.takeApproveQueue gate.id) world steps (.error failure) after) ∨
      ∃ first second released middle outcome, steps = first ++ second ∧
        Yields host (executor.takeApproveQueue gate.id) world first (.ok released) middle ∧
        Yields host (executor.injectAll gate released) middle second outcome after ∧
        result = outcome.map fun _ => released.length := by
  obtain ⟨first, _, taken, middle, rfl, took, rest⟩ := evaluates_bind.mp yields
  cases taken with
  | error failure =>
      obtain ⟨rfl, rfl, rfl⟩ := evaluates_pure.mp rest
      refine .inl ⟨failure, rfl, ?_⟩
      rwa [List.append_nil]
  | ok released =>
      obtain ⟨second, _, outcome, _, rfl, injected, ended⟩ := evaluates_bind.mp rest
      refine .inr ⟨first, second, released, middle, outcome, ?_⟩
      cases outcome with
      | error failure =>
          obtain ⟨rfl, rfl, rfl⟩ := evaluates_pure.mp ended
          exact ⟨by rw [List.append_nil], took, injected, rfl⟩
      | ok _ =>
          obtain ⟨rfl, rfl, rfl⟩ := evaluates_pure.mp ended
          exact ⟨by rw [List.append_nil], took, injected, rfl⟩

/-- A failed sequence of injections has completed the first ones. -/
theorem yields_injectAll_error {records : List Record} {failure : Error}
    (yields : Yields host (executor.injectAll gate records) world steps (.error failure) after) :
    ∃ completed failed rest first second middle, records = completed ++ failed :: rest ∧
      steps = first ++ second ∧
      Yields host (executor.injectAll gate completed) world first (.ok ()) middle ∧
      Yields host (executor.injectAndFlush gate failed) middle second (.error failure) after := by
  induction records generalizing world steps with
  | nil =>
      obtain ⟨-, same, -⟩ := evaluates_pure.mp yields
      cases same
  | cons record rest ih =>
      rcases evaluates_andThen.mp yields with
        ⟨_, same, failed⟩ | ⟨earlier, later, middle, rfl, succeeded, others⟩
      · cases same
        exact ⟨[], record, rest, [], steps, world, rfl, rfl, .done .., failed⟩
      · obtain ⟨completed, failed, left, first, second, between, rfl, rfl, done, ended⟩ :=
          ih others
        refine ⟨record :: completed, failed, left, earlier ++ first, second, between, rfl,
          (List.append_assoc ..).symm, ?_, ended⟩
        exact evaluates_andThen.mpr (.inr ⟨earlier, first, middle, rfl, succeeded, done⟩)

theorem approveKey_ne {id other : String} (different : id ≠ other) :
    executor.approveKey id ≠ executor.approveKey other := by
  unfold Executor.approveKey
  exact fun same => different ((String.append_right_inj _).mp same)

variable (plain : PlainId executor.flowName executor.runId)
  (uuids : ∀ time, PlainId executor.flowName (host.uuid time))
include plain uuids

/-- Injections let all queues grow. -/
theorem grows_injectAll {records : List Record} {outcome : Outcome}
    (stored : world.PlainStore executor.flowName)
    (yields : Yields host (executor.injectAll gate records) world steps outcome after) :
    after.PlainStore executor.flowName ∧ Grows executor.flowName world steps after :=
  (grows_of_parks uuids (parksPlain_of_parks rfl (Executor.parks_injectAll plain gate records))
    stored yields).2

/-- Releasing one gate lets the queues of the others grow. -/
theorem grows_approveNode {result : Except Error Nat} (stored : world.PlainStore executor.flowName)
    (yields : Yields host (executor.approveNode gate) world steps result after) :
    after.PlainStore executor.flowName ∧ ∀ key, isQueueKey executor.flowName key = true →
      key ≠ executor.approveKey gate.id → GrowsAt key world steps after := by
  have grows : ∀ {taken middle first}, Taken executor gate.id world first taken middle →
      ∀ key, key ≠ executor.approveKey gate.id → GrowsAt key world first middle := by
    intro taken middle first took key other
    unfold GrowsAt
    rw [took.others key other, took.silent, List.append_nil]
  rcases yields_approveNode yields with
    ⟨failure, rfl, took⟩ | ⟨first, second, released, middle, outcome, rfl, took, injected, rfl⟩
  · have taken := yields_takeApproveQueue stored took
    exact ⟨taken.stored, fun key _ other => grows taken key other⟩
  · have taken := yields_takeApproveQueue stored took
    obtain ⟨kept, grown⟩ := grows_injectAll plain uuids taken.stored injected
    exact ⟨kept, fun key isQueue other => (grows taken key other).trans (grown key isQueue)⟩

/-- A failed pass has visited the gates before one at which it has failed. -/
theorem yields_approveNodes_error {nodes : List Node} (distinct : (nodes.map (·.id)).Nodup)
    {approved : Nat} {failure : Error} (stored : world.PlainStore executor.flowName)
    (yields : Yields host (executor.approveNodes approved nodes) world steps (.error failure)
      after) :
    ∃ gate ∈ nodes, ∃ earlier later middle, steps = earlier ++ later ∧
      middle.PlainStore executor.flowName ∧
      GrowsAt (executor.approveKey gate.id) world earlier middle ∧
      Yields host (executor.approveNode gate) middle later (.error failure) after := by
  induction nodes generalizing world steps approved with
  | nil =>
      obtain ⟨-, same, -⟩ := evaluates_pure.mp yields
      cases same
  | cons node rest ih =>
      obtain ⟨first, _, visited, middle, rfl, released, others⟩ := evaluates_bind.mp yields
      cases visited with
      | error _ =>
          obtain ⟨rfl, same, rfl⟩ := evaluates_pure.mp others
          cases same
          refine ⟨node, List.mem_cons_self, [], first, world, List.append_nil _, stored, ?_,
            released⟩
          exact (List.append_nil _).symm
      | ok count =>
          rw [List.map_cons, List.nodup_cons] at distinct
          obtain ⟨kept, others'⟩ := grows_approveNode plain uuids stored released
          obtain ⟨gate, member, earlier, later, between, rfl, reached, grown, failed⟩ :=
            ih distinct.2 kept others
          have different : gate.id ≠ node.id := fun same =>
            distinct.1 (same ▸ List.mem_map_of_mem member)
          have before := others' _ (executor.isQueueKey_approveKey gate.id)
            (approveKey_ne different)
          exact ⟨gate, List.mem_cons_of_mem _ member, first ++ earlier, later, between,
            (List.append_assoc ..).symm, reached, before.trans grown, failed⟩

end Releasing

section Passing

variable {env : ExecutorEnv} {registry : Registry} {flow : FlowConfig} {step : Option String}
  {graph : FlowGraph} {result : Except Error Nat}

/-- A pass creates an executor and releases its gates. -/
theorem yields_approvePending
    (built : FlowGraph.build registry env.hashOrder flow (approvalContext flow) = .ok graph)
    (uuids : ∀ time, PlainId flow.name (host.uuid time)) (stored : world.PlainStore flow.name)
    (yields : Yields host (approvePending env registry flow step) world steps result after) :
    ∃ (executor : Executor) (first second : List (Occurrence Engine World)) (middle : World),
      steps = first ++ second ∧ executor.graph = graph ∧ executor.flowName = flow.name ∧
        PlainId flow.name executor.runId ∧
      middle.PlainStore flow.name ∧ Grows flow.name world first middle ∧
      Yields host (executor.approveNodes 0 (executor.approveSteps step)) middle second result
        after := by
  have named : graph.name = flow.name := FlowGraph.name_of_build built
  have opened : approvePending env registry flow step =
      approveGraph env graph flow.vars.toList step := by
    unfold approvePending
    dsimp only
    unfold approvalContext at built
    rw [built]
  rw [opened] at yields
  obtain ⟨first, second, executor, middle, rfl, created, released⟩ := evaluates_bind.mp yields
  rw [← named] at uuids stored ⊢
  obtain ⟨⟨sameName, plain⟩, kept, grown⟩ := grows_of_parks uuids
    (parksPlain_newExecutor env graph flow.vars.toList _) stored created
  refine ⟨executor, first, second, middle, rfl, ?_, sameName, plain, kept, grown, released⟩
  obtain ⟨_, _, runId, _, -, -, others⟩ := evaluates_bind.mp created
  obtain ⟨_, _, _, _, -, -, ended⟩ := evaluates_bind.mp others
  obtain ⟨-, rfl, -⟩ := evaluates_pure.mp ended
  rfl

/-- The records of a queue that have not been injected are still parked, in order,
before those parked anew. -/
def KeepsUninjected (key : String) (start : World) (steps : List (Occurrence Engine World))
    (completed : List Record) (final : World) : Prop :=
  start.queue key ++ parkedAt (· = key) steps = completed.map (·.payload) ++ final.queue key

/-- A visit of a gate that takes its queue, completes the first injections, and fails at
the next one. -/
def InjectionFails (host : Host) (executor : Executor) (gate : Node) (world : World)
    (steps : List (Occurrence Engine World)) (completed : List Record) (failed : Record)
    (rest : List Record) (failure : Error) (after : World) : Prop :=
  ∃ taking first second taken between, steps = taking ++ (first ++ second) ∧
    Yields host (executor.takeApproveQueue gate.id) world taking
      (.ok (completed ++ failed :: rest)) taken ∧
    Yields host (executor.injectAll gate completed) taken first (.ok ()) between ∧
    Yields host (executor.injectAndFlush gate failed) between second (.error failure) after

/-- **Failed approvals lose records.** When a pass fails, either a queue could not be
taken, or an injection has failed; then the record that failed and those after it have
been taken from the queue of their step and are not parked any more. -/
theorem failed_approval_loses
    (built : FlowGraph.build registry env.hashOrder flow (approvalContext flow) = .ok graph)
    (uuids : ∀ time, PlainId flow.name (host.uuid time)) (stored : world.PlainStore flow.name)
    {failure : Error}
    (yields : Yields host (approvePending env registry flow step) world steps (.error failure)
      after) :
    ∃ (executor : Executor) (gate : Node) (earlier later : List (Occurrence Engine World))
      (middle : World), executor.graph = graph ∧ executor.flowName = flow.name ∧
      gate ∈ executor.approveSteps step ∧ steps = earlier ++ later ∧
      (Yields host (executor.takeApproveQueue gate.id) middle later (.error failure) after ∨
        ∃ completed failed rest,
          InjectionFails host executor gate middle later completed failed rest failure after ∧
          world.queue (executor.approveKey gate.id) ++
              parkedAt (· = executor.approveKey gate.id) steps =
            (completed ++ failed :: rest).map (·.payload) ++
              after.queue (executor.approveKey gate.id) ∧
          ¬ KeepsUninjected (executor.approveKey gate.id) world steps completed after) := by
  obtain ⟨executor, creating, passing, opened, rfl, rfl, named, plain, kept, created, passed⟩ :=
    yields_approvePending built uuids stored yields
  have formed := FlowGraph.wellFormed_of_build built
  rw [← named] at uuids plain kept created
  have distinct : ((executor.approveSteps step).map (·.id)).Nodup :=
    (List.filter_sublist.map _).nodup formed.nodup_ids
  obtain ⟨gate, member, before, visiting, middle, rfl, reached, grown, visited⟩ :=
    yields_approveNodes_error plain uuids distinct kept passed
  have isQueue := executor.isQueueKey_approveKey gate.id
  have until_ := (created _ isQueue).trans grown
  refine ⟨executor, gate, creating ++ before, visiting, middle, rfl, named, member,
    (List.append_assoc ..).symm, ?_⟩
  rcases yields_approveNode visited with
    ⟨_, same, took⟩ | ⟨taking, injecting, released, taken, outcome, rfl, took, injected, same⟩
  · cases same
    exact .inl took
  · cases outcome with
    | ok _ => cases same
    | error _ =>
        cases same
        obtain ⟨completed, failed, rest, first, second, between, rfl, rfl, done, ended⟩ :=
          yields_injectAll_error injected
        have emptied := yields_takeApproveQueue reached took
        have afterwards := (grows_injectAll plain uuids emptied.stored injected).2 _ isQueue
        have balance : world.queue (executor.approveKey gate.id) ++
            parkedAt (· = executor.approveKey gate.id)
              (creating ++ (before ++ (taking ++ (first ++ second)))) =
              (completed ++ failed :: rest).map (·.payload) ++
                after.queue (executor.approveKey gate.id) := by
          unfold GrowsAt at until_ afterwards
          rw [afterwards, emptied.emptied, emptied.payloads _ rfl, until_]
          simp only [parkedAt_append, emptied.silent, List.nil_append, List.append_assoc]
        refine .inr ⟨completed, failed, rest,
          ⟨taking, first, second, taken, between, rfl, took, done, ended⟩, balance,
          fun keeps => ?_⟩
        unfold KeepsUninjected at keeps
        rw [balance] at keeps
        have lengths := congrArg List.length keeps
        simp only [List.map_append, List.map_cons, List.length_append, List.length_cons,
          List.length_map] at lengths
        omega

/-- A pass that succeeds has released each of its gates. -/
theorem yields_approveNodes_ok {executor : Executor} {gate : Node}
    (plain : PlainId executor.flowName executor.runId)
    (uuids : ∀ time, PlainId executor.flowName (host.uuid time)) {nodes : List Node}
    (distinct : (nodes.map (·.id)).Nodup) (member : gate ∈ nodes) {approved total : Nat}
    (stored : world.PlainStore executor.flowName)
    (yields : Yields host (executor.approveNodes approved nodes) world steps (.ok total) after) :
    ∃ (earlier taking injecting later : List (Occurrence Engine World))
      (middle taken between : World) (released : List Record),
      steps = earlier ++ (taking ++ (injecting ++ later)) ∧
      middle.PlainStore executor.flowName ∧
      GrowsAt (executor.approveKey gate.id) world earlier middle ∧
      Yields host (executor.takeApproveQueue gate.id) middle taking (.ok released) taken ∧
      Yields host (executor.injectAll gate released) taken injecting (.ok ()) between := by
  induction nodes generalizing world steps approved with
  | nil => cases member
  | cons node rest ih =>
      obtain ⟨first, second, visited, middle, rfl, visiting, others⟩ := evaluates_bind.mp yields
      cases visited with
      | error _ =>
          obtain ⟨-, same, -⟩ := evaluates_pure.mp others
          cases same
      | ok count =>
          rw [List.map_cons, List.nodup_cons] at distinct
          rcases List.mem_cons.mp member with rfl | inside
          · rcases yields_approveNode visiting with
              ⟨_, same, -⟩ |
                ⟨taking, injecting, released, taken, outcome, rfl, took, injected, same⟩
            · cases same
            · cases outcome with
              | error _ => cases same
              | ok _ =>
                  refine ⟨[], taking, injecting, second, world, taken, middle, released, ?_, stored,
                    (List.append_nil _).symm, took, injected⟩
                  rw [List.nil_append, List.append_assoc]
          · obtain ⟨kept, grown⟩ := grows_approveNode plain uuids stored visiting
            obtain ⟨earlier, taking, injecting, later, between, taken, last, released, rfl, reached,
              before, took, injected⟩ := ih distinct.2 inside kept others
            have different : gate.id ≠ node.id := fun same =>
              distinct.1 (same ▸ List.mem_map_of_mem inside)
            have passed := grown _ (executor.isQueueKey_approveKey gate.id)
              (approveKey_ne different)
            exact ⟨first ++ earlier, taking, injecting, later, between, taken, last, released,
              (List.append_assoc ..).symm, reached, passed.trans before, took, injected⟩

end Passing

section Arriving

variable {gate : Node}

/-- **Parking** adds the payload of a record to the queue of its gate. -/
theorem yields_applyApprove {record : Record} {outcome : Outcome} (stored : world.store.isSome)
    (yields : Yields host (executor.applyApprove gate record) world steps outcome after) :
    after.store.isSome = true ∧ after.queue (executor.approveKey gate.id) =
      world.queue (executor.approveKey gate.id) ++ [record.payload] := by
  have configured : world.store.isSome = true := stored
  obtain ⟨_, rfl, opened⟩ := yields_hasStore yields
  rw [configured] at opened
  obtain ⟨_, _, saved, middle, rfl, parked, counted⟩ := evaluates_bind.mp opened
  obtain ⟨_, rfl, loaded⟩ := yields_hasStore parked
  rw [configured] at loaded
  obtain ⟨_, rfl, saving⟩ := yields_load loaded
  obtain ⟨rfl, -, rfl⟩ := evaluates_op.mp saving
  have kept : after.store = (World.perform host world (.save (executor.approveKey gate.id)
      (.array (world.queue (executor.approveKey gate.id) ++ [record.payload])))).2.store := by
    cases saved with
    | error _ =>
        obtain ⟨_, rfl, ended⟩ := evaluates_op_bind counted
        obtain ⟨-, -, rfl⟩ := evaluates_pure.mp ended
        rfl
    | ok _ =>
        obtain ⟨_, rfl, ended⟩ := evaluates_op_bind counted
        obtain ⟨-, -, rfl⟩ := evaluates_pure.mp ended
        rfl
  have queue := World.queue_save host (executor.approveKey gate.id)
    (world.queue (executor.approveKey gate.id) ++ [record.payload]) configured
  constructor
  · rw [kept, World.perform_store, Option.isSome_map]
    exact configured
  · rw [← queue]
    unfold World.queue
    rw [kept]
    rfl

/-- Records arriving at a gate, one after the other; in between, the process may do
anything that does not write the queue of the gate. -/
inductive Arrivals (host : Host) (executor : Executor) (gate : Node) (start : World) :
    List Record → World → Prop where
  | none : Arrivals host executor gate start [] start
  | park {records : List Record} {middle after : World} {record : Record}
      {steps : List (Occurrence Engine World)}
      (earlier : Arrivals host executor gate start records middle)
      (arrives : Yields host (executor.applyApprove gate record) middle steps (.ok ()) after) :
      Arrivals host executor gate start (records ++ [record]) after
  | other {records : List Record} {middle after : World} {α : Type} {program : Prog α} {value : α}
      {steps : List (Occurrence Engine World)}
      (earlier : Arrivals host executor gate start records middle)
      (elsewhere : Yields host program middle steps value after)
      (silent : ∀ step ∈ steps, Op.writes (executor.approveKey gate.id) step.op = false) :
      Arrivals host executor gate start records after

/-- A queue is left alone by steps that do not write it. -/
theorem queue_of_silent {α : Type} {program : Prog α} {value : α} {key : String}
    (stored : world.store.isSome = true) (yields : Yields host program world steps value after)
    (silent : ∀ step ∈ steps, Op.writes key step.op = false) :
    after.store.isSome = true ∧ after.queue key = world.queue key :=
  yields.keeps (motive := fun reached => reached.store.isSome = true ∧
      reached.queue key = world.queue key)
    (fun step member holds => ⟨by rw [World.perform_store, Option.isSome_map]; exact holds.1,
      (World.queue_perform (silent step member)).trans holds.2⟩)
    ⟨stored, rfl⟩

/-- The queue of a gate holds the payloads of the records that have arrived. -/
theorem Arrivals.queue {records : List Record} {start parked : World}
    (stored : start.store.isSome = true)
    (arrived : Arrivals host executor gate start records parked) :
    parked.store.isSome = true ∧ parked.queue (executor.approveKey gate.id) =
      start.queue (executor.approveKey gate.id) ++ records.map (·.payload) := by
  induction arrived with
  | none => exact ⟨stored, (List.append_nil _).symm⟩
  | park _ arrives ih =>
      obtain ⟨present, grown⟩ := yields_applyApprove ih.1 arrives
      refine ⟨present, ?_⟩
      rw [grown, ih.2, List.map_append, List.append_assoc]
      rfl
  | other _ elsewhere silent ih =>
      obtain ⟨present, same⟩ := queue_of_silent ih.1 elsewhere silent
      exact ⟨present, same.trans ih.2⟩

end Arriving

/-- What a record brings to the nodes behind a gate. -/
def Record.content (record : Record) : Value × Metadata := (record.payload, record.metadata)

/-- Records with the same payloads, and without metadata. -/
theorem map_content_eq_iff {released records : List Record}
    (payloads : released.map (·.payload) = records.map (·.payload))
    (bare : ∀ record ∈ released, record.metadata = []) :
    released.map Record.content = records.map Record.content ↔
      ∀ record ∈ records, record.metadata = [] := by
  induction released generalizing records with
  | nil =>
      obtain rfl := List.map_eq_nil_iff.mp payloads.symm
      exact ⟨(fun _ _ member => nomatch member), fun _ => rfl⟩
  | cons first rest ih =>
      cases records with
      | nil => cases payloads
      | cons record others =>
          obtain ⟨same, payloads⟩ := List.cons.inj payloads
          have tail := ih payloads fun other member => bare other (List.mem_cons_of_mem _ member)
          rw [List.map_cons, List.map_cons, List.cons.injEq, tail, List.forall_mem_cons]
          refine and_congr_left fun _ => ?_
          unfold Record.content
          rw [Prod.mk.injEq, bare first List.mem_cons_self, and_iff_right same]
          exact eq_comm

/-- **Round trip through a gate.** A successful pass injects the records that have
arrived behind their gate, in order and each once, with their payloads; it injects them
with their metadata exactly when they have none. -/
theorem gate_round_trip_iff {parker approver : Host} {env : ExecutorEnv} {registry : Registry}
    {flow : FlowConfig} {step : Option String} {graph : FlowGraph} {gate : Node}
    (built : FlowGraph.build registry env.hashOrder flow (approvalContext flow) = .ok graph)
    (isGate : graph.node gate.id = some gate) (selected : Executor.isSelected step gate = true)
    (named : executor.flowName = flow.name) {start parked : World}
    (present : start.store.isSome = true) {records : List Record}
    (arrived : Arrivals parker executor gate start records parked)
    (uuids : ∀ time, PlainId flow.name (approver.uuid time)) (stored : world.PlainStore flow.name)
    (handedOver : world.queue (executor.approveKey gate.id) =
      parked.queue (executor.approveKey gate.id))
    {approved : Nat}
    (yields : Yields approver (approvePending env registry flow step) world steps (.ok approved)
      after) :
    ∃ (resumed : Executor) (earlier taking injecting later : List (Occurrence Engine World))
      (middle taken between : World) (released : List Record), resumed.graph = graph ∧
      steps = earlier ++ (taking ++ (injecting ++ later)) ∧
      Yields approver (resumed.takeApproveQueue gate.id) middle taking (.ok released) taken ∧
      Yields approver (resumed.injectAll gate released) taken injecting (.ok ()) between ∧
      released.map (·.payload) = start.queue (executor.approveKey gate.id) ++
        records.map (·.payload) ++ parkedAt (· = executor.approveKey gate.id) earlier ∧
      (((released.drop (start.queue (executor.approveKey gate.id)).length).take
          records.length).map Record.content = records.map Record.content ↔
        ∀ record ∈ records, record.metadata = []) := by
  obtain ⟨resumed, creating, passing, opened, rfl, rfl, sameName, plain, kept, created, passed⟩ :=
    yields_approvePending built uuids stored yields
  have formed := FlowGraph.wellFormed_of_build built
  have sameKey : resumed.approveKey gate.id = executor.approveKey gate.id := by
    unfold Executor.approveKey
    rw [sameName, named]
  rw [← sameName] at uuids plain kept created
  have distinct : ((resumed.approveSteps step).map (·.id)).Nodup :=
    (List.filter_sublist.map _).nodup formed.nodup_ids
  have member : gate ∈ resumed.approveSteps step :=
    List.mem_filter.mpr ⟨List.mem_map.mpr
      ⟨(gate.id, gate), (BTreeMap.mem_toList _ _ _).mpr isGate, rfl⟩, selected⟩
  obtain ⟨before, taking, injecting, later, middle, taken, between, released, rfl, reached, grown,
    took, injected⟩ := yields_approveNodes_ok plain uuids distinct member kept passed
  have emptied := yields_takeApproveQueue reached took
  have waiting := (created _ (resumed.isQueueKey_approveKey gate.id)).trans grown
  have payloads : released.map (·.payload) = start.queue (executor.approveKey gate.id) ++
      records.map (·.payload) ++
        parkedAt (· = executor.approveKey gate.id) (creating ++ before) := by
    unfold GrowsAt at waiting
    rw [emptied.payloads _ rfl, waiting, sameKey, handedOver, (arrived.queue present).2]
  refine ⟨resumed, creating ++ before, taking, injecting, later, middle, taken, between, released,
    rfl, (List.append_assoc ..).symm, took, injected, payloads, ?_⟩
  refine map_content_eq_iff ?_ fun record inside => ?_
  · rw [List.map_take, List.map_drop, payloads, List.append_assoc, List.drop_left,
      ← List.length_map (·.payload), List.take_left]
  · exact emptied.bare _ rfl record
      (List.mem_of_mem_drop (List.mem_of_mem_take inside))

end Passes

namespace Sample

/-- A transform that checks what an approve step has released. -/
def checkFlow : FlowConfig :=
  { FlowGraph.Sample.intake with
    triggers := []
    steps := [FlowGraph.Sample.source "in", FlowGraph.Sample.step "gate" .control "approve",
      { FlowGraph.Sample.step "check" .transform "assert" with
        extra := [("expect", .array [.object [("field", .string "amount"), ("op", .string "gte"),
          ("value", .number (.posInt 0))]])] },
      FlowGraph.Sample.sink "out"]
    edges := [.pair "in" "gate", .pair "gate" "check", .pair "check" "out"] }

/-- A host whose transforms fail. -/
def faultyHost : Host := { host oneRecord with transform _ _ _ := .error (.assertion "amount is negative") }

/-- A process over a queue of two records. -/
def holding : World :=
  .start (some (fileWith (some (.array [.null, .bool true]))))
    (fileWith (some (.array [.null, .bool true]))) fun _ => []

/-- An approval pass, as a task. -/
def approving (registry : Registry) (flow : FlowConfig) : Prog Outcome := do
  let approved ← approvePending env registry flow none
  return approved.map fun _ => ()

/-- The result of an approval pass played to its end. -/
theorem yields_approving (host : Host) (world : World) (registry : Registry) (flow : FlowConfig)
    (outcome : Outcome) (schedule : List Nat)
    (finished : (Config.play (S := Engine) walkCall (fun _ => World.perform host)
      ⟨world, [.run (approving registry flow)]⟩ schedule).2.tasks = [.run (.done outcome)]) :
    ∃ steps result, result.map (fun _ => ()) = outcome ∧
      Yields host (approvePending env registry flow none) world steps result
        (Config.play (S := Engine) walkCall (fun _ => World.perform host)
          ⟨world, [.run (approving registry flow)]⟩ schedule).2.world := by
  obtain ⟨_, evaluates⟩ := evaluates_of_play finished
  obtain ⟨steps, _, result, _, rfl, passed, ended⟩ := evaluates_bind.mp evaluates
  obtain ⟨rfl, rfl, same⟩ := evaluates_pure.mp ended
  exact ⟨steps, result, rfl, same ▸ passed⟩

/-- The pass fails at the first of two records. -/
theorem faulty_fails : ∃ steps final,
    Yields faultyHost (approvePending env gateRegistry checkFlow none) holding steps
      (.error (.assertion "amount is negative")) final ∧
    final.queue "intake:approve:gate" = [] ∧ final.transformed.length = 1 := by
  obtain ⟨steps, result, failed, yields⟩ := yields_approving faultyHost holding
    gateRegistry checkFlow (.error (.assertion "amount is negative")) (List.replicate 40 0) rfl
  cases result with
  | ok _ => cases failed
  | error failure =>
      cases failed
      exact ⟨steps, _, yields, rfl, rfl⟩

/-- Neither record has been injected, and neither is parked any more. -/
theorem faulty_loses :
    (FlowGraph.build gateRegistry FlowGraph.Sample.hashOrder checkFlow
      (approvalContext checkFlow)).isOk = true ∧
    holding.queue "intake:approve:gate" = [.null, .bool true] ∧
    ∃ steps final,
      Yields faultyHost (approvePending env gateRegistry checkFlow none) holding steps
        (.error (.assertion "amount is negative")) final ∧
      final.queue "intake:approve:gate" = [] ∧ final.transformed.length = 1 :=
  ⟨rfl, rfl, faulty_fails⟩

theorem plainStore_holding : holding.PlainStore "intake" := by
  refine ⟨_, rfl, fun id found => ?_⟩
  obtain rfl : "run" = id := Value.string.inj (Option.some.inj found)
  exact plainId

/-- The failed pass has lost what it has taken. -/
theorem faulty_keeps_nothing : ∃ graph, FlowGraph.build gateRegistry FlowGraph.Sample.hashOrder
      checkFlow (approvalContext checkFlow) = .ok graph ∧
    ∃ steps failure final, ∃ (executor : Executor) (gate : Node)
      (earlier later : List (Occurrence Engine World)) (middle : World),
      executor.graph = graph ∧ executor.flowName = "intake" ∧
      gate ∈ executor.approveSteps none ∧ steps = earlier ++ later ∧
      (Yields faultyHost (executor.takeApproveQueue gate.id) middle later (.error failure) final ∨
        ∃ completed failed rest,
          InjectionFails faultyHost executor gate middle later completed failed rest failure
            final ∧
          holding.queue (executor.approveKey gate.id) ++
              parkedAt (· = executor.approveKey gate.id) steps =
            (completed ++ failed :: rest).map (·.payload) ++
              final.queue (executor.approveKey gate.id) ∧
          ¬ KeepsUninjected (executor.approveKey gate.id) holding steps completed final) := by
  obtain ⟨steps, final, yields, -, -⟩ := faulty_fails
  exact ⟨_, rfl, steps, _, final, failed_approval_loses rfl (fun _ => plainId_id)
    plainStore_holding yields⟩

/-- The gate in front of the transform. -/
def checkGate : Node :=
  ⟨"gate", none, .fail, .control (.approve "approval"), [⟨"check", none⟩], 1, none⟩

/-- The graph of the transform behind an approve step. -/
def checkGraph : FlowGraph where
  name := "intake"
  nodes := ((((∅ : BTreeMap Node).insert "check"
    ⟨"check", none, .fail, .transform, [⟨"out", none⟩], 1, none⟩).insert "gate" checkGate).insert
      "in" ⟨"in", none, .fail, .source, [⟨"gate", none⟩], 0, none⟩).insert "out"
        ⟨"out", none, .fail, .sink, [], 1, none⟩
  roots := ["in"]

/-- A record with a correlation. -/
def correlatedRecord : Record := { record .null with metadata := [("correlation", "c")] }

/-- A process with an empty queue. -/
def vacant : World := .start (some (fileWith none)) (fileWith none) fun _ => []

/-- A record with a correlation arrives at the gate and is released. -/
theorem correlated_released : ∃ parked,
    Arrivals (host oneRecord) (executor checkGraph) checkGate vacant [correlatedRecord] parked ∧
      parked.PlainStore "intake" ∧ ∃ steps approved final,
        Yields (host oneRecord) (approvePending env gateRegistry checkFlow none) parked steps
          (.ok approved) final ∧
        final.transformed.map (fun entry => entry.2.content) = [(.null, [])] := by
  obtain ⟨steps, arrives⟩ :=
    @evaluates_of_play Engine _ walkCall (World.perform (host oneRecord)) vacant
    ((executor checkGraph).applyApprove checkGate correlatedRecord) (.ok ())
    (List.replicate 10 0) rfl
  refine ⟨_, .park .none arrives, ⟨_, rfl, fun id found => ?_⟩, ?_⟩
  · obtain rfl : "run" = id := Value.string.inj (Option.some.inj found)
    exact plainId
  · obtain ⟨steps, result, passed, yields⟩ := yields_approving (host oneRecord)
      ((Config.play (S := Engine) walkCall (fun _ => World.perform (host oneRecord))
        ⟨vacant, [.run ((executor checkGraph).applyApprove checkGate correlatedRecord)]⟩
        (List.replicate 10 0)).2.world) gateRegistry checkFlow (.ok ()) (List.replicate 40 0) rfl
    cases result with
    | error _ => cases passed
    | ok approved => exact ⟨steps, approved, _, yields, rfl⟩

/-- The transform behind the gate gets the record without its correlation. -/
theorem gate_forgets_correlation :
    FlowGraph.build gateRegistry FlowGraph.Sample.hashOrder checkFlow
        (approvalContext checkFlow) = .ok checkGraph ∧
      correlatedRecord.content = (.null, [("correlation", "c")]) ∧ ∃ parked,
        Arrivals (host oneRecord) (executor checkGraph) checkGate vacant [correlatedRecord]
          parked ∧ ∃ steps approved final,
        Yields (host oneRecord) (approvePending env gateRegistry checkFlow none) parked steps
          (.ok approved) final ∧
        final.transformed.map (fun entry => entry.2.content) = [(.null, [])] := by
  obtain ⟨parked, arrived, -, released⟩ := correlated_released
  exact ⟨rfl, rfl, parked, arrived, released⟩

/-- The record with a correlation does not come back as it was. -/
theorem correlated_round_trip :
    ∃ (resumed : Executor) (released : List Record) (middle taken : World)
    (taking : List (Occurrence Engine World)), resumed.graph = checkGraph ∧
      Yields (host oneRecord) (resumed.takeApproveQueue "gate") middle taking (.ok released)
        taken ∧
      (((released.drop 0).take 1).map Record.content = [correlatedRecord].map Record.content ↔
        ∀ record ∈ [correlatedRecord], record.metadata = []) := by
  obtain ⟨parked, arrived, stored, _, _, _, yields, -⟩ := correlated_released
  obtain ⟨resumed, _, taking, _, _, middle, taken, _, released, same, -, took, -, -, exact_⟩ :=
    gate_round_trip_iff rfl rfl rfl rfl rfl arrived (fun _ => plainId_id)
      stored rfl yields
  exact ⟨resumed, released, middle, taken, taking, same, took, exact_⟩

end Sample

end Sohara
