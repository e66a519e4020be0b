import Sohara.Async.Protocol
import Sohara.Runtime.QueueTrace
import Sohara.Runtime.RunSafety
import Sohara.Runtime.World

/-! # The parking protocol

A task touches an approve queue in two ways: parking loads the queue, saves it with
one more record and counts a waiting record; taking loads the queue and deletes it.
Both run through without yielding, so a task is in the middle of at most one of them.
-/

namespace Sohara

open Async Async.Program

/-- Whether a key is that of an approve queue of the flow. -/
def isQueueKey (flow key : String) : Bool :=
  (flow ++ ":approve:").toList.isPrefixOf key.toList

/-- Run ids are UUIDs: they have no colons, and no flow is named after one. -/
structure PlainId (flow id : String) : Prop where
  plain : ':' ∉ id.toList
  foreign : ¬ (id ++ ":").toList <+: flow.toList

/-- What a task is in the middle of. -/
inductive Parking where
  | idle
  | loaded (key : String) (stored : Option Value)
  | parked

namespace World

variable {host : Host} {world : World} {key : String}

/-- The queue stored under a key. -/
def queue (world : World) (key : String) : List Value :=
  Executor.queued (world.store.bind fun entries => entries key)

theorem queue_perform {op : Op} (silent : Op.writes key op = false) :
    (perform host world op).2.queue key = world.queue key := by
  unfold queue
  rw [perform_store]
  cases world.store with
  | none => rfl
  | some entries => exact congrArg Executor.queued (stored_of_not_writes entries silent)

variable (host key) in
theorem queue_save (items : List Value) (present : world.store.isSome = true) :
    (perform host world (.save key (.array items))).2.queue key = items := by
  obtain ⟨entries, found⟩ := Option.isSome_iff_exists.mp present
  unfold queue
  rw [perform_store, found]
  show Executor.queued (Function.update entries key (some (.array items)) key) = items
  rw [Function.update_self]
  rfl

end World

namespace Parking

/-- The operations on approve queues and on the run id; taking may be excluded. -/
def Permits (flow : String) (takes : Bool) : Parking → Op → Prop
  | .idle, .save key value => isQueueKey flow key = false ∧
      (key = runIdKey flow → ∃ id, value = .string id ∧ PlainId flow id)
  | .idle, .delete _ => False
  | .idle, .count .waiting => False
  | .idle, _ => True
  | .loaded key stored, op => isQueueKey flow key = true ∧
      ((∃ item, op = .save key (.array (Executor.queued stored ++ [item]))) ∨
        takes = true ∧ op = .delete key)
  | .parked, op => op = .count .waiting

/-- What follows an operation. -/
def advance (flow : String) : Parking → (op : Op) → op.Response → Parking
  | .idle, .load key, .ok stored => if isQueueKey flow key then .loaded key stored else .idle
  | .loaded _ _, .save _ _, .ok () => .parked
  | _, _, _ => .idle

/-- The parking protocol of a flow. -/
def protocol (flow : String) (takes : Bool) : Protocol Engine Parking where
  rest := .idle
  permits := Permits flow takes
  advance := advance flow

/-- A store is configured. -/
def Admits : (op : Op) → op.Response → Prop
  | .hasStore, response => response = true
  | _, _ => True

section Rest

variable {flow key : String}

/-- At rest, only keys of other entries are written. -/
theorem not_writes_of_idle {takes : Bool} {op : Op} (permitted : Permits flow takes .idle op)
    (isQueue : isQueueKey flow key = true) : Op.writes key op = false := by
  cases op with
  | save name value =>
      refine decide_eq_false ?_
      rintro rfl
      rw [permitted.1] at isQueue
      cases isQueue
  | delete name => exact permitted.elim
  | _ => rfl

/-- At rest, a task goes on resting unless it loads a queue. -/
theorem advance_idle (flow : String) (host : Host) (world : World) (op : Op) :
    advance flow .idle op (World.perform host world op).1 = .idle ∨
      ∃ key, op = .load key ∧ advance flow .idle op (World.perform host world op).1 =
        .loaded key (world.store.bind fun entries => entries key) := by
  cases op with
  | load key =>
      cases isQueue : isQueueKey flow key with
      | true => exact .inr ⟨key, rfl, if_pos isQueue⟩
      | false => exact .inl (if_neg (by rw [isQueue]; exact Bool.false_ne_true))
  | _ => exact .inl rfl

end Rest

/-- Waiting records that are parked but not yet counted. -/
def owed : Parking → Nat
  | .parked => 1
  | _ => 0

end Parking

/-- Two texts that go on with a colon after names, one of them without colons. -/
theorem not_prefix_of_names {name flow rest tail : List Char} {first second : Char}
    (plain : ':' ∉ name) (foreign : ¬ (name ++ [':']) <+: flow) (differ : first ≠ second) :
    ¬ (flow ++ ':' :: first :: rest) <+: (name ++ ':' :: second :: tail) := by
  induction name generalizing flow with
  | nil =>
      cases flow with
      | nil => simpa using fun same => absurd same differ
      | cons head flow =>
          rintro ⟨more, same⟩
          simp only [List.nil_append, List.cons_append, List.cons.injEq] at same
          exact foreign (by simp [same.1])
  | cons head name ih =>
      rw [List.mem_cons, not_or] at plain
      cases flow with
      | nil =>
          rintro ⟨more, same⟩
          simp only [List.nil_append, List.cons_append, List.cons.injEq] at same
          exact plain.1 same.1
      | cons other flow =>
          rintro ⟨more, same⟩
          simp only [List.cons_append, List.cons.injEq] at same
          obtain ⟨rfl, same⟩ := same
          refine ih plain.2 (fun (inner : _ <+: flow) => foreign ?_) ⟨more, ?_⟩
          · simpa using inner
          · simpa using same

namespace PlainId

variable {flow id : String} (plain : PlainId flow id)
include plain

/-- The entries of a run are kept apart from the approve queues and the run id. -/
theorem apart (second : Char) (tail : List Char) (queue : 'a' ≠ second) (runId : 'r' ≠ second)
    {key : String} (named : key.toList = id.toList ++ ':' :: second :: tail) :
    isQueueKey flow key = false ∧ key ≠ runIdKey flow := by
  have foreign := plain.foreign
  rw [String.toList_append] at foreign
  constructor
  · refine Bool.eq_false_iff.mpr fun prefixed => ?_
    unfold isQueueKey at prefixed
    rw [List.isPrefixOf_iff_prefix, named, String.toList_append] at prefixed
    exact not_prefix_of_names plain.plain foreign queue prefixed
  · rintro rfl
    unfold runIdKey at named
    rw [String.toList_append] at named
    exact not_prefix_of_names plain.plain foreign runId ⟨[], by rw [List.append_nil]; exact named⟩

theorem state (step : String) : isQueueKey flow (id ++ ":state:" ++ step) = false ∧
    id ++ ":state:" ++ step ≠ runIdKey flow := by
  refine plain.apart 's' ("tate:".toList ++ step.toList) (by decide)
    (by decide) ?_
  simp only [String.toList_append, List.append_assoc]
  rfl

theorem marker (key : String) : isQueueKey flow (id ++ ":delivered:" ++ key) = false ∧
    id ++ ":delivered:" ++ key ≠ runIdKey flow := by
  refine plain.apart 'd' ("elivered:".toList ++ key.toList) (by decide)
    (by decide) ?_
  simp only [String.toList_append, List.append_assoc]
  rfl

end PlainId

/-- Walks of the executors of a flow. -/
def InFlow (flow : String) (call : Call) : Prop :=
  call.executor.flowName = flow ∧ PlainId flow call.executor.runId

namespace Executor

variable {executor : Executor}

variable (executor) in
theorem isQueueKey_approveKey (id : String) :
    isQueueKey executor.flowName (executor.approveKey id) = true := by
  unfold isQueueKey approveKey
  rw [String.toList_append (s := executor.flowName ++ ":approve:")]
  exact List.isPrefixOf_iff_prefix.mpr (List.prefix_append _ _)

variable {takes : Bool} {node : Node}

/-- The program follows the parking protocol from rest to rest. -/
abbrev Parks (executor : Executor) (takes : Bool) {α : Type} (program : Prog α) : Prop :=
  program.Follows (Parking.protocol executor.flowName takes) Parking.Admits
    (InFlow executor.flowName) (fun _ state => state = .idle) .idle

/-- Quiet operations leave the queues alone. -/
theorem neutral_of_quiet {flow : String} {admits : (op : Op) → op.Response → Prop} (op : Op)
    (quiet : op.IsQuiet) : Neutral (S := Engine) (Parking.protocol flow takes) admits op := by
  constructor
  · cases op with
    | count counter => cases counter <;> trivial
    | _ => trivial
  · intro response _
    cases op with
    | load key => exact quiet.elim
    | _ => rfl

variable (node) in
/-- A node that does not park leaves the queues alone. -/
theorem allows_neutral (plain : PlainId executor.flowName executor.runId)
    (other : ∀ title, node.step ≠ .control (.approve title)) :
    executor.Allows (Neutral (Parking.protocol executor.flowName takes) Parking.Admits) node where
  quiet := neutral_of_quiet
  state id value := ⟨⟨(plain.state id).1, fun same => absurd same (plain.state id).2⟩,
    fun _ _ => rfl⟩
  send isSink record := ⟨trivial, fun _ _ => rfl⟩
  lookup isSink record := by
    refine ⟨trivial, fun response _ => ?_⟩
    cases response with
    | error _ => rfl
    | ok stored =>
        exact if_neg (Bool.eq_false_iff.mp (plain.marker (executor.idempotencyKey record)).1)
  marker isSink record :=
    ⟨⟨(plain.marker _).1, fun same => absurd same (plain.marker _).2⟩, fun _ _ => rfl⟩
  queue title isApprove := absurd isApprove (other title)
  park title isApprove := absurd isApprove (other title)
  wait title isApprove := absurd isApprove (other title)
  join isJoin mode expected n buffer correlation record := ⟨trivial, fun _ _ => rfl⟩
  update isState value := ⟨trivial, fun _ _ => rfl⟩
  collect size within isBatch record := ⟨trivial, fun _ _ => rfl⟩
  merge isJoin := ⟨trivial, fun _ _ => rfl⟩
  emit isBatch records := ⟨trivial, fun _ _ => rfl⟩

/-- Any walk of the same executor may be awaited. -/
theorem leads_same (plain : PlainId executor.flowName executor.runId) (node : Node) :
    executor.Leads (InFlow executor.flowName) node :=
  ⟨fun _ _ _ => ⟨rfl, plain⟩, fun _ _ _ _ _ => ⟨rfl, plain⟩⟩

/-- A program leaving the queues alone follows the protocol. -/
theorem parks_of_safe {α : Type} {program : Prog α}
    (safe : Safe (S := Engine) Parking.Admits
      (Neutral (Parking.protocol executor.flowName takes) Parking.Admits)
      (InFlow executor.flowName) program) : executor.Parks takes program :=
  (follows_of_obeys safe).mono (fun _ _ => id) (fun _ => id) fun _ _ => And.left

/-- The store is found configured. -/
theorem parks_hasStore : Perform.hasStore.Follows (Parking.protocol executor.flowName takes)
    Parking.Admits (InFlow executor.flowName)
    (fun stored state => stored = true ∧ state = .idle) .idle :=
  follows_op (fun _ => rfl) trivial fun _ present => ⟨present, rfl⟩

/-- A quiet operation before a result. -/
theorem parks_then (op : Op) (quiet : op.IsQuiet) (result : Outcome) :
    executor.Parks takes (do let _ ← .op (S := Engine) op; return result) :=
  parks_of_safe (Safe.bind (safe_op (neutral_of_quiet op quiet)) fun _ => safe_pure _)

/-- Loading a queue begins an exchange with it. -/
theorem parks_loadQueue (id : String) :
    (Perform.load (executor.approveKey id)).Follows (Parking.protocol executor.flowName takes)
      Parking.Admits (InFlow executor.flowName)
      (fun result state => match result with
        | .ok stored => state = .loaded (executor.approveKey id) stored
        | .error _ => state = .idle) .idle := by
  refine follows_op (fun _ => rfl) trivial fun response _ => ?_
  cases response with
  | error _ => exact (rfl : Parking.idle = .idle)
  | ok stored => exact if_pos (isQueueKey_approveKey _ id)

theorem parks_parkApprove (node : Node) (record : Record) :
    (executor.parkApprove node record).Follows (Parking.protocol executor.flowName takes)
      Parking.Admits (InFlow executor.flowName)
      (fun result state => match result with
        | .ok () => state = .parked
        | .error _ => state = .idle) .idle := by
  refine Follows.bind parks_hasStore fun stored state after => ?_
  obtain ⟨rfl, rfl⟩ := after
  refine Follows.bind (parks_loadQueue node.id) fun loaded state after => ?_
  cases loaded with
  | error _ => exact follows_pure after
  | ok content =>
      obtain rfl : state = .loaded (executor.approveKey node.id) content := after
      refine follows_op (fun yields => nomatch yields)
        ⟨isQueueKey_approveKey _ node.id, .inl ⟨record.toJson, rfl⟩⟩ fun saved _ => ?_
      cases saved with
      | error _ => exact (rfl : Parking.idle = .idle)
      | ok _ => exact (rfl : Parking.parked = .parked)

theorem parks_applyApprove (node : Node) (record : Record) :
    executor.Parks takes (executor.applyApprove node record) := by
  refine Follows.bind parks_hasStore fun stored state after => ?_
  obtain ⟨rfl, rfl⟩ := after
  refine Follows.bind (parks_parkApprove node record) fun result state after => ?_
  cases result with
  | error _ =>
      obtain rfl : state = .idle := after
      exact parks_then (.count .errors) trivial _
  | ok _ =>
      obtain rfl : state = .parked := after
      have counted : (Perform.count .waiting).Follows (Parking.protocol executor.flowName takes)
          Parking.Admits (InFlow executor.flowName) (fun _ state => state = .idle) .parked :=
        follows_op (fun yields => nomatch yields) rfl fun _ _ => rfl
      exact Follows.bind counted fun _ _ resting => follows_pure resting

/-- **Every walk follows the parking protocol.** -/
theorem parks_walk (plain : PlainId executor.flowName executor.runId) (record : Record)
    (id : String) :
    executor.Parks takes (executor.walk record id) := by
  have quiet : ∀ op : Op, op.IsQuiet →
      Neutral (Parking.protocol executor.flowName takes) Parking.Admits op := neutral_of_quiet
  cases found : executor.graph.node id with
  | none =>
      unfold walk
      rw [found]
      have unknown : executor.Parks takes (Perform.unknownNode id) :=
        follows_op (fun _ => rfl) trivial fun _ _ => rfl
      exact Follows.bind unknown fun _ _ resting => follows_pure resting
  | some node =>
      by_cases approve : ∃ title, node.step = .control (.approve title)
      · obtain ⟨title, isApprove⟩ := approve
        unfold walk
        rw [found]
        refine Follows.bind (parks_of_safe (safe_nodeOpen quiet record.payload))
          fun isOpen state after => ?_
        obtain rfl : state = .idle := after
        cases isOpen
        · exact (rfl : Parking.idle = .idle)
        · unfold applyStep
          rw [isApprove]
          exact parks_applyApprove node record
      · exact parks_of_safe (safe_walk found
          (allows_neutral node plain fun title same => approve ⟨title, same⟩).performs
          (leads_same plain node)
          record)

theorem parks_walkCall {flow : String} (call : Call) (inFlow : InFlow flow call) :
    (walkCall call).Follows (Parking.protocol flow takes) Parking.Admits (InFlow flow)
      (fun _ state => state = .idle) .idle := by
  obtain ⟨rfl, plain⟩ := inFlow
  exact parks_walk plain call.record call.node

variable (plain : PlainId executor.flowName executor.runId)
include plain

/-- A source leaves the queues to its walks. -/
theorem parks_runSource (root : String) : executor.Parks takes (executor.runSource root) :=
  parks_of_safe (safe_runSource
    (allows_neutral default plain fun _ same => nomatch same).performs fun _ _ _ => ⟨rfl, plain⟩)

theorem parks_flushAll : executor.Parks takes executor.flushAll :=
  parks_of_safe (safe_flushAll
    (allows_neutral default plain fun _ same => nomatch same).performs
    (fun _ _ => ⟨trivial, fun _ _ => rfl⟩) (fun _ _ => ⟨trivial, fun _ _ => rfl⟩)
    (fun _ => ⟨trivial, fun _ _ => rfl⟩) fun _ node _ _ => leads_same plain node)

theorem parks_injectAll (gate : Node) (records : List Record) :
    executor.Parks takes (executor.injectAll gate records) :=
  parks_of_safe (safe_injectAll
    (allows_neutral default plain fun _ same => nomatch same).performs (fun _ _ _ => ⟨rfl, plain⟩)
    (fun _ _ => ⟨trivial, fun _ _ => rfl⟩) (fun _ _ => ⟨trivial, fun _ _ => rfl⟩)
    (fun _ => ⟨trivial, fun _ _ => rfl⟩) (fun _ node _ _ => leads_same plain node) records)

end Executor

end Sohara
