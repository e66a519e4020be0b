import Mathlib.Algebra.Order.Group.Multiset
import Sohara.Runtime.BatchLedger

/-! # What becomes of a batch that has been taken

A batch taken out of its buffer is made into one record at once, before any other walk of
the same task goes on. So when all tasks have ended, the batches made into records are
exactly those that have been taken.
-/

namespace Sohara

open Async Async.Program

/-- What a task still owes: the batch it has just taken. -/
inductive Emitting where
  | idle
  | owing (records : List Record)

namespace Emitting

/-- A batch that has been taken is made into a record next; other records are empty. -/
def Permits : Emitting → Op → Prop
  | .idle, .newRecord payload => payload = .object []
  | .idle, _ => True
  | .owing records, op => op = .newRecord (batchPayload records)

/-- What is owed after an operation. -/
def advance : Emitting → (op : Op) → op.Response → Emitting
  | .idle, .batchArrive _ _ _ _, some records => .owing records
  | .idle, .takeBatch _, record :: records => .owing (record :: records)
  | _, _, _ => .idle

/-- Taking and emitting. -/
def protocol : Protocol Engine Emitting := ⟨.idle, Permits, advance⟩

/-- Any response. -/
def Admits (op : Op) (_ : op.Response) : Prop := True

/-- The payload owed. -/
def owed : Emitting → Multiset Value
  | .idle => 0
  | .owing records => {batchPayload records}

end Emitting

namespace Executor

variable {executor : Executor} {node : Node}

/-- The program emits what it takes. -/
abbrev Emits (executor : Executor) {α : Type} (program : Prog α) : Prop :=
  program.Follows Emitting.protocol Emitting.Admits executor.Known (fun _ state => state = .idle)
    .idle

/-- Nodes other than batches take nothing. -/
theorem allows_emitting (node : Node)
    (other : ∀ size within, node.step ≠ .control (.batch size within)) :
    executor.Allows (Neutral Emitting.protocol Emitting.Admits) node where
  quiet op quiet := by
    cases op with
    | newRecord payload => exact quiet.elim
    | batchArrive id size within record => exact quiet.elim
    | takeBatch id => exact quiet.elim
    | _ => exact ⟨trivial, fun _ _ => rfl⟩
  state _ _ := ⟨trivial, fun _ _ => rfl⟩
  send _ _ := ⟨trivial, fun _ _ => rfl⟩
  lookup _ _ := ⟨trivial, fun _ _ => rfl⟩
  marker _ _ := ⟨trivial, fun _ _ => rfl⟩
  queue _ _ := ⟨trivial, fun _ _ => rfl⟩
  park _ _ _ := ⟨trivial, fun _ _ => rfl⟩
  wait _ _ := ⟨trivial, fun _ _ => rfl⟩
  join _ _ _ _ _ _ _ := ⟨trivial, fun _ _ => rfl⟩
  update _ _ := ⟨trivial, fun _ _ => rfl⟩
  collect size within isBatch _ := absurd isBatch (other size within)
  merge _ := ⟨rfl, fun _ _ => rfl⟩
  emit isBatch _ := isBatch.elim fun size rest => rest.elim fun within same =>
    absurd same (other size within)

/-- A program that takes nothing. -/
theorem emits_of_safe {α : Type} {program : Prog α}
    (safe : Safe (S := Engine) Emitting.Admits (Neutral Emitting.protocol Emitting.Admits)
      executor.Known program) : executor.Emits program :=
  (follows_of_obeys safe).mono (fun _ _ => id) (fun _ => id) fun _ _ => And.left

/-- The batch owed is emitted. -/
theorem emits_emitBatch (leads : executor.Leads executor.Known node) (records : List Record) :
    (executor.emitBatch node records).Follows Emitting.protocol Emitting.Admits executor.Known
      (fun _ state => state = .idle) (.owing records) := by
  have made : (Perform.newRecord (batchPayload records)).Follows Emitting.protocol Emitting.Admits
      executor.Known (fun _ state => state = .idle) (.owing records) :=
    follows_op (fun yields => nomatch yields) rfl fun _ _ => rfl
  refine Follows.bind made fun record state after => ?_
  subst after
  exact emits_of_safe (safe_route (allows_emitting default fun _ _ => nofun).performs leads record)

theorem emits_applyBatch (leads : executor.Leads executor.Known node) (size : Option Nat)
    (within : Option Duration) (record : Record) :
    executor.Emits (executor.applyBatch node size within record) := by
  unfold applyBatch
  split
  · have arrived : (Perform.batchArrive node.id size within record).Follows Emitting.protocol
        Emitting.Admits executor.Known (fun response state => state =
          Emitting.advance .idle (.batchArrive node.id size within record) response) .idle :=
      follows_op (fun _ => rfl) trivial fun _ _ => rfl
    refine Follows.bind arrived fun response state after => ?_
    subst after
    cases response with
    | none => exact follows_pure rfl
    | some records => exact emits_emitBatch leads records
  · exact follows_pure rfl

/-- **Every walk emits what it takes.** -/
theorem emits_walk {id : String} (found : executor.graph.node id = some node)
    (leads : executor.Leads executor.Known node) (record : Record) :
    executor.Emits (executor.walk record id) := by
  by_cases isBatch : ∃ size within, node.step = .control (.batch size within)
  · obtain ⟨size, within, isBatch⟩ := isBatch
    unfold walk
    rw [found]
    have quiet : executor.Allows (Neutral Emitting.protocol Emitting.Admits) default :=
      allows_emitting default fun _ _ => nofun
    have guard : executor.Emits (executor.nodeOpen node record.payload) :=
      emits_of_safe (safe_nodeOpen quiet.quiet record.payload)
    refine Follows.bind guard fun isOpen state after => ?_
    subst after
    cases isOpen with
    | false => exact follows_pure rfl
    | true =>
        unfold applyStep
        rw [isBatch]
        exact emits_applyBatch leads size within record
  · refine emits_of_safe (safe_walk found (allows_emitting node ?_).performs leads record)
    exact fun size within same => isBatch ⟨size, within, same⟩

theorem emits_flushBatches (formed : executor.graph.WellFormed) {ids : List String}
    (known : ∀ id ∈ ids, ∃ node, executor.graph.node id = some node) :
    executor.Emits (executor.flushBatches ids) := by
  induction ids with
  | nil => exact follows_pure rfl
  | cons id rest ih =>
      have others := ih fun other member => known other (List.mem_cons_of_mem _ member)
      obtain ⟨node, found⟩ := known id List.mem_cons_self
      have taken : (Perform.takeBatch id).Follows Emitting.protocol Emitting.Admits executor.Known
          (fun response state => state = Emitting.advance .idle (.takeBatch id) response) .idle :=
        follows_op (fun _ => rfl) trivial fun _ _ => rfl
      refine Follows.bind taken fun records state after => ?_
      subst after
      rw [found]
      cases records with
      | nil => exact others
      | cons record records =>
          refine Follows.bind (emits_emitBatch (leads_known formed found) (record :: records))
            fun outcome state after => ?_
          subst after
          cases outcome with
          | error _ => exact follows_pure rfl
          | ok _ => exact others

theorem emits_walkCall (formed : executor.graph.WellFormed) {call : Call}
    (known : executor.Known call) : executor.Emits (walkCall call) := by
  obtain ⟨rfl, node, found⟩ := known
  exact emits_walk found (leads_known formed found) call.record

theorem emits_runSource (root : String) : executor.Emits (executor.runSource root) :=
  emits_of_safe <| safe_runSource (allows_emitting default fun _ _ => nofun).performs
    fun node found _ => ⟨rfl, node, found⟩

theorem emits_flushAll (formed : executor.graph.WellFormed) : executor.Emits executor.flushAll := by
  have known : ∀ id ∈ executor.batches, ∃ node, executor.graph.node id = some node :=
    fun id member => (BTreeMap.mem_keys _ _).mp (mem_batches.mp member).1
  have quiet : executor.Allows (Neutral Emitting.protocol Emitting.Admits) default :=
    allows_emitting default fun _ _ => nofun
  refine Follows.bind (emits_flushBatches formed known) fun outcome state after => ?_
  subst after
  cases outcome with
  | error _ => exact follows_pure rfl
  | ok _ =>
      exact emits_of_safe <| (safe_flushSinks fun _ _ => ⟨trivial, fun _ _ => rfl⟩).andThen <|
        quiet.safe_checkpoint.bind fun _ => safe_pure _

/-- The programs of a run emit what they take. -/
theorem emits_programs (formed : executor.graph.WellFormed) {program : Prog Outcome}
    (member : program ∈ executor.programs) : executor.Emits program := by
  rcases List.mem_append.mp member with source | flush
  · obtain ⟨root, -, rfl⟩ := List.mem_map.mp source
    exact emits_runSource root
  · rw [List.mem_singleton.mp flush]
    exact emits_flushAll formed

end Executor

section Emissions

variable {executor : Executor} {host : Host} {world : World}

/-- The payload of a record that is made of a batch. -/
def Op.emitted : Op → List Value
  | .newRecord (.object []) => []
  | .newRecord payload => [payload]
  | _ => []

/-- The payloads of the records made of batches. -/
def emissions (steps : List (Occurrence Engine World)) : List Value :=
  steps.flatMap fun step => step.op.emitted

/-- What is made of batches. -/
def payloads (batches : List (String × List Record)) : List Value :=
  batches.map fun batch => batchPayload batch.2

/-- A batch is emitted or owed when it is taken. -/
theorem emitted_add_owed {state : Emitting} {op : Op}
    (permitted : Emitting.protocol.permits state op) :
    (op.emitted : Multiset Value) +
        (Emitting.protocol.advance state op (World.perform host world op).1).owed =
      state.owed + (payloads (op.taken host world).toList : Multiset Value) := by
  cases state with
  | owing records =>
      obtain rfl : op = .newRecord (batchPayload records) := permitted
      rfl
  | idle =>
      cases op with
      | newRecord payload =>
          obtain rfl : payload = .object [] := permitted
          rfl
      | batchArrive id size within record =>
          show 0 + (Emitting.advance .idle (.batchArrive id size within record)
            (world.batchArrive host id size within record).1).owed =
              0 + (payloads ((world.batchArrive host id size within record).1.map fun records =>
                (id, records)).toList : Multiset Value)
          cases (world.batchArrive host id size within record).1 <;> rfl
      | takeBatch id =>
          show 0 + (Emitting.advance .idle (.takeBatch id) (world.collected id)).owed = _
          rw [taken_takeBatch]
          cases world.collected id <;> rfl
      | _ => rfl

variable (host) in
/-- The batches taken are those emitted and those owed. -/
def Emitting.Balanced (steps : List (Occurrence Engine World)) (states : List Emitting) : Prop :=
  (emissions steps : Multiset Value) + (states.map Emitting.owed).sum =
    payloads (takenBatches host steps)

theorem Emitting.sum_owed {states : List Emitting} (idle : ∀ state ∈ states, state = .idle) :
    (states.map Emitting.owed).sum = 0 := by
  refine List.sum_eq_zero fun owed member => ?_
  obtain ⟨state, inside, rfl⟩ := List.mem_map.mp member
  rw [idle state inside]
  rfl

theorem Emitting.Balanced.step {steps : List (Occurrence Engine World)} {states : List Emitting}
    {index : Nat} {state : Emitting} {op : Op} (balanced : Balanced host steps states)
    (current : states[index]? = some state) (permitted : Emitting.protocol.permits state op) :
    Balanced host (steps ++ [⟨index, world, op⟩])
      (states.set index (Emitting.protocol.advance state op (World.perform host world op).1)) := by
  obtain ⟨others, sum, replace⟩ := Config.sum_set Emitting.owed current
  unfold Balanced at balanced ⊢
  have emitted : emissions (steps ++ [⟨index, world, op⟩]) = emissions steps ++ op.emitted := by
    simp only [emissions, List.flatMap_append, List.flatMap_cons, List.flatMap_nil,
      List.append_nil]
  have taken : payloads (takenBatches host (steps ++ [⟨index, world, op⟩])) =
      payloads (takenBatches host steps) ++ payloads (op.taken host world).toList := by
    rw [takenBatches_snoc]
    exact List.map_append
  rw [emitted, taken, replace, ← Multiset.coe_add, ← Multiset.coe_add, ← balanced, sum, add_assoc,
    ← add_assoc (op.emitted : Multiset Value), emitted_add_owed permitted,
    add_right_comm state.owed, ← add_assoc (emissions steps : Multiset Value)]

/-- In every run what has been taken has been emitted or is owed. -/
theorem Emitting.balanced_run {programs : List (Prog Outcome)}
    (formed : executor.graph.WellFormed) (emits : ∀ program ∈ programs, executor.Emits program)
    {steps : List (Occurrence Engine World)} {config : Config Engine World}
    (run : Config.Run (S := Engine) walkCall (fun _ => World.perform host) (fun _ _ => False)
      ⟨world, programs.map Task.run⟩ steps config) :
    ∃ states, config.Follows Emitting.protocol Emitting.Admits executor.Known states ∧
      Emitting.Balanced host steps states := by
  have start : Config.Follows (S := Engine) Emitting.protocol Emitting.Admits executor.Known
      ⟨world, programs.map Task.run⟩ (programs.map fun _ => .idle) := by
    refine List.forall₂_map_left_iff.mpr (List.forall₂_map_right_iff.mpr ?_)
    exact List.forall₂_same.mpr fun program member => ⟨trivial, emits program member⟩
  have initial : Emitting.Balanced host [] (programs.map fun _ => Emitting.idle) := by
    unfold Emitting.Balanced
    rw [Emitting.sum_owed fun state member => (List.mem_map.mp member).choose_spec.2.symm]
    rfl
  exact start.run (fun steps _ states => Emitting.Balanced host steps states)
    (fun call known => Executor.emits_walkCall formed known)
    (fun steps world states index state op balanced current permitted =>
      ⟨trivial, balanced.step current permitted⟩)
    (fun _ _ _ _ _ never => never.elim) initial run

/-- **What has been emitted when all programs have ended**: every batch that was taken. -/
theorem emissions_perm {programs : List (Prog Outcome)} (formed : executor.graph.WellFormed)
    (emits : ∀ program ∈ programs, executor.Emits program)
    {steps : List (Occurrence Engine World)} {config : Config Engine World}
    (run : Config.Run (S := Engine) walkCall (fun _ => World.perform host) (fun _ _ => False)
      ⟨world, programs.map Task.run⟩ steps config)
    (ended : ∀ task ∈ config.tasks, task.outcome? ≠ none) :
    (emissions steps).Perm (payloads (takenBatches host steps)) := by
  obtain ⟨states, follows, balanced⟩ := Emitting.balanced_run formed emits run
  have idle := follows.finished ended
  unfold Emitting.Balanced at balanced
  rw [Emitting.sum_owed idle, add_zero] at balanced
  exact Multiset.coe_eq_coe.mp balanced

end Emissions

end Sohara
