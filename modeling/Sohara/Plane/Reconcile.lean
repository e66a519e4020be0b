import Sohara.Plane.Commands

/-! # What a heartbeat queues

A heartbeat adds commands to the queue of its node: for each declared instance whose
reported state calls for an operation, one that is numbered beyond all commands of the node
so far, unless an equal command waits already. The declarations stay as they are, and so
do the queues of the other nodes.
-/

namespace Sohara

namespace Inner

section Definitions

/-- The reported state of a declared instance calls for an operation. -/
def Demands (reports : List InstanceReport) (decl : InstanceDecl) (op : String) : Prop :=
  ∃ report, (reports.find? fun report => report.id = decl.id) = some report ∧
    operation decl.desired report.state = some op

/-- A command for an instance. -/
def Matches (decl : InstanceDecl) (op : String) (command : Command) : Prop :=
  command.instance_ = decl.id ∧ command.op = op

/-- Queues the command that moves an instance, if there is one. -/
def queueFor (node : String) (reports : List InstanceReport) (inner : Inner)
    (decl : InstanceDecl) : Inner :=
  let actual := reports.find? fun report => report.id = decl.id
  match desiredCommand decl actual (inner.commands node) with
  | none => inner
  | some command => inner.enqueue node command

/-- No queue has two commands with the same instance and operation. -/
def Distinct (inner : Inner) : Prop :=
  ∀ node, (inner.commands node).Pairwise fun first second =>
    ¬ (first.instance_ = second.instance_ ∧ first.op = second.op)

/-- Every instance is declared under its own id. -/
def Keyed (inner : Inner) : Prop :=
  ∀ id decl, inner.instances.get? id = some decl → decl.id = id

/-- Two registries have the same declarations. -/
structure Agrees (inner other : Inner) : Prop where
  flows : other.flows = inner.flows
  instances : other.instances = inner.instances
  routes : other.routes = inner.routes

/-- The registry when the commands are queued: the reports and the events are recorded. -/
def recorded (time : String) (beat : Heartbeat) (inner : Inner) : Inner :=
  (inner.stateTransitions beat.nodeId beat.instances).foldl
    (fun inner transition => inner.recordEventLocked time "state" transition)
    { inner with
      actual := inner.actual.insert beat.nodeId beat.instances
      lastSeen := inner.lastSeen.insert beat.nodeId beat.time }

end Definitions

variable {inner : Inner} {node other : String} {reports : List InstanceReport}
  {decl : InstanceDecl} {declared : List InstanceDecl} {op : String} {command : Command}

section Recording

theorem Agrees.trans {first second third : Inner} (one : Agrees first second)
    (other : Agrees second third) : Agrees first third :=
  ⟨other.flows.trans one.flows, other.instances.trans one.instances,
    other.routes.trans one.routes⟩

theorem agrees_recordEvents (time kind : String) (messages : List String) (inner : Inner) :
    Agrees inner (messages.foldl
      (fun inner message => inner.recordEventLocked time kind message) inner) := by
  induction messages generalizing inner with
  | nil => exact ⟨rfl, rfl, rfl⟩
  | cons message rest ih =>
      have one : Agrees inner (inner.recordEventLocked time kind message) := ⟨rfl, rfl, rfl⟩
      exact one.trans (ih _)

theorem agrees_recorded (time : String) (beat : Heartbeat) (inner : Inner) :
    Agrees inner (inner.recorded time beat) := by
  have reported : Agrees inner { inner with
      actual := inner.actual.insert beat.nodeId beat.instances
      lastSeen := inner.lastSeen.insert beat.nodeId beat.time } := ⟨rfl, rfl, rfl⟩
  exact reported.trans (agrees_recordEvents time "state" _ _)

@[simp] theorem commands_recorded (time : String) (beat : Heartbeat) (inner : Inner) :
    (inner.recorded time beat).commands = inner.commands :=
  (queues_recordEvents time "state" _ _).1

@[simp] theorem counter_recorded (time : String) (beat : Heartbeat) (inner : Inner) :
    (inner.recorded time beat).counter = inner.counter :=
  (queues_recordEvents time "state" _ _).2

@[simp] theorem instances_recorded (time : String) (beat : Heartbeat) (inner : Inner) :
    (inner.recorded time beat).instances = inner.instances :=
  (agrees_recorded time beat inner).instances

/-- A heartbeat queues commands for the declared instances of its node. -/
theorem heartbeat_snd (hash : HashOrder) (time : String) (beat : Heartbeat) :
    (inner.heartbeat hash time beat).2 =
      (inner.declaredFor hash beat.nodeId).foldl (queueFor beat.nodeId beat.instances)
        (inner.recorded time beat) := by
  have same : (inner.recorded time beat).declaredFor hash beat.nodeId =
      inner.declaredFor hash beat.nodeId := by
    unfold declaredFor
    rw [instances_recorded]
  rw [← same]
  rfl

/-- The answer has the whole queue of the node. -/
theorem heartbeat_commands (hash : HashOrder) (time : String) (beat : Heartbeat) :
    (inner.heartbeat hash time beat).1.commands =
      (inner.heartbeat hash time beat).2.commands beat.nodeId := rfl

theorem mem_declaredFor (hash : HashOrder) : decl ∈ inner.declaredFor hash node ↔
    (∃ id, inner.instances.get? id = some decl) ∧ decl.node = node := by
  unfold declaredFor
  rw [List.mem_filter, Assoc.mem_values, decide_eq_true_iff]

end Recording

section Queueing

/-- What is demanded is one operation. -/
theorem Demands.unique {second : String} (first : Demands reports decl op)
    (other : Demands reports decl second) : op = second := by
  obtain ⟨report, found, calls⟩ := first
  obtain ⟨same, found', calls'⟩ := other
  rw [found] at found'
  cases found'
  rw [calls] at calls'
  exact Option.some.inj calls'

/-- **One declaration.** Either nothing is queued, as nothing is demanded or an equal
command waits, or the demanded command is. -/
theorem queueFor_cases :
    (inner.queueFor node reports decl = inner ∧
        ∀ op, Demands reports decl op → ∃ command ∈ inner.commands node,
          Matches decl op command) ∨
      ∃ op, Demands reports decl op ∧
        (∀ command ∈ inner.commands node, ¬ Matches decl op command) ∧
        inner.queueFor node reports decl = inner.enqueue node ⟨0, op, decl.id⟩ := by
  unfold queueFor
  cases found : reports.find? fun report => report.id = decl.id with
  | none =>
      refine .inl ⟨rfl, ?_⟩
      rintro op ⟨report, present, -⟩
      rw [found] at present
      cases present
  | some report =>
      cases calls : operation decl.desired report.state with
      | none =>
          have queued : desiredCommand decl (some report) (inner.commands node) = none := by
            simp only [desiredCommand, Option.bind_eq_bind, Option.bind_some, calls,
              Option.bind_none]
          refine .inl ⟨by dsimp only; rw [queued], ?_⟩
          rintro op ⟨same, present, moves⟩
          rw [found] at present
          cases present
          rw [calls] at moves
          cases moves
      | some op =>
          have demanded : Demands reports decl op := ⟨report, found, calls⟩
          cases waits : (inner.commands node).any fun command =>
              command.instance_ = decl.id && command.op = op with
          | true =>
              have queued : desiredCommand decl (some report) (inner.commands node) = none := by
                simp only [desiredCommand, Option.bind_eq_bind, Option.bind_some, calls, waits,
                  if_true]
              refine .inl ⟨by dsimp only; rw [queued], fun second demands => ?_⟩
              rw [← demanded.unique demands]
              obtain ⟨command, member, equal⟩ := List.any_eq_true.mp waits
              rw [Bool.and_eq_true, decide_eq_true_iff, decide_eq_true_iff] at equal
              exact ⟨command, member, equal⟩
          | false =>
              have queued : desiredCommand decl (some report) (inner.commands node) =
                  some ⟨0, op, decl.id⟩ := by
                simp only [desiredCommand, Option.bind_eq_bind, Option.bind_some, calls, waits,
                  Bool.false_eq_true, if_false]
              refine .inr ⟨op, demanded, fun command member equal => ?_,
                by dsimp only; rw [queued]⟩
              have absent := List.any_eq_false.mp waits command member
              rw [Bool.and_eq_true, decide_eq_true_iff, decide_eq_true_iff] at absent
              exact absent equal

/-- Queueing keeps the declarations. -/
theorem agrees_queueFor : Agrees inner (inner.queueFor node reports decl) := by
  rcases @queueFor_cases inner node reports decl with ⟨same, -⟩ | ⟨op, -, -, same⟩
  · rw [same]
    exact ⟨rfl, rfl, rfl⟩
  · rw [same]
    exact ⟨rfl, rfl, rfl⟩

theorem counter_queueFor : inner.counter node ≤
    (inner.queueFor node reports decl).counter node := by
  rcases @queueFor_cases inner node reports decl with ⟨same, -⟩ | ⟨op, -, -, same⟩
  · rw [same]
  · rw [same, counter_enqueue, if_pos rfl]
    exact Nat.le_succ _

theorem counter_queueFor_of_ne (different : node ≠ other) :
    (inner.queueFor node reports decl).counter other = inner.counter other := by
  rcases @queueFor_cases inner node reports decl with ⟨same, -⟩ | ⟨op, -, -, same⟩
  · rw [same]
  · rw [same, counter_enqueue, if_neg different]

theorem commands_queueFor_of_ne (different : node ≠ other) :
    (inner.queueFor node reports decl).commands other = inner.commands other := by
  rcases @queueFor_cases inner node reports decl with ⟨same, -⟩ | ⟨op, -, -, same⟩
  · rw [same]
  · rw [same, commands_enqueue, if_neg different]

theorem Distinct.queueFor (distinct : inner.Distinct) :
    (inner.queueFor node reports decl).Distinct := by
  rcases @queueFor_cases inner node reports decl with ⟨same, -⟩ | ⟨op, -, absent, same⟩
  · rw [same]
    exact distinct
  · rw [same]
    intro other
    rw [commands_enqueue]
    by_cases here : node = other
    · rw [if_pos here, List.pairwise_append]
      refine ⟨distinct node, List.pairwise_singleton _ _, ?_⟩
      intro first member second new equal
      rw [List.mem_singleton.mp new] at equal
      exact absent first member equal
    · rw [if_neg here]
      exact distinct other

/-- What a declaration queues is demanded and numbered beyond the commands so far. -/
theorem mem_queueFor (member : command ∈ (inner.queueFor node reports decl).commands node) :
    command ∈ inner.commands node ∨ inner.counter node < command.seq ∧
      ∃ op, Demands reports decl op ∧ Matches decl op command := by
  rcases @queueFor_cases inner node reports decl with ⟨same, -⟩ | ⟨op, demands, -, same⟩
  · rw [same] at member
    exact .inl member
  · rw [same, commands_enqueue, if_pos rfl] at member
    rcases List.mem_append.mp member with old | new
    · exact .inl old
    · rw [List.mem_singleton.mp new]
      exact .inr ⟨Nat.lt_succ_self _, op, demands, rfl, rfl⟩

theorem subset_queueFor (member : command ∈ inner.commands node) :
    command ∈ (inner.queueFor node reports decl).commands node := by
  rcases @queueFor_cases inner node reports decl with ⟨same, -⟩ | ⟨op, -, -, same⟩
  · rw [same]
    exact member
  · rw [same, commands_enqueue, if_pos rfl]
    exact List.mem_append_left _ member

/-- Once its declaration has been looked at, a demanded command waits. -/
theorem queued_queueFor (demands : Demands reports decl op) :
    ∃ command ∈ (inner.queueFor node reports decl).commands node, Matches decl op command := by
  rcases @queueFor_cases inner node reports decl with ⟨same, waits⟩ | ⟨second, others, -, same⟩
  · rw [same]
    exact waits op demands
  · rw [same, commands_enqueue, if_pos rfl, demands.unique others]
    exact ⟨_, List.mem_append_right _ List.mem_cons_self, rfl, rfl⟩

end Queueing

section Folding

theorem agrees_queueAll :
    Agrees inner (declared.foldl (queueFor node reports) inner) := by
  induction declared generalizing inner with
  | nil => exact ⟨rfl, rfl, rfl⟩
  | cons decl rest ih => exact agrees_queueFor.trans ih

theorem commands_queueAll_of_ne (different : node ≠ other) :
    (declared.foldl (queueFor node reports) inner).commands other = inner.commands other := by
  induction declared generalizing inner with
  | nil => rfl
  | cons decl rest ih => rw [List.foldl_cons, ih, commands_queueFor_of_ne different]

theorem counter_queueAll :
    inner.counter node ≤ (declared.foldl (queueFor node reports) inner).counter node := by
  induction declared generalizing inner with
  | nil => exact Nat.le_refl _
  | cons decl rest ih => exact Nat.le_trans counter_queueFor ih

theorem counter_queueAll_of_ne (different : node ≠ other) :
    (declared.foldl (queueFor node reports) inner).counter other = inner.counter other := by
  induction declared generalizing inner with
  | nil => rfl
  | cons decl rest ih => rw [List.foldl_cons, ih, counter_queueFor_of_ne different]

theorem subset_queueAll (member : command ∈ inner.commands node) :
    command ∈ (declared.foldl (queueFor node reports) inner).commands node := by
  induction declared generalizing inner with
  | nil => exact member
  | cons decl rest ih => exact ih (subset_queueFor member)

theorem Distinct.queueAll (distinct : inner.Distinct) :
    (declared.foldl (Inner.queueFor node reports) inner).Distinct := by
  induction declared generalizing inner with
  | nil => exact distinct
  | cons decl rest ih => exact ih distinct.queueFor

theorem mem_queueAll
    (member : command ∈ (declared.foldl (queueFor node reports) inner).commands node) :
    command ∈ inner.commands node ∨ inner.counter node < command.seq ∧
      ∃ decl ∈ declared, ∃ op, Demands reports decl op ∧ Matches decl op command := by
  induction declared generalizing inner with
  | nil => exact .inl member
  | cons decl rest ih =>
      rcases ih member with earlier | ⟨beyond, other, inside, found⟩
      · rcases mem_queueFor earlier with old | ⟨beyond, found⟩
        · exact .inl old
        · exact .inr ⟨beyond, decl, List.mem_cons_self, found⟩
      · exact .inr ⟨Nat.lt_of_le_of_lt counter_queueFor beyond, other,
          List.mem_cons_of_mem _ inside, found⟩

theorem queued_queueAll (member : decl ∈ declared) (demands : Demands reports decl op) :
    ∃ command ∈ (declared.foldl (queueFor node reports) inner).commands node,
      Matches decl op command := by
  induction declared generalizing inner with
  | nil => cases member
  | cons first rest ih =>
      rcases List.mem_cons.mp member with rfl | inside
      · obtain ⟨command, queued, equal⟩ := @queued_queueFor inner node reports decl op demands
        exact ⟨command, @subset_queueAll (inner.queueFor node reports decl) node reports rest
          command queued, equal⟩
      · exact ih inside

end Folding

section Heartbeats

variable (hash : HashOrder) (time : String) (beat : Heartbeat)

/-- A heartbeat keeps the declarations. -/
theorem agrees_heartbeat : Agrees inner (inner.heartbeat hash time beat).2 := by
  rw [heartbeat_snd]
  exact (agrees_recorded time beat inner).trans agrees_queueAll

theorem instances_heartbeat : (inner.heartbeat hash time beat).2.instances = inner.instances :=
  (agrees_heartbeat hash time beat).instances

/-- A heartbeat leaves the queues of the other nodes. -/
theorem commands_heartbeat_of_ne (different : beat.nodeId ≠ other) :
    (inner.heartbeat hash time beat).2.commands other = inner.commands other := by
  rw [heartbeat_snd, commands_queueAll_of_ne different, commands_recorded]

theorem counter_heartbeat_of_ne (different : beat.nodeId ≠ other) :
    (inner.heartbeat hash time beat).2.counter other = inner.counter other := by
  rw [heartbeat_snd, counter_queueAll_of_ne different, counter_recorded]

theorem counter_heartbeat :
    inner.counter beat.nodeId ≤ (inner.heartbeat hash time beat).2.counter beat.nodeId := by
  rw [heartbeat_snd, ← counter_recorded time beat inner]
  exact counter_queueAll

theorem subset_heartbeat (member : command ∈ inner.commands beat.nodeId) :
    command ∈ (inner.heartbeat hash time beat).2.commands beat.nodeId := by
  rw [heartbeat_snd]
  apply subset_queueAll
  rw [commands_recorded]
  exact member

theorem Distinct.heartbeat (distinct : inner.Distinct) :
    (inner.heartbeat hash time beat).2.Distinct := by
  rw [heartbeat_snd]
  refine Distinct.queueAll fun node => ?_
  rw [commands_recorded]
  exact distinct node

/-- **What a heartbeat queues**: commands that the reports demand of the instances declared
for the node, numbered beyond its commands so far. -/
theorem mem_heartbeat
    (member : command ∈ (inner.heartbeat hash time beat).2.commands beat.nodeId) :
    command ∈ inner.commands beat.nodeId ∨ inner.counter beat.nodeId < command.seq ∧
      ∃ decl, (∃ id, inner.instances.get? id = some decl) ∧ decl.node = beat.nodeId ∧
        ∃ op, Demands beat.instances decl op ∧ Matches decl op command := by
  rw [heartbeat_snd] at member
  rcases mem_queueAll member with old | ⟨beyond, decl, inside, found⟩
  · rw [commands_recorded] at old
    exact .inl old
  · rw [counter_recorded] at beyond
    obtain ⟨present, here⟩ := (mem_declaredFor hash).mp inside
    exact .inr ⟨beyond, decl, present, here, found⟩

/-- **After a heartbeat every demanded command waits.** -/
theorem queued_heartbeat {id : String} (present : inner.instances.get? id = some decl)
    (here : decl.node = beat.nodeId) (demands : Demands beat.instances decl op) :
    ∃ command ∈ (inner.heartbeat hash time beat).2.commands beat.nodeId,
      Matches decl op command := by
  rw [heartbeat_snd]
  exact queued_queueAll ((mem_declaredFor hash).mpr ⟨⟨id, present⟩, here⟩) demands

end Heartbeats

section Declarations

theorem Distinct.congr {changed : Inner} (distinct : inner.Distinct)
    (commands : changed.commands = inner.commands) : changed.Distinct := by
  intro node
  rw [commands]
  exact distinct node

theorem Distinct.ack (distinct : inner.Distinct) (received : CommandAck) :
    (inner.ack received).Distinct := by
  intro node
  rw [commands_ack]
  exact (distinct node).filter _

/-- One queue has one command of an instance and an operation. -/
theorem Distinct.unique (distinct : inner.Distinct) {first second : Command}
    (one : first ∈ inner.commands node) (other : second ∈ inner.commands node)
    (matches_ : Matches decl op first) (also : Matches decl op second) : first = second := by
  have equal : ∀ first ∈ inner.commands node, ∀ second ∈ inner.commands node,
      first.instance_ = second.instance_ ∧ first.op = second.op → first = second := by
    apply List.Pairwise.forall_of_forall_of_flip
    · exact fun _ _ _ => rfl
    · exact (distinct node).imp fun apart same => absurd same apart
    · exact (distinct node).imp fun apart same => absurd ⟨same.1.symm, same.2.symm⟩ apart
  exact equal first one second other
    ⟨matches_.1.trans also.1.symm, matches_.2.trans also.2.symm⟩

theorem agrees_selectTargets (hash : HashOrder) (hashKeyOrder : String → String → Nat)
    (route : RouteDecl) (hashKey : Option String) (inner : Inner) :
    Agrees inner (inner.selectTargets hash hashKeyOrder route hashKey).2 := by
  unfold selectTargets
  split
  · exact ⟨rfl, rfl, rfl⟩
  · unfold orderTargets
    split <;> exact ⟨rfl, rfl, rfl⟩

theorem Keyed.perform (keyed : inner.Keyed) (call : RegistryCall) :
    (inner.perform call).Keyed := by
  have entries : inner.instances.Keyed InstanceDecl.id := keyed
  cases call with
  | declareInstance decl => exact entries.insert rfl
  | removeInstance removed => exact entries.erase removed
  | setDesired name desired =>
      unfold Inner.perform setDesired
      dsimp only
      cases declared : inner.instances.get? name with
      | none => exact keyed
      | some decl => exact entries.insert (keyed name decl declared)
  | selectTargets hash hashKeyOrder route hashKey =>
      have same := (agrees_selectTargets hash hashKeyOrder route hashKey inner).instances
      unfold Inner.perform Inner.Keyed
      dsimp only
      rw [same]
      exact keyed
  | _ => exact keyed

theorem Keyed.heartbeat (keyed : inner.Keyed) (hash : HashOrder) (time : String)
    (beat : Heartbeat) : (inner.heartbeat hash time beat).2.Keyed := by
  intro id found present
  rw [instances_heartbeat] at present
  exact keyed id found present

theorem keyed_load (flows : List FlowDecl) (instances : List InstanceDecl)
    (routes : List RouteDecl) : (load flows instances routes).Keyed :=
  Assoc.keyed_collect instances

end Declarations

end Inner

end Sohara
