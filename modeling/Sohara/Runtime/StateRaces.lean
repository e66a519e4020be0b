import Sohara.Async.Serial
import Sohara.Async.Tracking
import Sohara.Runtime.RunMeaning
import Sohara.Runtime.TracedRun

/-! # State steps side by side

A state step reads its state twice, evaluates its fields, and writes the state, and other
walks may come between any two of these operations. The updates are those of some serial
order as long as every write finds the state that its visit has read.
-/

namespace Sohara

open Async Async.Program

/-- A field put into a state. -/
def putField (field : String) (value : Value) : Value → Value
  | .object fields => .object (Assoc.insert field value fields)
  | other => other

/-- What the fields of a state step are evaluated against. -/
def syntheticValue (payload : Value) : Option Value → Value
  | some state => .object [("record", payload), ("state", state)]
  | none => payload

/-- How far a visit of a state step has got. -/
inductive Updating where
  | idle
  | read (first : Option Value)
  /-- Both reads are done, some fields are left, and the others have been put. -/
  | evaluating (first second : Option Value) (left : List (String × Expr)) (state : Value)
  | applied

namespace Updating

variable (executor : Executor) (name : String) (exprs : List (String × Expr)) (record : Record)

/-- What a visit of a state step may do next. -/
def permits : Updating → Op → Prop
  | .read _, op => op = .stateOf name
  | .evaluating first _ ((_, expr) :: _) _, op =>
      op = .eval executor.platform ⟨executor.vars⟩ expr (syntheticValue record.payload first)
  | .evaluating _ _ [] state, op => op = .setState name state
  | .idle, .stateOf other => other = name
  | _, op => ∀ value, op ≠ .setState name value

/-- How a response moves an update on. -/
def advance : Updating → (op : Op) → op.Response → Updating
  | .idle, .stateOf _, value => .read value
  | .read first, .stateOf _, value => .evaluating first value exprs (value.getD (.object []))
  | .evaluating first second ((field, _) :: left) state, .eval _ _ _ _, .ok value =>
      .evaluating first second left (putField field value state)
  | .evaluating _ _ _ _, .eval _ _ _ _, .error _ => .applied
  | .evaluating _ _ _ _, .setState _ _, _ => .applied
  | state, _, _ => state

/-- The updates of a state step. -/
def protocol : Protocol Engine Updating := ⟨.idle, permits executor name record, advance exprs⟩

/-- The first value read by an update under way. -/
def first? : Updating → Option (Option Value)
  | .read first => some first
  | .evaluating first _ _ _ => some first
  | _ => none

/-- Visits that do not write the state. -/
def passing : Protocol Engine Updating :=
  ⟨.idle, fun _ op => ∀ value, op ≠ .setState name value, fun state _ _ => state⟩

/-- Any response. -/
def Admits (op : Op) (_ : op.Response) : Prop := True

end Updating

namespace Executor

variable (executor : Executor) (name : String) (exprs : List (String × Expr))

/-- The record a visit has brought to a node. -/
def brings (visit : Visit Engine) : Option Record :=
  match visit.call with
  | some call => if call.node = name then some call.record else none
  | none => none

/-- The automaton of each visit. -/
def updates (visit : Visit Engine) : Protocol Engine Updating :=
  match brings name visit with
  | some record => Updating.protocol executor name exprs record
  | none => Updating.passing name

/-- How far each visit has got in a run. -/
noncomputable def updating (host : Host) (steps : List (Occurrence (Traced Engine) World))
    (visit : Visit Engine) : Updating :=
  progress (executor.updates name exprs) (World.perform host) steps visit

end Executor

section Conformance

variable {executor : Executor} {name : String} {exprs : List (String × Expr)} {record : Record}
  {node : Node}

namespace Executor

variable (executor name exprs record) in
/-- The program updates the state from the given point on. -/
abbrev Updates {α : Type} (post : α → Updating → Prop) (program : Prog α) (state : Updating) :
    Prop :=
  program.Conforms Updating.Admits executor.Known
    (Updating.protocol executor name exprs record) post state

/-- After its update a visit may do anything but write the state. -/
theorem updates_applied {α : Type} {program : Prog α}
    (safe : Safe (S := Engine) Updating.Admits (fun op => ∀ value, op ≠ .setState name value)
      executor.Known program) :
    executor.Updates name exprs record (fun _ state => state = .applied) program .applied := by
  refine conforms_of_safe ?_
  exact safe.mono (fun op silent => ⟨silent, fun _ => rfl⟩) (fun _ => id) fun _ => id

/-- Nodes other than the state step do not write its state. -/
theorem allows_silent (node : Node)
    (other : ∀ exprs, node.step = .control (.state exprs) → node.id ≠ name) :
    executor.Allows (fun op => ∀ value, op ≠ .setState name value) node where
  quiet op quiet value same := by
    rw [same] at quiet
    exact quiet
  state _ _ _ := Op.noConfusion
  send _ _ _ := Op.noConfusion
  lookup _ _ _ := Op.noConfusion
  marker _ _ _ := Op.noConfusion
  queue _ _ _ := Op.noConfusion
  park _ _ _ _ := Op.noConfusion
  wait _ _ _ := Op.noConfusion
  join _ _ _ _ _ _ _ _ := Op.noConfusion
  update isState value written same := by
    obtain ⟨exprs, isState⟩ := isState
    cases same
    exact other exprs isState rfl
  collect _ _ _ _ _ := Op.noConfusion
  merge _ _ := Op.noConfusion
  emit _ _ _ := Op.noConfusion

/-- Before its update a visit evaluates its guard. -/
theorem updates_nodeOpen (payload : Value) :
    executor.Updates name exprs record (fun _ state => state = .idle)
      (executor.nodeOpen node payload) .idle := by
  unfold nodeOpen
  cases node.when_ with
  | none => exact conforms_pure rfl
  | some guard =>
      have rests : ∀ op : Op, (∀ value, op ≠ .setState name value) →
          (∀ other, op ≠ .stateOf other) →
          executor.Updates name exprs record (fun _ state => state = .idle) (.op (S := Engine) op)
            .idle := by
        intro op silent blind
        cases op with
        | stateOf other => exact absurd rfl (blind other)
        | _ => exact conforms_op silent fun _ _ => rfl
      have evaluated := rests (.eval executor.platform ⟨executor.vars⟩ guard payload)
        (fun _ => Op.noConfusion) fun _ => Op.noConfusion
      refine evaluated.bind fun result state after => ?_
      subst after
      cases result with
      | ok value => exact conforms_pure rfl
      | error failure =>
          refine (rests (.count .errors) (fun _ => Op.noConfusion)
            fun _ => Op.noConfusion).bind fun _ state after => ?_
          subst after
          refine (rests (.tickStep node.id .errors) (fun _ => Op.noConfusion)
            fun _ => Op.noConfusion).bind fun _ state after => ?_
          subst after
          refine (rests (.recordError node.id "when" failure.text) (fun _ => Op.noConfusion)
            fun _ => Op.noConfusion).bind fun _ state after => ?_
          exact conforms_pure after

theorem updates_evalValue (named : node.id = name) : executor.Updates name exprs record
    (fun synthetic state => ∃ first, state = .read first ∧
      synthetic = syntheticValue record.payload first) (evalValue node record) .idle := by
  subst named
  have read : executor.Updates node.id exprs record (fun first state => state = .read first)
      (Perform.stateOf node.id) .idle := conforms_op rfl fun _ _ => rfl
  refine read.bind fun first state after => ?_
  cases first with
  | none => exact conforms_pure ⟨none, after, rfl⟩
  | some value => exact conforms_pure ⟨some value, after, rfl⟩

theorem updates_stateValue (first : Option Value) : executor.Updates name exprs record
    (fun base state => ∃ second, state = .evaluating first second exprs base)
      (stateValue name) (.read first) := by
  have read : executor.Updates name exprs record
      (fun second state => state = .evaluating first second exprs (second.getD (.object [])))
        (Perform.stateOf name) (.read first) := conforms_op rfl fun _ _ => rfl
  refine read.bind fun second state after => ?_
  cases second with
  | none => exact conforms_pure ⟨none, after⟩
  | some value => exact conforms_pure ⟨some value, after⟩

theorem updates_evalState (first second : Option Value) (left : List (String × Expr))
    (state : Value) : executor.Updates name exprs record
      (fun result after => after = (result.map (.evaluating first second [])).getD .applied)
      (executor.evalState (syntheticValue record.payload first) left state)
      (.evaluating first second left state) := by
  induction left generalizing state with
  | nil => exact conforms_pure (rfl : Updating.evaluating first second [] state = _)
  | cons entry left ih =>
      obtain ⟨field, expr⟩ := entry
      have evaluated : executor.Updates name exprs record
          (fun result after => after =
            Updating.advance exprs (.evaluating first second ((field, expr) :: left) state)
              (.eval executor.platform ⟨executor.vars⟩ expr (syntheticValue record.payload first))
              result)
          (executor.evalExpr expr (syntheticValue record.payload first))
          (.evaluating first second ((field, expr) :: left) state) :=
        conforms_op rfl fun response _ => rfl
      refine evaluated.bind fun result after same => ?_
      subst same
      cases result with
      | ok value => exact ih _
      | error _ =>
          have counted : executor.Updates name exprs record (fun _ after => after = .applied)
              (Perform.count .errors) .applied :=
            conforms_op (fun _ => Op.noConfusion) fun _ _ => rfl
          exact counted.bind fun _ _ after => conforms_pure after

theorem updates_updateState (first second : Option Value) (state : Value) :
    executor.Updates name exprs record (fun _ after => after = .applied)
      (executor.updateState name state) (.evaluating first second [] state) := by
  have written : executor.Updates name exprs record (fun _ after => after = .applied)
      (Perform.setState name state) (.evaluating first second [] state) :=
    conforms_op rfl fun _ _ => rfl
  refine written.bind fun _ after same => ?_
  subst same
  have saved : Safe (S := Engine) Updating.Admits (fun op => ∀ value, op ≠ .setState name value)
      executor.Known (do
        if ← Perform.hasStore then
          let _ ← Perform.save (executor.stateKey name) state
          return ()
        else return () : Prog Unit) := by
    refine Safe.bind (safe_op fun _ => Op.noConfusion) fun stored => ?_
    cases stored with
    | false => exact safe_pure _
    | true => exact Safe.bind (safe_op fun _ => Op.noConfusion) fun _ => safe_pure _
  exact updates_applied saved

/-- **A state step reads twice, evaluates and writes.** -/
theorem updates_applyState (named : node.id = name) (known : executor.Leads executor.Known node) :
    executor.Updates name exprs record (fun _ _ => True) (executor.applyState node exprs record)
      .idle := by
  refine (updates_evalValue named).bind fun synthetic state after => ?_
  obtain ⟨first, rfl, rfl⟩ := after
  subst named
  refine (updates_stateValue first).bind fun base state after => ?_
  obtain ⟨second, rfl⟩ := after
  refine (updates_evalState first second exprs base).bind fun result state after => ?_
  cases result with
  | none => exact conforms_pure trivial
  | some final =>
      subst after
      refine (updates_updateState first second final).bind fun _ state after => ?_
      subst after
      exact (updates_applied (safe_route (allows_silent default fun _ => nofun).performs known
        record)).mono
        fun _ _ _ => trivial

/-- **The walk of a state step is an update.** -/
theorem updates_walk (found : executor.graph.node name = some node)
    (isState : node.step = .control (.state exprs)) (named : node.id = name)
    (known : executor.Leads executor.Known node) :
    executor.Updates name exprs record (fun _ _ => True) (executor.walk record name) .idle := by
  unfold walk
  rw [found]
  refine (updates_nodeOpen record.payload).bind fun isOpen state after => ?_
  subst after
  cases isOpen with
  | false => exact conforms_pure trivial
  | true =>
      unfold applyStep
      rw [isState]
      exact updates_applyState named known

end Executor

end Conformance

section Serial

variable (executor : Executor) (host : Host) (name : String) (exprs : List (String × Expr))

/-- The fields of a state step evaluated one after the other and put into a state; `none`
when one fails. -/
def putFields (draws : Nat → Draws) (synthetic : Value) : List (String × Expr) → Value →
    Option Value
  | [], state => some state
  | (field, expr) :: left, state =>
      match eval executor.platform (draws left.length) ⟨executor.vars⟩ expr [] synthetic with
      | .ok value => putFields draws synthetic left (putField field value state)
      | .error _ => none

/-- One record applied to a state; a failing evaluation leaves it alone. -/
def applyRecord (draws : Nat → Draws) (record : Record) (state : Option Value) : Option Value :=
  match putFields executor draws (syntheticValue record.payload state) exprs
      (state.getD (.object [])) with
  | some next => some next
  | none => state

/-- The record of a visit, applied with the draws of given times. -/
def applyVisit (entry : Visit Engine × (Nat → Nat)) (state : Option Value) : Option Value :=
  match Executor.brings name entry.1 with
  | some record => applyRecord executor exprs (fun left => host.draws (entry.2 left)) record state
  | none => state

/-- The state is the one that the visits that have updated it give one after the other. -/
def Serializable (start : Option Value) (steps : List (Occurrence (Traced Engine) World))
    (current : Option Value) : Prop :=
  ∃ order : List (Visit Engine × (Nat → Nat)), (order.map Prod.fst).Nodup ∧
    (∀ visit, visit ∈ order.map Prod.fst ↔
      executor.updating name exprs host steps visit = .applied) ∧
      serially (applyVisit executor host name exprs) order start = current

/-- When a visit writes the state, the state is still what the visit has read. -/
def WritesUndisturbed (before : List (Occurrence (Traced Engine) World))
    (step : Occurrence (Traced Engine) World) : Prop :=
  ∀ value, step.op.1 = .setState name value → ∀ read ∈ before,
    read.op = (.stateOf name, step.op.2) → read.world.states.get? name = step.world.states.get? name

/-- A visit has read a value of the state. -/
def HasRead (steps : List (Occurrence (Traced Engine) World)) (visit : Visit Engine)
    (value : Option Value) : Prop :=
  ∃ read ∈ steps, read.op = (.stateOf name, visit) ∧ read.world.states.get? name = value

/-- Evaluating all fields from the values read comes to the same as evaluating the fields
that are left. -/
def Partly (record : Record) (first second : Option Value) (left : List (String × Expr))
    (state : Value) : Prop :=
  ∃ chosen : Nat → Nat, ∀ times : Nat → Nat,
    (∀ count, left.length ≤ count → times count = chosen count) →
    putFields executor (fun count => host.draws (times count))
        (syntheticValue record.payload first) exprs (second.getD (.object [])) =
      putFields executor (fun count => host.draws (times count))
        (syntheticValue record.payload first) left state

/-- What holds of the updates along a run. -/
structure Serialized (start : Option Value) (steps : List (Occurrence (Traced Engine) World))
    (world : World) : Prop where
  writers : ∀ step ∈ steps, ∀ value, step.op.1 = .setState name value →
    executor.updating name exprs host steps step.op.2 = .applied
  reads : ∀ visit first, (executor.updating name exprs host steps visit).first? = some first →
    HasRead name steps visit first
  partly : ∀ visit first second left state,
    executor.updating name exprs host steps visit = .evaluating first second left state →
      HasRead name steps visit second ∧ ∃ record, Executor.brings name visit = some record ∧
        Partly executor host exprs record first second left state
  order : EachStep (WritesUndisturbed name) steps →
    ∃ order : List (Visit Engine × (Nat → Nat)), (order.map Prod.fst).Nodup ∧
      (∀ visit, visit ∈ order.map Prod.fst ↔
        executor.updating name exprs host steps visit = .applied) ∧
      serially (applyVisit executor host name exprs) order start = world.states.get? name ∧
      ∀ visit first, (executor.updating name exprs host steps visit).first? = some first →
        Passes (applyVisit executor host name exprs) order start first

end Serial

section Steps

variable {executor : Executor} {host : Host} {name : String} {exprs : List (String × Expr)}
  {steps : List (Occurrence (Traced Engine) World)} {world : World} {index : Nat} {op : Op}
  {visit other : Visit Engine} {record : Record} {start : Option Value}

/-- States change by writes only. -/
theorem states_perform (silent : ∀ value, op ≠ .setState name value) :
    (World.perform host world op).2.states.get? name = world.states.get? name := by
  rw [World.perform_states]
  cases op with
  | setState other value =>
      refine Assoc.get?_insert_of_ne ?_ value world.states
      rintro rfl
      exact silent value rfl
  | _ => rfl

/-- Operations that write no state leave it alone. -/
theorem states_of_history {after : World} {steps : List (Occurrence Engine World)}
    (history : History (World.perform host) world steps after)
    (silent : Permitted (S := Engine) (fun op => ∀ value, op ≠ .setState name value) steps) :
    (∀ step ∈ steps, step.world.states.get? name = world.states.get? name) ∧
      after.states.get? name = world.states.get? name := by
  induction history with
  | nil => exact ⟨(fun _ member => nomatch member), rfl⟩
  | snoc _ task op ih =>
      obtain ⟨earlier, here⟩ := ih fun step member => silent step (List.mem_append_left _ member)
      have last := silent _ (List.mem_append_right _ List.mem_cons_self)
      refine ⟨fun step member => ?_, (states_perform last).trans here⟩
      rcases List.mem_append.mp member with old | new
      · exact earlier step old
      · rw [List.mem_singleton.mp new]
        exact here

@[simp] theorem updating_nil : executor.updating name exprs host [] visit = .idle := by
  refine progress_nil.trans ?_
  unfold Executor.updates
  cases Executor.brings name visit <;> rfl

theorem updating_of_ne (differ : other ≠ visit) :
    executor.updating name exprs host (steps ++ [⟨index, world, (op, visit)⟩]) other =
      executor.updating name exprs host steps other :=
  progress_snoc_of_ne fun same => differ same.symm

theorem updating_self (brings : Executor.brings name visit = some record) :
    executor.updating name exprs host (steps ++ [⟨index, world, (op, visit)⟩]) visit =
      Updating.advance exprs (executor.updating name exprs host steps visit) op
        (World.perform host world op).1 := by
  refine progress_snoc_self.trans ?_
  unfold Executor.updates
  rw [brings]
  rfl

theorem updating_passing (passes : Executor.brings name visit = none) :
    executor.updating name exprs host (steps ++ [⟨index, world, (op, visit)⟩]) visit =
      executor.updating name exprs host steps visit := by
  refine progress_snoc_self.trans ?_
  unfold Executor.updates
  rw [passes]
  rfl

theorem HasRead.snoc {value : Option Value} (read : HasRead name steps visit value)
    (step : Occurrence (Traced Engine) World) : HasRead name (steps ++ [step]) visit value := by
  obtain ⟨earlier, member, rest⟩ := read
  exact ⟨earlier, List.mem_append_left _ member, rest⟩

/-- Whether an evaluation fails does not depend on the state it is put into. -/
theorem putFields_eq_none {draws : Nat → Draws} {synthetic : Value} {left : List (String × Expr)}
    {state another : Value} (fails : putFields executor draws synthetic left state = none) :
    putFields executor draws synthetic left another = none := by
  induction left generalizing state another with
  | nil => cases fails
  | cons entry left ih =>
      obtain ⟨field, expr⟩ := entry
      unfold putFields at fails ⊢
      cases result :
          eval executor.platform (draws left.length) ⟨executor.vars⟩ expr [] synthetic with
      | ok value =>
          rw [result] at fails
          exact ih fails
      | error _ => rfl

namespace Serialized

/-- Steps that do not write the state, by which no update ends. -/
theorem moves (holds : Serialized executor host name exprs start steps world)
    (silent : ∀ value, op ≠ .setState name value)
    (kept : executor.updating name exprs host (steps ++ [⟨index, world, (op, visit)⟩]) visit =
      .applied ↔ executor.updating name exprs host steps visit = .applied)
    (reads : ∀ first, (executor.updating name exprs host
      (steps ++ [⟨index, world, (op, visit)⟩]) visit).first? = some first →
        HasRead name (steps ++ [⟨index, world, (op, visit)⟩]) visit first ∧
          (first = world.states.get? name ∨
            (executor.updating name exprs host steps visit).first? = some first))
    (partly : ∀ first second left state, executor.updating name exprs host
      (steps ++ [⟨index, world, (op, visit)⟩]) visit = .evaluating first second left state →
        HasRead name (steps ++ [⟨index, world, (op, visit)⟩]) visit second ∧
          ∃ record, Executor.brings name visit = some record ∧
            Partly executor host exprs record first second left state) :
    Serialized executor host name exprs start (steps ++ [⟨index, world, (op, visit)⟩])
      (World.perform host world op).2 := by
  have applied : ∀ other, executor.updating name exprs host
      (steps ++ [⟨index, world, (op, visit)⟩]) other = .applied ↔
        executor.updating name exprs host steps other = .applied := by
    intro other
    by_cases own : other = visit
    · rw [own, kept]
    · rw [updating_of_ne own]
  refine ⟨fun step member value writes => ?_, fun other first reading => ?_,
    fun other first second left state evaluating => ?_, fun undisturbed => ?_⟩
  · rw [applied]
    rcases List.mem_append.mp member with old | new
    · exact holds.writers step old value writes
    · rw [List.mem_singleton.mp new] at writes
      exact absurd writes (silent value)
  · by_cases own : other = visit
    · rw [own] at reading ⊢
      exact (reads first reading).1
    · rw [updating_of_ne own] at reading
      exact (holds.reads other first reading).snoc _
  · by_cases own : other = visit
    · rw [own] at evaluating ⊢
      exact partly first second left state evaluating
    · rw [updating_of_ne own] at evaluating
      obtain ⟨read, rest⟩ := holds.partly other first second left state evaluating
      exact ⟨read.snoc _, rest⟩
  · obtain ⟨order, nodup, exactly, reached, passes⟩ := holds.order (eachStep_snoc.mp undisturbed).1
    refine ⟨order, nodup, fun other => (exactly other).trans (applied other).symm, ?_,
      fun other first reading => ?_⟩
    · rw [states_perform silent]
      exact reached
    · by_cases own : other = visit
      · rw [own] at reading
        rcases (reads first reading).2 with rfl | before
        · rw [← reached]
          exact passes_last
        · exact passes visit first before
      · rw [updating_of_ne own] at reading
        exact passes other first reading

/-- Steps that leave all updates where they are and do not write the state. -/
theorem quiet (holds : Serialized executor host name exprs start steps world)
    (silent : ∀ value, op ≠ .setState name value)
    (same : executor.updating name exprs host (steps ++ [⟨index, world, (op, visit)⟩]) visit =
      executor.updating name exprs host steps visit) :
    Serialized executor host name exprs start (steps ++ [⟨index, world, (op, visit)⟩])
      (World.perform host world op).2 := by
  refine holds.moves silent (by rw [same]) (fun first reading => ?_)
    fun first second left state evaluating => ?_
  · rw [same] at reading
    exact ⟨(holds.reads visit first reading).snoc _, .inr reading⟩
  · rw [same] at evaluating
    obtain ⟨read, rest⟩ := holds.partly visit first second left state evaluating
    exact ⟨read.snoc _, rest⟩

/-- A visit that ends its update: its place in the order is all that is needed. -/
theorem ends (holds : Serialized executor host name exprs start steps world)
    (unapplied : executor.updating name exprs host steps visit ≠ .applied)
    (applied : executor.updating name exprs host (steps ++ [⟨index, world, (op, visit)⟩]) visit =
      .applied)
    (place : EachStep (WritesUndisturbed name) (steps ++ [⟨index, world, (op, visit)⟩]) →
      ∀ order, serially (applyVisit executor host name exprs) order start = world.states.get? name →
        (∀ other first, (executor.updating name exprs host steps other).first? = some first →
          Passes (applyVisit executor host name exprs) order start first) →
        ∃ times larger, larger.Perm ((visit, times) :: order) ∧
          serially (applyVisit executor host name exprs) larger start =
            (World.perform host world op).2.states.get? name ∧
          ∀ first, Passes (applyVisit executor host name exprs) order start first →
            Passes (applyVisit executor host name exprs) larger start first) :
    Serialized executor host name exprs start (steps ++ [⟨index, world, (op, visit)⟩])
      (World.perform host world op).2 := by
  refine ⟨fun step member value writes => ?_, fun other first reading => ?_,
    fun other first second left state evaluating => ?_, fun undisturbed => ?_⟩
  · by_cases same : step.op.2 = visit
    · rw [same, applied]
    · rw [updating_of_ne same]
      rcases List.mem_append.mp member with old | new
      · exact holds.writers step old value writes
      · rw [List.mem_singleton.mp new] at same
        exact absurd rfl same
  · by_cases same : other = visit
    · rw [same, applied] at reading
      cases reading
    · rw [updating_of_ne same] at reading
      exact (holds.reads other first reading).snoc _
  · by_cases same : other = visit
    · rw [same, applied] at evaluating
      cases evaluating
    · rw [updating_of_ne same] at evaluating
      obtain ⟨read, rest⟩ := holds.partly other first second left state evaluating
      exact ⟨read.snoc _, rest⟩
  · obtain ⟨order, nodup, exactly, reached, passes⟩ := holds.order (eachStep_snoc.mp undisturbed).1
    obtain ⟨times, larger, perm, arrives, keeps⟩ := place undisturbed order reached passes
    have visits : (larger.map Prod.fst).Perm (visit :: order.map Prod.fst) := perm.map Prod.fst
    refine ⟨larger, ?_, fun other => ?_, arrives, fun other first reading => ?_⟩
    · rw [visits.nodup_iff, List.nodup_cons]
      exact ⟨fun member => unapplied ((exactly visit).mp member), nodup⟩
    · rw [visits.mem_iff, List.mem_cons]
      by_cases same : other = visit
      · rw [same, applied]
        exact iff_of_true (.inl rfl) rfl
      · rw [updating_of_ne same, ← exactly other]
        exact or_iff_right same
    · by_cases same : other = visit
      · rw [same, applied] at reading
        cases reading
      · rw [updating_of_ne same] at reading
        exact keeps first (passes other first reading)

/-- A failing evaluation: the record takes its place where the state is what it has read. -/
theorem fails (holds : Serialized executor host name exprs start steps world)
    {first second : Option Value} {field : String} {expr : Expr} {left : List (String × Expr)}
    {state : Value} {failure : ExprError} (brings : Executor.brings name visit = some record)
    (evaluating : executor.updating name exprs host steps visit =
      .evaluating first second ((field, expr) :: left) state)
    (failed : eval executor.platform (host.draws world.asked) ⟨executor.vars⟩ expr []
      (syntheticValue record.payload first) = .error failure) :
    Serialized executor host name exprs start
      (steps ++ [⟨index, world, (.eval executor.platform ⟨executor.vars⟩ expr
        (syntheticValue record.payload first), visit)⟩])
      (World.perform host world (.eval executor.platform ⟨executor.vars⟩ expr
        (syntheticValue record.payload first))).2 := by
  have moved := @updating_self executor host name exprs steps world index
    (.eval executor.platform ⟨executor.vars⟩ expr (syntheticValue record.payload first)) visit
      record brings
  have response : (World.perform host world (.eval executor.platform ⟨executor.vars⟩ expr
      (syntheticValue record.payload first))).1 = .error failure := failed
  rw [evaluating, response] at moved
  refine holds.ends (by rw [evaluating]; exact Updating.noConfusion) moved ?_
  intro _ order reached passes
  have seen : Passes (applyVisit executor host name exprs) order start first :=
    passes visit first (by rw [evaluating]; rfl)
  obtain ⟨-, other, same, chosen, partly⟩ := holds.partly visit first second _ state evaluating
  rw [brings] at same
  cases same
  let times := Function.update chosen left.length world.asked
  have fails : putFields executor (fun count => host.draws (times count))
      (syntheticValue record.payload first) exprs (second.getD (.object [])) = none := by
    refine (partly times fun count beyond => ?_).trans ?_
    · exact Function.update_of_ne (Nat.ne_of_gt beyond) _ _
    · unfold putFields
      have drawn : times left.length = world.asked := Function.update_self ..
      rw [drawn, failed]
  have neutral : applyVisit executor host name exprs (visit, times) first = first := by
    unfold applyVisit applyRecord
    rw [brings]
    simp only [putFields_eq_none fails]
  obtain ⟨larger, perm, arrives, keeps⟩ := seen.insert neutral
  exact ⟨times, larger, perm, arrives.trans reached, keeps⟩

/-- A write that finds the state its visit has read. -/
theorem writes (holds : Serialized executor host name exprs start steps world)
    {first second : Option Value} {state : Value}
    (brings : Executor.brings name visit = some record)
    (evaluating : executor.updating name exprs host steps visit =
      .evaluating first second [] state) :
    Serialized executor host name exprs start
      (steps ++ [⟨index, world, (.setState name state, visit)⟩])
      (World.perform host world (.setState name state)).2 := by
  have moved := @updating_self executor host name exprs steps world index (.setState name state)
    visit record brings
  rw [evaluating] at moved
  refine holds.ends (by rw [evaluating]; exact Updating.noConfusion) moved ?_
  intro undisturbed order reached _
  have unchanged : ∀ value, HasRead name steps visit value → value = world.states.get? name := by
    rintro value ⟨read, member, same, rfl⟩
    exact (eachStep_snoc.mp undisturbed).2 state rfl read member same
  obtain ⟨again, other, same, chosen, partly⟩ := holds.partly visit first second [] state evaluating
  obtain rfl := unchanged first (holds.reads visit first (by rw [evaluating]; rfl))
  obtain rfl := unchanged second again
  rw [brings] at same
  cases same
  have written : applyVisit executor host name exprs (visit, chosen) (world.states.get? name) =
      some state := by
    unfold applyVisit applyRecord
    rw [brings]
    simp only [partly chosen fun _ _ => rfl, putFields]
  refine ⟨chosen, order ++ [(visit, chosen)], List.perm_append_singleton .., ?_,
    fun first passes => passes.snoc _⟩
  rw [serially_append, reached, serially_cons, serially_nil, written, World.perform_states]
  exact (Assoc.get?_insert_self name state world.states).symm

/-- The first read. -/
theorem readsFirst (holds : Serialized executor host name exprs start steps world)
    (brings : Executor.brings name visit = some record)
    (idle : executor.updating name exprs host steps visit = .idle) :
    Serialized executor host name exprs start (steps ++ [⟨index, world, (.stateOf name, visit)⟩])
      world := by
  have moved := @updating_self executor host name exprs steps world index (.stateOf name) visit
    record brings
  rw [idle] at moved
  have moved : executor.updating name exprs host (steps ++ [⟨index, world, (.stateOf name, visit)⟩])
      visit = .read (world.states.get? name) := moved
  refine holds.moves (fun _ => Op.noConfusion) ?_ (fun first reading => ?_)
    fun first second left state evaluating => ?_
  · rw [moved, idle]
    exact ⟨Updating.noConfusion, Updating.noConfusion⟩
  · rw [moved] at reading
    obtain rfl : world.states.get? name = first := Option.some.inj reading
    exact ⟨⟨_, List.mem_append_right _ List.mem_cons_self, rfl, rfl⟩, .inl rfl⟩
  · rw [moved] at evaluating
    cases evaluating

/-- The second read. -/
theorem readsSecond (holds : Serialized executor host name exprs start steps world)
    {first : Option Value} (brings : Executor.brings name visit = some record)
    (read : executor.updating name exprs host steps visit = .read first) :
    Serialized executor host name exprs start (steps ++ [⟨index, world, (.stateOf name, visit)⟩])
      world := by
  have moved := @updating_self executor host name exprs steps world index (.stateOf name) visit
    record brings
  rw [read] at moved
  have moved : executor.updating name exprs host (steps ++ [⟨index, world, (.stateOf name, visit)⟩])
      visit = .evaluating first (world.states.get? name) exprs
        ((world.states.get? name).getD (.object [])) := moved
  refine holds.moves (fun _ => Op.noConfusion) ?_ (fun seen reading => ?_)
    fun first' second left state evaluating => ?_
  · rw [moved, read]
    exact ⟨Updating.noConfusion, Updating.noConfusion⟩
  · rw [moved] at reading
    rw [read]
    exact ⟨(holds.reads visit seen (by rw [read]; exact reading)).snoc _, .inr reading⟩
  · rw [moved] at evaluating
    cases evaluating
    exact ⟨⟨_, List.mem_append_right _ List.mem_cons_self, rfl, rfl⟩, record, brings, fun _ => 0,
      fun _ _ => rfl⟩

/-- An evaluation that succeeds. -/
theorem evaluates (holds : Serialized executor host name exprs start steps world)
    {first second : Option Value} {field : String} {expr : Expr} {left : List (String × Expr)}
    {state value : Value} (brings : Executor.brings name visit = some record)
    (evaluating : executor.updating name exprs host steps visit =
      .evaluating first second ((field, expr) :: left) state)
    (result : eval executor.platform (host.draws world.asked) ⟨executor.vars⟩ expr []
      (syntheticValue record.payload first) = .ok value) :
    Serialized executor host name exprs start
      (steps ++ [⟨index, world, (.eval executor.platform ⟨executor.vars⟩ expr
        (syntheticValue record.payload first), visit)⟩])
      (World.perform host world (.eval executor.platform ⟨executor.vars⟩ expr
        (syntheticValue record.payload first))).2 := by
  have moved := @updating_self executor host name exprs steps world index
    (.eval executor.platform ⟨executor.vars⟩ expr (syntheticValue record.payload first)) visit
      record brings
  have response : (World.perform host world (.eval executor.platform ⟨executor.vars⟩ expr
      (syntheticValue record.payload first))).1 = .ok value := result
  rw [evaluating, response] at moved
  have moved : executor.updating name exprs host (steps ++ [⟨index, world,
      (.eval executor.platform ⟨executor.vars⟩ expr (syntheticValue record.payload first), visit)⟩])
        visit = .evaluating first second left (putField field value state) := moved
  have reading : (executor.updating name exprs host steps visit).first? = some first := by
    rw [evaluating]
    rfl
  refine holds.moves (fun _ => Op.noConfusion) ?_ (fun seen now => ?_)
    fun first' second' left' state' now => ?_
  · rw [moved, evaluating]
    exact ⟨Updating.noConfusion, Updating.noConfusion⟩
  · rw [moved] at now
    obtain rfl : first = seen := Option.some.inj now
    exact ⟨(holds.reads visit first reading).snoc _, .inr reading⟩
  · rw [moved] at now
    cases now
    obtain ⟨again, other, same, chosen, partly⟩ :=
      holds.partly visit first second _ state evaluating
    rw [brings] at same
    cases same
    refine ⟨again.snoc _, record, brings, Function.update chosen left.length world.asked, ?_⟩
    intro times drawn
    have here : times left.length = world.asked :=
      (drawn left.length (Nat.le_refl _)).trans (Function.update_self ..)
    refine (partly times fun count beyond => ?_).trans ?_
    · rw [drawn count (Nat.le_of_succ_le beyond)]
      exact Function.update_of_ne (Nat.ne_of_gt beyond) _ _
    · rw [putFields, here, result]

/-- **Updates, one step.** -/
theorem step (holds : Serialized executor host name exprs start steps world)
    (permitted : (executor.updates name exprs visit).permits
      (executor.updating name exprs host steps visit) op) :
    Serialized executor host name exprs start (steps ++ [⟨index, world, (op, visit)⟩])
      (World.perform host world op).2 := by
  unfold Executor.updates at permitted
  cases brings : Executor.brings name visit with
  | none =>
      rw [brings] at permitted
      exact holds.quiet permitted (updating_passing brings)
  | some record =>
      rw [brings] at permitted
      have moved := @updating_self executor host name exprs steps world index op visit record brings
      cases phase : executor.updating name exprs host steps visit with
      | idle =>
          rw [phase] at permitted moved
          by_cases reads : ∃ other, op = .stateOf other
          · obtain ⟨other, rfl⟩ := reads
            obtain rfl : other = name := permitted
            exact holds.readsFirst brings phase
          · have silent : ∀ value, op ≠ .setState name value := by
              cases op with
              | stateOf other => exact absurd ⟨other, rfl⟩ reads
              | _ => exact permitted
            refine holds.quiet silent (moved.trans (Eq.trans ?_ phase.symm))
            cases op with
            | stateOf other => exact absurd ⟨other, rfl⟩ reads
            | _ => rfl
      | read first =>
          rw [phase] at permitted
          obtain rfl : op = .stateOf name := permitted
          exact holds.readsSecond brings phase
      | evaluating first second left state =>
          rw [phase] at permitted
          cases left with
          | nil =>
              obtain rfl : op = .setState name state := permitted
              exact holds.writes brings phase
          | cons entry left =>
              obtain ⟨field, expr⟩ := entry
              obtain rfl : op = .eval executor.platform ⟨executor.vars⟩ expr
                (syntheticValue record.payload first) := permitted
              cases result : eval executor.platform (host.draws world.asked) ⟨executor.vars⟩ expr []
                  (syntheticValue record.payload first) with
              | ok value => exact holds.evaluates brings phase result
              | error failure => exact holds.fails brings phase result
      | applied =>
          rw [phase] at permitted moved
          have silent : ∀ value, op ≠ .setState name value := permitted
          exact holds.quiet silent (moved.trans phase.symm)

end Serialized

end Steps

section Runs

variable {registry : Registry} {hashOrder : HashOrder} {flow : FlowConfig} {ctx : BuildContext}
  {executor : Executor} {host : Host} {world : World} {name : String} {node : Node}
  {exprs : List (String × Expr)} {steps : List (Occurrence (Traced Engine) World)}
  {config : Config (Traced Engine) World}

/-- A program that does not write the state passes. -/
theorem passes_of_silent {α : Type} {program : Prog α} {admits : (op : Op) → op.Response → Prop}
    {onCall : Call → Prop} (safe : Safe (S := Engine) admits
      (fun op => ∀ value, op ≠ .setState name value) onCall program) :
    program.Conforms admits onCall (Updating.passing name) (fun _ _ => True) .idle := by
  refine Conforms.mono (conforms_of_safe ?_) fun _ _ _ => trivial
  exact safe.mono (fun op silent => ⟨silent, fun _ => rfl⟩) (fun _ => id) fun _ => id

/-- Every walk is an update or passes. -/
theorem updates_walkCall (formed : executor.graph.WellFormed)
    (found : executor.graph.node name = some node) (isState : node.step = .control (.state exprs))
    (parent : Visit Engine) (hop : Hop Engine) (known : executor.Known hop.call) :
    (walkCall hop.call).Conforms Updating.Admits executor.Known
      (executor.updates name exprs (parent.enter hop)) (fun _ _ => True)
        (executor.updates name exprs (parent.enter hop)).rest := by
  unfold Executor.updates Executor.brings
  rw [Visit.call_enter]
  obtain ⟨same, target, present⟩ := known
  unfold walkCall
  rw [same]
  by_cases here : hop.call.node = name
  · simp only [here, if_true]
    rw [here] at present
    exact Executor.updates_walk found isState (formed.named found)
      (Executor.leads_known formed found)
  · simp only [here, if_false]
    refine passes_of_silent (Executor.safe_walk present (Executor.allows_silent target ?_).performs
      (Executor.leads_known formed present) _)
    intro _ _ named
    exact here ((formed.named present).symm.trans named)

/-- **The visits of a run keep to their updates**, which is what an invariant may use. -/
theorem updates_run (formed : executor.graph.WellFormed)
    (found : executor.graph.node name = some node) (isState : node.step = .control (.state exprs))
    (invariant : List (Occurrence (Traced Engine) World) → World → Prop)
    (preserved : ∀ steps world index op visit, invariant steps world →
      (executor.updates name exprs visit).permits (executor.updating name exprs host steps visit)
        op → invariant (steps ++ [⟨index, world, (op, visit)⟩]) (World.perform host world op).2)
    (initial : invariant [] world) (run : executor.TracedRun host world steps config) :
    invariant steps config.world := by
  have tracked : Config.Tracked (executor.updates name exprs) (World.perform host) Updating.Admits
      executor.Known walkCall [] ⟨world, spawnedAll executor.programs⟩ :=
    Config.tracked_spawnedAll fun origin program member =>
      passes_of_silent (Executor.safe_programs formed
        (Executor.allows_silent default fun _ => nofun).performs (fun _ _ _ => Op.noConfusion)
        (fun _ _ _ => Op.noConfusion) (fun _ _ => Op.noConfusion) program member)
  exact (tracked.run invariant (updates_walkCall formed found isState)
    (fun steps world index op visit holds permitted =>
      ⟨trivial, preserved steps world index op visit holds permitted⟩) initial run).2

theorem serialized_run (formed : executor.graph.WellFormed)
    (found : executor.graph.node name = some node) (isState : node.step = .control (.state exprs))
    (run : executor.TracedRun host world steps config) :
    Serialized executor host name exprs (world.states.get? name) steps config.world := by
  have initial : Serialized executor host name exprs (world.states.get? name) [] world := by
    refine ⟨(fun _ member => nomatch member), fun visit first reading => ?_,
      fun visit first second left state evaluating => ?_, fun _ =>
        ⟨[], List.nodup_nil, ?_, rfl, ?_⟩⟩
    · rw [updating_nil] at reading
      cases reading
    · rw [updating_nil] at evaluating
      cases evaluating
    · intro visit
      rw [updating_nil]
      exact ⟨(fun member => nomatch member), Updating.noConfusion⟩
    · intro visit first reading
      rw [updating_nil] at reading
      cases reading
  exact updates_run formed found isState _
    (fun _ _ _ _ _ holds permitted => holds.step permitted) initial run

/-- Whether a step reads or writes the state. -/
def touches (name : String) (step : Occurrence (Traced Engine) World) : Bool :=
  match step.op.1 with
  | .stateOf other => other = name
  | .setState other _ => other = name
  | _ => false

/-- A run in which each task reads and writes one and the same state. -/
theorem undisturbed_of_constant {value : Nat → Option Value}
    (constant : ∀ step ∈ steps.filter (touches name),
      step.world.states.get? name = value step.op.2.origin) :
    EachStep (WritesUndisturbed name) steps := by
  rintro before step after rfl written writes read member reads
  have here : touches name step = true := by
    unfold touches
    rw [writes]
    exact decide_eq_true rfl
  have there : touches name read = true := by
    unfold touches
    rw [reads]
    exact decide_eq_true rfl
  rw [constant read, constant step, reads]
  · exact List.mem_filter.mpr ⟨List.mem_append_right _ List.mem_cons_self, here⟩
  · exact List.mem_filter.mpr ⟨List.mem_append_left _ member, there⟩

/-- **When the updates of a state step are serial.** In every run in which each write of
the state finds the state that its visit has read, the state is at any time what the
visits that have updated it give one after the other, each of them once. -/
theorem serializable_of_undisturbed
    (accepted : FlowGraph.Accepted registry hashOrder flow ctx executor.graph)
    (found : executor.graph.node name = some node) (isState : node.step = .control (.state exprs))
    (run : executor.TracedRun host world steps config)
    (undisturbed : EachStep (WritesUndisturbed name) steps) :
    Serializable executor host name exprs (world.states.get? name) steps
      (config.world.states.get? name) := by
  obtain ⟨order, nodup, exactly, reached, -⟩ :=
    (serialized_run accepted.wellFormed found isState run).order undisturbed
  exact ⟨order, nodup, exactly, reached⟩

end Runs

namespace Sample

/-- One letter for every record. -/
def tallyFields : List (String × Expr) :=
  [("seen", .add (.path ["state", "seen"]) (.lit (.string "x")))]

/-- Components that also provide a state step. -/
def tallyRegistry : Registry :=
  { FlowGraph.Sample.registry with
    build := fun kind type config ctx =>
      match kind, type with
      | .transform, "state" =>
          FlowGraph.Sample.requiring ["expr"] (.control (.state tallyFields)) config
      | _, _ => FlowGraph.Sample.registry.build kind type config ctx }

/-- The state before any record. -/
def noTally : Value := .object [("seen", .string "")]

/-- Two sources in front of one state step, and a sink behind it. -/
def tallyFlow : FlowConfig :=
  { FlowGraph.Sample.intake with
    triggers := []
    steps := [FlowGraph.Sample.source "a", FlowGraph.Sample.source "b",
      { FlowGraph.Sample.step "sum" .transform "state" with
        state := some noTally
        extra := [("expr", .object [("seen", .string "state.seen + 'x'")])] },
      FlowGraph.Sample.sink "out"]
    edges := [.pair "a" "sum", .pair "b" "sum", .pair "sum" "out"] }

/-- The graph of the two sources. -/
def tallyGraph : FlowGraph where
  name := "intake"
  nodes := ((((∅ : BTreeMap Node).insert "a"
    ⟨"a", none, .fail, .source, [⟨"sum", none⟩], 0, none⟩).insert "b"
      ⟨"b", none, .fail, .source, [⟨"sum", none⟩], 0, none⟩).insert "out"
        ⟨"out", none, .fail, .sink, [], 1, none⟩).insert "sum"
          ⟨"sum", none, .fail, .control (.state tallyFields), [⟨"out", none⟩], 2, some noTally⟩
  roots := ["a", "b"]

theorem tallyFlow_built : FlowGraph.build tallyRegistry FlowGraph.Sample.hashOrder tallyFlow
    FlowGraph.Sample.ctx = .ok tallyGraph := rfl

/-- A process whose state step is set up. -/
def declared : World :=
  { World.start none (fun _ => none) fun _ => [] with states := [("sum", noTally)] }

/-- One record from every source. -/
def oneEach (source : String) : Except Error (List Item) := .ok [.ok (record (.string source))]

/-- A run of the two sources. -/
def tally (schedule : List Nat) :
    List (Occurrence (Traced Engine) World) × Config (Traced Engine) World :=
  Config.play (S := Traced Engine) (tracedBody walkCall)
    (fun _ => tracedHandle (World.perform (host oneEach)))
    ⟨declared, spawnedAll (executor tallyGraph).programs⟩ schedule

theorem tally_run (schedule : List Nat) : (executor tallyGraph).TracedRun (host oneEach) declared
    (tally schedule).1 (tally schedule).2 :=
  Config.run_play _ _

/-- Whoever is applied adds a letter. -/
theorem serially_tally (order : List (Visit Engine × (Nat → Nat))) (text : String) :
    ∃ longer, serially (applyVisit (executor tallyGraph) (host oneEach) "sum" tallyFields) order
        (some (.object [("seen", .string text)])) = some (.object [("seen", .string longer)]) ∧
      longer.length = text.length +
        (order.filter fun entry => (Executor.brings "sum" entry.1).isSome).length := by
  induction order generalizing text with
  | nil => exact ⟨text, rfl, rfl⟩
  | cons entry order ih =>
      rw [serially_cons]
      cases brings : Executor.brings "sum" entry.1 with
      | none =>
          obtain ⟨longer, same, length⟩ := ih text
          refine ⟨longer, ?_, ?_⟩
          · unfold applyVisit
            rw [brings]
            exact same
          · rw [length, List.filter_cons_of_neg (by rw [brings]; exact Bool.false_ne_true)]
      | some record =>
          obtain ⟨longer, same, length⟩ := ih (text ++ "x")
          refine ⟨longer, ?_, ?_⟩
          · unfold applyVisit
            rw [brings]
            exact same
          · rw [length, List.filter_cons_of_pos (by rw [brings]; rfl), List.length_cons,
              String.length_append]
            show text.length + 1 + _ = _
            omega

/-- Both sources read the state before either of them writes it. -/
def overlapping : List Nat :=
  List.replicate 7 0 ++ List.replicate 7 1 ++ List.replicate 20 0 ++ List.replicate 20 1

/-- The writes of the overlapping run. -/
theorem overlapping_writes : ∃ first second value,
    (tally overlapping).1[7]? = some first ∧ (tally overlapping).1[15]? = some second ∧
      first.op.1 = .setState "sum" value ∧ second.op.1 = .setState "sum" value ∧
      first.op.2.origin = 0 ∧ second.op.2.origin = 1 ∧
      (Executor.brings "sum" first.op.2).isSome = true ∧
      (Executor.brings "sum" second.op.2).isSome = true :=
  ⟨_, _, _, rfl, rfl, rfl, rfl, rfl, rfl, rfl, rfl⟩

/-- Both sources have ended, each has written the state, and the state is that of one
update: no order of the two records gives it. -/
theorem overlapping_loses :
    FlowGraph.build tallyRegistry FlowGraph.Sample.hashOrder tallyFlow FlowGraph.Sample.ctx =
        .ok tallyGraph ∧
      ∃ steps config, (executor tallyGraph).TracedRun (host oneEach) declared steps config ∧
        ((config.tasks.take 2).all fun task => task.outcome?.isSome) = true ∧
        config.world.states.get? "sum" = some (.object [("seen", .string "x")]) ∧
        ¬ Serializable (executor tallyGraph) (host oneEach) "sum" tallyFields (some noTally) steps
          (config.world.states.get? "sum") := by
  refine ⟨tallyFlow_built, _, _, tally_run overlapping, rfl, rfl, ?_⟩
  rintro ⟨order, nodup, exactly, reached⟩
  obtain ⟨first, second, value, one, two, writes, writes', zero, other, brings, brings'⟩ :=
    overlapping_writes
  have formed : tallyGraph.WellFormed := FlowGraph.wellFormed_of_build tallyFlow_built
  have updates := @serialized_run (executor tallyGraph) (host oneEach) declared "sum" _ tallyFields
    _ _ formed rfl rfl (tally_run overlapping)
  have applied : ∀ step : Occurrence (Traced Engine) World, step ∈ (tally overlapping).1 →
      step.op.1 = .setState "sum" value → (Executor.brings "sum" step.op.2).isSome = true →
        step.op.2 ∈
          (order.filter fun entry => (Executor.brings "sum" entry.1).isSome).map Prod.fst := by
    intro step member writes brings
    obtain ⟨entry, inside, same⟩ := List.mem_map.mp
      ((exactly _).mpr (updates.writers step member value writes))
    refine List.mem_map.mpr ⟨entry, List.mem_filter.mpr ⟨inside, ?_⟩, same⟩
    rw [same]
    exact brings
  have atLeast : 2 ≤ (order.filter fun entry =>
      (Executor.brings "sum" entry.1).isSome).length := by
    have differ : first.op.2 ≠ second.op.2 := by
      intro same
      rw [same, other] at zero
      cases zero
    have pair : [first.op.2, second.op.2] ⊆
        (order.filter fun entry => (Executor.brings "sum" entry.1).isSome).map Prod.fst := by
      refine List.cons_subset.mpr ⟨?_, List.cons_subset.mpr ⟨?_, List.nil_subset _⟩⟩
      · exact applied first (List.mem_of_getElem? one) writes brings
      · exact applied second (List.mem_of_getElem? two) writes' brings'
    have distinct : [first.op.2, second.op.2].Nodup := by
      rw [List.nodup_cons, List.mem_singleton]
      exact ⟨differ, List.nodup_singleton _⟩
    have bound := (distinct.subperm pair).length_le
    rwa [List.length_map] at bound
  obtain ⟨longer, same, length⟩ := serially_tally order ""
  have final : some (Value.object [("seen", .string longer)]) =
      some (.object [("seen", .string "x")]) := same.symm.trans reached
  cases final
  rw [← Nat.not_lt] at atLeast
  refine atLeast (Nat.lt_succ_of_le (Nat.le_of_eq ?_))
  exact (Nat.zero_add _).symm.trans length.symm

/-- The second source starts when the record of the first is at the sink. -/
def inTurn : List Nat := List.replicate 30 0 ++ List.replicate 30 1

/-- What the tally is when a source reads it: the second one finds the letter of the first. -/
def foundBy (source : Nat) : Option Value :=
  if source = 0 then some noTally else some (.object [("seen", .string "x")])

/-- Each source finds one value of the tally, when it reads and when it writes. -/
theorem inTurn_undisturbed : EachStep (WritesUndisturbed "sum") (tally inTurn).1 := by
  have found : (((tally inTurn).1.filter (touches "sum")).map fun step =>
      (step.world.states.get? "sum", step.op.2.origin)) =
        List.replicate 3 (foundBy 0, 0) ++ List.replicate 3 (foundBy 1, 1) := rfl
  refine @undisturbed_of_constant "sum" _ foundBy fun step member => ?_
  have inside := List.mem_map_of_mem (f := fun step : Occurrence (Traced Engine) World =>
    (step.world.states.get? "sum", step.op.2.origin)) member
  rw [found, List.mem_append] at inside
  rcases inside with first | second
  · obtain ⟨state, origin⟩ := Prod.mk.inj (List.eq_of_mem_replicate first)
    rw [state, origin]
  · obtain ⟨state, origin⟩ := Prod.mk.inj (List.eq_of_mem_replicate second)
    rw [state, origin]

/-- The updates of two sources one after the other are serial, and both count. -/
theorem tally_serial : ∃ steps config,
    (executor tallyGraph).TracedRun (host oneEach) declared steps config ∧
      ((config.tasks.take 2).all fun task => task.outcome?.isSome) = true ∧
      config.world.states.get? "sum" = some (.object [("seen", .string "xx")]) ∧
      Serializable (executor tallyGraph) (host oneEach) "sum" tallyFields (some noTally) steps
        (config.world.states.get? "sum") :=
  ⟨_, _, tally_run inTurn, rfl, rfl, @serializable_of_undisturbed _ _ _ _ (executor tallyGraph)
    (host oneEach) declared "sum" _ tallyFields _ _ (.inl tallyFlow_built) rfl rfl
      (tally_run inTurn) inTurn_undisturbed⟩

end Sample

end Sohara
