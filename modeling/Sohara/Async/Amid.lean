import Mathlib.Logic.Relation
import Sohara.Async.Trace

/-! # Programs amid others

What a program does to its end while others change the world in between. What the others
may do is a relation between worlds; the calls of the program are among them, so their
outcomes are arbitrary. A composition does what its parts do one after the other.
-/

namespace Async

variable {S : Signature} {W α β : Type}

/-- What a program has done: an operation with its response, or calls with their outcome. -/
inductive Act (S : Signature) where
  | performed (op : S.Op) (response : S.Response op)
  | awaited (calls : List S.Call) (outcome : S.Outcome)

namespace Act

/-- The operation of an act, if any. -/
def op? : Act S → Option S.Op
  | .performed op _ => some op
  | .awaited _ _ => none

end Act

/-- The operations among the given acts. -/
def operations (acts : List (Act S)) : List S.Op := acts.filterMap Act.op?

/-- The calls awaited among the given acts. -/
def awaitings (acts : List (Act S)) : List (List S.Call × S.Outcome) :=
  acts.filterMap fun
    | .performed _ _ => none
    | .awaited calls outcome => some (calls, outcome)

section Lists

variable {first second : List (Act S)}

@[simp] theorem operations_nil : operations ([] : List (Act S)) = [] := rfl

@[simp] theorem operations_performed (op : S.Op) (response : S.Response op) :
    operations (.performed op response :: first) = op :: operations first := rfl

@[simp] theorem operations_awaited (calls : List S.Call) (outcome : S.Outcome) :
    operations (.awaited calls outcome :: first) = operations first := rfl

@[simp] theorem operations_append :
    operations (first ++ second) = operations first ++ operations second := List.filterMap_append

@[simp] theorem awaitings_nil : awaitings ([] : List (Act S)) = [] := rfl

@[simp] theorem awaitings_performed (op : S.Op) (response : S.Response op) :
    awaitings (.performed op response :: first) = awaitings first := rfl

@[simp] theorem awaitings_awaited (calls : List S.Call) (outcome : S.Outcome) :
    awaitings (.awaited calls outcome :: first) = (calls, outcome) :: awaitings first := rfl

@[simp] theorem awaitings_append :
    awaitings (first ++ second) = awaitings first ++ awaitings second := List.filterMap_append

end Lists

namespace Program

section Definitions

variable (handle : Handler S W) (rely : W → W → Prop)

/-- What others may do, any number of times. -/
abbrev Meanwhile : W → W → Prop := Relation.ReflTransGen rely

/-- A program runs to its end over a world that others change in between. -/
inductive Amid : Program S α → W → List (Act S) → α → W → Prop where
  | done (value : α) (world : W) : Amid (.done value) world [] value world
  | others {program : Program S α} {world between after : W} {acts : List (Act S)} {value : α}
      (change : rely world between) (rest : Amid program between acts value after) :
      Amid program world acts value after
  | perform {op : S.Op} {next : S.Response op → Program S α} {world after : W}
      {acts : List (Act S)} {value : α}
      (rest : Amid (next (handle world op).1) (handle world op).2 acts value after) :
      Amid (.perform op next) world (.performed op (handle world op).1 :: acts) value after
  | await {calls : List S.Call} {next : S.Outcome → Program S α} {world between after : W}
      {outcome : S.Outcome} {acts : List (Act S)} {value : α}
      (change : Meanwhile rely world between)
      (rest : Amid (next outcome) between acts value after) :
      Amid (.await calls next) world (.awaited calls outcome :: acts) value after

end Definitions

variable {handle : Handler S W} {rely : W → W → Prop} {world between after : W}
  {acts : List (Act S)}

theorem Amid.meanwhile {program : Program S α} {value : α} (change : Meanwhile rely world between)
    (rest : Amid handle rely program between acts value after) :
    Amid handle rely program world acts value after := by
  induction change using Relation.ReflTransGen.head_induction_on with
  | refl => exact rest
  | head step _ ih => exact .others step ih

/-- Calls during which nothing happens. -/
theorem Amid.awaiting {calls : List S.Call} {next : S.Outcome → Program S α} {value : α}
    (outcome : S.Outcome) (rest : Amid handle rely (next outcome) world acts value after) :
    Amid handle rely (.await calls next) world (.awaited calls outcome :: acts) value after :=
  .await .refl rest

theorem Amid.extend {program : Program S α} {value : α}
    (amid : Amid handle rely program world acts value between)
    (change : Meanwhile rely between after) :
    Amid handle rely program world acts value after := by
  induction amid with
  | done => exact .meanwhile change (.done ..)
  | others step _ ih => exact .others step (ih change)
  | perform _ ih => exact .perform (ih change)
  | await step _ ih => exact .await step (ih change)

/-- A program that is done does nothing more. -/
theorem Amid.of_done {value result : α}
    (amid : Amid handle rely (.done value) world acts result after) :
    acts = [] ∧ result = value ∧ Meanwhile rely world after := by
  generalize finished : Program.done value = program at amid
  induction amid with
  | done => cases finished; exact ⟨rfl, rfl, .refl⟩
  | others change _ ih =>
      obtain ⟨none_, same, others⟩ := ih finished
      exact ⟨none_, same, .head change others⟩
  | perform => cases finished
  | await => cases finished

theorem Amid.of_perform {op : S.Op} {next : S.Response op → Program S α} {value : α}
    (amid : Amid handle rely (.perform op next) world acts value after) :
    ∃ between rest, Meanwhile rely world between ∧
      acts = .performed op (handle between op).1 :: rest ∧
      Amid handle rely (next (handle between op).1) (handle between op).2 rest value after := by
  generalize started : Program.perform op next = program at amid
  induction amid with
  | done => cases started
  | others change _ ih =>
      obtain ⟨between, rest, others, same, amid⟩ := ih started
      exact ⟨between, rest, .head change others, same, amid⟩
  | perform rest =>
      cases started
      exact ⟨_, _, .refl, rfl, rest⟩
  | await => cases started

theorem Amid.of_await {calls : List S.Call} {next : S.Outcome → Program S α} {value : α}
    (amid : Amid handle rely (.await calls next) world acts value after) :
    ∃ between rest outcome, Meanwhile rely world between ∧
      acts = .awaited calls outcome :: rest ∧
      Amid handle rely (next outcome) between rest value after := by
  generalize started : Program.await calls next = program at amid
  induction amid with
  | done => cases started
  | others change _ ih =>
      obtain ⟨between, rest, outcome, others, same, amid⟩ := ih started
      exact ⟨between, rest, outcome, .head change others, same, amid⟩
  | perform => cases started
  | await change rest =>
      cases started
      exact ⟨_, _, _, change, rfl, rest⟩

/-- One operation. -/
theorem Amid.of_op {op : S.Op} {value : S.Response op}
    (amid : Amid handle rely (Program.op op) world acts value after) :
    ∃ between, Meanwhile rely world between ∧ value = (handle between op).1 ∧
      acts = [.performed op value] ∧ Meanwhile rely (handle between op).2 after := by
  obtain ⟨between, rest, others, same, last⟩ := amid.of_perform
  obtain ⟨rfl, rfl, later⟩ := last.of_done
  exact ⟨between, others, rfl, same, later⟩

/-- One call. -/
theorem Amid.of_call {target : S.Call} {outcome : S.Outcome}
    (amid : Amid handle rely (Program.call target) world acts outcome after) :
    acts = [.awaited [target] outcome] ∧ Meanwhile rely world after := by
  obtain ⟨between, rest, result, others, same, last⟩ := amid.of_await
  obtain ⟨rfl, rfl, later⟩ := last.of_done
  exact ⟨same, others.trans later⟩

/-- **Sequencing.** A composition does what its first part does, then what follows on its
value. -/
theorem Amid.of_bind {program : Program S α} {next : α → Program S β} {value : β}
    (amid : Amid handle rely (program >>= next) world acts value after) :
    ∃ first second middle between, acts = first ++ second ∧
      Amid handle rely program world first middle between ∧
      Amid handle rely (next middle) between second value after := by
  rw [bind_eq] at amid
  induction program generalizing world acts with
  | done middle => exact ⟨[], acts, middle, world, rfl, .done .., amid⟩
  | perform op rest ih =>
      obtain ⟨between, later, others, rfl, tail⟩ := amid.of_perform
      obtain ⟨first, second, middle, reached, rfl, left, right⟩ := ih _ tail
      exact ⟨_ :: first, second, middle, reached, rfl, .meanwhile others (.perform left), right⟩
  | await calls rest ih =>
      obtain ⟨between, later, outcome, others, rfl, tail⟩ := amid.of_await
      obtain ⟨first, second, middle, reached, rfl, left, right⟩ := ih _ tail
      exact ⟨_ :: first, second, middle, reached, rfl, .await others left, right⟩

/-- One operation before the rest. -/
theorem Amid.of_op_bind {op : S.Op} {next : S.Response op → Program S α} {value : α}
    (amid : Amid handle rely (Program.op op >>= next) world acts value after) :
    ∃ between rest, Meanwhile rely world between ∧
      acts = .performed op (handle between op).1 :: rest ∧
      Amid handle rely (next (handle between op).1) (handle between op).2 rest value after :=
  amid.of_perform

theorem Amid.bind {program : Program S α} {next : α → Program S β} {first second : List (Act S)}
    {middle : α} {value : β} (left : Amid handle rely program world first middle between)
    (right : Amid handle rely (next middle) between second value after) :
    Amid handle rely (program >>= next) world (first ++ second) value after := by
  induction left with
  | done => exact right
  | others change _ ih => exact .others change (ih right)
  | perform _ ih => exact .perform (ih right)
  | await change _ ih => exact .await change (ih right)

/-- A second program is reached by success only. -/
theorem Amid.of_andThen {first second : Program S S.Outcome} {outcome : S.Outcome}
    (amid : Amid handle rely (first.andThen second) world acts outcome after) :
    (∃ failure, outcome = .error failure ∧ Amid handle rely first world acts outcome after) ∨
      ∃ earlier later between, acts = earlier ++ later ∧
        Amid handle rely first world earlier (.ok ()) between ∧
        Amid handle rely second between later outcome after := by
  unfold andThen at amid
  rw [← bind_eq] at amid
  obtain ⟨earlier, later, middle, between, rfl, left, right⟩ := amid.of_bind
  cases middle with
  | ok value => exact .inr ⟨earlier, later, between, rfl, left, right⟩
  | error failure =>
      obtain ⟨rfl, rfl, others⟩ := right.of_done
      rw [List.append_nil]
      exact .inl ⟨failure, rfl, left.extend others⟩

section Rules

variable {admits : (op : S.Op) → S.Response op → Prop} {onOp : S.Op → Prop} {onCall : S.Call → Prop}
  {post : α → Prop} {program : Program S α} {value : α}

/-- **Safety amid others.** What a program obeys holds of its acts. -/
theorem Amid.obeys (amid : Amid handle rely program world acts value after)
    (responds : ∀ world op, admits op (handle world op).1)
    (obeys : program.Obeys admits onOp onCall post) :
    (∀ op ∈ operations acts, onOp op) ∧
      (∀ entry ∈ awaitings acts, ∀ target ∈ entry.1, onCall target) ∧ post value := by
  induction amid with
  | done => exact ⟨(fun _ member => nomatch member), (fun _ member => nomatch member), obeys⟩
  | others _ _ ih => exact ih obeys
  | perform _ ih =>
      obtain ⟨ops, calls, result⟩ := ih (obeys.2 _ (responds _ _))
      exact ⟨List.forall_mem_cons.mpr ⟨obeys.1, ops⟩, calls, result⟩
  | await _ _ ih =>
      obtain ⟨ops, calls, result⟩ := ih (obeys.2 _)
      exact ⟨ops, List.forall_mem_cons.mpr ⟨obeys.1, calls⟩, result⟩

/-- **Frame rule.** What the others and every operation of the acts preserve holds in the
end. -/
theorem Amid.keeps {motive : W → Prop} (amid : Amid handle rely program world acts value after)
    (others : ∀ world between, rely world between → motive world → motive between)
    (own : ∀ op ∈ operations acts, ∀ world, motive world → motive (handle world op).2)
    (holds : motive world) : motive after := by
  have meanwhile : ∀ {world between}, Meanwhile rely world between → motive world →
      motive between := by
    intro world between change start
    induction change with
    | refl => exact start
    | tail _ step ih => exact others _ _ step ih
  induction amid with
  | done => exact holds
  | others change _ ih => exact ih own (others _ _ change holds)
  | perform _ ih =>
      exact ih (fun op member => own op (List.mem_cons_of_mem _ member))
        (own _ List.mem_cons_self _ holds)
  | await change _ ih => exact ih own (meanwhile change holds)

end Rules

section Failures

/-- When a call fails, the program returns its failure and does nothing more. -/
def Propagates : Program S S.Outcome → Prop
  | .done _ => True
  | .perform _ next => ∀ response, Propagates (next response)
  | .await calls next =>
      (calls ≠ [] → ∀ failure, next (.error failure) = .done (.error failure)) ∧
        ∀ outcome, Propagates (next outcome)

theorem propagates_pure (outcome : S.Outcome) : Propagates (pure outcome : Program S S.Outcome) :=
  trivial

theorem propagates_joinAll (calls : List S.Call) : Propagates (Program.joinAll calls) :=
  ⟨fun _ _ => rfl, fun _ => trivial⟩

theorem propagates_call (target : S.Call) : Propagates (Program.call target) :=
  propagates_joinAll [target]

/-- Nothing is called before. -/
theorem propagates_bind {program : Program S α} {next : α → Program S S.Outcome}
    (alone : Safe (fun _ _ => True) (fun _ => True) (fun _ => False) program)
    (rest : ∀ value, Propagates (next value)) : Propagates (program >>= next) := by
  show Propagates (program.bind next)
  induction program with
  | done value => exact rest value
  | perform op after ih => exact fun response => ih response (alone.2 response trivial)
  | await calls after ih =>
      refine ⟨fun some_ => ?_, fun outcome => ih outcome (alone.2 outcome)⟩
      exact absurd (List.eq_nil_iff_forall_not_mem.mpr alone.1) some_

theorem propagates_op_bind {op : S.Op} {next : S.Response op → Program S S.Outcome}
    (rest : ∀ response, Propagates (next response)) : Propagates (Program.op op >>= next) := rest

/-- Programs without calls have none to fail. -/
theorem propagates_of_safe {program : Program S S.Outcome}
    (alone : Safe (fun _ _ => True) (fun _ => True) (fun _ => False) program) :
    Propagates program := by
  induction program with
  | done outcome => exact trivial
  | perform op next ih => exact fun response => ih response (alone.2 response trivial)
  | await calls next ih =>
      refine ⟨fun some_ => ?_, fun outcome => ih outcome (alone.2 outcome)⟩
      exact absurd (List.eq_nil_iff_forall_not_mem.mpr alone.1) some_

theorem Propagates.andThen {first second : Program S S.Outcome} (left : Propagates first)
    (right : Propagates second) : Propagates (first.andThen second) := by
  unfold Program.andThen
  induction first with
  | done outcome =>
      cases outcome with
      | error failure => exact trivial
      | ok value => exact right
  | perform op next ih => exact fun response => ih response (left response)
  | await calls next ih =>
      refine ⟨fun some_ failure => ?_, fun outcome => ih outcome (left.2 outcome)⟩
      show (next (.error failure)).bind _ = _
      rw [left.1 some_ failure]
      rfl

/-- **A failing call is the last act**, and its failure is returned. -/
theorem Amid.propagates {program : Program S S.Outcome} {outcome : S.Outcome}
    {before rest : List (Act S)} {calls : List S.Call} {failure : S.Failure}
    (amid : Amid handle rely program world acts outcome after) (passes : Propagates program)
    (split : acts = before ++ .awaited calls (.error failure) :: rest) (some_ : calls ≠ []) :
    rest = [] ∧ outcome = .error failure := by
  induction amid generalizing before with
  | done => exact absurd split.symm (List.append_ne_nil_of_right_ne_nil _ (List.cons_ne_nil _ _))
  | others _ _ ih => exact ih passes split
  | perform _ ih =>
      cases before with
      | nil => cases split
      | cons first before => exact ih (passes _) (List.cons.inj split).2
  | await _ tail ih =>
      cases before with
      | nil =>
          cases split
          rw [passes.1 some_ failure] at tail
          obtain ⟨rfl, rfl, -⟩ := tail.of_done
          exact ⟨rfl, rfl⟩
      | cons first before => exact ih (passes.2 _) (List.cons.inj split).2

end Failures

end Program

end Async
