import Mathlib.Data.List.Basic

/-! # Asynchronous programs over atomic operations

A program performs atomic operations and awaits recursive calls. Awaiting a list
of calls starts all of them at once and resumes with the first failure, or with
success once every call has succeeded; awaiting a single call is the
one-element case. Every program is a well-founded tree, so an execution can only
be infinite through the recursion of its calls.

`Program.Obeys` is the safety logic of such programs: which operations may be
performed, which calls may be awaited, and which results may be returned, under
all responses a relation admits.
-/

namespace Async

/-- The vocabulary of a family of asynchronous programs: the atomic operations
with their responses, the recursive calls, and the failures a call can return. -/
structure Signature where
  Op : Type
  Response : Op → Type
  /-- Whether a program waiting to perform the operation lets others run. -/
  yields : Op → Bool
  Call : Type
  Failure : Type

/-- What a call returns. -/
abbrev Signature.Outcome (S : Signature) : Type := Except S.Failure Unit

/-- A program of the signature returning a value. -/
inductive Program (S : Signature) (α : Type) : Type where
  | done (value : α)
  | perform (op : S.Op) (next : S.Response op → Program S α)
  | await (calls : List S.Call) (next : S.Outcome → Program S α)

namespace Program

variable {S : Signature} {α β γ : Type}

/-- Sequential composition. -/
protected def bind : Program S α → (α → Program S β) → Program S β
  | .done value, after => after value
  | .perform op next, after => .perform op fun response => (next response).bind after
  | .await calls next, after => .await calls fun outcome => (next outcome).bind after

instance : Monad (Program S) where
  pure := .done
  bind := Program.bind

/-- Perform one operation and return its response. -/
def op (operation : S.Op) : Program S (S.Response operation) := .perform operation .done

/-- Await one recursive call. -/
def call (target : S.Call) : Program S S.Outcome := .await [target] .done

/-- Await a list of calls running concurrently. -/
def joinAll (targets : List S.Call) : Program S S.Outcome := .await targets .done

/-- Run a second program only when the first one succeeds. -/
def andThen (first second : Program S S.Outcome) : Program S S.Outcome :=
  first.bind fun
    | .ok () => second
    | .error failure => .done (.error failure)

@[simp] theorem pure_eq (value : α) : (pure value : Program S α) = .done value := rfl

@[simp] theorem bind_eq (program : Program S α) (after : α → Program S β) :
    program >>= after = program.bind after := rfl

@[simp] theorem done_bind (value : α) (after : α → Program S β) :
    (Program.done value).bind after = after value := rfl

@[simp] theorem perform_bind (operation : S.Op) (next : S.Response operation → Program S α)
    (after : α → Program S β) :
    (Program.perform operation next).bind after =
      .perform operation fun response => (next response).bind after := rfl

@[simp] theorem await_bind (calls : List S.Call) (next : S.Outcome → Program S α)
    (after : α → Program S β) :
    (Program.await calls next).bind after =
      .await calls fun outcome => (next outcome).bind after := rfl

@[simp] theorem op_bind (operation : S.Op) (after : S.Response operation → Program S β) :
    (Program.op operation).bind after = .perform operation after := rfl

@[simp] theorem joinAll_bind (calls : List S.Call) (after : S.Outcome → Program S β) :
    (Program.joinAll calls).bind after = .await calls after := rfl

@[simp] theorem call_bind (target : S.Call) (after : S.Outcome → Program S β) :
    (Program.call target).bind after = .await [target] after := rfl

section Safety

variable (admits : (op : S.Op) → S.Response op → Prop) (onOp : S.Op → Prop)
  (onCall : S.Call → Prop)

/-- Under the admitted responses, and whatever its calls return, the program
performs only operations satisfying `onOp`, awaits only calls satisfying
`onCall`, and returns only values satisfying `post`. -/
def Obeys (post : α → Prop) : Program S α → Prop
  | .done value => post value
  | .perform op next => onOp op ∧ ∀ response, admits op response → Obeys post (next response)
  | .await calls next => (∀ target ∈ calls, onCall target) ∧ ∀ outcome, Obeys post (next outcome)

variable {admits onOp onCall} {post : α → Prop}

@[simp] theorem obeys_done (value : α) :
    Obeys admits onOp onCall post (.done value : Program S α) ↔ post value := Iff.rfl

@[simp] theorem obeys_perform (operation : S.Op) (next : S.Response operation → Program S α) :
    Obeys admits onOp onCall post (.perform operation next) ↔
      onOp operation ∧ ∀ response, admits operation response →
        Obeys admits onOp onCall post (next response) := Iff.rfl

@[simp] theorem obeys_await (calls : List S.Call) (next : S.Outcome → Program S α) :
    Obeys admits onOp onCall post (.await calls next) ↔
      (∀ target ∈ calls, onCall target) ∧
        ∀ outcome, Obeys admits onOp onCall post (next outcome) := Iff.rfl

/-- Sequencing rule: the continuation is checked at every value the first
program may return. -/
theorem Obeys.bind {program : Program S α} {after : α → Program S β} {last : β → Prop}
    (first : Obeys admits onOp onCall post program)
    (second : ∀ value, post value → Obeys admits onOp onCall last (after value)) :
    Obeys admits onOp onCall last (program.bind after) := by
  induction program with
  | done value => exact second value first
  | perform operation next ih =>
      exact ⟨first.1, fun response admitted => ih response (first.2 response admitted)⟩
  | await calls next ih => exact ⟨first.1, fun outcome => ih outcome (first.2 outcome)⟩

/-- Weakening of all three obligations at once. -/
theorem Obeys.mono {program : Program S α} {onOp' : S.Op → Prop} {onCall' : S.Call → Prop}
    {post' : α → Prop} (obeys : Obeys admits onOp onCall post program)
    (ops : ∀ op, onOp op → onOp' op) (calls : ∀ target, onCall target → onCall' target)
    (results : ∀ value, post value → post' value) :
    Obeys admits onOp' onCall' post' program := by
  induction program with
  | done value => exact results value obeys
  | perform operation next ih =>
      exact ⟨ops operation obeys.1,
        fun response admitted => ih response (obeys.2 response admitted)⟩
  | await targets next ih =>
      exact ⟨fun target member => calls target (obeys.1 target member),
        fun outcome => ih outcome (obeys.2 outcome)⟩

/-- The rule for `andThen`: the second program is checked once. -/
theorem Obeys.andThen {first second : Program S S.Outcome} {last : S.Outcome → Prop}
    (left : Obeys admits onOp onCall (fun outcome => outcome = .ok () ∨ last outcome) first)
    (right : Obeys admits onOp onCall last second) :
    Obeys admits onOp onCall last (first.andThen second) := by
  refine left.bind fun outcome possible => ?_
  match outcome, possible with
  | .ok (), _ => exact right
  | .error failure, .inr holds => exact holds

variable (admits onOp onCall) in
/-- The program obeys, whatever it returns. -/
abbrev Safe (program : Program S α) : Prop := program.Obeys admits onOp onCall fun _ => True

theorem safe_pure (value : α) : Safe admits onOp onCall (pure value : Program S α) := trivial

theorem safe_op {operation : S.Op} (permitted : onOp operation) :
    Safe admits onOp onCall (Program.op operation) := ⟨permitted, fun _ _ => trivial⟩

theorem safe_call {target : S.Call} (permitted : onCall target) :
    Safe admits onOp onCall (Program.call target) :=
  ⟨fun _ member => List.mem_singleton.mp member ▸ permitted, fun _ => trivial⟩

theorem safe_joinAll {targets : List S.Call} (permitted : ∀ target ∈ targets, onCall target) :
    Safe admits onOp onCall (Program.joinAll targets) := ⟨permitted, fun _ => trivial⟩

theorem Safe.bind {program : Program S α} {after : α → Program S β}
    (first : Safe admits onOp onCall program)
    (second : ∀ value, Safe admits onOp onCall (after value)) :
    Safe admits onOp onCall (program >>= after) :=
  Obeys.bind first fun value _ => second value

theorem Safe.andThen {first second : Program S S.Outcome} (left : Safe admits onOp onCall first)
    (right : Safe admits onOp onCall second) :
    Safe admits onOp onCall (first.andThen second) :=
  Safe.bind left fun
    | .ok () => right
    | .error _ => trivial

end Safety

end Program

end Async
