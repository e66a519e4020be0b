import Sohara.Async.Program
import Mathlib.Logic.Relation
import Mathlib.Order.WellFounded

/-! # Tasks: programs in execution

A task is a program together with the calls it is awaiting. A call starts as an
unentered task. Concurrent calls are combined pairwise: `Task.both` steps either side while
the other one is suspended, and a failure of one side resolves the pair at once,
dropping what the other side has left to do. Each step performs at most one
operation, so all interleavings of concurrent calls are steps of the task that
awaits them; operations that do not yield run through without interleaving.
-/

namespace Async

variable {S : Signature}

/-- A performed operation with its response. -/
structure Event (S : Signature) where
  op : S.Op
  response : S.Response op

/-- A program in execution. -/
inductive Task (S : Signature) : Type where
  | call (target : S.Call)
  | run (program : Program S S.Outcome)
  | both (left right : Task S)
  | await (child : Task S) (next : S.Outcome → Program S S.Outcome)

namespace Task

/-- The result of a finished task. -/
def outcome? : Task S → Option S.Outcome
  | .run (.done outcome) => some outcome
  | _ => none

/-- Whether a task is suspended: none of its programs is in the middle of operations
that do not yield. -/
def suspended : Task S → Bool
  | .run (.perform op _) => S.yields op
  | .both left right => left.suspended && right.suspended
  | .await child _ => child.suspended
  | _ => true

/-- Two tasks side by side: resolved when one has failed or both have succeeded. -/
def pair (left right : Task S) : Task S :=
  match left.outcome?, right.outcome? with
  | some (.error failure), _ => .run (.done (.error failure))
  | _, some (.error failure) => .run (.done (.error failure))
  | some (.ok _), some (.ok _) => .run (.done (.ok ()))
  | _, _ => .both left right

/-- A task followed by a continuation: resumed once the task has finished. -/
def thenRun (child : Task S) (next : S.Outcome → Program S S.Outcome) : Task S :=
  match child.outcome? with
  | some outcome => .run (next outcome)
  | none => .await child next

/-- All calls of a list, side by side. -/
def spawn (calls : List S.Call) : Task S :=
  (calls.map Task.call).foldr pair (.run (.done (.ok ())))

variable (body : S.Call → Program S S.Outcome)

/-- One step of a task, with the operation it performs, if any. -/
inductive Step : Task S → Option (Event S) → Task S → Prop where
  | enter (target : S.Call) : Step (.call target) none (.run (body target))
  | perform (op : S.Op) (next : S.Response op → Program S S.Outcome) (response : S.Response op) :
      Step (.run (.perform op next)) (some ⟨op, response⟩) (.run (next response))
  | start (calls : List S.Call) (next : S.Outcome → Program S S.Outcome) :
      Step (.run (.await calls next)) none (thenRun (spawn calls) next)
  | left {left left' : Task S} {event : Option (Event S)} {right : Task S}
      (waiting : right.suspended = true) (step : Step left event left') :
      Step (.both left right) event (pair left' right)
  | right {left : Task S} {right right' : Task S} {event : Option (Event S)}
      (waiting : left.suspended = true) (step : Step right event right') :
      Step (.both left right) event (pair left right')
  | child {child child' : Task S} {event : Option (Event S)}
      (next : S.Outcome → Program S S.Outcome) (step : Step child event child') :
      Step (.await child next) event (thenRun child' next)

/-- A task reaches another one through finitely many steps. -/
def Reaches : Task S → Task S → Prop :=
  Relation.ReflTransGen fun before after => ∃ event, Step body before event after

theorem outcome?_eq_some {task : Task S} {outcome : S.Outcome}
    (finished : task.outcome? = some outcome) : task = .run (.done outcome) := by
  match task, finished with
  | .run (.done _), finished => rw [Option.some.inj finished]

/-- A pair is resolved or still has both sides. -/
theorem pair_cases (left right : Task S) :
    (∃ outcome, pair left right = .run (.done outcome)) ∨ pair left right = .both left right := by
  unfold pair
  split
  · exact .inl ⟨_, rfl⟩
  · exact .inl ⟨_, rfl⟩
  · exact .inl ⟨_, rfl⟩
  · exact .inr rfl

/-- A pair of an unfinished and an unfailed task is open. -/
theorem pair_eq_both {left right : Task S} (unfinished : left.outcome? = none)
    (unfailed : ∀ failure, right.outcome? ≠ some (.error failure)) :
    pair left right = .both left right := by
  unfold pair
  split
  · next finished => rw [unfinished] at finished; cases finished
  · next failure finished _ => exact absurd finished (unfailed failure)
  · next finished _ => rw [unfinished] at finished; cases finished
  · rfl

/-- Unstarted calls have not failed. -/
theorem spawn_unfailed (calls : List S.Call) (failure : S.Failure) :
    (spawn calls).outcome? ≠ some (.error failure) := by
  induction calls generalizing failure with
  | nil => exact fun same => nomatch same
  | cons target rest ih =>
      have open_ : spawn (target :: rest) = .both (.call target) (spawn rest) :=
        pair_eq_both rfl ih
      rw [open_]
      exact fun same => nomatch same

theorem suspended_of_outcome {task : Task S} {outcome : S.Outcome}
    (finished : task.outcome? = some outcome) : task.suspended = true := by
  rw [outcome?_eq_some finished]
  rfl

theorem suspended_pair {left right : Task S} (first : left.suspended = true)
    (second : right.suspended = true) : (pair left right).suspended = true := by
  rcases pair_cases left right with ⟨outcome, resolved⟩ | open_
  · rw [resolved]
    rfl
  · rw [open_]
    simp only [suspended, first, second, Bool.and_self]

theorem suspended_spawn (calls : List S.Call) : (spawn calls).suspended = true := by
  induction calls with
  | nil => rfl
  | cons target rest ih =>
      have head : suspended (.call target) = true := rfl
      exact suspended_pair head ih

/-- A continuation is resumed or its task is unfinished. -/
theorem thenRun_cases (child : Task S) (next : S.Outcome → Program S S.Outcome) :
    (∃ outcome, child = .run (.done outcome) ∧ thenRun child next = .run (next outcome)) ∨
      thenRun child next = .await child next := by
  unfold thenRun
  split
  · next outcome finished => exact .inl ⟨outcome, outcome?_eq_some finished, rfl⟩
  · exact .inr rfl

section Progress

/-- No resolved pair and no finished child is left unreduced, and at most one side of
a pair is in the middle of operations that do not yield. -/
def Settled : Task S → Prop
  | .call _ => True
  | .run _ => True
  | .both left right => left.Settled ∧ right.Settled ∧ pair left right = .both left right ∧
      (left.suspended = true ∨ right.suspended = true)
  | .await child _ => child.Settled ∧ child.outcome? = none

variable {body}

theorem Settled.pair {left right : Task S} (first : left.Settled) (second : right.Settled)
    (waiting : left.suspended = true ∨ right.suspended = true) :
    (pair left right).Settled := by
  rcases pair_cases left right with ⟨outcome, resolved⟩ | open_
  · rw [resolved]
    trivial
  · rw [open_]
    exact ⟨first, second, open_, waiting⟩

theorem Settled.thenRun {child : Task S} {next : S.Outcome → Program S S.Outcome}
    (settled : child.Settled) : (thenRun child next).Settled := by
  unfold Task.thenRun
  split
  · trivial
  · next unfinished => exact ⟨settled, unfinished⟩

theorem settled_spawn (calls : List S.Call) : (spawn calls).Settled := by
  induction calls with
  | nil => trivial
  | cons target rest ih =>
      have head : Settled (.call target) := trivial
      exact head.pair ih (.inl rfl)

/-- Steps keep tasks reduced. -/
theorem Settled.step {task next : Task S} {event : Option (Event S)} (settled : task.Settled)
    (step : Step body task event next) : next.Settled := by
  induction step with
  | enter => trivial
  | perform => trivial
  | start calls rest => exact (settled_spawn calls).thenRun
  | left waiting step ih => exact (ih settled.1).pair settled.2.1 (.inr waiting)
  | right waiting step ih => exact settled.1.pair (ih settled.2.1) (.inl waiting)
  | child rest step ih => exact (ih settled.1).thenRun

theorem Settled.reaches {task next : Task S} (settled : task.Settled)
    (reached : Reaches body task next) : next.Settled := by
  induction reached with
  | refl => exact settled
  | tail _ step ih =>
      obtain ⟨event, step⟩ := step
      exact ih.step step

variable (body) in
/-- **Progress.** An unfinished task has a step, provided every operation has a
response. -/
theorem Settled.exists_step [∀ op : S.Op, Nonempty (S.Response op)] {task : Task S}
    (settled : task.Settled) (unfinished : task.outcome? = none) :
    ∃ event next, Step body task event next := by
  induction task with
  | call target => exact ⟨_, _, .enter target⟩
  | run program =>
      cases program with
      | done outcome => cases unfinished
      | perform op next => exact ⟨_, _, .perform op next (Classical.arbitrary _)⟩
      | await calls next => exact ⟨_, _, .start calls next⟩
  | both left right ihLeft ihRight =>
      obtain ⟨leftSettled, rightSettled, open_, waiting⟩ := settled
      -- the side that is not suspended steps, or else any unfinished side
      by_cases leftDone : left.outcome? = none
      · by_cases rightWaits : right.suspended = true
        · obtain ⟨event, next, step⟩ := ihLeft leftSettled leftDone
          exact ⟨event, _, .left rightWaits step⟩
        · have rightDone : right.outcome? = none := by
            rw [Option.eq_none_iff_forall_ne_some]
            exact fun outcome finished => rightWaits (suspended_of_outcome finished)
          obtain ⟨event, next, step⟩ := ihRight rightSettled rightDone
          exact ⟨event, _, .right (waiting.resolve_right rightWaits) step⟩
      · obtain ⟨first, firstEq⟩ := Option.ne_none_iff_exists'.mp leftDone
        by_cases rightDone : right.outcome? = none
        · obtain ⟨event, next, step⟩ := ihRight rightSettled rightDone
          exact ⟨event, _, .right (suspended_of_outcome firstEq) step⟩
        · obtain ⟨second, secondEq⟩ := Option.ne_none_iff_exists'.mp rightDone
          unfold Task.pair at open_
          rw [firstEq, secondEq] at open_
          cases first <;> cases second <;> cases open_
  | await child next ih =>
      obtain ⟨event, after, step⟩ := ih settled.1 settled.2
      exact ⟨event, _, .child next step⟩

end Progress

section Halting

/-- No infinite sequence of steps starts at the task. -/
def Halts : Task S → Prop :=
  Acc fun after before => ∃ event, Step body before event after

variable {body}

theorem Halts.of_steps {task : Task S}
    (steps : ∀ event next, Step body task event next → Halts body next) : Halts body task :=
  Acc.intro task fun next ⟨event, step⟩ => steps event next step

theorem Halts.step {task next : Task S} {event : Option (Event S)} (halts : Halts body task)
    (step : Step body task event next) : Halts body next :=
  Acc.inv halts ⟨event, step⟩

theorem halts_done (outcome : S.Outcome) : Halts body (.run (.done outcome)) :=
  .of_steps fun _ _ step => by cases step

/-- Two halting tasks side by side halt: each step shortens one of them. -/
theorem Halts.pair {left right : Task S} (first : Halts body left) (second : Halts body right) :
    Halts body (pair left right) := by
  induction first generalizing right with
  | intro left _ ihLeft =>
    induction second with
    | intro right rightSteps ihRight =>
      rcases pair_cases left right with ⟨outcome, resolved⟩ | open_
      · rw [resolved]
        exact halts_done outcome
      · rw [open_]
        refine .of_steps fun event next step => ?_
        cases step with
        | left _ step => exact ihLeft _ ⟨event, step⟩ (Acc.intro right rightSteps)
        | right _ step => exact ihRight _ ⟨event, step⟩

/-- A halting task followed by halting continuations halts. -/
theorem Halts.thenRun {child : Task S} {next : S.Outcome → Program S S.Outcome}
    (first : Halts body child) (rest : ∀ outcome, Halts body (.run (next outcome))) :
    Halts body (thenRun child next) := by
  induction first with
  | intro child _ ih =>
    rcases thenRun_cases child next with ⟨outcome, _, resumed⟩ | waiting
    · rw [resumed]
      exact rest outcome
    · rw [waiting]
      refine .of_steps fun event after step => ?_
      cases step with
      | child _ step => exact ih _ ⟨event, step⟩

theorem Halts.call {target : S.Call} (halts : Halts body (.run (body target))) :
    Halts body (.call target) :=
  .of_steps fun _ _ step => by cases step; exact halts

theorem halts_spawn {calls : List S.Call} (each : ∀ target ∈ calls, Halts body (.call target)) :
    Halts body (spawn calls) := by
  induction calls with
  | nil => exact halts_done _
  | cons target rest ih =>
      exact (each target List.mem_cons_self).pair
        (ih fun other member => each other (List.mem_cons_of_mem _ member))

/-- A program halts when every call it may await does. -/
theorem halts_of_obeys {onCall : S.Call → Prop}
    (calls : ∀ target, onCall target → Halts body (.call target))
    (program : Program S S.Outcome)
    (obeys : program.Obeys (fun _ _ => True) (fun _ => True) onCall (fun _ => True)) :
    Halts body (.run program) := by
  induction program with
  | done outcome => exact halts_done outcome
  | perform op next ih =>
      refine .of_steps fun event after step => ?_
      cases step with
      | perform _ _ response => exact ih response (obeys.2 response trivial)
  | await targets next ih =>
      refine .of_steps fun event after step => ?_
      cases step with
      | start =>
          exact (halts_spawn fun target member => calls target (obeys.1 target member)).thenRun
            fun outcome => ih outcome (obeys.2 outcome)

/-- **Termination rule.** When every call made by an admissible call is
admissible and of smaller rank, every admissible call halts, under all responses
and all interleavings. -/
theorem halts_of_rank (admissible : S.Call → Prop) (rank : S.Call → Nat)
    (descends : ∀ target, admissible target →
      (body target).Obeys (fun _ _ => True) (fun _ => True)
        (fun inner => admissible inner ∧ rank inner < rank target) (fun _ => True))
    (target : S.Call) (admitted : admissible target) : Halts body (.call target) := by
  induction bound : rank target using Nat.strong_induction_on generalizing target with
  | _ bound ih =>
    exact (halts_of_obeys
      (fun inner smaller => ih _ (by rw [← bound]; exact smaller.2) inner smaller.1 rfl)
      (body target) (descends target admitted)).call

end Halting

section Safety

variable (admits : (op : S.Op) → S.Response op → Prop) (onOp : S.Op → Prop)
  (onCall : S.Call → Prop)

/-- The safety judgement of programs, for all parts of a task. -/
def Obeys : Task S → Prop
  | .call target => onCall target
  | .run program => program.Obeys admits onOp onCall fun _ => True
  | .both left right => left.Obeys ∧ right.Obeys
  | .await child next => child.Obeys ∧
      ∀ outcome, (next outcome).Obeys admits onOp onCall fun _ => True

variable {admits onOp onCall} {body}

theorem Obeys.pair {left right : Task S} (first : left.Obeys admits onOp onCall)
    (second : right.Obeys admits onOp onCall) : (pair left right).Obeys admits onOp onCall := by
  rcases pair_cases left right with ⟨outcome, resolved⟩ | open_
  · rw [resolved]
    trivial
  · rw [open_]
    exact ⟨first, second⟩

theorem Obeys.thenRun {child : Task S} {next : S.Outcome → Program S S.Outcome}
    (first : child.Obeys admits onOp onCall)
    (rest : ∀ outcome, (next outcome).Obeys admits onOp onCall fun _ => True) :
    (thenRun child next).Obeys admits onOp onCall := by
  rcases thenRun_cases child next with ⟨outcome, _, resumed⟩ | waiting
  · rw [resumed]
    exact rest outcome
  · rw [waiting]
    exact ⟨first, rest⟩

theorem obeys_spawn {calls : List S.Call} (each : ∀ target ∈ calls, onCall target) :
    (spawn calls).Obeys admits onOp onCall := by
  induction calls with
  | nil => trivial
  | cons target rest ih =>
      have head : Obeys admits onOp onCall (.call target) := each target List.mem_cons_self
      exact head.pair (ih fun other member => each other (List.mem_cons_of_mem _ member))

/-- An obeying task performs only permitted operations. -/
theorem Obeys.permits {task next : Task S} {event : Event S}
    (obeys : task.Obeys admits onOp onCall) (step : Step body task (some event) next) :
    onOp event.op := by
  generalize performed : some event = label at step
  induction step with
  | enter target => cases performed
  | perform op rest response =>
      cases performed
      exact obeys.1
  | start calls rest => cases performed
  | left waiting step ih => exact ih obeys.1 performed
  | right waiting step ih => exact ih obeys.2 performed
  | child rest step ih => exact ih obeys.1 performed

/-- **Safety rule, one step.** When the bodies of all permitted calls obey, a step
of an obeying task with an admitted response leaves an obeying task. -/
theorem Obeys.step {task next : Task S} {event : Option (Event S)}
    (bodies : ∀ target, onCall target → (body target).Obeys admits onOp onCall fun _ => True)
    (obeys : task.Obeys admits onOp onCall) (step : Step body task event next)
    (admitted : ∀ performed, event = some performed → admits performed.op performed.response) :
    next.Obeys admits onOp onCall := by
  induction step with
  | enter target => exact bodies target obeys
  | perform op rest response => exact obeys.2 response (admitted _ rfl)
  | start calls rest => exact (obeys_spawn obeys.1).thenRun obeys.2
  | left waiting step ih => exact (ih obeys.1 admitted).pair obeys.2
  | right waiting step ih => exact obeys.1.pair (ih obeys.2 admitted)
  | child rest step ih => exact (ih obeys.1 admitted).thenRun obeys.2

/-- **Safety rule, whole runs** under unconstrained responses. -/
theorem Obeys.reaches {task next : Task S}
    (bodies : ∀ target, onCall target →
      (body target).Obeys (fun _ _ => True) onOp onCall fun _ => True)
    (obeys : task.Obeys (fun _ _ => True) onOp onCall) (reached : Reaches body task next) :
    next.Obeys (fun _ _ => True) onOp onCall := by
  induction reached with
  | refl => exact obeys
  | tail _ step ih =>
      obtain ⟨event, step⟩ := step
      exact ih.step bodies step fun _ _ => trivial

end Safety

end Task

end Async
