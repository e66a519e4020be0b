import Mathlib.Algebra.BigOperators.Group.List.Basic
import Mathlib.Algebra.GroupWithZero.Nat
import Sohara.Async.Trace

/-! # Programs following a protocol

A protocol is an automaton over the operations of a program. A program follows it
when every operation is permitted in the state the earlier ones have led to, and
when it is back at rest wherever it lets others run. Then each task of a
configuration is in one state of the protocol, however its own concurrent calls are
interleaved, and an invariant may relate the world to the states of all tasks.
-/

namespace Async

variable {S : Signature} {G : Type}

/-- An automaton over operations and their responses. -/
structure Protocol (S : Signature) (G : Type) where
  rest : G
  permits : G → S.Op → Prop
  advance : G → (op : S.Op) → S.Response op → G

/-- The state after an operation, if any. -/
def Protocol.after (protocol : Protocol S G) (state : G) : Option (Event S) → G
  | some event => protocol.advance state event.op event.response
  | none => state

variable (protocol : Protocol S G) (admits : (op : S.Op) → S.Response op → Prop)
  (onCall : S.Call → Prop)

namespace Program

variable {α β : Type}

/-- From the given state on, the program performs only permitted operations, is at
rest whenever it yields, and returns values satisfying `post` in their state. -/
def Follows (post : α → G → Prop) : Program S α → G → Prop
  | .done value, state => post value state
  | .perform op next, state => (S.yields op = true → state = protocol.rest) ∧
      protocol.permits state op ∧ ∀ response, admits op response →
        Follows post (next response) (protocol.advance state op response)
  | .await calls next, state => state = protocol.rest ∧ (∀ target ∈ calls, onCall target) ∧
      ∀ outcome, Follows post (next outcome) protocol.rest

variable {protocol admits onCall} {post : α → G → Prop} {last : β → G → Prop}

/-- Sequencing rule. -/
theorem Follows.bind {program : Program S α} {after : α → Program S β} {state : G}
    (first : Follows protocol admits onCall post program state)
    (second : ∀ value state, post value state →
      Follows protocol admits onCall last (after value) state) :
    Follows protocol admits onCall last (program >>= after) state := by
  show Follows protocol admits onCall last (program.bind after) state
  induction program generalizing state with
  | done value => exact second value state first
  | perform op next ih =>
      obtain ⟨waits, permitted, rest⟩ := first
      exact ⟨waits, permitted, fun response admitted => ih response (rest response admitted)⟩
  | await calls next ih =>
      obtain ⟨waits, allowed, rest⟩ := first
      exact ⟨waits, allowed, fun outcome => ih outcome (rest outcome)⟩

/-- One operation. -/
theorem follows_op {op : S.Op} {state : G} {post : S.Response op → G → Prop}
    (waits : S.yields op = true → state = protocol.rest) (permitted : protocol.permits state op)
    (results : ∀ response, admits op response →
      post response (protocol.advance state op response)) :
    Follows protocol admits onCall post (Program.op op) state :=
  ⟨waits, permitted, results⟩

theorem follows_pure {value : α} {state : G} (holds : post value state) :
    Follows protocol admits onCall post (pure value) state := holds

/-- Fewer responses, more calls and more results. -/
theorem Follows.mono {program : Program S α} {state : G} {post' : α → G → Prop}
    {admits' : (op : S.Op) → S.Response op → Prop} {onCall' : S.Call → Prop}
    (follows : Follows protocol admits onCall post program state)
    (responses : ∀ op response, admits' op response → admits op response)
    (calls : ∀ target, onCall target → onCall' target)
    (results : ∀ value state, post value state → post' value state) :
    Follows protocol admits' onCall' post' program state := by
  induction program generalizing state with
  | done value => exact results value state follows
  | perform op next ih =>
      obtain ⟨waits, permitted, rest⟩ := follows
      exact ⟨waits, permitted, fun response admitted =>
        ih response (rest response (responses op response admitted))⟩
  | await targets next ih =>
      obtain ⟨waits, allowed, rest⟩ := follows
      exact ⟨waits, fun target member => calls target (allowed target member),
        fun outcome => ih outcome (rest outcome)⟩

variable (protocol admits) in
/-- Operations permitted at rest that leave the protocol there. -/
def Neutral (op : S.Op) : Prop :=
  protocol.permits protocol.rest op ∧
    ∀ response, admits op response → protocol.advance protocol.rest op response = protocol.rest

/-- A program of neutral operations stays at rest. -/
theorem follows_of_obeys {program : Program S α} {result : α → Prop}
    (obeys : program.Obeys admits (Neutral protocol admits) onCall result) :
    Follows protocol admits onCall (fun value state => state = protocol.rest ∧ result value)
      program protocol.rest := by
  induction program with
  | done value => exact ⟨rfl, obeys⟩
  | perform op next ih =>
      refine ⟨fun _ => rfl, obeys.1.1, fun response admitted => ?_⟩
      rw [obeys.1.2 response admitted]
      exact ih response (obeys.2 response admitted)
  | await calls next ih => exact ⟨rfl, obeys.1, fun outcome => ih outcome (obeys.2 outcome)⟩

/-- A program that follows a protocol performs only what some state permits. -/
theorem Follows.obeys {program : Program S α} {state : G}
    (follows : Follows protocol admits onCall post program state) :
    program.Obeys admits (fun op => ∃ state, protocol.permits state op) onCall
      fun value => ∃ state, post value state := by
  induction program generalizing state with
  | done value => exact ⟨state, follows⟩
  | perform op next ih =>
      obtain ⟨-, permitted, rest⟩ := follows
      exact ⟨⟨state, permitted⟩, fun response admitted => ih response (rest response admitted)⟩
  | await calls next ih =>
      obtain ⟨-, allowed, rest⟩ := follows
      exact ⟨allowed, fun outcome => ih outcome (rest outcome)⟩

end Program

namespace Task

/-- The task is at the given state of the protocol. At most one side of a pair is
away from rest. -/
def Follows : Task S → G → Prop
  | .call target, state => state = protocol.rest ∧ onCall target
  | .run program, state => program.Follows protocol admits onCall
      (fun _ state => state = protocol.rest) state
  | .both left right, state =>
      (left.Follows state ∧ right.Follows protocol.rest ∧ right.suspended = true) ∨
        (left.Follows protocol.rest ∧ left.suspended = true ∧ right.Follows state)
  | .await child next, state => child.Follows state ∧
      ∀ outcome, (next outcome).Follows protocol admits onCall
        (fun _ state => state = protocol.rest) protocol.rest

variable {protocol admits onCall} {body : S.Call → Program S S.Outcome} {state : G}

/-- A suspended task is at rest. -/
theorem Follows.at_rest {task : Task S} (follows : task.Follows protocol admits onCall state)
    (waiting : task.suspended = true) : state = protocol.rest := by
  induction task with
  | call target => exact follows.1
  | run program =>
      cases program with
      | done value => exact follows
      | perform op next => exact follows.1 waiting
      | await calls next => exact follows.1
  | both left right ihLeft ihRight =>
      simp only [suspended, Bool.and_eq_true] at waiting
      rcases follows with ⟨first, -, -⟩ | ⟨-, -, second⟩
      · exact ihLeft first waiting.1
      · exact ihRight second waiting.2
  | await child next ih => exact ih follows.1 waiting

theorem Follows.done {outcome : S.Outcome}
    (follows : (Task.run (.done outcome)).Follows protocol admits onCall state) :
    state = protocol.rest := follows

/-- Pairing with a suspended task that has not failed. -/
theorem Follows.pair {left right : Task S}
    (either : (left.Follows protocol admits onCall state ∧
        right.Follows protocol admits onCall protocol.rest ∧ right.suspended = true ∧
          ∀ failure, right.outcome? ≠ some (.error failure)) ∨
      (left.Follows protocol admits onCall protocol.rest ∧ left.suspended = true ∧
        (∀ failure, left.outcome? ≠ some (.error failure)) ∧
          right.Follows protocol admits onCall state)) :
    (pair left right).Follows protocol admits onCall state := by
  have finished : ∀ {task : Task S} {outcome}, task.outcome? = some outcome →
      task.Follows protocol admits onCall state → state = protocol.rest :=
    fun done follows => follows.at_rest (suspended_of_outcome done)
  unfold Task.pair
  split
  · next failure failed =>
      rcases either with ⟨first, -, -, -⟩ | ⟨-, -, unfailed, -⟩
      · exact finished failed first
      · exact absurd failed (unfailed failure)
  · next failure failed _ =>
      rcases either with ⟨-, -, -, unfailed⟩ | ⟨-, -, -, second⟩
      · exact absurd failed (unfailed failure)
      · exact finished failed second
  · next leftDone rightDone =>
      rcases either with ⟨first, -, -, -⟩ | ⟨-, -, -, second⟩
      · exact finished leftDone first
      · exact finished rightDone second
  · rcases either with ⟨first, second, waiting, -⟩ | ⟨first, waiting, -, second⟩
    · exact .inl ⟨first, second, waiting⟩
    · exact .inr ⟨first, waiting, second⟩

theorem Follows.thenRun {child : Task S} {next : S.Outcome → Program S S.Outcome}
    (first : child.Follows protocol admits onCall state)
    (rest : ∀ outcome, (next outcome).Follows protocol admits onCall
      (fun _ state => state = protocol.rest) protocol.rest) :
    (thenRun child next).Follows protocol admits onCall state := by
  rcases thenRun_cases child next with ⟨outcome, rfl, resumed⟩ | waiting
  · rw [resumed, first.done]
    exact rest outcome
  · rw [waiting]
    exact ⟨first, rest⟩

theorem follows_spawn {calls : List S.Call} (each : ∀ target ∈ calls, onCall target) :
    (spawn calls).Follows protocol admits onCall protocol.rest := by
  induction calls with
  | nil => exact (rfl : protocol.rest = protocol.rest)
  | cons target rest ih =>
      have head : Follows protocol admits onCall (.call target) protocol.rest :=
        ⟨rfl, each target List.mem_cons_self⟩
      exact Follows.pair (.inl ⟨head, ih fun other member =>
        each other (List.mem_cons_of_mem _ member), suspended_spawn rest, spawn_unfailed rest⟩)

/-- An unresolved side of a reduced pair has not failed. -/
theorem unfailed_of_open {left right : Task S} (open_ : pair left right = .both left right) :
    (∀ failure, left.outcome? ≠ some (.error failure)) ∧
      ∀ failure, right.outcome? ≠ some (.error failure) := by
  unfold Task.pair at open_
  split at open_
  · cases open_
  · cases open_
  · cases open_
  · next first second _ =>
      refine ⟨fun failure failed => first failure failed, fun failure failed => ?_⟩
      exact second failure failed

/-- The operation of a step is permitted. -/
theorem Follows.permits {task next : Task S} {event : Event S}
    (follows : task.Follows protocol admits onCall state)
    (step : Step body task (some event) next) : protocol.permits state event.op := by
  generalize performed : some event = label at step
  induction step generalizing state with
  | enter target => cases performed
  | perform op after response =>
      cases performed
      exact follows.2.1
  | start calls after => cases performed
  | left waiting step ih =>
      rcases follows with ⟨first, -, -⟩ | ⟨first, -, second⟩
      · exact ih first performed
      · rw [second.at_rest waiting]
        exact ih first performed
  | right waiting step ih =>
      rcases follows with ⟨first, second, -⟩ | ⟨-, -, second⟩
      · rw [first.at_rest waiting]
        exact ih second performed
      · exact ih second performed
  | child rest step ih => exact ih follows.1 performed

/-- **Protocol rule, one step.** The task goes on to the next state. -/
theorem Follows.step {task next : Task S} {event : Option (Event S)}
    (bodies : ∀ target, onCall target → (body target).Follows protocol admits onCall
      (fun _ state => state = protocol.rest) protocol.rest)
    (settled : task.Settled) (follows : task.Follows protocol admits onCall state)
    (step : Step body task event next)
    (admitted : ∀ performed, event = some performed → admits performed.op performed.response) :
    next.Follows protocol admits onCall (protocol.after state event) := by
  induction step generalizing state with
  | enter target =>
      obtain ⟨rfl, allowed⟩ := follows
      exact bodies target allowed
  | perform op after response => exact follows.2.2 response (admitted _ rfl)
  | start calls after =>
      obtain ⟨rfl, allowed, rest⟩ := follows
      exact (follows_spawn allowed).thenRun rest
  | left waiting step ih =>
      obtain ⟨leftSettled, -, open_, -⟩ := settled
      have unfailed := (unfailed_of_open open_).2
      rcases follows with ⟨first, second, -⟩ | ⟨first, -, second⟩
      · exact Follows.pair (.inl ⟨ih leftSettled first admitted, second, waiting, unfailed⟩)
      · have resting := second.at_rest waiting
        subst resting
        exact Follows.pair (.inl ⟨ih leftSettled first admitted, second, waiting, unfailed⟩)
  | right waiting step ih =>
      obtain ⟨-, rightSettled, open_, -⟩ := settled
      have unfailed := (unfailed_of_open open_).1
      rcases follows with ⟨first, second, -⟩ | ⟨first, -, second⟩
      · have resting := first.at_rest waiting
        subst resting
        exact Follows.pair (.inr ⟨first, waiting, unfailed, ih rightSettled second admitted⟩)
      · exact Follows.pair (.inr ⟨first, waiting, unfailed, ih rightSettled second admitted⟩)
  | child rest step ih => exact (ih settled.1 follows.1 admitted).thenRun follows.2

end Task

namespace Config

variable {W : Type} {protocol admits onCall} {body : S.Call → Program S S.Outcome}
  {handle : Nat → Handler S W} {environment : W → W → Prop} {start config : Config S W}
  {steps : List (Occurrence S W)}

variable (protocol admits onCall) in
/-- Each task is reduced and at its state of the protocol. -/
def Follows (config : Config S W) (states : List G) : Prop :=
  List.Forall₂ (fun task state => task.Settled ∧ task.Follows protocol admits onCall state)
    config.tasks states

/-- Finished tasks are at rest. -/
theorem Follows.finished {states : List G}
    (follows : config.Follows protocol admits onCall states)
    (finished : ∀ task ∈ config.tasks, task.outcome? ≠ none) :
    ∀ state ∈ states, state = protocol.rest := by
  unfold Follows at follows
  generalize config.tasks = tasks at follows finished
  induction follows with
  | nil => exact fun _ member => nomatch member
  | cons related _ ih =>
      intro state member
      rcases List.mem_cons.mp member with rfl | inside
      · obtain ⟨outcome, done⟩ :=
          Option.ne_none_iff_exists'.mp (finished _ List.mem_cons_self)
        exact related.2.at_rest (Task.suspended_of_outcome done)
      · exact ih (fun task inTasks => finished task (List.mem_cons_of_mem _ inTasks)) state inside

/-- The state of one task, and replacing both. -/
theorem select {R : Task S → G → Prop} {tasks : List (Task S)} {states : List G}
    (each : List.Forall₂ R tasks states) {index : Nat} {task : Task S}
    (selected : tasks[index]? = some task) :
    ∃ state, states[index]? = some state ∧ R task state ∧
      ∀ next after, R next after →
        List.Forall₂ R (tasks.set index next) (states.set index after) := by
  induction each generalizing index with
  | nil => cases selected
  | cons holds others ih =>
      cases index with
      | zero =>
          cases selected
          exact ⟨_, rfl, holds, fun next after now => .cons now others⟩
      | succ index =>
          obtain ⟨state, current, related, replace⟩ := ih selected
          exact ⟨state, current, related, fun next after now =>
            .cons holds (replace next after now)⟩

/-- The weight of one state in the sum over all tasks, and replacing it. -/
theorem sum_set {M : Type} [AddCommMonoid M] (weight : G → M) {states : List G}
    {index : Nat} {state : G}
    (current : states[index]? = some state) :
    ∃ others, (states.map weight).sum = weight state + others ∧
      ∀ after, ((states.set index after).map weight).sum = weight after + others := by
  induction states generalizing index with
  | nil => cases current
  | cons first rest ih =>
      cases index with
      | zero =>
          cases current
          exact ⟨(rest.map weight).sum, List.sum_cons, fun after => List.sum_cons⟩
      | succ index =>
          obtain ⟨others, sum, replace⟩ := ih current
          refine ⟨weight first + others, ?_, fun after => ?_⟩
          · rw [List.map_cons, List.sum_cons, sum, add_left_comm]
          · rw [List.set_cons_succ, List.map_cons, List.sum_cons, replace, add_left_comm]

/-- **Protocol rule for whole runs.** Every operation is performed in a state that
permits it, so an invariant relating the run, the world and the states of all tasks
need only be preserved by permitted operations. -/
theorem Follows.run {states : List G} (invariant : List (Occurrence S W) → W → List G → Prop)
    (bodies : ∀ target, onCall target → (body target).Follows protocol admits onCall
      (fun _ state => state = protocol.rest) protocol.rest)
    (preserved : ∀ steps world states index state op, invariant steps world states →
      states[index]? = some state → protocol.permits state op →
        admits op (handle index world op).1 ∧
          invariant (steps ++ [⟨index, world, op⟩]) (handle index world op).2
            (states.set index (protocol.advance state op (handle index world op).1)))
    (changed : ∀ steps world after states, invariant steps world states →
      environment world after → invariant steps after states)
    (follows : start.Follows protocol admits onCall states)
    (initial : invariant [] start.world states)
    (run : Run body handle environment start steps config) :
    ∃ states, config.Follows protocol admits onCall states ∧
      invariant steps config.world states := by
  induction run with
  | refl => exact ⟨states, follows, initial⟩
  | silent index _ selected step ih =>
      obtain ⟨states, follows, holds⟩ := ih
      obtain ⟨state, current, ⟨settled, following⟩, replace⟩ := select follows selected
      have after := following.step bodies settled step fun _ same => nomatch same
      refine ⟨states, ?_, holds⟩
      obtain ⟨inside, rfl⟩ := List.getElem?_eq_some_iff.mp current
      have kept := replace _ _ ⟨settled.step step, after⟩
      rwa [Protocol.after, List.set_getElem_self] at kept
  | event index op _ selected step ih =>
      obtain ⟨states, follows, holds⟩ := ih
      obtain ⟨state, current, ⟨settled, following⟩, replace⟩ := select follows selected
      obtain ⟨admitted, kept⟩ :=
        preserved _ _ _ index state op holds current (following.permits step)
      have after := following.step bodies settled step fun performed same => by
        cases same
        exact admitted
      exact ⟨_, replace _ _ ⟨settled.step step, after⟩, kept⟩
  | environment _ change ih =>
      obtain ⟨states, follows, holds⟩ := ih
      exact ⟨states, follows, changed _ _ _ _ holds change⟩

end Config

end Async
