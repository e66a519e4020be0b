import Sohara.Async.Machine
import Mathlib.Algebra.BigOperators.Group.List.Basic

/-! # Additive accounting of interleaved tasks

Every operation has a cost in a commutative monoid and every call a price. When
the body of each admissible call costs exactly its price, whatever the admitted
responses, the total cost of a run does not depend on the interleaving: what has
been spent and what the tasks still have to spend always add up to the same sum.
-/

namespace Async

variable {S : Signature} {M : Type} [AddCommMonoid M]
  (admits : (op : S.Op) → S.Response op → Prop) (cost : Event S → M)
  (admissible : S.Call → Prop) (price : S.Call → M)

namespace Program

variable {α β : Type}

/-- Under the admitted responses, and when its calls succeed at their price, the
program costs exactly the given amount and returns a value satisfying `post`. -/
def Costs (post : α → Prop) : Program S α → M → Prop
  | .done value, amount => amount = 0 ∧ post value
  | .perform op next, amount => ∀ response, admits op response →
      ∃ rest, amount = cost ⟨op, response⟩ + rest ∧ Costs post (next response) rest
  | .await calls next, amount => (∀ target ∈ calls, admissible target) ∧
      ∃ rest, amount = (calls.map price).sum + rest ∧ Costs post (next (.ok ())) rest

variable {admits cost admissible price} {post : α → Prop} {last : β → Prop}

/-- Sequencing rule: costs add up. -/
theorem Costs.bind {program : Program S α} {after : α → Program S β} {first second : M}
    (left : Costs admits cost admissible price post program first)
    (right : ∀ value, post value → Costs admits cost admissible price last (after value) second) :
    Costs admits cost admissible price last (program.bind after) (first + second) := by
  induction program generalizing first with
  | done value =>
      obtain ⟨rfl, holds⟩ := left
      rw [zero_add]
      exact right value holds
  | perform op next ih =>
      intro response admitted
      obtain ⟨rest, rfl, costs⟩ := left response admitted
      exact ⟨rest + second, add_assoc _ _ _, ih response costs⟩
  | await calls next ih =>
      obtain ⟨allowed, rest, rfl, costs⟩ := left
      exact ⟨allowed, rest + second, add_assoc _ _ _, ih (.ok ()) costs⟩

theorem costs_pure {value : α} (holds : post value) :
    Costs admits cost admissible price post (pure value) 0 := ⟨rfl, holds⟩

/-- An operation of known cost. -/
theorem costs_op {op : S.Op} {post : S.Response op → Prop} {amount : M}
    (known : ∀ response, admits op response → cost ⟨op, response⟩ = amount ∧ post response) :
    Costs admits cost admissible price post (Program.op op) amount := fun response admitted =>
  ⟨0, by rw [(known response admitted).1, add_zero], rfl, (known response admitted).2⟩

theorem costs_call {target : S.Call} (allowed : admissible target) :
    Costs admits cost admissible price (· = .ok ()) (Program.call target) (price target) :=
  ⟨fun _ member => List.mem_singleton.mp member ▸ allowed, 0, by simp, rfl, rfl⟩

theorem costs_joinAll {targets : List S.Call} (allowed : ∀ target ∈ targets, admissible target) :
    Costs admits cost admissible price (· = .ok ()) (Program.joinAll targets)
      (targets.map price).sum :=
  ⟨allowed, 0, (add_zero _).symm, rfl, rfl⟩

/-- A first part without cost. -/
theorem Costs.free_bind {program : Program S α} {after : α → Program S β} {amount : M}
    (left : Costs admits cost admissible price post program 0)
    (right : ∀ value, post value → Costs admits cost admissible price last (after value) amount) :
    Costs admits cost admissible price last (program >>= after) amount := by
  rw [← zero_add amount]
  exact left.bind right

theorem Costs.andThen {first second : Program S S.Outcome} {left right : M}
    (head : Costs admits cost admissible price (· = .ok ()) first left)
    (tail : Costs admits cost admissible price (· = .ok ()) second right) :
    Costs admits cost admissible price (· = .ok ()) (first.andThen second) (left + right) :=
  head.bind fun _ succeeded => by rw [succeeded]; exact tail

end Program

namespace Task

/-- What a task still has to spend before it succeeds. -/
def Costs : Task S → M → Prop
  | .call target, amount => admissible target ∧ amount = price target
  | .run program, amount => program.Costs admits cost admissible price (· = .ok ()) amount
  | .both left right, amount => ∃ first second,
      amount = first + second ∧ left.Costs first ∧ right.Costs second
  | .await child next, amount => ∃ first second, amount = first + second ∧ child.Costs first ∧
      (next (.ok ())).Costs admits cost admissible price (· = .ok ()) second

variable {admits cost admissible price} {body : S.Call → Program S S.Outcome}

/-- A finished task has succeeded and spent everything. -/
theorem Costs.of_outcome {task : Task S} {amount : M} {outcome : S.Outcome}
    (costs : task.Costs admits cost admissible price amount)
    (finished : task.outcome? = some outcome) : amount = 0 ∧ outcome = .ok () := by
  rw [outcome?_eq_some finished] at costs
  exact costs

theorem Costs.pair {left right : Task S} {first second : M}
    (leftCosts : left.Costs admits cost admissible price first)
    (rightCosts : right.Costs admits cost admissible price second) :
    (pair left right).Costs admits cost admissible price (first + second) := by
  unfold Task.pair
  split
  · next failure finished => exact nomatch (leftCosts.of_outcome finished).2
  · next failure finished _ => exact nomatch (rightCosts.of_outcome finished).2
  · next leftDone rightDone =>
      rw [(leftCosts.of_outcome leftDone).1, (rightCosts.of_outcome rightDone).1, zero_add]
      exact ⟨rfl, rfl⟩
  · exact ⟨first, second, rfl, leftCosts, rightCosts⟩

theorem Costs.thenRun {child : Task S} {next : S.Outcome → Program S S.Outcome} {first second : M}
    (childCosts : child.Costs admits cost admissible price first)
    (rest : (next (.ok ())).Costs admits cost admissible price (· = .ok ()) second) :
    (thenRun child next).Costs admits cost admissible price (first + second) := by
  unfold Task.thenRun
  split
  · next outcome finished =>
      obtain ⟨rfl, rfl⟩ := childCosts.of_outcome finished
      rw [zero_add]
      exact rest
  · exact ⟨first, second, rfl, childCosts, rest⟩

theorem costs_spawn {calls : List S.Call} (each : ∀ target ∈ calls, admissible target) :
    (spawn calls).Costs admits cost admissible price (calls.map price).sum := by
  induction calls with
  | nil => exact ⟨rfl, rfl⟩
  | cons target rest ih =>
      have head : Costs admits cost admissible price (.call target) (price target) :=
        ⟨each target List.mem_cons_self, rfl⟩
      rw [List.map_cons, List.sum_cons]
      exact head.pair (ih fun other member => each other (List.mem_cons_of_mem _ member))

/-- The cost of the operation a step performs, if any. -/
def eventCost (cost : Event S → M) : Option (Event S) → M
  | some event => cost event
  | none => 0

/-- **Accounting rule, one step.** The cost of the step is taken off what the task
still has to spend. -/
theorem Costs.step {task next : Task S} {event : Option (Event S)} {amount : M}
    (bodies : ∀ target, admissible target →
      (body target).Costs admits cost admissible price (· = .ok ()) (price target))
    (costs : task.Costs admits cost admissible price amount) (step : Step body task event next)
    (admitted : ∀ performed, event = some performed → admits performed.op performed.response) :
    ∃ rest, amount = eventCost cost event + rest ∧
      next.Costs admits cost admissible price rest := by
  induction step generalizing amount with
  | enter target =>
      obtain ⟨allowed, rfl⟩ := costs
      exact ⟨_, (zero_add _).symm, bodies target allowed⟩
  | perform op after response => exact costs response (admitted _ rfl)
  | start calls after =>
      obtain ⟨allowed, rest, rfl, tail⟩ := costs
      exact ⟨_, (zero_add _).symm, (costs_spawn allowed).thenRun tail⟩
  | left waiting step ih =>
      obtain ⟨first, second, rfl, leftCosts, rightCosts⟩ := costs
      obtain ⟨rest, rfl, after⟩ := ih leftCosts admitted
      exact ⟨rest + second, add_assoc _ _ _, after.pair rightCosts⟩
  | right waiting step ih =>
      obtain ⟨first, second, rfl, leftCosts, rightCosts⟩ := costs
      obtain ⟨rest, rfl, after⟩ := ih rightCosts admitted
      exact ⟨first + rest, add_left_comm _ _ _, leftCosts.pair after⟩
  | child after step ih =>
      obtain ⟨first, second, rfl, childCosts, tail⟩ := costs
      obtain ⟨rest, rfl, remaining⟩ := ih childCosts admitted
      exact ⟨rest + second, add_assoc _ _ _, remaining.thenRun tail⟩

end Task

namespace Config

variable {W : Type} {body : S.Call → Program S S.Outcome} {handle : Handler S W}
  (measure : W → M)

/-- What the world has measured and what the tasks still have to spend add up to
the total. -/
def Costs (config : Config S W) (total : M) : Prop :=
  ∃ amounts : List M,
    List.Forall₂ (Task.Costs admits cost admissible price) config.tasks amounts ∧
      measure config.world + amounts.sum = total

variable {admits cost admissible price measure} {invariant : W → Prop}

/-- Replacing one task replaces its share of the sum. -/
theorem exchange {R : Task S → M → Prop} {tasks : List (Task S)} {amounts : List M}
    (each : List.Forall₂ R tasks amounts) {index : Nat} {task : Task S}
    (selected : tasks[index]? = some task) :
    ∃ amount others, R task amount ∧ amounts.sum = amount + others ∧
      ∀ next rest, R next rest → ∃ amounts',
        List.Forall₂ R (tasks.set index next) amounts' ∧ amounts'.sum = rest + others := by
  induction each generalizing index with
  | nil => cases selected
  | @cons first amount tasks amounts holds others ih =>
      cases index with
      | zero =>
          cases selected
          exact ⟨amount, amounts.sum, holds, List.sum_cons, fun next rest now =>
            ⟨rest :: amounts, .cons now others, List.sum_cons⟩⟩
      | succ index =>
          obtain ⟨share, left, taskHolds, sum, replace⟩ := ih selected
          refine ⟨share, amount + left, taskHolds, ?_, fun next rest now => ?_⟩
          · rw [List.sum_cons, sum, add_left_comm]
          · obtain ⟨amounts', each, total⟩ := replace next rest now
            exact ⟨amount :: amounts', .cons holds each, by
              rw [List.sum_cons, total, add_left_comm]⟩

/-- **Accounting rule, one step of a machine.** -/
theorem Costs.step {before after : Config S W} {total : M}
    (bodies : ∀ target, admissible target →
      (body target).Costs admits cost admissible price (· = .ok ()) (price target))
    (admitted : ∀ world op, invariant world → admits op (handle world op).1)
    (measured : ∀ world op,
      measure (handle world op).2 = measure world + cost ⟨op, (handle world op).1⟩)
    (holds : invariant before.world)
    (costs : before.Costs admits cost admissible price measure total)
    (step : Step body handle before after) :
    after.Costs admits cost admissible price measure total := by
  obtain ⟨amounts, each, sum⟩ := costs
  cases step with
  | @task index task next world selected moves =>
      obtain ⟨amount, others, taskCosts, share, replace⟩ := exchange each selected
      have spends : ∃ spent rest, amount = spent + rest ∧
          measure world = measure before.world + spent ∧
          next.Costs admits cost admissible price rest := by
        cases moves with
        | silent _ step =>
            obtain ⟨rest, equal, costs⟩ :=
              taskCosts.step bodies step (fun _ same => nomatch same)
            exact ⟨0, rest, equal, (add_zero _).symm, costs⟩
        | event _ op step =>
            obtain ⟨rest, equal, costs⟩ := taskCosts.step bodies step fun performed same => by
              cases same
              exact admitted _ op holds
            exact ⟨_, rest, equal, measured _ op, costs⟩
      obtain ⟨spent, rest, equal, grows, nextCosts⟩ := spends
      obtain ⟨amounts', now, total'⟩ := replace next rest nextCosts
      refine ⟨amounts', now, ?_⟩
      calc measure world + amounts'.sum
          = measure before.world + (spent + rest + others) := by
            rw [grows, total', add_assoc, add_assoc spent]
        _ = total := by rw [← equal, ← share, sum]

/-- Finished tasks have nothing left to spend. -/
theorem Costs.finished {config : Config S W} {total : M}
    (costs : config.Costs admits cost admissible price measure total)
    (finished : ∀ task ∈ config.tasks, task.outcome? ≠ none) :
    measure config.world = total ∧ ∀ task ∈ config.tasks, task.outcome? = some (.ok ()) := by
  obtain ⟨amounts, each, sum⟩ := costs
  have spent : amounts.sum = 0 ∧ ∀ task ∈ config.tasks, task.outcome? = some (.ok ()) := by
    generalize config.tasks = tasks at each finished
    clear sum
    induction each with
    | nil => exact ⟨rfl, fun _ member => nomatch member⟩
    | @cons task amount tasks amounts holds _ ih =>
        obtain ⟨outcome, done⟩ :=
          Option.ne_none_iff_exists'.mp (finished task List.mem_cons_self)
        obtain ⟨rfl, rfl⟩ := holds.of_outcome done
        obtain ⟨rest, others⟩ :=
          ih fun other member => finished other (List.mem_cons_of_mem _ member)
        refine ⟨by rw [List.sum_cons, rest, add_zero], fun other member => ?_⟩
        rcases List.mem_cons.mp member with rfl | inside
        · exact done
        · exact others other inside
  rw [spent.1, add_zero] at sum
  exact ⟨sum, spent.2⟩

end Config

end Async
