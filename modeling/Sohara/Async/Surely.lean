import Sohara.Async.BigStep

/-! # Operations that cannot be left out

Some operations are performed on every way of a program to a given end, whatever its
operations respond and its calls return.
-/

namespace Async

variable {S : Signature} {W α β : Type}

namespace Program

/-- On every way to its end, the program itself performs one of the operations or returns a
value satisfying `post`. -/
def Surely (onOp : S.Op → Prop) (post : α → Prop) : Program S α → Prop
  | .done value => post value
  | .perform op next => onOp op ∨ ∀ response, Surely onOp post (next response)
  | .await _ next => ∀ outcome, Surely onOp post (next outcome)

variable {onOp : S.Op → Prop} {post : α → Prop} {last : β → Prop}

/-- What is done at the end is done after anything. -/
theorem surely_bind {program : Program S α} {after : α → Program S β}
    (second : ∀ value, (after value).Surely onOp last) :
    (program >>= after).Surely onOp last := by
  show (program.bind after).Surely onOp last
  induction program with
  | done value => exact second value
  | perform op next ih => exact .inr ih
  | await calls next ih => exact ih

/-- A failure of the first program is one of the whole. -/
theorem surely_andThen {first second : Program S S.Outcome} {last : S.Outcome → Prop}
    (failed : ∀ failure, last (.error failure)) (sure : second.Surely onOp last) :
    (first.andThen second).Surely onOp last :=
  surely_bind fun
    | .ok () => sure
    | .error failure => failed failure

/-- What is done at the beginning is done. -/
theorem Surely.bind {program : Program S α} {after : α → Program S β}
    (first : program.Surely onOp post)
    (second : ∀ value, post value → (after value).Surely onOp last) :
    (program >>= after).Surely onOp last := by
  show (program.bind after).Surely onOp last
  induction program with
  | done value => exact second value first
  | perform op next ih => exact first.imp_right fun rest response => ih response (rest response)
  | await calls next ih => exact fun outcome => ih outcome (first outcome)

end Program

namespace Task

/-- The program of the task still has the operation ahead. -/
def Surely (onOp : S.Op → Prop) (post : S.Outcome → Prop) : Task S → Prop
  | .run program => program.Surely onOp post
  | .await _ next => ∀ outcome, (next outcome).Surely onOp post
  | _ => False

variable {body : S.Call → Program S S.Outcome} {handle : Handler S W} {onOp : S.Op → Prop}
  {post : S.Outcome → Prop}

theorem Surely.thenRun {child : Task S} {next : S.Outcome → Program S S.Outcome}
    (rest : ∀ outcome, (next outcome).Surely onOp post) :
    (thenRun child next).Surely onOp post := by
  rcases thenRun_cases child next with ⟨outcome, -, resumed⟩ | waiting
  · rw [resumed]
    exact rest outcome
  · rw [waiting]
    exact rest

/-- A step performs the operation or leaves it ahead. -/
theorem Surely.step {task next : Task S} {event : Option (Event S)}
    (sure : task.Surely onOp post) (step : Step body task event next) :
    (∃ performed, event = some performed ∧ onOp performed.op) ∨ next.Surely onOp post := by
  cases step with
  | enter target => exact sure.elim
  | perform op after response =>
      rcases sure with here | later
      · exact .inl ⟨_, rfl, here⟩
      · exact .inr (later response)
  | start calls after => exact .inr (Surely.thenRun sure)
  | left waiting step => exact sure.elim
  | right waiting step => exact sure.elim
  | child rest step => exact .inr (Surely.thenRun sure)

/-- **A program that has ended has performed its sure operations.** -/
theorem Surely.ran {task : Task S} {world after : W} {steps : List (Occurrence S W)}
    {outcome : S.Outcome} (sure : task.Surely onOp post)
    (ran : Ran body handle task world steps (.run (.done outcome)) after) :
    (∃ step ∈ steps, onOp step.op) ∨ post outcome := by
  generalize ended : (.run (.done outcome) : Task S) = next at ran
  induction ran with
  | refl =>
      subst ended
      exact .inr sure
  | silent step _ ih =>
      rcases sure.step step with ⟨performed, same, -⟩ | ahead
      · cases same
      · exact ih ahead ended
  | event op step _ ih =>
      rcases sure.step step with ⟨performed, same, here⟩ | ahead
      · cases same
        exact .inl ⟨_, List.mem_cons_self, here⟩
      · refine (ih ahead ended).imp_left ?_
        rintro ⟨step, member, here⟩
        exact ⟨step, List.mem_cons_of_mem _ member, here⟩

end Task

end Async
