import Sohara.Async.BigStep
import Sohara.Async.Supervisor

/-! # Running to the end

What can be reached by steps that are chosen: the outcome of a task that halts, and every
goal of a list, when each of them can be reached without undoing the others.
-/

namespace Async

open Relation

section Goals

variable {α ι : Type} {step : α → α → Prop}

/-- Goals that can each be reached without undoing the others can be reached one after the
other. -/
theorem reach_all (kept : α → Prop) (done : ι → α → Prop) (goals : List ι)
    (reach : ∀ goal ∈ goals, ∀ state, kept state →
      ∃ next, ReflTransGen step state next ∧ kept next ∧ done goal next ∧
        ∀ other, done other state → done other next)
    (state : α) (start : kept state) :
    ∃ last, ReflTransGen step state last ∧ kept last ∧ (∀ goal ∈ goals, done goal last) ∧
      ∀ other, done other state → done other last := by
  induction goals generalizing state with
  | nil => exact ⟨state, .refl, start, List.forall_mem_nil _, fun _ holds => holds⟩
  | cons goal rest ih =>
      obtain ⟨next, first, here, reached, undone⟩ := reach goal List.mem_cons_self state start
      obtain ⟨last, others, there, all, stays⟩ :=
        ih (fun other member => reach other (List.mem_cons_of_mem _ member)) next here
      refine ⟨last, first.trans others, there, ?_, fun other holds => ?_⟩
      · exact List.forall_mem_cons.mpr ⟨stays goal reached, all⟩
      · exact stays other (undone other holds)

end Goals

section Tasks

variable {S : Signature} {W : Type} {body : S.Call → Program S S.Outcome} {handle : Handler S W}
  {task : Task S}

/-- A halting task over a world runs to its outcome. -/
theorem Task.Halts.exists_ran [∀ op : S.Op, Nonempty (S.Response op)] (halts : task.Halts body)
    (settled : task.Settled) (world : W) :
    ∃ steps outcome after, Task.Ran body handle task world steps (.run (.done outcome)) after := by
  induction halts generalizing world with
  | intro task _ ih =>
    cases finished : task.outcome? with
    | some outcome =>
        rw [Task.outcome?_eq_some finished]
        exact ⟨_, outcome, world, .refl ..⟩
    | none =>
        obtain ⟨next, after, moves⟩ := Supervised.exists_moves body handle settled finished world
        have reduced := Supervised.settled_of_moves settled moves
        cases moves with
        | silent _ step =>
            obtain ⟨steps, outcome, last, ran⟩ := ih next ⟨_, step⟩ reduced world
            exact ⟨_, outcome, last, .silent step ran⟩
        | event _ op step =>
            obtain ⟨steps, outcome, last, ran⟩ := ih next ⟨_, step⟩ reduced (handle world op).2
            exact ⟨_, outcome, last, .event op step ran⟩

end Tasks

end Async
