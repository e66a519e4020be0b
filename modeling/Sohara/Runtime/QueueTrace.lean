import Sohara.Async.Trace
import Sohara.Runtime.Effect

/-! # Store operations along a run

Which tasks have loaded a key since it was last written, whether a key is only ever
written by such tasks, and what has been parked under a key.
-/

namespace Sohara

open Async

variable {W : Type}

/-- The task has loaded the key since it was last written. -/
def UpToDate (key : String) (task : Nat) (steps : List (Occurrence Engine W)) : Prop :=
  ∃ before load after, steps = before ++ load :: after ∧ load.task = task ∧
    Op.loads key load.op = true ∧ ∀ later ∈ after, Op.writes key later.op = false

/-- The key is written only by tasks that have loaded it since it was last written:
nobody writes between a load and the write that follows it. -/
def Undisturbed (key : String) (steps : List (Occurrence Engine W)) : Prop :=
  EachStep (fun before step => Op.writes key step.op = true → UpToDate key step.task before) steps

/-- The records parked under the chosen keys, in the order in which they are saved. -/
def parkedAt (chosen : String → Bool) (steps : List (Occurrence Engine W)) : List Value :=
  steps.filterMap fun step =>
    match step.op with
    | .save key (.array items) => if chosen key then items.getLast? else none
    | _ => none

section Extension

variable {key : String} {task : Nat} {steps : List (Occurrence Engine W)}
  {step : Occurrence Engine W}

theorem upToDate_snoc : UpToDate key task (steps ++ [step]) ↔
    (step.task = task ∧ Op.loads key step.op = true) ∨
      (UpToDate key task steps ∧ Op.writes key step.op = false) := by
  unfold UpToDate
  constructor
  · rintro ⟨before, load, after, split, same, loads, quiet⟩
    rcases snoc_eq_append_cons.mp split with ⟨rfl, rfl, rfl⟩ | ⟨rest, rfl, rfl⟩
    · exact .inl ⟨same, loads⟩
    · refine .inr ⟨⟨before, load, rest, rfl, same, loads, fun later member => ?_⟩, ?_⟩
      · exact quiet later (List.mem_append_left _ member)
      · exact quiet step (List.mem_append_right _ List.mem_cons_self)
  · rintro (⟨same, loads⟩ | ⟨⟨before, load, after, rfl, same, loads, quiet⟩, silent⟩)
    · exact ⟨steps, step, [], rfl, same, loads, fun _ member => nomatch member⟩
    · refine ⟨before, load, after ++ [step], by simp, same, loads, fun later member => ?_⟩
      rcases List.mem_append.mp member with old | new
      · exact quiet later old
      · rw [List.mem_singleton.mp new]
        exact silent

theorem undisturbed_snoc : Undisturbed key (steps ++ [step]) ↔
    Undisturbed key steps ∧ (Op.writes key step.op = true → UpToDate key step.task steps) :=
  eachStep_snoc

theorem undisturbed_nil : Undisturbed (W := W) key [] := eachStep_nil

variable (key) in
/-- Whether the steps write the key only by up-to-date tasks, when the listed tasks are up to date
before them. -/
def isUndisturbed : List Nat → List (Occurrence Engine W) → Bool
  | _, [] => true
  | current, step :: rest =>
      if Op.writes key step.op then step.task ∈ current && isUndisturbed [] rest
      else if Op.loads key step.op then isUndisturbed (step.task :: current) rest
      else isUndisturbed current rest

/-- **Soundness of the check.** -/
theorem undisturbed_of_check {current : List Nat} {rest : List (Occurrence Engine W)}
    (known : ∀ task ∈ current, UpToDate key task steps) (clean : Undisturbed key steps)
    (checked : isUndisturbed key current rest = true) : Undisturbed key (steps ++ rest) := by
  induction rest generalizing steps current with
  | nil => rwa [List.append_nil]
  | cons step rest ih =>
      rw [← List.singleton_append, ← List.append_assoc]
      unfold isUndisturbed at checked
      cases writes : Op.writes key step.op with
      | true =>
          rw [if_pos writes, Bool.and_eq_true, decide_eq_true_iff] at checked
          have forgotten : ∀ task ∈ ([] : List Nat), UpToDate key task (steps ++ [step]) :=
            fun _ member => nomatch member
          refine ih forgotten ?_ checked.2
          exact undisturbed_snoc.mpr ⟨clean, fun _ => known _ checked.1⟩
      | false =>
          rw [if_neg (Bool.eq_false_iff.mp writes)] at checked
          have kept : Undisturbed key (steps ++ [step]) :=
            undisturbed_snoc.mpr ⟨clean, fun same => nomatch writes.symm.trans same⟩
          have still : ∀ task ∈ current, UpToDate key task (steps ++ [step]) :=
            fun task member => upToDate_snoc.mpr (.inr ⟨known task member, writes⟩)
          split at checked
          · next loads =>
              refine ih (fun task member => ?_) kept checked
              rcases List.mem_cons.mp member with rfl | old
              · exact upToDate_snoc.mpr (.inl ⟨rfl, loads⟩)
              · exact still task old
          · exact ih still kept checked

variable {chosen : String → Bool}

theorem parkedAt_append (more : List (Occurrence Engine W)) : parkedAt chosen (steps ++ more) =
    parkedAt chosen steps ++ parkedAt chosen more :=
  List.filterMap_append

theorem parkedAt_snoc : parkedAt chosen (steps ++ [step]) =
    parkedAt chosen steps ++ parkedAt chosen [step] :=
  parkedAt_append [step]

/-- Saving a queue with one more record parks it. -/
theorem parkedAt_save {index : Nat} {world : W} {items : List Value} {item : Value} :
    parkedAt chosen [⟨index, world, .save key (.array (items ++ [item]))⟩] =
      if chosen key then [item] else [] := by
  unfold parkedAt
  cases selected : chosen key <;> simp [selected]

/-- Writes under other keys park nothing. -/
theorem parkedAt_of_not_writes
    (other : ∀ key, Op.writes key step.op = true → chosen key = false) :
    parkedAt chosen [step] = [] := by
  obtain ⟨index, world, op⟩ := step
  unfold parkedAt
  cases op with
  | save key value =>
      have avoided := other key (by simp [Op.writes])
      cases value <;> simp [avoided]
  | _ => rfl

end Extension

end Sohara
