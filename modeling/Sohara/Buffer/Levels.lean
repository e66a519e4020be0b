import Mathlib.Algebra.BigOperators.Group.List.Basic
import Mathlib.Algebra.Group.Action.Defs

/-! # Stages depth first and level by level

A stage replaces an item by several others, at a cost. Items can be pushed one at a time
through all stages to the end, or all of them through one stage after the other. When the
costs do not matter to the end, both ways hand it the same items in the same order.
-/

namespace Levels

variable {α σ C : Type}

/-- What a stage makes of an item, and what it costs. -/
structure Stage (α C : Type) where
  emits : α → List α
  cost : α → C

section Definitions

variable [AddCommMonoid C]

/-- Pushes an item through the stages to the end. -/
def push [VAdd C σ] (finish : σ → α → σ) : List (Stage α C) → σ → α → σ
  | [], state, item => finish state item
  | stage :: rest, state, item =>
      (stage.emits item).foldl (push finish rest) (stage.cost item +ᵥ state)

/-- What the stages make of the items, level by level. -/
def survivors : List (Stage α C) → List α → List α
  | [], items => items
  | stage :: rest, items => survivors rest (items.flatMap stage.emits)

/-- What the items cost, level by level. -/
def total : List (Stage α C) → List α → C
  | [], _ => 0
  | stage :: rest, items => (items.map stage.cost).sum + total rest (items.flatMap stage.emits)

end Definitions

section Equivalence

theorem survivors_nil (stages : List (Stage α C)) : survivors stages [] = [] := by
  induction stages with
  | nil => rfl
  | cons stage rest ih => exact ih

variable [AddCommMonoid C]

theorem total_nil (stages : List (Stage α C)) : total stages [] = 0 := by
  induction stages with
  | nil => rfl
  | cons stage rest ih =>
      unfold total
      rw [List.map_nil, List.sum_nil, zero_add]
      exact ih

variable [AddAction C σ] {step finish : σ → α → σ}

/-- The costs do not matter to a step. -/
def Indifferent (C : Type) [AddCommMonoid C] [AddAction C σ] (step : σ → α → σ) : Prop :=
  ∀ (cost : C) (state : σ) (item : α), step (cost +ᵥ state) item = cost +ᵥ step state item

theorem Indifferent.foldl (indifferent : Indifferent C step) (cost : C) (items : List α)
    (state : σ) : items.foldl step (cost +ᵥ state) = cost +ᵥ items.foldl step state := by
  induction items generalizing state with
  | nil => rfl
  | cons item rest ih => rw [List.foldl_cons, List.foldl_cons, indifferent, ih]

theorem Indifferent.push (indifferent : Indifferent C finish) (stages : List (Stage α C)) :
    Indifferent C (push finish stages) := by
  induction stages with
  | nil => exact indifferent
  | cons stage rest ih =>
      intro cost state item
      show (stage.emits item).foldl _ (stage.cost item +ᵥ (cost +ᵥ state)) = _
      rw [← add_vadd, add_comm, add_vadd, ih.foldl]
      rfl

/-- All items through the first stage. -/
theorem foldl_push_cons (indifferent : Indifferent C finish) (stage : Stage α C)
    (rest : List (Stage α C)) (items : List α) (state : σ) :
    items.foldl (push finish (stage :: rest)) state =
      (items.flatMap stage.emits).foldl (push finish rest)
        ((items.map stage.cost).sum +ᵥ state) := by
  induction items generalizing state with
  | nil => exact (zero_vadd C state).symm
  | cons item others ih =>
      rw [List.foldl_cons, ih, List.flatMap_cons, List.foldl_append, List.map_cons, List.sum_cons,
        add_comm, add_vadd, (indifferent.push rest).foldl _ (stage.emits item)]
      rfl

/-- **Depth first is level by level.** -/
theorem foldl_push (indifferent : Indifferent C finish) (stages : List (Stage α C))
    (items : List α) (state : σ) : items.foldl (push finish stages) state =
      (survivors stages items).foldl finish (total stages items +ᵥ state) := by
  induction stages generalizing items state with
  | nil =>
      show items.foldl finish state = items.foldl finish ((0 : C) +ᵥ state)
      rw [zero_vadd]
  | cons stage rest ih =>
      rw [foldl_push_cons indifferent, ih, ← add_vadd, add_comm]
      rfl

end Equivalence

end Levels
