import Mathlib.Data.List.Perm.Basic

/-! # Serial orders

Actions on a state applied one after the other, in an order that may still grow: at its
end, and at any place whose state the new action leaves alone.
-/

namespace Async

variable {E σ : Type} (act : E → σ → σ)

/-- Actions applied one after the other. -/
def serially (order : List E) (start : σ) : σ :=
  order.foldl (fun state action => act action state) start

/-- A serial order comes past a state. -/
def Passes (order : List E) (start seen : σ) : Prop :=
  ∃ done left, order = done ++ left ∧ serially act done start = seen

variable {act} {order : List E} {start seen other : σ} {action : E}

@[simp] theorem serially_nil : serially act [] start = start := rfl

@[simp] theorem serially_append (done left : List E) :
    serially act (done ++ left) start = serially act left (serially act done start) :=
  List.foldl_append

@[simp] theorem serially_cons (action : E) (left : List E) :
    serially act (action :: left) start = serially act left (act action start) := rfl

theorem passes_last : Passes act order start (serially act order start) :=
  ⟨order, [], (List.append_nil _).symm, rfl⟩

/-- What an order comes past stays when it grows at its end. -/
theorem Passes.snoc (passes : Passes act order start seen) (action : E) :
    Passes act (order ++ [action]) start seen := by
  obtain ⟨done, left, rfl, reached⟩ := passes
  exact ⟨done, left ++ [action], List.append_assoc .., reached⟩

/-- An action that leaves a state alone has a place in every order that comes past the
state, and the order still comes past the same states. -/
theorem Passes.insert (passes : Passes act order start seen) (neutral : act action seen = seen) :
    ∃ larger, larger.Perm (action :: order) ∧ serially act larger start = serially act order start ∧
      ∀ other, Passes act order start other → Passes act larger start other := by
  obtain ⟨done, left, rfl, reached⟩ := passes
  refine ⟨done ++ action :: left, List.perm_middle, ?_, ?_⟩
  · rw [serially_append, serially_append, serially_cons, reached, neutral]
  · rintro other ⟨first, rest, split, arrives⟩
    rcases List.append_eq_append_iff.mp split with ⟨middle, rfl, rfl⟩ | ⟨middle, rfl, rfl⟩
    · refine ⟨done ++ action :: middle, rest, by simp, ?_⟩
      rw [serially_append] at arrives
      rw [serially_append, serially_cons, reached, neutral, ← reached, arrives]
    · exact ⟨first, middle ++ action :: left, by simp, arrives⟩

end Async
