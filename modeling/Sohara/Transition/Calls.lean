import Mathlib.Data.List.Basic

/-! # Calls in progress

Calls that are made concurrently are kept in a list, each under its number: new calls are
added at the end, and a call that goes on is replaced. What holds of every call is kept
when it holds of the new one.
-/

namespace Transition

variable {α : Type} {calls : List α} {number : Nat} {call changed : α}

theorem getElem?_set_of_some (present : calls[number]? = some call) (changed : α) (other : Nat) :
    (calls.set number changed)[other]? =
      if number = other then some changed else calls[other]? := by
  obtain ⟨bound, -⟩ := List.getElem?_eq_some_iff.mp present
  rw [List.getElem?_set]
  by_cases same : number = other
  · rw [if_pos same, if_pos same, if_pos bound]
  · rw [if_neg same, if_neg same]

/-- A call goes on: what holds of the others, and of the changed call, holds of all. -/
theorem forall_set {holds : Nat → α → Prop} (present : calls[number]? = some call)
    (new : holds number changed)
    (others : ∀ other call, number ≠ other → calls[other]? = some call → holds other call) :
    ∀ other call, (calls.set number changed)[other]? = some call → holds other call := by
  intro other found there
  rw [getElem?_set_of_some present] at there
  by_cases same : number = other
  · rw [if_pos same] at there
    cases there
    subst same
    exact new
  · rw [if_neg same] at there
    exact others other found same there

/-- A call is made: what holds of the others, and of the new call, holds of all. -/
theorem forall_append {holds : Nat → α → Prop} (new : holds calls.length call)
    (others : ∀ other call, calls[other]? = some call → holds other call) :
    ∀ other found, (calls ++ [call])[other]? = some found → holds other found := by
  intro other found there
  rcases Nat.lt_or_ge other calls.length with earlier | later
  · rw [List.getElem?_append_left earlier] at there
    exact others other found there
  · rw [List.getElem?_append_right later] at there
    cases offset : other - calls.length with
    | zero =>
        rw [offset] at there
        cases there
        rw [Nat.le_antisymm (Nat.sub_eq_zero_iff_le.mp offset) later]
        exact new
    | succ offset' =>
        rw [offset] at there
        cases there

end Transition
