import Mathlib.Algebra.BigOperators.Group.List.Basic
import Mathlib.Algebra.GroupWithZero.Nat
import Mathlib.Data.List.Induction
import Mathlib.Data.List.Nodup
import Mathlib.Data.List.Perm.Subperm

/-! # Gathering items into groups

A gatherer holds items back and releases them as a group as soon as a given number
has come together. What it holds and what it has released are the quotient and the
remainder of what has arrived, in the order of arrival.
-/

namespace Gather

variable {α β : Type} {size : Nat}

/-- Items held back and the groups released so far. -/
structure Gathered (α : Type) where
  pending : List α
  released : List (List α)

/-- One more item: the group is released when it is complete. -/
def push (size : Nat) (state : Gathered α) (item : α) : Gathered α :=
  if size ≤ (state.pending ++ [item]).length then
    ⟨[], state.released ++ [state.pending ++ [item]]⟩
  else ⟨state.pending ++ [item], state.released⟩

/-- All items, one after the other. -/
def gather (size : Nat) (items : List α) : Gathered α := items.foldl (push size) ⟨[], []⟩

theorem gather_snoc (items : List α) (item : α) :
    gather size (items ++ [item]) = push size (gather size items) item := by
  unfold gather
  rw [List.foldl_append, List.foldl_cons, List.foldl_nil]

/-- **Conservation.** Every item is released once or held back. -/
theorem flatten_gather (items : List α) :
    (gather size items).released.flatten ++ (gather size items).pending = items := by
  induction items using List.reverseRecOn with
  | nil => rfl
  | append_singleton items item ih =>
      rw [gather_snoc]
      unfold push
      split
      · rw [List.flatten_append, List.append_assoc, List.flatten_singleton, List.append_nil,
          ← List.append_assoc, ih]
      · rw [← List.append_assoc, ih]

/-- The groups of one size that a list is made of. -/
theorem getElem?_flatten {groups : List (List α)} (rest : List α)
    (complete : ∀ group ∈ groups, group.length = size) {i : Nat} (inside : i < groups.length) :
    groups[i]? = some (((groups.flatten ++ rest).drop (i * size)).take size) := by
  induction groups generalizing i with
  | nil => cases inside
  | cons group groups ih =>
      obtain ⟨first, others⟩ := List.forall_mem_cons.mp complete
      rw [List.flatten_cons, List.append_assoc]
      cases i with
      | zero =>
          rw [Nat.zero_mul, List.drop_zero, List.take_left' first]
          rfl
      | succ i =>
          have past : (i + 1) * size = group.length + i * size := by
            rw [first, Nat.add_mul, Nat.one_mul, Nat.add_comm]
          rw [List.getElem?_cons_succ, past, List.drop_length_add_append]
          exact ih others (Nat.lt_of_succ_lt_succ inside)

section Sizes

variable (positive : 0 < size)
include positive

/-- The counts of a gatherer: complete groups only are released. -/
theorem gather_sizes (items : List α) :
    (∀ group ∈ (gather size items).released, group.length = size) ∧
      (gather size items).pending.length < size := by
  induction items using List.reverseRecOn with
  | nil => exact ⟨(fun _ member => nomatch member), positive⟩
  | append_singleton items item ih =>
      obtain ⟨complete, short⟩ := ih
      rw [gather_snoc]
      unfold push
      rw [List.length_append, List.length_singleton]
      split
      · next due =>
          refine ⟨fun group member => ?_, positive⟩
          rcases List.mem_append.mp member with old | new
          · exact complete group old
          · rw [List.mem_singleton.mp new, List.length_append, List.length_singleton]
            omega
      · next early => exact ⟨complete, by rw [List.length_append, List.length_singleton]; omega⟩

theorem length_gather (items : List α) :
    (gather size items).released.length * size + (gather size items).pending.length =
      items.length := by
  obtain ⟨complete, -⟩ := gather_sizes positive items
  have total := congrArg List.length (@flatten_gather _ size items)
  rw [List.length_append, List.length_flatten, List.map_congr_left complete, List.map_const',
    List.sum_replicate, Nat.nsmul_eq_mul] at total
  exact total

/-- As many groups are released as are complete. -/
theorem length_released (items : List α) :
    (gather size items).released.length = items.length / size := by
  have total := length_gather positive items
  have short := (gather_sizes positive items).2
  rw [← total, Nat.add_comm, Nat.add_mul_div_right _ _ positive, Nat.div_eq_of_lt short,
    Nat.zero_add]

theorem length_pending (items : List α) :
    (gather size items).pending.length = items.length % size := by
  have total := length_gather positive items
  have short := (gather_sizes positive items).2
  rw [← total, Nat.add_comm, Nat.add_mul_mod_self_right, Nat.mod_eq_of_lt short]

/-- The groups released, one after the other. -/
theorem released_getElem? (items : List α) {i : Nat} (inside : i < items.length / size) :
    (gather size items).released[i]? = some ((items.drop (i * size)).take size) := by
  have groups := getElem?_flatten (gather size items).pending (gather_sizes positive items).1
    (i := i) (by rwa [length_released positive])
  rwa [flatten_gather] at groups

/-- What is held back are the last items. -/
theorem pending_eq_drop (items : List α) :
    (gather size items).pending = items.drop (items.length / size * size) := by
  have complete := (gather_sizes positive items).1
  have past : (gather size items).released.flatten.length = items.length / size * size := by
    rw [List.length_flatten, List.map_congr_left complete, List.map_const', List.sum_replicate,
      Nat.nsmul_eq_mul, length_released positive]
  have parts := @List.drop_left _ (gather size items).released.flatten
    (gather size items).pending
  rw [flatten_gather, past] at parts
  exact parts.symm

/-- Nothing is held back exactly when complete groups have arrived. -/
theorem pending_eq_nil_iff (items : List α) :
    (gather size items).pending = [] ↔ size ∣ items.length := by
  rw [← List.length_eq_zero_iff, length_pending positive, Nat.dvd_iff_mod_eq_zero]

end Sizes

/-- **A group of as many items as there are labels** has every label exactly when no label
occurs twice. -/
theorem covers_iff_nodup {labels group : List β} (distinct : labels.Nodup)
    (labelled : ∀ label ∈ group, label ∈ labels) (complete : group.length = labels.length) :
    (∀ label ∈ labels, label ∈ group) ↔ group.Nodup := by
  constructor
  · intro covers
    have within : labels.Subperm group := distinct.subperm covers
    exact (within.perm_of_length_le (Nat.le_of_eq complete)).nodup_iff.mp distinct
  · intro nodup label member
    have within : group.Subperm labels := nodup.subperm labelled
    exact (within.perm_of_length_le (Nat.le_of_eq complete.symm)).mem_iff.mpr member

end Gather
