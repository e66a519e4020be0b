import Mathlib.Data.Int.CardIntervalMod
import Mathlib.Data.List.MinMax
import Mathlib.Data.List.Sort

/-! # Arrangements of a list

A list is arranged by a key, or it is gone round from a running counter. Keys that differ
settle the arrangement: it depends on the elements alone, and when some elements leave, the
others keep their order. Whoever goes round a list comes to each of its elements as often
as to any other, up to one visit. Of the elements with the greatest key, the last is chosen.
-/

namespace Arrangements

section Sorting

variable {α : Type} {key : α → Nat} {elements others : List α}

theorem pairwise_mergeSort_key (key : α → Nat) (elements : List α) :
    (elements.mergeSort fun left right => key left ≤ key right).Pairwise
      fun left right => key left ≤ key right := by
  have sorted := @List.pairwise_mergeSort _ (fun left right => decide (key left ≤ key right))
    (fun first second third => by simpa using Nat.le_trans)
    (fun first second => by simpa using Nat.le_total (key first) (key second)) elements
  exact sorted.imp of_decide_eq_true

/-- **Deleting before or after sorting.** What is left of a list, in any order, is arranged as
it stands in the arrangement of the whole list, if the keys of that list differ. -/
theorem mergeSort_eq_filter (key : α → Nat) {keep : α → Bool}
    (left : others.Perm (elements.filter keep))
    (apart : ∀ first ∈ elements, ∀ second ∈ elements, key first = key second → first = second) :
    others.mergeSort (fun first second => key first ≤ key second) =
      (elements.mergeSort fun first second => key first ≤ key second).filter keep := by
  have sorted := List.mergeSort_perm elements fun first second => key first ≤ key second
  have same := (List.mergeSort_perm others fun first second => key first ≤ key second).trans
    (left.trans (sorted.filter keep).symm)
  refine same.eq_of_pairwise (fun first second inside present below above => ?_)
    (pairwise_mergeSort_key key others) ((pairwise_mergeSort_key key elements).filter keep)
  have first_mem := sorted.mem_iff.mp (List.mem_of_mem_filter (same.mem_iff.mp inside))
  have second_mem := sorted.mem_iff.mp (List.mem_of_mem_filter present)
  exact apart first first_mem second second_mem (Nat.le_antisymm below above)

end Sorting

section Leaving

variable {K V : Type} {before after : List (K × V)} {left : K} {value : V}

/-- Deleting the one entry of a name leaves what is before and after it. -/
theorem filter_around [DecidableEq K] (once : left ∉ (before ++ after).map Prod.fst) :
    ((before ++ (left, value) :: after).filter fun entry => entry.1 ≠ left) = before ++ after := by
  have stays : ∀ entry ∈ before ++ after, decide (entry.1 ≠ left) = true := by
    intro entry inside
    refine decide_eq_true fun same => once ?_
    exact List.mem_map.mpr ⟨entry, inside, same⟩
  rw [List.filter_append, List.filter_cons_of_neg (by simp), ← List.filter_append]
  exact List.filter_eq_self.mpr stays

/-- A first entry that stays is the first of what is left. -/
theorem head?_around {first : K × V}
    (ahead : (before ++ (left, value) :: after).head? = some first) (stays : first.1 ≠ left) :
    (before ++ after).head? = some first := by
  cases before with
  | nil =>
      cases ahead
      exact absurd rfl stays
  | cons top more => exact ahead

/-- A first entry that leaves is succeeded by the second. -/
theorem head?_successor (once : left ∉ (before ++ after).map Prod.fst)
    (ahead : (before ++ (left, value) :: after).head? = some (left, value)) :
    (before ++ after).head? = (before ++ (left, value) :: after)[1]? := by
  cases before with
  | nil => cases after <;> rfl
  | cons top more =>
      cases ahead
      exact absurd List.mem_cons_self once

end Leaving

section Choosing

variable {α : Type} {key : α → Nat} {elements : List α} {chosen : α}

/-- The last of the elements with the greatest key. -/
def maxByKey (key : α → Nat) (elements : List α) : Option α :=
  elements.reverse.argmax key

theorem maxByKey_eq_none_iff : maxByKey key elements = none ↔ elements = [] := by
  unfold maxByKey
  rw [List.argmax_eq_none, List.reverse_eq_nil_iff]

theorem mem_of_maxByKey (greatest : maxByKey key elements = some chosen) : chosen ∈ elements :=
  List.mem_reverse.mp (List.argmax_mem greatest)

theorem le_of_maxByKey (greatest : maxByKey key elements = some chosen) {element : α}
    (member : element ∈ elements) : key element ≤ key chosen :=
  List.le_of_mem_argmax (List.mem_reverse.mpr member) greatest

/-- A last element that no other exceeds is chosen. -/
theorem maxByKey_concat (greatest : ∀ element ∈ elements, key element ≤ key chosen) :
    maxByKey key (elements ++ [chosen]) = some chosen := by
  unfold maxByKey
  rw [List.reverse_append, List.reverse_singleton, List.singleton_append, List.argmax_cons]
  cases earlier : elements.reverse.argmax key with
  | none => rfl
  | some other =>
      have member := List.mem_reverse.mp (List.argmax_mem earlier)
      exact if_neg (Nat.not_lt.mpr (greatest other member))

end Choosing

section Cycling

variable {α : Type} {targets : List α}

/-- What is visited by going round a list from a counter on. -/
def cycle (targets : List α) (counter : Nat) : Nat → List α
  | 0 => []
  | visits + 1 =>
      (targets[counter % targets.length]?).toList ++ cycle targets (counter + 1) visits

theorem head?_rotateLeft_mod (targets : List α) (counter : Nat) :
    (targets.rotateLeft (counter % targets.length)).head? =
      targets[counter % targets.length]? := by
  unfold List.rotateLeft
  dsimp only
  split
  case isTrue short =>
    match targets, short with
    | [], _ => rfl
    | [_], _ => rw [List.length_singleton, Nat.mod_one]; rfl
  case isFalse long =>
    have below : counter % targets.length < targets.length := Nat.mod_lt _ (by omega)
    rw [Nat.mod_mod, List.head?_append, List.head?_drop, List.getElem?_eq_getElem below]
    rfl

theorem rotateLeft_perm (targets : List α) (shift : Nat) :
    (targets.rotateLeft shift).Perm targets := by
  unfold List.rotateLeft
  dsimp only
  split
  · exact List.Perm.refl _
  · refine List.perm_append_comm.trans (List.Perm.of_eq ?_)
    exact List.take_append_drop _ _

variable [BEq α] [LawfulBEq α]

/-- The visits to the element at an index are the counters that name the index. -/
theorem count_cycle (distinct : targets.Nodup) {index : Nat} (inside : index < targets.length)
    (counter visits : Nat) :
    (cycle targets counter visits).count targets[index] +
        Nat.count (fun step => step ≡ index [MOD targets.length]) counter =
      Nat.count (fun step => step ≡ index [MOD targets.length]) (counter + visits) := by
  induction visits generalizing counter with
  | zero => exact Nat.zero_add _
  | succ visits ih =>
      have below : counter % targets.length < targets.length := Nat.mod_lt _ (by omega)
      have next := ih (counter + 1)
      rw [Nat.count_succ, Nat.add_right_comm counter 1 visits] at next
      have here : ((targets[counter % targets.length]?).toList).count targets[index] =
          if counter ≡ index [MOD targets.length] then 1 else 0 := by
        rw [List.getElem?_eq_getElem below, Option.toList_some, List.count_singleton]
        simp only [beq_iff_eq, distinct.getElem_inj_iff, Nat.ModEq, Nat.mod_eq_of_lt inside]
      rw [cycle, List.count_append, here, ← Nat.add_assoc]
      omega

/-- **Fairness.** Any two elements are visited equally often, up to one visit. -/
theorem count_cycle_le (distinct : targets.Nodup) {first second : α}
    (firstMember : first ∈ targets) (secondMember : second ∈ targets) (counter visits : Nat) :
    (cycle targets counter visits).count first ≤
      (cycle targets counter visits).count second + 1 := by
  obtain ⟨one, oneInside, rfl⟩ := List.getElem_of_mem firstMember
  obtain ⟨other, otherInside, rfl⟩ := List.getElem_of_mem secondMember
  have nonempty : 0 < targets.length := Nat.zero_lt_of_lt oneInside
  have oneCount := count_cycle distinct oneInside counter visits
  have otherCount := count_cycle distinct otherInside counter visits
  rw [Nat.count_modEq_card _ nonempty, Nat.count_modEq_card _ nonempty,
    Nat.mod_eq_of_lt oneInside] at oneCount
  rw [Nat.count_modEq_card _ nonempty, Nat.count_modEq_card _ nonempty,
    Nat.mod_eq_of_lt otherInside] at otherCount
  split at oneCount <;> split at oneCount <;> split at otherCount <;> split at otherCount <;> omega

end Cycling

end Arrangements
