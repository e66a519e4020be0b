import Mathlib.Data.List.Infix

/-! # The first occurrence of a pattern

A text is cut once, where a pattern occurs first. Behind a beginning that cannot start the
pattern, the first occurrence is the one in the rest.
-/

namespace Parsing

variable {α : Type} [DecidableEq α] {pattern text before after rest : List α}

/-- What stands around the first occurrence of a pattern. -/
def splitOnce (pattern : List α) : List α → Option (List α × List α)
  | [] => if pattern = [] then some ([], []) else none
  | element :: rest =>
      if pattern <+: element :: rest then some ([], (element :: rest).drop pattern.length)
      else (splitOnce pattern rest).map fun around => (element :: around.1, around.2)

omit [DecidableEq α] in
/-- **The first occurrence**: no other has less before it. -/
structure Occurs (pattern text before after : List α) : Prop where
  around : text = before ++ (pattern ++ after)
  first : ∀ other rest, text = other ++ (pattern ++ rest) → before.length ≤ other.length

theorem splitOnce_cons_of_elsewhere {element : α} (elsewhere : ¬ pattern <+: element :: rest) :
    splitOnce pattern (element :: rest) =
      (splitOnce pattern rest).map fun around => (element :: around.1, around.2) := by
  rw [splitOnce, if_neg elsewhere]

/-- A pattern at the start of a text is its first occurrence. -/
theorem splitOnce_append (pattern rest : List α) :
    splitOnce pattern (pattern ++ rest) = some ([], rest) := by
  cases whole : pattern ++ rest with
  | nil =>
      obtain ⟨rfl, rfl⟩ := List.append_eq_nil_iff.mp whole
      rfl
  | cons element more =>
      rw [splitOnce, ← whole, if_pos (List.prefix_append _ _), List.drop_left]

/-- **Where a text is cut**, the pattern occurs first. -/
theorem occurs_of_splitOnce (cut : splitOnce pattern text = some (before, after)) :
    Occurs pattern text before after := by
  induction text generalizing before with
  | nil =>
      unfold splitOnce at cut
      split at cut
      · rename_i empty
        cases cut
        exact ⟨by rw [empty]; rfl, fun _ _ _ => Nat.zero_le _⟩
      · cases cut
  | cons element rest ih =>
      unfold splitOnce at cut
      split at cut
      · rename_i starts
        obtain ⟨behind, whole⟩ := starts
        cases cut
        refine ⟨?_, fun _ _ _ => Nat.zero_le _⟩
        rw [← whole, List.drop_left, List.nil_append]
      · rename_i elsewhere
        obtain ⟨⟨begun, behind⟩, found, same⟩ := Option.map_eq_some_iff.mp cut
        cases same
        obtain ⟨around, first⟩ := ih found
        refine ⟨by rw [List.cons_append, ← around], fun other others whole => ?_⟩
        cases other with
        | nil => exact absurd ⟨others, whole.symm⟩ elsewhere
        | cons head other => exact Nat.succ_le_succ (first _ _ (List.cons.inj whole).2)

/-- **What is not cut** does not have the pattern. -/
theorem splitOnce_eq_none_iff : splitOnce pattern text = none ↔ ¬ pattern <:+: text := by
  induction text with
  | nil =>
      unfold splitOnce
      rw [List.infix_nil]
      split
      · rename_i empty
        exact ⟨fun uncut => absurd uncut (Option.some_ne_none _), fun other => absurd empty other⟩
      · rename_i other
        exact ⟨fun _ => other, fun _ => rfl⟩
  | cons element rest ih =>
      rw [List.infix_cons_iff, not_or, ← ih]
      by_cases starts : pattern <+: element :: rest
      · rw [splitOnce, if_pos starts]
        exact ⟨fun uncut => absurd uncut (Option.some_ne_none _),
          fun neither => absurd starts neither.1⟩
      · rw [splitOnce_cons_of_elsewhere starts, Option.map_eq_none_iff]
        exact ⟨fun uncut => ⟨starts, uncut⟩, And.right⟩

theorem splitOnce_of_occurs (occurs : Occurs pattern text before after) :
    splitOnce pattern text = some (before, after) := by
  obtain ⟨around, first⟩ := occurs
  cases cut : splitOnce pattern text with
  | none =>
      refine absurd ?_ (splitOnce_eq_none_iff.mp cut)
      exact ⟨before, after, by rw [around, List.append_assoc]⟩
  | some found =>
      obtain ⟨begun, behind⟩ := found
      obtain ⟨whole, least⟩ := occurs_of_splitOnce cut
      have length := Nat.le_antisymm (least _ _ around) (first _ _ whole)
      rw [around] at whole
      obtain ⟨rfl, same⟩ := List.append_inj whole length.symm
      rw [List.append_cancel_left same]

/-- A beginning without the first element of a pattern stays before what is cut. -/
theorem splitOnce_append_of_not_mem {element : α} (plain : element ∉ before) (rest : List α) :
    splitOnce (element :: pattern) (before ++ rest) =
      (splitOnce (element :: pattern) rest).map fun around => (before ++ around.1, around.2) := by
  induction before with
  | nil => rw [List.nil_append]; exact Option.map_id'.symm
  | cons head before ih =>
      obtain ⟨unlike, plain⟩ := not_or.mp (List.mem_cons.not.mp plain)
      rw [List.cons_append, splitOnce_cons_of_elsewhere, ih plain, Option.map_map]
      · rfl
      · rw [List.cons_prefix_cons]
        exact fun starts => unlike starts.1

theorem infix_append_iff_of_not_mem {element : α} (plain : element ∉ before) (rest : List α) :
    element :: pattern <:+: before ++ rest ↔ element :: pattern <:+: rest := by
  rw [← not_iff_not, ← splitOnce_eq_none_iff, ← splitOnce_eq_none_iff,
    splitOnce_append_of_not_mem plain, Option.map_eq_none_iff]

end Parsing
