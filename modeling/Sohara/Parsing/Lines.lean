import Mathlib.Data.List.Basic

/-! # Lines of a text

A text is cut behind every newline; a carriage return before the newline belongs to the
ending. What follows the last newline is a line when it is not empty.
-/

namespace Parsing

/-- A line without the carriage return of its ending. -/
def stripReturn (line : List Char) : List Char :=
  if line.getLast? = some '\r' then line.dropLast else line

/-- The lines of a text, the first of which has begun. -/
def linesFrom (begun : List Char) : List Char → List (List Char)
  | [] => if begun = [] then [] else [begun]
  | char :: rest =>
      if char = '\n' then stripReturn begun :: linesFrom [] rest
      else linesFrom (begun ++ [char]) rest

/-- The lines of a text. -/
def lines (text : List Char) : List (List Char) := linesFrom [] text

/-- A text that can stand on a line. -/
structure OneLine (text : List Char) : Prop where
  unbroken : '\n' ∉ text
  ending : text.getLast? ≠ some '\r'

theorem linesFrom_append {text : List Char} (unbroken : '\n' ∉ text) (begun rest : List Char) :
    linesFrom begun (text ++ '\n' :: rest) = stripReturn (begun ++ text) :: lines rest := by
  induction text generalizing begun with
  | nil =>
      rw [List.append_nil]
      exact if_pos rfl
  | cons char text ih =>
      rw [List.mem_cons, not_or] at unbroken
      rw [List.cons_append, linesFrom, if_neg (Ne.symm unbroken.1), ih unbroken.2,
        List.append_assoc, List.singleton_append]

/-- A text without a newline is one line. -/
theorem linesFrom_of_unbroken {text : List Char} (unbroken : '\n' ∉ text) (begun : List Char)
    (filled : begun ++ text ≠ []) : linesFrom begun text = [begun ++ text] := by
  induction text generalizing begun with
  | nil =>
      rw [List.append_nil] at filled ⊢
      rw [linesFrom, if_neg filled]
  | cons char text ih =>
      rw [List.mem_cons, not_or] at unbroken
      rw [List.append_cons] at filled ⊢
      rw [linesFrom, if_neg (Ne.symm unbroken.1), ih unbroken.2 _ filled]

/-- Texts written one to a line are the lines that are read. -/
theorem lines_flatMap {texts : List (List Char)} (each : ∀ text ∈ texts, OneLine text) :
    lines (texts.flatMap fun text => text ++ ['\n']) = texts := by
  induction texts with
  | nil => rfl
  | cons text rest ih =>
      obtain ⟨unbroken, ending⟩ := each text List.mem_cons_self
      rw [List.flatMap_cons, List.append_assoc, List.singleton_append, lines,
        linesFrom_append unbroken,
        ih fun other member => each other (List.mem_cons_of_mem _ member),
        List.nil_append, stripReturn, if_neg ending]

end Parsing
