import Mathlib.Data.List.DropRight

/-! # Segments of a path

A path is compared by what stands between its separators once those at both ends are gone.
What is left of nothing but separators has no segments, and so it is a beginning of every
path. If a path goes on behind another with a separator, it has the segments of the other
first. Names that are joined by a separator do not tell apart what was joined, unless the
names before it have none.
-/

namespace Parsing

variable {α : Type} [DecidableEq α] {separator : α} {path other rest : List α}

/-- A path without the separators that it starts with. -/
def trimStart (separator : α) (path : List α) : List α :=
  path.dropWhile fun element => element = separator

/-- A path without the separators that it ends with. -/
def trimEnd (separator : α) (path : List α) : List α :=
  path.rdropWhile fun element => element = separator

/-- The segments of a path, but for separators at its ends. -/
def segments (separator : α) (path : List α) : List (List α) :=
  if trimEnd separator (trimStart separator path) = [] then []
  else (trimEnd separator (trimStart separator path)).splitOn separator

/-- What is trimmed does not start with a separator. -/
theorem head?_trimStart_ne (separator : α) (path : List α) :
    (trimStart separator path).head? ≠ some separator := by
  intro starts
  have unlike := List.head?_dropWhile_not (fun element => decide (element = separator)) path
  unfold trimStart at starts
  rw [starts] at unlike
  exact absurd rfl (of_decide_eq_false unlike)

theorem trimEnd_append_of_eq_nil (gone : trimEnd separator rest = []) (path : List α) :
    trimEnd separator (path ++ rest) = trimEnd separator path := by
  unfold trimEnd List.rdropWhile at gone ⊢
  rw [List.reverse_append, List.dropWhile_append, List.reverse_eq_nil_iff.mp gone]
  rfl

theorem trimEnd_append_of_ne_nil (stays : trimEnd separator rest ≠ []) (path : List α) :
    trimEnd separator (path ++ rest) = path ++ trimEnd separator rest := by
  unfold trimEnd List.rdropWhile at stays ⊢
  rw [Ne, List.reverse_eq_nil_iff, ← List.isEmpty_iff] at stays
  rw [List.reverse_append, List.dropWhile_append, if_neg stays, List.reverse_append,
    List.reverse_reverse]

theorem trimEnd_trimEnd (path : List α) :
    trimEnd separator (trimEnd separator path) = trimEnd separator path :=
  List.rdropWhile_idempotent _ _

/-- A path is what is left of it and the separators that it ends with. -/
theorem exists_trimEnd_append (separator : α) (path : List α) :
    ∃ gone, path = trimEnd separator path ++ gone ∧ ∀ element ∈ gone, element = separator := by
  refine ⟨_, List.rdropWhile_append_rtakeWhile.symm, fun element member => ?_⟩
  have all := List.mem_rtakeWhile_imp member
  exact of_decide_eq_true all

/-- A path that does not start with a separator is not trimmed away. -/
theorem trimEnd_ne_nil {first : α} (unlike : first ≠ separator) (rest : List α) :
    trimEnd separator (first :: rest) ≠ [] := by
  intro trimmed
  have all := List.rdropWhile_eq_nil_iff.mp trimmed first List.mem_cons_self
  exact unlike (of_decide_eq_true all)

/-- Behind a path, a separator and a rest add segments, if they add anything. -/
theorem splitOn_trimEnd_prefix (path rest : List α) :
    (trimEnd separator path).splitOn separator <+:
      (trimEnd separator (path ++ separator :: rest)).splitOn separator := by
  obtain ⟨gone, whole, separators⟩ := exists_trimEnd_append separator path
  obtain ⟨more, tail⟩ : ∃ more, gone ++ separator :: rest = separator :: more := by
    cases gone with
    | nil => exact ⟨rest, rfl⟩
    | cons first gone =>
        rw [separators first List.mem_cons_self]
        exact ⟨_, rfl⟩
  have joined : path ++ separator :: rest = trimEnd separator path ++ separator :: more := by
    rw [← tail, ← List.append_assoc, ← whole]
  rw [joined]
  by_cases trimmed : trimEnd separator (separator :: more) = []
  · have same := (trimEnd_append_of_eq_nil trimmed _).trans (trimEnd_trimEnd path)
    exact ⟨[], by rw [List.append_nil, same]⟩
  · rw [trimEnd_append_of_ne_nil trimmed]
    obtain ⟨behind, kept⟩ := List.rdropWhile_prefix (fun element => decide (element = separator))
      (separator :: more)
    have kept : trimEnd separator (separator :: more) ++ behind = separator :: more := kept
    cases stays : trimEnd separator (separator :: more) with
    | nil => exact absurd stays trimmed
    | cons first others =>
        rw [stays] at kept
        cases kept
        rw [List.splitOn_append_cons_self]
        exact List.prefix_append _ _

/-- Equal paths but for the separators at their start have the same segments. -/
theorem segments_congr (same : trimStart separator path = trimStart separator other) :
    segments separator path = segments separator other := by
  unfold segments
  rw [same]

/-- **A path that goes on** behind another with a separator has the segments of the other
first. -/
theorem segments_prefix
    (goes_on : trimStart separator other ++ [separator] <+: trimStart separator path) :
    segments separator other <+: segments separator path := by
  obtain ⟨rest, whole⟩ := goes_on
  have unlike := head?_trimStart_ne separator path
  unfold segments
  rw [List.append_assoc, List.singleton_append] at whole
  cases begun : trimStart separator other with
  | nil =>
      rw [begun] at whole
      rw [← whole] at unlike
      exact absurd rfl unlike
  | cons first more =>
      rw [begun] at whole
      rw [← whole] at unlike ⊢
      have named : first ≠ separator := fun same => unlike (congrArg some same)
      rw [if_neg (trimEnd_ne_nil named more), List.cons_append, if_neg (trimEnd_ne_nil named _)]
      exact splitOn_trimEnd_prefix (first :: more) rest

omit [DecidableEq α] in
/-- A word without the separator ends before the separator that follows it elsewhere. -/
theorem exists_behind {word rest more tail : List α} (plain : separator ∉ word)
    (same : word ++ rest = more ++ separator :: tail) :
    ∃ behind, more = word ++ behind ∧ rest = behind ++ separator :: tail := by
  rcases List.append_eq_append_iff.mp same with ⟨behind, longer, ends⟩ | ⟨inside, begins, ends⟩
  · exact ⟨behind, longer, ends⟩
  · cases inside with
    | nil =>
        rw [List.append_nil] at begins
        exact ⟨[], by rw [List.append_nil, begins], ends.symm⟩
    | cons first inside =>
        cases ends
        rw [begins] at plain
        exact absurd (List.mem_append_right _ List.mem_cons_self) plain

omit [DecidableEq α] in
/-- **Joined names.** Two names are each followed by a separator and a word without one. If
what comes of them is the same, then so are the names and what follows them, or one name is
the other with its word and a beginning of what follows. -/
theorem append_separator_cases {name name' word word' rest rest' : List α}
    (plain : separator ∉ word) (plain' : separator ∉ word')
    (same : name ++ separator :: (word ++ rest) = name' ++ separator :: (word' ++ rest')) :
    name = name' ∧ word ++ rest = word' ++ rest' ∨
      (∃ behind, name' = name ++ separator :: (word ++ behind) ∧
        rest = behind ++ separator :: (word' ++ rest')) ∨
      ∃ behind, name = name' ++ separator :: (word' ++ behind) ∧
        rest' = behind ++ separator :: (word ++ rest) := by
  rcases List.append_eq_append_iff.mp same with ⟨more, longer, equal⟩ | ⟨more, longer, equal⟩
  · cases more with
    | nil => exact .inl ⟨by rw [longer, List.append_nil], (List.cons.inj equal).2⟩
    | cons first more =>
        obtain ⟨rfl, follows⟩ := List.cons.inj equal
        obtain ⟨behind, rfl, ends⟩ := exists_behind plain follows
        exact .inr (.inl ⟨behind, longer, ends⟩)
  · cases more with
    | nil => exact .inl ⟨by rw [longer, List.append_nil], (List.cons.inj equal).2.symm⟩
    | cons first more =>
        obtain ⟨rfl, follows⟩ := List.cons.inj equal
        obtain ⟨behind, rfl, ends⟩ := exists_behind plain' follows
        exact .inr (.inr ⟨behind, longer, ends⟩)

end Parsing
