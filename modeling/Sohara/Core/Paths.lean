import Mathlib.Data.List.Infix
import Sohara.Core.Value

/-! # Setting and getting fields

A record is read and written along dotted paths. What is written is read back unless the path
runs through a field that is there and is no object: then nothing is written. Fields beside the
path are left alone.
-/

namespace Sohara

/-- Whether a value is an object. -/
def Value.IsObject (value : Value) : Prop := ∃ fields, value = .object fields

/-- No field on the way to the last segment of a path is there without being an object. -/
def Passable (root : Value) (path : List String) : Prop :=
  ∀ before, before <+: path → before ≠ [] → before ≠ path →
    ∀ found, getPath root before = some found → found.IsObject

/-- **The lens laws.** The field that is set has the value; the fields beside the path are as
before, where the payload is an object and the path does not run through anything else. -/
def LensLaw (record : Record) (path : String) (value : Value) : Prop :=
  (record.set path value).get path = some value ∧
    ∀ other, ¬ pathSegments path <+: pathSegments other →
      ¬ pathSegments other <+: pathSegments path → record.payload.IsObject →
        Passable record.payload (pathSegments path) →
          (record.set path value).get other = record.get other

section Segments

theorem splitDots_ne_nil (text : List Char) : splitDots text ≠ [] := by
  induction text with
  | nil => exact List.cons_ne_nil _ _
  | cons char rest ih =>
      unfold splitDots
      split
      · exact List.cons_ne_nil _ _
      · split <;> exact List.cons_ne_nil _ _

/-- Text without a dot is one segment. -/
theorem splitDots_of_notMem {text : List Char} (dotless : '.' ∉ text) :
    splitDots text = [text] := by
  induction text with
  | nil => rfl
  | cons char rest ih =>
      obtain ⟨other, dotless⟩ := not_or.mp (List.mem_cons.not.mp dotless)
      unfold splitDots
      rw [ih dotless]
      exact if_neg (Ne.symm other)

/-- Text with a dot has at least two segments, the first of them without a dot. -/
theorem splitDots_of_mem {text : List Char} (dotted : '.' ∈ text) :
    ∃ first next more, splitDots text = first :: next :: more ∧ '.' ∉ first := by
  induction text with
  | nil => cases dotted
  | cons char rest ih =>
      unfold splitDots
      by_cases here : char = '.'
      · obtain ⟨segment, segments, split⟩ := List.exists_cons_of_ne_nil (splitDots_ne_nil rest)
        rw [split]
        exact ⟨[], segment, segments, if_pos here, List.not_mem_nil⟩
      · have later : '.' ∈ rest :=
          (List.mem_cons.mp dotted).resolve_left fun same => here same.symm
        obtain ⟨first, next, more, split, dotless⟩ := ih later
        rw [split]
        refine ⟨char :: first, next, more, if_neg here, fun member => ?_⟩
        rcases List.mem_cons.mp member with same | inside
        · exact here same.symm
        · exact dotless inside

/-- A path without a dot is its only segment. -/
theorem pathSegments_of_notMem {path : String} (dotless : '.' ∉ path.toList) :
    pathSegments path = [path] := by
  unfold pathSegments
  rw [splitDots_of_notMem dotless, List.map_singleton, String.ofList_toList]

/-- A path with a dot has at least two segments, the first of them without a dot. -/
theorem pathSegments_of_mem {path : String} (dotted : '.' ∈ path.toList) :
    ∃ first next more, pathSegments path = first :: next :: more ∧ '.' ∉ first.toList := by
  obtain ⟨first, next, more, split, dotless⟩ := splitDots_of_mem dotted
  unfold pathSegments
  rw [split]
  refine ⟨_, _, _, rfl, ?_⟩
  rwa [String.toList_ofList]

theorem pathSegments_ne_nil (path : String) : pathSegments path ≠ [] := fun none_ =>
  splitDots_ne_nil _ (List.map_eq_nil_iff.mp none_)

end Segments

section Walking

variable {root value : Value} {fields : Fields} {segment : String} {rest path other : List String}

theorem getPath_cons : getPath (.object fields) (segment :: rest) =
    (Assoc.get? segment fields).bind fun child => getPath child rest := rfl

/-- There is nothing below what is no object. -/
theorem getPath_of_not_object (notObject : ¬ root.IsObject) (below : path ≠ []) :
    getPath root path = none := by
  obtain ⟨segment, rest, rfl⟩ := List.exists_cons_of_ne_nil below
  cases root with
  | object fields => exact absurd ⟨fields, rfl⟩ notObject
  | _ => rfl

/-- There is nothing in an empty object. -/
theorem getPath_empty (below : path ≠ []) : getPath (.object []) path = none := by
  obtain ⟨segment, rest, rfl⟩ := List.exists_cons_of_ne_nil below
  rfl

/-- Nothing is inserted into what is no object. -/
theorem insertAt_of_not_object (notObject : ¬ root.IsObject) : insertAt root value path = root := by
  cases root with
  | object fields => exact absurd ⟨fields, rfl⟩ notObject
  | _ =>
      cases path with
      | nil => rfl
      | cons segment rest => cases rest <;> rfl

theorem insertAt_cons (below : rest ≠ []) : insertAt (.object fields) value (segment :: rest) =
    .object (Assoc.insert segment
      (insertAt ((Assoc.get? segment fields).getD (.object [])) value rest) fields) := by
  obtain ⟨next, more, rfl⟩ := List.exists_cons_of_ne_nil below
  rfl

/-- What is found in an object below an inserted value. -/
theorem getPath_insertAt_cons (below : rest ≠ []) :
    getPath (insertAt (.object fields) value (segment :: rest)) (segment :: path) =
      getPath (insertAt ((Assoc.get? segment fields).getD (.object [])) value rest) path := by
  rw [insertAt_cons below, getPath_cons, Assoc.get?_insert_self]
  rfl

/-- A path is passable when its first field is missing or an object in which the rest is. -/
theorem passable_cons (below : rest ≠ []) : Passable (.object fields) (segment :: rest) ↔
    ∀ child, Assoc.get? segment fields = some child → child.IsObject ∧ Passable child rest := by
  constructor
  · intro passable child present
    have found : ∀ before, getPath (.object fields) (segment :: before) =
        getPath child before := by
      intro before
      rw [getPath_cons, present]
      rfl
    refine ⟨passable [segment] ?_ (List.cons_ne_nil _ _) ?_ child (found []), ?_⟩
    · exact List.cons_prefix_cons.mpr ⟨rfl, List.nil_prefix⟩
    · exact fun same => below (List.cons.inj same).2.symm
    · intro before isPrefix _ proper inner there
      refine passable (segment :: before) (List.cons_prefix_cons.mpr ⟨rfl, isPrefix⟩)
        (List.cons_ne_nil _ _) (fun same => proper (List.cons.inj same).2) inner ?_
      rw [found before]
      exact there
  · intro child before isPrefix some_ proper found there
    obtain ⟨first, more, rfl⟩ := List.exists_cons_of_ne_nil some_
    obtain ⟨rfl, within⟩ := List.cons_prefix_cons.mp isPrefix
    rw [getPath_cons] at there
    obtain ⟨inner, present, there⟩ := Option.bind_eq_some_iff.mp there
    obtain ⟨isObject, passable⟩ := child inner present
    by_cases last : more = []
    · subst last
      cases there
      exact isObject
    · exact passable more within last (fun same => proper (congrArg (first :: ·) same)) found
        there

/-- The way through a root that is no object, or through an empty one, is free. -/
theorem passable_of_not_found (none_ : ∀ path, path ≠ [] → getPath root path = none) :
    Passable root path := by
  intro before _ some_ _ found there
  rw [none_ before some_] at there
  cases there

/-- **What is inserted is found** exactly when the path is passable. -/
theorem getPath_insertAt_iff (below : path ≠ []) :
    getPath (insertAt (.object fields) value path) path = some value ↔
      Passable (.object fields) path := by
  induction path generalizing fields with
  | nil => exact absurd rfl below
  | cons segment rest ih =>
      by_cases last : rest = []
      · subst last
        refine iff_of_true ?_ ?_
        · show getPath (.object (Assoc.insert segment value fields)) [segment] = some value
          rw [getPath_cons, Assoc.get?_insert_self]
          rfl
        · intro before isPrefix some_ proper
          obtain ⟨first, more, rfl⟩ := List.exists_cons_of_ne_nil some_
          obtain ⟨rfl, within⟩ := List.cons_prefix_cons.mp isPrefix
          rw [List.prefix_nil.mp within] at proper
          exact absurd rfl proper
      · rw [getPath_insertAt_cons last, passable_cons last]
        cases present : Assoc.get? segment fields with
        | none =>
            refine iff_of_true ((ih last).mpr ?_) fun child there => nomatch there
            exact passable_of_not_found fun path => getPath_empty
        | some child =>
            rw [Option.getD_some]
            by_cases isObject : child.IsObject
            · obtain ⟨inner, rfl⟩ := isObject
              rw [ih last]
              constructor
              · intro passable child there
                cases there
                exact ⟨⟨inner, rfl⟩, passable⟩
              · exact fun each => (each _ rfl).2
            · rw [insertAt_of_not_object isObject, getPath_of_not_object isObject last]
              exact iff_of_false (fun found => nomatch found) fun each => isObject (each _ rfl).1

/-- **Fields beside a path are left alone.** -/
theorem getPath_insertAt_apart (apart : ¬ path <+: other) (apart' : ¬ other <+: path) :
    getPath (insertAt root value path) other = getPath root other := by
  induction path generalizing root other with
  | nil => exact absurd List.nil_prefix apart
  | cons segment rest ih =>
      by_cases isObject : root.IsObject
      case neg => rw [insertAt_of_not_object isObject]
      obtain ⟨fields, rfl⟩ := isObject
      cases other with
      | nil => exact absurd List.nil_prefix apart'
      | cons next more =>
          rw [List.cons_prefix_cons] at apart apart'
          by_cases same : segment = next
          · subst same
            have below : rest ≠ [] := by
              rintro rfl
              exact apart ⟨rfl, List.nil_prefix⟩
            rw [getPath_insertAt_cons below, ih (fun isPrefix => apart ⟨rfl, isPrefix⟩)
              fun isPrefix => apart' ⟨rfl, isPrefix⟩, getPath_cons]
            cases Assoc.get? segment fields with
            | some child => rfl
            | none =>
                refine getPath_empty ?_
                rintro rfl
                exact apart' ⟨rfl, List.nil_prefix⟩
          · have kept : ∀ child, getPath (.object (Assoc.insert segment child fields))
                (next :: more) = getPath (.object fields) (next :: more) := by
              intro child
              rw [getPath_cons, Assoc.get?_insert_of_ne same, ← getPath_cons]
            by_cases last : rest = []
            · subst last
              exact kept value
            · rw [insertAt_cons last]
              exact kept _

end Walking

/-- **When setting and getting form a lens**: exactly when the path does not run through a field
that is there and is no object. -/
theorem set_get_lens_iff (record : Record) (path : String) (value : Value) :
    LensLaw record path value ↔ Passable record.payload (pathSegments path) := by
  have some_ := pathSegments_ne_nil path
  obtain ⟨id, timestamp, payload, metadata⟩ := record
  by_cases isObject : payload.IsObject
  · obtain ⟨fields, rfl⟩ := isObject
    exact ⟨fun law => (getPath_insertAt_iff some_).mp law.1, fun passable =>
      ⟨(getPath_insertAt_iff some_).mpr passable, fun other apart apart' _ _ =>
        getPath_insertAt_apart apart apart'⟩⟩
  · refine iff_of_true ⟨?_, fun _ _ _ object => absurd object isObject⟩ ?_
    · have replaced : setPath payload path value =
          insertAt (.object []) value (pathSegments path) := by
        cases payload with
        | object fields => exact absurd ⟨fields, rfl⟩ isObject
        | _ => rfl
      show getPath (setPath payload path value) (pathSegments path) = some value
      rw [replaced]
      exact (getPath_insertAt_iff some_).mpr (passable_of_not_found fun path => getPath_empty)
    · exact passable_of_not_found fun path => getPath_of_not_object isObject

/-- A field below a number is not set. -/
theorem set_below_number :
    (Record.set ⟨"r", 0, .object [("user", .number (.posInt 7))], []⟩ "user.name"
        (.string "Alice")).payload = .object [("user", .number (.posInt 7))] ∧
      ¬ LensLaw ⟨"r", 0, .object [("user", .number (.posInt 7))], []⟩ "user.name"
        (.string "Alice") := by
  refine ⟨rfl, fun law => ?_⟩
  cases law.1

end Sohara
