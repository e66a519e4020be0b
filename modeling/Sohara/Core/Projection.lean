import Sohara.Core.Comparison
import Sohara.Core.Paths
import Sohara.Core.Transforms

/-! # What a projection keeps

A map step reads the listed fields along dotted paths and enters each under its whole path as
one key. A field without a dot is kept; one with a dot is in the record that is made, but not
where its path leads.
-/

namespace Sohara

/-- **The projection law.** The listed fields are as before, and nothing else is there but what
is on the way to them or below them. -/
def ProjectionLaw (fields : List String) (before after : Record) : Prop :=
  (∀ field ∈ fields, after.get field = before.get field) ∧
    ∀ path, path ≠ [] → (getPath after.payload path).isSome = true →
      ∃ field ∈ fields, pathSegments field <+: path ∨ path <+: pathSegments field

/-- Enters a field of a record under its path. -/
def enter (record : Record) (object : Fields) (field : String) : Fields :=
  match record.get field with
  | some value => Assoc.insert field value object
  | none => object

section Projected

variable {fields : List String} {before : Record} {key : String} {path : List String}

/-- The keys of a projected payload are the listed paths that lead somewhere. -/
theorem get?_projected (object : Fields) :
    Assoc.get? key (fields.foldl (enter before) object) =
        (if key ∈ fields then before.get key else none).or (Assoc.get? key object) := by
  induction fields generalizing object with
  | nil => rfl
  | cons field rest ih =>
      rw [List.foldl_cons, ih]
      unfold enter
      by_cases here : key = field
      · subst here
        rw [if_pos List.mem_cons_self]
        cases found : before.get key with
        | none => simp
        | some value =>
            rw [Assoc.get?_insert_self]
            split <;> rfl
      · simp only [List.mem_cons, here, false_or]
        cases before.get field with
        | none => rfl
        | some value =>
            dsimp only
            rw [Assoc.get?_insert_of_ne (Ne.symm here)]

theorem payload_projected : (MapStep.projected fields before).payload =
    .object (fields.foldl (enter before) []) := rfl

theorem getPath_projected : getPath (MapStep.projected fields before).payload (key :: path) =
    (if key ∈ fields then before.get key else none).bind fun child => getPath child path := by
  rw [payload_projected, getPath_cons, get?_projected, Assoc.get?_nil, Option.or_none]

/-- **What is kept of a listed field**: all of it when it has no dot, and nothing otherwise. -/
theorem get_projected (apart : ∀ field ∈ fields, ∀ other ∈ fields,
    pathSegments field <+: pathSegments other → field = other) (listed : key ∈ fields) :
    (MapStep.projected fields before).get key =
      if '.' ∈ key.toList then none else before.get key := by
  unfold Record.get
  by_cases dotted : '.' ∈ key.toList
  · obtain ⟨first, next, more, segments, dotless⟩ := pathSegments_of_mem dotted
    have outside : first ∉ fields := by
      intro inside
      have alone := pathSegments_of_notMem dotless
      have within : pathSegments first <+: pathSegments key := by
        rw [alone, segments]
        exact List.cons_prefix_cons.mpr ⟨rfl, List.nil_prefix⟩
      obtain rfl := apart first inside key listed within
      rw [segments] at alone
      cases alone
    rw [if_pos dotted, segments, getPath_projected, if_neg outside]
    rfl
  · rw [if_neg dotted, pathSegments_of_notMem dotted, getPath_projected, if_pos listed]
    unfold Record.get
    rw [pathSegments_of_notMem dotted]
    exact Option.bind_fun_some _

end Projected

/-- **When a projection preserves the projected fields.** A map step with a list of paths, none
of them on the way to another, keeps the projection law exactly when no listed field of the
record that it has computed is below another. -/
theorem projection_iff (platform : Platform) (application : Application) (step : MapStep)
    {fields : List String} (project : step.project = some fields)
    (apart : ∀ field ∈ fields, ∀ other ∈ fields,
      pathSegments field <+: pathSegments other → field = other)
    {record before : Record}
    (computed : MapStep.compute platform application step.vars 0 step.exprs record = .ok before) :
    ∃ after, step.transform platform application record = .ok (.pass after) ∧
      (ProjectionLaw fields before after ↔
        ∀ field ∈ fields, '.' ∈ field.toList → before.get field = none) := by
  refine ⟨MapStep.projected fields before, ?_, ?_⟩
  · unfold MapStep.transform
    rw [computed, project]
    rfl
  constructor
  · intro law field listed dotted
    rw [← law.1 field listed, get_projected apart listed, if_pos dotted]
  · intro missing
    constructor
    · intro field listed
      rw [get_projected apart listed]
      split
      · next dotted => exact (missing field listed dotted).symm
      · rfl
    · intro path some_ there
      obtain ⟨key, rest, rfl⟩ := List.exists_cons_of_ne_nil some_
      rw [getPath_projected] at there
      by_cases listed : key ∈ fields
      · refine ⟨key, listed, .inl ?_⟩
        rw [if_pos listed] at there
        have dotless : '.' ∉ key.toList := by
          intro dotted
          rw [missing key listed dotted] at there
          cases there
        rw [pathSegments_of_notMem dotless]
        exact List.cons_prefix_cons.mpr ⟨rfl, List.nil_prefix⟩
      · rw [if_neg listed] at there
        cases there

namespace Sample

/-- An application without draws, clock or scripts. -/
def still : Application where
  draws _ := ⟨fun _ => "", fun _ => ""⟩
  id _ := "new"
  timestamp _ := 0
  quickJs :=
    { hash := ⟨fun elements => elements, fun _ => .refl _⟩
      setupContext := .ok ()
      runScript := fun _ => .ok ()
      entry := fun _ _ => .ok .undefined
      noSetter := fun _ => "no setter for property"
      unit := fun _ => .undefined
      emitted := fun _ _ _ => some [] }

/-- Keeps the id and the name of the user. -/
def userName : MapStep := { exprs := [], project := some ["id", "user.name"], vars := [] }

/-- A record with a user. -/
def signup : Record where
  id := "r"
  timestamp := 0
  payload := .object [("id", .string "7"), ("user", .object [("name", .string "Alice")])]
  metadata := []

/-- The name is in the projected record, but not in its user. -/
theorem userName_flattened :
    userName.transform numbers still signup =
        .ok (.pass { signup with
          payload := .object [("id", .string "7"), ("user.name", .string "Alice")] }) ∧
      ¬ ProjectionLaw ["id", "user.name"] signup { signup with
        payload := .object [("id", .string "7"), ("user.name", .string "Alice")] } := by
  refine ⟨rfl, fun law => ?_⟩
  cases law.1 "user.name" (List.mem_cons_of_mem _ List.mem_cons_self)

theorem userName_law_iff : ∃ after,
    userName.transform numbers still signup = .ok (.pass after) ∧
      (ProjectionLaw ["id", "user.name"] signup after ↔
        ∀ field ∈ ["id", "user.name"], '.' ∈ field.toList → signup.get field = none) :=
  projection_iff numbers still userName rfl (by decide) rfl

end Sample

end Sohara
