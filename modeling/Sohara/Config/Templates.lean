import Sohara.Config.Flow
import Sohara.Core.Equality
import Sohara.Core.Except

/-! # Templates

A step that uses a template takes over the fields it does not declare. Configs merge by
path: `MergedDeep` is what merging owes a step that overrides parts of nested objects, at
any depth; the merge of the code goes one object below each key.
-/

namespace Sohara

section Law

/-- The value at a path below a value, if there is one. -/
def valueAt (root : Option Value) (path : List String) : Option Value :=
  root.bind fun value => getPath value path

/-- A value that is no object stands on the way to the path. -/
def Replaced (own : Option Value) (path : List String) : Prop :=
  ∃ outer inner value, path = outer ++ inner ∧ inner ≠ [] ∧
    valueAt own outer = some value ∧ value.asObject? = none

/-- Every path of the base is a path of the value, unless the value replaces it. -/
def Spans (own base : Option Value) : Prop :=
  ∀ path value, valueAt base path = some value → ¬Replaced own path → (valueAt own path).isSome

/-- A value over a base, at every path: the value's own leaf or object, or else what the
base has there, if the value does not replace an object on the way. -/
structure MergedDeep (own base merged : Option Value) : Prop where
  leaf : ∀ path value, valueAt own path = some value → value.asObject? = none →
    valueAt merged path = some value
  object : ∀ path fields, valueAt own path = some (.object fields) →
    ∃ merging, valueAt merged path = some (.object merging)
  inherited : ∀ path value, valueAt own path = none → valueAt base path = some value →
    ¬Replaced own path → valueAt merged path = some value
  only : ∀ path value, valueAt merged path = some value →
    (valueAt own path).isSome ∨ (valueAt base path).isSome ∧ ¬Replaced own path

variable {own base merged : Option Value} {path : List String}

theorem valueAt_nil (root : Option Value) : valueAt root [] = root := by
  cases root <;> rfl

theorem valueAt_leaf {value : Value} (noObject : value.asObject? = none) (key : String)
    (path : List String) : valueAt (some value) (key :: path) = none := by
  cases value <;> first | rfl | cases noObject

theorem not_replaced_none : ¬Replaced none path := by
  rintro ⟨outer, inner, value, -, -, present, -⟩
  cases present

theorem not_replaced_nil : ¬Replaced own [] := by
  rintro ⟨outer, inner, value, split, some, -⟩
  exact some (List.append_eq_nil_iff.mp split.symm).2

theorem replaced_leaf {value : Value} (noObject : value.asObject? = none) (key : String)
    (path : List String) : Replaced (some value) (key :: path) :=
  ⟨[], key :: path, value, rfl, List.cons_ne_nil _ _, valueAt_nil _, noObject⟩

theorem replaced_object {fields : Fields} {key : String} :
    Replaced (some (.object fields)) (key :: path) ↔ Replaced (Assoc.get? key fields) path := by
  constructor
  · rintro ⟨outer, inner, value, split, some, present, noObject⟩
    cases outer with
    | nil =>
        rw [valueAt_nil] at present
        cases present
        cases noObject
    | cons first outer =>
        cases split
        exact ⟨outer, inner, value, rfl, some, present, noObject⟩
  · rintro ⟨outer, inner, value, rfl, some, present, noObject⟩
    exact ⟨key :: outer, inner, value, rfl, some, present, noObject⟩

/-- What the value does not declare comes from the base. -/
theorem mergedDeep_none (base : Option Value) : MergedDeep none base base where
  leaf _ _ present := nomatch present
  object _ _ present := nomatch present
  inherited _ _ _ present _ := present
  only path value present := .inr ⟨by rw [present]; rfl, not_replaced_none⟩

/-- A value replaces the base rightly when it spans it. -/
theorem mergedDeep_self_iff : MergedDeep own base own ↔ Spans own base := by
  constructor
  · intro deep path value present kept
    cases absent : valueAt own path with
    | some _ => rfl
    | none =>
        rw [deep.inherited path value absent present kept] at absent
        cases absent
  · intro spans
    refine ⟨fun _ _ present _ => present, fun _ fields present => ⟨fields, present⟩, ?_,
      fun _ _ present => .inl (by rw [present]; rfl)⟩
    intro path value absent present kept
    have inside := spans path value present kept
    rw [absent] at inside
    cases inside

/-- Objects merge deeply when each of their fields does. -/
theorem mergedDeep_object_iff {fields existing merging : Fields} :
    MergedDeep (some (.object fields)) (some (.object existing)) (some (.object merging)) ↔
      ∀ key, MergedDeep (Assoc.get? key fields) (Assoc.get? key existing)
        (Assoc.get? key merging) := by
  constructor
  · intro deep key
    refine ⟨fun path => deep.leaf (key :: path), fun path => deep.object (key :: path), ?_, ?_⟩
    · intro path value absent present kept
      exact deep.inherited (key :: path) value absent present (mt replaced_object.mp kept)
    · intro path value present
      exact (deep.only (key :: path) value present).imp_right
        (And.imp_right (mt replaced_object.mpr))
  · intro each
    refine ⟨?_, ?_, ?_, ?_⟩
    · rintro (_ | ⟨key, path⟩) value present noObject
      · cases present
        cases noObject
      · exact (each key).leaf path value present noObject
    · rintro (_ | ⟨key, path⟩) inner present
      · exact ⟨merging, rfl⟩
      · exact (each key).object path inner present
    · rintro (_ | ⟨key, path⟩) value absent present kept
      · cases absent
      · exact (each key).inherited path value absent present (mt replaced_object.mpr kept)
    · rintro (_ | ⟨key, path⟩) value present
      · exact .inl rfl
      · exact ((each key).only path value present).imp_right
          (And.imp_right (mt replaced_object.mp))

theorem spans_none : Spans own none := fun _ _ present => nomatch present

theorem spans_leaf {value : Value} (noObject : value.asObject? = none) (base : Option Value) :
    Spans (some value) base := by
  intro path base present kept
  cases path with
  | nil => rfl
  | cons key path => exact absurd (replaced_leaf noObject key path) kept

theorem spans_of_leaf {value : Value} (noObject : value.asObject? = none) (own : Value) :
    Spans (some own) (some value) := by
  intro path base present _
  cases path with
  | nil => rfl
  | cons key path =>
      rw [valueAt_leaf noObject] at present
      cases present

end Law

/-- Merges one extra field of a step; an object goes field by field over an object. -/
def mergeExtra (merged : Fields) (key : String) (value : Value) : Fields :=
  match merged.get? key, value with
  | some (.object existing), .object overrides =>
      merged.insert key (.object
        (overrides.foldl (fun fields entry => Assoc.insert entry.1 entry.2 fields) existing))
  | _, value => merged.insert key value

/-- Merges the extra fields of a template into those of a step. -/
def mergeExtras (step template : Fields) : Fields :=
  step.foldl (fun merged entry => mergeExtra merged entry.1 entry.2) template

/-- Merges a template into a step. -/
def mergeTemplate (step template : StepConfig) : Except ConfigError StepConfig :=
  if step.kind.isSome ∧ template.kind.isSome ∧ step.kind ≠ template.kind then
    .error (.invalid ("step '" ++ step.id ++ "': kind conflicts with template"))
  else
    .ok { step with
      kind := step.kind.or template.kind
      stepType := step.stepType.or template.stepType
      when_ := step.when_.or template.when_
      onError := step.onError.or template.onError
      retry := step.retry.or template.retry
      state := step.state.or template.state
      extra := mergeExtras step.extra template.extra }

/-- Merges its template into a step that uses one. -/
def applyTemplate (templates : BTreeMap StepConfig) (step : StepConfig) :
    Except ConfigError StepConfig :=
  match step.useTemplate with
  | none => .ok step
  | some name =>
      match templates[name]? with
      | none => .error (.invalid ("step '" ++ step.id ++ "': unknown template '" ++ name ++ "'"))
      | some template => do
          let merged ← mergeTemplate step template
          return { merged with useTemplate := none }

/-- Applies the templates of a flow to its steps. -/
def applyTemplates (templates : BTreeMap StepConfig) (steps : List StepConfig) :
    Except ConfigError (List StepConfig) :=
  steps.mapM (applyTemplate templates)

section Extras

variable {step template : Fields} {key : String}

/-- The value of one key in the merge. -/
def mergedValue : Option Value → Option Value → Option Value
  | some (.object overrides), some (.object existing) =>
      some (.object (overrides.foldl (fun fields entry => Assoc.insert entry.1 entry.2 fields)
        existing))
  | some value, _ => some value
  | none, base => base

theorem get?_mergeExtra (merged : Fields) (key other : String) (value : Value) :
    Assoc.get? other (mergeExtra merged key value) =
      if key = other then mergedValue (some value) (Assoc.get? key merged)
      else Assoc.get? other merged := by
  unfold mergeExtra
  cases found : Assoc.get? key merged with
  | none => cases value <;> simp only [mergedValue, Assoc.get?_insert]
  | some base =>
      cases base <;> cases value <;> simp only [mergedValue, Assoc.get?_insert]

theorem get?_mergeExtras (distinct : (step.map Prod.fst).Nodup) (template : Fields)
    (key : String) : Assoc.get? key (mergeExtras step template) =
      mergedValue (Assoc.get? key step) (Assoc.get? key template) := by
  unfold mergeExtras
  induction step generalizing template with
  | nil => rfl
  | cons entry rest ih =>
      obtain ⟨name, value⟩ := entry
      rw [List.map_cons, List.nodup_cons] at distinct
      rw [List.foldl_cons, ih distinct.2, Assoc.get?_cons, get?_mergeExtra]
      by_cases same : name = key
      · subst same
        rw [if_pos rfl, if_pos rfl, Assoc.get?_eq_none distinct.1]
        rfl
      · rw [if_neg same, if_neg same]

/-- Unless both are objects, the step's value replaces the template's. -/
theorem mergedValue_of_apart {own : Value} {base : Option Value}
    (apart : ∀ overrides existing, own = .object overrides → base ≠ some (.object existing)) :
    mergedValue (some own) base = some own := by
  cases own with
  | object overrides =>
      rcases base with _ | base
      · rfl
      · cases base with
        | object existing => exact absurd rfl (apart overrides existing rfl)
        | _ => rfl
  | _ => rfl

/-- Unless both are objects, a value spans the other. -/
theorem spans_of_apart {own : Value} {base : Option Value}
    (apart : ∀ overrides existing, own = .object overrides → base ≠ some (.object existing)) :
    Spans (some own) base := by
  cases own with
  | object overrides =>
      rcases base with _ | base
      · exact spans_none
      · refine spans_of_leaf ?_ _
        cases base with
        | object existing => exact absurd rfl (apart overrides existing rfl)
        | _ => rfl
  | _ => exact spans_leaf rfl base

/-- Objects merge deeply when each field of the step spans that of the template. -/
theorem mergedDeep_overrides_iff {overrides existing : Fields}
    (distinct : (overrides.map Prod.fst).Nodup) :
    MergedDeep (some (.object overrides)) (some (.object existing))
        (mergedValue (some (.object overrides)) (some (.object existing))) ↔
      ∀ field value other, Assoc.get? field overrides = some value →
        Assoc.get? field existing = some other → Spans (some value) (some other) := by
  rw [mergedValue, mergedDeep_object_iff]
  refine forall_congr' fun field => ?_
  rw [Assoc.get?_foldl_insert distinct]
  cases Assoc.get? field overrides with
  | none => exact ⟨fun _ _ _ declared => (nomatch declared), fun _ => mergedDeep_none _⟩
  | some value =>
      rw [Option.some_or, mergedDeep_self_iff]
      constructor
      · intro spans _ _ declared found
        cases declared
        rwa [found] at spans
      · intro spans
        cases found : Assoc.get? field existing with
        | none => exact spans_none
        | some other => exact spans value other rfl found

/-- One key merges deeply, except that a field below it that both sides hold is taken
from the step as it is. -/
theorem mergedDeep_mergedValue_iff {own base : Option Value}
    (formed : ∀ fields, own = some (.object fields) → (fields.map Prod.fst).Nodup) :
    MergedDeep own base (mergedValue own base) ↔
      ∀ overrides existing, own = some (.object overrides) → base = some (.object existing) →
        ∀ field value other, Assoc.get? field overrides = some value →
          Assoc.get? field existing = some other → Spans (some value) (some other) := by
  rcases own with _ | own
  · exact ⟨fun _ _ _ declared => (nomatch declared), fun _ => mergedDeep_none base⟩
  · by_cases both : ∃ overrides existing, own = .object overrides ∧ base = some (.object existing)
    · obtain ⟨overrides, existing, rfl, rfl⟩ := both
      rw [mergedDeep_overrides_iff (formed overrides rfl)]
      refine ⟨fun each _ _ left right => ?_, fun each => each overrides existing rfl rfl⟩
      cases left
      cases right
      exact each
    · have apart : ∀ overrides existing, own = .object overrides →
          base ≠ some (.object existing) :=
        fun overrides existing left right => both ⟨overrides, existing, left, right⟩
      rw [mergedValue_of_apart apart, mergedDeep_self_iff]
      refine ⟨fun _ overrides existing left right => ?_, fun _ => spans_of_apart apart⟩
      cases left
      exact absurd right (apart overrides existing rfl)

/-- The extra fields of a step and of its template merge deeply. -/
theorem mergedDeep_mergeExtras_iff (formed : (Value.object step).Formed) :
    MergedDeep (some (.object step)) (some (.object template))
        (some (.object (mergeExtras step template))) ↔
      ∀ key overrides existing, Assoc.get? key step = some (.object overrides) →
        Assoc.get? key template = some (.object existing) →
        ∀ field value other, Assoc.get? field overrides = some value →
          Assoc.get? field existing = some other → Spans (some value) (some other) := by
  rw [mergedDeep_object_iff]
  refine forall_congr' fun key => ?_
  rw [get?_mergeExtras formed.1, mergedDeep_mergedValue_iff]
  intro fields present
  have inside := Value.formedFields_iff.mp formed.2 _ (Assoc.mem_of_get? present)
  exact inside.1

end Extras

/-! ## The step wins -/

section Steps

/-- The fields a step declares override those of its template. -/
structure StepWins (step template merged : StepConfig) : Prop where
  kind : merged.kind = step.kind.or template.kind
  stepType : merged.stepType = step.stepType.or template.stepType
  name : merged.name = step.name.or template.name
  description : merged.description = step.description.or template.description
  when_ : merged.when_ = step.when_.or template.when_
  onError : merged.onError = step.onError.or template.onError
  retry : merged.retry = step.retry.or template.retry
  state : merged.state = step.state.or template.state
  config : MergedDeep (some (.object step.extra)) (some (.object template.extra))
    (some (.object merged.extra))

/-- A template that the merge treats as it should: it brings no name or description to a step
without one, and two levels below the top the step spans it. -/
structure Inheritable (step template : StepConfig) : Prop where
  name : step.name = none → template.name = none
  description : step.description = none → template.description = none
  config : ∀ key overrides existing, Assoc.get? key step.extra = some (.object overrides) →
    Assoc.get? key template.extra = some (.object existing) →
    ∀ field value other, Assoc.get? field overrides = some value →
      Assoc.get? field existing = some other → Spans (some value) (some other)

variable {templates : BTreeMap StepConfig} {steps merged : List StepConfig}
variable {step template result : StepConfig}

theorem mergeTemplate_eq_ok (ran : mergeTemplate step template = .ok result) :
    result = { step with
      kind := step.kind.or template.kind
      stepType := step.stepType.or template.stepType
      when_ := step.when_.or template.when_
      onError := step.onError.or template.onError
      retry := step.retry.or template.retry
      state := step.state.or template.state
      extra := mergeExtras step.extra template.extra } := by
  unfold mergeTemplate at ran
  split at ran
  case isTrue => cases ran
  case isFalse => exact (Except.ok.inj ran).symm

theorem applyTemplate_eq_ok {name : String} (uses : step.useTemplate = some name)
    (ran : applyTemplate templates step = .ok result) :
    ∃ template merged, templates[name]? = some template ∧
      mergeTemplate step template = .ok merged ∧ result = { merged with useTemplate := none } := by
  simp only [applyTemplate, uses] at ran
  cases declared : templates[name]? with
  | none =>
      simp only [declared] at ran
      cases ran
  | some template =>
      simp only [declared] at ran
      obtain ⟨merged, merging, rfl⟩ := Except.map_eq_ok.mp ran
      exact ⟨template, merged, rfl, merging, rfl⟩

theorem getElem?_applyTemplates {index : Nat}
    (applied : applyTemplates templates steps = .ok merged) (here : steps[index]? = some step) :
    ∃ result, merged[index]? = some result ∧ applyTemplate templates step = .ok result := by
  unfold applyTemplates at applied
  induction steps generalizing merged index with
  | nil => cases here
  | cons first rest ih =>
      rw [List.mapM_cons] at applied
      obtain ⟨head, applies, applied⟩ := Except.bind_eq_ok.mp applied
      obtain ⟨tail, others, rfl⟩ := Except.map_eq_ok.mp applied
      cases index with
      | zero =>
          cases here
          exact ⟨head, rfl, applies⟩
      | succ index =>
          obtain ⟨result, stands, applied⟩ := ih others here
          exact ⟨result, stands, applied⟩

/-- The step wins over its template, at every depth, when the template is inheritable. -/
theorem stepWins_iff {name : String} {index : Nat} (formed : (Value.object step.extra).Formed)
    (applied : applyTemplates templates steps = .ok merged) (here : steps[index]? = some step)
    (uses : step.useTemplate = some name) (declared : templates[name]? = some template) :
    ∃ result, merged[index]? = some result ∧
      (StepWins step template result ↔ Inheritable step template) := by
  obtain ⟨result, stands, applies⟩ := getElem?_applyTemplates applied here
  obtain ⟨other, merging, found, ran, rfl⟩ := applyTemplate_eq_ok uses applies
  rw [declared] at found
  cases found
  cases mergeTemplate_eq_ok ran
  refine ⟨_, stands, fun wins => ⟨?_, ?_, (mergedDeep_mergeExtras_iff formed).mp wins.config⟩,
    fun inherits => ⟨rfl, rfl, ?_, ?_, rfl, rfl, rfl, rfl,
      (mergedDeep_mergeExtras_iff formed).mpr inherits.config⟩⟩
  · intro unnamed
    have taken := wins.name
    rw [unnamed] at taken
    exact taken.symm
  · intro undescribed
    have taken := wins.description
    rw [undescribed] at taken
    exact taken.symm
  · change step.name = step.name.or template.name
    cases own : step.name with
    | none => rw [inherits.name own, Option.or_none]
    | some name => rfl
  · change step.description = step.description.or template.description
    cases own : step.description with
    | none => rw [inherits.description own, Option.or_none]
    | some text => rfl

end Steps

/-! ## Spellings of a config -/

section Spellings

/-- The fields a step declares itself; the others belong to its type config. -/
def stepFields : List String :=
  ["id", "kind", "type", "name", "description", "config", "use", "when", "timeout", "on_error",
    "retry", "state", "inputs"]

/-- How a step writes its type config. -/
inductive Spelling where
  | nested
  | flat
  deriving DecidableEq, Repr

/-- The extra fields of a step that writes a config so. -/
def Spelling.extra (config : Fields) : Spelling → Fields
  | .nested => [("config", .object config)]
  | .flat => config

/-- The config of a step, written in its spelling, over that of its template. -/
def effectiveConfig (step template : StepConfig) (own base : Fields) (mine theirs : Spelling) :
    Except ConfigError Fields := do
  let merged ← mergeTemplate { step with extra := mine.extra own }
    { template with extra := theirs.extra base }
  merged.config

/-- Two loads that succeed with equal configs. -/
def SameConfig (one other : Except ConfigError Fields) : Prop :=
  ∃ left right, one = .ok left ∧ other = .ok right ∧
    (Value.object left).beq (.object right) = true

/-- When two spellings make the config that both nested make: mixed ones only where the flat
side is empty, both flat ones where no object of the template keeps a field. -/
def Interchangeable (own base : Fields) : Spelling → Spelling → Prop
  | .nested, .nested => True
  | .flat, .nested => own = []
  | .nested, .flat => base = []
  | .flat, .flat => ∀ key overrides existing, Assoc.get? key own = some (.object overrides) →
      Assoc.get? key base = some (.object existing) →
      ∀ field, Assoc.get? field overrides = none → Assoc.get? field existing = none

variable {step template : StepConfig} {own base : Fields}

theorem mergeExtra_of_absent {merged : Fields} {key : String} (value : Value)
    (absent : key ∉ merged.map Prod.fst) :
    mergeExtra merged key value = merged ++ [(key, value)] := by
  unfold mergeExtra
  rw [Assoc.get?_eq_none absent]
  exact Assoc.insert_of_absent value absent

/-- Extra fields under other keys are appended to those of the template. -/
theorem mergeExtras_of_disjoint {step template : Fields} (distinct : (step.map Prod.fst).Nodup)
    (disjoint : ∀ key ∈ step.map Prod.fst, key ∉ template.map Prod.fst) :
    mergeExtras step template = template ++ step := by
  unfold mergeExtras
  induction step generalizing template with
  | nil => exact (List.append_nil _).symm
  | cons entry rest ih =>
      obtain ⟨fresh, distinct⟩ := List.nodup_cons.mp distinct
      rw [List.foldl_cons, mergeExtra_of_absent _ (disjoint entry.1 List.mem_cons_self),
        ih distinct ?_, List.append_assoc, List.singleton_append]
      intro key member inside
      rw [List.map_append, List.mem_append] at inside
      rcases inside with before | last
      · exact disjoint key (List.mem_cons_of_mem _ member) before
      · rw [List.map_singleton, List.mem_singleton] at last
        exact fresh (last ▸ member)

theorem length_swapRemove {key : String} {entries : Fields} (present : key ∈ entries.map Prod.fst) :
    (Assoc.swapRemove key entries).length = entries.length - 1 := by
  obtain ⟨entry, member, named⟩ := List.mem_map.mp present
  unfold Assoc.swapRemove
  cases place : entries.findIdx? fun entry => entry.1 = key with
  | none =>
      have missed := List.findIdx?_eq_none_iff.mp place entry member
      rw [decide_eq_false_iff_not] at missed
      exact absurd named missed
  | some index =>
      cases last : entries.getLast? with
      | none =>
          rw [List.getLast?_eq_none_iff.mp last] at member
          cases member
      | some entry => simp

/-- Beside a nested config nothing else is accepted. -/
theorem config_nested_eq_ok {config : Fields} {result : Fields}
    (nested : Assoc.get? "config" step.extra = some (.object config)) :
    step.config = .ok result ↔ step.extra.length = 1 ∧ result = config := by
  have present : "config" ∈ step.extra.map Prod.fst := Assoc.mem_keys_iff.mpr ⟨_, nested⟩
  have some := List.length_pos_of_mem (List.mem_map.mp present).choose_spec.1
  have sizes := length_swapRemove present
  unfold StepConfig.config
  simp only [nested]
  cases remaining : step.extra.swapRemove "config" with
  | nil =>
      rw [remaining, List.length_nil] at sizes
      have single : step.extra.length = 1 := by omega
      simp only [Except.ok.injEq, single, true_and]
      exact eq_comm
  | cons entry rest =>
      rw [remaining, List.length_cons] at sizes
      refine ⟨fun failed => (nomatch failed), fun ⟨single, _⟩ => ?_⟩
      omega

/-- Without a nested config, fields that are not reserved are the config. -/
theorem config_flat (flat : "config" ∉ step.extra.map Prod.fst)
    (plain : ∀ key ∈ step.extra.map Prod.fst, key ∉ reservedFields) :
    step.config = .ok step.extra := by
  unfold StepConfig.config
  rw [Assoc.get?_eq_none flat]
  have unreserved : (step.extra.find? fun entry => entry.1 ∈ reservedFields) = none := by
    refine List.find?_eq_none.mpr fun entry member => ?_
    rw [decide_eq_true_eq]
    exact plain entry.1 (List.mem_map.mpr ⟨entry, member, rfl⟩)
  simp only [unreserved]

/-- Merged extra fields of a step, as its config. -/
theorem exists_effectiveConfig (mine theirs : Spelling)
    (compatible : step.kind = none ∨ template.kind = none ∨ step.kind = template.kind) :
    ∃ merged : StepConfig, merged.extra = mergeExtras (mine.extra own) (theirs.extra base) ∧
      effectiveConfig step template own base mine theirs = merged.config := by
  have agree : ¬(step.kind.isSome ∧ template.kind.isSome ∧ step.kind ≠ template.kind) := by
    rintro ⟨declared, inherited, conflict⟩
    rcases compatible with none | none | same
    · rw [none] at declared
      cases declared
    · rw [none] at inherited
      cases inherited
    · exact conflict same
  unfold effectiveConfig mergeTemplate
  rw [if_neg agree]
  exact ⟨_, rfl, rfl⟩

theorem nodup_mergeExtra {merged : Fields} (distinct : (merged.map Prod.fst).Nodup) (key : String)
    (value : Value) : ((mergeExtra merged key value).map Prod.fst).Nodup := by
  unfold mergeExtra
  split <;> exact Assoc.nodup_insert distinct

theorem nodup_mergeExtras {step template : Fields} (distinct : (template.map Prod.fst).Nodup) :
    ((mergeExtras step template).map Prod.fst).Nodup := by
  unfold mergeExtras
  induction step generalizing template with
  | nil => exact distinct
  | cons entry rest ih => exact ih (nodup_mergeExtra distinct entry.1 entry.2)

theorem mem_keys_mergeExtras {step template : Fields} (distinct : (step.map Prod.fst).Nodup)
    {key : String} (member : key ∈ (mergeExtras step template).map Prod.fst) :
    key ∈ step.map Prod.fst ∨ key ∈ template.map Prod.fst := by
  obtain ⟨value, found⟩ := Assoc.mem_keys_iff.mp member
  rw [get?_mergeExtras distinct] at found
  cases own : Assoc.get? key step with
  | some value => exact .inl (Assoc.mem_keys_iff.mpr ⟨value, own⟩)
  | none =>
      rw [own, mergedValue] at found
      exact .inr (Assoc.mem_keys_iff.mpr ⟨value, found⟩)

variable (compatible : step.kind = none ∨ template.kind = none ∨ step.kind = template.kind)
variable (distinct : (own.map Prod.fst).Nodup)
variable (plain : ∀ key ∈ own.map Prod.fst, key ∉ stepFields)
variable (plainBase : ∀ key ∈ base.map Prod.fst, key ∉ stepFields)

include compatible in
theorem effectiveConfig_nested : effectiveConfig step template own base .nested .nested =
    .ok (own.foldl (fun fields entry => Assoc.insert entry.1 entry.2 fields) base) := by
  obtain ⟨merged, fields, same⟩ := exists_effectiveConfig .nested .nested compatible
  rw [same]
  have extras : merged.extra = [("config", .object
      (own.foldl (fun fields entry => Assoc.insert entry.1 entry.2 fields) base))] := by
    rw [fields]
    rfl
  refine (config_nested_eq_ok ?_).mpr ⟨?_, rfl⟩
  · rw [extras]
    rfl
  · rw [extras]
    rfl

include compatible distinct plain in
theorem effectiveConfig_flat_nested {result : Fields} :
    effectiveConfig step template own base .flat .nested = .ok result ↔
      own = [] ∧ result = base := by
  obtain ⟨merged, fields, same⟩ := exists_effectiveConfig .flat .nested compatible
  have extras : merged.extra = ("config", .object base) :: own := by
    rw [fields]
    refine mergeExtras_of_disjoint distinct fun key member inside => ?_
    rw [List.mem_singleton.mp inside] at member
    exact plain "config" member (by simp [stepFields])
  have nested : Assoc.get? "config" merged.extra = some (.object base) := by
    rw [extras]
    rfl
  rw [same, config_nested_eq_ok nested, extras, List.length_cons]
  refine and_congr_left fun _ => ?_
  rw [Nat.add_eq_right, List.length_eq_zero_iff]

include compatible plainBase in
theorem effectiveConfig_nested_flat {result : Fields} :
    effectiveConfig step template own base .nested .flat = .ok result ↔
      base = [] ∧ result = own := by
  obtain ⟨merged, fields, same⟩ := exists_effectiveConfig .nested .flat compatible
  have absent : "config" ∉ base.map Prod.fst := fun member =>
    plainBase "config" member (by simp [stepFields])
  have extras : merged.extra = base ++ [("config", .object own)] := by
    rw [fields]
    refine mergeExtras_of_disjoint (by simp [Spelling.extra]) fun key member inside => ?_
    rw [List.mem_singleton.mp member] at inside
    exact absent inside
  have nested : Assoc.get? "config" merged.extra = some (.object own) := by
    rw [fields, get?_mergeExtras (by simp [Spelling.extra])]
    change mergedValue (some (.object own)) (Assoc.get? "config" base) = _
    rw [Assoc.get?_eq_none absent]
    rfl
  rw [same, config_nested_eq_ok nested, extras, List.length_append, List.length_singleton,
    Nat.add_eq_right, List.length_eq_zero_iff]

include compatible distinct plain plainBase in
theorem effectiveConfig_flat : effectiveConfig step template own base .flat .flat =
    .ok (mergeExtras own base) := by
  obtain ⟨merged, fields, same⟩ := exists_effectiveConfig .flat .flat compatible
  have outside : ∀ key ∈ merged.extra.map Prod.fst, key ∉ stepFields := by
    intro key member
    rw [fields] at member
    exact (mem_keys_mergeExtras distinct member).elim (plain key) (plainBase key)
  rw [same, config_flat (fun member => outside "config" member (by simp [stepFields])) ?_, fields]
  · rfl
  · intro key member reserved
    refine outside key member ?_
    simp only [reservedFields, List.mem_cons, List.not_mem_nil, or_false] at reserved
    rcases reserved with rfl | rfl <;> simp [stepFields]

/-- An object over another equals itself when it has every field of the other. -/
theorem beq_foldl_insert_iff {overrides existing : Fields} (upper : (Value.object overrides).Formed)
    (under : (Value.object existing).Formed) :
    (Value.object (overrides.foldl (fun fields entry => Assoc.insert entry.1 entry.2 fields)
        existing)).beq (.object overrides) = true ↔
      ∀ field, Assoc.get? field overrides = none → Assoc.get? field existing = none := by
  rw [Value.beq_object_iff (Assoc.nodup_foldl_insert under.1) upper.1]
  refine forall_congr' fun field => ?_
  rw [Assoc.get?_foldl_insert upper.1]
  cases found : Assoc.get? field overrides with
  | some value =>
      refine ⟨fun _ absent => (nomatch absent), fun _ => .some (Value.beq_refl ?_)⟩
      exact Value.formedFields_iff.mp upper.2 _ (Assoc.mem_of_get? found)
  | none =>
      rw [Option.none_or]
      cases Assoc.get? field existing with
      | some other => exact ⟨fun related => (nomatch related), fun kept => nomatch kept rfl⟩
      | none => exact ⟨fun _ _ => rfl, fun _ => .none⟩

theorem rel_refl {own : Option Value} (formed : ∀ value, own = some value → value.Formed) :
    Option.Rel (fun one other => one.beq other = true) own own := by
  cases own with
  | none => exact .none
  | some value => exact .some (Value.beq_refl (formed value rfl))

/-- The value one key gets with both configs flat, and with both nested. -/
theorem rel_mergedValue_iff {own base : Option Value}
    (upper : ∀ value, own = some value → value.Formed)
    (under : ∀ value, base = some value → value.Formed) :
    Option.Rel (fun one other => one.beq other = true) (mergedValue own base) (own.or base) ↔
      ∀ overrides existing, own = some (.object overrides) → base = some (.object existing) →
        ∀ field, Assoc.get? field overrides = none → Assoc.get? field existing = none := by
  rcases own with _ | own
  · exact ⟨fun _ _ _ declared => (nomatch declared), fun _ => rel_refl under⟩
  · rw [Option.some_or]
    by_cases both : ∃ overrides existing, own = .object overrides ∧ base = some (.object existing)
    · obtain ⟨overrides, existing, rfl, rfl⟩ := both
      have fields := beq_foldl_insert_iff (upper _ rfl) (under _ rfl)
      constructor
      · intro related _ _ left right
        cases left
        cases right
        cases related with
        | some equal => exact fields.mp equal
      · intro each
        exact .some (fields.mpr (each overrides existing rfl rfl))
    · have apart : ∀ overrides existing, own = .object overrides →
          base ≠ some (.object existing) :=
        fun overrides existing left right => both ⟨overrides, existing, left, right⟩
      rw [mergedValue_of_apart apart]
      refine ⟨fun _ overrides existing left right => ?_,
        fun _ => .some (Value.beq_refl (upper own rfl))⟩
      cases left
      exact absurd right (apart overrides existing rfl)

/-- A config equals a config over another when every key agrees. -/
theorem sameConfig_ok_iff {config : Fields} (formed : (Value.object own).Formed)
    (distinct : (base.map Prod.fst).Nodup) (keys : (config.map Prod.fst).Nodup) :
    SameConfig (.ok config) (.ok (own.foldl
        (fun fields entry => Assoc.insert entry.1 entry.2 fields) base)) ↔
      ∀ key, Option.Rel (fun one other => one.beq other = true) (Assoc.get? key config)
        ((Assoc.get? key own).or (Assoc.get? key base)) := by
  have whole := Value.beq_object_iff keys (@Assoc.nodup_foldl_insert _ own _ distinct)
  simp only [Assoc.get?_foldl_insert formed.1] at whole
  rw [← whole]
  constructor
  · rintro ⟨left, right, mine, theirs, equal⟩
    cases mine
    cases theirs
    exact equal
  · exact fun equal => ⟨_, _, rfl, rfl, equal⟩

/-- Two spellings make the config that both nested make when they are interchangeable. -/
theorem sameConfig_interchangeable_iff
    (compatible : step.kind = none ∨ template.kind = none ∨ step.kind = template.kind)
    (ownFormed : (Value.object own).Formed) (baseFormed : (Value.object base).Formed)
    (ownPlain : ∀ key ∈ own.map Prod.fst, key ∉ stepFields)
    (basePlain : ∀ key ∈ base.map Prod.fst, key ∉ stepFields) (mine theirs : Spelling) :
    SameConfig (effectiveConfig step template own base mine theirs)
        (effectiveConfig step template own base .nested .nested) ↔
      Interchangeable own base mine theirs := by
  have formed : ∀ (fields : Fields), (Value.object fields).Formed → ∀ key value,
      Assoc.get? key fields = some value → value.Formed := fun fields formed key value found =>
    Value.formedFields_iff.mp formed.2 _ (Assoc.mem_of_get? found)
  rw [effectiveConfig_nested compatible]
  have agrees := @sameConfig_ok_iff own base
  cases mine <;> cases theirs
  case nested.nested =>
    rw [effectiveConfig_nested compatible,
      agrees ownFormed baseFormed.1 (Assoc.nodup_foldl_insert baseFormed.1)]
    refine ⟨fun _ => trivial, fun _ key => ?_⟩
    rw [Assoc.get?_foldl_insert ownFormed.1]
    refine rel_refl fun value found => ?_
    rcases Option.or_eq_some_iff.mp found with mine | ⟨-, theirs⟩
    · exact formed own ownFormed key value mine
    · exact formed base baseFormed key value theirs
  case nested.flat =>
    constructor
    · rintro ⟨left, right, loaded, -, -⟩
      exact ((effectiveConfig_nested_flat compatible basePlain).mp loaded).1
    · rintro rfl
      rw [(effectiveConfig_nested_flat compatible basePlain).mpr ⟨rfl, rfl⟩,
        agrees ownFormed baseFormed.1 ownFormed.1]
      intro key
      rw [Assoc.get?_nil, Option.or_none]
      exact rel_refl (formed own ownFormed key)
  case flat.nested =>
    constructor
    · rintro ⟨left, right, loaded, -, -⟩
      exact ((effectiveConfig_flat_nested compatible ownFormed.1 ownPlain).mp loaded).1
    · rintro rfl
      rw [(effectiveConfig_flat_nested compatible ownFormed.1 ownPlain).mpr ⟨rfl, rfl⟩,
        agrees ownFormed baseFormed.1 baseFormed.1]
      intro key
      rw [Assoc.get?_nil, Option.none_or]
      exact rel_refl (formed base baseFormed key)
  case flat.flat =>
    rw [effectiveConfig_flat compatible ownFormed.1 ownPlain basePlain,
      agrees ownFormed baseFormed.1 (nodup_mergeExtras baseFormed.1)]
    refine forall_congr' fun key => ?_
    rw [get?_mergeExtras ownFormed.1]
    exact rel_mergedValue_iff (formed own ownFormed key) (formed base baseFormed key)

/-- Two spellings make the config that both nested make when they are interchangeable; all
of them do only for empty configs. -/
theorem sameConfig_iff
    (compatible : step.kind = none ∨ template.kind = none ∨ step.kind = template.kind)
    (ownFormed : (Value.object own).Formed) (baseFormed : (Value.object base).Formed)
    (ownPlain : ∀ key ∈ own.map Prod.fst, key ∉ stepFields)
    (basePlain : ∀ key ∈ base.map Prod.fst, key ∉ stepFields) :
    (∀ mine theirs, SameConfig (effectiveConfig step template own base mine theirs)
        (effectiveConfig step template own base .nested .nested) ↔
      Interchangeable own base mine theirs) ∧
    ((∀ mine theirs, SameConfig (effectiveConfig step template own base mine theirs)
        (effectiveConfig step template own base .nested .nested)) ↔ own = [] ∧ base = []) := by
  have each := sameConfig_interchangeable_iff compatible ownFormed baseFormed ownPlain basePlain
  refine ⟨each, ?_⟩
  simp only [each]
  refine ⟨fun all => ⟨all .flat .nested, all .nested .flat⟩, ?_⟩
  rintro ⟨rfl, rfl⟩ mine theirs
  cases mine <;> cases theirs
  · trivial
  · rfl
  · rfl
  · intro _ _ _ declared
    cases declared

end Spellings

namespace Sample

/-- A template whose config maps one field. -/
def normalize : StepConfig where
  id := ""
  kind := some .transform
  stepType := some "map"
  name := none
  when_ := none
  onError := none
  retry := none
  state := none
  extra := [("config", .object [("expr", .object [("email", .string "lower(email)")])])]

/-- A step that uses a template and maps another field. -/
def normalizing : StepConfig where
  id := "norm"
  kind := none
  stepType := none
  useTemplate := some "normalize"
  name := none
  when_ := none
  onError := none
  retry := none
  state := none
  extra := [("config", .object [("expr", .object [("name", .string "trim(name)")])])]

/-- The templates of a flow. -/
def templates : BTreeMap StepConfig := (∅ : BTreeMap StepConfig).insert "normalize" normalize

theorem templates_normalize : templates["normalize"]? = some normalize :=
  Std.TreeMap.getElem?_insert_self

/-- The step with its template merged. -/
def normalized : StepConfig :=
  { normalizing with
    kind := some .transform
    stepType := some "map"
    useTemplate := none }

theorem applyTemplates_normalizing : applyTemplates templates [normalizing] = .ok [normalized] := by
  simp only [applyTemplates, List.mapM_cons, List.mapM_nil, applyTemplate, normalizing,
    templates_normalize]
  rfl

theorem normalizing_wins_iff : ∃ result, [normalized][0]? = some result ∧
    (StepWins normalizing normalize result ↔ Inheritable normalizing normalize) :=
  stepWins_iff (by simp [normalizing, Value.Formed, Value.FormedFields])
    applyTemplates_normalizing rfl rfl templates_normalize

/-- The mapping of the template is lost under that of the step. -/
theorem mapping_lost : ∃ merged result,
    applyTemplates templates [normalizing] = .ok merged ∧ merged[0]? = some result ∧
      ¬StepWins normalizing normalize result := by
  refine ⟨_, _, applyTemplates_normalizing, rfl, fun wins => ?_⟩
  have kept : ¬Replaced (some (.object normalizing.extra)) ["config", "expr", "email"] := by
    unfold normalizing
    rw [replaced_object, Assoc.get?_cons, if_pos rfl, replaced_object, Assoc.get?_cons,
      if_pos rfl, replaced_object]
    exact not_replaced_nil
  have inherited := wins.config.inherited ["config", "expr", "email"] _ rfl rfl kept
  cases inherited

/-- A config of a template. -/
def tagging : Fields := [("field", .string "tag"), ("value", .string "base")]

/-- A config of a step that uses the template. -/
def overriding : Fields := [("value", .string "overridden")]

theorem overriding_same_iff :
    (∀ mine theirs,
      SameConfig (effectiveConfig normalizing normalize overriding tagging mine theirs)
        (effectiveConfig normalizing normalize overriding tagging .nested .nested) ↔
      Interchangeable overriding tagging mine theirs) ∧
    ((∀ mine theirs,
        SameConfig (effectiveConfig normalizing normalize overriding tagging mine theirs)
          (effectiveConfig normalizing normalize overriding tagging .nested .nested)) ↔
      overriding = [] ∧ tagging = []) :=
  sameConfig_iff (.inl rfl) (by simp [overriding, Value.Formed, Value.FormedFields])
    (by simp [tagging, Value.Formed, Value.FormedFields])
    (by simp [overriding, stepFields]) (by simp [tagging, stepFields])

/-- A flat config does not load over a nested one. -/
theorem mixed_spellings_differ : ¬∀ mine theirs,
    SameConfig (effectiveConfig normalizing normalize overriding tagging mine theirs)
      (effectiveConfig normalizing normalize overriding tagging .nested .nested) := by
  intro same
  obtain ⟨left, right, loaded, -, -⟩ := same .flat .nested
  have empty := (effectiveConfig_flat_nested (.inl rfl) (by simp [overriding])
    (by simp [overriding, stepFields])).mp loaded
  cases empty.1

end Sample

end Sohara
