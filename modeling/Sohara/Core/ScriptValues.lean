import Sohara.Core.Comparison
import Sohara.Core.Equality
import Sohara.Core.Transforms

/-! # Values that cross into a script

A payload is converted for the script engine and what a script returns is converted back. The
engine has integers of 32 bits; a larger one crosses as a float and comes back as one. Nothing
else is changed.
-/

namespace Sohara

theorem Number.asI64_posInt (value : Nat) :
    (Number.posInt value).asI64 = if value < 2 ^ 63 then some (value : Int) else none := rfl

theorem toI32_of_bounds {value : Int} (low : -2 ^ 31 ≤ value) (high : value < 2 ^ 31) :
    toI32 value = some value := if_pos ⟨low, high⟩

theorem toI32_of_large {value : Int} (large : ¬ (-2 ^ 31 ≤ value ∧ value < 2 ^ 31)) :
    toI32 value = none := if_neg large

section Widening

/-- Floats, and integers of 32 bits. -/
def Number.FitsI32 : Number → Prop
  | .posInt value => value < 2 ^ 31
  | .negInt value => -2 ^ 31 ≤ value
  | .float _ => True

instance (number : Number) : Decidable number.FitsI32 := by
  cases number <;> unfold Number.FitsI32 <;> infer_instance

variable (platform : Platform)

/-- An integer that has no 32 bits as a float. -/
def Number.widened (number : Number) : Number :=
  if number.FitsI32 then number else .float (number.asF64 platform)

namespace Value

mutual

/-- The numbers in a value. -/
def numbers : Value → List Number
  | .number found => [found]
  | .array items => itemNumbers items
  | .object fields => fieldNumbers fields
  | _ => []

/-- The numbers in the items of an array. -/
def itemNumbers : List Value → List Number
  | [] => []
  | item :: rest => numbers item ++ itemNumbers rest

/-- The numbers in the fields of an object. -/
def fieldNumbers : List (String × Value) → List Number
  | [] => []
  | (_, value) :: rest => numbers value ++ fieldNumbers rest

end

mutual

/-- A value with every larger integer as a float. -/
def widened : Value → Value
  | .number found => .number (found.widened platform)
  | .array items => .array (widenedItems items)
  | .object fields => .object (widenedFields fields)
  | other => other

/-- The items of an array with every larger integer as a float. -/
def widenedItems : List Value → List Value
  | [] => []
  | item :: rest => widened item :: widenedItems rest

/-- The fields of an object with every larger integer as a float. -/
def widenedFields : List (String × Value) → List (String × Value)
  | [] => []
  | (name, value) :: rest => (name, widened value) :: widenedFields rest

end

/-- A value as a document holds it: its objects have unique keys, its negative integers are
negative, and its numbers are finite. -/
structure Held (value : Value) : Prop where
  formed : value.Formed
  negative : ∀ whole, .negInt whole ∈ value.numbers → whole < 0
  finite : ∀ number ∈ value.numbers, platform.isFinite (number.asF64 platform) = true

variable {platform : Platform} {items : List Value} {fields : Fields}

theorem mem_itemNumbers {number : Number} :
    number ∈ itemNumbers items ↔ ∃ item ∈ items, number ∈ item.numbers := by
  induction items with
  | nil => simp [itemNumbers]
  | cons item rest ih => simp [itemNumbers, ih]

theorem mem_fieldNumbers {number : Number} :
    number ∈ fieldNumbers fields ↔ ∃ entry ∈ fields, number ∈ entry.2.numbers := by
  induction fields with
  | nil => simp [fieldNumbers]
  | cons entry rest ih => simp [fieldNumbers, ih]

theorem widenedItems_eq : widenedItems platform items = items.map (widened platform) := by
  induction items with
  | nil => rfl
  | cons item rest ih => rw [widenedItems, ih, List.map_cons]

theorem widenedFields_eq :
    widenedFields platform fields = Assoc.mapValues (widened platform) fields := by
  induction fields with
  | nil => rfl
  | cons entry rest ih =>
      rw [widenedFields, ih]
      rfl

/-- The items of a held array are held. -/
theorem Held.item (held : (Value.array items).Held platform) {item : Value}
    (member : item ∈ items) : item.Held platform where
  formed := formedItems_iff.mp held.formed item member
  negative whole inside := held.negative whole (mem_itemNumbers.mpr ⟨item, member, inside⟩)
  finite number inside := held.finite number (mem_itemNumbers.mpr ⟨item, member, inside⟩)

/-- The fields of a held object are held. -/
theorem Held.field (held : (Value.object fields).Held platform) {entry : String × Value}
    (member : entry ∈ fields) : entry.2.Held platform where
  formed := formedFields_iff.mp held.formed.2 entry member
  negative whole inside := held.negative whole (mem_fieldNumbers.mpr ⟨entry, member, inside⟩)
  finite number inside := held.finite number (mem_fieldNumbers.mpr ⟨entry, member, inside⟩)

/-- A value without larger integers is not changed. -/
theorem widened_eq {value : Value} (fits : ∀ number ∈ value.numbers, number.FitsI32) :
    value.widened platform = value := by
  induction value using Value.nested with
  | null | bool | string => rfl
  | number found =>
      have small : found.FitsI32 := fits found (List.mem_singleton_self _)
      rw [widened, Number.widened, if_pos small]
  | array items ih =>
      rw [widened, widenedItems_eq]
      refine congrArg _ ((List.map_congr_left fun item member => ?_).trans (List.map_id _))
      exact ih item member fun number inside =>
        fits number (mem_itemNumbers.mpr ⟨item, member, inside⟩)
  | object fields ih =>
      rw [widened, widenedFields_eq]
      refine congrArg _ ((List.map_congr_left fun entry member => ?_).trans (List.map_id _))
      refine Prod.ext rfl (ih entry member fun number inside => ?_)
      exact fits number (mem_fieldNumbers.mpr ⟨entry, member, inside⟩)

/-- A value that is not changed is without larger integers. -/
theorem fitsI32_of_widened {value : Value} (formed : value.Formed)
    (same : (value.widened platform).beq value = true) :
    ∀ number ∈ value.numbers, number.FitsI32 := by
  induction value using Value.nested with
  | null | bool | string => exact fun _ member => absurd member List.not_mem_nil
  | number found =>
      intro number member
      rw [List.mem_singleton.mp member]
      by_contra large
      rw [widened, Number.widened, if_neg large] at same
      cases found with
      | float bits => exact large trivial
      | _ => cases same
  | array items ih =>
      intro number member
      obtain ⟨item, inside, within⟩ := mem_itemNumbers.mp member
      rw [widened, widenedItems_eq] at same
      have each := List.forall₂_same.mp (List.forall₂_map_left_iff.mp (beqItems_iff.mp same))
      exact ih item inside (formedItems_iff.mp formed item inside) (each item inside) number within
  | object fields ih =>
      intro number member
      obtain ⟨entry, inside, within⟩ := mem_fieldNumbers.mp member
      rw [widened, widenedFields_eq, Value.beq, Bool.and_eq_true, beqFields_iff] at same
      obtain ⟨other, found, equal⟩ :=
        same.2 (entry.1, entry.2.widened platform) (List.mem_map.mpr ⟨entry, inside, rfl⟩)
      cases found.symm.trans ((Assoc.get?_eq_some_iff formed.1).mpr inside)
      exact ih entry inside (formedFields_iff.mp formed.2 entry inside) equal number within

variable (platform) in
theorem formed_widened {value : Value} (formed : value.Formed) :
    (value.widened platform).Formed := by
  induction value using Value.nested with
  | null | bool | string | number => exact trivial
  | array items ih =>
      rw [widened, widenedItems_eq]
      refine formedItems_iff.mpr fun wide member => ?_
      obtain ⟨item, inside, rfl⟩ := List.mem_map.mp member
      exact ih item inside (formedItems_iff.mp formed item inside)
  | object fields ih =>
      rw [widened, widenedFields_eq]
      refine ⟨Assoc.keys_mapValues.symm ▸ formed.1, formedFields_iff.mpr fun wide member => ?_⟩
      obtain ⟨entry, inside, rfl⟩ := List.mem_map.mp member
      exact ih entry inside (formedFields_iff.mp formed.2 entry inside)

end Value

end Widening

section Crossing

variable {platform : Platform} {hash : HashOrder} {number : Number} {value : Value}

variable (platform) in
/-- An integer of 32 bits crosses as one, any other number as a float. -/
theorem numberToJs_eq (negative : ∀ whole, number = .negInt whole → whole < 0) :
    numberToJs platform number = .float (number.asF64 platform) ∧
        (number.FitsI32 → ∃ bits, number = .float bits) ∨
      ∃ whole, numberToJs platform number = .int whole ∧ Number.ofInt whole = number ∧
        number.FitsI32 := by
  cases number with
  | posInt whole =>
      unfold numberToJs
      rw [Number.asI64_posInt]
      by_cases small : whole < 2 ^ 31
      · refine .inr ⟨whole, ?_, if_neg (Int.not_lt.mpr (Int.natCast_nonneg _)), small⟩
        rw [if_pos (by omega), Option.bind_some, toI32_of_bounds (by omega) (by omega)]
      · refine .inl ⟨?_, fun fits => absurd fits small⟩
        by_cases signed : whole < 2 ^ 63
        · rw [if_pos signed, Option.bind_some, toI32_of_large (by omega)]
        · rw [if_neg signed, Option.bind_none]
  | negInt whole =>
      have below := negative whole rfl
      have signed : (Number.negInt whole).asI64.bind toI32 = toI32 whole := rfl
      unfold numberToJs
      rw [signed]
      by_cases small : -2 ^ 31 ≤ whole
      · refine .inr ⟨whole, ?_, if_pos below, small⟩
        rw [toI32_of_bounds small (by omega)]
      · refine .inl ⟨?_, fun fits => absurd fits small⟩
        rw [toI32_of_large fun fits => small fits.1]
  | float bits => exact .inl ⟨rfl, fun _ => ⟨bits, rfl⟩⟩

/-- What comes back of a number. -/
theorem jsToValue_numberToJs (held : (Value.number number).Held platform) :
    jsToValue platform (numberToJs platform number) = .number (number.widened platform) := by
  have negative : ∀ whole, number = .negInt whole → whole < 0 := fun whole same =>
    held.negative whole (same ▸ List.mem_singleton_self _)
  have finite := held.finite number (List.mem_singleton_self _)
  unfold Number.widened
  rcases numberToJs_eq platform negative with ⟨crossed, floats⟩ | crossed
  · rw [crossed]
    unfold jsToValue
    rw [if_pos finite]
    split
    case isTrue fits =>
      obtain ⟨bits, rfl⟩ := floats fits
      rfl
    case isFalse => rfl
  · obtain ⟨whole, crossed, same, fits⟩ := crossed
    rw [crossed, if_pos fits, ← same]
    rfl

theorem itemsToJs_eq (items : List Value) :
    itemsToJs platform hash items = items.map (valueToJs platform hash) := by
  induction items with
  | nil => rfl
  | cons item rest ih => rw [itemsToJs, ih, List.map_cons]

theorem fieldsToJs_eq (fields : Fields) (collected : Assoc JsValue) :
    fieldsToJs platform hash fields collected =
      (Assoc.mapValues (valueToJs platform hash) fields).foldl
        (fun entries entry => Assoc.insert entry.1 entry.2 entries) collected := by
  induction fields generalizing collected with
  | nil => rfl
  | cons entry rest ih => exact ih _

theorem jsToItems_eq (items : List JsValue) :
    jsToItems platform items = items.map (jsToValue platform) := by
  induction items with
  | nil => rfl
  | cons item rest ih => rw [jsToItems, ih, List.map_cons]

theorem jsToFields_eq (fields : List (String × JsValue)) (collected : Fields) :
    jsToFields platform fields collected =
      (Assoc.mapValues (jsToValue platform) fields).foldl
        (fun entries entry => Assoc.insert entry.1 entry.2 entries) collected := by
  induction fields generalizing collected with
  | nil => rfl
  | cons entry rest ih => exact ih _

/-- Values of an object that crosses and comes back are found under the same keys. -/
theorem get?_crossed {fields : Fields} (distinct : (fields.map Prod.fst).Nodup) (key : String) :
    (jsToFields platform ((fieldsToJs platform hash fields []).listing hash) []).get? key =
      (fields.get? key).map fun value => jsToValue platform (valueToJs platform hash value) := by
  rw [jsToFields_eq]
  refine (Assoc.get?_ofList_mapValues _).trans ?_
  rw [Assoc.get?_listing, fieldsToJs_eq,
    Assoc.get?_foldl_insert (Assoc.keys_mapValues.symm ▸ distinct), Assoc.get?_nil,
    Option.or_none, Assoc.get?_mapValues, Option.map_map]
  rfl

variable (platform) in
theorem nodup_jsToFields (fields : List (String × JsValue)) :
    ((jsToFields platform fields []).map Prod.fst).Nodup := by
  rw [jsToFields_eq]
  exact Assoc.nodup_foldl_insert List.nodup_nil

variable (hash) in
/-- **What comes back of a value**: the value with every larger integer as a float. -/
theorem jsToValue_valueToJs (held : value.Held platform) :
    (jsToValue platform (valueToJs platform hash value)).Formed ∧
    (jsToValue platform (valueToJs platform hash value)).beq (value.widened platform) = true := by
  induction value using Value.nested with
  | null | bool | string =>
      exact ⟨trivial, by simp [valueToJs, jsToValue, Value.widened, Value.beq]⟩
  | number number =>
      have crossed : jsToValue platform (valueToJs platform hash (.number number)) =
          .number (number.widened platform) := jsToValue_numberToJs held
      rw [crossed]
      exact ⟨trivial, Number.beq_refl _⟩
  | array items ih =>
      have crossed : jsToValue platform (valueToJs platform hash (.array items)) =
          .array (items.map fun item => jsToValue platform (valueToJs platform hash item)) := by
        rw [valueToJs, jsToValue, jsToItems_eq, itemsToJs_eq, List.map_map]
        rfl
      rw [crossed, Value.widened, Value.widenedItems_eq]
      constructor
      · refine Value.formedItems_iff.mpr fun back member => ?_
        obtain ⟨item, inside, rfl⟩ := List.mem_map.mp member
        exact (ih item inside (held.item inside)).1
      · refine Value.beqItems_iff.mpr (List.forall₂_map_left_iff.mpr
          (List.forall₂_map_right_iff.mpr (List.forall₂_same.mpr fun item inside => ?_)))
        exact (ih item inside (held.item inside)).2
  | object fields ih =>
      have distinct := held.formed.1
      have crossed : jsToValue platform (valueToJs platform hash (.object fields)) =
          .object (jsToFields platform ((fieldsToJs platform hash fields []).listing hash) []) := by
        rw [valueToJs, jsToValue]
      have keys : ((Assoc.mapValues (Value.widened platform) fields).map Prod.fst).Nodup :=
        Assoc.keys_mapValues.symm ▸ distinct
      have backs := nodup_jsToFields platform ((fieldsToJs platform hash fields []).listing hash)
      rw [crossed, Value.widened, Value.widenedFields_eq]
      constructor
      · refine ⟨backs, Value.formedFields_iff.mpr fun entry member => ?_⟩
        have found := (Assoc.get?_eq_some_iff backs).mpr member
        rw [get?_crossed distinct] at found
        obtain ⟨value, present, same⟩ := Option.map_eq_some_iff.mp found
        have inside := Assoc.mem_of_get? present
        rw [← same]
        exact (ih _ inside (held.field inside)).1
      · refine (Value.beq_object_iff backs keys).mpr fun key => ?_
        rw [get?_crossed distinct, Assoc.get?_mapValues]
        cases present : Assoc.get? key fields with
        | none => exact .none
        | some value =>
            have inside := Assoc.mem_of_get? present
            exact .some (ih _ inside (held.field inside)).2

end Crossing

section Wrapping

variable {quickJs : QuickJs} {fields : List (String × JsValue)}

/-- The keys that do not become fields of a wrapped record. -/
def reservedKeys : List String := "__proto__" :: "__meta" :: recordGetters

/-- An object whose fields all become fields of the wrapped record. -/
def Value.Wrappable : Value → Prop
  | .object fields => ∀ entry ∈ fields, entry.1 ∉ reservedKeys
  | _ => False

instance (value : Value) : Decidable value.Wrappable := by
  cases value <;> unfold Value.Wrappable <;> infer_instance

theorem Wrapping.assign_of_free {entry : String × JsValue} (free : entry.1 ∉ reservedKeys)
    (wrapping : Wrapping) : wrapping.assign quickJs entry =
      .ok { wrapping with fields := wrapping.fields.insert entry.1 entry.2 } := by
  rw [reservedKeys, List.mem_cons, List.mem_cons, not_or, not_or] at free
  have open_ : (wrapping.isRecord && recordGetters.contains entry.1) = false := by
    rw [List.contains_eq_mem, decide_eq_false free.2.2, Bool.and_false]
  rw [Wrapping.assign, if_neg free.1, open_, if_neg Bool.false_ne_true]

/-- Free keys are assigned one after the other. -/
theorem foldlM_assign (free : ∀ entry ∈ fields, entry.1 ∉ reservedKeys) (wrapping : Wrapping)
    (distinct : ((wrapping.fields ++ fields).map Prod.fst).Nodup) :
    fields.foldlM (Wrapping.assign quickJs) wrapping =
      .ok { wrapping with fields := wrapping.fields ++ fields } := by
  induction fields generalizing wrapping with
  | nil => rw [List.append_nil]; rfl
  | cons entry rest ih =>
      obtain ⟨first, later⟩ := List.forall_mem_cons.mp free
      have fresh : entry.1 ∉ wrapping.fields.map Prod.fst := by
        rw [List.map_append, List.map_cons] at distinct
        exact fun inside =>
          (List.nodup_append.mp distinct).2.2 _ inside _ List.mem_cons_self rfl
      have split : wrapping.fields ++ entry :: rest = (wrapping.fields ++ [entry]) ++ rest :=
        (List.append_cons _ _ _)
      rw [List.foldlM_cons, Wrapping.assign_of_free first, Assoc.insert_of_absent _ fresh, split]
      rw [split] at distinct
      exact ih later _ distinct

/-- A record around free keys has the fields of the payload. -/
theorem wrapRecord_of_free (free : ∀ entry ∈ fields, entry.1 ∉ reservedKeys)
    (distinct : (fields.map Prod.fst).Nodup) :
    wrapRecord quickJs (.object fields) = .ok fields := by
  have assigned := @foldlM_assign quickJs fields free ⟨[], true⟩ distinct
  have kept : Assoc.erase "__meta" fields = fields := by
    refine List.filter_eq_self.mpr fun entry member => decide_eq_true fun same => ?_
    exact free entry member (same ▸ List.mem_cons_of_mem _ List.mem_cons_self)
  unfold wrapRecord ownFields
  rw [assigned]
  exact congrArg Except.ok kept

variable {platform : Platform} {hash : HashOrder}

/-- Every key of a map is listed once. -/
theorem Assoc.keys_listing {V : Type} (hash : HashOrder) (entries : Assoc V) :
    (entries.listing hash).map Prod.fst = hash.order (entries.map Prod.fst) := by
  unfold Assoc.listing
  rw [List.map_filterMap]
  refine (List.filterMap_congr fun key member => ?_).trans List.filterMap_some
  obtain ⟨value, present⟩ := Assoc.mem_keys_iff.mp ((hash.perm _).mem_iff.mp member)
  rw [present]
  rfl

variable (platform hash) in
/-- The fields that cross have unique keys. -/
theorem nodup_crossed (values : Fields) :
    (((fieldsToJs platform hash values []).listing hash).map Prod.fst).Nodup := by
  rw [Assoc.keys_listing, (hash.perm _).nodup_iff, fieldsToJs_eq]
  exact Assoc.nodup_foldl_insert List.nodup_nil

/-- The fields that cross have the keys of the object. -/
theorem key_of_crossed {values : Fields} (distinct : (values.map Prod.fst).Nodup)
    {entry : String × JsValue}
    (member : entry ∈ (fieldsToJs platform hash values []).listing hash) :
    entry.1 ∈ values.map Prod.fst := by
  have listed := List.mem_map_of_mem (f := Prod.fst) member
  rw [Assoc.keys_listing, (hash.perm _).mem_iff, fieldsToJs_eq, Assoc.mem_keys_iff] at listed
  obtain ⟨value, present⟩ := listed
  rw [Assoc.get?_foldl_insert (Assoc.keys_mapValues.symm ▸ distinct), Assoc.get?_nil,
    Option.or_none] at present
  have crossed := Assoc.mem_keys_iff.mpr ⟨value, present⟩
  rwa [Assoc.keys_mapValues] at crossed

/-- The order of the fields of a script object does not matter. -/
theorem jsToValue_perm {back : List (String × JsValue)} (same : back.Perm fields)
    (distinct : (fields.map Prod.fst).Nodup)
    (formed : (jsToValue platform (.object fields)).Formed) :
    (jsToValue platform (.object back)).beq (jsToValue platform (.object fields)) = true := by
  rw [jsToValue, jsToValue]
  refine (Value.beq_object_iff (nodup_jsToFields platform back)
    (nodup_jsToFields platform fields)).mpr fun key => ?_
  have reordered := (same.map Prod.fst).nodup_iff.mpr distinct
  have found : Assoc.get? key back = Assoc.get? key fields := by
    refine Option.ext fun value => ?_
    rw [Assoc.get?_eq_some_iff reordered, Assoc.get?_eq_some_iff distinct, same.mem_iff]
  have alike : Assoc.get? key (jsToFields platform back []) =
      Assoc.get? key (jsToFields platform fields []) := by
    rw [jsToFields_eq, jsToFields_eq,
      Assoc.get?_foldl_insert (Assoc.keys_mapValues.symm ▸ reordered),
      Assoc.get?_foldl_insert (Assoc.keys_mapValues.symm ▸ distinct), Assoc.get?_mapValues,
      Assoc.get?_mapValues, found]
  rw [alike]
  cases present : Assoc.get? key (jsToFields platform fields []) with
  | none => exact .none
  | some value =>
      rw [jsToValue] at formed
      have inside := Assoc.mem_of_get? present
      exact .some (Value.beq_refl (Value.formedFields_iff.mp formed.2 (key, value) inside))

end Wrapping

/-- The script of a step returns the record that it is called with, and emits nothing. -/
structure ScriptStep.ReturnsRecord (platform : Platform) (application : Application)
    (step : ScriptStep) (record : Record) : Prop where
  setup : application.quickJs.setupContext = .ok ()
  evaluated : application.quickJs.runScript step.source = .ok ()
  returned : ∀ fields, wrapRecord application.quickJs
      (valueToJs platform application.quickJs.hash record.payload) = .ok fields →
    ∃ back, application.quickJs.entry step.entry ⟨fields, record⟩ = .ok (.object back) ∧
      back.Perm fields
  quiet : application.quickJs.emitted step.source step.entry record = some []

section Returning

variable {platform : Platform} {application : Application} {value : Value} {step : ScriptStep}
  {record : Record} {back : List (String × JsValue)}

/-- Without emitted records, a returned object becomes the payload. -/
theorem ScriptStep.transform_of_object
    (invoked : step.invoke platform application record = .ok (.object back))
    (quiet : application.quickJs.emitted step.source step.entry record = some []) :
    step.transform platform application record =
      .ok (.pass (Record.new application 0 (jsToValue platform (.object back)))) := by
  have decided : outcomeFromJs platform application (.object back) =
      .ok (.pass (Record.new application 0 (jsToValue platform (.object back)))) := rfl
  unfold ScriptStep.transform
  rw [invoked, quiet]
  change (outcomeFromJs platform application (.object back) >>= _) = _
  rw [decided]
  rfl

/-- A script that returns its record passes the fields that crossed. -/
theorem ScriptStep.invoke_of_returns {fields : Fields} (held : (Value.object fields).Held platform)
    (free : (Value.object fields).Wrappable)
    (returns : step.ReturnsRecord platform application record)
    (payload : record.payload = .object fields) :
    ∃ back, step.invoke platform application record = .ok (.object back) ∧
      back.Perm ((fieldsToJs platform application.quickJs.hash fields []).listing
        application.quickJs.hash) := by
  have wrapped : wrapRecord application.quickJs
      (valueToJs platform application.quickJs.hash record.payload) =
        .ok ((fieldsToJs platform application.quickJs.hash fields []).listing
          application.quickJs.hash) := by
    rw [payload, valueToJs]
    refine wrapRecord_of_free (fun entry member => ?_) (nodup_crossed _ _ fields)
    obtain ⟨given, inside, same⟩ := List.mem_map.mp (key_of_crossed held.formed.1 member)
    exact same ▸ free given inside
  obtain ⟨back, answered, same⟩ := returns.returned _ wrapped
  refine ⟨back, ?_, same⟩
  unfold ScriptStep.invoke QuickJs.callTransform
  rw [returns.setup, returns.evaluated, wrapped]
  change Except.mapError _ (application.quickJs.entry step.entry _) = _
  rw [answered]
  rfl

end Returning

/-- **Script values round-trip up to larger integers.** What crosses into a script and comes back
is the value with every integer that has no 32 bits as a float, so it is the value itself exactly
when there are none. A script that returns its record, and emits nothing, passes this on when the
payload is an object whose fields all become fields of the record. -/
theorem script_values_iff (platform : Platform) (hash : HashOrder) {value : Value}
    (held : value.Held platform) :
    (jsToValue platform (valueToJs platform hash value)).beq (value.widened platform) = true ∧
    ((jsToValue platform (valueToJs platform hash value)).beq value = true ↔
      ∀ number ∈ value.numbers, number.FitsI32) ∧
    (value.Wrappable → ∀ (application : Application) (step : ScriptStep) (record : Record),
      record.payload = value → step.ReturnsRecord platform application record →
        ∃ made, step.transform platform application record = .ok (.pass made) ∧
          made.payload.beq (value.widened platform) = true) := by
  obtain ⟨formed, back⟩ := jsToValue_valueToJs hash held
  refine ⟨back, ⟨fun same => ?_, fun fits => ?_⟩, ?_⟩
  · have wide := Value.formed_widened platform held.formed
    exact Value.fitsI32_of_widened held.formed
      (Value.beq_trans (Value.beq_symm formed wide back) same)
  · rwa [Value.widened_eq fits] at back
  · intro free application step record payload returns
    cases value with
    | object fields =>
        obtain ⟨back, invoked, same⟩ := ScriptStep.invoke_of_returns held free returns payload
        refine ⟨_, ScriptStep.transform_of_object invoked returns.quiet, ?_⟩
        obtain ⟨formed, crossed⟩ := jsToValue_valueToJs application.quickJs.hash held
        rw [valueToJs] at formed crossed
        exact Value.beq_trans (jsToValue_perm same (nodup_crossed _ _ fields) formed) crossed
    | _ => exact free.elim

namespace Sample

/-- A platform that knows a time in milliseconds as a float. -/
def millis : Platform :=
  { numbers with
    ofInt := fun value =>
      if value = 1700000000000 then 0x4278BCFE56800000 else numbers.ofInt value }

/-- Fields in the order in which they were inserted. -/
def inOrder : HashOrder := ⟨fun elements => elements, fun _ => .refl _⟩

/-- A time in milliseconds. -/
def moment : Value := .object [("at", .number (.posInt 1700000000000))]

theorem moment_held : moment.Held millis where
  formed := ⟨by decide, trivial, trivial⟩
  negative whole member := by cases List.mem_singleton.mp member
  finite number member := by
    rw [List.mem_singleton.mp member]
    decide

/-- The time comes back from a script as a float. -/
theorem moment_widened :
    moment.Held millis ∧
      ¬ (jsToValue millis (valueToJs millis inOrder moment)).beq moment = true :=
  ⟨moment_held, by decide⟩

/-- A script engine whose entries return the record they are called with. -/
def mirroring : QuickJs where
  hash := inOrder
  setupContext := .ok ()
  runScript _ := .ok ()
  entry _ record := .ok (.object record.fields)
  noSetter _ := "TypeError: no setter for property"
  unit code := .string (Char.ofNat code).toString
  emitted _ _ _ := some []

/-- An application with this engine. -/
def mirror : Application where
  draws _ := ⟨fun _ => "", fun _ => ""⟩
  id _ := "new"
  timestamp _ := 0
  quickJs := mirroring

/-- The time passes through the script as a float. -/
theorem moment_passes :
    (jsToValue millis (valueToJs millis inOrder moment)).beq (moment.widened millis) = true ∧
      ∃ made, (ScriptStep.mk "" "transform").transform millis mirror ⟨"r", 0, moment, []⟩ =
          .ok (.pass made) ∧ made.payload.beq (moment.widened millis) = true := by
  obtain ⟨back, -, passed⟩ := script_values_iff millis inOrder moment_held
  exact ⟨back, passed (by decide) mirror ⟨"", "transform"⟩ ⟨"r", 0, moment, []⟩ rfl
    ⟨rfl, rfl, fun fields _ => ⟨fields, rfl, .refl _⟩, rfl⟩⟩

-- A field that hides a member of the prototype cannot be assigned.
example : (ScriptStep.mk "" "transform").transform numbers mirror
    ⟨"r", 0, .object [("id", .number (.posInt 1))], []⟩ =
      .error (.transform "script entry (__call2): TypeError: no setter for property") := rfl

-- `null` has no fields: the record passed on is empty.
example : (ScriptStep.mk "" "transform").transform numbers mirror ⟨"r", 0, .null, []⟩ =
    .ok (.pass ⟨"new", 0, .object [], []⟩) := rfl

end Sample

end Sohara
