import Mathlib.Data.List.Perm.Subperm
import Sohara.Core.Value

/-! # Equality of JSON values

The equality of values ignores the order of object fields. On values as a document
can hold them, with unique keys at every depth, it is an equivalence relation.
-/

namespace Sohara

namespace Assoc

variable {V : Type} {key : String} {value : V} {entries : Assoc V}

theorem mem_of_get? (found : get? key entries = some value) : (key, value) ∈ entries := by
  induction entries with
  | nil => cases found
  | cons entry rest ih =>
      obtain ⟨name, first⟩ := entry
      rw [get?_cons] at found
      split at found
      case isTrue same =>
        cases found
        rw [same]
        exact List.mem_cons_self
      case isFalse => exact List.mem_cons_of_mem _ (ih found)

/-- With unique keys, an entry is found under its key. -/
theorem get?_eq_some_iff (distinct : (entries.map Prod.fst).Nodup) :
    get? key entries = some value ↔ (key, value) ∈ entries := by
  refine ⟨mem_of_get?, fun member => ?_⟩
  induction entries with
  | nil => cases member
  | cons entry rest ih =>
      obtain ⟨name, first⟩ := entry
      obtain ⟨fresh, distinct⟩ := List.nodup_cons.mp distinct
      rw [get?_cons]
      rcases List.mem_cons.mp member with here | inside
      · cases here
        exact if_pos rfl
      · have other : name ≠ key := by
          intro same
          subst same
          exact fresh (List.mem_map.mpr ⟨_, inside, rfl⟩)
        rw [if_neg other]
        exact ih distinct inside

theorem mem_keys_iff : key ∈ entries.map Prod.fst ↔ ∃ value, get? key entries = some value := by
  constructor
  · intro member
    cases found : get? key entries with
    | some value => exact ⟨value, rfl⟩
    | none =>
        induction entries with
        | nil => cases member
        | cons entry rest ih =>
            obtain ⟨name, value⟩ := entry
            rw [get?_cons] at found
            split at found
            case isTrue => cases found
            case isFalse other =>
              rcases List.mem_cons.mp member with rfl | inside
              · exact absurd rfl other
              · exact ih inside found
  · rintro ⟨value, found⟩
    exact List.mem_map.mpr ⟨_, mem_of_get? found, rfl⟩

theorem keys_insert (key : String) (value : V) (entries : Assoc V) :
    (insert key value entries).map Prod.fst =
      if key ∈ entries.map Prod.fst then entries.map Prod.fst
      else entries.map Prod.fst ++ [key] := by
  induction entries with
  | nil => rfl
  | cons entry rest ih =>
      obtain ⟨name, old⟩ := entry
      by_cases same : name = key
      · subst same
        simp [insert]
      · have other : key ≠ name := Ne.symm same
        rw [insert, if_neg same, List.map_cons, List.map_cons, ih]
        by_cases inside : key ∈ rest.map Prod.fst
        · rw [if_pos inside, if_pos (List.mem_cons_of_mem _ inside)]
        · rw [if_neg inside, if_neg (List.not_mem_cons_of_ne_of_not_mem other inside)]
          rfl

theorem nodup_insert (distinct : (entries.map Prod.fst).Nodup) :
    ((insert key value entries).map Prod.fst).Nodup := by
  rw [keys_insert]
  split
  case isTrue => exact distinct
  case isFalse fresh =>
    refine List.nodup_append.mpr ⟨distinct, by simp, fun name member other last same => ?_⟩
    rw [same, List.mem_singleton.mp last] at member
    exact fresh member

theorem nodup_foldl_insert {source target : Assoc V} (distinct : (target.map Prod.fst).Nodup) :
    ((source.foldl (fun entries entry => insert entry.1 entry.2 entries)
      target).map Prod.fst).Nodup := by
  induction source generalizing target with
  | nil => exact distinct
  | cons entry rest ih => exact ih (nodup_insert distinct)

end Assoc

namespace Value

/-- Induction on the nesting of a value. -/
theorem nested {motive : Value → Prop} (null : motive .null)
    (bool : ∀ value, motive (.bool value)) (number : ∀ value, motive (.number value))
    (string : ∀ text, motive (.string text))
    (array : ∀ items, (∀ item ∈ items, motive item) → motive (.array items))
    (object : ∀ fields, (∀ entry ∈ fields, motive entry.2) → motive (.object fields)) :
    ∀ value, motive value :=
  @Value.rec motive (fun items => ∀ item ∈ items, motive item)
    (fun fields => ∀ entry ∈ fields, motive entry.2) (fun entry => motive entry.2)
    null bool number string array object
    (fun _ member => nomatch member)
    (fun _ _ first rest => List.forall_mem_cons.mpr ⟨first, rest⟩)
    (fun _ member => nomatch member)
    (fun _ _ first rest => List.forall_mem_cons.mpr ⟨first, rest⟩)
    (fun _ _ value => value)

mutual

/-- A value as a document holds it: the keys of every object are unique. -/
def Formed : Value → Prop
  | .array items => FormedItems items
  | .object fields => (fields.map Prod.fst).Nodup ∧ FormedFields fields
  | _ => True

/-- The items of an array are formed. -/
def FormedItems : List Value → Prop
  | [] => True
  | item :: rest => Formed item ∧ FormedItems rest

/-- The fields of an object are formed. -/
def FormedFields : List (String × Value) → Prop
  | [] => True
  | (_, value) :: rest => Formed value ∧ FormedFields rest

end

theorem formedItems_iff {items : List Value} : FormedItems items ↔ ∀ item ∈ items, item.Formed := by
  induction items with
  | nil => simp [FormedItems]
  | cons item rest ih => simp [FormedItems, ih]

theorem formedFields_iff {fields : List (String × Value)} :
    FormedFields fields ↔ ∀ entry ∈ fields, entry.2.Formed := by
  induction fields with
  | nil => simp [FormedFields]
  | cons entry rest ih => simp [FormedFields, ih]

theorem beqItems_iff {left right : List Value} :
    Value.beqItems left right = true ↔
      List.Forall₂ (fun one other => one.beq other) left right := by
  induction left generalizing right with
  | nil => cases right <;> simp [Value.beqItems]
  | cons item rest ih => cases right <;> simp [Value.beqItems, ih]

theorem beqFields_iff {left right : List (String × Value)} :
    Value.beqFields left right = true ↔ ∀ entry ∈ left, ∃ other,
      Assoc.get? entry.1 right = some other ∧ entry.2.beq other = true := by
  induction left with
  | nil => simp [Value.beqFields]
  | cons entry rest ih =>
      obtain ⟨name, value⟩ := entry
      simp only [Value.beqFields, Bool.and_eq_true, ih, List.forall_mem_cons]
      cases Assoc.get? name right <;> simp

/-- Objects of equal size, the fields of one among those of the other, have the
same keys. -/
theorem mem_keys_of_beqFields {left right : List (String × Value)}
    (distinct : (left.map Prod.fst).Nodup) (sizes : left.length = right.length)
    (included : Value.beqFields left right = true) {name : String}
    (member : name ∈ right.map Prod.fst) : name ∈ left.map Prod.fst := by
  have subset : left.map Prod.fst ⊆ right.map Prod.fst := by
    intro key inside
    obtain ⟨entry, present, rfl⟩ := List.mem_map.mp inside
    obtain ⟨other, found, -⟩ := beqFields_iff.mp included entry present
    exact List.mem_map.mpr ⟨_, Assoc.mem_of_get? found, rfl⟩
  have same := (List.subperm_of_subset distinct subset).perm_of_length_le
    (by rw [List.length_map, List.length_map]; exact Nat.le_of_eq sizes.symm)
  exact same.mem_iff.mpr member

/-- Equality of objects, key by key. -/
theorem beq_object_iff {left right : Fields} (lefts : (left.map Prod.fst).Nodup)
    (rights : (right.map Prod.fst).Nodup) :
    (Value.object left).beq (.object right) = true ↔ ∀ key,
      Option.Rel (fun one other => one.beq other = true) (Assoc.get? key left)
        (Assoc.get? key right) := by
  simp only [Value.beq, Bool.and_eq_true, beq_iff_eq, beqFields_iff]
  constructor
  · intro same key
    cases found : Assoc.get? key left with
    | some value =>
        obtain ⟨other, present, equal⟩ := same.2 _ (Assoc.mem_of_get? found)
        rw [present]
        exact .some equal
    | none =>
        cases present : Assoc.get? key right with
        | none => exact .none
        | some other =>
            have known := mem_keys_of_beqFields lefts same.1 (beqFields_iff.mpr same.2)
              (Assoc.mem_keys_iff.mpr ⟨other, present⟩)
            obtain ⟨value, declared⟩ := Assoc.mem_keys_iff.mp known
            rw [found] at declared
            cases declared
  · intro same
    have keys : (left.map Prod.fst).Perm (right.map Prod.fst) := by
      refine (List.perm_ext_iff_of_nodup lefts rights).mpr fun key => ?_
      rw [Assoc.mem_keys_iff, Assoc.mem_keys_iff]
      have related := same key
      generalize Assoc.get? key left = one, Assoc.get? key right = other at related
      cases related with
      | some => exact ⟨fun _ => ⟨_, rfl⟩, fun _ => ⟨_, rfl⟩⟩
      | none => exact Iff.rfl
    refine ⟨?_, fun entry member => ?_⟩
    · have sizes := keys.length_eq
      rwa [List.length_map, List.length_map] at sizes
    · have related := same entry.1
      rw [(Assoc.get?_eq_some_iff lefts).mpr member] at related
      generalize Assoc.get? entry.1 right = target at related ⊢
      cases related with
      | some equal => exact ⟨_, rfl, equal⟩

end Value

theorem Number.beq_refl (number : Number) : number.beq number = true := by
  cases number <;> simp [Number.beq]

theorem Number.beq_symm {left right : Number} (same : left.beq right = true) :
    right.beq left = true := by
  cases left <;> cases right <;> simp only [Number.beq, Bool.or_eq_true, Bool.and_eq_true,
    beq_iff_eq, Bool.false_eq_true] at same ⊢
  case posInt.posInt => exact same.symm
  case negInt.negInt => exact same.symm
  case float.float => exact same.imp Eq.symm And.symm

theorem Number.beq_trans {left middle right : Number} (first : left.beq middle = true)
    (second : middle.beq right = true) : left.beq right = true := by
  cases left <;> cases middle <;> cases right <;> simp only [Number.beq, Bool.or_eq_true,
    Bool.and_eq_true, beq_iff_eq, Bool.false_eq_true] at first second ⊢
  case posInt.posInt.posInt => exact first.trans second
  case negInt.negInt.negInt => exact first.trans second
  case float.float.float =>
    rcases first with rfl | ⟨zero, zero'⟩
    · exact second
    · rcases second with rfl | ⟨-, other⟩
      · exact .inr ⟨zero, zero'⟩
      · exact .inr ⟨zero, other⟩

namespace Value

/-- Equality of values is reflexive. -/
theorem beq_refl {value : Value} (formed : value.Formed) : value.beq value = true := by
  induction value using Value.nested with
  | null => rfl
  | bool | string => simp [Value.beq]
  | number number => exact number.beq_refl
  | array items ih =>
      refine beqItems_iff.mpr (List.forall₂_same.mpr fun item member => ?_)
      exact ih item member (formedItems_iff.mp formed item member)
  | object fields ih =>
      refine (beq_object_iff formed.1 formed.1).mpr fun key => ?_
      cases found : Assoc.get? key fields with
      | none => exact .none
      | some value =>
          have member := Assoc.mem_of_get? found
          exact .some (ih _ member (formedFields_iff.mp formed.2 _ member))

/-- Equality of values is symmetric. -/
theorem beq_symm {left right : Value} (leftFormed : left.Formed) (rightFormed : right.Formed)
    (same : left.beq right = true) : right.beq left = true := by
  induction left using Value.nested generalizing right with
  | null => cases right <;> first | rfl | cases same
  | bool | string =>
      cases right <;> first
      | cases same
      | simp only [Value.beq, beq_iff_eq] at same ⊢
        exact same.symm
  | number =>
      cases right <;> first | cases same | exact Number.beq_symm same
  | array items ih =>
      cases right with
      | array others =>
          have members := formedItems_iff.mp leftFormed
          have others := formedItems_iff.mp rightFormed
          refine beqItems_iff.mpr (List.Forall₂.flip ?_)
          have related := beqItems_iff.mp same
          rw [List.forall₂_iff_zip] at related ⊢
          refine ⟨related.1, fun {one other} paired => ?_⟩
          have inside := List.of_mem_zip paired
          exact ih one inside.1 (members one inside.1) (others other inside.2) (related.2 paired)
      | _ => cases same
  | object fields ih =>
      cases right with
      | object others =>
          simp only [Value.beq, Bool.and_eq_true, beq_iff_eq] at same ⊢
          refine ⟨same.1.symm, beqFields_iff.mpr fun entry member => ?_⟩
          have known := mem_keys_of_beqFields leftFormed.1 same.1 same.2
            (List.mem_map.mpr ⟨entry, member, rfl⟩)
          obtain ⟨mine, present, named⟩ := List.mem_map.mp known
          obtain ⟨value, found, equal⟩ := beqFields_iff.mp same.2 mine present
          have theirs : Assoc.get? mine.1 others = some entry.2 :=
            (Assoc.get?_eq_some_iff rightFormed.1).mpr (named ▸ member)
          cases found.symm.trans theirs
          refine ⟨mine.2, (Assoc.get?_eq_some_iff leftFormed.1).mpr (named ▸ present), ?_⟩
          exact ih mine present (formedFields_iff.mp leftFormed.2 mine present)
            (formedFields_iff.mp rightFormed.2 entry member) equal
      | _ => cases same

/-- Equality of values is transitive. -/
theorem beq_trans {left middle right : Value} (first : left.beq middle = true)
    (second : middle.beq right = true) : left.beq right = true := by
  induction left using Value.nested generalizing middle right with
  | null => cases middle <;> first | exact second | cases first
  | bool | string =>
      cases middle <;> first
      | cases first
      | rw [Value.beq, beq_iff_eq] at first
        rw [first]
        exact second
  | number =>
      cases middle <;> first
      | cases first
      | cases right <;> first | cases second | exact Number.beq_trans first second
  | array items ih =>
      cases middle with
      | array others =>
          cases right with
          | array last =>
              have lefts := beqItems_iff.mp first
              have rights := beqItems_iff.mp second
              refine beqItems_iff.mpr ?_
              clear first second
              induction lefts generalizing last with
              | nil => exact rights
              | cons equal _ inner =>
                  cases rights with
                  | cons same rest =>
                      exact .cons (ih _ List.mem_cons_self equal same)
                        (inner (fun item inside => ih item (List.mem_cons_of_mem _ inside)) _ rest)
          | _ => cases second
      | _ => cases first
  | object fields ih =>
      cases middle with
      | object others =>
          cases right with
          | object last =>
              simp only [Value.beq, Bool.and_eq_true, beq_iff_eq] at first second ⊢
              refine ⟨first.1.trans second.1, beqFields_iff.mpr fun entry member => ?_⟩
              obtain ⟨value, found, equal⟩ := beqFields_iff.mp first.2 entry member
              obtain ⟨other, present, same⟩ :=
                beqFields_iff.mp second.2 _ (Assoc.mem_of_get? found)
              exact ⟨other, present, ih entry member equal same⟩
          | _ => cases second
      | _ => cases first

end Value

end Sohara
