import Mathlib.Data.List.Basic
import Mathlib.Data.List.Induction

/-! # JSON values and records

The JSON data model: objects keep their fields in insertion order, numbers are
64-bit integers or binary64 floats. Records carry a payload, reached through
dotted paths, and string metadata.
-/

namespace Sohara

/-- Association lists with unique keys, in insertion order. -/
abbrev Assoc (V : Type) : Type := List (String × V)

namespace Assoc

variable {V : Type}

/-- The value under a key. -/
def get? (key : String) : Assoc V → Option V
  | [] => none
  | (name, value) :: rest => if name = key then some value else get? key rest

/-- Replaces the value under a key in place, or appends a new entry. -/
def insert (key : String) (value : V) : Assoc V → Assoc V
  | [] => [(key, value)]
  | (name, old) :: rest =>
      if name = key then (key, value) :: rest else (name, old) :: insert key value rest

/-- Removes an entry, leaving the others in their order. -/
def erase (key : String) (entries : Assoc V) : Assoc V :=
  entries.filter fun entry => entry.1 ≠ key

/-- Removes an entry by moving the last one into its place. -/
def swapRemove (key : String) (entries : Assoc V) : Assoc V :=
  match entries.findIdx? fun entry => entry.1 = key, entries.getLast? with
  | some index, some last => (entries.set index last).dropLast
  | _, _ => entries

@[simp] theorem get?_nil (key : String) : get? key ([] : Assoc V) = none := rfl

theorem get?_cons (key name : String) (value : V) (rest : Assoc V) :
    get? key ((name, value) :: rest) = if name = key then some value else get? key rest := rfl

theorem get?_insert (key other : String) (value : V) (entries : Assoc V) :
    get? other (insert key value entries) =
      if key = other then some value else get? other entries := by
  induction entries with
  | nil => rfl
  | cons entry rest ih =>
      obtain ⟨name, old⟩ := entry
      by_cases same : name = key
      · subst same
        simp only [insert, if_true, get?_cons]
        split <;> rfl
      · simp only [insert, if_neg same, get?_cons, ih]
        by_cases hit : name = other
        · rw [if_pos hit, if_neg fun equal => same (hit.trans equal.symm), if_pos hit]
        · rw [if_neg hit, if_neg hit]

@[simp] theorem get?_insert_self (key : String) (value : V) (entries : Assoc V) :
    get? key (insert key value entries) = some value := by
  rw [get?_insert, if_pos rfl]

theorem get?_insert_of_ne {key other : String} (different : key ≠ other) (value : V)
    (entries : Assoc V) : get? other (insert key value entries) = get? other entries := by
  rw [get?_insert, if_neg different]

theorem get?_eq_none {key : String} {entries : Assoc V} (absent : key ∉ entries.map Prod.fst) :
    get? key entries = none := by
  induction entries with
  | nil => rfl
  | cons entry rest ih =>
      obtain ⟨name, value⟩ := entry
      rw [List.map_cons, List.mem_cons, not_or] at absent
      rw [get?_cons, if_neg (Ne.symm absent.1)]
      exact ih absent.2

/-- A new key is appended. -/
theorem insert_of_absent {key : String} {entries : Assoc V} (value : V)
    (absent : key ∉ entries.map Prod.fst) :
    insert key value entries = entries ++ [(key, value)] := by
  induction entries with
  | nil => rfl
  | cons entry rest ih =>
      obtain ⟨name, old⟩ := entry
      rw [List.map_cons, List.mem_cons, not_or] at absent
      rw [insert, if_neg (Ne.symm absent.1), ih absent.2]
      rfl

/-- Entries written over others. -/
theorem get?_foldl_insert {source : Assoc V} (distinct : (source.map Prod.fst).Nodup)
    (target : Assoc V) (key : String) :
    get? key (source.foldl (fun entries entry => insert entry.1 entry.2 entries) target) =
      (get? key source).or (get? key target) := by
  induction source generalizing target with
  | nil => rfl
  | cons entry rest ih =>
      obtain ⟨name, value⟩ := entry
      rw [List.map_cons, List.nodup_cons] at distinct
      rw [List.foldl_cons, ih distinct.2, get?_insert, get?_cons]
      by_cases same : name = key
      · subst same
        have absent : get? name rest = none := get?_eq_none distinct.1
        rw [if_pos rfl, if_pos rfl, absent]
        rfl
      · rw [if_neg same, if_neg same]

theorem get?_erase (key other : String) (entries : Assoc V) :
    get? other (erase key entries) = if key = other then none else get? other entries := by
  induction entries with
  | nil => simp [erase]
  | cons entry rest ih =>
      obtain ⟨name, value⟩ := entry
      unfold erase at ih ⊢
      by_cases same : name = key
      · subst same
        rw [List.filter_cons_of_neg (by simp), ih, get?_cons]
        split <;> rfl
      · rw [List.filter_cons_of_pos (by simpa using same), get?_cons, get?_cons, ih]
        by_cases hit : name = other
        · rw [if_pos hit, if_pos hit, if_neg fun equal => same (hit.trans equal.symm)]
        · rw [if_neg hit, if_neg hit]

/-- Inserting under an erased key and erasing it again changes nothing. -/
theorem erase_insert (key : String) (value : V) (entries : Assoc V) :
    erase key (insert key value entries) = erase key entries := by
  induction entries with
  | nil => simp [insert, erase]
  | cons entry rest ih =>
      obtain ⟨name, old⟩ := entry
      unfold erase at ih ⊢
      by_cases same : name = key
      · subst same
        simp [insert]
      · simp only [insert, if_neg same]
        rw [List.filter_cons_of_pos (by simpa using same),
          List.filter_cons_of_pos (by simpa using same), ih]

/-- Changes every value. -/
def mapValues {W : Type} (change : V → W) (entries : Assoc V) : Assoc W :=
  entries.map fun entry => (entry.1, change entry.2)

@[simp] theorem get?_mapValues {W : Type} (change : V → W) (entries : Assoc V) (key : String) :
    get? key (mapValues change entries) = (get? key entries).map change := by
  induction entries with
  | nil => rfl
  | cons entry rest ih =>
      obtain ⟨name, value⟩ := entry
      unfold mapValues at ih ⊢
      rw [List.map_cons, get?_cons, get?_cons, ih]
      split <;> rfl

theorem keys_mapValues {W : Type} {change : V → W} {entries : Assoc V} :
    (mapValues change entries).map Prod.fst = entries.map Prod.fst := by
  unfold mapValues
  rw [List.map_map]
  rfl

section Listing

variable {key : String} {value : V} {entries : List (String × V)}

/-- The map with the entries of a list; a later one replaces an earlier one of its key. -/
def ofList (entries : List (String × V)) : Assoc V :=
  entries.foldl (fun map entry => insert entry.1 entry.2 map) []

theorem get?_ofList_append (entries : List (String × V)) (entry : String × V) :
    get? key (ofList (entries ++ [entry])) =
      if entry.1 = key then some entry.2 else get? key (ofList entries) := by
  unfold ofList
  rw [List.foldl_append]
  exact get?_insert ..

theorem mem_of_get?_ofList (present : get? key (ofList entries) = some value) :
    (key, value) ∈ entries := by
  induction entries using List.reverseRecOn with
  | nil => cases present
  | append_singleton earlier last ih =>
      rw [get?_ofList_append] at present
      by_cases here : last.1 = key
      · rw [if_pos here] at present
        cases present
        rw [← here]
        exact List.mem_append_right _ List.mem_cons_self
      · rw [if_neg here] at present
        exact List.mem_append_left _ (ih present)

theorem isSome_get?_ofList (member : (key, value) ∈ entries) :
    (get? key (ofList entries)).isSome = true := by
  induction entries using List.reverseRecOn with
  | nil => cases member
  | append_singleton earlier last ih =>
      rw [get?_ofList_append]
      by_cases here : last.1 = key
      · rw [if_pos here]
        rfl
      · rw [if_neg here]
        rcases List.mem_append.mp member with inside | new
        · exact ih inside
        · rw [← List.mem_singleton.mp new] at here
          exact absurd rfl here

/-- A list of entries of a map, one at least for each key, makes the map again. -/
theorem get?_ofList_of_entries {map : Assoc V}
    (sound : ∀ key value, (key, value) ∈ entries → get? key map = some value)
    (complete : ∀ key value, get? key map = some value → (key, value) ∈ entries) (key : String) :
    get? key (ofList entries) = get? key map := by
  cases found : get? key (ofList entries) with
  | some value => exact (sound key value (mem_of_get?_ofList found)).symm
  | none =>
      cases present : get? key map with
      | none => rfl
      | some value =>
          have listed := isSome_get?_ofList (complete key value present)
          rw [found] at listed
          cases listed

/-- Changing the listed values changes those of the map. -/
theorem get?_ofList_mapValues {W : Type} (change : V → W) :
    get? key (ofList (mapValues change entries)) = (get? key (ofList entries)).map change := by
  induction entries using List.reverseRecOn with
  | nil => rfl
  | append_singleton earlier last ih =>
      have appended : mapValues change (earlier ++ [last]) =
          mapValues change earlier ++ [(last.1, change last.2)] := List.map_append
      rw [appended, get?_ofList_append, get?_ofList_append, ih]
      split <;> rfl

end Listing

end Assoc

/-- A binary64 floating-point number, as its bit pattern. -/
abbrev F64 : Type := UInt64

/-- A JSON number: an unsigned or a negative 64-bit integer, or a finite float. -/
inductive Number where
  | posInt (value : Nat)
  | negInt (value : Int)
  | float (bits : F64)
  deriving DecidableEq, Repr

/-- A JSON value. -/
inductive Value where
  | null
  | bool (value : Bool)
  | number (value : Number)
  | string (text : String)
  | array (items : List Value)
  | object (fields : List (String × Value))
  deriving Repr, Inhabited

/-- The fields of an object. -/
abbrev Fields : Type := Assoc Value

namespace Number

/-- The number of a signed 64-bit integer. -/
def ofInt (value : Int) : Number :=
  if value < 0 then .negInt value else .posInt value.toNat

/-- Numeric equality within a representation; the two float zeros are equal. -/
protected def beq : Number → Number → Bool
  | .posInt left, .posInt right => left == right
  | .negInt left, .negInt right => left == right
  | .float left, .float right => left == right || (left <<< 1 == 0 && right <<< 1 == 0)
  | _, _ => false

end Number

namespace Value

/-- The fields of an object value. -/
def asObject? : Value → Option Fields
  | .object fields => some fields
  | _ => none

/-- The items of an array value. -/
def asArray? : Value → Option (List Value)
  | .array items => some items
  | _ => none

/-- The text of a string value. -/
def asStr? : Value → Option String
  | .string text => some text
  | _ => none

@[simp] theorem asArray?_array (items : List Value) : asArray? (.array items) = some items := rfl

mutual

/-- JSON equality; the order of object fields does not matter. -/
protected def beq : Value → Value → Bool
  | .null, .null => true
  | .bool left, .bool right => left == right
  | .number left, .number right => left.beq right
  | .string left, .string right => left == right
  | .array left, .array right => Value.beqItems left right
  | .object left, .object right => left.length == right.length && Value.beqFields left right
  | _, _ => false

/-- Equality of arrays, item by item. -/
protected def beqItems : List Value → List Value → Bool
  | [], [] => true
  | left :: lefts, right :: rights => Value.beq left right && Value.beqItems lefts rights
  | _, _ => false

/-- Every field on the left has an equal field on the right. -/
protected def beqFields : List (String × Value) → List (String × Value) → Bool
  | [], _ => true
  | (name, value) :: rest, fields =>
      (match Assoc.get? name fields with
        | some other => Value.beq value other
        | none => false) && Value.beqFields rest fields

end

end Value

/-- Whether a character is Unicode white space. -/
def isWhitespace (char : Char) : Bool :=
  let code := char.toNat
  (0x09 ≤ code && code ≤ 0x0D) || code == 0x20 || code == 0x85 || code == 0xA0 ||
    code == 0x1680 || (0x2000 ≤ code && code ≤ 0x200A) || code == 0x2028 || code == 0x2029 ||
    code == 0x202F || code == 0x205F || code == 0x3000

/-- The segments of a dotted path. -/
def splitDots : List Char → List (List Char)
  | [] => [[]]
  | char :: rest =>
      match splitDots rest with
      | [] => [[char]]
      | segment :: segments =>
          if char = '.' then [] :: segment :: segments else (char :: segment) :: segments

/-- The segments of a dotted path, as strings. -/
def pathSegments (path : String) : List String :=
  (splitDots path.toList).map String.ofList

/-- Follows segments through nested objects. -/
def getPath (root : Value) : List String → Option Value
  | [] => some root
  | segment :: rest => do
      let fields ← root.asObject?
      getPath (← Assoc.get? segment fields) rest

/-- Inserts a value below an object at a non-empty path, creating missing objects;
a value on the way that is not an object is left alone. -/
def insertAt (root : Value) (value : Value) : List String → Value
  | [] => root
  | [last] =>
      match root with
      | .object fields => .object (Assoc.insert last value fields)
      | other => other
  | segment :: rest =>
      match root with
      | .object fields =>
          let child := (Assoc.get? segment fields).getD (.object [])
          .object (Assoc.insert segment (insertAt child value rest) fields)
      | other => other

/-- Inserts a value at a dotted path; a root that is not an object is replaced. -/
def setPath (root : Value) (path : String) (value : Value) : Value :=
  let root := match root with
    | .object fields => .object fields
    | _ => .object []
  insertAt root value (pathSegments path)

/-- Metadata entries of a record. -/
abbrev Metadata : Type := Assoc String

/-- A record that flows through the graph. -/
structure Record where
  id : String
  timestamp : Int
  payload : Value
  metadata : Metadata
  deriving Repr, Inhabited

namespace Record

/-- The field at a dotted path. -/
def get (record : Record) (path : String) : Option Value :=
  getPath record.payload (pathSegments path)

/-- Sets the field at a dotted path. -/
def set (record : Record) (path : String) (value : Value) : Record :=
  { record with payload := setPath record.payload path value }

/-- The payload as a JSON value. -/
def toJson (record : Record) : Value := record.payload

@[simp] theorem metadata_set (record : Record) (path : String) (value : Value) :
    (record.set path value).metadata = record.metadata := rfl

@[simp] theorem payload_set (record : Record) (path : String) (value : Value) :
    (record.set path value).payload = setPath record.payload path value := rfl

end Record

example : (Record.mk "r" 0 (.object []) []).set "a.b" .null =
    ⟨"r", 0, .object [("a", .object [("b", .null)])], []⟩ := rfl

end Sohara
