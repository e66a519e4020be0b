import Mathlib.Algebra.Order.Ring.Int
import Mathlib.Data.List.Infix
import Sohara.Core.Control

/-! # Transform steps

What the built-in transforms make of a record: filters, maps, added fields, assertions, and
scripts. What may differ between two applications of a step, and what the script engine
answers, belongs to the application.
-/

namespace Sohara

/-- A value as the script engine returns it. -/
inductive JsValue where
  | undefined
  | null
  | bool (flag : Bool)
  | int (number : Int)
  | float (number : F64)
  | string (text : String)
  | array (items : List JsValue)
  | object (fields : List (String × JsValue))
  /-- Dates and big integers. -/
  | other
  deriving Inhabited

section Conversion

/-- A number as a signed 64-bit integer. -/
def Number.asI64 : Number → Option Int
  | .posInt value => if value < 2 ^ 63 then some value else none
  | .negInt value => some value
  | .float _ => none

/-- An integer of 32 bits. -/
def toI32 (value : Int) : Option Int :=
  if -2 ^ 31 ≤ value ∧ value < 2 ^ 31 then some value else none

variable (platform : Platform) (hash : HashOrder)

/-- A number for the script engine. -/
def numberToJs (number : Number) : JsValue :=
  match number.asI64.bind toI32 with
  | some value => .int value
  | none => .float (number.asF64 platform)

mutual

/-- A JSON value for the script engine; its objects are hash maps. -/
def valueToJs : Value → JsValue
  | .null => .null
  | .bool flag => .bool flag
  | .number number => numberToJs platform number
  | .string text => .string text
  | .array items => .array (itemsToJs items)
  | .object fields => .object ((fieldsToJs fields []).listing hash)

/-- The items of an array for the script engine. -/
def itemsToJs : List Value → List JsValue
  | [] => []
  | item :: rest => valueToJs item :: itemsToJs rest

/-- The fields of an object for the script engine, added to those already collected. -/
def fieldsToJs : List (String × Value) → Assoc JsValue → Assoc JsValue
  | [], collected => collected
  | (name, value) :: rest, collected =>
      fieldsToJs rest (Assoc.insert name (valueToJs value) collected)

end

end Conversion

/-- What an entry is called with: the own fields of the wrapped record, and the record whose id,
timestamp and metadata its prototype shows. -/
structure ScriptRecord where
  fields : List (String × JsValue)
  recordMeta : Record

/-- The script engine in one invocation: the context that is set up, the evaluation of the
script, the call of its entry with the state that is synced after it, and the payloads found in
the emit buffer after the call (none when the buffer is poisoned). -/
structure QuickJs where
  /-- The order in which the engine gets the fields of an object. -/
  hash : HashOrder
  setupContext : Except Error Unit
  runScript : String → Except Error Unit
  /-- What an entry returns, or the exception that is thrown. -/
  entry : String → ScriptRecord → Except String JsValue
  /-- The exception of an assignment to a member that has no setter. -/
  noSetter : String → String
  /-- The text of a single unit of UTF-16. -/
  unit : Nat → JsValue
  emitted : String → String → Record → Option (List Value)

section Wrapping

/-- The members of the prototype of records that have no setter. -/
def recordGetters : List String := ["id", "timestamp", "schema", "metadata"]

/-- The units of UTF-16 of a character. -/
def utf16Units (char : Char) : List Nat :=
  if char.toNat < 0x10000 then [char.toNat]
  else [0xD800 + (char.toNat - 0x10000) / 0x400, 0xDC00 + (char.toNat - 0x10000) % 0x400]

/-- Values under their indexes. -/
def indexed (items : List JsValue) : List (String × JsValue) :=
  items.zipIdx.map fun entry => (toString entry.2, entry.1)

/-- A record that is being wrapped: its own fields, and whether its prototype is still that of
records. -/
structure Wrapping where
  fields : Assoc JsValue
  isRecord : Bool

variable (quickJs : QuickJs)

/-- The own enumerable fields of a value. -/
def ownFields : JsValue → List (String × JsValue)
  | .string text => indexed ((text.toList.flatMap utf16Units).map quickJs.unit)
  | .array items => indexed items
  | .object fields => fields
  | _ => []

/-- Assigns one field. The key of the prototype sets that, to an object or to `null` only. -/
def Wrapping.assign (wrapping : Wrapping) (entry : String × JsValue) : Except String Wrapping :=
  if entry.1 = "__proto__" then
    match entry.2 with
    | .null | .array _ | .object _ => .ok { wrapping with isRecord := false }
    | _ => .ok wrapping
  else if wrapping.isRecord && recordGetters.contains entry.1 then
    .error (quickJs.noSetter entry.1)
  else .ok { wrapping with fields := wrapping.fields.insert entry.1 entry.2 }

/-- The own fields of the record around a payload; `__meta` is not enumerable. -/
def wrapRecord (payload : JsValue) : Except String (List (String × JsValue)) := do
  let wrapped ← (ownFields quickJs payload).foldlM (Wrapping.assign quickJs) ⟨[], true⟩
  return wrapped.fields.erase "__meta"

/-- An exception as an error. -/
def jsError (context exception : String) : Error := .transform (context ++ ": " ++ exception)

/-- Calls the entry of a script with the wrapped record. -/
def QuickJs.callTransform (platform : Platform) (entry : String) (record : Record) :
    Except Error JsValue :=
  Except.mapError (jsError "script entry (__call2)") do
    let fields ← wrapRecord quickJs (valueToJs platform quickJs.hash record.payload)
    quickJs.entry entry ⟨fields, record⟩

end Wrapping

/-- What the environment answers in one application of a transform. -/
structure Application where
  /-- The draws of each evaluated expression. -/
  draws : Nat → Draws
  /-- The id of each new record. -/
  id : Nat → String
  timestamp : Nat → Int
  quickJs : QuickJs

/-- The records of a transform outcome. -/
def TransformOutcome.records : TransformOutcome → List Record
  | .pass record => [record]
  | .filtered => []
  | .expand records => records
  | .fail _ => []

section Declarative

variable (platform : Platform) (application : Application)

/-- Evaluates an expression of a step. -/
def evaluate (number : Nat) (vars : Fields) (expr : Expr) (value : Value) : Except Error Value :=
  match eval platform (application.draws number) ⟨vars⟩ expr [] value with
  | .ok value => .ok value
  | .error failure => .error (.expression failure.text)

/-- Keeps the records a `where` expression holds of. -/
structure FilterStep where
  expr : Option Expr
  invert : Bool
  vars : Fields

/-- Whether the `where` expression holds of a record. -/
def FilterStep.passed (step : FilterStep) (record : Record) : Except Error Bool :=
  match step.expr with
  | none => .ok true
  | some expr => do
      let value ← evaluate platform application 0 step.vars expr record.payload
      return isTruthy value

/-- Applies a filter. -/
def FilterStep.transform (step : FilterStep) (record : Record) : Except Error TransformOutcome := do
  let passed ← step.passed platform application record
  return if passed ≠ step.invert then .pass record else .filtered

/-- Computes fields from expressions, and projects on some of them. -/
structure MapStep where
  exprs : List (String × Expr)
  project : Option (List String)
  vars : Fields

/-- Sets the computed fields, each seen by the ones after it. -/
def MapStep.compute (vars : Fields) : Nat → List (String × Expr) → Record → Except Error Record
  | _, [], record => .ok record
  | number, (field, expr) :: rest, record => do
      let value ← evaluate platform application number vars expr record.payload
      compute vars (number + 1) rest (record.set field value)

/-- Keeps the listed fields of a payload. -/
def MapStep.projected (fields : List String) (record : Record) : Record :=
  let object := fields.foldl (fun (object : Fields) field =>
    match record.get field with
    | some value => Assoc.insert field value object
    | none => object) []
  { record with payload := .object object }

/-- Applies a map. -/
def MapStep.transform (step : MapStep) (record : Record) : Except Error TransformOutcome := do
  let record ← MapStep.compute platform application step.vars 0 step.exprs record
  match step.project with
  | some fields => return .pass (MapStep.projected fields record)
  | none => return .pass record

/-- Sets a constant field. -/
structure AddFieldTransform where
  field : String
  value : Value

/-- Adds the field. -/
def AddFieldTransform.transform (step : AddFieldTransform) (record : Record) :
    Except Error TransformOutcome :=
  .ok (.pass (record.set step.field step.value))

end Declarative

section Assertions

/-- A check of one field. -/
inductive Check where
  | eq (expected : Value)
  | neq (expected : Value)
  | gt (threshold : F64)
  | gte (threshold : F64)
  | lt (threshold : F64)
  | lte (threshold : F64)
  | exists_
  | notNull
  | null
  | in_ (expected : List Value)
  | contains (needle : Value)

/-- A field and its check. -/
structure Assertion where
  field : String
  check : Check
  message : Option String

/-- What a failed assertion does with the record. -/
inductive AssertOnFail where
  | fail
  | filter
  deriving DecidableEq

/-- Validates records against assertions. -/
structure AssertTransform where
  assertions : List Assertion
  onFail : AssertOnFail

namespace Value

/-- Whether the value is `null`. -/
def isNull : Value → Bool
  | .null => true
  | _ => false

end Value

variable (platform : Platform)

/-- Whether the value is a number, or text of one, in the given order to a threshold. -/
def isOrdered (holds : Ordering → Bool) (threshold : F64) (value : Option Value) : Bool :=
  match value.bind (numeric? platform) with
  | some number => (platform.partialCmp number threshold).any holds
  | none => false

/-- Whether a check holds of a field. -/
def AssertTransform.checkValue (check : Check) (value : Option Value) : Bool :=
  match check with
  | .exists_ => value.isSome
  | .notNull => value.any fun value => !value.isNull
  | .eq expected => value.any fun value => value.beq expected
  | .neq expected => value.any fun value => !value.beq expected
  | .gt threshold => isOrdered platform Ordering.isGT threshold value
  | .gte threshold => isOrdered platform Ordering.isGE threshold value
  | .lt threshold => isOrdered platform Ordering.isLT threshold value
  | .lte threshold => isOrdered platform Ordering.isLE threshold value
  | .null => value.any Value.isNull
  | .in_ expected => value.any fun value => expected.any fun item => item.beq value
  | .contains needle =>
      match value, needle with
      | some (.string text), .string needle => decide (needle.toList <:+: text.toList)
      | some (.array items), _ => items.any fun item => item.beq needle
      | _, _ => false

variable (debug : Check → String)

/-- The outcome of a failed assertion; `debug` is the debug text of a check. -/
def AssertTransform.failedOutcome (step : AssertTransform) (assertion : Assertion) :
    TransformOutcome :=
  let message := assertion.message.getD
    ("assertion failed: field '" ++ assertion.field ++ "' check '" ++ debug assertion.check ++ "'")
  match step.onFail with
  | .fail => .fail (.assertion message)
  | .filter => .filtered

/-- Applies assertions, up to the first that fails. -/
def AssertTransform.validate (step : AssertTransform) (record : Record) :
    List Assertion → TransformOutcome
  | [] => .pass record
  | assertion :: rest =>
      if AssertTransform.checkValue platform assertion.check (record.get assertion.field) then
        validate step record rest
      else step.failedOutcome debug assertion

/-- Applies an assertion step. -/
def AssertTransform.transform (step : AssertTransform) (record : Record) :
    Except Error TransformOutcome :=
  .ok (step.validate platform debug record step.assertions)

end Assertions

section Scripts

variable (platform : Platform) (application : Application)

mutual

/-- A script value as JSON; a float that is not finite becomes `null`. -/
def jsToValue : JsValue → Value
  | .undefined => .null
  | .null => .null
  | .bool flag => .bool flag
  | .int number => .number (Number.ofInt number)
  | .float number => if platform.isFinite number then .number (.float number) else .null
  | .string text => .string text
  | .array items => .array (jsToItems items)
  | .object fields => .object (jsToFields fields [])
  | .other => .null

/-- The items of a script array. -/
def jsToItems : List JsValue → List Value
  | [] => []
  | item :: rest => jsToValue item :: jsToItems rest

/-- The fields of a script object, added to those already collected. -/
def jsToFields : List (String × JsValue) → Fields → Fields
  | [], collected => collected
  | (name, value) :: rest, collected =>
      jsToFields rest (Assoc.insert name (jsToValue value) collected)

end

/-- A new record around a payload. -/
def Record.new (number : Nat) (data : Value) : Record where
  id := application.id number
  timestamp := application.timestamp number
  payload := data
  metadata := []

/-- New records around payloads, numbered from the given one. -/
def Record.newAll (first : Nat) (payloads : List Value) : List Record :=
  (payloads.zipIdx first).map fun entry => Record.new application entry.2 entry.1

/-- A returned script value as an outcome. -/
def outcomeFromJs (result : JsValue) : Except Error TransformOutcome :=
  match result with
  | .undefined => .ok .filtered
  | .null => .ok .filtered
  | result =>
      match jsToValue platform result with
      | .array items => .ok (.expand (Record.newAll application 0 items))
      | value => .ok (.pass (Record.new application 0 value))

/-- Adds the emitted records to an outcome. -/
def mergeEmitted (emitted : Option (List Value)) (outcome : TransformOutcome) :
    Except Error TransformOutcome :=
  match emitted with
  | none => .error (.runtime "emit buffer poisoned")
  | some [] => .ok outcome
  | some emitted =>
      let records := Record.newAll application outcome.records.length emitted
      match outcome with
      | .expand items => .ok (.expand (items ++ records))
      | .pass record => .ok (.expand (record :: records))
      | .filtered => .ok (.expand records)
      | other => .ok other

/-- Runs a script for every record. -/
structure ScriptStep where
  source : String
  entry : String

/-- What the entry of a script returns. -/
def ScriptStep.invoke (step : ScriptStep) (record : Record) : Except Error JsValue := do
  application.quickJs.setupContext
  application.quickJs.runScript step.source
  application.quickJs.callTransform platform step.entry record

/-- Applies a script. -/
def ScriptStep.transform (step : ScriptStep) (record : Record) :
    Except Error TransformOutcome := do
  let result ← step.invoke platform application record
  mergeEmitted application (application.quickJs.emitted step.source step.entry record)
    (← outcomeFromJs platform application result)

end Scripts

/-- A transform step. -/
inductive TransformStep where
  | filter (step : FilterStep)
  | map (step : MapStep)
  | addField (step : AddFieldTransform)
  | assert (step : AssertTransform)
  | script (step : ScriptStep)

/-- Applies a transform step to a record. -/
def TransformStep.transform (platform : Platform) (debug : Check → String)
    (application : Application) (step : TransformStep) (record : Record) :
    Except Error TransformOutcome :=
  match step with
  | .filter step => step.transform platform application record
  | .map step => step.transform platform application record
  | .addField step => step.transform record
  | .assert step => step.transform platform debug record
  | .script step => step.transform platform application record

end Sohara
