import Sohara.Core.Value

/-! # Expressions

The expression language of guards and computed fields, evaluated against a JSON
value. Floating-point arithmetic, the process environment, the clock and the
generator of unique ids belong to the platform: `Platform` holds what stays the
same for the life of a process, `Draws` what may differ between evaluations.
-/

namespace Sohara

/-- Comparison operators. -/
inductive CmpOp where
  | eq
  | neq
  | gt
  | gte
  | lt
  | lte
  deriving DecidableEq, Repr

/-- A parsed expression. -/
inductive Expr where
  | lit (value : Value)
  | path (segments : List String)
  | list (items : List Expr)
  | not (inner : Expr)
  | and (lhs rhs : Expr)
  | or (lhs rhs : Expr)
  | cmp (op : CmpOp) (lhs rhs : Expr)
  | member (item list : Expr)
  | add (lhs rhs : Expr)
  | sub (lhs rhs : Expr)
  | mul (lhs rhs : Expr)
  | div (lhs rhs : Expr)
  | rem (lhs rhs : Expr)
  | call (name : String) (args : List Expr)
  deriving Repr

/-- Errors of parsing or evaluating an expression. -/
inductive ExprError where
  | parse (message : String)
  | eval (message : String)
  deriving DecidableEq, Repr

namespace ExprError

/-- The displayed error. -/
def text : ExprError → String
  | .parse message => "expression parse error: " ++ message
  | .eval message => "expression evaluation error: " ++ message

end ExprError

/-- What the language runtime and the operating system supply: binary64
arithmetic and its text form, environment variables, and the standard hasher. -/
structure Platform where
  ofInt : Int → F64
  add : F64 → F64 → F64
  sub : F64 → F64 → F64
  mul : F64 → F64 → F64
  div : F64 → F64 → F64
  rem : F64 → F64 → F64
  abs : F64 → F64
  fract : F64 → F64
  isFinite : F64 → Bool
  partialCmp : F64 → F64 → Option Ordering
  /-- Truncation to a signed 64-bit integer, saturating. -/
  toI64 : F64 → Int
  /-- The number a trimmed text denotes. -/
  parse : String → Option F64
  display : F64 → String
  getenv : String → Option String
  hash : String → UInt64

/-- The position of a call in an expression. -/
abbrev Site : Type := List Nat

/-- The results of `now()` and `uuid()` at every call of one evaluation. -/
structure Draws where
  now : Site → String
  uuid : Site → String

/-- Runtime context for expression evaluation. -/
structure EvalContext where
  vars : Fields

/-- JSON-style truthiness: `false` and `null` are falsy. -/
def isTruthy : Value → Bool
  | .bool false => false
  | .null => false
  | _ => true

section Text

/-- A hexadecimal digit. -/
def hexDigit (digit : Nat) : Char :=
  if digit < 10 then Char.ofNat ('0'.toNat + digit) else Char.ofNat ('a'.toNat + digit - 10)

/-- A character inside a JSON string. -/
def escapeChar (char : Char) : List Char :=
  match char.toNat with
  | 0x22 => ['\\', '"']
  | 0x5C => ['\\', '\\']
  | 0x08 => ['\\', 'b']
  | 0x0C => ['\\', 'f']
  | 0x0A => ['\\', 'n']
  | 0x0D => ['\\', 'r']
  | 0x09 => ['\\', 't']
  | code =>
      if code < 0x20 then ['\\', 'u', '0', '0', hexDigit (code / 16), hexDigit (code % 16)]
      else [char]

/-- A JSON string literal. -/
def quote (text : String) : String :=
  "\"" ++ String.ofList (text.toList.flatMap escapeChar) ++ "\""

/-- A displayed number. -/
def Number.text (platform : Platform) : Number → String
  | .posInt value => toString value
  | .negInt value => toString value
  | .float bits => platform.display bits

mutual

/-- A value as compact JSON text. -/
def Value.text (platform : Platform) : Value → String
  | .null => "null"
  | .bool value => if value then "true" else "false"
  | .number value => value.text platform
  | .string text => quote text
  | .array items => "[" ++ Value.itemsText platform items ++ "]"
  | .object fields => "\x7b" ++ Value.fieldsText platform fields ++ "\x7d"

/-- Array items, separated by commas. -/
def Value.itemsText (platform : Platform) : List Value → String
  | [] => ""
  | [item] => item.text platform
  | item :: rest => item.text platform ++ "," ++ Value.itemsText platform rest

/-- Object fields, separated by commas. -/
def Value.fieldsText (platform : Platform) : List (String × Value) → String
  | [] => ""
  | [(name, value)] => quote name ++ ":" ++ value.text platform
  | (name, value) :: rest =>
      quote name ++ ":" ++ value.text platform ++ "," ++ Value.fieldsText platform rest

end

end Text

section Numbers

variable (platform : Platform)

/-- A number as a float. -/
def Number.asF64 : Number → F64
  | .posInt value => platform.ofInt value
  | .negInt value => platform.ofInt value
  | .float bits => bits

/-- Numbers, and strings that denote one, as floats. -/
def numeric? : Value → Option F64
  | .number value => some (value.asF64 platform)
  | .string text => platform.parse text
  | _ => none

/-- Coerces a value to a number. -/
def toNumber (value : Value) : Except ExprError F64 :=
  match value with
  | .number value => .ok (value.asF64 platform)
  | .string text =>
      match platform.parse text with
      | some number => .ok number
      | none => .error (.eval ("'" ++ text ++ "' is not a number"))
  | other => .error (.eval (other.text platform ++ " is not a number"))

/-- Coerces both sides to numbers when either side is numeric. -/
def numericPair (lhs rhs : Value) : Except ExprError (Option (F64 × F64)) :=
  if (numeric? platform lhs).isNone && (numeric? platform rhs).isNone then .ok none
  else do
    let left ← toNumber platform lhs
    let right ← toNumber platform rhs
    return some (left, right)

/-- Compares two values. -/
def compareValues (op : CmpOp) (lhs rhs : Value) : Except ExprError Value := do
  let ordering := match ← numericPair platform lhs rhs with
    | some (left, right) => platform.partialCmp left right
    | none =>
        match lhs, rhs with
        | .string left, .string right => some (compare left right)
        | _, _ => none
  match op, ordering with
  | .eq, some ordering => return .bool ordering.isEq
  | .eq, none => return .bool (lhs.beq rhs)
  | .neq, some ordering => return .bool (!ordering.isEq)
  | .neq, none => return .bool (!lhs.beq rhs)
  | .gt, some ordering => return .bool ordering.isGT
  | .gte, some ordering => return .bool ordering.isGE
  | .lt, some ordering => return .bool ordering.isLT
  | .lte, some ordering => return .bool ordering.isLE
  | _, none =>
      .error (.eval ("cannot compare " ++ lhs.text platform ++ " and " ++ rhs.text platform))

/-- A value as plain text. -/
def asText : Value → String
  | .string text => text
  | .null => ""
  | .bool value => if value then "true" else "false"
  | .number value => value.text platform
  | other => other.text platform

/-- Arithmetic operators. -/
inductive Arith where
  | add
  | sub
  | mul
  | div
  | rem

/-- The float operation of an operator. -/
def Arith.apply : Arith → F64 → F64 → F64
  | .add => platform.add
  | .sub => platform.sub
  | .mul => platform.mul
  | .div => platform.div
  | .rem => platform.rem

/-- The bit pattern of `9.0e15`. -/
def smallIntegers : F64 := 0x433FF973CAFA8000

/-- Arithmetic on two values; addition concatenates when a side is a string. -/
def arith (op : Arith) (left right : Value) : Except ExprError Value :=
  match op, left.asStr?, right.asStr? with
  | .add, some _, _ => .ok (.string (asText platform left ++ asText platform right))
  | .add, _, some _ => .ok (.string (asText platform left ++ asText platform right))
  | _, _, _ => do
      let a ← toNumber platform left
      let b ← toNumber platform right
      let result := op.apply platform a b
      if !platform.isFinite result then
        .error (.eval "arithmetic result is not finite")
      else if platform.partialCmp (platform.fract result) 0 = some .eq ∧
          platform.partialCmp (platform.abs result) smallIntegers = some .lt then
        .ok (.number (Number.ofInt (platform.toI64 result)))
      else
        .ok (.number (.float result))

/-- The length of a value. -/
def len : Value → Except ExprError Nat
  | .string text => .ok text.length
  | .array items => .ok items.length
  | .object fields => .ok fields.length
  | .null => .ok 0
  | other => .error (.eval ("len() not defined for " ++ other.text platform))

end Numbers

section Evaluation

variable (platform : Platform) (draws : Draws) (ctx : EvalContext)

/-- Follows a field path from the record. -/
def resolvePath : Value → List String → Except ExprError Value
  | current, [] => .ok current
  | current, segment :: rest =>
      match current.asObject?.bind (Assoc.get? segment) with
      | some next => resolvePath next rest
      | none => .error (.eval ("field '" ++ segment ++ "' not found"))

/-- The argument of a one-argument function: the last one given. -/
def oneArg (values : List Value) : Except ExprError Value :=
  match values.getLast? with
  | some value => .ok value
  | none => .error (.eval "function expects an argument")

/-- A function call on evaluated arguments. -/
def callWith (site : Site) (name : String) (values : List Value) : Except ExprError Value :=
  match name with
  | "int" => do
      let number ← toNumber platform (← oneArg values)
      return .number (Number.ofInt (platform.toI64 number))
  | "float" => do
      let number ← toNumber platform (← oneArg values)
      return if platform.isFinite number then .number (.float number) else .null
  | "str" => do return .string (asText platform (← oneArg values))
  | "len" => do return .number (.posInt (← len platform (← oneArg values)))
  | "now" =>
      if values.isEmpty then .ok (.string (draws.now site))
      else .error (.eval "now() takes no arguments")
  | "uuid" =>
      if values.isEmpty then .ok (.string (draws.uuid site))
      else .error (.eval "uuid() takes no arguments")
  | "env" => do
      match ← oneArg values with
      | .string name =>
          match platform.getenv name with
          | some text => return .string text
          | none => .error (.eval ("environment variable '" ++ name ++ "' not set"))
      | other => .error (.eval ("env() expects a string, got " ++ other.text platform))
  | "var" => do
      match ← oneArg values with
      | .string name =>
          match ctx.vars.get? name with
          | some value => return value
          | none => .error (.eval ("flow variable '" ++ name ++ "' not set"))
      | other => .error (.eval ("var() expects a string, got " ++ other.text platform))
  | other => .error (.eval ("unknown function '" ++ other ++ "'"))

mutual

/-- Evaluates an expression against a record payload. -/
def eval : Expr → Site → Value → Except ExprError Value
  | .lit value, _, _ => .ok value
  | .path segments, _, record => resolvePath record segments
  | .list items, site, record => do return .array (← evalAll items site record)
  | .not inner, site, record => do
      return .bool (!isTruthy (← eval inner (0 :: site) record))
  | .and lhs rhs, site, record => do
      if isTruthy (← eval lhs (0 :: site) record) then
        return .bool (isTruthy (← eval rhs (1 :: site) record))
      else return .bool false
  | .or lhs rhs, site, record => do
      if isTruthy (← eval lhs (0 :: site) record) then return .bool true
      else return .bool (isTruthy (← eval rhs (1 :: site) record))
  | .cmp op lhs rhs, site, record => do
      let left ← eval lhs (0 :: site) record
      let right ← eval rhs (1 :: site) record
      compareValues platform op left right
  | .member item list, site, record => do
      let needle ← eval item (0 :: site) record
      match ← eval list (1 :: site) record with
      | .array values => return .bool (values.any fun value => value.beq needle)
      | other => .error (.eval
          ("right side of 'in' must be a list, got " ++ other.text platform))
  | .add lhs rhs, site, record => do
      arith platform .add (← eval lhs (0 :: site) record) (← eval rhs (1 :: site) record)
  | .sub lhs rhs, site, record => do
      arith platform .sub (← eval lhs (0 :: site) record) (← eval rhs (1 :: site) record)
  | .mul lhs rhs, site, record => do
      arith platform .mul (← eval lhs (0 :: site) record) (← eval rhs (1 :: site) record)
  | .div lhs rhs, site, record => do
      arith platform .div (← eval lhs (0 :: site) record) (← eval rhs (1 :: site) record)
  | .rem lhs rhs, site, record => do
      arith platform .rem (← eval lhs (0 :: site) record) (← eval rhs (1 :: site) record)
  | .call name args, site, record => do
      callWith platform draws ctx site name (← evalAll args site record)

/-- Evaluates a list of expressions, up to the first error. -/
def evalAll : List Expr → Site → Value → Except ExprError (List Value)
  | [], _, _ => .ok []
  | item :: rest, site, record => do
      let value ← eval item (rest.length :: site) record
      return value :: (← evalAll rest site record)

end

end Evaluation

namespace Expr

/-- The value of the expression does not depend on the clock or on drawn ids. -/
def Deterministic (platform : Platform) (expr : Expr) : Prop :=
  ∀ (ctx : EvalContext) (record : Value) (first second : Draws),
    eval platform first ctx expr [] record = eval platform second ctx expr [] record

mutual

/-- No call of `now` or `uuid` occurs in the expression. -/
def drawFree : Expr → Bool
  | .lit _ => true
  | .path _ => true
  | .list items => drawFreeAll items
  | .not inner => inner.drawFree
  | .and lhs rhs => lhs.drawFree && rhs.drawFree
  | .or lhs rhs => lhs.drawFree && rhs.drawFree
  | .cmp _ lhs rhs => lhs.drawFree && rhs.drawFree
  | .member item values => item.drawFree && values.drawFree
  | .add lhs rhs => lhs.drawFree && rhs.drawFree
  | .sub lhs rhs => lhs.drawFree && rhs.drawFree
  | .mul lhs rhs => lhs.drawFree && rhs.drawFree
  | .div lhs rhs => lhs.drawFree && rhs.drawFree
  | .rem lhs rhs => lhs.drawFree && rhs.drawFree
  | .call name args => name ≠ "now" && name ≠ "uuid" && drawFreeAll args

/-- No call of `now` or `uuid` occurs in the expressions. -/
def drawFreeAll : List Expr → Bool
  | [] => true
  | item :: rest => item.drawFree && drawFreeAll rest

end

end Expr

section Determinism

variable {platform : Platform} {ctx : EvalContext} (first second : Draws)

/-- A call other than `now` and `uuid` does not read the draws. -/
theorem callWith_congr {name : String} (notNow : name ≠ "now") (notUuid : name ≠ "uuid")
    (site : Site) (values : List Value) :
    callWith platform first ctx site name values =
      callWith platform second ctx site name values := by
  unfold callWith
  split <;> first | rfl | contradiction

mutual

/-- An expression without `now` and `uuid` evaluates alike under all draws. -/
theorem eval_congr (expr : Expr) (free : expr.drawFree = true) (site : Site) (record : Value) :
    eval platform first ctx expr site record = eval platform second ctx expr site record := by
  cases expr with
  | lit value => simp only [eval]
  | path segments => simp only [eval]
  | list items => simp only [eval, evalAll_congr items free]
  | not inner => simp only [eval, eval_congr inner free]
  | and lhs rhs | or lhs rhs | cmp _ lhs rhs | member lhs rhs | add lhs rhs | sub lhs rhs
  | mul lhs rhs | div lhs rhs | rem lhs rhs =>
      simp only [Expr.drawFree, Bool.and_eq_true] at free
      simp only [eval, eval_congr lhs free.1, eval_congr rhs free.2]
  | call name args =>
      simp only [Expr.drawFree, Bool.and_eq_true, decide_eq_true_eq] at free
      simp only [eval, evalAll_congr args free.2,
        callWith_congr first second free.1.1 free.1.2]

theorem evalAll_congr (items : List Expr) (free : Expr.drawFreeAll items = true) (site : Site)
    (record : Value) :
    evalAll platform first ctx items site record =
      evalAll platform second ctx items site record := by
  cases items with
  | nil => simp only [evalAll]
  | cons item rest =>
      simp only [Expr.drawFreeAll, Bool.and_eq_true] at free
      simp only [evalAll, eval_congr item free.1, evalAll_congr rest free.2]

end

/-- Expressions without `now` and `uuid` are deterministic. -/
theorem Expr.deterministic_of_drawFree {expr : Expr} (free : expr.drawFree = true) :
    expr.Deterministic platform :=
  fun _ record first second => eval_congr first second expr free [] record

end Determinism

end Sohara
