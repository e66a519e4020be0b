import Sohara.Core.Membership
import Sohara.Core.Transforms

/-! # Assertions and expressions

An assertion step and the expression language both compare a field with a literal.
Assertions compare by the equality of JSON values, except that the ordering operators
coerce the field to a number; expressions coerce both sides, and read every number
literal as a float.
-/

namespace Sohara

/-- The operator of an assertion. -/
inductive AssertOp where
  | eq
  | neq
  | gt
  | gte
  | lt
  | lte
  | in_
  | contains
  | isNull
  | notNull
  | exists_
  deriving DecidableEq

/-- The debug text of an operator. -/
def AssertOp.debug : AssertOp → String
  | .eq => "Eq"
  | .neq => "Neq"
  | .gt => "Gt"
  | .gte => "Gte"
  | .lt => "Lt"
  | .lte => "Lte"
  | .in_ => "In"
  | .contains => "Contains"
  | .isNull => "IsNull"
  | .notNull => "NotNull"
  | .exists_ => "Exists"

/-- A declared assertion. -/
structure AssertItem where
  field : String
  op : AssertOp
  value : Option Value := none
  message : Option String := none

section Build

variable (platform : Platform)

/-- A number to compare with. -/
def number (value : Value) (field : String) : Except Error F64 :=
  match value with
  | .number number => .ok (number.asF64 platform)
  | other =>
      .error (.config ("assert field '" ++ field ++ "': expected a number, got " ++
        other.text platform))

/-- The error of an operator that needs a list. -/
def invalidValue (field : String) (op : AssertOp) (value : Value) : Error :=
  .config ("assert field '" ++ field ++ "': op '" ++ op.debug ++ "' needs an array value, got " ++
    value.text platform)

/-- The check of an operator and its value. -/
def toCheck (field : String) (op : AssertOp) (raw : Option Value) : Except Error Check := do
  let needsValue := op ≠ .isNull ∧ op ≠ .notNull ∧ op ≠ .exists_
  let value ← match raw with
    | none =>
        if needsValue then
          .error (.config ("assert field '" ++ field ++ "': op '" ++ op.debug ++
            "' needs a 'value'"))
        else .ok .null
    | some value => .ok value
  match op with
  | .eq => return .eq value
  | .neq => return .neq value
  | .gt => return .gt (← number platform value field)
  | .gte => return .gte (← number platform value field)
  | .lt => return .lt (← number platform value field)
  | .lte => return .lte (← number platform value field)
  | .in_ =>
      match value with
      | .array items => return .in_ items
      | other => .error (invalidValue platform field op other)
  | .contains => return .contains value
  | .isNull => return .null
  | .notNull => return .notNull
  | .exists_ => return .exists_

/-- The assertion of a declared one. -/
def toAssertion (item : AssertItem) : Except Error Assertion := do
  let check ← toCheck platform item.field item.op item.value
  return ⟨item.field, check, item.message⟩

end Build

section Written

variable (platform : Platform)

/-- The literal that spells a value in an expression: a number without a sign, as a
float, or a text, a truth value or `null`. -/
def Literal.ofValue? : Value → Option Literal
  | .null => some .null
  | .bool value => some (.bool value)
  | .number (.posInt value) => some (.number (platform.ofInt value))
  | .number (.float bits) => if bits < 0x8000000000000000 then some (.number bits) else none
  | .string text => some (.string text)
  | _ => none

/-- The comparison of an operator. -/
def AssertOp.cmp? : AssertOp → Option CmpOp
  | .eq => some .eq
  | .neq => some .neq
  | .gt => some .gt
  | .gte => some .gte
  | .lt => some .lt
  | .lte => some .lte
  | _ => none

/-- The expression `field op value`, with a list literal for `in`. -/
def AssertOp.expr? (op : AssertOp) (field : String) (value : Value) : Option Expr :=
  match op with
  | .in_ => do
      let literals ← (← value.asArray?).mapM (Literal.ofValue? platform)
      return memberOf (.path (pathSegments field)) literals
  | op => do
      let cmp ← op.cmp?
      let literal ← Literal.ofValue? platform value
      return .cmp cmp (.path (pathSegments field)) literal.expr

/-- Where the check of an operator agrees with the expression: equality needs that one
number is one value; membership, that no integer of the list is the field's value, and
that a float equal to one of them is listed as a float, too. -/
def AssertOp.Agrees (op : AssertOp) (found value : Value) : Prop :=
  match op with
  | .eq | .neq => SameNumber platform found value → found.beq value = true
  | .in_ => ∀ items, value = .array items → ∀ listed, .number (.posInt listed) ∈ items →
      (Value.number (.posInt listed)).beq found = false ∧
        ((Value.number (.float (platform.ofInt listed))).beq found = true →
          ∃ other ∈ items, other.beq found = true)
  | _ => True

end Written

section Agreement

variable {platform : Platform} {L : Type} [LinearOrder L] {key : F64 → Option L}
variable {draws : Draws} {ctx : EvalContext} {record : Record} {field : String}
variable {op : AssertOp} {value found : Value} {check : Check} {expr : Expr}

/-- A field of a record is the value of its path. -/
theorem eval_path (site : Site) (present : record.get field = some found) :
    eval platform draws ctx (.path (pathSegments field)) site record.payload = .ok found := by
  rw [eval]
  unfold Record.get at present
  generalize record.payload = root, pathSegments field = segments at present ⊢
  induction segments generalizing root with
  | nil =>
      cases present
      rfl
  | cons segment rest ih =>
      obtain ⟨fields, object, present⟩ := Option.bind_eq_some_iff.mp present
      obtain ⟨next, here, present⟩ := Option.bind_eq_some_iff.mp present
      simp only [resolvePath, object, Option.bind_some, here]
      exact ih next present

/-- A literal denotes the number of its value. -/
theorem Literal.numeric?_ofValue {literal : Literal}
    (written : Literal.ofValue? platform value = some literal) :
    numeric? platform literal.value = numeric? platform value := by
  unfold Literal.ofValue? at written
  split at written
  case h_4 bits =>
    split at written <;> cases written
    rfl
  all_goals
    cases written
    try rfl

/-- Equal numbers, of which one has a place, are one number. -/
theorem sameNumber_of_beq (ordered : platform.Ordered key) {number other : Number}
    (equal : number.beq other = true) (placed : (key (other.asF64 platform)).isSome) :
    SameNumber platform (.number number) (.number other) := by
  obtain ⟨place, placed⟩ := Option.isSome_iff_exists.mp placed
  refine (sameNumber_iff ordered).mpr ⟨place, reading_eq_number.mpr ⟨_, rfl, ?_⟩,
    reading_eq_number.mpr ⟨_, rfl, placed⟩⟩
  rw [ordered.key_of_beq equal, placed]

theorem Literal.value_of_ofValue {literal : Literal}
    (written : Literal.ofValue? platform value = some literal) :
    (∃ listed, value = .number (.posInt listed) ∧
      literal.value = .number (.float (platform.ofInt listed))) ∨
    ((∀ listed, value ≠ .number (.posInt listed)) ∧ literal.value = value) := by
  unfold Literal.ofValue? at written
  split at written
  case h_3 listed =>
    cases written
    exact .inl ⟨listed, rfl, rfl⟩
  case h_4 bits =>
    split at written <;> cases written
    exact .inr ⟨by simp, rfl⟩
  case h_6 => cases written
  all_goals
    cases written
    exact .inr ⟨by simp, rfl⟩

/-- The comparison with a literal is the coercing comparison with its value. -/
theorem Literal.decides_iff (ordered : platform.Ordered key) {literal : Literal}
    (written : Literal.ofValue? platform value = some literal) :
    Decides platform .eq found literal.value true ↔
      SameNumber platform found value ∨ found.beq value = true := by
  have numbers : SameNumber platform found literal.value ↔ SameNumber platform found value := by
    unfold SameNumber
    rw [Literal.numeric?_ofValue written]
  rw [decides_eq_iff_same ordered, numbers]
  rcases Literal.value_of_ofValue written with ⟨listed, rfl, spelled⟩ | ⟨-, spelled⟩
  · have placed : (key (platform.ofInt listed)).isSome := ordered.ofInt _
    rw [spelled]
    constructor
    · rintro (same | equal)
      · exact .inl same
      · cases found with
        | number number =>
            exact .inl (numbers.mp (spelled ▸ sameNumber_of_beq ordered equal placed))
        | _ => cases equal
    · rintro (same | equal)
      · exact .inl same
      · cases found with
        | number number => exact .inl (sameNumber_of_beq ordered equal placed)
        | _ => cases equal
  · rw [spelled]

/-- What an evaluated comparison of a field with a literal is. -/
theorem eval_cmp_path {cmp : CmpOp} {literal : Literal} (present : record.get field = some found) :
    eval platform draws ctx (.cmp cmp (.path (pathSegments field)) literal.expr) []
        record.payload = compareValues platform cmp found literal.value := by
  rw [eval, eval_path _ present]
  simp only [Literal.expr, eval]
  rfl

/-- The ordering operators compare with the number of the literal. -/
theorem isOrdered_iff {ordering : CmpOp} {holds : Ordering → Bool} {threshold : F64}
    {literal : Literal} (verdicts : ∀ place same, ordering.verdict place same = place.map holds)
    (built : number platform value field = .ok threshold)
    (written : Literal.ofValue? platform value = some literal)
    (evaluates : ∃ result, compareValues platform ordering found literal.value = .ok result) :
    isOrdered platform holds threshold (some found) = true ↔
      Decides platform ordering found literal.value true := by
  have numeric : numeric? platform literal.value = some threshold := by
    rw [Literal.numeric?_ofValue written]
    unfold Sohara.number at built
    split at built <;> cases built
    rfl
  have decided : ¬Errs platform ordering found literal.value := by
    rintro ⟨failure, failed⟩
    obtain ⟨result, evaluated⟩ := evaluates
    cases failed.symm.trans evaluated
  cases coerced : numeric? platform found with
  | none => exact (decided (errs_of_mixed (by simp [coerced, numeric]))).elim
  | some bits =>
      rw [decides_numbers coerced numeric, verdicts]
      simp only [isOrdered, Option.bind_some, coerced]
      cases place : platform.partialCmp bits threshold with
      | none =>
          refine (decided (errs_iff.mpr fun verdict holds => ?_)).elim
          rw [decides_numbers coerced numeric, verdicts, place] at holds
          cases holds
      | some place => simp

/-- An evaluated `!=` is true where `==` is not. -/
theorem decides_neq_iff (ordered : platform.Ordered key)
    (evaluates : ∃ result, compareValues platform .neq found value = .ok result) :
    Decides platform .neq found value true ↔ ¬Decides platform .eq found value true := by
  have decided : ∃ verdict, Decides platform .neq found value verdict := by
    by_contra undecided
    obtain ⟨result, evaluated⟩ := evaluates
    obtain ⟨failure, failed⟩ := errs_iff.mpr (not_exists.mp undecided)
    cases failed.symm.trans evaluated
  obtain ⟨verdict, decided⟩ := decided
  have complement := (decides_neq ordered verdict).mp decided
  cases verdict with
  | true =>
      refine iff_of_true decided fun equal => ?_
      cases complement.symm.trans equal
  | false =>
      refine iff_of_false (fun other => ?_) (not_not_intro complement)
      cases decided.symm.trans other

/-- The literals of a list, and the values they spell. -/
theorem mem_of_mapM_ofValue {items : List Value} {literals : List Literal}
    (written : items.mapM (Literal.ofValue? platform) = some literals) :
    (∀ item ∈ items, ∃ literal ∈ literals, Literal.ofValue? platform item = some literal) ∧
      ∀ literal ∈ literals, ∃ item ∈ items, Literal.ofValue? platform item = some literal := by
  induction items generalizing literals with
  | nil =>
      cases written
      exact ⟨(fun _ member => nomatch member), fun _ member => nomatch member⟩
  | cons item items ih =>
      rw [List.mapM_cons] at written
      obtain ⟨literal, first, written⟩ := Option.bind_eq_some_iff.mp written
      obtain ⟨others, rest, written⟩ := Option.bind_eq_some_iff.mp written
      cases written
      obtain ⟨spelled, spells⟩ := ih rest
      constructor
      · intro other member
        rcases List.mem_cons.mp member with rfl | inside
        · exact ⟨literal, List.mem_cons_self, first⟩
        · obtain ⟨found, member, same⟩ := spelled other inside
          exact ⟨found, List.mem_cons_of_mem _ member, same⟩
      · intro other member
        rcases List.mem_cons.mp member with rfl | inside
        · exact ⟨item, List.mem_cons_self, first⟩
        · obtain ⟨found, member, same⟩ := spells other inside
          exact ⟨found, List.mem_cons_of_mem _ member, same⟩

/-- A list and the literals that spell it hold a value alike, but for the integers of
the list. -/
theorem any_literals_iff {items : List Value} {literals : List Literal}
    (written : items.mapM (Literal.ofValue? platform) = some literals) :
    ((items.any fun item => item.beq found) = true ↔
        (literals.any fun literal => literal.value.beq found) = true) ↔
      AssertOp.in_.Agrees platform found (.array items) := by
  obtain ⟨spelled, spells⟩ := mem_of_mapM_ofValue written
  simp only [List.any_eq_true]
  constructor
  · rintro agree _ ⟨⟩ listed member
    obtain ⟨literal, present, same⟩ := spelled _ member
    cases same
    refine ⟨Bool.eq_false_iff.mpr fun equal => ?_, fun equal => agree.mpr ⟨_, present, equal⟩⟩
    -- The field is an integer, and no literal is one.
    obtain ⟨other, -, same⟩ := agree.mp ⟨_, member, equal⟩
    cases found with
    | number number =>
        cases number with
        | posInt => cases other <;> cases same
        | negInt | float => cases equal
    | _ => cases equal
  · intro condition
    have condition := condition items rfl
    constructor
    · rintro ⟨item, member, equal⟩
      obtain ⟨literal, present, same⟩ := spelled item member
      rcases Literal.value_of_ofValue same with ⟨listed, rfl, -⟩ | ⟨-, spelled⟩
      · rw [(condition listed member).1] at equal
        cases equal
      · exact ⟨literal, present, spelled ▸ equal⟩
    · rintro ⟨literal, present, equal⟩
      obtain ⟨item, member, same⟩ := spells literal present
      rcases Literal.value_of_ofValue same with ⟨listed, rfl, spelled⟩ | ⟨-, spelled⟩
      · exact (condition listed member).2 (spelled ▸ equal)
      · exact ⟨item, member, spelled ▸ equal⟩

/-- **Assertions and expressions.** The check of an assertion passes exactly when the
expression of its operator and value is true, if and only if equality and membership do not
depend on how the number is represented. -/
theorem assertion_agrees_iff (ordered : platform.Ordered key)
    (built : toCheck platform field op (some value) = .ok check)
    (written : op.expr? platform field value = some expr)
    (present : record.get field = some found)
    (evaluates : ∃ result, eval platform draws ctx expr [] record.payload = .ok result) :
    (AssertTransform.checkValue platform check (record.get field) = true ↔
        eval platform draws ctx expr [] record.payload = .ok (.bool true)) ↔
      op.Agrees platform found value := by
  rw [present]
  cases op with
  | eq =>
      cases built
      obtain ⟨literal, spelled, same⟩ := Option.bind_eq_some_iff.mp written
      cases same
      rw [eval_cmp_path present]
      have decides : Decides platform .eq found literal.value true ↔
          SameNumber platform found value ∨ found.beq value = true :=
        Literal.decides_iff ordered spelled
      change (found.beq value = true ↔ Decides platform .eq found literal.value true) ↔
        (SameNumber platform found value → found.beq value = true)
      rw [decides]
      exact iff_comm.trans or_iff_right_iff_imp
  | neq =>
      cases built
      obtain ⟨literal, spelled, same⟩ := Option.bind_eq_some_iff.mp written
      cases same
      rw [eval_cmp_path present] at evaluates ⊢
      have decides : Decides platform .eq found literal.value true ↔
          SameNumber platform found value ∨ found.beq value = true :=
        Literal.decides_iff ordered spelled
      change ((!found.beq value) = true ↔ Decides platform .neq found literal.value true) ↔
        (SameNumber platform found value → found.beq value = true)
      rw [decides_neq_iff ordered evaluates, decides, Bool.not_eq_true', Bool.eq_false_iff]
      exact not_iff_not.trans (iff_comm.trans or_iff_right_iff_imp)
  | in_ =>
      obtain ⟨items, listed, written⟩ := Option.bind_eq_some_iff.mp written
      obtain ⟨literals, spelled, same⟩ := Option.bind_eq_some_iff.mp written
      cases same
      cases value with
      | array items =>
          cases listed
          cases built
          rw [eval_memberOf literals (eval_path _ present)]
          change ((items.any fun item => item.beq found) = true ↔ _) ↔ _
          rw [← any_literals_iff spelled, Except.ok.injEq, Value.bool.injEq]
      | _ => cases listed
  | gt | gte | lt | lte =>
      obtain ⟨literal, spelled, same⟩ := Option.bind_eq_some_iff.mp written
      obtain ⟨threshold, numeric, check⟩ := Except.map_eq_ok.mp built
      cases same
      cases check
      rw [eval_cmp_path present] at evaluates ⊢
      refine iff_of_true ?_ trivial
      exact isOrdered_iff (fun place _ => by cases place <;> rfl) numeric spelled evaluates
  | contains | isNull | notNull | exists_ => cases written

end Agreement

namespace Sample

/-- A record whose number is text, as a table has it. -/
def tabled : Record :=
  { id := "r", timestamp := 0, payload := .object [("n", .string "18")], metadata := [] }

/-- No clock and no ids. -/
def noDraws : Draws := ⟨fun _ => "", fun _ => ""⟩

theorem tabled_agrees_iff :
    (AssertTransform.checkValue numbers (.eq (.number (.posInt 18))) (tabled.get "n") = true ↔
      eval numbers noDraws ⟨[]⟩ (.cmp .eq (.path (pathSegments "n"))
        (Literal.number 0x4032000000000000).expr) [] tabled.payload = .ok (.bool true)) ↔
      AssertOp.eq.Agrees numbers (.string "18") (.number (.posInt 18)) :=
  assertion_agrees_iff numbers_ordered rfl rfl rfl ⟨.bool true, rfl⟩

/-- Text of a number equals the number in an expression, but not in an assertion. -/
theorem text_assertion_disagrees : ¬∀ (op : AssertOp) (field : String) (value found : Value)
    (check : Check) (expr : Expr) (record : Record) (draws : Draws),
    toCheck numbers field op (some value) = .ok check →
    op.expr? numbers field value = some expr →
    record.get field = some found →
    (∃ result, eval numbers draws ⟨[]⟩ expr [] record.payload = .ok result) →
    (AssertTransform.checkValue numbers check (record.get field) = true ↔
      eval numbers draws ⟨[]⟩ expr [] record.payload = .ok (.bool true)) := by
  intro agree
  have same := agree .eq "n" (.number (.posInt 18)) (.string "18") _ _ tabled noDraws rfl rfl rfl
    ⟨.bool true, rfl⟩
  cases same.mpr rfl

end Sample

end Sohara
