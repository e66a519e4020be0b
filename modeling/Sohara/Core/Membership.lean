import Mathlib.Tactic.Choose
import Sohara.Core.RoundTrip

/-! # Membership and equality

`in` compares by the equality of JSON values; `==` coerces numbers and texts of numbers
first. The literals of the language are floats, texts, truth values and `null`, so the
two operators part where a value is the number of a literal without being equal to it.
-/

namespace Sohara

/-- A literal as the parser makes it. -/
inductive Literal where
  | null
  | bool (value : Bool)
  | number (bits : F64)
  | string (text : String)
  deriving DecidableEq, Repr

namespace Literal

/-- The value of a literal. -/
def value : Literal → Value
  | .null => .null
  | .bool value => .bool value
  | .number bits => .number (.float bits)
  | .string text => .string text

/-- The expression of a literal. -/
def expr (literal : Literal) : Expr := .lit literal.value

theorem formed (literal : Literal) : literal.value.Formed := by
  cases literal <;> trivial

theorem beq_comm (literal : Literal) (other : Value) :
    literal.value.beq other = other.beq literal.value := by
  cases literal <;> cases other <;> simp only [Literal.value, Value.beq, Bool.beq_comm]
  case number.number bits number =>
    exact Bool.eq_iff_iff.mpr ⟨Number.beq_symm, Number.beq_symm⟩

end Literal

/-- `x in [e1, ..., en]`. -/
def memberOf (item : Expr) (literals : List Literal) : Expr :=
  .member item (.list (literals.map Literal.expr))

/-- `x == e1 or ... or x == en`. -/
def equalsSome (item : Expr) (first : Literal) (others : List Literal) : Expr :=
  others.foldl (fun chain literal => .or chain (.cmp .eq item literal.expr))
    (.cmp .eq item first.expr)

/-- Two values denote one number. -/
def SameNumber (platform : Platform) (left right : Value) : Prop :=
  ∃ first second, numeric? platform left = some first ∧ numeric? platform right = some second ∧
    platform.partialCmp first second = some .eq

section Equality

variable {platform : Platform} {L : Type} [LinearOrder L] {key : F64 → Option L}
variable {left right : Value}

omit [LinearOrder L] in
theorem string_of_reading {text : String} (same : reading platform key left = .text text) :
    left = .string text := by
  cases left with
  | string other =>
      cases found : numeric? platform (.string other) with
      | some bits =>
          simp only [reading, found] at same
          split at same <;> cases same
      | none =>
          simp only [reading, found] at same
          cases same
          rfl
  | number number =>
      simp only [reading, numeric?] at same
      split at same <;> cases same
  | _ => cases same

omit [LinearOrder L] in
theorem reading_eq_number {place : L} :
    reading platform key left = .number place ↔
      ∃ bits, numeric? platform left = some bits ∧ key bits = some place := by
  unfold reading
  cases numeric? platform left with
  | none => cases left <;> simp
  | some bits => cases found : key bits <;> simp [found]

theorem sameNumber_iff (ordered : platform.Ordered key) : SameNumber platform left right ↔
    ∃ place, reading platform key left = .number place ∧
      reading platform key right = .number place := by
  simp only [SameNumber, reading_eq_number, ordered.partialCmp]
  constructor
  · rintro ⟨first, second, leftNumber, rightNumber, equal⟩
    cases firstKey : key first with
    | none => simp [firstKey] at equal
    | some place =>
        cases secondKey : key second with
        | none => simp [firstKey, secondKey] at equal
        | some other =>
            simp only [firstKey, secondKey, Option.some.injEq, compare_eq_iff_eq] at equal
            subst equal
            exact ⟨place, ⟨first, leftNumber, firstKey⟩, second, rightNumber, secondKey⟩
  · rintro ⟨place, ⟨first, leftNumber, firstKey⟩, second, rightNumber, secondKey⟩
    exact ⟨first, second, leftNumber, rightNumber, by simp [firstKey, secondKey]⟩

/-- The comparison `==` holds of one number, and of equal values. -/
theorem decides_eq_iff_same (ordered : platform.Ordered key) :
    Decides platform .eq left right true ↔
      SameNumber platform left right ∨ left.beq right = true := by
  rw [decides_eq_iff ordered, sameNumber_iff ordered]
  constructor
  · rintro ⟨same, equal⟩
    cases read : reading platform key left with
    | number place => exact .inl ⟨place, rfl, by rw [← same, read]⟩
    | text text =>
        have leftText := string_of_reading read
        have rightText := string_of_reading (same.symm.trans read)
        exact .inr (by rw [leftText, rightText]; simp [Value.beq])
    | nan | other => exact .inr (equal (by rw [read]; exact id))
  · rintro (⟨place, leftNumber, rightNumber⟩ | equal)
    · refine ⟨leftNumber.trans rightNumber.symm, fun unranked => ?_⟩
      rw [leftNumber] at unranked
      exact (unranked trivial).elim
    · exact ⟨reading_eq_of_beq ordered equal, fun _ => equal⟩

end Equality

section Evaluation

variable {platform : Platform} {draws : Draws} {ctx : EvalContext}

variable (platform draws ctx) in
/-- Parses a text and evaluates it on a record. -/
def evalText (debug : Option Token → String) (text : String) (record : Value) :
    Except ExprError Value := do
  let expr ← parse platform debug text
  eval platform draws ctx expr [] record

variable {item : Expr} {value record : Value}

theorem evalAll_literals (literals : List Literal) (site : Site) (record : Value) :
    evalAll platform draws ctx (literals.map Literal.expr) site record =
      .ok (literals.map Literal.value) := by
  induction literals with
  | nil => simp [evalAll]
  | cons literal rest ih =>
      simp only [List.map_cons, evalAll, ih, Literal.expr, eval]
      rfl

/-- Membership is equality with some literal. -/
theorem eval_memberOf {site : Site} (literals : List Literal)
    (evaluated : eval platform draws ctx item (0 :: site) record = .ok value) :
    eval platform draws ctx (memberOf item literals) site record =
      .ok (.bool (literals.any fun literal => literal.value.beq value)) := by
  unfold memberOf
  rw [eval, evaluated]
  simp only [eval, evalAll_literals]
  change Except.ok (Value.bool ((literals.map Literal.value).any fun other => other.beq value)) = _
  rw [List.any_map]
  rfl

/-- A disjunction of comparisons holds when some comparison does. -/
theorem eval_equalsSome {verdict : Literal → Bool} {first : Literal} {others : List Literal}
    (steady : ∀ site, eval platform draws ctx item site record = .ok value)
    (decided : ∀ literal ∈ first :: others,
      Decides platform .eq value literal.value (verdict literal)) (site : Site) :
    eval platform draws ctx (equalsSome item first others) site record =
      .ok (.bool ((first :: others).any verdict)) := by
  have single : ∀ literal ∈ first :: others, ∀ site,
      eval platform draws ctx (.cmp .eq item literal.expr) site record =
        .ok (.bool (verdict literal)) := by
    intro literal member site
    rw [eval, steady]
    simp only [Literal.expr, eval]
    exact decided literal member
  unfold equalsSome
  clear decided
  induction others using List.reverseRecOn generalizing site with
  | nil => simpa using single first List.mem_cons_self site
  | append_singleton others last ih =>
      have earlier : ∀ literal ∈ first :: others, literal ∈ first :: (others ++ [last]) := by
        intro literal member
        rw [← List.cons_append]
        exact List.mem_append_left _ member
      have chain := ih (0 :: site) fun literal member => single literal (earlier literal member)
      have final := single last (by simp) (1 :: site)
      rw [List.foldl_append, List.foldl_cons, List.foldl_nil, eval, chain, final,
        ← List.cons_append, List.any_append]
      cases (first :: others).any verdict <;> cases met : verdict last <;> simp
        [met, isTruthy] <;> rfl

variable {L : Type} [LinearOrder L] {key : F64 → Option L} {debug : Option Token → String}
variable {membership disjunction : String} {first : Literal} {others : List Literal}

/-- **Membership and equality.** Where a value compares with every literal, `in` and the
disjunction of `==` agree exactly if the value, when it is the number of some literal, also
equals some literal as a JSON value. -/
theorem membership_agrees_iff (ordered : platform.Ordered key)
    (parsedMembership : parse platform debug membership = .ok (memberOf item (first :: others)))
    (parsedDisjunction : parse platform debug disjunction = .ok (equalsSome item first others))
    (steady : ∀ site, eval platform draws ctx item site record =
      eval platform draws ctx item [] record)
    (compared : ∀ literal ∈ first :: others, ∃ result,
      eval platform draws ctx (.cmp .eq item literal.expr) [] record = .ok result) :
    (evalText platform draws ctx debug membership record = .ok (.bool true) ↔
        evalText platform draws ctx debug disjunction record = .ok (.bool true)) ↔
      ∀ value, eval platform draws ctx item [] record = .ok value →
        (∃ literal ∈ first :: others, SameNumber platform value literal.value) →
          ∃ literal ∈ first :: others, literal.value.beq value = true := by
  obtain ⟨result, comparison⟩ := compared first List.mem_cons_self
  rw [eval, Except.bind_eq_ok] at comparison
  obtain ⟨value, evaluated, -⟩ := comparison
  have everywhere : ∀ site, eval platform draws ctx item site record = .ok value :=
    fun site => (steady site).trans ((steady _).symm.trans evaluated)
  have decides : ∀ literal ∈ first :: others, ∃ verdict,
      Decides platform .eq value literal.value verdict := by
    intro literal member
    obtain ⟨result, comparison⟩ := compared literal member
    rw [eval, everywhere] at comparison
    simp only [Literal.expr, eval] at comparison
    by_contra undecided
    obtain ⟨failure, failed⟩ := errs_iff.mpr (not_exists.mp undecided)
    cases comparison.symm.trans failed
  choose! verdict decided using decides
  have holds : ∀ literal ∈ first :: others, verdict literal = true ↔
      SameNumber platform value literal.value ∨ literal.value.beq value = true := by
    intro literal member
    rw [literal.beq_comm, ← decides_eq_iff_same ordered]
    have decided := decided literal member
    cases met : verdict literal with
    | true => exact ⟨fun _ => met ▸ decided, fun _ => rfl⟩
    | false =>
        rw [met] at decided
        refine ⟨fun same => (nomatch same), fun other => ?_⟩
        cases decided.symm.trans other
  have found : evalText platform draws ctx debug membership record =
      .ok (.bool ((first :: others).any fun literal => literal.value.beq value)) := by
    unfold evalText
    rw [parsedMembership]
    exact eval_memberOf _ (everywhere _)
  have disjunct : evalText platform draws ctx debug disjunction record =
      .ok (.bool ((first :: others).any verdict)) := by
    unfold evalText
    rw [parsedDisjunction]
    exact eval_equalsSome everywhere decided _
  rw [found, disjunct, everywhere]
  simp only [Except.ok.injEq, Value.bool.injEq, List.any_eq_true]
  constructor
  · rintro agree _ rfl ⟨literal, member, same⟩
    exact agree.mpr ⟨literal, member, (holds literal member).mpr (.inl same)⟩
  · intro condition
    constructor
    · rintro ⟨literal, member, equal⟩
      exact ⟨literal, member, (holds literal member).mpr (.inr equal)⟩
    · rintro ⟨literal, member, met⟩
      rcases (holds literal member).mp met with same | equal
      · exact condition value rfl ⟨literal, member, same⟩
      · exact ⟨literal, member, equal⟩

/-- An integer is in no list of literals. -/
theorem integer_not_found {number : Number} (integer : ∀ bits, number ≠ .float bits)
    (literals : List Literal)
    (evaluated : eval platform draws ctx item [0] record = .ok (.number number)) :
    eval platform draws ctx (memberOf item literals) [] record = .ok (.bool false) := by
  rw [eval_memberOf literals evaluated]
  refine congrArg (fun found => Except.ok (Value.bool found)) (List.any_eq_false.mpr ?_)
  intro literal _
  cases literal with
  | number bits =>
      cases number with
      | float other => exact (integer other rfl).elim
      | posInt | negInt => exact Bool.false_ne_true
  | null | bool | string => exact Bool.false_ne_true

end Evaluation

section Steady

variable {platform : Platform} {draws : Draws} {ctx : EvalContext}

/-- A call other than `now` and `uuid` does not depend on its place. -/
theorem callWith_site {name : String} (notNow : name ≠ "now") (notUuid : name ≠ "uuid")
    (site site' : Site) (values : List Value) :
    callWith platform draws ctx site name values =
      callWith platform draws ctx site' name values := by
  unfold callWith
  split <;> first | rfl | contradiction

mutual

/-- An expression without `now` and `uuid` has one value wherever it stands. -/
theorem eval_site (expr : Expr) (free : expr.drawFree = true) (site site' : Site)
    (record : Value) :
    eval platform draws ctx expr site record = eval platform draws ctx expr site' record := by
  cases expr with
  | lit value => simp only [eval]
  | path segments => simp only [eval]
  | list items => simp only [eval, evalAll_site items free site site']
  | not inner => simp only [eval, eval_site inner free (0 :: site) (0 :: site')]
  | and lhs rhs | or lhs rhs | cmp _ lhs rhs | member lhs rhs | add lhs rhs | sub lhs rhs
  | mul lhs rhs | div lhs rhs | rem lhs rhs =>
      simp only [Expr.drawFree, Bool.and_eq_true] at free
      simp only [eval, eval_site lhs free.1 (0 :: site) (0 :: site'),
        eval_site rhs free.2 (1 :: site) (1 :: site')]
  | call name args =>
      simp only [Expr.drawFree, Bool.and_eq_true, decide_eq_true_eq] at free
      simp only [eval, evalAll_site args free.2 site site',
        callWith_site free.1.1 free.1.2 site site']

theorem evalAll_site (items : List Expr) (free : Expr.drawFreeAll items = true)
    (site site' : Site) (record : Value) :
    evalAll platform draws ctx items site record =
      evalAll platform draws ctx items site' record := by
  cases items with
  | nil => simp only [evalAll]
  | cons item rest =>
      simp only [Expr.drawFreeAll, Bool.and_eq_true] at free
      simp only [evalAll, eval_site item free.1 (rest.length :: site)
        (rest.length :: site'), evalAll_site rest free.2 site site']

end

end Steady

namespace Sample

/-- A record with an integer field. -/
def counted : Value := .object [("n", .number (.posInt 1))]

/-- The literal `1`. -/
def one : Literal := .number 0x3FF0000000000000

theorem parse_in_one :
    parse numbers (fun _ => "") "$.n in [1]" = .ok (memberOf (.path ["n"]) [one]) := by
  refine parse_text _ ⟨⟨by simp, ?_⟩, rereads_one, trivial⟩ (by decide)
  simpa using ⟨'n', [], rfl, rfl, by simp⟩

theorem parse_eq_one :
    parse numbers (fun _ => "") "$.n == 1" = .ok (equalsSome (.path ["n"]) one []) := by
  refine parse_text _ ⟨⟨by simp, ?_⟩, rereads_one⟩ (by decide)
  simpa using ⟨'n', [], rfl, rfl, by simp⟩

theorem counted_agrees_iff :
    (evalText numbers ⟨fun _ => "", fun _ => ""⟩ ⟨[]⟩ (fun _ => "") "$.n in [1]" counted =
        .ok (.bool true) ↔
      evalText numbers ⟨fun _ => "", fun _ => ""⟩ ⟨[]⟩ (fun _ => "") "$.n == 1" counted =
        .ok (.bool true)) ↔
      ∀ value, eval numbers ⟨fun _ => "", fun _ => ""⟩ ⟨[]⟩ (.path ["n"]) [] counted = .ok value →
        (∃ literal ∈ [one], SameNumber numbers value literal.value) →
          ∃ literal ∈ [one], literal.value.beq value = true :=
  membership_agrees_iff numbers_ordered parse_in_one parse_eq_one
    (fun site => eval_site _ rfl site [] _) (List.forall_mem_singleton.mpr ⟨.bool true, rfl⟩)

/-- An integer is not found in a list of integer literals, but equals one of them. -/
theorem integer_not_member : ¬∀ (membership disjunction : String) (first : Literal)
    (others : List Literal) (item : Expr) (record : Value) (draws : Draws),
    parse numbers (fun _ => "") membership = .ok (memberOf item (first :: others)) →
    parse numbers (fun _ => "") disjunction = .ok (equalsSome item first others) →
    (∀ site, eval numbers draws ⟨[]⟩ item site record = eval numbers draws ⟨[]⟩ item [] record) →
    (∀ literal ∈ first :: others, ∃ result,
      eval numbers draws ⟨[]⟩ (.cmp .eq item literal.expr) [] record = .ok result) →
    (evalText numbers draws ⟨[]⟩ (fun _ => "") membership record = .ok (.bool true) ↔
      evalText numbers draws ⟨[]⟩ (fun _ => "") disjunction record = .ok (.bool true)) := by
  intro agree
  have same := agree "$.n in [1]" "$.n == 1" one [] (.path ["n"]) counted
    ⟨fun _ => "", fun _ => ""⟩ parse_in_one parse_eq_one (fun _ => rfl)
    (List.forall_mem_singleton.mpr ⟨.bool true, rfl⟩)
  unfold evalText at same
  rw [parse_in_one, parse_eq_one] at same
  cases same.mpr rfl

end Sample

end Sohara
