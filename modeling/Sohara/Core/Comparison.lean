import Mathlib.Data.String.Basic
import Sohara.Core.Equality
import Sohara.Core.Except
import Sohara.Core.Expr

/-! # Coherence of comparisons

Comparisons read numbers, and text of numbers, through binary64. A comparison then sees
of a value only its reading; over readings the operators obey the laws of an order,
except that values of no order may still be compared for equality.
-/

namespace Sohara

namespace CmpOp

/-- Whether the operator needs an order of its operands. -/
def isOrdering : CmpOp → Bool
  | .eq | .neq => false
  | _ => true

/-- The verdict of an operator on two values of an ordering, if any; `same` is whether
the values are equal. -/
def verdict (op : CmpOp) (ordering : Option Ordering) (same : Bool) : Option Bool :=
  match op, ordering with
  | .eq, some ordering => some ordering.isEq
  | .eq, none => some same
  | .neq, some ordering => some (!ordering.isEq)
  | .neq, none => some !same
  | .gt, some ordering => some ordering.isGT
  | .gte, some ordering => some ordering.isGE
  | .lt, some ordering => some ordering.isLT
  | .lte, some ordering => some ordering.isLE
  | _, none => none

end CmpOp

/-- What a comparison sees of a value; `L` orders the floats that are numbers. -/
inductive Reading (L : Type) where
  | number (key : L)
  /-- A float that is not a number. -/
  | nan
  | text (text : String)
  | other

namespace Reading

variable {L : Type} [LinearOrder L] {left middle right : Reading L}

/-- Whether all values of the reading are equal. -/
def isRanked : Reading L → Prop
  | .number _ | .text _ => True
  | .nan | .other => False

/-- The ordering of two readings, if they have one; `none` when a side is no number but
the other is. -/
def order : Reading L → Reading L → Option (Option Ordering)
  | .number left, .number right => some (some (compare left right))
  | .number _, .nan | .nan, .number _ | .nan, .nan => some none
  | .text left, .text right => some (some (compare left right))
  | .text _, .other | .other, .text _ | .other, .other => some none
  | _, _ => none

theorem order_swap (left right : Reading L) :
    order right left = (order left right).map (Option.map Ordering.swap) := by
  cases left <;> cases right <;> simp only [order, Option.map_some, Option.map_none]
  case number.number left right => rw [← Std.OrientedOrd.eq_swap]
  case text.text left right => rw [← Std.OrientedOrd.eq_swap]

/-- Readings that compare as equal are the same. -/
theorem eq_of_order (equal : order left right = some (some .eq)) : left = right := by
  cases left <;> cases right <;> simp only [order, Option.some.injEq, reduceCtorEq] at equal
  case number.number left right => rw [compare_eq_iff_eq.mp equal]
  case text.text left right => rw [Std.LawfulEqCmp.compare_eq_iff_eq.mp equal]

theorem order_self_of_isRanked (ranked : left.isRanked) : order left left = some (some .eq) := by
  cases left with
  | number key => simp [order]
  | text text => simp [order]
  | nan | other => exact ranked.elim

theorem order_self_of_not_isRanked (unranked : ¬left.isRanked) : order left left = some none := by
  cases left with
  | number | text => exact (unranked trivial).elim
  | nan | other => rfl

theorem order_trans (first : order left middle = some (some .lt))
    (second : order middle right = some (some .lt)) : order left right = some (some .lt) := by
  cases left <;> cases middle <;> cases right <;>
    simp only [order, Option.some.injEq, reduceCtorEq] at first second ⊢
  case number.number.number => exact Std.TransCmp.lt_trans first second
  case text.text.text => exact Std.TransCmp.lt_trans first second

end Reading

/-- The floats are a linear order, by their keys, and floats without a key that compare
with none. The two zeros have one key, and integers have keys. -/
structure Platform.Ordered (platform : Platform) {L : Type} [LinearOrder L]
    (key : F64 → Option L) : Prop where
  partialCmp : ∀ left right, platform.partialCmp left right =
    match key left, key right with
    | some left, some right => some (compare left right)
    | _, _ => none
  zeros : key 0x8000000000000000 = key 0
  ofInt : ∀ value, (key (platform.ofInt value)).isSome

/-- The comparison evaluates to a truth value. -/
def Decides (platform : Platform) (op : CmpOp) (left right : Value) (verdict : Bool) : Prop :=
  compareValues platform op left right = .ok (.bool verdict)

/-- The comparison fails. -/
def Errs (platform : Platform) (op : CmpOp) (left right : Value) : Prop :=
  ∃ failure, compareValues platform op left right = .error failure

section Reading

variable {platform : Platform} {L : Type} [LinearOrder L] {key : F64 → Option L}
variable {left middle right : Value} {op : CmpOp} {verdict : Bool}

variable (platform key) in
/-- What a comparison sees of a value. -/
def reading (value : Value) : Reading L :=
  match numeric? platform value, value with
  | some bits, _ =>
      match key bits with
      | some key => .number key
      | none => .nan
  | none, .string text => .text text
  | none, _ => .other

theorem toNumber_of_some {value : Value} {bits : F64}
    (numeric : numeric? platform value = some bits) : toNumber platform value = .ok bits := by
  cases value with
  | number number =>
      cases numeric
      rfl
  | string text =>
      change platform.parse text = some bits at numeric
      simp only [toNumber, numeric]
  | _ => cases numeric

theorem toNumber_of_none {value : Value} (plain : numeric? platform value = none) :
    ∃ failure, toNumber platform value = .error failure := by
  cases value with
  | number number => cases plain
  | string text =>
      change platform.parse text = none at plain
      simp only [toNumber, plain]
      exact ⟨_, rfl⟩
  | _ => exact ⟨_, rfl⟩

variable (platform) in
/-- The ordering of two values whose coercion succeeded. -/
def orderingOf (left right : Value) : Option (F64 × F64) → Option Ordering
  | some (left, right) => platform.partialCmp left right
  | none =>
      match left, right with
      | .string left, .string right => some (compare left right)
      | _, _ => none

theorem compareValues_eq : compareValues platform op left right =
    numericPair platform left right >>= fun pair =>
      match op.verdict (orderingOf platform left right pair) (left.beq right) with
      | some verdict => .ok (.bool verdict)
      | none => .error (.eval
          ("cannot compare " ++ left.text platform ++ " and " ++ right.text platform)) := by
  unfold compareValues
  refine congrArg _ (funext fun pair => ?_)
  rcases pair with _ | ⟨first, second⟩
  · cases left <;> cases right <;> cases op <;> rfl
  · cases ordering : platform.partialCmp first second <;> cases op <;>
      simp [orderingOf, ordering, CmpOp.verdict, pure, Except.pure]

/-- Once coerced, values compare by their ordering. -/
theorem decides_of_pair {pair : Option (F64 × F64)}
    (coerced : numericPair platform left right = .ok pair) :
    Decides platform op left right verdict ↔
      op.verdict (orderingOf platform left right pair) (left.beq right) = some verdict := by
  unfold Decides
  rw [compareValues_eq, coerced]
  change (match op.verdict (orderingOf platform left right pair) (left.beq right) with
    | some verdict => Except.ok (Value.bool verdict)
    | none => _) = _ ↔ _
  cases op.verdict (orderingOf platform left right pair) (left.beq right) <;> simp

/-- Numbers compare through their floats. -/
theorem decides_numbers {first second : F64} (leftNumeric : numeric? platform left = some first)
    (rightNumeric : numeric? platform right = some second) :
    Decides platform op left right verdict ↔
      op.verdict (platform.partialCmp first second) (left.beq right) = some verdict := by
  have coerced : numericPair platform left right = .ok (some (first, second)) := by
    simp only [numericPair, leftNumeric, rightNumeric, toNumber_of_some leftNumeric,
      toNumber_of_some rightNumeric]
    rfl
  exact decides_of_pair coerced

/-- Text that is no number is ordered as text; other values are only equal or not. -/
theorem decides_plain (leftPlain : numeric? platform left = none)
    (rightPlain : numeric? platform right = none) :
    Decides platform op left right verdict ↔
      op.verdict (orderingOf platform left right none) (left.beq right) = some verdict := by
  apply decides_of_pair
  simp only [numericPair, leftPlain, rightPlain]
  rfl

/-- An evaluated comparison is a truth value. -/
theorem errs_iff : Errs platform op left right ↔
    ∀ verdict, ¬Decides platform op left right verdict := by
  constructor
  · rintro ⟨failure, failed⟩ verdict decided
    cases failed.symm.trans decided
  · intro undecided
    cases evaluated : compareValues platform op left right with
    | error failure => exact ⟨failure, evaluated⟩
    | ok value =>
        have result := evaluated
        rw [compareValues_eq, Except.bind_eq_ok] at result
        obtain ⟨pair, -, result⟩ := result
        split at result
        case h_1 verdict _ =>
          cases result
          exact (undecided verdict evaluated).elim
        case h_2 => cases result

/-- A number does not compare with a value that is none. -/
theorem errs_of_mixed
    (mixed : (numeric? platform left).isSome ≠ (numeric? platform right).isSome) :
    Errs platform op left right := by
  have failed : ∃ failure, numericPair platform left right = .error failure := by
    cases leftNumeric : numeric? platform left with
    | none =>
        obtain ⟨failure, failed⟩ := toNumber_of_none leftNumeric
        cases rightNumeric : numeric? platform right with
        | none => simp [leftNumeric, rightNumeric] at mixed
        | some bits => exact ⟨failure, by simp [numericPair, leftNumeric, rightNumeric, failed,
            bind, Except.bind]⟩
    | some bits =>
        cases rightNumeric : numeric? platform right with
        | some bits => simp [leftNumeric, rightNumeric] at mixed
        | none =>
            obtain ⟨failure, failed⟩ := toNumber_of_none rightNumeric
            exact ⟨failure, by simp [numericPair, leftNumeric, rightNumeric, failed,
              toNumber_of_some leftNumeric, bind, Except.bind]⟩
  obtain ⟨failure, failed⟩ := failed
  unfold Errs
  rw [compareValues_eq, failed]
  exact ⟨failure, rfl⟩

/-- Comparisons see the readings of their operands, and whether these are equal. -/
theorem decides_iff (ordered : platform.Ordered key) :
    Decides platform op left right verdict ↔ ∃ ordering,
      (reading platform key left).order (reading platform key right) = some ordering ∧
        op.verdict ordering (left.beq right) = some verdict := by
  cases leftNumeric : numeric? platform left with
  | some first =>
      cases rightNumeric : numeric? platform right with
      | some second =>
          rw [decides_numbers leftNumeric rightNumeric, ordered.partialCmp]
          simp only [reading, leftNumeric, rightNumeric]
          cases key first <;> cases key second <;> simp [Reading.order]
      | none =>
          have errs : Errs platform op left right :=
            errs_of_mixed (by simp [leftNumeric, rightNumeric])
          refine ⟨fun decided => (errs_iff.mp errs verdict decided).elim, ?_⟩
          simp only [reading, leftNumeric, rightNumeric]
          cases key first <;> cases right <;> simp [Reading.order]
  | none =>
      cases rightNumeric : numeric? platform right with
      | some second =>
          have errs : Errs platform op left right :=
            errs_of_mixed (by simp [leftNumeric, rightNumeric])
          refine ⟨fun decided => (errs_iff.mp errs verdict decided).elim, ?_⟩
          simp only [reading, leftNumeric, rightNumeric]
          cases key second <;> cases left <;> simp [Reading.order]
      | none =>
          rw [decides_plain leftNumeric rightNumeric]
          simp only [reading, leftNumeric, rightNumeric]
          cases left <;> cases right <;> simp [Reading.order, orderingOf]

theorem Platform.Ordered.key_of_beq (ordered : platform.Ordered key) {left right : Number}
    (same : left.beq right = true) :
    key (left.asF64 platform) = key (right.asF64 platform) := by
  have zero : ∀ bits : F64, bits <<< 1 = 0 → key bits = key 0 := by
    intro bits shifted
    have doubled : bits.toNat * 2 % 2 ^ 64 = 0 := by
      simpa [Nat.shiftLeft_eq] using congrArg UInt64.toNat shifted
    have below := bits.toNat_lt
    by_cases positive : bits.toNat = 0
    · have same : bits = 0 := UInt64.toNat_inj.mp positive
      rw [same]
    · have negative : bits = 0x8000000000000000 := by
        apply UInt64.toNat_inj.mp
        change bits.toNat = 9223372036854775808
        omega
      rw [negative]
      exact ordered.zeros
  cases left <;> cases right <;> simp only [Number.beq, Bool.or_eq_true, Bool.and_eq_true,
    beq_iff_eq, Bool.false_eq_true] at same
  case posInt.posInt => rw [same]
  case negInt.negInt => rw [same]
  case float.float =>
    rcases same with same | ⟨left, right⟩
    · rw [same]
    · exact (zero _ left).trans (zero _ right).symm

/-- Equal values have the same reading. -/
theorem reading_eq_of_beq (ordered : platform.Ordered key) (same : left.beq right = true) :
    reading platform key left = reading platform key right := by
  cases left with
  | string text =>
      cases right <;> first
      | cases same
      | rw [Value.beq, beq_iff_eq] at same
        rw [same]
  | number number =>
      cases right with
      | number other => simp only [reading, numeric?, ordered.key_of_beq same]
      | _ => cases same
  | _ => cases right <;> first | rfl | cases same

/-- The comparison `==` holds of values of one reading, which are equal if values of that
reading may differ. -/
theorem decides_eq_iff (ordered : platform.Ordered key) : Decides platform .eq left right true ↔
    reading platform key left = reading platform key right ∧
      (¬(reading platform key left).isRanked → left.beq right = true) := by
  rw [decides_iff ordered]
  constructor
  · rintro ⟨_ | ordering, related, verdict⟩
    · have equal : left.beq right = true := Option.some.inj verdict
      exact ⟨reading_eq_of_beq ordered equal, fun _ => equal⟩
    · cases ordering with
      | eq =>
          have same := Reading.eq_of_order related
          refine ⟨same, fun unranked => ?_⟩
          rw [← same, Reading.order_self_of_not_isRanked unranked] at related
          cases related
      | lt | gt => cases verdict
  · rintro ⟨same, equal⟩
    rw [← same]
    by_cases ranked : (reading platform key left).isRanked
    · exact ⟨some .eq, Reading.order_self_of_isRanked ranked, rfl⟩
    · exact ⟨none, Reading.order_self_of_not_isRanked ranked, congrArg some (equal ranked)⟩

end Reading

/-- The laws of an order, of the comparisons of three values. -/
structure Coherent (platform : Platform) (a b c : Value) : Prop where
  neq_iff : ∀ verdict, Decides platform .neq a b verdict ↔ Decides platform .eq a b !verdict
  eq_symm : ∀ verdict, Decides platform .eq a b verdict ↔ Decides platform .eq b a verdict
  lt_iff_gt : Decides platform .lt a b true ↔ Decides platform .gt b a true
  lt_errs_iff : Errs platform .lt a b ↔ Errs platform .gt b a
  exactly_one : ∀ op, op.isOrdering = true → ¬Errs platform op a b →
    Decides platform .lt a b true ∧ Decides platform .eq a b false ∧
        Decides platform .gt a b false ∨
      Decides platform .lt a b false ∧ Decides platform .eq a b true ∧
        Decides platform .gt a b false ∨
      Decides platform .lt a b false ∧ Decides platform .eq a b false ∧
        Decides platform .gt a b true
  gte_iff : ∀ verdict, Decides platform .gte a b verdict ↔ Decides platform .lt a b !verdict
  lte_iff : ∀ verdict, Decides platform .lte a b verdict ↔ Decides platform .gt a b !verdict
  lt_trans : Decides platform .lt a b true → Decides platform .lt b c true →
    Decides platform .lt a c true
  eq_trans : Decides platform .eq a b true → Decides platform .eq b c true →
    Decides platform .eq a c true

section Coherence

variable {platform : Platform} {L : Type} [LinearOrder L] {key : F64 → Option L}
variable {a b c : Value} {op : CmpOp}

/-- Swapping the operands swaps their ordering. -/
theorem exists_order_swap (ordered : platform.Ordered key) (left right : CmpOp)
    {verdict : Bool}
    (swaps : ∀ ordering, left.verdict ordering (a.beq b) = some verdict ↔
      right.verdict (ordering.map Ordering.swap) (b.beq a) = some verdict) :
    Decides platform left a b verdict ↔ Decides platform right b a verdict := by
  rw [decides_iff ordered, decides_iff ordered,
    Reading.order_swap (reading platform key a) (reading platform key b)]
  constructor
  · rintro ⟨ordering, related, decided⟩
    exact ⟨_, by rw [related]; rfl, (swaps ordering).mp decided⟩
  · rintro ⟨swapped, related, decided⟩
    obtain ⟨ordering, found, rfl⟩ := Option.map_eq_some_iff.mp related
    exact ⟨ordering, found, (swaps ordering).mpr decided⟩

/-- Operators of one verdict on every ordering decide alike. -/
theorem decides_congr (ordered : platform.Ordered key) (left right : CmpOp) {first second : Bool}
    (alike : ∀ ordering, left.verdict ordering (a.beq b) = some first ↔
      right.verdict ordering (a.beq b) = some second) :
    Decides platform left a b first ↔ Decides platform right a b second := by
  rw [decides_iff ordered, decides_iff ordered]
  exact exists_congr fun ordering => and_congr_right fun _ => alike ordering

theorem decides_neq (ordered : platform.Ordered key) (verdict : Bool) :
    Decides platform .neq a b verdict ↔ Decides platform .eq a b !verdict := by
  refine decides_congr ordered .neq .eq fun ordering => ?_
  rcases ordering with _ | (_ | _ | _) <;> cases verdict <;> simp [CmpOp.verdict]

theorem decides_eq_symm (ordered : platform.Ordered key) (aFormed : a.Formed)
    (bFormed : b.Formed) (verdict : Bool) :
    Decides platform .eq a b verdict ↔ Decides platform .eq b a verdict := by
  have alike : a.beq b = b.beq a :=
    Bool.eq_iff_iff.mpr ⟨Value.beq_symm aFormed bFormed, Value.beq_symm bFormed aFormed⟩
  refine exists_order_swap ordered .eq .eq fun ordering => ?_
  rw [alike]
  rcases ordering with _ | (_ | _ | _) <;> rfl

theorem decides_lt_swap (ordered : platform.Ordered key) (verdict : Bool) :
    Decides platform .lt a b verdict ↔ Decides platform .gt b a verdict := by
  refine exists_order_swap ordered .lt .gt fun ordering => ?_
  rcases ordering with _ | (_ | _ | _) <;> rfl

theorem decides_lt_iff (ordered : platform.Ordered key) :
    Decides platform .lt a b true ↔
      (reading platform key a).order (reading platform key b) = some (some .lt) := by
  rw [decides_iff ordered]
  constructor
  · rintro ⟨_ | ordering, related, verdict⟩
    · cases verdict
    · cases ordering with
      | lt => exact related
      | eq | gt => cases verdict
  · intro related
    exact ⟨_, related, rfl⟩

/-- An ordering operator decides only values of some ordering. -/
theorem exists_ordering (ordered : platform.Ordered key) (ordering : op.isOrdering = true)
    (decided : ¬Errs platform op a b) : ∃ place,
      (reading platform key a).order (reading platform key b) = some (some place) := by
  rw [errs_iff] at decided
  push Not at decided
  obtain ⟨verdict, decided⟩ := decided
  obtain ⟨_ | place, related, holds⟩ := (decides_iff ordered).mp decided
  · cases op with
    | eq | neq => cases ordering
    | _ => cases holds
  · exact ⟨place, related⟩

theorem exactly_one (ordered : platform.Ordered key) (ordering : op.isOrdering = true)
    (decided : ¬Errs platform op a b) :
    Decides platform .lt a b true ∧ Decides platform .eq a b false ∧
        Decides platform .gt a b false ∨
      Decides platform .lt a b false ∧ Decides platform .eq a b true ∧
        Decides platform .gt a b false ∨
      Decides platform .lt a b false ∧ Decides platform .eq a b false ∧
        Decides platform .gt a b true := by
  obtain ⟨place, related⟩ := exists_ordering ordered ordering decided
  have decides : ∀ {op : CmpOp} {verdict : Bool},
      op.verdict (some place) (a.beq b) = some verdict → Decides platform op a b verdict :=
    fun holds => (decides_iff ordered).mpr ⟨some place, related, holds⟩
  cases place with
  | lt => exact .inl ⟨decides rfl, decides rfl, decides rfl⟩
  | eq => exact .inr (.inl ⟨decides rfl, decides rfl, decides rfl⟩)
  | gt => exact .inr (.inr ⟨decides rfl, decides rfl, decides rfl⟩)

theorem decides_eq_trans (ordered : platform.Ordered key)
    (first : Decides platform .eq a b true) (second : Decides platform .eq b c true) :
    Decides platform .eq a c true := by
  obtain ⟨same, equal⟩ := (decides_eq_iff ordered).mp first
  obtain ⟨alike, other⟩ := (decides_eq_iff ordered).mp second
  refine (decides_eq_iff ordered).mpr ⟨same.trans alike, fun unranked => ?_⟩
  exact Value.beq_trans (equal unranked) (other (same ▸ unranked))

/-- Comparisons of JSON values are coherent. -/
theorem comparisons_coherent (ordered : platform.Ordered key) (aFormed : a.Formed)
    (bFormed : b.Formed) : Coherent platform a b c where
  neq_iff verdict := decides_neq ordered verdict
  eq_symm verdict := decides_eq_symm ordered aFormed bFormed verdict
  lt_iff_gt := decides_lt_swap ordered true
  lt_errs_iff := by
    rw [errs_iff, errs_iff]
    exact forall_congr' fun verdict => not_congr (decides_lt_swap ordered verdict)
  exactly_one _ ordering decided := exactly_one ordered ordering decided
  gte_iff verdict := by
    refine decides_congr ordered .gte .lt fun ordering => ?_
    rcases ordering with _ | (_ | _ | _) <;> cases verdict <;> simp [CmpOp.verdict]
  lte_iff verdict := by
    refine decides_congr ordered .lte .gt fun ordering => ?_
    rcases ordering with _ | (_ | _ | _) <;> cases verdict <;> simp [CmpOp.verdict]
  lt_trans first second := by
    rw [decides_lt_iff ordered] at first second ⊢
    exact Reading.order_trans first second
  eq_trans := decides_eq_trans ordered

end Coherence

namespace Sample

/-- The place of a float among the numbers: its magnitude, with its sign. -/
def floatPlace (bits : F64) : Option Int :=
  let magnitude : Nat := bits.toNat % 2 ^ 63
  if magnitude ≤ 0x7FF0000000000000 then
    some (if bits.toNat < 2 ^ 63 then (magnitude : Int) else -(magnitude : Int))
  else none

/-- Some integers, their texts, and their floats. -/
def smallNumbers : List (Int × String × F64) :=
  [(0, "0", 0), (1, "1", 0x3FF0000000000000), (2, "2", 0x4000000000000000),
    (18, "18", 0x4032000000000000)]

/-- A platform that orders the floats, and knows the numbers from a list. -/
def numbers : Platform where
  ofInt value := ((smallNumbers.find? fun entry => entry.1 = value).map (·.2.2)).getD 0
  add _ _ := 0
  sub _ _ := 0
  mul _ _ := 0
  div _ _ := 0
  rem _ _ := 0
  abs bits := bits
  fract _ := 0
  isFinite bits := decide (bits.toNat % 2 ^ 63 < 0x7FF0000000000000)
  partialCmp left right :=
    match floatPlace left, floatPlace right with
    | some left, some right => some (compare left right)
    | _, _ => none
  toI64 _ := 0
  parse text :=
    if text = "nan" then some 0x7FF8000000000000
    else (smallNumbers.find? fun entry => entry.2.1 = text).map (·.2.2)
  display bits := ((smallNumbers.find? fun entry => entry.2.2 = bits).map (·.2.1)).getD "0"
  getenv _ := none
  hash text := text.hash

theorem numbers_ordered : numbers.Ordered floatPlace where
  partialCmp left right := by
    simp only [numbers]
    cases floatPlace left <;> cases floatPlace right <;> rfl
  zeros := by decide
  ofInt value := by
    cases found : smallNumbers.find? fun entry => entry.1 = value with
    | none => simp only [numbers, found]; decide
    | some entry =>
        simp only [numbers, found, Option.map_some, Option.getD_some]
        have listed : ∀ entry ∈ smallNumbers, (floatPlace entry.2.2).isSome := by decide
        exact listed entry (List.mem_of_find?_eq_some found)

theorem text_comparisons_coherent :
    Coherent numbers (.string "1") (.number (.posInt 2)) (.string "nan") :=
  comparisons_coherent numbers_ordered trivial trivial

/-- A number is found below text of a greater one, and text that is no number is not
ordered against it. -/
example : Decides numbers .lt (.number (.posInt 1)) (.string "2") true ∧
    Decides numbers .eq (.string "nan") (.string "nan") true ∧
    ¬Decides numbers .lte (.string "nan") (.string "nan") true :=
  ⟨rfl, rfl, fun decided => nomatch decided⟩

end Sample

end Sohara
