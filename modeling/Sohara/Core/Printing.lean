import Sohara.Core.Parser

/-! # Printing expressions

Expressions print with parentheses only where an operand binds looser than its place
requires, and strings with backslashes before quotes and backslashes. The text of an
expression is tokenized into its tokens, whatever closes it, and these are parsed into
the expression again.
-/

namespace Sohara

open Parsing (Reads Opens parseChain separated)

/-- The symbol of a comparison. -/
def CmpOp.sym : CmpOp → Sym
  | .eq => .eqEq
  | .neq => .notEq
  | .gt => .gt
  | .gte => .gte
  | .lt => .lt
  | .lte => .lte

/-- The text of a comparison. -/
def CmpOp.text : CmpOp → List Char
  | .eq => ['=', '=']
  | .neq => ['!', '=']
  | .gt => ['>']
  | .gte => ['>', '=']
  | .lt => ['<']
  | .lte => ['<', '=']

/-- Text with backslashes before quotes and backslashes. -/
def escaped (text : List Char) : List Char :=
  text.flatMap fun char => if char = '"' ∨ char = '\\' then ['\\', char] else [char]

/-- A string literal. -/
def quoted (text : String) : List Char := '"' :: escaped text.toList ++ ['"']

/-- An operator between spaces. -/
def spaced (operator : List Char) : List Char := ' ' :: operator ++ [' ']

/-- Text in parentheses, where its level is below the required one. -/
def enclosed (required level : Nat) (text : List Char) : List Char :=
  if level < required then '(' :: text ++ [')'] else text

/-- Tokens in parentheses, where their level is below the required one. -/
def wrapped (required level : Nat) (tokens : List Token) : List Token :=
  if level < required then .sym .lParen :: tokens ++ [.sym .rParen] else tokens

namespace Expr

/-- How tight the outermost operator binds: `or`, `and`, `not`, comparisons, sums,
products, and everything else. -/
def level : Expr → Nat
  | .or .. => 1
  | .and .. => 2
  | .not _ => 3
  | .cmp .. | .member .. => 4
  | .add .. | .sub .. => 5
  | .mul .. | .div .. | .rem .. => 6
  | _ => 7

section Print

variable (platform : Platform)

/-- The text of a literal. -/
def printLiteral : Value → List Char
  | .string text => quoted text
  | value => (value.text platform).toList

mutual

/-- The text of an expression. -/
def print : Expr → List Char
  | .lit value => printLiteral platform value
  | .path segments => '$' :: segments.flatMap fun segment => '.' :: segment.toList
  | .list items => '[' :: printAll items ++ [']']
  | .not inner => "not".toList ++ ' ' :: enclosed 3 inner.level (print inner)
  | .or lhs rhs =>
      enclosed 1 lhs.level (print lhs) ++ spaced "or".toList ++ enclosed 2 rhs.level (print rhs)
  | .and lhs rhs =>
      enclosed 2 lhs.level (print lhs) ++ spaced "and".toList ++ enclosed 3 rhs.level (print rhs)
  | .cmp op lhs rhs =>
      enclosed 4 lhs.level (print lhs) ++ spaced op.text ++
        enclosed 5 rhs.level (print rhs)
  | .member lhs rhs =>
      enclosed 4 lhs.level (print lhs) ++ spaced "in".toList ++ enclosed 5 rhs.level (print rhs)
  | .add lhs rhs =>
      enclosed 5 lhs.level (print lhs) ++ spaced ['+'] ++ enclosed 6 rhs.level (print rhs)
  | .sub lhs rhs =>
      enclosed 5 lhs.level (print lhs) ++ spaced ['-'] ++ enclosed 6 rhs.level (print rhs)
  | .mul lhs rhs =>
      enclosed 6 lhs.level (print lhs) ++ spaced ['*'] ++ enclosed 7 rhs.level (print rhs)
  | .div lhs rhs =>
      enclosed 6 lhs.level (print lhs) ++ spaced ['/'] ++ enclosed 7 rhs.level (print rhs)
  | .rem lhs rhs =>
      enclosed 6 lhs.level (print lhs) ++ spaced ['%'] ++ enclosed 7 rhs.level (print rhs)
  | .call name args => name.toList ++ '(' :: printAll args ++ [')']

/-- The texts of some expressions, with commas between them. -/
def printAll : List Expr → List Char
  | [] => []
  | [item] => print item
  | item :: rest => print item ++ ", ".toList ++ printAll rest

end

end Print

/-- The tokens of a literal. -/
def literalTokens : Value → List Token
  | .null => [.ident "null"]
  | .bool value => [.ident (if value then "true" else "false")]
  | .number (.float bits) => [.number bits]
  | .string text => [.string text]
  | _ => []

mutual

/-- The tokens of an expression. -/
def tokens : Expr → List Token
  | .lit value => literalTokens value
  | .path segments => .sym .dollar :: segments.flatMap fun segment => [.sym .dot, .ident segment]
  | .list items => .sym .lBracket :: tokensAll items ++ [.sym .rBracket]
  | .not inner => .ident "not" :: wrapped 3 inner.level (tokens inner)
  | .or lhs rhs =>
      wrapped 1 lhs.level (tokens lhs) ++ .ident "or" :: wrapped 2 rhs.level (tokens rhs)
  | .and lhs rhs =>
      wrapped 2 lhs.level (tokens lhs) ++ .ident "and" :: wrapped 3 rhs.level (tokens rhs)
  | .cmp op lhs rhs =>
      wrapped 4 lhs.level (tokens lhs) ++ .sym op.sym :: wrapped 5 rhs.level (tokens rhs)
  | .member lhs rhs =>
      wrapped 4 lhs.level (tokens lhs) ++ .ident "in" :: wrapped 5 rhs.level (tokens rhs)
  | .add lhs rhs =>
      wrapped 5 lhs.level (tokens lhs) ++ .sym .plus :: wrapped 6 rhs.level (tokens rhs)
  | .sub lhs rhs =>
      wrapped 5 lhs.level (tokens lhs) ++ .sym .minus :: wrapped 6 rhs.level (tokens rhs)
  | .mul lhs rhs =>
      wrapped 6 lhs.level (tokens lhs) ++ .sym .star :: wrapped 7 rhs.level (tokens rhs)
  | .div lhs rhs =>
      wrapped 6 lhs.level (tokens lhs) ++ .sym .slash :: wrapped 7 rhs.level (tokens rhs)
  | .rem lhs rhs =>
      wrapped 6 lhs.level (tokens lhs) ++ .sym .percent :: wrapped 7 rhs.level (tokens rhs)
  | .call name args => .ident name :: .sym .lParen :: tokensAll args ++ [.sym .rParen]

/-- The tokens of some expressions, with commas between them. -/
def tokensAll : List Expr → List Token
  | [] => []
  | [item] => tokens item
  | item :: rest => tokens item ++ .sym .comma :: tokensAll rest

end

end Expr

/-- The text is an identifier. -/
def IsIdent (name : String) : Prop :=
  ∃ first rest, name.toList = first :: rest ∧ isIdentStart first = true ∧
    ∀ char ∈ rest, isIdentChar char = true

theorem isIdent_of {name : String} (first : Char) (rest : List Char)
    (text : name.toList = first :: rest) (starts : isIdentStart first = true)
    (continues : rest.all isIdentChar = true) : IsIdent name :=
  ⟨first, rest, text, starts, List.all_eq_true.mp continues⟩

/-- The printer spells a number in digits and dots, and reading returns it; so it does on
finite numbers that are not negative. -/
structure Rereads (platform : Platform) (bits : F64) : Prop where
  finite : platform.isFinite bits = true
  spelled : ∃ first rest, (platform.display bits).toList = first :: rest ∧
    first.isDigit = true ∧ ∀ char ∈ rest, isNumberChar char = true
  parsed : platform.parse (platform.display bits) = some bits

/-- Names that do not start a call of arbitrary arguments. -/
def reservedNames : List String :=
  ["true", "false", "null", "not", "and", "or", "in", "env", "var"]

section Printable

variable (platform : Platform)

/-- Literals of the language. -/
def PrintableLiteral : Value → Prop
  | .null | .bool _ | .string _ => True
  | .number (.float bits) => Rereads platform bits
  | _ => False

mutual

/-- Expressions of the language. -/
def Printable : Expr → Prop
  | .lit value => PrintableLiteral platform value
  | .path segments => segments ≠ [] ∧ ∀ segment ∈ segments, IsIdent segment
  | .list items => PrintableAll items
  | .not inner => Printable inner
  | .or lhs rhs | .and lhs rhs | .cmp _ lhs rhs | .member lhs rhs | .add lhs rhs | .sub lhs rhs
  | .mul lhs rhs | .div lhs rhs | .rem lhs rhs => Printable lhs ∧ Printable rhs
  | .call name args =>
      ((name = "env" ∨ name = "var") ∧ ∃ text, args = [.lit (.string text)]) ∨
        (IsIdent name ∧ name ∉ reservedNames ∧ PrintableAll args)

/-- The expressions are of the language. -/
def PrintableAll : List Expr → Prop
  | [] => True
  | item :: rest => Printable item ∧ PrintableAll rest

end

end Printable

section Lexing

variable {platform : Platform}

/-- What may follow an expression: a space or a closing symbol. -/
def Closes (rest : List Char) : Prop :=
  ∀ char ∈ rest.head?, char = ' ' ∨ char = ')' ∨ char = ']' ∨ char = ','

/-- More tokens in front of a result. -/
def prepend (tokens : List Token) (result : Except ExprError (List Token)) :
    Except ExprError (List Token) :=
  (tokens ++ ·) <$> result

theorem prepend_prepend (first second : List Token) (result : Except ExprError (List Token)) :
    prepend first (prepend second result) = prepend (first ++ second) result := by
  cases result with
  | error => rfl
  | ok tokens => exact congrArg Except.ok (List.append_assoc ..).symm

@[simp] theorem prepend_nil (result : Except ExprError (List Token)) :
    prepend [] result = result := by
  cases result <;> rfl

variable (platform) in
/-- The text is tokenized into the tokens, whatever closes it. -/
def Lexes (text : List Char) (tokens : List Token) : Prop :=
  ∀ rest, Closes rest → tokenize platform (text ++ rest) = prepend tokens (tokenize platform rest)

theorem tokenize_symbol {char : Char} {sym : Sym} (symbolic : symbol char = some sym)
    (rest : List Char) :
    tokenize platform (char :: rest) = prepend [.sym sym] (tokenize platform rest) := by
  have black : isWhitespace char = false := by
    unfold symbol at symbolic
    split at symbolic <;> first | rfl | cases symbolic
  refine tokenize_token black ?_
  unfold nextToken
  rw [symbolic]

/-- The characters of a kind end where one of another kind follows. -/
theorem span_append {kind : Char → Bool} {word rest : List Char}
    (alike : ∀ char ∈ word, kind char = true) (stops : ∀ char ∈ rest.head?, kind char = false) :
    (word ++ rest).takeWhile kind = word ∧ (word ++ rest).dropWhile kind = rest := by
  have none : rest.takeWhile kind = [] ∧ rest.dropWhile kind = rest := by
    cases rest with
    | nil => exact ⟨rfl, rfl⟩
    | cons char rest =>
        have stop := stops char rfl
        exact ⟨List.takeWhile_cons_of_neg (by simp [stop]),
          List.dropWhile_cons_of_neg (by simp [stop])⟩
  rw [List.takeWhile_append_of_pos alike, List.dropWhile_append_of_pos alike, none.1, none.2,
    List.append_nil]
  exact ⟨rfl, rfl⟩

theorem code_of_start {char : Char} (start : isIdentStart char = true) :
    65 ≤ char.toNat ∧ char.toNat ≤ 90 ∨ 97 ≤ char.toNat ∧ char.toNat ≤ 122 ∨
      char.toNat = 95 := by
  change ((decide (65 ≤ char.val ∧ char.val ≤ 90) ||
    (decide (97 ≤ char.val) && decide (char.val ≤ 122))) || char == '_') = true at start
  simp only [Bool.or_eq_true, Bool.and_eq_true, decide_eq_true_eq, beq_iff_eq,
    UInt32.le_iff_toNat_le] at start
  rcases start with (upper | lower) | rfl
  · exact .inl upper
  · exact .inr (.inl lower)
  · exact .inr (.inr rfl)

theorem code_of_digit {char : Char} (digit : char.isDigit = true) :
    48 ≤ char.toNat ∧ char.toNat ≤ 57 := by
  simp only [Char.isDigit, Bool.and_eq_true, decide_eq_true_eq, UInt32.le_iff_toNat_le,
    ge_iff_le] at digit
  exact digit

theorem isWhitespace_of_printing {char : Char} (above : 0x20 < char.toNat)
    (below : char.toNat < 0x7F) : isWhitespace char = false := by
  simp only [isWhitespace, Bool.or_eq_false_iff, Bool.and_eq_false_iff, decide_eq_false_iff_not,
    beq_eq_false_iff_ne]
  omega

/-- Letters and digits are no symbols, operators or quotes. -/
theorem plain_of_code {char : Char} (code : 48 ≤ char.toNat ∧ char.toNat ≤ 57 ∨
      65 ≤ char.toNat ∧ char.toNat ≤ 90 ∨ 97 ≤ char.toNat ∧ char.toNat ≤ 122 ∨
      char.toNat = 95) :
    isWhitespace char = false ∧ symbol char = none ∧
      ¬(char = '=' ∨ char = '!' ∨ char = '>' ∨ char = '<') ∧ ¬(char = '"' ∨ char = '\'') := by
  refine ⟨isWhitespace_of_printing (by omega) (by omega), ?_, ?_, ?_⟩
  · unfold symbol
    split <;> first | rfl | exact absurd code (by decide)
  · rintro (rfl | rfl | rfl | rfl) <;> exact absurd code (by decide)
  · rintro (rfl | rfl) <;> exact absurd code (by decide)

theorem tokenize_ident (name : String) (ident : IsIdent name) {rest : List Char}
    (stops : ∀ char ∈ rest.head?, isIdentChar char = false) :
    tokenize platform (name.toList ++ rest) = prepend [.ident name] (tokenize platform rest) := by
  obtain ⟨first, others, spelled, start, chars⟩ := ident
  have code := code_of_start start
  obtain ⟨black, noSymbol, noOperator, noQuote⟩ := plain_of_code (.inr code)
  have noDigit : ¬first.isDigit = true := by
    intro digit
    have range := code_of_digit digit
    omega
  have spans := span_append (List.forall_mem_cons.mpr ⟨isIdentChar_of_start start, chars⟩) stops
  rw [List.cons_append] at spans
  rw [spelled, List.cons_append]
  refine tokenize_token black ?_
  unfold nextToken
  rw [noSymbol]
  simp only [if_neg noOperator, if_neg noQuote, if_neg noDigit, if_pos start, readIdent, spans.1,
    spans.2, ← spelled, String.ofList_toList]

theorem tokenize_number {bits : F64} (rereads : Rereads platform bits) {rest : List Char}
    (stops : ∀ char ∈ rest.head?, isNumberChar char = false) :
    tokenize platform ((platform.display bits).toList ++ rest) =
      prepend [.number bits] (tokenize platform rest) := by
  obtain ⟨first, others, spelled, digit, chars⟩ := rereads.spelled
  obtain ⟨black, noSymbol, noOperator, noQuote⟩ := plain_of_code (.inl (code_of_digit digit))
  have numeric : isNumberChar first = true := by simp [isNumberChar, digit]
  have spans := span_append (List.forall_mem_cons.mpr ⟨numeric, chars⟩) stops
  rw [List.cons_append] at spans
  rw [spelled, List.cons_append]
  refine tokenize_token black ?_
  unfold nextToken
  rw [noSymbol]
  simp only [if_neg noOperator, if_neg noQuote, if_pos digit, readNumber, spans.1, spans.2,
    ← spelled, String.ofList_toList, rereads.parsed]
  rfl

/-- Reading a string undoes its escapes. -/
theorem readString_escaped (text rest : List Char) :
    readString '"' (escaped text ++ '"' :: rest) = .ok (text, rest) := by
  induction text with
  | nil => rfl
  | cons char text ih =>
      unfold escaped at ih ⊢
      rw [List.flatMap_cons, List.append_assoc]
      by_cases special : char = '"' ∨ char = '\\'
      · rw [if_pos special]
        simp only [List.cons_append, List.nil_append, readString, ih]
        rfl
      · rw [if_neg special]
        rw [not_or] at special
        simp only [List.cons_append, List.nil_append]
        rw [readString, if_neg special.1, ih]
        · rfl
        · exact fun same _ => special.2 same
        · exact fun _ _ same _ => special.2 same

theorem lexes_quoted (text : String) : Lexes platform (quoted text) [.string text] := by
  intro rest _
  unfold quoted
  rw [List.append_assoc, List.cons_append, List.singleton_append]
  refine tokenize_token rfl ?_
  change (do
    let read ← readString '"' (escaped text.toList ++ '"' :: rest)
    return (Token.string (String.ofList read.1), read.2)) = _
  rw [readString_escaped]
  change Except.ok (Token.string (String.ofList text.toList), rest) = _
  rw [String.ofList_toList]

theorem Closes.stops {rest : List Char} (closes : Closes rest) :
    (∀ char ∈ rest.head?, isIdentChar char = false) ∧
      ∀ char ∈ rest.head?, isNumberChar char = false := by
  constructor <;> intro char first <;> rcases closes char first with rfl | rfl | rfl | rfl <;> rfl

theorem closes_nil : Closes [] := fun _ member => nomatch member

theorem closes_cons {char : Char} {rest : List Char}
    (closing : char = ' ' ∨ char = ')' ∨ char = ']' ∨ char = ',') : Closes (char :: rest) := by
  rintro _ ⟨⟩
  exact closing

theorem Lexes.enclosed {text : List Char} {tokens : List Token}
    (lexes : Lexes platform text tokens) (required level : Nat) :
    Lexes platform (enclosed required level text) (wrapped required level tokens) := by
  unfold Sohara.enclosed wrapped
  split
  · intro rest closes
    have opening : symbol '(' = some .lParen := rfl
    have closing : symbol ')' = some .rParen := rfl
    rw [List.append_assoc, List.singleton_append, List.cons_append, tokenize_symbol opening,
      lexes _ (closes_cons (.inr (.inl rfl))), tokenize_symbol closing, prepend_prepend,
      prepend_prepend]
    rfl
  · exact lexes

/-- A word between spaces. -/
theorem tokenize_word (name : String) (ident : IsIdent name) (rest : List Char) :
    tokenize platform (' ' :: name.toList ++ ' ' :: rest) =
      prepend [.ident name] (tokenize platform rest) := by
  rw [List.cons_append, tokenize_white rfl,
    tokenize_ident name ident (closes_cons (.inl rfl)).stops.1,
    tokenize_white rfl]

theorem tokenize_cmp (op : CmpOp) (rest : List Char) :
    tokenize platform (' ' :: op.text ++ ' ' :: rest) =
      prepend [.sym op.sym] (tokenize platform rest) := by
  rw [List.cons_append, tokenize_white rfl]
  cases op <;> exact (tokenize_token rfl rfl).trans (congrArg _ (tokenize_white rfl))

/-- A symbol between spaces. -/
theorem tokenize_operator {char : Char} {sym : Sym} (symbolic : symbol char = some sym)
    (rest : List Char) :
    tokenize platform (' ' :: [char] ++ ' ' :: rest) =
      prepend [.sym sym] (tokenize platform rest) := by
  rw [List.cons_append, tokenize_white rfl, List.singleton_append, tokenize_symbol symbolic,
    tokenize_white rfl]

/-- Operands with an operator between them, in spaces. -/
theorem Lexes.operator {lhs rhs text : List Char} {lhsTokens rhsTokens : List Token}
    {token : Token} (left : Lexes platform lhs lhsTokens) (right : Lexes platform rhs rhsTokens)
    (operates : ∀ rest, tokenize platform (' ' :: text ++ ' ' :: rest) =
      prepend [token] (tokenize platform rest)) :
    Lexes platform (lhs ++ spaced text ++ rhs) (lhsTokens ++ token :: rhsTokens) := by
  intro rest closes
  have shape : lhs ++ spaced text ++ rhs ++ rest =
      lhs ++ (' ' :: text ++ ' ' :: (rhs ++ rest)) := by
    simp [spaced]
  rw [shape, left (' ' :: text ++ ' ' :: (rhs ++ rest)) (closes_cons (.inl rfl)), operates,
    right rest closes, prepend_prepend,
    prepend_prepend, List.append_assoc]
  rfl

theorem tokenize_segments {segments : List String} (idents : ∀ name ∈ segments, IsIdent name)
    {rest : List Char} (closes : Closes rest) :
    tokenize platform ((segments.flatMap fun segment => '.' :: segment.toList) ++ rest) =
      prepend (segments.flatMap fun segment => [.sym .dot, .ident segment])
        (tokenize platform rest) := by
  induction segments with
  | nil => simp
  | cons segment segments ih =>
      obtain ⟨ident, idents⟩ := List.forall_mem_cons.mp idents
      have stops : ∀ char ∈ ((segments.flatMap fun segment => '.' :: segment.toList) ++ rest).head?,
          isIdentChar char = false := by
        cases segments with
        | nil => exact closes.stops.1
        | cons next segments =>
            rintro _ ⟨⟩
            rfl
      have dotted : symbol '.' = some .dot := rfl
      rw [List.flatMap_cons, List.append_assoc, List.cons_append, tokenize_symbol dotted,
        tokenize_ident segment ident stops, ih idents, prepend_prepend,
        prepend_prepend]
      rfl

theorem lexes_literal {value : Value} (printable : PrintableLiteral platform value) :
    Lexes platform (Expr.printLiteral platform value) (Expr.literalTokens value) := by
  have word : ∀ name : String, IsIdent name → Lexes platform name.toList [.ident name] :=
    fun name ident rest closes => tokenize_ident name ident closes.stops.1
  cases value with
  | null => exact word "null" (isIdent_of 'n' ['u', 'l', 'l'] rfl rfl rfl)
  | bool flag =>
      cases flag with
      | true => exact word "true" (isIdent_of 't' ['r', 'u', 'e'] rfl rfl rfl)
      | false => exact word "false" (isIdent_of 'f' ['a', 'l', 's', 'e'] rfl rfl rfl)
  | number number =>
      cases number with
      | float bits => exact fun rest closes => tokenize_number printable closes.stops.2
      | posInt | negInt => exact printable.elim
  | string text => exact lexes_quoted text
  | array | object => exact printable.elim

/-- A list in the brackets of its symbols. -/
theorem Lexes.bracketed {opening closing : Char} {openSym closeSym : Sym} {text : List Char}
    {tokens : List Token} (lexes : Lexes platform text tokens)
    (opens : symbol opening = some openSym) (closes : symbol closing = some closeSym)
    (ends : closing = ')' ∨ closing = ']') (rest : List Char) :
    tokenize platform (opening :: text ++ [closing] ++ rest) =
      prepend (.sym openSym :: tokens ++ [.sym closeSym]) (tokenize platform rest) := by
  rw [List.append_assoc, List.singleton_append, List.cons_append, tokenize_symbol opens,
    lexes _ (closes_cons (.inr (ends.imp_right Or.inl))), tokenize_symbol closes, prepend_prepend,
    prepend_prepend]
  rfl

theorem printableAll_of_call {name : String} {args : List Expr}
    (printable : Printable platform (.call name args)) :
    IsIdent name ∧ PrintableAll platform args := by
  rcases printable with ⟨rfl | rfl, text, rfl⟩ | ⟨ident, -, printable⟩
  · exact ⟨isIdent_of 'e' ['n', 'v'] rfl rfl rfl, trivial, trivial⟩
  · exact ⟨isIdent_of 'v' ['a', 'r'] rfl rfl rfl, trivial, trivial⟩
  · exact ⟨ident, printable⟩

mutual

/-- The text of an expression is tokenized into its tokens. -/
theorem lexes_print (expr : Expr) (printable : Printable platform expr) :
    Lexes platform (expr.print platform) expr.tokens := by
  cases expr with
  | lit value => exact lexes_literal printable
  | path segments =>
      intro rest closes
      have dollar : symbol '$' = some .dollar := rfl
      rw [Expr.print, List.cons_append, tokenize_symbol dollar,
        tokenize_segments printable.2 closes, prepend_prepend]
      rfl
  | list items =>
      intro rest _
      exact (lexes_printAll items printable).bracketed rfl rfl (.inr rfl) rest
  | not inner =>
      intro rest closes
      have lexes := (lexes_print inner printable).enclosed 3 inner.level
      have word := @tokenize_ident platform "not" (isIdent_of 'n' ['o', 't'] rfl rfl rfl)
        (' ' :: (enclosed 3 inner.level (inner.print platform) ++ rest))
        (closes_cons (.inl rfl)).stops.1
      change tokenize platform ("not".toList ++
        ' ' :: (enclosed 3 inner.level (inner.print platform) ++ rest)) = _
      rw [word, tokenize_white rfl, lexes rest closes, prepend_prepend]
      rfl
  | or lhs rhs =>
      exact ((lexes_print lhs printable.1).enclosed 1 _).operator
        ((lexes_print rhs printable.2).enclosed 2 _)
        (tokenize_word "or" (isIdent_of 'o' ['r'] rfl rfl rfl))
  | and lhs rhs =>
      exact ((lexes_print lhs printable.1).enclosed 2 _).operator
        ((lexes_print rhs printable.2).enclosed 3 _)
        (tokenize_word "and" (isIdent_of 'a' ['n', 'd'] rfl rfl rfl))
  | cmp op lhs rhs =>
      exact ((lexes_print lhs printable.1).enclosed 4 _).operator
        ((lexes_print rhs printable.2).enclosed 5 _) (tokenize_cmp op)
  | member lhs rhs =>
      exact ((lexes_print lhs printable.1).enclosed 4 _).operator
        ((lexes_print rhs printable.2).enclosed 5 _)
        (tokenize_word "in" (isIdent_of 'i' ['n'] rfl rfl rfl))
  | add lhs rhs | sub lhs rhs =>
      exact ((lexes_print lhs printable.1).enclosed 5 _).operator
        ((lexes_print rhs printable.2).enclosed 6 _) (tokenize_operator rfl)
  | mul lhs rhs | div lhs rhs | rem lhs rhs =>
      exact ((lexes_print lhs printable.1).enclosed 6 _).operator
        ((lexes_print rhs printable.2).enclosed 7 _) (tokenize_operator rfl)
  | call name args =>
      intro rest _
      obtain ⟨ident, printable⟩ := printableAll_of_call printable
      have opening : symbol '(' = some .lParen := rfl
      have closing : symbol ')' = some .rParen := rfl
      have bracketed :=
        (lexes_printAll args printable).bracketed opening closing (.inl rfl) rest
      have stops : ∀ char ∈ ('(' :: Expr.printAll platform args ++ [')'] ++ rest).head?,
          isIdentChar char = false := by
        rintro _ ⟨⟩
        rfl
      have shape : Expr.print platform (.call name args) ++ rest =
          name.toList ++ ('(' :: Expr.printAll platform args ++ [')'] ++ rest) := by
        simp [Expr.print]
      rw [shape, tokenize_ident name ident stops, bracketed, prepend_prepend]
      rfl

theorem lexes_printAll (items : List Expr) (printable : PrintableAll platform items) :
    Lexes platform (Expr.printAll platform items) (Expr.tokensAll items) := by
  cases items with
  | nil => exact fun rest _ => (prepend_nil _).symm
  | cons item rest =>
      have lexes := lexes_print item printable.1
      cases rest with
      | nil => exact lexes
      | cons next rest =>
          have others := lexes_printAll (next :: rest) printable.2
          have comma : symbol ',' = some .comma := rfl
          intro after closes
          have shape : Expr.printAll platform (item :: next :: rest) =
              item.print platform ++ (',' :: ' ' :: Expr.printAll platform (next :: rest)) :=
            List.append_assoc ..
          rw [shape, List.append_assoc, List.cons_append, List.cons_append,
            lexes _ (closes_cons (.inr (.inr (.inr rfl)))), tokenize_symbol comma,
            tokenize_white rfl, others after closes,
            prepend_prepend, prepend_prepend, List.append_assoc]
          rfl

end

end Lexing

end Sohara
