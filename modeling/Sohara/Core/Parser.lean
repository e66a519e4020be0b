import Sohara.Core.Token
import Sohara.Parsing.Chain

/-! # The expression parser

A recursive-descent parser, one function for each level of precedence. The parser of
nested expressions, in parentheses, lists and calls, is an argument of the levels;
`parseOr` ties the knot to a bounded depth. `debug` is the debug text of a token, or of
none at the end of the input.
-/

namespace Sohara

open Parsing (Parser chain parseChain separated Consumes Agree)

namespace Sym

/-- The debug text of a symbol. -/
def debug : Sym → String
  | .dollar => "Dollar"
  | .dot => "Dot"
  | .lParen => "LParen"
  | .rParen => "RParen"
  | .lBracket => "LBracket"
  | .rBracket => "RBracket"
  | .comma => "Comma"
  | .plus => "Plus"
  | .minus => "Minus"
  | .star => "Star"
  | .slash => "Slash"
  | .percent => "Percent"
  | .eqEq => "EqEq"
  | .notEq => "NotEq"
  | .gt => "Gt"
  | .gte => "Gte"
  | .lt => "Lt"
  | .lte => "Lte"

end Sym

/-- A parser of expressions. -/
abbrev ExprParser : Type := Parser Token ExprError Expr

/-- The error of a loop or a nesting beyond its bound, which no input reaches. -/
def exhausted : ExprError := .parse ""

/-- The operator of `parse_or`. -/
def orOperator : Token → Option (Expr → Expr → Expr)
  | .ident "or" => some .or
  | _ => none

/-- The operator of `parse_and`. -/
def andOperator : Token → Option (Expr → Expr → Expr)
  | .ident "and" => some .and
  | _ => none

/-- The operators of `parse_cmp`. -/
def cmpOperator : Token → Option (Expr → Expr → Expr)
  | .sym .eqEq => some (.cmp .eq)
  | .sym .notEq => some (.cmp .neq)
  | .sym .gt => some (.cmp .gt)
  | .sym .gte => some (.cmp .gte)
  | .sym .lt => some (.cmp .lt)
  | .sym .lte => some (.cmp .lte)
  | .ident "in" => some .member
  | _ => none

/-- The operators of `parse_add`. -/
def addOperator : Token → Option (Expr → Expr → Expr)
  | .sym .plus => some .add
  | .sym .minus => some .sub
  | _ => none

/-- The operators of `parse_mul`. -/
def mulOperator : Token → Option (Expr → Expr → Expr)
  | .sym .star => some .mul
  | .sym .slash => some .div
  | .sym .percent => some .rem
  | _ => none

/-- Whether a token is a comma. -/
def isComma : Token → Bool
  | .sym .comma => true
  | _ => false

section Pieces

variable (platform : Platform) (debug : Option Token → String)

/-- Takes a symbol. -/
def expectSym (sym : Sym) (tokens : List Token) : Except ExprError (List Token) :=
  let failure := ExprError.parse ("expected symbol " ++ sym.debug ++ ", got " ++ debug tokens.head?)
  match tokens with
  | .sym actual :: rest => if actual = sym then .ok rest else .error failure
  | _ => .error failure

/-- Takes an identifier. -/
def expectIdent (tokens : List Token) : Except ExprError (String × List Token) :=
  match tokens with
  | .ident name :: rest => .ok (name, rest)
  | _ => .error (.parse ("expected identifier, got " ++ debug tokens.head?))

/-- The segments of a path after its first. -/
def parsePathTail : List Token → Except ExprError (List String × List Token)
  | .sym .dot :: .ident name :: rest => do
      let tail ← parsePathTail rest
      return (name :: tail.1, tail.2)
  | .sym .dot :: rest => do
      let name ← expectIdent debug rest
      return ([name.1], name.2)
  | tokens => .ok ([], tokens)

/-- A path that starts with a name. -/
def parseIdentPath (name : String) : ExprParser := fun tokens => do
  let tail ← parsePathTail debug tokens
  return (.path (name :: tail.1), tail.2)

/-- A path after its `$`. -/
def parseDollarPath : ExprParser := fun tokens => do
  let tokens ← expectSym debug .dot tokens
  let first ← expectIdent debug tokens
  let tail ← parsePathTail debug first.2
  return (.path (first.1 :: tail.1), tail.2)

/-- A number literal. -/
def numberToValue (number : F64) : Except ExprError Expr :=
  if !platform.isFinite number then .error (.parse "number literal must be finite")
  else .ok (.lit (.number (.float number)))

/-- The argument of `env` or `var`: a name or a string. -/
def parseNameCall (name : String) : ExprParser := fun tokens =>
  match tokens with
  | .ident text :: rest | .string text :: rest => do
      let rest ← expectSym debug .rParen rest
      return (.call name [.lit (.string text)], rest)
  | _ => .error (.parse (name ++ "() expects a name or a string, got " ++ debug tokens.head?))

end Pieces

section Levels

variable (platform : Platform) (debug : Option Token → String) (inner : ExprParser)

/-- Items up to a closing symbol, which is left. -/
def parseItems (closing : Sym) : Parser Token ExprError (List Expr) := fun tokens =>
  if tokens.head? = some (.sym closing) then .ok ([], tokens)
  else separated isComma inner exhausted (tokens.length + 1) tokens

/-- A list after its bracket. -/
def parseList : ExprParser := fun tokens => do
  let items ← parseItems inner .rBracket tokens
  let rest ← expectSym debug .rBracket items.2
  return (.list items.1, rest)

/-- The arguments of a call after its parenthesis. -/
def parseCall (name : String) : ExprParser := fun tokens =>
  if name = "env" ∨ name = "var" then parseNameCall debug name tokens
  else do
    let args ← parseItems inner .rParen tokens
    let rest ← expectSym debug .rParen args.2
    return (.call name args.1, rest)

/-- What follows a name: a literal's name stands for itself. -/
def parseIdentOrCall (name : String) : ExprParser := fun tokens =>
  match name with
  | "true" => .ok (.lit (.bool true), tokens)
  | "false" => .ok (.lit (.bool false), tokens)
  | "null" => .ok (.lit .null, tokens)
  | name =>
      match tokens with
      | .sym .lParen :: rest => parseCall debug inner name rest
      | tokens => parseIdentPath debug name tokens

/-- Literals, paths, lists, calls, and expressions in parentheses. -/
def parseAtom : ExprParser := fun tokens =>
  match tokens with
  | .number number :: rest => do
      let literal ← numberToValue platform number
      return (literal, rest)
  | .string text :: rest => .ok (.lit (.string text), rest)
  | .ident name :: rest => parseIdentOrCall debug inner name rest
  | .sym .dollar :: rest => parseDollarPath debug rest
  | .sym .lBracket :: rest => parseList debug inner rest
  | .sym .lParen :: rest => do
      let expr ← inner rest
      let rest ← expectSym debug .rParen expr.2
      return (expr.1, rest)
  | _ => .error (.parse ("unexpected token: " ++ debug tokens.head?))

/-- Multiplication, division and remainder. -/
def parseMul : ExprParser := parseChain mulOperator (parseAtom platform debug inner) exhausted

/-- Addition and subtraction. -/
def parseAdd : ExprParser := parseChain addOperator (parseMul platform debug inner) exhausted

/-- Comparisons and membership. -/
def parseCmp : ExprParser := parseChain cmpOperator (parseAdd platform debug inner) exhausted

/-- Negation. -/
def parseUnary : ExprParser
  | .ident "not" :: rest => do
      let expr ← parseUnary rest
      return (.not expr.1, expr.2)
  | tokens => parseCmp platform debug inner tokens

/-- Conjunction. -/
def parseAnd : ExprParser := parseChain andOperator (parseUnary platform debug inner) exhausted

end Levels

section Parse

variable (platform : Platform) (debug : Option Token → String)

/-- Disjunction, with at most the given depth of nested expressions;
`parseOr_congr` shows that the bound is not met. -/
def parseOr : Nat → ExprParser
  | 0 => fun _ => .error exhausted
  | depth + 1 => parseChain orOperator (parseAnd platform debug (parseOr depth)) exhausted

/-- Parses an expression. -/
def parse (input : String) : Except ExprError Expr := do
  let tokens ← tokenize platform input.toList
  let expr ← parseOr platform debug (tokens.length + 1) tokens
  match expr.2 with
  | [] => return expr.1
  | rest =>
      .error (.parse ("unexpected trailing input at token " ++
        toString (tokens.length - rest.length)))

end Parse

section Bounds

variable {platform : Platform} {debug : Option Token → String} {inner other : ExprParser}
variable {tokens rest : List Token} {expr : Expr}

theorem length_of_expectSym {sym : Sym} (taken : expectSym debug sym tokens = .ok rest) :
    rest.length < tokens.length := by
  unfold expectSym at taken
  simp only at taken
  split at taken
  · split at taken <;> cases taken
    exact Nat.lt_succ_self _
  · cases taken

theorem length_of_expectIdent {name : String}
    (taken : expectIdent debug tokens = .ok (name, rest)) : rest.length < tokens.length := by
  unfold expectIdent at taken
  split at taken <;> cases taken
  exact Nat.lt_succ_self _

theorem length_of_parsePathTail {names : List String}
    (taken : parsePathTail debug tokens = .ok (names, rest)) : rest.length ≤ tokens.length := by
  fun_induction parsePathTail debug tokens generalizing names with
  | case1 name tokens ih =>
      obtain ⟨tail, found, same⟩ := Except.map_eq_ok.mp taken
      cases same
      have shorter := ih found
      simp only [List.length_cons]
      omega
  | case2 tokens =>
      obtain ⟨name, found, same⟩ := Except.map_eq_ok.mp taken
      cases same
      have shorter := length_of_expectIdent found
      simp only [List.length_cons]
      omega
  | case3 tokens =>
      cases taken
      exact Nat.le_refl _

theorem length_of_parseIdentPath {name : String}
    (taken : parseIdentPath debug name tokens = .ok (expr, rest)) :
    rest.length ≤ tokens.length := by
  obtain ⟨tail, found, same⟩ := Except.map_eq_ok.mp taken
  cases same
  exact length_of_parsePathTail found

theorem consumes_parseDollarPath : Consumes (parseDollarPath debug) := by
  intro tokens expr rest taken
  obtain ⟨after, dotted, taken⟩ := Except.bind_eq_ok.mp taken
  obtain ⟨first, named, taken⟩ := Except.bind_eq_ok.mp taken
  obtain ⟨tail, found, same⟩ := Except.map_eq_ok.mp taken
  cases same
  have shorter := length_of_expectSym dotted
  have shortened := length_of_expectIdent named
  have shortest := length_of_parsePathTail found
  omega

theorem consumes_parseNameCall {name : String} : Consumes (parseNameCall debug name) := by
  intro tokens expr rest taken
  unfold parseNameCall at taken
  split at taken
  case h_3 => cases taken
  all_goals
    obtain ⟨after, closed, same⟩ := Except.map_eq_ok.mp taken
    cases same
    have shorter := length_of_expectSym closed
    rw [List.length_cons]
    omega

theorem length_of_parseItems (consumes : Consumes inner) {closing : Sym} {exprs : List Expr}
    (taken : parseItems inner closing tokens = .ok (exprs, rest)) :
    rest.length ≤ tokens.length := by
  unfold parseItems at taken
  split at taken
  · cases taken
    exact Nat.le_refl _
  · exact Nat.le_of_lt (Parsing.length_of_separated consumes taken)

theorem consumes_parseList (consumes : Consumes inner) : Consumes (parseList debug inner) := by
  intro tokens expr rest taken
  obtain ⟨items, listed, taken⟩ := Except.bind_eq_ok.mp taken
  obtain ⟨after, closed, same⟩ := Except.map_eq_ok.mp taken
  cases same
  exact Nat.lt_of_lt_of_le (length_of_expectSym closed) (length_of_parseItems consumes listed)

theorem consumes_parseCall (consumes : Consumes inner) {name : String} :
    Consumes (parseCall debug inner name) := by
  intro tokens expr rest taken
  unfold parseCall at taken
  split at taken
  · exact consumes_parseNameCall tokens expr rest taken
  · obtain ⟨items, listed, taken⟩ := Except.bind_eq_ok.mp taken
    obtain ⟨after, closed, same⟩ := Except.map_eq_ok.mp taken
    cases same
    exact Nat.lt_of_lt_of_le (length_of_expectSym closed) (length_of_parseItems consumes listed)

theorem length_of_parseIdentOrCall (consumes : Consumes inner) {name : String}
    (taken : parseIdentOrCall debug inner name tokens = .ok (expr, rest)) :
    rest.length ≤ tokens.length := by
  unfold parseIdentOrCall at taken
  split at taken
  case h_4 =>
    split at taken
    · have shorter := consumes_parseCall consumes _ _ _ taken
      rw [List.length_cons]
      omega
    · exact length_of_parseIdentPath taken
  all_goals
    cases taken
    exact Nat.le_refl _

theorem consumes_parseAtom (consumes : Consumes inner) :
    Consumes (parseAtom platform debug inner) := by
  intro tokens expr rest taken
  unfold parseAtom at taken
  split at taken
  · obtain ⟨literal, -, same⟩ := Except.map_eq_ok.mp taken
    cases same
    exact Nat.lt_succ_self _
  · cases taken
    exact Nat.lt_succ_self _
  · exact Nat.lt_succ_of_le (length_of_parseIdentOrCall consumes taken)
  · exact Nat.lt_succ_of_lt (consumes_parseDollarPath _ _ _ taken)
  · exact Nat.lt_succ_of_lt (consumes_parseList consumes _ _ _ taken)
  · obtain ⟨nested, parsed, taken⟩ := Except.bind_eq_ok.mp taken
    obtain ⟨after, closed, same⟩ := Except.map_eq_ok.mp taken
    cases same
    have shorter := consumes _ _ _ parsed
    have shortest := length_of_expectSym closed
    rw [List.length_cons]
    omega
  · cases taken

theorem consumes_parseCmp (consumes : Consumes inner) :
    Consumes (parseCmp platform debug inner) :=
  Parsing.consumes_parseChain (Parsing.consumes_parseChain
    (Parsing.consumes_parseChain (consumes_parseAtom consumes)))

theorem consumes_parseUnary (consumes : Consumes inner) :
    Consumes (parseUnary platform debug inner) := by
  intro tokens
  fun_induction parseUnary platform debug inner tokens with
  | case1 tokens ih =>
      intro expr rest taken
      obtain ⟨operand, found, same⟩ := Except.map_eq_ok.mp taken
      cases same
      exact Nat.lt_succ_of_lt (ih _ _ found)
  | case2 tokens => exact consumes_parseCmp consumes tokens

theorem consumes_parseOr (depth : Nat) : Consumes (parseOr platform debug depth) := by
  induction depth with
  | zero =>
      intro tokens expr rest taken
      cases taken
  | succ depth ih =>
      exact Parsing.consumes_parseChain (Parsing.consumes_parseChain (consumes_parseUnary ih))

theorem parseItems_congr (consumes : Consumes inner) (agree : Agree tokens.length inner other)
    (closing : Sym) : parseItems inner closing tokens = parseItems other closing tokens := by
  unfold parseItems
  rw [Parsing.separated_congr consumes agree (Nat.le_refl _) (Nat.lt_succ_self _)
    (Nat.lt_succ_self _)]

variable {length : Nat}

/-- Atoms call the nested parser on fewer tokens than they are given. -/
theorem agree_parseAtom (consumes : Consumes inner)
    (agree : ∀ shorter < length, Agree shorter inner other) :
    Agree length (parseAtom platform debug inner) (parseAtom platform debug other) := by
  intro tokens short
  unfold parseAtom
  split
  case h_3 name rest =>
    unfold parseIdentOrCall
    split
    case h_4 =>
      split
      case h_1 rest =>
        unfold parseCall
        simp only [List.length_cons] at short
        rw [parseItems_congr consumes (agree _ (by omega))]
      case h_2 => rfl
    all_goals rfl
  case h_5 rest =>
    unfold parseList
    rw [parseItems_congr consumes (agree _ short)]
  case h_6 rest => rw [agree _ short rest (Nat.le_refl _)]
  all_goals rfl

theorem agree_parseCmp (consumes : Consumes inner)
    (agree : ∀ shorter < length, Agree shorter inner other) :
    Agree length (parseCmp platform debug inner) (parseCmp platform debug other) := by
  have atoms := @consumes_parseAtom platform debug inner consumes
  refine Parsing.agree_parseChain (Parsing.consumes_parseChain (Parsing.consumes_parseChain atoms))
    (Parsing.agree_parseChain (Parsing.consumes_parseChain atoms)
      (Parsing.agree_parseChain atoms (agree_parseAtom consumes agree)))

theorem agree_parseUnary (consumes : Consumes inner)
    (agree : ∀ shorter < length, Agree shorter inner other) :
    Agree length (parseUnary platform debug inner) (parseUnary platform debug other) := by
  intro tokens
  fun_induction parseUnary platform debug inner tokens with
  | case1 tokens ih =>
      intro short
      rw [List.length_cons] at short
      rw [ih (by omega)]
      rfl
  | case2 tokens different =>
      intro short
      rw [agree_parseCmp consumes agree tokens short]
      unfold parseUnary
      split
      case h_1 rest => exact (different rest rfl).elim
      case h_2 => rfl

/-- Depths beyond the number of tokens do not matter. -/
theorem parseOr_congr {first second : Nat} (enough : length < first) (enough' : length < second) :
    Agree length (parseOr platform debug first) (parseOr platform debug second) := by
  induction length using Nat.strongRecOn generalizing first second with
  | ind length ih =>
      cases first with
      | zero => omega
      | succ first =>
          cases second with
          | zero => omega
          | succ second =>
              have consumes := @consumes_parseOr platform debug first
              have agree : ∀ shorter < length,
                  Agree shorter (parseOr platform debug first) (parseOr platform debug second) :=
                fun shorter less => ih shorter less (by omega) (by omega)
              have unary := @consumes_parseUnary platform debug _ consumes
              exact Parsing.agree_parseChain (Parsing.consumes_parseChain unary)
                (Parsing.agree_parseChain unary (agree_parseUnary consumes agree))

end Bounds

end Sohara
