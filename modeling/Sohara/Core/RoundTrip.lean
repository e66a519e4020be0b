import Sohara.Core.Comparison
import Sohara.Core.Printing

/-! # The syntax round trip

Parsing the tokens of an expression returns it. A level of precedence reads an
expression of its own level or a tighter one; a looser one stands in parentheses, which
take the parser of nested expressions one step deeper. The tokens that follow must not
continue the expression: `EndsAt` bounds how tight they bind.
-/

namespace Sohara

open Parsing (Reads Opens parseChain separated)

/-- How tight a token binds what stands before it: closing symbols not at all, operators
as their levels, and any other token as part of an atom. -/
def Token.binds : Token → Nat
  | .sym .rParen | .sym .rBracket | .sym .comma => 0
  | .ident "or" => 1
  | .ident "and" => 2
  | .ident "in" => 4
  | .sym .eqEq | .sym .notEq | .sym .gt | .sym .gte | .sym .lt | .sym .lte => 4
  | .sym .plus | .sym .minus => 5
  | .sym .star | .sym .slash | .sym .percent => 6
  | _ => 7

/-- What follows binds looser than the level. -/
def EndsAt (level : Nat) (rest : List Token) : Prop := ∀ token ∈ rest.head?, token.binds < level

theorem EndsAt.mono {level level' : Nat} {rest : List Token} (ends : EndsAt level rest)
    (looser : level ≤ level') : EndsAt level' rest :=
  fun token first => Nat.lt_of_lt_of_le (ends token first) looser

theorem endsAt_nil (level : Nat) : EndsAt level [] := fun _ first => nomatch first

theorem endsAt_cons {level : Nat} {token : Token} (looser : token.binds < level)
    (rest : List Token) : EndsAt level (token :: rest) := by
  rintro _ ⟨⟩
  exact looser

/-- The operators of a level. -/
def operatorAt : Nat → Token → Option (Expr → Expr → Expr)
  | 1 => orOperator
  | 2 => andOperator
  | 4 => cmpOperator
  | 5 => addOperator
  | 6 => mulOperator
  | _ => fun _ => none

section Levels

variable (platform : Platform) (debug : Option Token → String)

/-- The parser of a level, with nested expressions of at most the given depth. -/
def parserAt (depth : Nat) : Nat → ExprParser
  | 1 => parseOr platform debug (depth + 1)
  | 2 => parseAnd platform debug (parseOr platform debug depth)
  | 3 => parseUnary platform debug (parseOr platform debug depth)
  | 4 => parseCmp platform debug (parseOr platform debug depth)
  | 5 => parseAdd platform debug (parseOr platform debug depth)
  | 6 => parseMul platform debug (parseOr platform debug depth)
  | _ => parseAtom platform debug (parseOr platform debug depth)

variable {platform debug} {depth level : Nat}

/-- A level of binary operators. -/
def Chained (level : Nat) : Prop :=
  level = 1 ∨ level = 2 ∨ level = 4 ∨ level = 5 ∨ level = 6

theorem parserAt_chained (chained : Chained level) : parserAt platform debug depth level =
    parseChain (operatorAt level) (parserAt platform debug depth (level + 1)) exhausted := by
  rcases chained with rfl | rfl | rfl | rfl | rfl <;> rfl

/-- No operator of a level binds looser than the level. -/
theorem operatorAt_eq_none {token : Token} (looser : token.binds < level) :
    operatorAt level token = none := by
  unfold operatorAt
  split
  · unfold orOperator
    split <;> first | rfl | simp [Token.binds] at looser
  · unfold andOperator
    split <;> first | rfl | simp [Token.binds] at looser
  · unfold cmpOperator
    split <;> first | rfl | simp [Token.binds] at looser
  · unfold addOperator
    split <;> first | rfl | simp [Token.binds] at looser
  · unfold mulOperator
    split <;> first | rfl | simp [Token.binds] at looser
  · rfl

variable (platform debug) in
/-- The level takes the expression from the tokens. -/
def ReadsAt (depth level : Nat) (tokens : List Token) (expr : Expr) : Prop :=
  Reads (EndsAt level) (parserAt platform debug depth level) tokens expr

variable (platform debug) in
/-- The loop of the level reaches the expression on the tokens. -/
def OpensAt (depth level : Nat) (tokens : List Token) (expr : Expr) : Prop :=
  Opens (operatorAt level) (parserAt platform debug depth (level + 1)) exhausted
    (EndsAt (level + 1)) tokens expr

variable {tokens : List Token} {expr : Expr}

theorem OpensAt.readsAt (opens : OpensAt platform debug depth level tokens expr)
    (chained : Chained level) : ReadsAt platform debug depth level tokens expr := by
  unfold ReadsAt
  rw [parserAt_chained chained]
  exact Opens.reads opens (fun rest ends => ends.mono (Nat.le_succ _))
    fun rest ends token first => operatorAt_eq_none (ends token first)

/-- Tokens that do not start with a closing symbol or a binary operator, nor, when the
expression binds tighter, with a negation. -/
def Starts (level : Nat) (tokens : List Token) : Prop :=
  ∃ token more, tokens = token :: more ∧ token.binds = 7 ∧ (4 ≤ level → token ≠ .ident "not")

/-- A looser level takes what the next one takes. -/
theorem ReadsAt.looser (reads : ReadsAt platform debug depth (level + 1) tokens expr)
    (positive : 0 < level) (atMost : level < 7) (starts : Starts (level + 1) tokens) :
    ReadsAt platform debug depth level tokens expr := by
  by_cases unary : level = 3
  · subst unary
    intro rest ends
    obtain ⟨token, more, rfl, -, affirmative⟩ := starts
    have parsed := reads rest (ends.mono (by omega))
    change parseUnary platform debug _ (token :: (more ++ rest)) = _
    unfold parseUnary
    split
    case h_1 same =>
      cases same
      exact (affirmative (Nat.le_refl _) rfl).elim
    case h_2 => exact parsed
  · exact OpensAt.readsAt (Reads.opens reads) (by unfold Chained; omega)

theorem ReadsAt.down {tight : Nat} (reads : ReadsAt platform debug depth tight tokens expr)
    (positive : 0 < level) (looser : level ≤ tight) (atMost : tight ≤ 7)
    (starts : Starts tight tokens) : ReadsAt platform debug depth level tokens expr := by
  induction looser with
  | refl => exact reads
  | step looser ih =>
      have below : level ≤ _ := looser
      obtain ⟨token, more, same, opening, affirmative⟩ := starts
      exact ih (reads.looser (by omega) (by omega) ⟨token, more, same, opening, affirmative⟩)
        (by omega) ⟨token, more, same, opening, fun tighter => affirmative (by omega)⟩

/-- Parentheses make an atom, one step deeper. -/
theorem ReadsAt.parens (reads : ReadsAt platform debug depth 1 tokens expr) :
    ReadsAt platform debug (depth + 1) 7 (.sym .lParen :: tokens ++ [.sym .rParen]) expr := by
  intro rest _
  have parsed := reads (.sym .rParen :: rest) (endsAt_cons (by decide) rest)
  rw [List.append_assoc]
  change (do
    let nested ← parseOr platform debug (depth + 1) (tokens ++ Token.sym .rParen :: rest)
    let rest ← expectSym debug .rParen nested.2
    return (nested.1, rest)) = _
  change parseOr platform debug (depth + 1) (tokens ++ Token.sym .rParen :: rest) = _ at parsed
  rw [parsed]
  rfl

end Levels

section Parsed

variable (platform : Platform) (debug : Option Token → String)

/-- The expression is parsed from its tokens at its own level, to whatever depth has
room for them. -/
structure Parsed (expr : Expr) : Prop where
  starts : Starts expr.level expr.tokens
  reads : ∀ depth, expr.tokens.length ≤ depth →
    ReadsAt platform debug depth expr.level expr.tokens expr
  opens : ∀ depth, expr.tokens.length ≤ depth → Chained expr.level →
    OpensAt platform debug depth expr.level expr.tokens expr

variable {platform debug} {expr lhs rhs : Expr} {level depth : Nat}

theorem Expr.level_bounds (expr : Expr) : 0 < expr.level ∧ expr.level ≤ 7 := by
  cases expr <;> simp [Expr.level]

theorem Parsed.starts_wrapped (parsed : Parsed platform debug expr) (level : Nat) :
    Starts level (wrapped level expr.level expr.tokens) := by
  unfold wrapped
  split
  · exact ⟨_, _, rfl, rfl, fun _ => by simp⟩
  · obtain ⟨token, more, same, opening, affirmative⟩ := parsed.starts
    exact ⟨token, more, same, opening, fun tight => affirmative (by omega)⟩

/-- An operand is read at the level of its place. -/
theorem Parsed.operand (parsed : Parsed platform debug expr) (positive : 0 < level)
    (atMost : level ≤ 7)
    (room : (wrapped level expr.level expr.tokens).length ≤ depth) :
    ReadsAt platform debug depth level (wrapped level expr.level expr.tokens) expr := by
  have starts := parsed.starts_wrapped level
  have bounds := expr.level_bounds
  unfold wrapped at room starts ⊢
  split
  case isTrue looser =>
    rw [if_pos looser] at room
    simp only [List.length_cons, List.length_append, List.length_nil] at room
    cases depth with
    | zero => omega
    | succ depth =>
        have nested := (parsed.reads depth (by omega)).down Nat.one_pos bounds.1 bounds.2
          parsed.starts
        exact nested.parens.down positive atMost (Nat.le_refl _)
          ⟨_, _, rfl, rfl, fun _ => by simp⟩
  case isFalse tighter =>
    rw [if_neg tighter] at room
    exact (parsed.reads depth room).down positive (by omega) bounds.2 parsed.starts

/-- A left operand opens the loop of its place. -/
theorem Parsed.opensOperand (parsed : Parsed platform debug expr) (chained : Chained level)
    (room : (wrapped level expr.level expr.tokens).length ≤ depth) :
    OpensAt platform debug depth level (wrapped level expr.level expr.tokens) expr := by
  by_cases same : expr.level = level
  · subst same
    unfold wrapped at room ⊢
    rw [if_neg (Nat.lt_irrefl _)] at room ⊢
    exact parsed.opens depth room chained
  · have alike : wrapped level expr.level expr.tokens =
        wrapped (level + 1) expr.level expr.tokens := by
      unfold wrapped
      exact if_congr (by omega) rfl rfl
    unfold Chained at chained
    rw [alike] at room ⊢
    exact Reads.opens (parsed.operand (by omega) (by omega) room)

/-- Operands and an operator between them. -/
theorem Parsed.binary (left : Parsed platform debug lhs) (right : Parsed platform debug rhs)
    {token : Token} {combine : Expr → Expr → Expr} (expr : Expr) (chained : Chained expr.level)
    (operates : operatorAt expr.level token = some combine) (binds : token.binds = expr.level)
    (combined : combine lhs rhs = expr)
    (spelled : expr.tokens = wrapped expr.level lhs.level lhs.tokens ++
      token :: wrapped (expr.level + 1) rhs.level rhs.tokens) :
    Parsed platform debug expr := by
  have opens : ∀ depth, expr.tokens.length ≤ depth →
      OpensAt platform debug depth expr.level expr.tokens expr := by
    intro depth room
    rw [spelled] at room ⊢
    rw [List.length_append, List.length_cons] at room
    have opened : OpensAt platform debug depth expr.level _ lhs :=
      left.opensOperand chained (by omega)
    have operand : ReadsAt platform debug depth (expr.level + 1) _ rhs :=
      right.operand (by omega) (by unfold Chained at chained; omega) (by omega)
    have extended := Opens.extend opened operates (fun rest => endsAt_cons (by omega) rest) operand
    rw [combined] at extended
    exact extended
  refine ⟨?_, fun depth room => (opens depth room).readsAt chained,
    fun depth room _ => opens depth room⟩
  obtain ⟨first, more, same, opening, affirmative⟩ := left.starts_wrapped expr.level
  exact ⟨first, more ++ token :: wrapped (expr.level + 1) rhs.level rhs.tokens,
    by rw [spelled, same]; rfl, opening, affirmative⟩

theorem Parsed.nested (parsed : Parsed platform debug expr)
    (room : expr.tokens.length ≤ depth) : ReadsAt platform debug depth 1 expr.tokens expr :=
  (parsed.reads depth room).down Nat.one_pos expr.level_bounds.1 expr.level_bounds.2 parsed.starts

theorem Parsed.atom (expr : Expr) (atomic : expr.level = 7) {token : Token} {more : List Token}
    (spelled : expr.tokens = token :: more) (opening : token.binds = 7)
    (affirmative : token ≠ .ident "not")
    (reads : ∀ depth, more.length < depth →
      ReadsAt platform debug depth 7 (token :: more) expr) : Parsed platform debug expr where
  starts := ⟨token, more, spelled, opening, fun _ => affirmative⟩
  reads depth room := by
    rw [spelled] at room ⊢
    rw [atomic]
    exact reads depth room
  opens _ _ chained := by
    unfold Chained at chained
    omega

theorem Expr.tokensAll_cons (item next : Expr) (others : List Expr) :
    Expr.tokensAll (item :: next :: others) =
      item.tokens ++ .sym .comma :: Expr.tokensAll (next :: others) := rfl

/-- Expressions between commas, before a closing symbol. -/
theorem separated_tokensAll {items : List Expr} (some : items ≠ [])
    (parsed : ∀ item ∈ items, Parsed platform debug item)
    (room : (Expr.tokensAll items).length ≤ depth) {bound : Nat}
    (enough : (Expr.tokensAll items).length < bound) {rest : List Token} (ends : EndsAt 1 rest)
    (closed : ∀ token ∈ rest.head?, isComma token = false) :
    separated isComma (parseOr platform debug (depth + 1)) exhausted bound
      (Expr.tokensAll items ++ rest) = .ok (items, rest) := by
  induction items generalizing bound with
  | nil => exact (some rfl).elim
  | cons item others ih =>
      obtain ⟨first, later⟩ := List.forall_mem_cons.mp parsed
      cases bound with
      | zero => omega
      | succ bound =>
          cases others with
          | nil => exact Parsing.separated_last (first.nested room) ends closed bound
          | cons next others =>
              rw [Expr.tokensAll_cons, List.length_append, List.length_cons] at room enough
              have rest := ih (List.cons_ne_nil _ _) later (by omega)
                (show _ < bound by omega)
              rw [Expr.tokensAll_cons, List.append_assoc, List.cons_append]
              exact Parsing.separated_cons (first.nested (by omega))
                (fun rest => endsAt_cons (by decide) rest) rfl rest

/-- Expressions between commas, from their first token. -/
theorem parseItems_tokensAll {items : List Expr}
    (parsed : ∀ item ∈ items, Parsed platform debug item)
    (room : (Expr.tokensAll items).length ≤ depth) {closing : Sym}
    (closes : closing = .rParen ∨ closing = .rBracket) (rest : List Token) :
    parseItems (parseOr platform debug (depth + 1)) closing
      (Expr.tokensAll items ++ .sym closing :: rest) = .ok (items, .sym closing :: rest) := by
  unfold parseItems
  cases items with
  | nil => exact if_pos rfl
  | cons item others =>
      have binds : (Token.sym closing).binds = 0 := by rcases closes with rfl | rfl <;> rfl
      have inside : (Expr.tokensAll (item :: others) ++ Token.sym closing :: rest).head? ≠
          some (.sym closing) := by
        obtain ⟨token, more, same, opening, -⟩ := (parsed item List.mem_cons_self).starts
        have head : (Expr.tokensAll (item :: others) ++ Token.sym closing :: rest).head? =
            some token := by
          cases others with
          | nil =>
              rw [Expr.tokensAll, same]
              rfl
          | cons next others =>
              rw [Expr.tokensAll_cons, same]
              rfl
        rw [head]
        rintro ⟨⟩
        omega
      rw [if_neg inside]
      refine separated_tokensAll (List.cons_ne_nil _ _) parsed room ?_
        (endsAt_cons (by omega) rest) ?_
      · rw [List.length_append]
        omega
      · rintro _ ⟨⟩
        rcases closes with rfl | rfl <;> rfl

theorem parsed_list {items : List Expr} (parsed : ∀ item ∈ items, Parsed platform debug item) :
    Parsed platform debug (.list items) := by
  have spelled : (Expr.list items).tokens =
      .sym .lBracket :: (Expr.tokensAll items ++ [.sym .rBracket]) := rfl
  refine Parsed.atom _ rfl spelled rfl (by decide) fun depth room rest _ => ?_
  rw [List.length_append, List.length_singleton] at room
  cases depth with
  | zero => omega
  | succ depth =>
      have items := parseItems_tokensAll parsed (show _ ≤ depth by omega) (.inr rfl) rest
      rw [List.cons_append, List.append_assoc]
      change (do
        let items ← parseItems (parseOr platform debug (depth + 1)) .rBracket
          (Expr.tokensAll _ ++ Token.sym .rBracket :: rest)
        let rest ← expectSym debug .rBracket items.2
        return (Expr.list items.1, rest)) = _
      rw [items]
      rfl

/-- Segments of a path, up to what is no further segment. -/
theorem parsePathTail_segments (segments : List String) {rest : List Token} (ends : EndsAt 7 rest) :
    parsePathTail debug
        ((segments.flatMap fun segment => [.sym .dot, .ident segment]) ++ rest) =
      .ok (segments, rest) := by
  induction segments with
  | nil =>
      cases rest with
      | nil => rfl
      | cons token rest =>
          have looser : token.binds < 7 := ends token rfl
          rw [List.flatMap_nil, List.nil_append]
          unfold parsePathTail
          split
          case h_1 same =>
            cases same
            exact absurd looser (by decide)
          case h_2 same =>
            cases same
            exact absurd looser (by decide)
          case h_3 => rfl
  | cons segment segments ih =>
      rw [List.flatMap_cons, List.append_assoc]
      change (do
        let tail ← parsePathTail debug
          ((segments.flatMap fun segment => [Token.sym .dot, .ident segment]) ++ rest)
        return (segment :: tail.1, tail.2)) = _
      rw [ih]
      rfl

theorem parsed_path {segments : List String} (some : segments ≠ []) :
    Parsed platform debug (.path segments) := by
  cases segments with
  | nil => exact (some rfl).elim
  | cons first segments =>
      refine Parsed.atom _ rfl rfl rfl (by decide) fun depth _ rest ends => ?_
      change (do
        let tail ← parsePathTail debug
          ((segments.flatMap fun segment => [Token.sym .dot, .ident segment]) ++ rest)
        return (Expr.path (first :: tail.1), tail.2)) = _
      rw [parsePathTail_segments segments ends]
      rfl

theorem parsed_call {name : String} {args : List Expr}
    (printable : Printable platform (.call name args))
    (parsed : ∀ item ∈ args, Parsed platform debug item) :
    Parsed platform debug (.call name args) := by
  have spelled : (Expr.call name args).tokens =
      .ident name :: .sym .lParen :: (Expr.tokensAll args ++ [.sym .rParen]) := rfl
  rcases printable with ⟨special, text, rfl⟩ | ⟨-, free, -⟩
  · rcases special with rfl | rfl
    all_goals exact Parsed.atom _ rfl spelled rfl (by decide) fun depth _ rest _ => rfl
  · simp only [reservedNames, List.mem_cons, List.not_mem_nil, or_false, not_or] at free
    obtain ⟨notTrue, notFalse, notNull, notNot, notAnd, notOr, notIn, notEnv, notVar⟩ := free
    refine Parsed.atom _ rfl spelled ?_ ?_ fun depth room rest _ => ?_
    · unfold Token.binds
      split <;> simp_all
    · rintro ⟨⟩
      exact notNot rfl
    · rw [List.length_cons, List.length_append, List.length_singleton] at room
      cases depth with
      | zero => omega
      | succ depth =>
          have items := parseItems_tokensAll parsed (show _ ≤ depth by omega) (.inl rfl) rest
          rw [List.cons_append, List.cons_append, List.append_assoc]
          change parseIdentOrCall debug (parseOr platform debug (depth + 1)) name _ = _
          unfold parseIdentOrCall
          split
          case h_4 =>
            change parseCall debug (parseOr platform debug (depth + 1)) name
              (Expr.tokensAll args ++ Token.sym .rParen :: rest) = _
            unfold parseCall
            rw [if_neg (not_or.mpr ⟨notEnv, notVar⟩), items]
            rfl
          all_goals contradiction

theorem parsed_literal {value : Value} (printable : PrintableLiteral platform value) :
    Parsed platform debug (.lit value) := by
  cases value with
  | null => exact Parsed.atom _ rfl rfl rfl (by decide) fun _ _ _ _ => rfl
  | bool flag =>
      cases flag <;> exact Parsed.atom _ rfl rfl rfl (by decide) fun _ _ _ _ => rfl
  | number number =>
      cases number with
      | float bits =>
          refine Parsed.atom _ rfl rfl rfl (by simp) fun _ _ rest _ => ?_
          change (do
            let literal ← numberToValue platform bits
            return (literal, rest)) = _
          rw [numberToValue, printable.finite]
          rfl
      | posInt | negInt => exact printable.elim
  | string text => exact Parsed.atom _ rfl rfl rfl (by simp) fun _ _ _ _ => rfl
  | array | object => exact printable.elim

theorem parsed_not {inner : Expr} (parsed : Parsed platform debug inner) :
    Parsed platform debug (.not inner) where
  starts := ⟨_, _, rfl, rfl, fun tight => absurd tight (by simp [Expr.level])⟩
  reads depth room rest ends := by
    change (do
      let operand ← parserAt platform debug depth 3
        (wrapped 3 inner.level inner.tokens ++ rest)
      return (Expr.not operand.1, operand.2)) = _
    rw [parsed.operand (by omega) (by omega) (Nat.le_of_succ_le room) rest ends]
    rfl
  opens _ _ chained := by simp [Chained, Expr.level] at chained

mutual

/-- Expressions of the language are parsed from their tokens. -/
theorem parsed_of_printable (expr : Expr) (printable : Printable platform expr) :
    Parsed platform debug expr := by
  cases expr with
  | lit value => exact parsed_literal printable
  | path segments => exact parsed_path printable.1
  | list items => exact parsed_list (parsedAll_of_printable items printable)
  | not inner => exact parsed_not (parsed_of_printable inner printable)
  | call name args =>
      exact parsed_call printable
        (parsedAll_of_printable args (printableAll_of_call printable).2)
  | cmp op lhs rhs =>
      exact (parsed_of_printable lhs printable.1).binary (parsed_of_printable rhs printable.2) _
        (by simp [Chained, Expr.level]) (by cases op <;> rfl) (by cases op <;> rfl) rfl rfl
  | or lhs rhs | and lhs rhs | member lhs rhs | add lhs rhs | sub lhs rhs
  | mul lhs rhs | div lhs rhs | rem lhs rhs =>
      exact (parsed_of_printable lhs printable.1).binary (parsed_of_printable rhs printable.2) _
        (by simp [Chained, Expr.level]) rfl rfl rfl rfl

theorem parsedAll_of_printable (items : List Expr) (printable : PrintableAll platform items) :
    ∀ item ∈ items, Parsed platform debug item := by
  cases items with
  | nil => exact fun _ member => nomatch member
  | cons item rest =>
      exact List.forall_mem_cons.mpr ⟨parsed_of_printable item printable.1,
        parsedAll_of_printable rest printable.2⟩

end

/-- A text that spells an expression of the language parses into it. -/
theorem parse_text {text : String} (expr : Expr) (printable : Printable platform expr)
    (spelled : text.toList = expr.print platform) : parse platform debug text = .ok expr := by
  have lexed := lexes_print expr printable [] closes_nil
  have parsed : Parsed platform debug expr := parsed_of_printable expr printable
  have read := parsed.nested (Nat.le_refl _) [] (endsAt_nil 1)
  rw [List.append_nil, tokenize_nil] at lexed
  rw [List.append_nil] at read
  have tokenized : tokenize platform text.toList = .ok expr.tokens := by
    rw [spelled, lexed]
    exact congrArg Except.ok (List.append_nil expr.tokens)
  exact Except.bind_eq_ok.mpr ⟨expr.tokens, tokenized,
    Except.bind_eq_ok.mpr ⟨(expr, []), read, rfl⟩⟩

/-- **Printing and parsing.** The text of an expression of the language parses into it. -/
theorem parse_print (debug : Option Token → String) (expr : Expr)
    (printable : Printable platform expr) :
    parse platform debug (String.ofList (expr.print platform)) = .ok expr :=
  parse_text expr printable String.toList_ofList

end Parsed

namespace Sample

/-- An expression that negates a membership and subtracts a difference. -/
def guard : Expr :=
  .and (.not (.member (.path ["n"])
      (.list [.lit (.number (.float 0x3FF0000000000000)), .lit (.string "a\"b")])))
    (.cmp .gte
      (.sub (.lit (.number (.float 0x3FF0000000000000)))
        (.sub (.lit (.number (.float 0x3FF0000000000000)))
          (.lit (.number (.float 0x3FF0000000000000)))))
      (.call "len" [.path ["n"]]))

theorem rereads_one : Rereads numbers 0x3FF0000000000000 :=
  ⟨by decide, ⟨'1', [], by decide, rfl, by simp⟩, by decide⟩

theorem guard_printable : Printable numbers guard := by
  have path : Printable numbers (.path ["n"]) :=
    ⟨by simp, by simpa using ⟨'n', [], rfl, rfl, by simp⟩⟩
  refine ⟨⟨path, rereads_one, trivial, trivial⟩, ⟨rereads_one, rereads_one, rereads_one⟩, .inr ?_⟩
  exact ⟨isIdent_of 'l' ['e', 'n'] rfl rfl rfl, by decide, path, trivial⟩

theorem guard_parses :
    parse numbers (fun _ => "") (String.ofList (guard.print numbers)) = .ok guard :=
  parse_print _ guard guard_printable

example : String.ofList (guard.print numbers) =
    "not $.n in [1, \"a\\\"b\"] and 1 - (1 - 1) >= len($.n)" := by decide

end Sample

end Sohara
