import Sohara.Core.Expr
import Sohara.Core.Except

/-! # Tokens of the expression language

The tokenizer skips white space and takes the longest token at each place. It reads the
text as a list of characters; every token takes at least one of them.
-/

namespace Sohara

/-- Symbols. -/
inductive Sym where
  | dollar
  | dot
  | lParen
  | rParen
  | lBracket
  | rBracket
  | comma
  | plus
  | minus
  | star
  | slash
  | percent
  | eqEq
  | notEq
  | gt
  | gte
  | lt
  | lte
  deriving DecidableEq, Repr

/-- Tokens. -/
inductive Token where
  | ident (name : String)
  | number (value : F64)
  | string (text : String)
  | sym (sym : Sym)
  deriving DecidableEq, Repr

/-- A character that starts an identifier. -/
def isIdentStart (char : Char) : Bool := char.isAlpha || char == '_'

/-- A character within an identifier. -/
def isIdentChar (char : Char) : Bool := char.isAlphanum || char == '_'

/-- A character of a number. -/
def isNumberChar (char : Char) : Bool := char.isDigit || char == '.'

/-- The symbols of one character. -/
def symbol (char : Char) : Option Sym :=
  match char with
  | '$' => some .dollar
  | '.' => some .dot
  | '(' => some .lParen
  | ')' => some .rParen
  | '[' => some .lBracket
  | ']' => some .rBracket
  | ',' => some .comma
  | '+' => some .plus
  | '-' => some .minus
  | '*' => some .star
  | '/' => some .slash
  | '%' => some .percent
  | _ => none

/-- An operator of one or two characters; `rest` follows the first. -/
def twoCharOp (char : Char) (rest : List Char) : Except ExprError (Token × List Char) :=
  match char, rest with
  | '=', '=' :: rest => .ok (.sym .eqEq, rest)
  | '=', _ => .error (.parse "expected '=='")
  | '!', '=' :: rest => .ok (.sym .notEq, rest)
  | '!', _ => .error (.parse "expected '!='")
  | '>', '=' :: rest => .ok (.sym .gte, rest)
  | '>', rest => .ok (.sym .gt, rest)
  | _, '=' :: rest => .ok (.sym .lte, rest)
  | _, rest => .ok (.sym .lt, rest)

/-- The characters of a string after its opening quote; a backslash takes the next
character as it is. -/
def readString (quote : Char) : List Char → Except ExprError (List Char × List Char)
  | [] => .error (.parse "unterminated string")
  | '\\' :: [] => .error (.parse "bad escape")
  | '\\' :: escaped :: rest => do
      let read ← readString quote rest
      return (escaped :: read.1, read.2)
  | char :: rest =>
      if char = quote then .ok ([], rest)
      else do
        let read ← readString quote rest
        return (char :: read.1, read.2)

section Tokenizer

variable (platform : Platform)

/-- A number, as far as its characters go. -/
def readNumber (chars : List Char) : Except ExprError (F64 × List Char) :=
  let text := String.ofList (chars.takeWhile isNumberChar)
  match platform.parse text with
  | some value => .ok (value, chars.dropWhile isNumberChar)
  | none => .error (.parse ("invalid number '" ++ text ++ "'"))

/-- An identifier, as far as its characters go. -/
def readIdent (chars : List Char) : String × List Char :=
  (String.ofList (chars.takeWhile isIdentChar), chars.dropWhile isIdentChar)

/-- The token that starts with a character. -/
def nextToken (char : Char) (rest : List Char) : Except ExprError (Token × List Char) :=
  match symbol char with
  | some sym => .ok (.sym sym, rest)
  | none =>
      if char = '=' ∨ char = '!' ∨ char = '>' ∨ char = '<' then twoCharOp char rest
      else if char = '"' ∨ char = '\'' then do
        let read ← readString char rest
        return (.string (String.ofList read.1), read.2)
      else if char.isDigit then do
        let read ← readNumber platform (char :: rest)
        return (.number read.1, read.2)
      else if isIdentStart char then
        let read := readIdent (char :: rest)
        .ok (.ident read.1, read.2)
      else .error (.parse ("unexpected character '" ++ String.singleton char ++ "'"))

/-- The tokens of at most the given number of steps; `tokenizeFrom_congr` shows that the
bound is not met. -/
def tokenizeFrom : Nat → List Char → Except ExprError (List Token)
  | _, [] => .ok []
  | 0, _ :: _ => .error (.parse "")
  | bound + 1, char :: rest =>
      if isWhitespace char then tokenizeFrom bound rest
      else do
        let next ← nextToken platform char rest
        let tokens ← tokenizeFrom bound next.2
        return next.1 :: tokens

/-- The tokens of an expression. -/
def tokenize (input : List Char) : Except ExprError (List Token) :=
  tokenizeFrom platform input.length input

end Tokenizer

section Progress

variable {platform : Platform}

theorem length_of_readString {quote : Char} {chars text rest : List Char}
    (read : readString quote chars = .ok (text, rest)) : rest.length < chars.length := by
  fun_induction readString quote chars generalizing text with
  | case1 => cases read
  | case2 => cases read
  | case3 escaped chars ih =>
      obtain ⟨inner, found, same⟩ := Except.map_eq_ok.mp read
      cases same
      have shorter := ih found
      simp only [List.length_cons]
      omega
  | case4 chars =>
      cases read
      exact Nat.lt_succ_self _
  | case5 char chars =>
      rename_i ih
      obtain ⟨inner, found, same⟩ := Except.map_eq_ok.mp read
      cases same
      have shorter := ih found
      simp only [List.length_cons]
      omega

theorem isIdentChar_of_start {char : Char} (start : isIdentStart char = true) :
    isIdentChar char = true := by
  simp only [isIdentStart, isIdentChar, Char.isAlphanum, Bool.or_eq_true] at start ⊢
  exact start.imp_left Or.inl

/-- Every token takes at least its first character. -/
theorem length_of_nextToken {char : Char} {chars rest : List Char} {token : Token}
    (read : nextToken platform char chars = .ok (token, rest)) : rest.length ≤ chars.length := by
  unfold nextToken at read
  split at read
  · cases read
    exact Nat.le_refl _
  · split at read
    · unfold twoCharOp at read
      split at read <;> cases read <;> simp
    · split at read
      · obtain ⟨inner, found, same⟩ := Except.map_eq_ok.mp read
        cases same
        exact Nat.le_of_lt (length_of_readString found)
      · split at read
        case isTrue digit =>
          obtain ⟨inner, found, same⟩ := Except.map_eq_ok.mp read
          cases same
          unfold readNumber at found
          simp only at found
          split at found <;> cases found
          rw [List.dropWhile_cons_of_pos (by simp [isNumberChar, digit])]
          exact (List.dropWhile_sublist _).length_le
        case isFalse =>
          split at read
          case isTrue start =>
            cases read
            change ((char :: chars).dropWhile isIdentChar).length ≤ _
            rw [List.dropWhile_cons_of_pos (isIdentChar_of_start start)]
            exact (List.dropWhile_sublist _).length_le
          case isFalse => cases read

/-- Bounds that cover the characters do not matter. -/
theorem tokenizeFrom_congr {first second : Nat} {chars : List Char}
    (enough : chars.length ≤ first) (enough' : chars.length ≤ second) :
    tokenizeFrom platform first chars = tokenizeFrom platform second chars := by
  induction first generalizing second chars with
  | zero =>
      cases chars with
      | nil => cases second <;> rfl
      | cons => cases enough
  | succ first ih =>
      cases chars with
      | nil => cases second <;> rfl
      | cons char rest =>
          rw [List.length_cons] at enough enough'
          cases second with
          | zero => omega
          | succ second =>
              rw [tokenizeFrom, tokenizeFrom]
              cases isWhitespace char with
              | true => exact ih (by omega) (by omega)
              | false =>
                  cases read : nextToken platform char rest with
                  | error => rfl
                  | ok next =>
                      obtain ⟨token, remaining⟩ := next
                      have shorter := length_of_nextToken read
                      have same : tokenizeFrom platform first remaining =
                          tokenizeFrom platform second remaining := ih (by omega) (by omega)
                      change (tokenizeFrom platform first remaining >>= _) =
                        (tokenizeFrom platform second remaining >>= _)
                      rw [same]

@[simp] theorem tokenize_nil : tokenize platform [] = .ok [] := rfl

theorem tokenize_white {char : Char} {rest : List Char} (white : isWhitespace char = true) :
    tokenize platform (char :: rest) = tokenize platform rest := by
  unfold tokenize
  rw [List.length_cons, tokenizeFrom, if_pos white]

/-- A token, and the tokens of the characters it leaves. -/
theorem tokenize_token {char : Char} {rest remaining : List Char} {token : Token}
    (black : isWhitespace char = false)
    (read : nextToken platform char rest = .ok (token, remaining)) :
    tokenize platform (char :: rest) = (token :: ·) <$> tokenize platform remaining := by
  have shorter := length_of_nextToken read
  unfold tokenize
  rw [List.length_cons, tokenizeFrom, black, read,
    tokenizeFrom_congr (Nat.le_refl _) shorter]
  rfl

end Progress

end Sohara
