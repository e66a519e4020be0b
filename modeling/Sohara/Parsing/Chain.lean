import Sohara.Core.Except

/-! # Chains of operators

Recursive-descent parsers take a value from the front of a list of tokens. A level of
binary operators is a loop: an operand, and as long as an operator follows, another
operand, combined from the left. Loops are bounded by the tokens that remain, which
every turn shortens.

`Opens` is the loop invariant of printed chains: the tokens of a value bring the loop
to the point where it holds the value and looks for the next operator.
-/

namespace Parsing

variable {τ ε α : Type}

/-- Takes a value from the front of a list of tokens. -/
abbrev Parser (τ ε α : Type) : Type := List τ → Except ε (α × List τ)

/-- Every value takes at least one token. -/
def Consumes (parser : Parser τ ε α) : Prop :=
  ∀ tokens value rest, parser tokens = .ok (value, rest) → rest.length < tokens.length

/-- The parsers do the same on lists of at most the given length. -/
def Agree (length : Nat) (first second : Parser τ ε α) : Prop :=
  ∀ tokens, tokens.length ≤ length → first tokens = second tokens

/-- Before tokens of some kind, the parser takes a value from its tokens and stops. -/
def Reads (follows : List τ → Prop) (parser : Parser τ ε α) (tokens : List τ) (value : α) : Prop :=
  ∀ rest, follows rest → parser (tokens ++ rest) = .ok (value, rest)

theorem Reads.mono {follows follows' : List τ → Prop} {parser : Parser τ ε α} {tokens : List τ}
    {value : α} (reads : Reads follows parser tokens value)
    (within : ∀ rest, follows' rest → follows rest) : Reads follows' parser tokens value :=
  fun rest after => reads rest (within rest after)

section Chain

variable (operator : τ → Option (α → α → α)) (operand : Parser τ ε α) (exhausted : ε)

/-- Combines a value with the operands that follow, from the left; `bound` bounds
their number. -/
def chain : Nat → α → Parser τ ε α
  | _, lhs, [] => .ok (lhs, [])
  | bound, lhs, token :: rest =>
      match operator token with
      | none => .ok (lhs, token :: rest)
      | some combine =>
          match bound with
          | 0 => .error exhausted
          | bound + 1 => do
              let rhs ← operand rest
              chain bound (combine lhs rhs.1) rhs.2

/-- A level of left-associative operators. -/
def parseChain : Parser τ ε α := fun tokens => do
  let lhs ← operand tokens
  chain operator operand exhausted lhs.2.length lhs.1 lhs.2

variable {operator operand exhausted}

/-- The loop ends where no operator follows. -/
theorem chain_of_none {bound : Nat} {lhs : α} {tokens : List τ}
    (none : ∀ token ∈ tokens.head?, operator token = none) :
    chain operator operand exhausted bound lhs tokens = .ok (lhs, tokens) := by
  cases tokens with
  | nil => cases bound <;> rfl
  | cons token rest =>
      have stops : operator token = .none := none token rfl
      cases bound <;> simp only [chain, stops]

theorem chain_succ {bound : Nat} {lhs : α} {token : τ} {rest : List τ} {combine : α → α → α}
    (operates : operator token = some combine) :
    chain operator operand exhausted (bound + 1) lhs (token :: rest) = (operand rest >>= fun rhs =>
      chain operator operand exhausted bound (combine lhs rhs.1) rhs.2) := by
  simp only [chain, operates]

theorem length_of_chain (consumes : Consumes operand) {bound : Nat} {lhs value : α}
    {tokens rest : List τ}
    (parsed : chain operator operand exhausted bound lhs tokens = .ok (value, rest)) :
    rest.length ≤ tokens.length := by
  induction bound generalizing lhs tokens with
  | zero =>
      cases tokens with
      | nil =>
          cases parsed
          exact Nat.le_refl _
      | cons token tokens =>
          simp only [chain] at parsed
          split at parsed <;> cases parsed
          exact Nat.le_refl _
  | succ bound ih =>
      cases tokens with
      | nil =>
          cases parsed
          exact Nat.le_refl _
      | cons token tokens =>
          cases operates : operator token with
          | none =>
              simp only [chain, operates] at parsed
              cases parsed
              exact Nat.le_refl _
          | some combine =>
              rw [chain_succ operates, Except.bind_eq_ok] at parsed
              obtain ⟨rhs, taken, parsed⟩ := parsed
              have shorter := consumes _ _ _ taken
              have shortest := ih parsed
              rw [List.length_cons]
              omega

theorem consumes_parseChain (consumes : Consumes operand) :
    Consumes (parseChain operator operand exhausted) := by
  intro tokens value rest parsed
  obtain ⟨lhs, taken, parsed⟩ := Except.bind_eq_ok.mp parsed
  exact Nat.lt_of_le_of_lt (length_of_chain consumes parsed) (consumes _ _ _ taken)

/-- Bounds that cover the remaining tokens do not matter, nor does what the operand
parser does on longer lists. -/
theorem chain_congr {other : Parser τ ε α} (consumes : Consumes operand) {length : Nat}
    (agree : Agree length operand other) {first second : Nat} {lhs : α} {tokens : List τ}
    (short : tokens.length ≤ length) (enough : tokens.length ≤ first)
    (enough' : tokens.length ≤ second) :
    chain operator operand exhausted first lhs tokens =
      chain operator other exhausted second lhs tokens := by
  induction first generalizing second lhs tokens with
  | zero =>
      cases tokens with
      | nil => cases second <;> rfl
      | cons token rest => cases enough
  | succ first ih =>
      cases tokens with
      | nil => cases second <;> rfl
      | cons token rest =>
          rw [List.length_cons] at short enough enough'
          cases second with
          | zero => omega
          | succ second =>
              cases operates : operator token with
              | none => simp only [chain, operates]
              | some combine =>
                  rw [chain_succ operates, chain_succ operates, ← agree rest (by omega)]
                  cases taken : operand rest with
                  | error => rfl
                  | ok rhs =>
                      have shorter := consumes _ _ _ taken
                      exact ih (by omega) (by omega) (by omega)

theorem agree_parseChain {other : Parser τ ε α} (consumes : Consumes operand) {length : Nat}
    (agree : Agree length operand other) :
    Agree length (parseChain operator operand exhausted) (parseChain operator other exhausted) := by
  intro tokens short
  unfold parseChain
  rw [← agree tokens short]
  cases taken : operand tokens with
  | error => rfl
  | ok lhs =>
      have shorter := consumes _ _ _ taken
      exact chain_congr consumes agree (by omega) (Nat.le_refl _) (Nat.le_refl _)

variable (operator operand exhausted) in
/-- The tokens bring the loop to the value. -/
def Opens (follows : List τ → Prop) (tokens : List τ) (value : α) : Prop :=
  ∀ rest, follows rest → ∃ bound, rest.length ≤ bound ∧
    parseChain operator operand exhausted (tokens ++ rest) =
      chain operator operand exhausted bound value rest

variable {follows follows' : List τ → Prop} {tokens tokens' : List τ} {lhs rhs : α}

theorem Reads.opens (reads : Reads follows operand tokens lhs) :
    Opens operator operand exhausted follows tokens lhs := by
  intro rest after
  refine ⟨rest.length, Nat.le_refl _, ?_⟩
  unfold parseChain
  rw [reads rest after]
  rfl

/-- An operator and its operand take the loop one turn further. -/
theorem Opens.extend (opens : Opens operator operand exhausted follows tokens lhs) {token : τ}
    {combine : α → α → α} (operates : operator token = some combine)
    (before : ∀ rest, follows (token :: rest)) (reads : Reads follows operand tokens' rhs) :
    Opens operator operand exhausted follows (tokens ++ token :: tokens') (combine lhs rhs) := by
  intro rest after
  obtain ⟨bound, enough, opened⟩ := opens (token :: (tokens' ++ rest)) (before _)
  cases bound with
  | zero => cases enough
  | succ bound =>
      refine ⟨bound, ?_, ?_⟩
      · simp only [List.length_cons, List.length_append] at enough
        omega
      · rw [List.append_assoc, List.cons_append, opened, chain_succ operates, reads rest after]
        rfl

/-- The loop stops at the value when no operator follows. -/
theorem Opens.reads (opens : Opens operator operand exhausted follows tokens lhs)
    (within : ∀ rest, follows' rest → follows rest)
    (stops : ∀ rest, follows' rest → ∀ token ∈ rest.head?, operator token = none) :
    Reads follows' (parseChain operator operand exhausted) tokens lhs := by
  intro rest after
  obtain ⟨bound, -, opened⟩ := opens rest (within rest after)
  rw [opened, chain_of_none (stops rest after)]

end Chain

section Separated

variable (separates : τ → Bool) (item : Parser τ ε α) (exhausted : ε)

/-- One or more items with separators between them; `bound` bounds their number. -/
def separated : Nat → Parser τ ε (List α)
  | 0, _ => .error exhausted
  | bound + 1, tokens => do
      let first ← item tokens
      match first.2 with
      | [] => return ([first.1], [])
      | token :: rest =>
          if separates token then do
            let others ← separated bound rest
            return (first.1 :: others.1, others.2)
          else return ([first.1], token :: rest)

variable {separates item exhausted} {follows : List τ → Prop} {tokens rest more : List τ}
variable {value : α} {values : List α}

theorem separated_last (reads : Reads follows item tokens value) (after : follows rest)
    (ends : ∀ token ∈ rest.head?, separates token = false) (bound : Nat) :
    separated separates item exhausted (bound + 1) (tokens ++ rest) = .ok ([value], rest) := by
  unfold separated
  rw [reads rest after]
  cases rest with
  | nil => rfl
  | cons token rest =>
      change (if separates token = true then _ else _) = _
      rw [ends token rfl]
      rfl

theorem separated_cons {bound : Nat} {token : τ} (reads : Reads follows item tokens value)
    (before : ∀ rest, follows (token :: rest)) (separator : separates token = true)
    (others : separated separates item exhausted bound more = .ok (values, rest)) :
    separated separates item exhausted (bound + 1) (tokens ++ token :: more) =
      .ok (value :: values, rest) := by
  rw [separated, reads _ (before more)]
  change (if separates token = true then _ else _) = _
  rw [if_pos separator, others]
  rfl

theorem length_of_separated (consumes : Consumes item) {bound : Nat}
    (parsed : separated separates item exhausted bound tokens = .ok (values, rest)) :
    rest.length < tokens.length := by
  induction bound generalizing tokens values with
  | zero => cases parsed
  | succ bound ih =>
      rw [separated] at parsed
      obtain ⟨first, taken, parsed⟩ := Except.bind_eq_ok.mp parsed
      have shorter := consumes _ _ _ taken
      obtain ⟨value, remaining⟩ := first
      cases remaining with
      | nil =>
          cases parsed
          exact shorter
      | cons token remaining =>
          change (if separates token = true then _ else _) = _ at parsed
          split at parsed
          · obtain ⟨others, taken, parsed⟩ := Except.bind_eq_ok.mp parsed
            cases parsed
            have shortest := ih taken
            rw [List.length_cons] at shorter
            omega
          · cases parsed
            exact shorter

theorem separated_congr {other : Parser τ ε α} (consumes : Consumes item) {length : Nat}
    (agree : Agree length item other) {first second : Nat} (short : tokens.length ≤ length)
    (enough : tokens.length < first) (enough' : tokens.length < second) :
    separated separates item exhausted first tokens =
      separated separates other exhausted second tokens := by
  induction first generalizing second tokens with
  | zero => omega
  | succ first ih =>
      cases second with
      | zero => omega
      | succ second =>
          rw [separated, separated, ← agree tokens short]
          cases taken : item tokens with
          | error => rfl
          | ok result =>
              obtain ⟨value, remaining⟩ := result
              have shorter := consumes _ _ _ taken
              cases remaining with
              | nil => rfl
              | cons token remaining =>
                  change (if separates token = true then _ else _) =
                    (if separates token = true then _ else _)
                  rw [List.length_cons] at shorter
                  have same : separated separates item exhausted first remaining =
                      separated separates other exhausted second remaining :=
                    ih (by omega) (by omega) (by omega)
                  rw [same]

end Separated

end Parsing
