import Lox.Grammar.Fault

/-!
# Rules

A rule of the grammar reads the first tokens of a list.  It either yields what it
has read or stops at a fault, and in both cases leaves the tokens it has not
used.  Besides, it may report faults without stopping at them.

A rule depends on nothing but the tokens, so what it reads at one place it reads
at every other.  The tokens end where the program ends: a rule never sees the
token that marks the end.
-/

namespace Lox

/-- What comes of reading tokens by a rule. -/
structure Parsed (α : Type) where
  result : Except Fault α
  rest : List Token
  reported : Array Fault

/-- A way of reading the first tokens of a list. -/
def Rule (α : Type) : Type := List Token → Parsed α

namespace Rule

instance : Monad Rule where
  pure a := fun tokens => ⟨.ok a, tokens, #[]⟩
  bind rule next := fun tokens =>
    let first := rule tokens
    match first.result with
    | .error fault => ⟨.error fault, first.rest, first.reported⟩
    | .ok a =>
        let second := next a first.rest
        ⟨second.result, second.rest, first.reported ++ second.reported⟩

/-! ## Single tokens -/

/-- Stops at the next token. -/
def fail (cause : SyntaxError.Cause) : Rule α := fun tokens =>
  ⟨.error ⟨cause, tokens⟩, tokens, #[]⟩

/-- Reports a fault where so many tokens were left, and goes on from here. -/
def report (cause : SyntaxError.Cause) (left : List Token) : Rule Unit := fun tokens =>
  ⟨.ok (), tokens, #[⟨cause, left⟩]⟩

/-- The tokens that are left. -/
def remaining : Rule (List Token) := fun tokens => ⟨.ok tokens, tokens, #[]⟩

/-- Whether the next token is of such a kind.  It is not read. -/
def nextIs (kind : Token.Kind → Bool) : Rule Bool := fun tokens =>
  ⟨.ok (tokens.head?.any fun token => kind token.kind), tokens, #[]⟩

/-- Reads the next token if it is of such a kind. -/
def takeIf (kind : Token.Kind → Bool) : Rule (Option Token)
  | [] => ⟨.ok none, [], #[]⟩
  | token :: rest =>
      if kind token.kind then ⟨.ok (some token), rest, #[]⟩
      else ⟨.ok none, token :: rest, #[]⟩

/-- Reads the next token, which has to be of such a kind. -/
def expect (kind : Token.Kind → Bool) (cause : SyntaxError.Cause) : Rule Token := do
  match ← takeIf kind with
  | some token => return token
  | none => fail cause

/-- Reads a symbol that has to come next. -/
def expectSymbol (symbol : Symbol) (cause : SyntaxError.Cause) : Rule Unit := do
  let _ ← expect (·.isSymbol symbol) cause

/-! ## Repetition -/

/-- Takes further steps from what has been read so far, as long as there is a
next step.  There is at most one turn for each of `turns`. -/
def iterate (step : α → List Token → Option (Parsed α)) : (turns : List Token) → Parsed α → Parsed α
  | [], parsed => parsed
  | _ :: turns, parsed =>
      match parsed.result with
      | .error _ => parsed
      | .ok a =>
          match step a parsed.rest with
          | none => parsed
          | some next =>
              iterate step turns ⟨next.result, next.rest, parsed.reported ++ next.reported⟩

/-- Takes steps from a first value as long as there is a next step.  Every step
has to read a token: then there are turns enough, for there is one for each
token. -/
def repeating (step : α → List Token → Option (Parsed α)) (first : α) : Rule α := fun tokens =>
  iterate step tokens ⟨.ok first, tokens, #[]⟩

end Rule

end Lox
