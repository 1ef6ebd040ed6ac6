import Lox.Token.Basic

/-!
# Faults of a program's syntax

What can be wrong with a list of tokens.  While tokens are read a fault knows
which of them were left, and there may have been none; `SyntaxError` is the same
fault once the token that marks the end is known.
-/

namespace Lox

/-- What is wrong with the syntax. -/
inductive SyntaxError.Cause
  | tooMuchNesting
  | invalidAssignmentTarget
  | missingExpression
  | missingVariableName
  | unclosedGrouping
  | unclosedBlock
  | unendedVariable
  | unendedValue
  | unendedExpression
  | unopenedIf
  | unclosedIf
  | unopenedWhile
  | unclosedWhile
  | unopenedFor
  | unendedForCondition
  | unclosedFor
deriving DecidableEq

/-- A mistake in the syntax, at a token. -/
structure SyntaxError where
  cause : SyntaxError.Cause
  token : Token

namespace SyntaxError

/-- The wording of a cause. -/
def Cause.message : Cause → String
  | .tooMuchNesting => "Too much nesting."
  | .invalidAssignmentTarget => "Invalid assignment target."
  | .missingExpression => "Expect expression."
  | .missingVariableName => "Expect variable name."
  | .unclosedGrouping => "Expect ')' after expression."
  | .unclosedBlock => "Expect '\x7d' after block."
  | .unendedVariable => "Expect ';' after variable declaration."
  | .unendedValue => "Expect ';' after value."
  | .unendedExpression => "Expect ';' after expression."
  | .unopenedIf => "Expect '(' after 'if'."
  | .unclosedIf => "Expect ')' after if condition."
  | .unopenedWhile => "Expect '(' after 'while'."
  | .unclosedWhile => "Expect ')' after condition."
  | .unopenedFor => "Expect '(' after 'for'."
  | .unendedForCondition => "Expect ';' after loop condition."
  | .unclosedFor => "Expect ')' after for clauses."

/-- Where an error is, as its report says it. -/
def place (error : SyntaxError) : String :=
  if error.token.kind.isEnd then "end" else "'" ++ error.token.lexeme ++ "'"

/-- The report of an error. -/
def text (error : SyntaxError) : String :=
  s!"[line {error.token.line}] error at {error.place}: {error.cause.message}"

end SyntaxError

/-- A mistake found while reading: its cause, and the tokens that were left where it
was found.  The first of these is the token in error, and the number of them tells
its place in the program. -/
structure Fault where
  cause : SyntaxError.Cause
  left : List Token

/-- The error for a fault, in a program that ends at the given token. -/
def Fault.toError (endMark : Token) (fault : Fault) : SyntaxError :=
  ⟨fault.cause, fault.left.head?.getD endMark⟩

end Lox
