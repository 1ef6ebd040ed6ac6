import Lox.Token.Basic

/-!
# Errors at run time
-/

namespace Lox

/-- What can go wrong when an expression is evaluated. -/
inductive RuntimeError.Cause
  | operandNotNumber
  | operandsNotNumbers
  | operandsNotAddable
  | unknownUnary
  | unknownBinary
  | unknownLogical
  | undefinedVariable
deriving DecidableEq

/-- An error of evaluation, at the operator or the name that was evaluated. -/
structure RuntimeError where
  cause : RuntimeError.Cause
  token : Token

namespace RuntimeError

/-- The wording of an error.  An undefined variable is named by its lexeme. -/
def message (error : RuntimeError) : String :=
  match error.cause with
  | .operandNotNumber => "Operand must be a number."
  | .operandsNotNumbers => "Operands must be numbers."
  | .operandsNotAddable => "Operands must be two numbers or two strings."
  | .unknownUnary => "Unknown unary operator."
  | .unknownBinary => "Unknown binary operator."
  | .unknownLogical => "Unknown logical operator."
  | .undefinedVariable => "Undefined variable '" ++ error.token.lexeme ++ "'."

/-- The report of an error. -/
def text (error : RuntimeError) : String := s!"{error.message} \n[line {error.token.line}]"

end RuntimeError

end Lox
