import Lox.Environment
import Lox.Evaluation.Operator
import Lox.Syntax.Basic

/-!
# Evaluation of expressions

An expression is evaluated in an environment, which assignments change.  What an
expression has assigned before an error stays assigned.
-/

namespace Lox

/-- An evaluation: it may change the environment, and it may end in an error. -/
abbrev Eval : Type → Type := ExceptT RuntimeError (StateM Environment)

namespace Environment

/-- The value of a variable. -/
def get (env : Environment) (name : Token) : Except RuntimeError Value :=
  match env.lookup? name.lexeme with
  | some value => .ok value
  | none => .error ⟨.undefinedVariable, name⟩

/-- Assigns to a variable. -/
def set (env : Environment) (name : Token) (value : Value) : Except RuntimeError Environment :=
  match env.assign? name.lexeme value with
  | some env => .ok env
  | none => .error ⟨.undefinedVariable, name⟩

end Environment

/-- The value of an expression.  Operands are evaluated from left to right; `and`
and `or` evaluate the right one only if the left one does not decide, and yield
the operand that decided. -/
def Expr.eval : Expr → Eval Value
  | .literal value => return value
  | .grouping inner => inner.eval
  | .unary operator right => do
      let value ← right.eval
      ofExcept (Operator.unary operator value)
  | .binary left operator right => do
      let x ← left.eval
      let y ← right.eval
      ofExcept (Operator.binary operator x y)
  | .logical left operator right => do
      let value ← left.eval
      match operator.kind with
      | .keyword .or => if value.isTruthy then return value else right.eval
      | .keyword .and => if value.isTruthy then right.eval else return value
      | _ => throw ⟨.unknownLogical, operator⟩
  | .variable name => do
      let env ← get
      ofExcept (env.get name)
  | .assign name value => do
      let value ← value.eval
      let env ← get
      let env ← ofExcept (env.set name value)
      set env
      return value

end Lox
