import Lox.Evaluation.Error
import Lox.Value

/-!
# Operators

What operators do with the values of their operands.
-/

namespace Lox.Operator

/-- A unary operator: `-` negates a number, `!` tells whether a value is not truthy. -/
def unary (operator : Token) (right : Value) : Except RuntimeError Value :=
  match operator.kind, right with
  | .symbol .minus, .number x => .ok (.number (-x))
  | .symbol .minus, _ => .error ⟨.operandNotNumber, operator⟩
  | .symbol .bang, value => .ok (.bool (!value.isTruthy))
  | _, _ => .error ⟨.unknownUnary, operator⟩

/-- The sum of two numbers, or one string after the other. -/
def add (operator : Token) : Value → Value → Except RuntimeError Value
  | .number x, .number y => .ok (.number (x + y))
  | .string s, .string t => .ok (.string (s ++ t))
  | _, _ => .error ⟨.operandsNotAddable, operator⟩

/-- A binary operator that knows only numbers. -/
def arithmetic (operator : Token) (x y : Float) : Except RuntimeError Value :=
  match operator.kind with
  | .symbol .minus => .ok (.number (x - y))
  | .symbol .slash => .ok (.number (x / y))
  | .symbol .star => .ok (.number (x * y))
  | .symbol .greater => .ok (.bool (y < x))
  | .symbol .greaterEqual => .ok (.bool (y ≤ x))
  | .symbol .less => .ok (.bool (x < y))
  | .symbol .lessEqual => .ok (.bool (x ≤ y))
  | _ => .error ⟨.unknownBinary, operator⟩

/-- A binary operator.  Any two values can be compared for equality; all operators
but these and `+` need numbers, which is seen to before it is known whether the
operator has a meaning. -/
def binary (operator : Token) (left right : Value) : Except RuntimeError Value :=
  match operator.kind with
  | .symbol .equalEqual => .ok (.bool (left == right))
  | .symbol .bangEqual => .ok (.bool (left != right))
  | .symbol .plus => add operator left right
  | _ =>
      match left, right with
      | .number x, .number y => arithmetic operator x y
      | _, _ => .error ⟨.operandsNotNumbers, operator⟩

end Lox.Operator
