import Lox.Grammar.Rule
import Lox.Syntax.Basic

/-!
# Expressions

The rules for expressions, from those that bind tightest to assignment.  A rule
that contains expressions is a function of the rules for them; `expression` and
`operand` then tie the knot, by recursion on the nesting levels that are left.

Nesting counts expressions, right sides of assignments and operands of unary
operators, besides statements.  Binary operators of one level do not nest: they
are read in a loop and associate to the left.
-/

namespace Lox.Grammar

open Rule

/-- The value of a literal. -/
def literal? : Token.Kind → Option Value
  | .keyword .nil => some .nil
  | .keyword .«false» => some (.bool false)
  | .keyword .«true» => some (.bool true)
  | .number value => some (.number value)
  | .string text => some (.string text)
  | _ => none

/-- Whether a token is a name. -/
def isIdentifier : Token.Kind → Bool
  | .identifier _ => true
  | _ => false

/-! ## Operators -/

/-- The operators that stand before their operand. -/
def isUnary : Token.Kind → Bool
  | .symbol .bang | .symbol .minus => true
  | _ => false

/-- The operators `/` and `*`. -/
def isFactor : Token.Kind → Bool
  | .symbol .slash | .symbol .star => true
  | _ => false

/-- The operators `-` and `+` between two operands. -/
def isTerm : Token.Kind → Bool
  | .symbol .minus | .symbol .plus => true
  | _ => false

/-- The operators `>`, `>=`, `<` and `<=`. -/
def isComparison : Token.Kind → Bool
  | .symbol .greater | .symbol .greaterEqual | .symbol .less | .symbol .lessEqual => true
  | _ => false

/-- The operators `!=` and `==`. -/
def isEquality : Token.Kind → Bool
  | .symbol .bangEqual | .symbol .equalEqual => true
  | _ => false

/-! ## Rules -/

/-- A literal, a name, or an expression in parentheses. -/
def primary (expression : Rule Expr) : Rule Expr
  | [] => fail .missingExpression []
  | token :: rest =>
      match literal? token.kind, token.kind with
      | some value, _ => ⟨.ok (.literal value), rest, #[]⟩
      | none, .identifier _ => ⟨.ok (.variable token), rest, #[]⟩
      | none, .symbol .leftParen =>
          (do
            let inner ← expression
            expectSymbol .rightParen .unclosedGrouping
            return .grouping inner : Rule Expr) rest
      | none, _ => fail .missingExpression (token :: rest)

/-- A unary operator with its operand, or a primary expression. -/
def unary (operand expression : Rule Expr) : Rule Expr := do
  match ← takeIf isUnary with
  | some operator => return .unary operator (← operand)
  | none => primary expression

/-- Operands with operators of one level between them, grouped from the left. -/
def leftAssoc (isOperator : Token.Kind → Bool) (node : Expr → Token → Expr → Expr)
    (operand : Rule Expr) : Rule Expr := do
  let first ← operand
  repeating (fun left tokens =>
    match tokens with
    | [] => none
    | operator :: rest =>
        if isOperator operator.kind then
          some ((do return node left operator (← operand) : Rule Expr) rest)
        else none) first

/-- All levels of binary and logical operators, over unary expressions. -/
def operators (unary : Rule Expr) : Rule Expr :=
  leftAssoc (·.isKeyword .or) .logical <|
  leftAssoc (·.isKeyword .and) .logical <|
  leftAssoc isEquality .binary <|
  leftAssoc isComparison .binary <|
  leftAssoc isTerm .binary <|
  leftAssoc isFactor .binary unary

/-- An expression with operators, or an assignment to a name.  If something else
is assigned to, that is reported and the left side stands for the assignment. -/
def assignment (operand expression : Rule Expr) : Rule Expr := do
  let target ← operators (unary operand expression)
  let fromEquals ← remaining
  match ← takeIf (·.isSymbol .equal) with
  | none => return target
  | some _ =>
      let value ← expression
      match target with
      | .variable name => return .assign name value
      | _ =>
          report .invalidAssignmentTarget fromEquals
          return target

mutual

/-- An expression, with so many nesting levels left. -/
def expression : (levels : Nat) → Rule Expr
  | 0 => fail .tooMuchNesting
  | levels + 1 => fun tokens => assignment (operand levels) (expression levels) tokens

/-- The operand of a unary operator, with so many nesting levels left. -/
def operand : (levels : Nat) → Rule Expr
  | 0 => fail .tooMuchNesting
  | levels + 1 => fun tokens => unary (operand levels) (expression levels) tokens

end

end Lox.Grammar
