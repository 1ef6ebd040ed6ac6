import Lox.Syntax.Basic

/-!
# Trees as text

`render` shows a tree as nested parentheses, with what a node is first and its
parts after it.  Operators are shown by their lexemes, and literals by the text
of their values.
-/

namespace Lox

/-- An expression as parenthesised text. -/
def Expr.render : Expr → String
  | .literal value => value.text
  | .grouping inner => "(group " ++ inner.render ++ ")"
  | .unary operator right => "(" ++ operator.lexeme ++ " " ++ right.render ++ ")"
  | .binary left operator right
  | .logical left operator right =>
      "(" ++ operator.lexeme ++ " " ++ left.render ++ " " ++ right.render ++ ")"
  | .variable name => name.lexeme
  | .assign name value => "(= " ++ name.lexeme ++ " " ++ value.render ++ ")"

mutual

/-- A statement as parenthesised text. -/
def Stmt.render : Stmt → String
  | .expression expr => "(; " ++ expr.render ++ ")"
  | .print expr => "(print " ++ expr.render ++ ")"
  | .var name none => "(var " ++ name.lexeme ++ ")"
  | .var name (some initializer) => "(var " ++ name.lexeme ++ " " ++ initializer.render ++ ")"
  | .block body => "(block" ++ Stmt.renderAll body ++ ")"
  | .ifThen condition thenBranch =>
      "(if " ++ condition.render ++ " " ++ thenBranch.render ++ ")"
  | .ifElse condition thenBranch elseBranch =>
      "(if " ++ condition.render ++ " " ++ thenBranch.render ++ " " ++ elseBranch.render ++ ")"
  | .loop condition body => "(while " ++ condition.render ++ " " ++ body.render ++ ")"

/-- The statements of a block, with a space before each. -/
def Stmt.renderAll : List Stmt → String
  | [] => ""
  | stmt :: rest => " " ++ stmt.render ++ Stmt.renderAll rest

end

end Lox
