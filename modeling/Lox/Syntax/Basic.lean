import Lox.Token.Basic
import Lox.Value

/-!
# Syntax trees

The trees of Lox programs.  Operators and names are kept as the tokens that were
read, so a message about a node can point to its place in the source.  A tree may
hold any token: which operators have a meaning is decided when it is evaluated.
-/

namespace Lox

/-- An expression. -/
inductive Expr
  | literal (value : Value)
  | grouping (inner : Expr)
  | unary (operator : Token) (right : Expr)
  | binary (left : Expr) (operator : Token) (right : Expr)
  | logical (left : Expr) (operator : Token) (right : Expr)
  | variable (name : Token)
  | assign (name : Token) (value : Expr)

/-- A statement. -/
inductive Stmt
  | expression (expr : Expr)
  | print (expr : Expr)
  | var (name : Token) (initializer : Option Expr)
  | block (body : List Stmt)
  | ifThen (condition : Expr) (thenBranch : Stmt)
  | ifElse (condition : Expr) (thenBranch elseBranch : Stmt)
  | loop (condition : Expr) (body : Stmt)

end Lox
