import Lox.Grammar.Expression

/-!
# Statements and declarations

The rules for statements are functions of the rules for the expressions and
statements in them; `statement` ties the knot by recursion on the nesting levels
that are left.

A declaration that has a fault is dropped: the fault is reported, and reading
goes on where the next declaration may begin.
-/

namespace Lox

/-- The loop of a `for` statement.  Its clauses become the statements that they
stand for: the increment follows the body, and the initializer precedes the loop
in a block around both. -/
def Stmt.forLoop (initializer : Option Stmt) (condition : Expr) (increment : Option Expr)
    (body : Stmt) : Stmt :=
  let turn := match increment with
    | some expr => .block [body, .expression expr]
    | none => body
  match initializer with
  | some stmt => .block [stmt, .loop condition turn]
  | none => .loop condition turn

namespace Grammar

open Rule

/-! ## Recovery -/

/-- The keywords from which reading goes on after a fault. -/
def isStarter : Token.Kind → Bool
  | .keyword .«class» | .keyword .«fun» | .keyword .var | .keyword .«for» | .keyword .«if»
  | .keyword .«while» | .keyword .print | .keyword .«return» => true
  | _ => false

/-- Drops a token and all that follow it, up to a semicolon or to a keyword from
which reading goes on. -/
def resume : List Token → List Token
  | [] => []
  | token :: rest =>
      if token.kind.isSymbol .semicolon then rest
      else
        match rest with
        | [] => []
        | next :: _ => if isStarter next.kind then rest else resume rest

/-- Reads by a rule.  If it stops at a fault, reports that and resumes after it. -/
def recovering (rule : Rule α) : Rule (Option α) := fun tokens =>
  let parsed := rule tokens
  match parsed.result with
  | .ok a => ⟨.ok (some a), parsed.rest, parsed.reported⟩
  | .error fault => ⟨.ok none, resume parsed.rest, parsed.reported.push fault⟩

/-! ## Rules -/

/-- A variable declaration, after its `var`. -/
def varDeclaration (expression : Rule Expr) : Rule Stmt := do
  let name ← expect isIdentifier .missingVariableName
  match ← takeIf (·.isSymbol .equal) with
  | none =>
      expectSymbol .semicolon .unendedVariable
      return .var name none
  | some _ =>
      let initializer ← expression
      expectSymbol .semicolon .unendedVariable
      return .var name (some initializer)

/-- An expression as a statement. -/
def expressionStatement (expression : Rule Expr) : Rule Stmt := do
  let expr ← expression
  expectSymbol .semicolon .unendedExpression
  return .expression expr

/-- A `print` statement, after its keyword. -/
def printStatement (expression : Rule Expr) : Rule Stmt := do
  let expr ← expression
  expectSymbol .semicolon .unendedValue
  return .print expr

/-- An `if` statement, after its keyword.  An `else` belongs to the nearest `if`. -/
def ifStatement (expression : Rule Expr) (statement : Rule Stmt) : Rule Stmt := do
  expectSymbol .leftParen .unopenedIf
  let condition ← expression
  expectSymbol .rightParen .unclosedIf
  let thenBranch ← statement
  match ← takeIf (·.isKeyword .«else») with
  | none => return .ifThen condition thenBranch
  | some _ =>
      let elseBranch ← statement
      return .ifElse condition thenBranch elseBranch

/-- A `while` statement, after its keyword. -/
def whileStatement (expression : Rule Expr) (statement : Rule Stmt) : Rule Stmt := do
  expectSymbol .leftParen .unopenedWhile
  let condition ← expression
  expectSymbol .rightParen .unclosedWhile
  let body ← statement
  return .loop condition body

/-- The first clause of a `for` statement, with its semicolon. -/
def forInitializer (expression : Rule Expr) : Rule (Option Stmt) := do
  match ← takeIf (·.isSymbol .semicolon) with
  | some _ => return none
  | none =>
      match ← takeIf (·.isKeyword .var) with
      | some _ => return some (← varDeclaration expression)
      | none => return some (← expressionStatement expression)

/-- The second clause of a `for` statement, before its semicolon.  A condition
that is left out always holds. -/
def forCondition (expression : Rule Expr) : Rule Expr := do
  if ← nextIs (·.isSymbol .semicolon) then return .literal (.bool true)
  else expression

/-- The third clause of a `for` statement, before the closing parenthesis. -/
def forIncrement (expression : Rule Expr) : Rule (Option Expr) := do
  if ← nextIs (·.isSymbol .rightParen) then return none
  else return some (← expression)

/-- A `for` statement, after its keyword. -/
def forStatement (expression : Rule Expr) (statement : Rule Stmt) : Rule Stmt := do
  expectSymbol .leftParen .unopenedFor
  let initializer ← forInitializer expression
  let condition ← forCondition expression
  expectSymbol .semicolon .unendedForCondition
  let increment ← forIncrement expression
  expectSymbol .rightParen .unclosedFor
  let body ← statement
  return .forLoop initializer condition increment body

/-- A variable declaration or a statement. -/
def declaration (expression : Rule Expr) (statement : Rule Stmt) : Rule Stmt := do
  match ← takeIf (·.isKeyword .var) with
  | some _ => varDeclaration expression
  | none => statement

/-- Declarations up to the end of the tokens, or up to a token that ends them.
Those with faults are dropped.  What has been read is kept with the last first,
until all of it is there. -/
def declarations (isLast : Token.Kind → Bool) (expression : Rule Expr) (statement : Rule Stmt) :
    Rule (List Stmt) := do
  let reversed ← repeating (fun reversed tokens =>
    match tokens with
    | [] => none
    | token :: _ =>
        if isLast token.kind then none
        else
          some ((do
            match ← recovering (declaration expression statement) with
            | some stmt => return stmt :: reversed
            | none => return reversed : Rule (List Stmt)) tokens)) []
  return reversed.reverse

/-- A block, after its opening brace. -/
def block (expression : Rule Expr) (statement : Rule Stmt) : Rule Stmt := do
  let body ← declarations (·.isSymbol .rightBrace) expression statement
  expectSymbol .rightBrace .unclosedBlock
  return .block body

/-- A statement of any kind, given the rules for what it contains. -/
def statementBody (expression : Rule Expr) (statement : Rule Stmt) : Rule Stmt
  | [] => expressionStatement expression []
  | token :: rest =>
      match token.kind with
      | .keyword .«if» => ifStatement expression statement rest
      | .keyword .print => printStatement expression rest
      | .symbol .leftBrace => block expression statement rest
      | .keyword .«while» => whileStatement expression statement rest
      | .keyword .«for» => forStatement expression statement rest
      | _ => expressionStatement expression (token :: rest)

/-- A statement, with so many nesting levels left. -/
def statement : (levels : Nat) → Rule Stmt
  | 0 => fail .tooMuchNesting
  | levels + 1 => fun tokens => statementBody (expression levels) (statement levels) tokens

end Grammar

end Lox
