import Lox.Grammar.Program

/-!
# Walks

The grammar again, for a reader that knows its place in the tokens by a number.  A rule is given
the tokens of the program and no others, so it cannot go beyond their end.  A walk is given all
tokens there are, with any that follow the end: it looks up the one at its place, and nothing
but its own steps keeps it from going on behind the end.

A walk also keeps count of its depth, and stops before it gets too deep.  The `levels` of the
walks that contain themselves only make their recursion structural: there is one more of them
than can be nested, so they do not run out before the depth does.
-/

namespace Lox

/-- A place in the tokens, with what has been found on the way to it. -/
structure Cursor where
  tokens : List Token
  current : Nat
  depth : Nat
  errors : Array SyntaxError

namespace Cursor

/-- The place before the first token. -/
def start (tokens : List Token) : Cursor := ⟨tokens, 0, 0, #[]⟩

/-- The token at the place.  After the last one it is the mark that is implied there. -/
def token (cursor : Cursor) : Token := cursor.tokens[cursor.current]?.getD impliedEnd

/-- The token before the place, or the first one. -/
def previous (cursor : Cursor) : Token := cursor.tokens[cursor.current - 1]?.getD impliedEnd

/-- Whether the program ends here. -/
def isAtEnd (cursor : Cursor) : Bool := cursor.token.kind.isEnd

/-- The next place, unless the program ends here. -/
def forward (cursor : Cursor) : Cursor :=
  if cursor.isAtEnd then cursor else { cursor with current := cursor.current + 1 }

end Cursor

/-- A way through tokens from one place to another, which may stop at an error. -/
def Walk (α : Type) : Type := Cursor → Except SyntaxError α × Cursor

namespace Walk

variable {α β : Type}

instance : Monad Walk where
  pure a := fun cursor => (.ok a, cursor)
  bind walk next := fun cursor =>
    match walk cursor with
    | (.error error, reached) => (.error error, reached)
    | (.ok a, reached) => next a reached

/-! ## Single steps -/

/-- The token at the place. -/
def peek : Walk Token := fun cursor => (.ok cursor.token, cursor)

/-- Goes past the token at the place, unless it is the end. -/
def advance : Walk Token := fun cursor => (.ok cursor.forward.previous, cursor.forward)

/-- Stops at the token at the place. -/
def fail (cause : SyntaxError.Cause) : Walk α := fun cursor =>
  (.error ⟨cause, cursor.token⟩, cursor)

/-- Records an error and goes on from here. -/
def report (error : SyntaxError) : Walk Unit := fun cursor =>
  (.ok (), { cursor with errors := cursor.errors.push error })

/-- Whether the token at the place is of such a kind. -/
def nextIs (kind : Token.Kind → Bool) : Walk Bool := do
  return kind (← peek).kind

/-- Goes past the token at the place, if something is chosen for its kind, and on as is chosen. -/
def byFirst (choose : Token.Kind → Option (Token → Walk α)) (otherwise : Walk α) : Walk α := do
  match choose (← peek).kind with
  | some walk => walk (← advance)
  | none => otherwise

/-- Goes past the token at the place if it is of such a kind. -/
def takeIf (kind : Token.Kind → Bool) : Walk (Option Token) :=
  byFirst (fun first => if kind first then some fun token => return some token else none)
    (return none)

/-- Goes past the token at the place, which has to be of such a kind. -/
def expect (kind : Token.Kind → Bool) (cause : SyntaxError.Cause) : Walk Token := do
  match ← takeIf kind with
  | some token => return token
  | none => fail cause

/-- Goes past a symbol that has to come next. -/
def expectSymbol (symbol : Symbol) (cause : SyntaxError.Cause) : Walk Unit := do
  let _ ← expect (·.isSymbol symbol) cause

/-- Goes one level deeper, unless that is too deep. -/
def nested (walk : Walk α) : Walk α := fun cursor =>
  if maxNesting ≤ cursor.depth then fail .tooMuchNesting cursor
  else
    let (result, reached) := walk { cursor with depth := cursor.depth + 1 }
    (result, { reached with depth := reached.depth - 1 })

/-! ## Loops -/

/-- Takes turns as long as there is one to take, but only so many. -/
def turnsWhile (goesOn : Walk Bool) (turn : α → Walk α) : (turns : Nat) → α → Walk α
  | 0, a => return a
  | turns + 1, a => do
      if ← goesOn then turnsWhile goesOn turn turns (← turn a) else return a

/-- Takes turns as long as there is one to take.  Every turn has to go past a token: then there
are turns enough, for there is one for each token. -/
def repeatWhile (goesOn : Walk Bool) (turn : α → Walk α) (first : α) : Walk α := fun cursor =>
  turnsWhile goesOn turn cursor.tokens.length first cursor

/-! ## Recovery -/

/-- Whether a token more is to be dropped: not behind a semicolon, and not at a keyword from
which reading goes on. -/
def dropsMore : Walk Bool := fun cursor =>
  (.ok (!cursor.isAtEnd && !cursor.previous.kind.isSymbol .semicolon &&
    !Grammar.isStarter cursor.token.kind), cursor)

/-- Goes past a token and all that are to be dropped with it. -/
def synchronize : Walk Unit := do
  let _ ← advance
  repeatWhile dropsMore (fun _ => do let _ ← advance) ()

/-- If a walk stops at an error, records that and goes on after it. -/
def recovering (walk : Walk α) : Walk (Option α) := fun cursor =>
  match walk cursor with
  | (.ok a, reached) => (.ok (some a), reached)
  | (.error error, reached) =>
      (do
        report error
        synchronize
        return none : Walk (Option α)) reached

/-! ## Expressions -/

/-- What follows the first token of a primary expression, for each kind of that token. -/
def primaryAfter? (expression : Walk Expr) (kind : Token.Kind) : Option (Token → Walk Expr) :=
  match Grammar.literal? kind, kind with
  | some value, _ => some fun _ => return .literal value
  | none, .identifier _ => some fun name => return .variable name
  | none, .symbol .leftParen =>
      some fun _ => do
        let inner ← expression
        expectSymbol .rightParen .unclosedGrouping
        return .grouping inner
  | none, _ => none

/-- A literal, a name, or an expression in parentheses. -/
def primary (expression : Walk Expr) : Walk Expr :=
  byFirst (primaryAfter? expression) (fail .missingExpression)

/-- A unary operator with its operand, or a primary expression. -/
def unary (operand expression : Walk Expr) : Walk Expr := do
  match ← takeIf Grammar.isUnary with
  | some operator => return .unary operator (← operand)
  | none => primary expression

/-- Operands with operators of one level between them, grouped from the left. -/
def leftAssoc (isOperator : Token.Kind → Bool) (node : Expr → Token → Expr → Expr)
    (operand : Walk Expr) : Walk Expr := do
  let first ← operand
  repeatWhile (nextIs isOperator) (fun left => do
    let operator ← advance
    return node left operator (← operand)) first

/-- All levels of binary and logical operators, over unary expressions. -/
def operators (unary : Walk Expr) : Walk Expr :=
  leftAssoc (·.isKeyword .or) .logical <|
  leftAssoc (·.isKeyword .and) .logical <|
  leftAssoc Grammar.isEquality .binary <|
  leftAssoc Grammar.isComparison .binary <|
  leftAssoc Grammar.isTerm .binary <|
  leftAssoc Grammar.isFactor .binary unary

/-- An expression with operators, or an assignment to a name.  If something else is assigned to,
that is recorded at the equals sign and the left side stands for the assignment. -/
def assignment (operand expression : Walk Expr) : Walk Expr := do
  let target ← operators (unary operand expression)
  match ← takeIf (·.isSymbol .equal) with
  | none => return target
  | some equals =>
      let value ← expression
      match target with
      | .variable name => return .assign name value
      | _ =>
          report ⟨.invalidAssignmentTarget, equals⟩
          return target

mutual

/-- An expression, inside which there are fewer levels. -/
def expression : (levels : Nat) → Walk Expr
  | 0 => fail .tooMuchNesting
  | levels + 1 => fun cursor =>
      nested (assignment (operand levels) (expression levels)) cursor

/-- The operand of a unary operator, inside which there are fewer levels. -/
def operand : (levels : Nat) → Walk Expr
  | 0 => fail .tooMuchNesting
  | levels + 1 => fun cursor => nested (unary (operand levels) (expression levels)) cursor

end

/-! ## Statements -/

/-- A variable declaration, after its `var`. -/
def varDeclaration (expression : Walk Expr) : Walk Stmt := do
  let name ← expect Grammar.isIdentifier .missingVariableName
  match ← takeIf (·.isSymbol .equal) with
  | none =>
      expectSymbol .semicolon .unendedVariable
      return .var name none
  | some _ =>
      let initializer ← expression
      expectSymbol .semicolon .unendedVariable
      return .var name (some initializer)

/-- An expression as a statement. -/
def expressionStatement (expression : Walk Expr) : Walk Stmt := do
  let expr ← expression
  expectSymbol .semicolon .unendedExpression
  return .expression expr

/-- A `print` statement, after its keyword. -/
def printStatement (expression : Walk Expr) : Walk Stmt := do
  let expr ← expression
  expectSymbol .semicolon .unendedValue
  return .print expr

/-- An `if` statement, after its keyword. -/
def ifStatement (expression : Walk Expr) (statement : Walk Stmt) : Walk Stmt := do
  expectSymbol .leftParen .unopenedIf
  let condition ← expression
  expectSymbol .rightParen .unclosedIf
  let thenBranch ← statement
  match ← takeIf (·.isKeyword .«else») with
  | none => return .ifThen condition thenBranch
  | some _ =>
      let elseBranch ← statement
      return .ifElse condition thenBranch elseBranch

/-- A `while` statement, after its keyword. -/
def whileStatement (expression : Walk Expr) (statement : Walk Stmt) : Walk Stmt := do
  expectSymbol .leftParen .unopenedWhile
  let condition ← expression
  expectSymbol .rightParen .unclosedWhile
  let body ← statement
  return .loop condition body

/-- The first clause of a `for` statement, with its semicolon. -/
def forInitializer (expression : Walk Expr) : Walk (Option Stmt) := do
  match ← takeIf (·.isSymbol .semicolon) with
  | some _ => return none
  | none =>
      match ← takeIf (·.isKeyword .var) with
      | some _ => return some (← varDeclaration expression)
      | none => return some (← expressionStatement expression)

/-- The second clause of a `for` statement, before its semicolon. -/
def forCondition (expression : Walk Expr) : Walk Expr := do
  if ← nextIs (·.isSymbol .semicolon) then return .literal (.bool true)
  else expression

/-- The third clause of a `for` statement, before the closing parenthesis. -/
def forIncrement (expression : Walk Expr) : Walk (Option Expr) := do
  if ← nextIs (·.isSymbol .rightParen) then return none
  else return some (← expression)

/-- A `for` statement, after its keyword. -/
def forStatement (expression : Walk Expr) (statement : Walk Stmt) : Walk Stmt := do
  expectSymbol .leftParen .unopenedFor
  let initializer ← forInitializer expression
  let condition ← forCondition expression
  expectSymbol .semicolon .unendedForCondition
  let increment ← forIncrement expression
  expectSymbol .rightParen .unclosedFor
  let body ← statement
  return .forLoop initializer condition increment body

/-- A variable declaration or a statement. -/
def declaration (expression : Walk Expr) (statement : Walk Stmt) : Walk Stmt := do
  match ← takeIf (·.isKeyword .var) with
  | some _ => varDeclaration expression
  | none => statement

/-- Declarations up to the end, or up to a token that ends them.  Those with errors are
dropped. -/
def declarations (isLast : Token.Kind → Bool) (expression : Walk Expr) (statement : Walk Stmt) :
    Walk (List Stmt) := do
  let reversed ← repeatWhile (nextIs fun kind => !kind.isEnd && !isLast kind) (fun reversed => do
    match ← recovering (declaration expression statement) with
    | some stmt => return stmt :: reversed
    | none => return reversed) []
  return reversed.reverse

/-- A block, after its opening brace. -/
def block (expression : Walk Expr) (statement : Walk Stmt) : Walk Stmt := do
  let body ← declarations (·.isSymbol .rightBrace) expression statement
  expectSymbol .rightBrace .unclosedBlock
  return .block body

/-- What follows the first token of a statement, for each kind of that token, unless it is an
expression. -/
def statementAfter? (expression : Walk Expr) (statement : Walk Stmt) :
    Token.Kind → Option (Walk Stmt)
  | .keyword .«if» => some (ifStatement expression statement)
  | .keyword .print => some (printStatement expression)
  | .symbol .leftBrace => some (block expression statement)
  | .keyword .«while» => some (whileStatement expression statement)
  | .keyword .«for» => some (forStatement expression statement)
  | _ => none

/-- A statement of any kind. -/
def statementBody (expression : Walk Expr) (statement : Walk Stmt) : Walk Stmt :=
  byFirst (fun kind => (statementAfter? expression statement kind).map fun walk _ => walk)
    (expressionStatement expression)

/-- A statement, inside which there are fewer levels. -/
def statement : (levels : Nat) → Walk Stmt
  | 0 => fail .tooMuchNesting
  | levels + 1 => fun cursor =>
      nested (statementBody (expression levels) (statement levels)) cursor

/-! ## Programs -/

/-- The declarations of a program.  With one level more than can be nested it is the depth that
stops a walk. -/
def program : Walk (List Stmt) :=
  declarations (fun _ => false) (expression (maxNesting + 1)) (statement (maxNesting + 1))

/-- The statements of a program, or all of its errors in the order in which they were recorded. -/
def parse (tokens : List Token) : Except (List SyntaxError) (List Stmt) :=
  match program (.start tokens) with
  | (.ok statements, reached) =>
      if reached.errors.isEmpty then .ok statements else .error reached.errors.toList
  | (.error error, reached) => .error (reached.errors.push error).toList

end Walk

end Lox
