import Lox.Grammar.Program
import Lox.Proofs.Grammar.Expression

/-!
# The grammar of Lox

The grammar as a relation, apart from any way of reading.  `Statement openEnd levels w
stmt misplaced` says that the tokens `w` are a statement, of which `stmt` is the tree;
the relations for the other phrases are alike.

* `levels` bounds the nesting: no path from the phrase down to a token goes through
  more than so many statements, expressions, right sides of assignments and operands
  of unary operators.  Each of these leaves one level less to what is in it.
* `openEnd` tells whether an `else` right after the statement could belong to an `if`
  that ends with it.  The statement between an `if` and its `else` is not open, so
  every `else` belongs to the nearest `if` that is there to take it.
* `misplaced` lists the `=` tokens whose left side is not a name.  The grammar of Lox
  is that of the phrases without any; with them it is the wider grammar in which
  everything may be assigned to, and the left side stands for the assignment.
-/

namespace Lox.Phrase

open Grammar

/-! ## Expressions -/

mutual

/-- `primary → literal | IDENT | '(' expression ')'` -/
inductive Primary : (levels : Nat) → List Token → Expr → (misplaced : List Token) → Prop
  | literal {levels : Nat} {token : Token} {value : Value} :
      literal? token.kind = some value → Primary levels [token] (.literal value) []
  | name {levels : Nat} {token : Token} :
      isIdentifier token.kind = true → Primary levels [token] (.variable token) []
  | grouping {levels : Nat} {left right : Token} {w misplaced : List Token} {inner : Expr} :
      left.kind = .symbol .leftParen → Expression levels w inner misplaced →
        right.kind = .symbol .rightParen →
        Primary levels (left :: w ++ [right]) (.grouping inner) misplaced

/-- `unary → ('!' | '-') unary | primary` -/
inductive Unary : (levels : Nat) → List Token → Expr → (misplaced : List Token) → Prop
  | operator {levels : Nat} {operator : Token} {w misplaced : List Token} {right : Expr} :
      isUnary operator.kind = true → Unary levels w right misplaced →
        Unary (levels + 1) (operator :: w) (.unary operator right) misplaced
  | primary {levels : Nat} {w misplaced : List Token} {expr : Expr} :
      Primary levels w expr misplaced → Unary levels w expr misplaced

/-- `level → level operator tighter | tighter`, where `unary` is what the tightest
level connects -/
inductive Operators : (tiers : List Level) → (levels : Nat) → List Token → Expr →
    (misplaced : List Token) → Prop
  | unary {levels : Nat} {w misplaced : List Token} {expr : Expr} :
      Unary levels w expr misplaced → Operators [] levels w expr misplaced
  | tighter {level : Level} {tiers : List Level} {levels : Nat} {w misplaced : List Token}
      {expr : Expr} :
      Operators tiers levels w expr misplaced → Operators (level :: tiers) levels w expr misplaced
  | operator {level : Level} {tiers : List Level} {levels : Nat} {operator : Token}
      {w v misplaced misplaced' : List Token} {left right : Expr} :
      Operators (level :: tiers) levels w left misplaced →
        level.isOperator operator.kind = true → Operators tiers levels v right misplaced' →
        Operators (level :: tiers) levels (w ++ operator :: v) (level.node left operator right)
          (misplaced ++ misplaced')

/-- `assignment → IDENT '=' assignment | or`, and in the wider grammar also
`or '=' assignment` -/
inductive Assignment : (levels : Nat) → List Token → Expr → (misplaced : List Token) → Prop
  | operators {levels : Nat} {w misplaced : List Token} {expr : Expr} :
      Operators Level.all levels w expr misplaced → Assignment levels w expr misplaced
  | assign {levels : Nat} {name equals : Token} {v misplaced : List Token} {value : Expr} :
      isIdentifier name.kind = true → equals.kind = .symbol .equal →
        Expression levels v value misplaced →
        Assignment levels (name :: equals :: v) (.assign name value) misplaced
  | misassign {levels : Nat} {equals : Token} {w v misplaced misplaced' : List Token}
      {target value : Expr} :
      Operators Level.all levels w target misplaced → (∀ name, target ≠ .variable name) →
        equals.kind = .symbol .equal → Expression levels v value misplaced' →
        Assignment levels (w ++ equals :: v) target (misplaced ++ misplaced' ++ [equals])

/-- `expression → assignment`, one level deeper.  The right side of an assignment is one too. -/
inductive Expression : (levels : Nat) → List Token → Expr → (misplaced : List Token) → Prop
  | nested {levels : Nat} {w misplaced : List Token} {expr : Expr} :
      Assignment levels w expr misplaced → Expression (levels + 1) w expr misplaced

end

/-! ## Clauses -/

/-- `'var' IDENT ('=' expression)? ';'`, after the keyword -/
inductive Variable : (levels : Nat) → List Token → Stmt → (misplaced : List Token) → Prop
  | plain {levels : Nat} {name semicolon : Token} :
      isIdentifier name.kind = true → semicolon.kind = .symbol .semicolon →
        Variable levels [name, semicolon] (.var name none) []
  | initialized {levels : Nat} {name equals semicolon : Token} {w misplaced : List Token}
      {initializer : Expr} :
      isIdentifier name.kind = true → equals.kind = .symbol .equal →
        Expression levels w initializer misplaced → semicolon.kind = .symbol .semicolon →
        Variable levels (name :: equals :: w ++ [semicolon]) (.var name (some initializer)) misplaced

/-- The first clause of a `for` statement: `';' | 'var' … | expression ';'` -/
inductive Initializer : (levels : Nat) → List Token → Option Stmt → (misplaced : List Token) → Prop
  | absent {levels : Nat} {semicolon : Token} :
      semicolon.kind = .symbol .semicolon → Initializer levels [semicolon] none []
  | declared {levels : Nat} {keyword : Token} {w misplaced : List Token} {stmt : Stmt} :
      keyword.kind = .keyword .var → Variable levels w stmt misplaced →
        Initializer levels (keyword :: w) (some stmt) misplaced
  | expression {levels : Nat} {semicolon : Token} {w misplaced : List Token} {expr : Expr} :
      Expression levels w expr misplaced → semicolon.kind = .symbol .semicolon →
        Initializer levels (w ++ [semicolon]) (some (.expression expr)) misplaced

/-- The second clause of a `for` statement.  It holds if it is left out. -/
inductive Condition : (levels : Nat) → List Token → Expr → (misplaced : List Token) → Prop
  | absent {levels : Nat} : Condition levels [] (.literal (.bool true)) []
  | expression {levels : Nat} {w misplaced : List Token} {expr : Expr} :
      Expression levels w expr misplaced → Condition levels w expr misplaced

/-- The third clause of a `for` statement -/
inductive Increment : (levels : Nat) → List Token → Option Expr → (misplaced : List Token) → Prop
  | absent {levels : Nat} : Increment levels [] none []
  | expression {levels : Nat} {w misplaced : List Token} {expr : Expr} :
      Expression levels w expr misplaced → Increment levels w (some expr) misplaced

/-! ## Statements -/

mutual

/-- `statement`, by its first token, one level deeper than where it stands -/
inductive Statement : (openEnd : Bool) → (levels : Nat) → List Token → Stmt →
    (misplaced : List Token) → Prop
  | expression {levels : Nat} {semicolon : Token} {w misplaced : List Token} {expr : Expr} :
      Expression levels w expr misplaced → semicolon.kind = .symbol .semicolon →
        Statement false (levels + 1) (w ++ [semicolon]) (.expression expr) misplaced
  | print {levels : Nat} {keyword semicolon : Token} {w misplaced : List Token} {expr : Expr} :
      keyword.kind = .keyword .print → Expression levels w expr misplaced →
        semicolon.kind = .symbol .semicolon →
        Statement false (levels + 1) (keyword :: w ++ [semicolon]) (.print expr) misplaced
  | block {levels : Nat} {left right : Token} {w misplaced : List Token} {body : List Stmt} :
      left.kind = .symbol .leftBrace → Declarations levels w body misplaced →
        right.kind = .symbol .rightBrace →
        Statement false (levels + 1) (left :: w ++ [right]) (.block body) misplaced
  | ifThen {openEnd : Bool} {levels : Nat} {keyword left right : Token}
      {w v misplaced misplaced' : List Token} {condition : Expr} {thenBranch : Stmt} :
      keyword.kind = .keyword .«if» → left.kind = .symbol .leftParen →
        Expression levels w condition misplaced → right.kind = .symbol .rightParen →
        Statement openEnd levels v thenBranch misplaced' →
        Statement true (levels + 1) (keyword :: left :: w ++ right :: v)
          (.ifThen condition thenBranch) (misplaced ++ misplaced')
  | ifElse {openEnd : Bool} {levels : Nat} {keyword left right other : Token}
      {w v u misplaced misplaced' misplaced'' : List Token} {condition : Expr}
      {thenBranch elseBranch : Stmt} :
      keyword.kind = .keyword .«if» → left.kind = .symbol .leftParen →
        Expression levels w condition misplaced → right.kind = .symbol .rightParen →
        Statement false levels v thenBranch misplaced' → other.kind = .keyword .«else» →
        Statement openEnd levels u elseBranch misplaced'' →
        Statement openEnd (levels + 1) (keyword :: left :: w ++ right :: v ++ other :: u)
          (.ifElse condition thenBranch elseBranch) (misplaced ++ misplaced' ++ misplaced'')
  | loop {openEnd : Bool} {levels : Nat} {keyword left right : Token}
      {w v misplaced misplaced' : List Token} {condition : Expr} {body : Stmt} :
      keyword.kind = .keyword .«while» → left.kind = .symbol .leftParen →
        Expression levels w condition misplaced → right.kind = .symbol .rightParen →
        Statement openEnd levels v body misplaced' →
        Statement openEnd (levels + 1) (keyword :: left :: w ++ right :: v)
          (.loop condition body) (misplaced ++ misplaced')
  | forLoop {openEnd : Bool} {levels : Nat} {keyword left semicolon right : Token}
      {w v u s first second third fourth : List Token} {initializer : Option Stmt}
      {condition : Expr} {increment : Option Expr} {body : Stmt} :
      keyword.kind = .keyword .«for» → left.kind = .symbol .leftParen →
        Initializer levels w initializer first → Condition levels v condition second →
        semicolon.kind = .symbol .semicolon → Increment levels u increment third →
        right.kind = .symbol .rightParen → Statement openEnd levels s body fourth →
        Statement openEnd (levels + 1) (keyword :: left :: w ++ v ++ semicolon :: u ++ right :: s)
          (.forLoop initializer condition increment body) (first ++ second ++ third ++ fourth)

/-- `declaration → 'var' … | statement` -/
inductive Declaration : (levels : Nat) → List Token → Stmt → (misplaced : List Token) → Prop
  | declared {levels : Nat} {keyword : Token} {w misplaced : List Token} {stmt : Stmt} :
      keyword.kind = .keyword .var → Variable levels w stmt misplaced →
        Declaration levels (keyword :: w) stmt misplaced
  | statement {openEnd : Bool} {levels : Nat} {w misplaced : List Token} {stmt : Stmt} :
      Statement openEnd levels w stmt misplaced → Declaration levels w stmt misplaced

/-- `declaration*`, which is also a whole program -/
inductive Declarations : (levels : Nat) → List Token → List Stmt → (misplaced : List Token) → Prop
  | nil {levels : Nat} : Declarations levels [] [] []
  | cons {levels : Nat} {w v misplaced misplaced' : List Token} {stmt : Stmt} {body : List Stmt} :
      Declaration levels w stmt misplaced → Declarations levels v body misplaced' →
        Declarations levels (w ++ v) (stmt :: body) (misplaced ++ misplaced')

end

/-- Declarations may follow declarations. -/
theorem Declarations.append {levels : Nat} {w v misplaced misplaced' : List Token}
    {body more : List Stmt} (h : Declarations levels w body misplaced)
    (hmore : Declarations levels v more misplaced') :
    Declarations levels (w ++ v) (body ++ more) (misplaced ++ misplaced') := by
  induction body generalizing w misplaced with
  | nil =>
      cases h
      exact hmore
  | cons stmt rest ih =>
      cases h with
      | cons hstmt hrest =>
          rw [List.append_assoc, List.append_assoc]
          exact .cons hstmt (ih hrest)

end Lox.Phrase
