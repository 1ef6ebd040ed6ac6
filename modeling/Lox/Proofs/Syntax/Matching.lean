import Mathlib.Data.List.Forall2
import Lox.Syntax.Render

/-!
# Matching trees

Two trees match if they have the same shape and the tokens in the same places of them are
related.  Of interest are relations under which tokens are alike: then they differ in nothing
but their lines, and a program cannot tell them apart.
-/

namespace Lox

/-- Two tokens that differ in their lines at most. -/
structure Token.Alike (first second : Token) : Prop where
  kind_eq : first.kind = second.kind
  lexeme_eq : first.lexeme = second.lexeme

variable {R : Token → Token → Prop}

/-- Related tokens are alike. -/
def RelatesAlike (R : Token → Token → Prop) : Prop :=
  ∀ ⦃token token' : Token⦄, R token token' → token.Alike token'

theorem relatesAlike_eq : RelatesAlike (fun token token' => token = token') := by
  intro token token' h
  exact ⟨congrArg Token.kind h, congrArg Token.lexeme h⟩

/-! ## Expressions -/

/-- Expressions of the same shape, with related tokens in the same places. -/
inductive Expr.Matches (R : Token → Token → Prop) : Expr → Expr → Prop
  | literal (value : Value) : Matches R (.literal value) (.literal value)
  | grouping {inner inner' : Expr} :
      Matches R inner inner' → Matches R (.grouping inner) (.grouping inner')
  | unary {operator operator' : Token} {right right' : Expr} :
      R operator operator' → Matches R right right' →
        Matches R (.unary operator right) (.unary operator' right')
  | binary {left left' right right' : Expr} {operator operator' : Token} :
      Matches R left left' → R operator operator' → Matches R right right' →
        Matches R (.binary left operator right) (.binary left' operator' right')
  | logical {left left' right right' : Expr} {operator operator' : Token} :
      Matches R left left' → R operator operator' → Matches R right right' →
        Matches R (.logical left operator right) (.logical left' operator' right')
  | variable {name name' : Token} : R name name' → Matches R (.variable name) (.variable name')
  | assign {name name' : Token} {value value' : Expr} :
      R name name' → Matches R value value' → Matches R (.assign name value) (.assign name' value')

theorem Expr.matches_self (hself : ∀ token, R token token) (expr : Expr) : expr.Matches R expr := by
  induction expr with
  | literal value => exact .literal value
  | grouping inner ih => exact .grouping ih
  | unary operator right ih => exact .unary (hself operator) ih
  | binary left operator right ihLeft ihRight => exact .binary ihLeft (hself operator) ihRight
  | logical left operator right ihLeft ihRight => exact .logical ihLeft (hself operator) ihRight
  | «variable» name => exact .variable (hself name)
  | assign name value ih => exact .assign (hself name) ih

/-! ## Statements -/

namespace Stmt

mutual

/-- Statements of the same shape, with related tokens in the same places. -/
inductive Matches (R : Token → Token → Prop) : Stmt → Stmt → Prop
  | expression {expr expr' : Expr} :
      expr.Matches R expr' → Matches R (.expression expr) (.expression expr')
  | print {expr expr' : Expr} : expr.Matches R expr' → Matches R (.print expr) (.print expr')
  | declared {name name' : Token} : R name name' → Matches R (.var name none) (.var name' none)
  | initialized {name name' : Token} {initializer initializer' : Expr} :
      R name name' → initializer.Matches R initializer' →
        Matches R (.var name (some initializer)) (.var name' (some initializer'))
  | block {body body' : List Stmt} :
      MatchesAll R body body' → Matches R (.block body) (.block body')
  | ifThen {condition condition' : Expr} {thenBranch thenBranch' : Stmt} :
      condition.Matches R condition' → Matches R thenBranch thenBranch' →
        Matches R (.ifThen condition thenBranch) (.ifThen condition' thenBranch')
  | ifElse {condition condition' : Expr} {thenBranch thenBranch' elseBranch elseBranch' : Stmt} :
      condition.Matches R condition' → Matches R thenBranch thenBranch' →
        Matches R elseBranch elseBranch' →
        Matches R (.ifElse condition thenBranch elseBranch)
          (.ifElse condition' thenBranch' elseBranch')
  | loop {condition condition' : Expr} {body body' : Stmt} :
      condition.Matches R condition' → Matches R body body' →
        Matches R (.loop condition body) (.loop condition' body')

/-- Statements that match one by one. -/
inductive MatchesAll (R : Token → Token → Prop) : List Stmt → List Stmt → Prop
  | nil : MatchesAll R [] []
  | cons {stmt stmt' : Stmt} {rest rest' : List Stmt} :
      Matches R stmt stmt' → MatchesAll R rest rest' → MatchesAll R (stmt :: rest) (stmt' :: rest')

end

mutual

theorem matches_self (hself : ∀ token, R token token) : ∀ stmt : Stmt, stmt.Matches R stmt
  | .expression expr => .expression (expr.matches_self hself)
  | .print expr => .print (expr.matches_self hself)
  | .var name none => .declared (hself name)
  | .var name (some initializer) => .initialized (hself name) (initializer.matches_self hself)
  | .block body => .block (matchesAll_self hself body)
  | .ifThen condition thenBranch =>
      .ifThen (condition.matches_self hself) (matches_self hself thenBranch)
  | .ifElse condition thenBranch elseBranch =>
      .ifElse (condition.matches_self hself) (matches_self hself thenBranch)
        (matches_self hself elseBranch)
  | .loop condition body => .loop (condition.matches_self hself) (matches_self hself body)

theorem matchesAll_self (hself : ∀ token, R token token) :
    ∀ body : List Stmt, MatchesAll R body body
  | [] => .nil
  | stmt :: rest => .cons (matches_self hself stmt) (matchesAll_self hself rest)

end

theorem matchesAll_iff {body body' : List Stmt} :
    MatchesAll R body body' ↔ List.Forall₂ (Matches R) body body' := by
  constructor
  · intro h
    induction body generalizing body' with
    | nil =>
        cases h
        exact .nil
    | cons stmt rest ih =>
        cases h with
        | cons hstmt hrest => exact .cons hstmt (ih hrest)
  · intro h
    induction h with
    | nil => exact .nil
    | cons hstmt _ ih => exact .cons hstmt ih

theorem MatchesAll.reverse {body body' : List Stmt} (h : MatchesAll R body body') :
    MatchesAll R body.reverse body'.reverse :=
  matchesAll_iff.2 (List.rel_reverse (matchesAll_iff.1 h))

end Stmt

/-! ## The text of a tree

No line is shown. -/

theorem Expr.Matches.render_eq {expr expr' : Expr} (halike : RelatesAlike R)
    (h : expr.Matches R expr') : expr.render = expr'.render := by
  induction h with
  | literal value => rfl
  | grouping _ ih => simp only [render, ih]
  | unary hoperator _ ih => simp only [render, ih, (halike hoperator).lexeme_eq]
  | binary _ hoperator _ ihLeft ihRight | logical _ hoperator _ ihLeft ihRight =>
      simp only [render, ihLeft, ihRight, (halike hoperator).lexeme_eq]
  | «variable» hname => exact (halike hname).lexeme_eq
  | assign hname _ ih => simp only [render, ih, (halike hname).lexeme_eq]

mutual

theorem Stmt.Matches.render_eq {stmt stmt' : Stmt} (halike : RelatesAlike R)
    (h : stmt.Matches R stmt') : stmt.render = stmt'.render := by
  cases h with
  | expression hexpr | print hexpr => simp only [Stmt.render, hexpr.render_eq halike]
  | declared hname => simp only [Stmt.render, (halike hname).lexeme_eq]
  | initialized hname hexpr =>
      simp only [Stmt.render, (halike hname).lexeme_eq, hexpr.render_eq halike]
  | block hbody => simp only [Stmt.render, hbody.renderAll_eq halike]
  | ifThen hcondition hthen =>
      simp only [Stmt.render, hcondition.render_eq halike, hthen.render_eq halike]
  | ifElse hcondition hthen helse =>
      simp only [Stmt.render, hcondition.render_eq halike, hthen.render_eq halike,
        helse.render_eq halike]
  | loop hcondition hbody =>
      simp only [Stmt.render, hcondition.render_eq halike, hbody.render_eq halike]

theorem Stmt.MatchesAll.renderAll_eq {body body' : List Stmt} (halike : RelatesAlike R)
    (h : Stmt.MatchesAll R body body') : Stmt.renderAll body = Stmt.renderAll body' := by
  cases h with
  | nil => rfl
  | cons hstmt hrest =>
      simp only [Stmt.renderAll, hstmt.render_eq halike, hrest.renderAll_eq halike]

end

theorem Stmt.MatchesAll.map_render_eq {body body' : List Stmt} (halike : RelatesAlike R)
    (h : Stmt.MatchesAll R body body') : body.map Stmt.render = body'.map Stmt.render := by
  rw [← List.forall₂_eq_eq_eq, List.forall₂_map_left_iff, List.forall₂_map_right_iff]
  exact (matchesAll_iff.1 h).imp fun _ _ hstmt => hstmt.render_eq halike

end Lox
