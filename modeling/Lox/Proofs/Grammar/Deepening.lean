import Lox.Proofs.Grammar.Completeness

/-!
# Phrases with more levels

The nesting limit only takes phrases away: with more levels left a phrase is still one, with the
same tree and the same misplaced assignments.  The derivation is the same, too.
-/

namespace Lox.Phrase

open Grammar

variable {levels more : Nat} {w misplaced : List Token}

/-! ## Expressions -/

mutual

theorem Primary.mono {levels more : Nat} {w misplaced : List Token} {expr : Expr}
    (h : levels ≤ more) : Primary levels w expr misplaced → Primary more w expr misplaced
  | .literal hvalue => .literal hvalue
  | .name hname => .name hname
  | .grouping hleft hinner hright => .grouping hleft (hinner.mono h) hright

theorem Unary.mono {levels more : Nat} {w misplaced : List Token} {expr : Expr}
    (h : levels ≤ more) : Unary levels w expr misplaced → Unary more w expr misplaced
  | @Unary.operator inner _ _ _ _ hkind hright => by
      obtain ⟨deeper, rfl⟩ := Nat.exists_eq_add_of_le' (Nat.le_of_add_left_le h)
      exact .operator hkind (hright.mono (by omega))
  | .primary hprimary => .primary (hprimary.mono h)

theorem Operators.mono {tiers : List Level} {levels more : Nat} {w misplaced : List Token}
    {expr : Expr} (h : levels ≤ more) :
    Operators tiers levels w expr misplaced → Operators tiers more w expr misplaced
  | .unary hunary => .unary (hunary.mono h)
  | .tighter htighter => .tighter (htighter.mono h)
  | .operator hleft hkind hright => .operator (hleft.mono h) hkind (hright.mono h)

theorem Assignment.mono {levels more : Nat} {w misplaced : List Token} {expr : Expr}
    (h : levels ≤ more) : Assignment levels w expr misplaced → Assignment more w expr misplaced
  | .operators hoperators => .operators (hoperators.mono h)
  | .assign hname hequals hvalue => .assign hname hequals (hvalue.mono h)
  | .misassign htarget hother hequals hvalue =>
      .misassign (htarget.mono h) hother hequals (hvalue.mono h)

theorem Expression.mono {levels more : Nat} {w misplaced : List Token} {expr : Expr}
    (h : levels ≤ more) : Expression levels w expr misplaced → Expression more w expr misplaced
  | .nested hassignment => by
      obtain ⟨deeper, rfl⟩ := Nat.exists_eq_add_of_le' (Nat.le_of_add_left_le h)
      exact .nested (hassignment.mono (by omega))

end

/-! ## Clauses -/

section

variable (hle : levels ≤ more)
include hle

theorem Variable.mono {stmt : Stmt} (h : Variable levels w stmt misplaced) :
    Variable more w stmt misplaced := by
  cases h with
  | plain hname hsemicolon => exact .plain hname hsemicolon
  | initialized hname hequals hinitializer hsemicolon =>
      exact .initialized hname hequals (hinitializer.mono hle) hsemicolon

theorem Initializer.mono {initializer : Option Stmt}
    (h : Initializer levels w initializer misplaced) :
    Initializer more w initializer misplaced := by
  cases h with
  | absent hsemicolon => exact .absent hsemicolon
  | declared hkeyword hvariable => exact .declared hkeyword (hvariable.mono hle)
  | expression hexpression hsemicolon => exact .expression (hexpression.mono hle) hsemicolon

theorem Condition.mono {condition : Expr} (h : Condition levels w condition misplaced) :
    Condition more w condition misplaced := by
  cases h with
  | absent => exact .absent
  | expression hexpression => exact .expression (hexpression.mono hle)

theorem Increment.mono {increment : Option Expr} (h : Increment levels w increment misplaced) :
    Increment more w increment misplaced := by
  cases h with
  | absent => exact .absent
  | expression hexpression => exact .expression (hexpression.mono hle)

end

/-! ## Statements -/

mutual

theorem Statement.mono {openEnd : Bool} {levels more : Nat} {w misplaced : List Token}
    {stmt : Stmt} (h : levels ≤ more) (hstmt : Statement openEnd levels w stmt misplaced) :
    Statement openEnd more w stmt misplaced := by
  -- a statement takes a level, so there is one among the more levels, too
  obtain ⟨deeper, rfl⟩ : ∃ deeper, more = deeper + 1 := by
    cases hstmt <;> exact Nat.exists_eq_add_of_le' (Nat.le_of_add_left_le h)
  match hstmt with
  | .expression hexpression hsemicolon =>
      exact .expression (hexpression.mono (by omega)) hsemicolon
  | .print hkeyword hexpression hsemicolon =>
      exact .print hkeyword (hexpression.mono (by omega)) hsemicolon
  | .block hleft hbody hright => exact .block hleft (hbody.mono (by omega)) hright
  | .ifThen hkeyword hleft hcondition hright hthen =>
      exact .ifThen hkeyword hleft (hcondition.mono (by omega)) hright (hthen.mono (by omega))
  | .ifElse hkeyword hleft hcondition hright hthen hother helse =>
      exact .ifElse hkeyword hleft (hcondition.mono (by omega)) hright (hthen.mono (by omega))
        hother (helse.mono (by omega))
  | .loop hkeyword hleft hcondition hright hbody =>
      exact .loop hkeyword hleft (hcondition.mono (by omega)) hright (hbody.mono (by omega))
  | .forLoop hkeyword hleft hinitializer hcondition hsemicolon hincrement hright hbody =>
      exact .forLoop hkeyword hleft (hinitializer.mono (by omega)) (hcondition.mono (by omega))
        hsemicolon (hincrement.mono (by omega)) hright (hbody.mono (by omega))

theorem Declaration.mono {levels more : Nat} {w misplaced : List Token} {stmt : Stmt}
    (h : levels ≤ more) :
    Declaration levels w stmt misplaced → Declaration more w stmt misplaced
  | .declared hkeyword hvariable => .declared hkeyword (hvariable.mono h)
  | .statement hstatement => .statement (hstatement.mono h)

theorem Declarations.mono {levels more : Nat} {w misplaced : List Token} {body : List Stmt}
    (h : levels ≤ more) :
    Declarations levels w body misplaced → Declarations more w body misplaced
  | .nil => .nil
  | .cons hfirst hbody => .cons (hfirst.mono h) (hbody.mono h)

end

end Lox.Phrase
