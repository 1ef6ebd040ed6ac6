import Lox.Proofs.Execution.Scope
import Lox.Proofs.Grammar.Acceptance

/-!
# Where declarations stand

The grammar derives declarations only among the statements of a block or of the program,
never as a branch of an `if` or as the body of a loop.  A `for` statement that declares a
variable stands for a block with the declaration in it, so the trees of accepted programs
are tidy.
-/

namespace Lox

namespace Phrase

variable {levels : Nat} {w misplaced : List Token} {stmt : Stmt}

theorem Variable.tidy (h : Variable levels w stmt misplaced) : stmt.Tidy := by
  cases h with
  | plain _ _ => exact .var _ _
  | initialized _ _ _ _ => exact .var _ _

theorem Initializer.tidy {initializer : Option Stmt}
    (h : Initializer levels w initializer misplaced) :
    ∀ stmt ∈ initializer, stmt.Tidy := by
  intro stmt hstmt
  cases h with
  | absent _ => cases hstmt
  | declared _ hvariable =>
      obtain rfl := Option.mem_some_iff.1 hstmt
      exact hvariable.tidy
  | expression _ _ =>
      obtain rfl := Option.mem_some_iff.1 hstmt
      exact .expression _

end Phrase

namespace Stmt

private theorem tidy_pair {first second : Stmt} (hfirst : first.Tidy) (hsecond : second.Tidy) :
    (block [first, second]).Tidy := by
  refine .block fun stmt hstmt => ?_
  rcases List.mem_pair.1 hstmt with rfl | rfl
  · exact hfirst
  · exact hsecond

/-- What a `for` statement stands for is tidy, and no declaration. -/
theorem tidy_forLoop {initializer : Option Stmt} {body : Stmt} (condition : Expr)
    (increment : Option Expr) (hinitializer : ∀ stmt ∈ initializer, stmt.Tidy) (hbody : body.Tidy)
    (hnone : body.declared? = none) :
    (forLoop initializer condition increment body).Tidy ∧
      (forLoop initializer condition increment body).declared? = none := by
  have hturn (expr : Expr) : (block [body, .expression expr]).Tidy :=
    tidy_pair hbody (.expression expr)
  cases initializer with
  | none =>
      cases increment with
      | none => exact ⟨.loop condition hbody hnone, rfl⟩
      | some expr => exact ⟨.loop condition (hturn expr) rfl, rfl⟩
  | some first =>
      have hfirst := hinitializer first rfl
      cases increment with
      | none => exact ⟨tidy_pair hfirst (.loop condition hbody hnone), rfl⟩
      | some expr => exact ⟨tidy_pair hfirst (.loop condition (hturn expr) rfl), rfl⟩

end Stmt

namespace Phrase

mutual

theorem Statement.tidy {openEnd : Bool} {levels : Nat} {w misplaced : List Token} {stmt : Stmt} :
    Statement openEnd levels w stmt misplaced → stmt.Tidy ∧ stmt.declared? = none
  | .expression _ _ => ⟨.expression _, rfl⟩
  | .print _ _ _ => ⟨.print _, rfl⟩
  | .block _ hbody _ => ⟨.block hbody.tidy, rfl⟩
  | .ifThen _ _ _ _ hthen => ⟨.ifThen _ hthen.tidy.1 hthen.tidy.2, rfl⟩
  | .ifElse _ _ _ _ hthen _ helse =>
      ⟨.ifElse _ hthen.tidy.1 hthen.tidy.2 helse.tidy.1 helse.tidy.2, rfl⟩
  | .loop _ _ _ _ hbody => ⟨.loop _ hbody.tidy.1 hbody.tidy.2, rfl⟩
  | .forLoop _ _ hinitializer _ _ _ _ hbody =>
      Stmt.tidy_forLoop _ _ hinitializer.tidy hbody.tidy.1 hbody.tidy.2

theorem Declaration.tidy {levels : Nat} {w misplaced : List Token} {stmt : Stmt} :
    Declaration levels w stmt misplaced → stmt.Tidy
  | .declared _ hvariable => hvariable.tidy
  | .statement hstatement => hstatement.tidy.1

theorem Declarations.tidy {levels : Nat} {w misplaced : List Token} {body : List Stmt} :
    Declarations levels w body misplaced → ∀ stmt ∈ body, stmt.Tidy
  | .nil => by simp
  | .cons hfirst hbody => List.forall_mem_cons.2 ⟨hfirst.tidy, hbody.tidy⟩

end

end Phrase

/-- The trees of an accepted program are tidy. -/
theorem tidy_of_parse_eq_ok {tokens : List Token} {program : List Stmt}
    (h : parse tokens = .ok program) : (Node.statements program).Tidy :=
  (derives_of_parse_eq_ok h).tidy

end Lox
