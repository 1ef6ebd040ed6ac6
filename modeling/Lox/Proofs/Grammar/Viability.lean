import Lox.Proofs.Grammar.Deepening
import Lox.Proofs.Grammar.Failing
import Lox.Proofs.Grammar.Misplaced

/-!
# What has been read can be completed

When a rule fails, the tokens that it has read before the fault begin a phrase: something can
follow them that makes the phrase complete.  What is still missing is short, a literal for an
expression and a literal with its semicolon for a statement, but it may need two levels more
than the rule has left.  So the phrase is one with two levels more, and failing for too much
nesting is left out.

The proofs take each rule apart at the place where it fails.  What it has read before that is a
phrase, since rules are sound.
-/

namespace Lox

open Grammar

namespace Rule

variable {α : Type} {rule : Rule α} {phrase : List Token → α → List Token → Prop}

/-- When the rule fails, what it has read begins such a phrase. -/
def Viable (rule : Rule α) (phrase : List Token → α → List Token → Prop) : Prop :=
  ∀ ⦃tokens fault⦄, rule.Fails tokens fault → fault.cause ≠ .tooMuchNesting →
    ∃ w v a misplaced, tokens = w ++ fault.left ∧ phrase (w ++ v) a misplaced

/-- Without a level a rule fails for too much nesting, which is left out. -/
theorem viable_tooMuchNesting : (fail .tooMuchNesting : Rule α).Viable phrase := by
  intro tokens fault h hnesting
  exact absurd (congrArg Fault.cause (fails_fail.1 h).2) hnesting

/-- What is read without a stop is a phrase. -/
theorem Sound.of_clean (hsound : rule.Sound phrase) {tokens rest : List Token} {a : α}
    {reported : Array Fault} (hread : rule.Reads tokens a rest reported) (hclean : Clean reported) :
    ∃ w misplaced, tokens = w ++ rest ∧ phrase w a misplaced := by
  obtain ⟨misplaced, hmarks⟩ := clean_iff_exists_marks.1 hclean
  obtain ⟨w, rfl, hphrase⟩ := hsound hread hmarks
  exact ⟨w, misplaced, rfl, hphrase⟩

section

variable {β : Type} {deeper : List Token → α → List Token → Prop} {tokens : List Token}
  {fault : Fault} {next : α → Rule β} (hsound : rule.Sound phrase) (hviable : rule.Viable deeper)
  (hdeeper : ∀ {w a misplaced}, phrase w a misplaced → deeper w a misplaced)
  (hnesting : fault.cause ≠ .tooMuchNesting)

include hsound hviable hdeeper hnesting

/-- Of two rules in turn the first has begun a phrase, or it has read one and the second fails. -/
theorem Viable.of_bind (h : (rule >>= next).Fails tokens fault) :
    (∃ w v a misplaced, tokens = w ++ fault.left ∧ deeper (w ++ v) a misplaced) ∨
      ∃ w a tail misplaced, tokens = w ++ tail ∧ deeper w a misplaced ∧
        (next a).Fails tail fault := by
  rcases fails_bind.1 h with hfails | ⟨a, mid, before, hread, hclean, hnext⟩
  · exact .inl (hviable hfails hnesting)
  · obtain ⟨w, misplaced, rfl, hphrase⟩ := hsound.of_clean hread hclean
    exact .inr ⟨w, a, mid, misplaced, rfl, hdeeper hphrase, hnext⟩

/-- Before a symbol that has to follow it a phrase has been begun or is complete. -/
theorem Viable.of_closed_bind {symbol : Symbol} {cause : SyntaxError.Cause}
    (h : (rule >>= fun a => expectSymbol symbol cause >>= fun _ => next a).Fails tokens fault) :
    (∃ w v a misplaced, tokens = w ++ fault.left ∧ deeper (w ++ v) a misplaced) ∨
      ∃ w a token tail misplaced, tokens = w ++ token :: tail ∧ deeper w a misplaced ∧
        token.kind = .symbol symbol ∧ (next a).Fails tail fault := by
  rcases hviable.of_bind hsound hdeeper hnesting h with hbegun | ⟨w, a, mid, m, rfl, hphrase, h⟩
  · exact .inl hbegun
  · rcases fails_expectSymbol_bind.1 h with ⟨_, _, rfl⟩ | ⟨token, tail, rfl, hkind, hnext⟩
    · exact .inl ⟨w, [], a, m, rfl, by simpa using hphrase⟩
    · exact .inr ⟨w, a, token, tail, m, rfl, hphrase, hkind, hnext⟩

/-- Before a symbol that ends it a phrase has been begun or is complete. -/
theorem Viable.of_closed {symbol : Symbol} {cause : SyntaxError.Cause} {f : α → β}
    (h : (rule >>= fun a => expectSymbol symbol cause >>= fun _ => pure (f a)).Fails tokens fault) :
    ∃ w v a misplaced, tokens = w ++ fault.left ∧ deeper (w ++ v) a misplaced := by
  rcases hviable.of_closed_bind hsound hdeeper hnesting h with hbegun | ⟨_, _, _, _, _, _, _, _, h⟩
  · exact hbegun
  · exact absurd h not_fails_pure

end

end Rule

namespace Phrase

open Rule

variable {levels : Nat} {expression operand : Rule Expr} {statement : Rule Stmt}

/-! ## Short phrases -/

/-- Some token of this kind. -/
def filler (kind : Token.Kind) : Token := ⟨kind, "", 0⟩

theorem filler_kind (kind : Token.Kind) : (filler kind).kind = kind := rfl

theorem primary_filler (levels : Nat) :
    Primary levels [filler (.keyword .nil)] (.literal .nil) [] := .literal rfl

theorem expression_filler (levels : Nat) :
    Expression (levels + 1) [filler (.keyword .nil)] (.literal .nil) [] :=
  .nested (.operators (.tighter (.tighter (.tighter (.tighter (.tighter (.tighter
    (.unary (.primary (primary_filler levels))))))))))

theorem statement_filler (levels : Nat) :
    Statement false (levels + 2) [filler (.keyword .nil), filler (.symbol .semicolon)]
      (.expression (.literal .nil)) [] :=
  .expression (expression_filler levels) (filler_kind _)

/-! ## Expressions -/

theorem viable_primary (hsound : expression.Sound (Expression levels))
    (hviable : expression.Viable (Expression (levels + 2))) :
    (primary expression).Viable (Primary (levels + 2)) := by
  intro tokens fault h hnesting
  rcases fails_primary.1 h with ⟨_, rfl⟩ | ⟨left, tail, rfl, hleft, hinside⟩
  · exact ⟨[], _, _, _, rfl, primary_filler _⟩
  · rcases hinside with hfails | ⟨inner, mid, before, hread, hclean, _, rfl⟩
    · obtain ⟨w, v, inner, misplaced, rfl, hphrase⟩ := hviable hfails hnesting
      have hgrouping := Primary.grouping hleft hphrase (filler_kind _)
      exact ⟨left :: w, v ++ [filler (.symbol .rightParen)], _, _, rfl, by simpa using hgrouping⟩
    · obtain ⟨w, misplaced, rfl, hphrase⟩ := hsound.of_clean hread hclean
      have hgrouping := Primary.grouping hleft (hphrase.mono (Nat.le_add_right levels 2))
        (filler_kind _)
      exact ⟨left :: w, [filler (.symbol .rightParen)], _, _, rfl, hgrouping⟩

theorem viable_unary (hoperand : operand.Viable (Unary (levels + 1)))
    (hsound : expression.Sound (Expression levels))
    (hviable : expression.Viable (Expression (levels + 2))) :
    (unary operand expression).Viable (Unary (levels + 2)) := by
  intro tokens fault h hnesting
  rcases fails_takeIf_bind.1 h with ⟨operator, tail, rfl, hkind, hfails⟩ | ⟨_, hfails⟩
  · obtain ⟨w, v, right, misplaced, rfl, hphrase⟩ := hoperand (fails_map.1 hfails) hnesting
    exact ⟨operator :: w, v, _, _, rfl, .operator hkind hphrase⟩
  · obtain ⟨w, v, expr, misplaced, rfl, hphrase⟩ := viable_primary hsound hviable hfails hnesting
    exact ⟨w, v, _, _, rfl, .primary hphrase⟩

/-- A loop that fails after a phrase of its level has gone on with it, and could go on further. -/
private theorem viable_turns {level : Level} {tiers : List Level} {rule : Rule Expr}
    (hsound : rule.Sound (Operators tiers levels))
    (hviable : rule.Viable (Operators tiers (levels + 2))) {fault : Fault}
    (hnesting : fault.cause ≠ .tooMuchNesting) {left : Expr} {tokens : List Token}
    (h : LoopFails (level.turn rule) fault left tokens) :
    ∀ {w first : List Token}, Operators (level :: tiers) (levels + 2) w left first →
      ∃ v u expr misplaced, tokens = v ++ fault.left ∧
        Operators (level :: tiers) (levels + 2) (w ++ (v ++ u)) expr misplaced := by
  -- over the turns, for any phrase that has been read before them
  induction h with
  | @here left tokens next hsome hfirst =>
      intro w first hleft
      obtain ⟨operator, tail, rfl, hkind, hfails⟩ := Level.turn_fails_iff.1 ⟨_, hsome, hfirst⟩
      obtain ⟨v, u, right, misplaced, rfl, hphrase⟩ := hviable hfails hnesting
      exact ⟨operator :: v, u, _, _, rfl, .operator hleft hkind hphrase⟩
  | later hsome hclean _ ih =>
      intro w first hleft
      obtain ⟨operator, tail, right, rfl, hkind, hright, rfl⟩ := Level.turn_eq_some_iff.1 hsome
      obtain ⟨v, second, rfl, hphrase⟩ := hsound.of_clean hright hclean
      have hwhole := Operators.operator hleft hkind (hphrase.mono (Nat.le_add_right levels 2))
      obtain ⟨u, x, expr, misplaced, rfl, hlonger⟩ := ih hwhole
      exact ⟨operator :: v ++ u, x, _, _, by simp, by simpa using hlonger⟩

theorem viable_rule {rule : Rule Expr} (horderly : rule.Orderly)
    (hsound : rule.Sound (Unary levels)) (hviable : rule.Viable (Unary (levels + 2))) :
    ∀ tiers : List Level, (Level.rule tiers rule).Viable (Operators tiers (levels + 2))
  | [] => by
      intro tokens fault h hnesting
      obtain ⟨w, v, expr, misplaced, rfl, hphrase⟩ := hviable h hnesting
      exact ⟨w, v, _, _, rfl, .unary hphrase⟩
  | level :: tiers => by
      have htighter := viable_rule horderly hsound hviable tiers
      have hsoundTighter := sound_rule hsound horderly tiers
      intro tokens fault h hnesting
      rcases fails_bind.1 h with hfails | ⟨first, mid, before, hread, hclean, hfails⟩
      · obtain ⟨w, v, expr, misplaced, rfl, hphrase⟩ := htighter hfails hnesting
        exact ⟨w, v, _, _, rfl, .tighter hphrase⟩
      · obtain ⟨w, misplaced, rfl, hphrase⟩ := hsoundTighter.of_clean hread hclean
        have htakes := @Level.takesTokens _ level (Level.orderly_rule horderly tiers)
        have hloop := (fails_repeating htakes).1 hfails
        obtain ⟨v, u, expr, misplaced, rfl, hwhole⟩ := viable_turns hsoundTighter htighter hnesting
          hloop (.tighter (hphrase.mono (Nat.le_add_right levels 2)))
        exact ⟨w ++ v, u, _, _, by simp, by simpa using hwhole⟩

theorem viable_assignment (horderly : (unary operand expression).Orderly)
    (hsoundOperand : operand.Sound fun w e m => ∃ inner, levels = inner + 1 ∧ Unary inner w e m)
    (hoperand : operand.Viable (Unary (levels + 1)))
    (hsound : expression.Sound (Expression levels))
    (hviable : expression.Viable (Expression (levels + 2))) :
    (assignment operand expression).Viable (Assignment (levels + 2)) := by
  have hsoundUnary := sound_unary hsoundOperand hsound
  have hviableUnary := viable_unary hoperand hsound hviable
  intro tokens fault h hnesting
  rcases fails_assignment.1 h with hfails | ⟨target, equals, tail, before, hread, hclean, hequals,
    hfails⟩
  · obtain ⟨w, v, expr, misplaced, rfl, hphrase⟩ :=
      viable_rule horderly hsoundUnary hviableUnary Level.all hfails hnesting
    exact ⟨w, v, _, _, rfl, .operators hphrase⟩
  · obtain ⟨w, misplaced, rfl, htarget⟩ :=
      (sound_rule hsoundUnary horderly Level.all).of_clean hread hclean
    obtain ⟨v, u, value, misplaced', rfl, hvalue⟩ := hviable hfails hnesting
    have hdeeper := htarget.mono (Nat.le_add_right levels 2)
    obtain ⟨expr, marked, hphrase⟩ := Assignment.of_equals hdeeper hequals hvalue
    exact ⟨w ++ equals :: v, u, expr, marked, by simp, by simpa using hphrase⟩

private theorem viable_nested (levels : Nat) :
    (Grammar.operand levels).Viable (Unary (levels + 1)) ∧
      (Grammar.expression levels).Viable (Expression (levels + 2)) := by
  induction levels with
  | zero => exact ⟨viable_tooMuchNesting, viable_tooMuchNesting⟩
  | succ levels ih =>
      obtain ⟨hoperand, hviable⟩ := ih
      have hsound := sound_expression levels
      constructor
      · exact viable_unary hoperand hsound hviable
      · intro tokens fault h hnesting
        obtain ⟨w, v, expr, misplaced, rfl, hphrase⟩ := viable_assignment (orderly_unaryAt levels)
          (sound_operand levels) hoperand hsound hviable h hnesting
        exact ⟨w, v, _, _, rfl, .nested hphrase⟩

theorem viable_expression (levels : Nat) :
    (Grammar.expression levels).Viable (Expression (levels + 2)) :=
  (viable_nested levels).2

/-! ## Clauses -/

section

variable (hsound : expression.Sound (Expression levels))
  (hviable : expression.Viable (Expression (levels + 2)))

include hsound hviable

theorem viable_varDeclaration : (varDeclaration expression).Viable (Variable (levels + 2)) := by
  intro tokens fault h hnesting
  rcases fails_expect_bind.1 h with ⟨_, _, rfl⟩ | ⟨name, tail, rfl, hname, h⟩
  · have hplain : Variable (levels + 2)
        [filler (.identifier ""), filler (.symbol .semicolon)] _ [] := .plain rfl rfl
    exact ⟨[], _, _, _, rfl, hplain⟩
  rcases fails_takeIf_bind.1 h with ⟨equals, tail, rfl, hequals, h⟩ | ⟨_, h⟩
  · obtain ⟨w, v, initializer, misplaced, rfl, hphrase⟩ :=
      hviable.of_closed hsound (·.mono (Nat.le_add_right levels 2)) hnesting h
    have hinitialized := Variable.initialized hname (by simpa using hequals) hphrase
      (filler_kind _)
    exact ⟨name :: equals :: w, v ++ [filler (.symbol .semicolon)], _, _, rfl,
      by simpa using hinitialized⟩
  · rcases fails_expectSymbol_bind.1 h with ⟨_, _, rfl⟩ | ⟨_, _, _, _, hpure⟩
    · have hplain : Variable (levels + 2) [name, filler (.symbol .semicolon)] _ [] :=
        .plain hname rfl
      exact ⟨[name], [filler (.symbol .semicolon)], _, _, rfl, hplain⟩
    · exact absurd hpure not_fails_pure

theorem viable_forInitializer :
    (forInitializer expression).Viable (Initializer (levels + 2)) := by
  intro tokens fault h hnesting
  rcases fails_takeIf_bind.1 h with ⟨_, _, _, _, hpure⟩ | ⟨_, h⟩
  · exact absurd hpure not_fails_pure
  rcases fails_takeIf_bind.1 h with ⟨keyword, tail, rfl, hkeyword, h⟩ | ⟨_, h⟩
  · obtain ⟨w, v, stmt, misplaced, rfl, hphrase⟩ :=
      viable_varDeclaration hsound hviable (fails_map.1 h) hnesting
    exact ⟨keyword :: w, v, _, _, rfl, .declared (by simpa using hkeyword) hphrase⟩
  · obtain ⟨w, v, expr, misplaced, rfl, hphrase⟩ :=
      hviable.of_closed hsound (·.mono (Nat.le_add_right levels 2)) hnesting (fails_map.1 h)
    have hinitializer := Initializer.expression hphrase
      (filler_kind _)
    exact ⟨w, v ++ [filler (.symbol .semicolon)], _, _, rfl, by simpa using hinitializer⟩

omit hsound in
theorem viable_forCondition : (forCondition expression).Viable (Condition (levels + 2)) := by
  intro tokens fault h hnesting
  rw [forCondition, fails_nextIs_bind] at h
  split at h
  · exact absurd h not_fails_pure
  · obtain ⟨w, v, expr, misplaced, rfl, hphrase⟩ := hviable h hnesting
    exact ⟨w, v, _, _, rfl, .expression hphrase⟩

omit hsound in
theorem viable_forIncrement : (forIncrement expression).Viable (Increment (levels + 2)) := by
  intro tokens fault h hnesting
  rw [forIncrement, fails_nextIs_bind] at h
  split at h
  · exact absurd h not_fails_pure
  · obtain ⟨w, v, expr, misplaced, rfl, hphrase⟩ := hviable (fails_map.1 h) hnesting
    exact ⟨w, v, _, _, rfl, .expression hphrase⟩

/-! ## Statements -/

theorem viable_expressionStatement :
    (expressionStatement expression).Viable (Statement false (levels + 3)) := by
  intro tokens fault h hnesting
  obtain ⟨w, v, expr, misplaced, rfl, hphrase⟩ :=
    hviable.of_closed hsound (·.mono (Nat.le_add_right levels 2)) hnesting h
  have hstmt := Statement.expression hphrase (filler_kind _)
  exact ⟨w, v ++ [filler (.symbol .semicolon)], _, _, rfl, by simpa using hstmt⟩

end

/-- A condition in its parentheses. -/
def Parenthesized (levels : Nat) (w : List Token) (condition : Expr) (misplaced : List Token) :
    Prop :=
  ∃ left v right, w = left :: v ++ [right] ∧ left.kind = .symbol .leftParen ∧
    Expression levels v condition misplaced ∧ right.kind = .symbol .rightParen

theorem parenthesized_filler (levels : Nat) :
    Parenthesized (levels + 1)
      [filler (.symbol .leftParen), filler (.keyword .nil), filler (.symbol .rightParen)]
      (.literal .nil) [] :=
  ⟨_, _, _, rfl, rfl, expression_filler levels, rfl⟩

/-- A phrase that the keyword begins, if the rest of it is `w`. -/
def After (levels : Nat) (keyword : Token) (w : List Token) (stmt : Stmt) (misplaced : List Token) :
    Prop :=
  ∃ openEnd, Statement openEnd levels (keyword :: w) stmt misplaced

theorem Parenthesized.ifThen {keyword : Token} {w v misplaced misplaced' : List Token}
    {condition : Expr} {openEnd : Bool} {thenBranch : Stmt}
    (hkeyword : keyword.kind = .keyword .«if»)
    (hcondition : Parenthesized levels w condition misplaced)
    (hthen : Statement openEnd levels v thenBranch misplaced') :
    After (levels + 1) keyword (w ++ v) (.ifThen condition thenBranch)
      (misplaced ++ misplaced') := by
  obtain ⟨left, x, right, rfl, hleft, hphrase, hright⟩ := hcondition
  have hwhole := Statement.ifThen hkeyword hleft hphrase hright hthen
  exact ⟨_, by simpa using hwhole⟩

theorem Parenthesized.loop {keyword : Token} {w v misplaced misplaced' : List Token}
    {condition : Expr} {openEnd : Bool} {body : Stmt} (hkeyword : keyword.kind = .keyword .«while»)
    (hcondition : Parenthesized levels w condition misplaced)
    (hbody : Statement openEnd levels v body misplaced') :
    After (levels + 1) keyword (w ++ v) (.loop condition body) (misplaced ++ misplaced') := by
  obtain ⟨left, x, right, rfl, hleft, hphrase, hright⟩ := hcondition
  have hwhole := Statement.loop hkeyword hleft hphrase hright hbody
  exact ⟨_, by simpa using hwhole⟩

section

variable (hsound : expression.Sound (Expression levels))
  (hviable : expression.Viable (Expression (levels + 2)))

include hsound hviable

/-- A condition in parentheses has been begun, or it is complete and what comes after it fails. -/
private theorem viable_parenthesized {β : Type} {next : Expr → Rule β}
    {unopened unclosed : SyntaxError.Cause} {tokens : List Token} {fault : Fault}
    (hnesting : fault.cause ≠ .tooMuchNesting)
    (h : (expectSymbol .leftParen unopened >>= fun _ => expression >>= fun condition =>
      expectSymbol .rightParen unclosed >>= fun _ => next condition).Fails tokens fault) :
    (∃ w v condition misplaced, tokens = w ++ fault.left ∧
        Parenthesized (levels + 2) (w ++ v) condition misplaced) ∨
      ∃ w condition tail misplaced, tokens = w ++ tail ∧
        Parenthesized (levels + 2) w condition misplaced ∧ (next condition).Fails tail fault := by
  rcases fails_expectSymbol_bind.1 h with ⟨_, _, rfl⟩ | ⟨left, tail, rfl, hleft, h⟩
  · exact .inl ⟨[], _, _, _, rfl, parenthesized_filler (levels + 1)⟩
  rcases hviable.of_closed_bind hsound (·.mono (Nat.le_add_right levels 2)) hnesting h with
    ⟨w, v, condition, misplaced, rfl, hphrase⟩ |
    ⟨w, condition, right, tail, misplaced, rfl, hphrase, hright, hnext⟩
  · refine .inl ⟨left :: w, v ++ [filler (.symbol .rightParen)], condition, misplaced, rfl, ?_⟩
    exact ⟨left, w ++ v, filler (.symbol .rightParen), by simp, hleft, hphrase, rfl⟩
  · refine .inr ⟨left :: w ++ [right], condition, tail, misplaced, by simp, ?_, hnext⟩
    exact ⟨left, w, right, rfl, hleft, hphrase, hright⟩

theorem viable_printStatement {keyword : Token} (hkeyword : keyword.kind = .keyword .print) :
    (printStatement expression).Viable (After (levels + 3) keyword) := by
  intro tokens fault h hnesting
  obtain ⟨w, v, expr, misplaced, rfl, hphrase⟩ :=
    hviable.of_closed hsound (·.mono (Nat.le_add_right levels 2)) hnesting h
  have hstmt := Statement.print hkeyword hphrase (filler_kind _)
  exact ⟨w, v ++ [filler (.symbol .semicolon)], _, _, rfl, false, by simpa using hstmt⟩

variable (hsoundStatement : SoundStatement statement levels)
  (hviableStatement : statement.Viable fun w stmt misplaced =>
    ∃ openEnd, Statement openEnd (levels + 2) w stmt misplaced)

include hviableStatement

theorem viable_whileStatement {keyword : Token} (hkeyword : keyword.kind = .keyword .«while») :
    (whileStatement expression statement).Viable (After (levels + 3) keyword) := by
  intro tokens fault h hnesting
  rcases viable_parenthesized hsound hviable hnesting h with
    ⟨w, v, condition, misplaced, rfl, hcondition⟩ |
    ⟨w, condition, tail, misplaced, rfl, hcondition, h⟩
  · have hwhole := hcondition.loop hkeyword (statement_filler levels)
    exact ⟨w, _, _, _, rfl, by simpa using hwhole⟩
  · obtain ⟨v, u, body, misplaced', rfl, openEnd, hbody⟩ :=
      hviableStatement (fails_map.1 h) hnesting
    have hwhole := hcondition.loop hkeyword hbody
    exact ⟨w ++ v, u, _, _, by simp, by simpa using hwhole⟩

include hsoundStatement in
theorem viable_ifStatement {keyword : Token} (hkeyword : keyword.kind = .keyword .«if») :
    (ifStatement expression statement).Viable (After (levels + 3) keyword) := by
  intro tokens fault h hnesting
  rcases viable_parenthesized hsound hviable hnesting h with
    ⟨w, v, condition, misplaced, rfl, hcondition⟩ |
    ⟨w, condition, tail, misplaced, rfl, hcondition, h⟩
  · have hwhole := hcondition.ifThen hkeyword (statement_filler levels)
    exact ⟨w, _, _, _, rfl, by simpa using hwhole⟩
  rcases fails_bind.1 h with hfails | ⟨thenBranch, mid, before, hread, hclean, h⟩
  · obtain ⟨v, u, thenBranch, misplaced', rfl, openEnd, hthen⟩ := hviableStatement hfails hnesting
    have hwhole := hcondition.ifThen hkeyword hthen
    exact ⟨w ++ v, u, _, _, by simp, by simpa using hwhole⟩
  · rcases fails_takeIf_bind.1 h with ⟨other, tail, rfl, hother, hnext⟩ | ⟨_, hpure⟩
    · obtain ⟨marked, hmarks⟩ := clean_iff_exists_marks.1 hclean
      obtain ⟨v, openEnd, rfl, hthen, hnot⟩ := hsoundStatement hread hmarks
      obtain ⟨u, x, elseBranch, misplaced', rfl, openElse, helse⟩ :=
        hviableStatement (fails_map.1 hnext) hnesting
      -- the `else` is there, so the statement before it is not open
      obtain rfl : openEnd = false := by
        cases openEnd with
        | false => rfl
        | true => simp [hother] at hnot
      obtain ⟨left, y, right, rfl, hleft, hphrase, hright⟩ := hcondition
      have hwhole := Statement.ifElse hkeyword hleft hphrase hright
        (hthen.mono (Nat.le_add_right levels 2)) (by simpa using hother) helse
      exact ⟨left :: y ++ right :: v ++ other :: u, x, _, _, by simp, openElse,
        by simpa using hwhole⟩
    · exact absurd hpure not_fails_pure

theorem viable_forStatement {keyword : Token} (hkeyword : keyword.kind = .keyword .«for») :
    (forStatement expression statement).Viable (After (levels + 3) keyword) := by
  have hle := Nat.le_add_right levels 2
  intro tokens fault h hnesting
  rcases fails_expectSymbol_bind.1 h with ⟨_, _, rfl⟩ | ⟨left, tail, rfl, hleft, h⟩
  · have hwhole := Statement.forLoop hkeyword (filler_kind _) (.absent (filler_kind _)) .absent
      (filler_kind _) .absent (filler_kind _) (statement_filler levels)
    exact ⟨[], _, _, _, rfl, false, hwhole⟩
  rcases (viable_forInitializer hsound hviable).of_bind (sound_forInitializer hsound) (·.mono hle)
    hnesting h with ⟨w, v, initializer, first, rfl, hinit⟩ |
    ⟨w, initializer, tail, first, rfl, hinit, h⟩
  · have hwhole := Statement.forLoop hkeyword hleft hinit .absent (filler_kind _) .absent
      (filler_kind _) (statement_filler levels)
    exact ⟨left :: w, _, _, _, rfl, false, by simpa using hwhole⟩
  rcases (viable_forCondition hviable).of_closed_bind (sound_forCondition hsound) (·.mono hle)
    hnesting h with ⟨v, u, condition, second, rfl, hcond⟩ |
    ⟨v, condition, semicolon, tail, second, rfl, hcond, hsemicolon, h⟩
  · have hwhole := Statement.forLoop hkeyword hleft hinit hcond (filler_kind _) .absent
      (filler_kind _) (statement_filler levels)
    exact ⟨left :: w ++ v, _, _, _, by simp, false, by simpa using hwhole⟩
  rcases (viable_forIncrement hviable).of_closed_bind (sound_forIncrement hsound) (·.mono hle)
    hnesting h with ⟨u, s, increment, third, rfl, hincr⟩ |
    ⟨u, increment, right, tail, third, rfl, hincr, hright, h⟩
  · have hwhole := Statement.forLoop hkeyword hleft hinit hcond hsemicolon hincr
      (filler_kind _) (statement_filler levels)
    exact ⟨left :: w ++ v ++ semicolon :: u, _, _, _, by simp, false, by simpa using hwhole⟩
  · obtain ⟨s, x, body, fourth, rfl, openEnd, hbody⟩ := hviableStatement (fails_map.1 h) hnesting
    have hwhole := Statement.forLoop hkeyword hleft hinit hcond hsemicolon hincr hright hbody
    exact ⟨left :: w ++ v ++ semicolon :: u ++ right :: s, x, _, _, by simp, openEnd,
      by simpa using hwhole⟩

/-! ## Declarations -/

include hsound hviable hviableStatement in
theorem viable_declaration :
    (declaration expression statement).Viable (Declaration (levels + 2)) := by
  intro tokens fault h hnesting
  rcases fails_takeIf_bind.1 h with ⟨keyword, tail, rfl, hkeyword, h⟩ | ⟨_, h⟩
  · obtain ⟨w, v, stmt, misplaced, rfl, hphrase⟩ := viable_varDeclaration hsound hviable h hnesting
    exact ⟨keyword :: w, v, _, _, rfl, .declared (by simpa using hkeyword) hphrase⟩
  · obtain ⟨w, v, stmt, misplaced, rfl, openEnd, hphrase⟩ := hviableStatement h hnesting
    exact ⟨w, v, _, _, rfl, .statement hphrase⟩

end

/-- When a list of declarations fails, those before have been read and one has been begun. -/
private theorem viable_declarationTurns {rule : Rule Stmt} {isLast : Token.Kind → Bool}
    (horderly : rule.Orderly) (hsound : rule.Sound (Declaration levels))
    (hviable : rule.Viable (Declaration (levels + 2))) {fault : Fault}
    (hnesting : fault.cause ≠ .tooMuchNesting) {reversed : List Stmt} {tokens : List Token}
    (h : LoopFails (declarationTurn isLast rule) fault reversed tokens) :
    ∃ w v body misplaced, tokens = w ++ fault.left ∧
      Declarations (levels + 2) (w ++ v) body misplaced := by
  induction h with
  | here hsome hfirst =>
      obtain ⟨_, _, hfails⟩ := (declarationTurn_fails_iff horderly).1 ⟨_, hsome, hfirst⟩
      obtain ⟨w, v, stmt, misplaced, rfl, hphrase⟩ := hviable hfails hnesting
      have hbody := Declarations.cons hphrase .nil
      exact ⟨w, v, _, _, rfl, by simpa using hbody⟩
  | later hsome hclean _ ih =>
      obtain ⟨_, _, ⟨stmt, hread, rfl⟩ | ⟨stop, left, before, hstop, rfl, rfl, rfl⟩⟩ :=
        declarationTurn_eq_some_iff.1 hsome
      · obtain ⟨w, first, rfl, hphrase⟩ := hsound.of_clean hread hclean
        obtain ⟨v, u, body, misplaced, rfl, hbody⟩ := ih
        have hwhole := Declarations.cons (hphrase.mono (Nat.le_add_right levels 2)) hbody
        exact ⟨w ++ v, u, _, _, by simp, by simpa using hwhole⟩
      · exact absurd hclean (horderly.not_clean_push hstop)

theorem viable_declarations (isLast : Token.Kind → Bool)
    (horderly : (declaration expression statement).Orderly)
    (hconsumes : (declaration expression statement).Consumes)
    (hsound : (declaration expression statement).Sound (Declaration levels))
    (hviable : (declaration expression statement).Viable (Declaration (levels + 2))) :
    (declarations isLast expression statement).Viable (Declarations (levels + 2)) := by
  intro tokens fault h hnesting
  rw [declarations_eq] at h
  have hloop := (fails_repeating (takesTokens_declarationTurn horderly hconsumes)).1 (fails_map.1 h)
  exact viable_declarationTurns horderly hsound hviable hnesting hloop

theorem viable_block {left : Token} (hleft : left.kind = .symbol .leftBrace)
    (horderly : (declaration expression statement).Orderly)
    (hconsumes : (declaration expression statement).Consumes)
    (hsound : (declaration expression statement).Sound (Declaration levels))
    (hviable : (declaration expression statement).Viable (Declaration (levels + 2))) :
    (block expression statement).Viable (After (levels + 3) left) := by
  have hsoundBody : (declarations (·.isSymbol .rightBrace) expression statement).Sound
      (Declarations levels) := by
    intro tokens body rest reported misplaced hread hmarks
    obtain ⟨w, rfl, hphrase, _⟩ := sound_declarations horderly hconsumes hsound hread hmarks
    exact ⟨w, rfl, hphrase⟩
  have hviableBody := viable_declarations (·.isSymbol .rightBrace) horderly hconsumes hsound hviable
  intro tokens fault h hnesting
  obtain ⟨w, v, body, misplaced, rfl, hphrase⟩ :=
    hviableBody.of_closed hsoundBody (·.mono (Nat.le_add_right levels 2)) hnesting h
  have hwhole := Statement.block hleft hphrase (filler_kind _)
  exact ⟨w, v ++ [filler (.symbol .rightBrace)], _, _, rfl, false, by simpa using hwhole⟩

/-! ## Nesting -/

theorem viable_statement (levels : Nat) :
    (Grammar.statement levels).Viable fun w stmt misplaced =>
      ∃ openEnd, Statement openEnd (levels + 2) w stmt misplaced := by
  induction levels with
  | zero => exact viable_tooMuchNesting
  | succ levels ih =>
      have hsound := sound_expression levels
      have hviable := viable_expression levels
      have hsoundStatement := sound_statement levels
      intro tokens fault h hnesting
      rcases fails_statementBody.1 h with ⟨token, tail, inside, rfl, hafter, hfails⟩ | ⟨_, hfails⟩
      · have hinside : inside.Viable (After (levels + 3) token) := by
          unfold statementAfter? at hafter
          split at hafter <;> rename_i hkind <;> cases hafter
          · exact viable_ifStatement hsound hviable hsoundStatement ih hkind
          · exact viable_printStatement hsound hviable hkind
          · exact viable_block hkind (orderly_declarationAt levels) (consumes_declarationAt levels)
              (sound_declaration hsound hsoundStatement) (viable_declaration hsound hviable ih)
          · exact viable_whileStatement hsound hviable ih hkind
          · exact viable_forStatement hsound hviable ih hkind
        obtain ⟨w, v, stmt, misplaced, rfl, openEnd, hphrase⟩ := hinside hfails hnesting
        exact ⟨token :: w, v, stmt, misplaced, rfl, openEnd, hphrase⟩
      · obtain ⟨w, v, stmt, misplaced, rfl, hphrase⟩ :=
          viable_expressionStatement hsound hviable hfails hnesting
        exact ⟨w, v, stmt, misplaced, rfl, false, hphrase⟩

/-- Where a program fails, what has been read of it can be completed. -/
theorem viable_programAt (levels : Nat) :
    (programAt levels).Viable (Declarations (levels + 2)) :=
  viable_declarations _ (orderly_declarationAt levels) (consumes_declarationAt levels)
    (sound_declaration (sound_expression levels) (sound_statement levels))
    (viable_declaration (sound_expression levels) (viable_expression levels)
      (viable_statement levels))

end Phrase

end Lox
