import Lox.Proofs.Grammar.Phrase
import Lox.Proofs.Grammar.Statement

/-!
# What is read is a phrase

If a rule reads without a fault other than misplaced assignments, the tokens that it
has used are a phrase of the grammar, and what it yields is the tree of the phrase.
The rules are taken from those for primary expressions upwards, each under the
hypothesis that the rules it is built from are sound; the induction on the nesting
levels comes last.

A statement takes an `else` whenever it can.  So one that is open is never followed by
an `else`, which is what makes the statement between an `if` and its `else` not open.
-/

namespace Lox

open Grammar Phrase

namespace Rule

variable {α : Type}

/-- The reported faults are the misplaced assignments of a phrase, in order. -/
def Marks (reported : Array Fault) (misplaced : List Token) : Prop :=
  reported.toList.map (fun fault => (fault.cause, fault.left.head?)) =
    misplaced.map fun equals => (.invalidAssignmentTarget, some equals)

@[simp] theorem marks_empty {misplaced : List Token} : Marks #[] misplaced ↔ misplaced = [] := by
  cases misplaced <;> simp [Marks]

@[simp] theorem marks_nil {reported : Array Fault} : Marks reported [] ↔ reported = #[] := by
  simp [Marks]

@[simp] theorem marks_misplaced {equals : Token} {tail misplaced : List Token} :
    Marks #[⟨.invalidAssignmentTarget, equals :: tail⟩] misplaced ↔ misplaced = [equals] := by
  cases misplaced with
  | nil => simp [Marks]
  | cons token others => cases others <;> simp [Marks, eq_comm (a := equals)]

theorem marks_append {before after : Array Fault} {misplaced : List Token} :
    Marks (before ++ after) misplaced ↔
      ∃ first second, misplaced = first ++ second ∧ Marks before first ∧ Marks after second := by
  simp only [Marks, Array.toList_append, List.map_append]
  constructor
  · intro h
    obtain ⟨first, second, hmisplaced, hfirst, hsecond⟩ := List.map_eq_append_iff.1 h.symm
    exact ⟨first, second, hmisplaced, hfirst.symm, hsecond.symm⟩
  · rintro ⟨first, second, rfl, hfirst, hsecond⟩
    rw [hfirst, hsecond, List.map_append]

theorem not_marks_push {before : Array Fault} {fault : Fault} {misplaced : List Token}
    (h : fault.cause ≠ .invalidAssignmentTarget) : ¬ Marks (before.push fault) misplaced := by
  intro hmarks
  have hmem : (fault.cause, fault.left.head?) ∈ misplaced.map fun equals =>
      (SyntaxError.Cause.invalidAssignmentTarget, some equals) := by
    rw [← hmarks]
    simp
  obtain ⟨_, _, heq⟩ := List.mem_map.1 hmem
  exact h (Prod.mk.inj heq).1.symm

theorem Marks.append {before after : Array Fault} {first second : List Token}
    (hfirst : Marks before first) (hsecond : Marks after second) :
    Marks (before ++ after) (first ++ second) :=
  marks_append.2 ⟨first, second, rfl, hfirst, hsecond⟩

/-- The rule reads nothing but such phrases. -/
def Sound (rule : Rule α) (phrase : List Token → α → List Token → Prop) : Prop :=
  ∀ ⦃tokens a rest reported misplaced⦄, rule.Reads tokens a rest reported →
    Marks reported misplaced → ∃ w, tokens = w ++ rest ∧ phrase w a misplaced

end Rule

namespace Phrase

open Rule

variable {levels : Nat} {expression operand : Rule Expr}

/-! ## Expressions -/

theorem sound_primary (hexpression : expression.Sound (Expression levels)) :
    (primary expression).Sound (Primary levels) := by
  intro tokens expr rest reported misplaced h hmarks
  obtain ⟨token, tail, rfl, ⟨value, hvalue, rfl, rfl, rfl⟩ | ⟨⟨name, hname⟩, rfl, rfl, rfl⟩ |
    ⟨hleft, inner, right, hinner, hright, rfl⟩⟩ := reads_primary.1 h
  · obtain rfl := marks_empty.1 hmarks
    exact ⟨[token], rfl, .literal hvalue⟩
  · obtain rfl := marks_empty.1 hmarks
    exact ⟨[token], rfl, .name (isIdentifier_iff.2 ⟨name, hname⟩)⟩
  · obtain ⟨w, rfl, hphrase⟩ := hexpression hinner hmarks
    exact ⟨token :: w ++ [right], by simp, .grouping hleft hphrase hright⟩

theorem sound_unary
    (hoperand : operand.Sound fun w e m => ∃ inner, levels = inner + 1 ∧ Unary inner w e m)
    (hexpression : expression.Sound (Expression levels)) :
    (unary operand expression).Sound (Unary levels) := by
  intro tokens expr rest reported misplaced h hmarks
  rcases reads_unary.1 h with ⟨operator, tail, right, rfl, hkind, hright, rfl⟩ | ⟨_, hprimary⟩
  · obtain ⟨w, rfl, inner, rfl, hphrase⟩ := hoperand hright hmarks
    exact ⟨operator :: w, rfl, .operator hkind hphrase⟩
  · obtain ⟨w, rfl, hphrase⟩ := sound_primary hexpression hprimary hmarks
    exact ⟨w, rfl, .primary hphrase⟩

/-- The loop of a level goes on from a phrase of that level to a longer one. -/
private theorem sound_turns {level : Level} {tiers : List Level} {rule : Rule Expr}
    (hrule : rule.Sound (Operators tiers levels)) {left expr : Expr} {mid rest : List Token}
    {after : Array Fault} (hturns : Turns (level.turn rule) left mid expr rest after) :
    ∀ {w first misplaced : List Token}, Operators (level :: tiers) levels w left first →
      Marks after misplaced →
        ∃ v, mid = v ++ rest ∧
          Operators (level :: tiers) levels (w ++ v) expr (first ++ misplaced) := by
  -- over the turns, for any phrase that has been read before them
  induction hturns with
  | done hnone =>
      intro w first misplaced hleft hmarks
      obtain rfl := marks_empty.1 hmarks
      exact ⟨[], rfl, by simpa using hleft⟩
  | turn hsome hturns ih =>
      intro w first misplaced hleft hmarks
      obtain ⟨operator, tail, right, rfl, hkind, hright, rfl⟩ := Level.turn_eq_some_iff.1 hsome
      obtain ⟨second, third, rfl, hsecond, hthird⟩ := marks_append.1 hmarks
      obtain ⟨v, rfl, hphrase⟩ := hrule hright hsecond
      obtain ⟨u, rfl, hwhole⟩ := ih (.operator hleft hkind hphrase) hthird
      exact ⟨operator :: v ++ u, by simp, by simpa using hwhole⟩

theorem sound_rule {rule : Rule Expr} (hrule : rule.Sound (Unary levels))
    (horderly : rule.Orderly) :
    ∀ tiers : List Level, (Level.rule tiers rule).Sound (Operators tiers levels)
  | [] => by
      intro tokens expr rest reported misplaced h hmarks
      obtain ⟨w, rfl, hphrase⟩ := hrule h hmarks
      exact ⟨w, rfl, .unary hphrase⟩
  | level :: tiers => by
      have htighter := sound_rule hrule horderly tiers
      intro tokens expr rest reported misplaced h hmarks
      obtain ⟨first, mid, before, after, hfirst, hturns, rfl⟩ :=
        (Level.reads_rule (Level.takesTokens (Level.orderly_rule horderly tiers))).1 h
      obtain ⟨second, third, rfl, hsecond, hthird⟩ := marks_append.1 hmarks
      obtain ⟨w, rfl, hphrase⟩ := htighter hfirst hsecond
      obtain ⟨v, rfl, hwhole⟩ := sound_turns htighter hturns (.tighter hphrase) hthird
      exact ⟨w ++ v, by simp, hwhole⟩

private theorem unary_variable {w misplaced : List Token} {expr : Expr} {name : Token}
    (heq : expr = .variable name) (h : Unary levels w expr misplaced) :
    w = [name] ∧ isIdentifier name.kind = true ∧ misplaced = [] := by
  cases h with
  | operator _ _ => cases heq
  | primary hprimary =>
      cases hprimary with
      | literal _ => cases heq
      | name hname =>
          cases heq
          exact ⟨rfl, hname, rfl⟩
      | grouping _ _ _ => cases heq

/-- A phrase of operators of which the tree is a variable is a name alone. -/
theorem operators_variable {tiers : List Level} {w misplaced : List Token} {expr : Expr}
    {name : Token} (heq : expr = .variable name) :
    Operators tiers levels w expr misplaced →
      w = [name] ∧ isIdentifier name.kind = true ∧ misplaced = []
  | .unary h => unary_variable heq h
  | .tighter h => operators_variable heq h
  | .operator _ _ _ => absurd heq (Level.node_ne_variable _)

theorem sound_assignment (horderly : (unary operand expression).Orderly)
    (hoperand : operand.Sound fun w e m => ∃ inner, levels = inner + 1 ∧ Unary inner w e m)
    (hexpression : expression.Sound (Expression levels)) :
    (assignment operand expression).Sound (Assignment levels) := by
  intro tokens expr rest reported misplaced h hmarks
  have hoperators := sound_rule (sound_unary hoperand hexpression) horderly Level.all
  obtain ⟨target, mid, before, htarget, ⟨_, rfl, rfl, rfl⟩ | ⟨equals, tail, value, after, rfl,
    hequals, hvalue, ⟨name, rfl, rfl, rfl⟩ | ⟨hother, rfl, rfl⟩⟩⟩ := reads_assignment.1 h
  · obtain ⟨w, rfl, hphrase⟩ := hoperators htarget hmarks
    exact ⟨w, rfl, .operators hphrase⟩
  · obtain ⟨first, second, rfl, hfirst, hsecond⟩ := marks_append.1 hmarks
    obtain ⟨w, rfl, hphrase⟩ := hoperators htarget hfirst
    obtain ⟨v, rfl, hright⟩ := hexpression hvalue hsecond
    -- what has been read as a variable is a name and nothing more
    obtain ⟨rfl, hname, rfl⟩ := operators_variable rfl hphrase
    exact ⟨name :: equals :: v, by simp, .assign hname hequals hright⟩
  · obtain ⟨_, third, rfl, hboth, hthird⟩ := marks_append.1 hmarks
    obtain ⟨first, second, rfl, hfirst, hsecond⟩ := marks_append.1 hboth
    obtain rfl := marks_misplaced.1 hthird
    obtain ⟨w, rfl, hphrase⟩ := hoperators htarget hfirst
    obtain ⟨v, rfl, hright⟩ := hexpression hvalue hsecond
    exact ⟨w ++ equals :: v, by simp, .misassign hphrase hother hequals hright⟩

private theorem sound_nested (levels : Nat) :
    ((Grammar.operand levels).Sound fun w e m =>
        ∃ inner, levels = inner + 1 ∧ Unary inner w e m) ∧
      (Grammar.expression levels).Sound (Expression levels) := by
  induction levels with
  | zero => exact ⟨fun _ _ _ _ _ h => absurd h reads_fail, fun _ _ _ _ _ h => absurd h reads_fail⟩
  | succ levels ih =>
      obtain ⟨hoperand, hexpression⟩ := ih
      have horderly := orderly_unary (orderly_operand levels) (orderly_expression levels)
      constructor
      · intro tokens expr rest reported misplaced h hmarks
        obtain ⟨w, rfl, hphrase⟩ := sound_unary hoperand hexpression h hmarks
        exact ⟨w, rfl, levels, rfl, hphrase⟩
      · intro tokens expr rest reported misplaced h hmarks
        obtain ⟨w, rfl, hphrase⟩ := sound_assignment horderly hoperand hexpression h hmarks
        exact ⟨w, rfl, .nested hphrase⟩

theorem sound_operand (levels : Nat) :
    (Grammar.operand levels).Sound fun w e m => ∃ inner, levels = inner + 1 ∧ Unary inner w e m :=
  (sound_nested levels).1

theorem sound_expression (levels : Nat) : (Grammar.expression levels).Sound (Expression levels) :=
  (sound_nested levels).2

/-! ## Clauses -/

variable {statement : Rule Stmt} {tokens rest misplaced : List Token} {reported : Array Fault}
  {stmt : Stmt}

theorem sound_varDeclaration (hexpression : expression.Sound (Expression levels)) :
    (varDeclaration expression).Sound (Variable levels) := by
  intro tokens stmt rest reported misplaced h hmarks
  obtain ⟨name, tail, rfl, hname, ⟨semicolon, rfl, hsemicolon, rfl, rfl⟩ |
    ⟨equals, tail', initializer, semicolon, rfl, hequals, hread, hsemicolon, rfl⟩⟩ :=
    reads_varDeclaration.1 h
  · obtain rfl := marks_empty.1 hmarks
    exact ⟨[name, semicolon], rfl, .plain hname hsemicolon⟩
  · obtain ⟨w, rfl, hphrase⟩ := hexpression hread hmarks
    have hvariable := Variable.initialized hname hequals hphrase hsemicolon
    exact ⟨name :: equals :: w ++ [semicolon], by simp, hvariable⟩

theorem sound_forInitializer (hexpression : expression.Sound (Expression levels)) :
    (forInitializer expression).Sound (Initializer levels) := by
  intro tokens initializer rest reported misplaced h hmarks
  rcases reads_takeIf_bind.1 h with ⟨semicolon, tail, rfl, hsemicolon, h⟩ | ⟨_, h⟩
  · obtain ⟨rfl, rfl, rfl⟩ := reads_pure.1 h
    obtain rfl := marks_empty.1 hmarks
    exact ⟨[semicolon], rfl, .absent (by simpa using hsemicolon)⟩
  rcases reads_takeIf_bind.1 h with ⟨keyword, tail, rfl, hkeyword, h⟩ | ⟨_, h⟩
  · obtain ⟨stmt, hstmt, rfl⟩ := reads_map.1 h
    obtain ⟨w, rfl, hphrase⟩ := sound_varDeclaration hexpression hstmt hmarks
    exact ⟨keyword :: w, rfl, .declared (by simpa using hkeyword) hphrase⟩
  · obtain ⟨stmt, hstmt, rfl⟩ := reads_map.1 h
    obtain ⟨expr, semicolon, hread, hsemicolon, rfl⟩ := reads_closed.1 hstmt
    obtain ⟨w, rfl, hphrase⟩ := hexpression hread hmarks
    exact ⟨w ++ [semicolon], by simp, .expression hphrase hsemicolon⟩

theorem sound_forCondition (hexpression : expression.Sound (Expression levels)) :
    (forCondition expression).Sound (Condition levels) := by
  intro tokens condition rest reported misplaced h hmarks
  rw [forCondition, reads_nextIs_bind] at h
  split at h
  · obtain ⟨rfl, rfl, rfl⟩ := reads_pure.1 h
    obtain rfl := marks_empty.1 hmarks
    exact ⟨[], rfl, .absent⟩
  · obtain ⟨w, rfl, hphrase⟩ := hexpression h hmarks
    exact ⟨w, rfl, .expression hphrase⟩

theorem sound_forIncrement (hexpression : expression.Sound (Expression levels)) :
    (forIncrement expression).Sound (Increment levels) := by
  intro tokens increment rest reported misplaced h hmarks
  rw [forIncrement, reads_nextIs_bind] at h
  split at h
  · obtain ⟨rfl, rfl, rfl⟩ := reads_pure.1 h
    obtain rfl := marks_empty.1 hmarks
    exact ⟨[], rfl, .absent⟩
  · obtain ⟨expr, hread, rfl⟩ := reads_map.1 h
    obtain ⟨w, rfl, hphrase⟩ := hexpression hread hmarks
    exact ⟨w, rfl, .expression hphrase⟩

/-! ## Statements -/

/-- Up to `rest` the tokens are a statement.  If it is open, no `else` comes after it. -/
def StatementUpTo (levels : Nat) (tokens : List Token) (stmt : Stmt) (rest : List Token)
    (misplaced : List Token) : Prop :=
  ∃ w openEnd, tokens = w ++ rest ∧ Statement openEnd levels w stmt misplaced ∧
    (openEnd = true → starts (·.isKeyword .«else») rest = false)

/-- The rule reads nothing but statements. -/
def SoundStatement (statement : Rule Stmt) (levels : Nat) : Prop :=
  ∀ ⦃tokens stmt rest reported misplaced⦄, statement.Reads tokens stmt rest reported →
    Marks reported misplaced → StatementUpTo levels tokens stmt rest misplaced

section

variable (hexpression : expression.Sound (Expression levels))
  (hstatement : SoundStatement statement levels) (hmarks : Marks reported misplaced)
include hexpression hmarks

private theorem sound_expressionStatement
    (h : (expressionStatement expression).Reads tokens stmt rest reported) :
    StatementUpTo (levels + 1) tokens stmt rest misplaced := by
  obtain ⟨expr, semicolon, hread, hsemicolon, rfl⟩ := reads_closed.1 h
  obtain ⟨w, rfl, hphrase⟩ := hexpression hread hmarks
  exact ⟨w ++ [semicolon], false, by simp, .expression hphrase hsemicolon, by simp⟩

private theorem sound_printStatement {keyword : Token} (hkeyword : keyword.kind = .keyword .print)
    (h : (printStatement expression).Reads tokens stmt rest reported) :
    StatementUpTo (levels + 1) (keyword :: tokens) stmt rest misplaced := by
  obtain ⟨expr, semicolon, hread, hsemicolon, rfl⟩ := reads_closed.1 h
  obtain ⟨w, rfl, hphrase⟩ := hexpression hread hmarks
  exact ⟨keyword :: w ++ [semicolon], false, by simp, .print hkeyword hphrase hsemicolon, by simp⟩

include hstatement

private theorem sound_ifStatement {keyword : Token} (hkeyword : keyword.kind = .keyword .«if»)
    (h : (ifStatement expression statement).Reads tokens stmt rest reported) :
    StatementUpTo (levels + 1) (keyword :: tokens) stmt rest misplaced := by
  obtain ⟨left, tail, rfl, hleft, hinside⟩ := reads_expectSymbol_bind.1 h
  obtain ⟨condition, right, body, _, _, hread, hright, hbranches, rfl⟩ :=
    reads_closed_bind.1 hinside
  obtain ⟨thenBranch, mid, _, _, hthen, htaken, rfl⟩ := reads_bind.1 hbranches
  obtain ⟨first, _, rfl, hfirst, hboth⟩ := marks_append.1 hmarks
  obtain ⟨second, third, rfl, hsecond, hthird⟩ := marks_append.1 hboth
  obtain ⟨w, rfl, hcondition⟩ := hexpression hread hfirst
  obtain ⟨v, openEnd, rfl, hbranch, hnot⟩ := hstatement hthen hsecond
  rcases reads_takeIf_bind.1 htaken with ⟨other, tail, rfl, hother, hnext⟩ | ⟨hstarts, hpure⟩
  · obtain ⟨elseBranch, helse, rfl⟩ := reads_map.1 hnext
    obtain ⟨u, openElse, rfl, hlast, hnotLast⟩ := hstatement helse hthird
    -- the `else` is there, so the statement before it is not open
    obtain rfl : openEnd = false := by
      cases openEnd with
      | false => rfl
      | true => simp [hother] at hnot
    refine ⟨keyword :: left :: w ++ right :: v ++ other :: u, openElse, by simp, ?_, hnotLast⟩
    have hwhole := Statement.ifElse hkeyword hleft hcondition hright hbranch
      (by simpa using hother) hlast
    simpa using hwhole
  · obtain ⟨rfl, rfl, rfl⟩ := reads_pure.1 hpure
    obtain rfl := marks_empty.1 hthird
    -- no `else` comes next, or it would have been taken
    refine ⟨keyword :: left :: w ++ right :: v, true, by simp, ?_, fun _ => hstarts⟩
    simpa using Statement.ifThen hkeyword hleft hcondition hright hbranch

private theorem sound_whileStatement {keyword : Token}
    (hkeyword : keyword.kind = .keyword .«while»)
    (h : (whileStatement expression statement).Reads tokens stmt rest reported) :
    StatementUpTo (levels + 1) (keyword :: tokens) stmt rest misplaced := by
  obtain ⟨left, tail, rfl, hleft, hinside⟩ := reads_expectSymbol_bind.1 h
  obtain ⟨condition, right, body, _, _, hread, hright, hbody, rfl⟩ := reads_closed_bind.1 hinside
  obtain ⟨inner, hinner, rfl⟩ := reads_map.1 hbody
  obtain ⟨first, second, rfl, hfirst, hsecond⟩ := marks_append.1 hmarks
  obtain ⟨w, rfl, hcondition⟩ := hexpression hread hfirst
  obtain ⟨v, openEnd, rfl, hbody, hnot⟩ := hstatement hinner hsecond
  exact ⟨keyword :: left :: w ++ right :: v, openEnd, by simp,
    .loop hkeyword hleft hcondition hright hbody, hnot⟩

private theorem sound_forStatement {keyword : Token} (hkeyword : keyword.kind = .keyword .«for»)
    (h : (forStatement expression statement).Reads tokens stmt rest reported) :
    StatementUpTo (levels + 1) (keyword :: tokens) stmt rest misplaced := by
  obtain ⟨left, initializer, condition, semicolon, increment, right, body, _, _, _, _, _, _, _, _,
    rfl, hleft, hinit, hcond, hsemicolon, hincr, hright, hinner, rfl, rfl⟩ := reads_forStatement.1 h
  obtain ⟨first, _, rfl, hmarksInit, hmarksRest⟩ := marks_append.1 hmarks
  obtain ⟨second, _, rfl, hmarksCond, hmarksLast⟩ := marks_append.1 hmarksRest
  obtain ⟨third, fourth, rfl, hmarksIncr, hmarksBody⟩ := marks_append.1 hmarksLast
  obtain ⟨w, rfl, hinitializer⟩ := sound_forInitializer hexpression hinit hmarksInit
  obtain ⟨v, rfl, hcondition⟩ := sound_forCondition hexpression hcond hmarksCond
  obtain ⟨u, rfl, hincrement⟩ := sound_forIncrement hexpression hincr hmarksIncr
  obtain ⟨s, openEnd, rfl, hbody, hnot⟩ := hstatement hinner hmarksBody
  refine ⟨keyword :: left :: w ++ v ++ semicolon :: u ++ right :: s, openEnd, by simp, ?_, hnot⟩
  simpa using Statement.forLoop hkeyword hleft hinitializer hcondition hsemicolon hincrement hright
    hbody

omit hmarks in
theorem sound_declaration :
    (declaration expression statement).Sound (Declaration levels) := by
  intro tokens stmt rest reported misplaced h hmarks
  rcases reads_takeIf_bind.1 h with ⟨keyword, tail, rfl, hkeyword, h⟩ | ⟨_, h⟩
  · obtain ⟨w, rfl, hphrase⟩ := sound_varDeclaration hexpression h hmarks
    exact ⟨keyword :: w, rfl, .declared (by simpa using hkeyword) hphrase⟩
  · obtain ⟨w, openEnd, rfl, hphrase, _⟩ := hstatement h hmarks
    exact ⟨w, rfl, .statement hphrase⟩

end

/-! ## Lists of declarations -/

private theorem sound_declarationTurns {isLast : Token.Kind → Bool} {rule : Rule Stmt}
    (horderly : rule.Orderly) (hrule : rule.Sound (Declaration levels))
    {reversed last : List Stmt}
    (hturns : Turns (declarationTurn isLast rule) reversed tokens last rest reported) :
    ∀ {misplaced : List Token}, Marks reported misplaced →
      ∃ w body, tokens = w ++ rest ∧ Declarations levels w body misplaced ∧
        last = body.reverse ++ reversed ∧ (rest = [] ∨ starts isLast rest = true) := by
  induction hturns with
  | done hnone =>
      intro misplaced hmarks
      obtain rfl := marks_empty.1 hmarks
      exact ⟨[], [], rfl, .nil, rfl, declarationTurn_eq_none_iff.1 hnone⟩
  | turn hsome hturns ih =>
      intro misplaced hmarks
      obtain ⟨first, second, rfl, hfirst, hsecond⟩ := marks_append.1 hmarks
      obtain ⟨_, _, ⟨stmt, hread, rfl⟩ | ⟨fault, left, before, hstop, rfl, rfl, rfl⟩⟩ :=
        declarationTurn_eq_some_iff.1 hsome
      · obtain ⟨w, rfl, hphrase⟩ := hrule hread hfirst
        obtain ⟨v, body, rfl, hbody, rfl, hend⟩ := ih hsecond
        exact ⟨w ++ v, stmt :: body, by simp, .cons hphrase hbody, by simp, hend⟩
      · -- a declaration that is given up has reported more than misplaced assignments
        have hcause : fault.cause ≠ .invalidAssignmentTarget :=
          (horderly _).cause_ne (by rw [hstop])
        exact absurd hfirst (not_marks_push hcause)

/-- Declarations are read up to the end, or up to a token that ends them. -/
theorem sound_declarations {isLast : Token.Kind → Bool} {body : List Stmt}
    (horderly : (declaration expression statement).Orderly)
    (hconsumes : (declaration expression statement).Consumes)
    (hrule : (declaration expression statement).Sound (Declaration levels))
    (h : (declarations isLast expression statement).Reads tokens body rest reported)
    (hmarks : Marks reported misplaced) :
    ∃ w, tokens = w ++ rest ∧ Declarations levels w body misplaced ∧
      (rest = [] ∨ starts isLast rest = true) := by
  obtain ⟨w, body', rfl, hphrase, hreverse, hend⟩ :=
    sound_declarationTurns horderly hrule ((reads_declarations horderly hconsumes).1 h) hmarks
  obtain rfl : body = body' := by simpa using hreverse
  exact ⟨w, rfl, hphrase, hend⟩

/-! ## Nesting -/

private theorem sound_statementBody (hexpression : expression.Sound (Expression levels))
    (hstatement : SoundStatement statement levels)
    (horderly : (declaration expression statement).Orderly)
    (hconsumes : (declaration expression statement).Consumes) :
    SoundStatement (statementBody expression statement) (levels + 1) := by
  intro tokens stmt rest reported misplaced h hmarks
  rcases reads_statementBody.1 h with ⟨token, tail, inside, rfl, hafter, hread⟩ | ⟨_, hread⟩
  · unfold statementAfter? at hafter
    split at hafter <;> rename_i hkind <;> cases hafter
    · exact sound_ifStatement hexpression hstatement hmarks hkind hread
    · exact sound_printStatement hexpression hmarks hkind hread
    · obtain ⟨body, right, hbody, hright, rfl⟩ := reads_closed.1 hread
      have hdeclaration := sound_declaration hexpression hstatement
      obtain ⟨w, rfl, hphrase, _⟩ :=
        sound_declarations horderly hconsumes hdeclaration hbody hmarks
      exact ⟨token :: w ++ [right], false, by simp, .block hkind hphrase hright, by simp⟩
    · exact sound_whileStatement hexpression hstatement hmarks hkind hread
    · exact sound_forStatement hexpression hstatement hmarks hkind hread
  · exact sound_expressionStatement hexpression hmarks hread

theorem sound_statement (levels : Nat) : SoundStatement (Grammar.statement levels) levels := by
  induction levels with
  | zero => exact fun _ _ _ _ _ h => absurd h reads_fail
  | succ levels ih =>
      exact sound_statementBody (sound_expression levels) ih (orderly_declarationAt levels)
        (consumes_declarationAt levels)

end Phrase

end Lox
