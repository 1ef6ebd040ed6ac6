import Lox.Proofs.Grammar.Soundness

/-!
# Every phrase is read

A phrase with enough levels left is read as what it is, whatever follows it, as long as
that could not be part of the phrase: no operator after operands, no `=` after the left
side of an assignment, no `else` after an open statement.  What is reported meanwhile are
the misplaced assignments of the phrase and nothing else.

The proofs follow the derivation of the phrase.  For the levels of operators the
derivation begins at the last operator and reading at the first operand, so
`Operators.continues` speaks about what a loop can still do once the phrase has been read.
-/

namespace Lox

open Grammar Rule

namespace Phrase

/-! ## How phrases begin -/

/-- The kinds of token that begin a primary expression. -/
def beginsPrimary (kind : Token.Kind) : Bool :=
  (literal? kind).isSome || isIdentifier kind || kind.isSymbol .leftParen

/-- The kinds of token that begin an expression. -/
def beginsExpression (kind : Token.Kind) : Bool := isUnary kind || beginsPrimary kind

variable {levels : Nat} {w misplaced : List Token} {expr : Expr}

theorem Primary.begins (h : Primary levels w expr misplaced) : starts beginsPrimary w = true := by
  cases h with
  | literal hvalue => simp [beginsPrimary, hvalue]
  | name hname => simp [beginsPrimary, hname]
  | grouping hleft _ _ => simp [beginsPrimary, hleft, Token.Kind.isSymbol]

theorem Unary.begins (h : Unary levels w expr misplaced) : starts beginsExpression w = true := by
  cases h with
  | operator hkind _ => simp [beginsExpression, hkind]
  | primary hprimary =>
      exact starts_mono hprimary.begins fun kind hkind => by simp [beginsExpression, hkind]

theorem Operators.begins {tiers : List Level} {w misplaced : List Token} {expr : Expr} :
    Operators tiers levels w expr misplaced → starts beginsExpression w = true
  | .unary h => h.begins
  | .tighter h => h.begins
  | .operator h _ _ => starts_append h.begins _

theorem Expression.begins (h : Expression levels w expr misplaced) :
    starts beginsExpression w = true := by
  obtain ⟨hassignment⟩ := h
  cases hassignment with
  | operators hoperators => exact hoperators.begins
  | assign hname _ _ => simp [beginsExpression, beginsPrimary, hname]
  | misassign hoperators _ _ _ => exact starts_append hoperators.begins _

private theorem isUnary_of_beginsPrimary (kind : Token.Kind) (h : beginsPrimary kind = true) :
    isUnary kind = false := by
  unfold isUnary
  split <;> simp_all [beginsPrimary, literal?, isIdentifier, Token.Kind.isSymbol]

/-! ## What may follow -/

/-- No operator of these levels comes next. -/
def NoOperator (tiers : List Level) (rest : List Token) : Prop :=
  ∀ level ∈ tiers, starts level.isOperator rest = false

/-- Nothing comes next that could go on with an expression. -/
structure EndsExpression (rest : List Token) : Prop where
  noOperator : NoOperator Level.all rest
  noEquals : starts (·.isSymbol .equal) rest = false

theorem noOperator_cons_iff {level : Level} {tiers : List Level} {rest : List Token} :
    NoOperator (level :: tiers) rest ↔
      NoOperator tiers rest ∧ starts level.isOperator rest = false := by
  simp [NoOperator, and_comm]

theorem noOperator_cons {token : Token} (tail : List Token) (tiers : List Level)
    (h : Level.ofKind? token.kind = none) : NoOperator tiers (token :: tail) := by
  intro level _
  cases hoperator : level.isOperator token.kind with
  | false => exact hoperator
  | true =>
      rw [Level.isOperator_iff, h] at hoperator
      cases hoperator

theorem endsExpression_semicolon {token : Token} (tail : List Token)
    (h : token.kind = .symbol .semicolon) : EndsExpression (token :: tail) :=
  ⟨noOperator_cons tail _ (by rw [h]; rfl), by simp [h, Token.Kind.isSymbol]⟩

theorem endsExpression_rightParen {token : Token} (tail : List Token)
    (h : token.kind = .symbol .rightParen) : EndsExpression (token :: tail) :=
  ⟨noOperator_cons tail _ (by rw [h]; rfl), by simp [h, Token.Kind.isSymbol]⟩

/-- An operator of a level is none of the tighter levels. -/
theorem noOperator_of_isOperator {level : Level} {tiers : List Level} {operator : Token}
    {tail : List Token} (hnodup : (level :: tiers).Nodup)
    (hkind : level.isOperator operator.kind = true) : NoOperator tiers (operator :: tail) := by
  intro other hmem
  cases hother : other.isOperator operator.kind with
  | false => exact hother
  | true =>
      have heq := Level.eq_of_isOperator hkind hother
      exact absurd (heq ▸ hmem) (List.nodup_cons.1 hnodup).1

/-- Past a level that does not go on, what is read is what the tighter levels read. -/
theorem reads_rule_of_reads {rule : Rule Expr} (horderly : rule.Orderly) {tokens rest : List Token}
    {reported : Array Fault} (h : rule.Reads tokens expr rest reported) :
    ∀ tiers : List Level, NoOperator tiers rest →
      (Level.rule tiers rule).Reads tokens expr rest reported
  | [], _ => h
  | level :: tiers, hnone => by
      have htighter := reads_rule_of_reads horderly h tiers
        fun other hmem => hnone other (List.mem_cons_of_mem _ hmem)
      have hturns := @Level.turns_done (Level.rule tiers rule) rest level expr
        (hnone level (List.mem_cons_self ..))
      exact (Level.reads_rule (Level.takesTokens (Level.orderly_rule horderly tiers))).2
        ⟨expr, rest, reported, #[], htighter, hturns, by simp⟩

/-! ## Expressions -/

/-- The rule for unary expressions inside so many levels. -/
abbrev unaryAt (levels : Nat) : Rule Expr :=
  unary (Grammar.operand levels) (Grammar.expression levels)

theorem orderly_unaryAt (levels : Nat) : (unaryAt levels).Orderly :=
  orderly_unary (orderly_operand levels) (orderly_expression levels)

theorem Level.reads_rule_unaryAt {level : Level} {tiers : List Level} {tokens rest : List Token}
    {reported : Array Fault} :
    (Level.rule (level :: tiers) (unaryAt levels)).Reads tokens expr rest reported ↔
      ∃ first mid before after, (Level.rule tiers (unaryAt levels)).Reads tokens first mid before ∧
        Turns (level.turn (Level.rule tiers (unaryAt levels))) first mid expr rest after ∧
        reported = before ++ after :=
  Level.reads_rule (Level.takesTokens (Level.orderly_rule (orderly_unaryAt levels) tiers))

/-- The rule reads the phrase `w`, and reports what is misplaced in it. -/
def ReadsPhrase {α : Type} (rule : Rule α) (w : List Token) (a : α) (rest misplaced : List Token) :
    Prop :=
  ∃ reported, rule.Reads (w ++ rest) a rest reported ∧ Marks reported misplaced

/-- A name is read by all levels. -/
private theorem name_reads (levels : Nat) {name : Token} {rest : List Token}
    (hname : isIdentifier name.kind = true) (hnone : NoOperator Level.all rest) :
    (Level.rule Level.all (unaryAt levels)).Reads (name :: rest) (.variable name) rest #[] := by
  obtain ⟨text, htext⟩ := isIdentifier_iff.1 hname
  have hnot : starts isUnary (name :: rest) = false := by simp [htext, isUnary]
  have hprimary : (primary (Grammar.expression levels)).Reads (name :: rest) (.variable name) rest
      #[] :=
    reads_primary.2 ⟨name, rest, rfl, .inr (.inl ⟨⟨text, htext⟩, rfl, rfl, rfl⟩)⟩
  have hunary : (unaryAt levels).Reads (name :: rest) (.variable name) rest #[] :=
    reads_unary.2 (.inr ⟨hnot, hprimary⟩)
  exact reads_rule_of_reads (orderly_unaryAt levels) hunary Level.all hnone

mutual

theorem Primary.reads {levels : Nat} {w misplaced : List Token} {expr : Expr} (rest : List Token) :
    Primary levels w expr misplaced →
      ReadsPhrase (primary (Grammar.expression levels)) w expr rest misplaced
  | @Primary.literal _ token value hvalue => by
      refine ⟨#[], ?_, by simp⟩
      exact reads_primary.2 ⟨token, rest, rfl, .inl ⟨value, hvalue, rfl, rfl, rfl⟩⟩
  | @Primary.name _ token hname => by
      have hkind := isIdentifier_iff.1 hname
      refine ⟨#[], ?_, by simp⟩
      exact reads_primary.2 ⟨token, rest, rfl, .inr (.inl ⟨hkind, rfl, rfl, rfl⟩)⟩
  | @Primary.grouping _ left right w _ inner hleft hinner hright => by
      obtain ⟨reported, hread, hmarks⟩ :=
        hinner.reads (right :: rest) (endsExpression_rightParen rest hright)
      rw [← List.singleton_append, ← List.append_assoc] at hread
      refine ⟨reported, ?_, hmarks⟩
      exact reads_primary.2
        ⟨left, w ++ [right] ++ rest, rfl, .inr (.inr ⟨hleft, inner, right, hread, hright, rfl⟩)⟩

theorem Unary.reads {levels : Nat} {w misplaced : List Token} {expr : Expr} (rest : List Token) :
    Unary levels w expr misplaced → ReadsPhrase (unaryAt levels) w expr rest misplaced
  | @Unary.operator levels operator w _ right hkind hright => by
      obtain ⟨reported, hread, hmarks⟩ := hright.reads rest
      have hoperand := reads_operand.2 ⟨levels, rfl, hread⟩
      refine ⟨reported, ?_, hmarks⟩
      exact reads_unary.2 (.inl ⟨operator, w ++ rest, right, rfl, hkind, hoperand, rfl⟩)
  | .primary hprimary => by
      obtain ⟨reported, hread, hmarks⟩ := hprimary.reads rest
      have hbegins := not_starts_append hprimary.begins isUnary_of_beginsPrimary rest
      exact ⟨reported, reads_unary.2 (.inr ⟨hbegins, hread⟩), hmarks⟩

theorem Operators.reads {tiers : List Level} {levels : Nat} {w misplaced : List Token} {expr : Expr}
    (rest : List Token) (hnodup : tiers.Nodup) (hnone : NoOperator tiers rest) :
    Operators tiers levels w expr misplaced →
      ReadsPhrase (Level.rule tiers (unaryAt levels)) w expr rest misplaced
  | .unary h => h.reads rest
  | .tighter h => by
      obtain ⟨htighter, hlevel⟩ := noOperator_cons_iff.1 hnone
      obtain ⟨reported, hread, hmarks⟩ := h.reads rest (List.nodup_cons.1 hnodup).2 htighter
      refine ⟨reported, ?_, hmarks⟩
      exact Level.reads_rule_unaryAt.2
        ⟨_, rest, reported, #[], hread, Level.turns_done _ hlevel, by simp⟩
  | @Operators.operator _ _ _ _ _ _ _ _ left _ hleft hkind hright => by
      obtain ⟨htighter, hlevel⟩ := noOperator_cons_iff.1 hnone
      obtain ⟨reported, hread, hmarks⟩ := hright.reads rest (List.nodup_cons.1 hnodup).2 htighter
      -- the last operator is taken in the last turn, and the earlier ones before it
      have hturn := Level.turns_operator left hkind hread (Level.turns_done _ hlevel)
      rw [Array.append_empty] at hturn
      obtain ⟨whole, hwhole, hmarksWhole⟩ := hleft.continues rfl hnodup
        (noOperator_of_isOperator hnodup hkind) hturn hmarks
      refine ⟨whole, ?_, hmarksWhole⟩
      rw [List.append_assoc]
      exact hwhole

/-- What a loop still does after a phrase of its level, it does after reading the phrase. -/
theorem Operators.continues {level : Level} {tiers all : List Level} {levels : Nat}
    {w misplaced : List Token} {expr : Expr} {mid : List Token} {last : Expr} {rest : List Token}
    {after : Array Fault} {misplacedAfter : List Token} (hall : all = level :: tiers)
    (hnodup : (level :: tiers).Nodup) (hnone : NoOperator tiers mid)
    (hturns : Turns (level.turn (Level.rule tiers (unaryAt levels))) expr mid last rest after)
    (hmarks : Marks after misplacedAfter) :
    Operators all levels w expr misplaced →
      ∃ reported, (Level.rule (level :: tiers) (unaryAt levels)).Reads (w ++ mid) last rest
        reported ∧ Marks reported (misplaced ++ misplacedAfter)
  | .tighter h => by
      -- this is the first operand, after which the loop begins
      obtain ⟨rfl, rfl⟩ := List.cons.inj hall
      obtain ⟨before, hread, hmarksBefore⟩ := h.reads mid (List.nodup_cons.1 hnodup).2 hnone
      refine ⟨before ++ after, ?_, hmarksBefore.append hmarks⟩
      exact Level.reads_rule_unaryAt.2 ⟨expr, mid, before, after, hread, hturns, rfl⟩
  | @Operators.operator _ _ _ _ _ _ _ _ left _ hleft hkind hright => by
      -- one turn more is left to be done after the left operand
      obtain ⟨rfl, rfl⟩ := List.cons.inj hall
      obtain ⟨before, hread, hmarksBefore⟩ := hright.reads mid (List.nodup_cons.1 hnodup).2 hnone
      have hturn := Level.turns_operator left hkind hread hturns
      obtain ⟨whole, hwhole, hmarksWhole⟩ := hleft.continues rfl hnodup
        (noOperator_of_isOperator hnodup hkind) hturn (hmarksBefore.append hmarks)
      rw [← List.append_assoc] at hmarksWhole
      refine ⟨whole, ?_, hmarksWhole⟩
      rw [List.append_assoc]
      exact hwhole

theorem Assignment.reads {levels : Nat} {w misplaced : List Token} {expr : Expr}
    (rest : List Token) (hends : EndsExpression rest) :
    Assignment levels w expr misplaced →
      ReadsPhrase (assignment (Grammar.operand levels) (Grammar.expression levels)) w expr rest
        misplaced
  | .operators h => by
      obtain ⟨reported, hread, hmarks⟩ := h.reads rest (by decide) hends.noOperator
      refine ⟨reported, ?_, hmarks⟩
      exact reads_assignment.2 ⟨expr, rest, reported, hread, .inl ⟨hends.noEquals, rfl, rfl, rfl⟩⟩
  | @Assignment.assign _ name equals v _ value hname hequals hvalue => by
      obtain ⟨reported, hread, hmarks⟩ := hvalue.reads rest hends
      have hnone : NoOperator Level.all (equals :: (v ++ rest)) :=
        noOperator_cons (v ++ rest) Level.all (by rw [hequals]; rfl)
      -- the name has been read as an expression before the equals sign is seen
      have htarget := name_reads levels hname hnone
      refine ⟨reported, reads_assignment.2 ⟨_, _, #[], htarget, .inr ?_⟩, hmarks⟩
      refine ⟨equals, v ++ rest, value, reported, rfl, hequals, hread, .inl ?_⟩
      exact ⟨name, rfl, rfl, by simp⟩
  | @Assignment.misassign _ equals w v _ _ target value h hother hequals hvalue => by
      obtain ⟨after, hread, hmarks⟩ := hvalue.reads rest hends
      have hnone : NoOperator Level.all (equals :: (v ++ rest)) :=
        noOperator_cons (v ++ rest) Level.all (by rw [hequals]; rfl)
      obtain ⟨before, htarget, hmarksBefore⟩ := h.reads (equals :: (v ++ rest)) (by decide) hnone
      have hmisplaced : Marks #[⟨.invalidAssignmentTarget, equals :: (v ++ rest)⟩] [equals] :=
        marks_misplaced.2 rfl
      refine ⟨before ++ after ++ #[⟨.invalidAssignmentTarget, equals :: (v ++ rest)⟩], ?_,
        (hmarksBefore.append hmarks).append hmisplaced⟩
      rw [List.append_assoc]
      refine reads_assignment.2 ⟨target, equals :: (v ++ rest), before, htarget, .inr ?_⟩
      exact ⟨equals, v ++ rest, value, after, rfl, hequals, hread, .inr ⟨hother, rfl, rfl⟩⟩

theorem Expression.reads {levels : Nat} {w misplaced : List Token} {expr : Expr}
    (rest : List Token) (hends : EndsExpression rest) :
    Expression levels w expr misplaced →
      ReadsPhrase (Grammar.expression levels) w expr rest misplaced
  | .nested h => by
      obtain ⟨reported, hread, hmarks⟩ := h.reads rest hends
      exact ⟨reported, reads_expression.2 ⟨_, rfl, hread⟩, hmarks⟩

end

/-! ## Clauses -/

theorem Variable.reads {stmt : Stmt} (rest : List Token) (h : Variable levels w stmt misplaced) :
    ReadsPhrase (varDeclaration (Grammar.expression levels)) w stmt rest misplaced := by
  cases h with
  | @plain name semicolon hname hsemicolon =>
      refine ⟨#[], reads_varDeclaration.2 ⟨name, semicolon :: rest, rfl, hname, .inl ?_⟩, by simp⟩
      exact ⟨semicolon, rfl, hsemicolon, rfl, rfl⟩
  | @initialized name equals semicolon w _ initializer hname hequals hexpression hsemicolon =>
      obtain ⟨reported, hread, hmarks⟩ :=
        hexpression.reads (semicolon :: rest) (endsExpression_semicolon rest hsemicolon)
      rw [← List.singleton_append, ← List.append_assoc] at hread
      refine ⟨reported, reads_varDeclaration.2 ⟨name, _, rfl, hname, .inr ?_⟩, hmarks⟩
      exact ⟨equals, w ++ [semicolon] ++ rest, initializer, semicolon, rfl, hequals, hread,
        hsemicolon, rfl⟩

/-- An expression is none of the other things that may stand where it does. -/
private theorem otherwise_of_beginsExpression (kind : Token.Kind)
    (h : beginsExpression kind = true) :
    kind.isSymbol .semicolon = false ∧ kind.isSymbol .rightParen = false ∧
      kind.isKeyword .var = false ∧ opensStatement kind = false := by
  cases kind with
  | symbol symbol => cases symbol <;> first | decide | exact absurd h (by decide)
  | keyword keyword => cases keyword <;> first | decide | exact absurd h (by decide)
  | _ => exact ⟨rfl, rfl, rfl, rfl⟩

theorem Initializer.reads {initializer : Option Stmt} (rest : List Token)
    (h : Initializer levels w initializer misplaced) :
    ReadsPhrase (forInitializer (Grammar.expression levels)) w initializer rest misplaced := by
  cases h with
  | @absent semicolon hsemicolon =>
      refine ⟨#[], reads_takeIf_bind.2 (.inl ?_), by simp⟩
      exact ⟨semicolon, rest, rfl, by simpa using hsemicolon, reads_pure.2 ⟨rfl, rfl, rfl⟩⟩
  | @declared keyword w _ stmt hkeyword hvariable =>
      obtain ⟨reported, hread, hmarks⟩ := hvariable.reads rest
      have hnot : starts (·.isSymbol .semicolon) (keyword :: (w ++ rest)) = false := by
        simp [hkeyword, Token.Kind.isSymbol]
      refine ⟨reported, reads_takeIf_bind.2 (.inr ⟨hnot, ?_⟩), hmarks⟩
      refine reads_takeIf_bind.2 (.inl ⟨keyword, w ++ rest, rfl, by simpa using hkeyword, ?_⟩)
      exact reads_map.2 ⟨stmt, hread, rfl⟩
  | @expression semicolon w _ expr hexpression hsemicolon =>
      obtain ⟨reported, hread, hmarks⟩ :=
        hexpression.reads (semicolon :: rest) (endsExpression_semicolon rest hsemicolon)
      have hsemicolonNot := not_starts_append hexpression.begins
        (fun kind h => (otherwise_of_beginsExpression kind h).1) (semicolon :: rest)
      have hvarNot := not_starts_append hexpression.begins
        (fun kind h => (otherwise_of_beginsExpression kind h).2.2.1) (semicolon :: rest)
      have hstmt : (expressionStatement (Grammar.expression levels)).Reads (w ++ semicolon :: rest)
          (.expression expr) rest reported :=
        reads_closed.2 ⟨expr, semicolon, hread, hsemicolon, rfl⟩
      refine ⟨reported, ?_, hmarks⟩
      rw [List.append_assoc]
      refine reads_takeIf_bind.2 (.inr ⟨hsemicolonNot, reads_takeIf_bind.2 (.inr ⟨hvarNot, ?_⟩)⟩)
      exact reads_map.2 ⟨.expression expr, hstmt, rfl⟩

theorem Condition.reads {condition : Expr} {semicolon : Token} (rest : List Token)
    (hsemicolon : semicolon.kind = .symbol .semicolon)
    (h : Condition levels w condition misplaced) :
    ReadsPhrase (forCondition (Grammar.expression levels)) w condition (semicolon :: rest)
      misplaced := by
  unfold ReadsPhrase
  simp only [forCondition, reads_nextIs_bind]
  cases h with
  | absent => exact ⟨#[], by simp [hsemicolon, Token.Kind.isSymbol], by simp⟩
  | expression hexpression =>
      obtain ⟨reported, hread, hmarks⟩ :=
        hexpression.reads (semicolon :: rest) (endsExpression_semicolon rest hsemicolon)
      have hnot := not_starts_append hexpression.begins
        (fun kind h => (otherwise_of_beginsExpression kind h).1) (semicolon :: rest)
      exact ⟨reported, by simpa [hnot] using hread, hmarks⟩

theorem Increment.reads {increment : Option Expr} {right : Token} (rest : List Token)
    (hright : right.kind = .symbol .rightParen) (h : Increment levels w increment misplaced) :
    ReadsPhrase (forIncrement (Grammar.expression levels)) w increment (right :: rest)
      misplaced := by
  unfold ReadsPhrase
  simp only [forIncrement, reads_nextIs_bind]
  cases h with
  | absent => exact ⟨#[], by simp [hright, Token.Kind.isSymbol], by simp⟩
  | expression hexpression =>
      obtain ⟨reported, hread, hmarks⟩ :=
        hexpression.reads (right :: rest) (endsExpression_rightParen rest hright)
      have hnot := not_starts_append hexpression.begins
        (fun kind h => (otherwise_of_beginsExpression kind h).2.1) (right :: rest)
      exact ⟨reported, by simpa [hnot, reads_map] using hread, hmarks⟩

/-! ## How statements begin -/

/-- The kinds of token that begin a statement. -/
def beginsStatement (kind : Token.Kind) : Bool := opensStatement kind || beginsExpression kind

/-- The kinds of token that begin a declaration. -/
def beginsDeclaration (kind : Token.Kind) : Bool := kind.isKeyword .var || beginsStatement kind

theorem Statement.begins {openEnd : Bool} {stmt : Stmt}
    (h : Statement openEnd levels w stmt misplaced) : starts beginsStatement w = true := by
  cases h with
  | expression hexpression _ =>
      exact starts_append
        (starts_mono hexpression.begins fun kind hkind => by simp [beginsStatement, hkind]) _
  | print hkeyword _ _ => simp [beginsStatement, hkeyword, opensStatement]
  | block hleft _ _ => simp [beginsStatement, hleft, opensStatement]
  | ifThen hkeyword _ _ _ _ => simp [beginsStatement, hkeyword, opensStatement]
  | ifElse hkeyword _ _ _ _ _ _ => simp [beginsStatement, hkeyword, opensStatement]
  | loop hkeyword _ _ _ _ => simp [beginsStatement, hkeyword, opensStatement]
  | forLoop hkeyword _ _ _ _ _ _ _ => simp [beginsStatement, hkeyword, opensStatement]

theorem Declaration.begins {stmt : Stmt} (h : Declaration levels w stmt misplaced) :
    starts beginsDeclaration w = true := by
  cases h with
  | declared hkeyword _ => simp [beginsDeclaration, hkeyword, Token.Kind.isKeyword]
  | statement hstatement =>
      exact starts_mono hstatement.begins fun kind hkind => by simp [beginsDeclaration, hkind]

private theorem not_var_of_beginsStatement (kind : Token.Kind) (h : beginsStatement kind = true) :
    kind.isKeyword .var = false := by
  cases kind with
  | keyword keyword => cases keyword <;> first | decide | exact absurd h (by decide)
  | _ => rfl

private theorem not_else_of_beginsDeclaration (kind : Token.Kind)
    (h : beginsDeclaration kind = true) : kind.isKeyword .«else» = false := by
  cases kind with
  | keyword keyword => cases keyword <;> first | decide | exact absurd h (by decide)
  | _ => rfl

private theorem not_rightBrace_of_beginsDeclaration (kind : Token.Kind)
    (h : beginsDeclaration kind = true) : kind.isSymbol .rightBrace = false := by
  cases kind with
  | symbol symbol => cases symbol <;> first | decide | exact absurd h (by decide)
  | _ => rfl

/-- No declaration begins with `else`. -/
theorem Declarations.not_else {body : List Stmt} {rest : List Token}
    (hrest : starts (·.isKeyword .«else») rest = false) :
    Declarations levels w body misplaced → starts (·.isKeyword .«else») (w ++ rest) = false
  | .nil => hrest
  | .cons hfirst _ => by
      rw [List.append_assoc]
      exact not_starts_append hfirst.begins not_else_of_beginsDeclaration _

/-! ## Statements -/

/-- The turns of a list of declarations read the phrase `w`. -/
def ReadsDeclarations (isLast : Token.Kind → Bool) (levels : Nat) (w : List Token)
    (body : List Stmt) (rest misplaced : List Token) : Prop :=
  ∀ reversed, ∃ reported, Turns (declarationTurn isLast (declarationAt levels)) reversed (w ++ rest)
    (body.reverse ++ reversed) rest reported ∧ Marks reported misplaced

/-- A list of declarations that ends is read as a whole. -/
theorem ReadsDeclarations.reads {isLast : Token.Kind → Bool} {body : List Stmt} {rest : List Token}
    (h : ReadsDeclarations isLast levels w body rest misplaced) :
    ReadsPhrase (declarations isLast (Grammar.expression levels) (Grammar.statement levels)) w body
      rest misplaced := by
  obtain ⟨reported, hturns, hmarks⟩ := h []
  refine ⟨reported, ?_, hmarks⟩
  exact (reads_declarations (orderly_declarationAt levels) (consumes_declarationAt levels)).2
    (by simpa using hturns)

mutual

theorem Statement.reads {openEnd : Bool} {levels : Nat} {w misplaced : List Token} {stmt : Stmt}
    (rest : List Token) (hopen : openEnd = true → starts (·.isKeyword .«else») rest = false) :
    Statement openEnd levels w stmt misplaced →
      ReadsPhrase (Grammar.statement levels) w stmt rest misplaced
  | @Statement.expression levels semicolon w _ expr hexpression hsemicolon => by
      obtain ⟨reported, hread, hmarks⟩ :=
        hexpression.reads (semicolon :: rest) (endsExpression_semicolon rest hsemicolon)
      have hnot := not_starts_append hexpression.begins
        (fun kind h => (otherwise_of_beginsExpression kind h).2.2.2) (semicolon :: rest)
      have hstmt : (expressionStatement (Grammar.expression levels)).Reads (w ++ semicolon :: rest)
          (.expression expr) rest reported :=
        reads_closed.2 ⟨expr, semicolon, hread, hsemicolon, rfl⟩
      refine ⟨reported, ?_, hmarks⟩
      rw [List.append_assoc]
      exact reads_statement.2 ⟨levels, rfl, reads_statementBody.2 (.inr ⟨hnot, hstmt⟩)⟩
  | @Statement.print levels _ semicolon w _ expr hkeyword hexpression hsemicolon => by
      obtain ⟨reported, hread, hmarks⟩ :=
        hexpression.reads (semicolon :: rest) (endsExpression_semicolon rest hsemicolon)
      have hstmt : (printStatement (Grammar.expression levels)).Reads (w ++ [semicolon] ++ rest)
          (.print expr) rest reported :=
        reads_closed.2 ⟨expr, semicolon, by simpa using hread, hsemicolon, rfl⟩
      exact ⟨reported, reads_statement_of_eq_some (by rw [hkeyword]; rfl) hstmt, hmarks⟩
  | @Statement.block levels _ right w _ body hleft hbody hright => by
      have hends : starts (·.isSymbol .rightBrace) (right :: rest) = true := by
        simp [hright, Token.Kind.isSymbol]
      have helse : starts (·.isKeyword .«else») (right :: rest) = false := by
        simp [hright, Token.Kind.isKeyword]
      have hturns := hbody.turns (·.isSymbol .rightBrace) (right :: rest) (.inr hends)
        not_rightBrace_of_beginsDeclaration helse
      obtain ⟨reported, hread, hmarks⟩ := hturns.reads
      have hstmt : (block (Grammar.expression levels) (Grammar.statement levels)).Reads
          (w ++ [right] ++ rest) (.block body) rest reported :=
        reads_closed.2 ⟨body, right, by simpa using hread, hright, rfl⟩
      exact ⟨reported, reads_statement_of_eq_some (by rw [hleft]; rfl) hstmt, hmarks⟩
  | @Statement.ifThen _ _ _ left right w v _ _ condition thenBranch hkeyword hleft hcondition hright
      hthen => by
      have hnot := hopen rfl
      obtain ⟨first, hread, hfirst⟩ :=
        hcondition.reads (right :: (v ++ rest)) (endsExpression_rightParen _ hright)
      obtain ⟨second, hbranch, hsecond⟩ := hthen.reads rest fun _ => hnot
      refine ⟨first ++ second, ?_, hfirst.append hsecond⟩
      refine reads_statement_of_eq_some (by rw [hkeyword]; rfl) ?_
      refine reads_expectSymbol_bind.2 ⟨left, _, rfl, hleft, ?_⟩
      refine reads_closed_bind.2 ⟨condition, right, v ++ rest, first, second, ?_, hright, ?_, rfl⟩
      · simpa using hread
      · refine reads_bind.2 ⟨thenBranch, rest, second, #[], hbranch, ?_, by simp⟩
        exact reads_takeIf_bind.2 (.inr ⟨hnot, reads_pure.2 ⟨rfl, rfl, rfl⟩⟩)
  | @Statement.ifElse _ _ _ left right other w v u _ _ _ condition thenBranch elseBranch hkeyword
      hleft hcondition hright hthen hother helse => by
      obtain ⟨first, hread, hfirst⟩ := hcondition.reads (right :: (v ++ other :: (u ++ rest)))
        (endsExpression_rightParen _ hright)
      -- the statement before the `else` is not open, so it may be followed by one
      obtain ⟨second, hbranch, hsecond⟩ := hthen.reads (other :: (u ++ rest)) (by simp)
      obtain ⟨third, hlast, hthird⟩ := helse.reads rest hopen
      have hmarks := (hfirst.append hsecond).append hthird
      rw [Array.append_assoc] at hmarks
      refine ⟨first ++ (second ++ third), ?_, hmarks⟩
      refine reads_statement_of_eq_some (by rw [hkeyword]; rfl) ?_
      refine reads_expectSymbol_bind.2 ⟨left, _, rfl, hleft, ?_⟩
      refine reads_closed_bind.2 ⟨condition, right, v ++ other :: (u ++ rest), first,
        second ++ third, ?_, hright, ?_, rfl⟩
      · simpa using hread
      · refine reads_bind.2 ⟨thenBranch, other :: (u ++ rest), second, third, hbranch, ?_, rfl⟩
        refine reads_takeIf_bind.2 (.inl ⟨other, u ++ rest, rfl, by simpa using hother, ?_⟩)
        exact reads_map.2 ⟨elseBranch, hlast, rfl⟩
  | @Statement.loop _ _ _ left right w v _ _ condition body hkeyword hleft hcondition hright
      hbody => by
      obtain ⟨first, hread, hfirst⟩ :=
        hcondition.reads (right :: (v ++ rest)) (endsExpression_rightParen _ hright)
      obtain ⟨second, hinner, hsecond⟩ := hbody.reads rest hopen
      refine ⟨first ++ second, ?_, hfirst.append hsecond⟩
      refine reads_statement_of_eq_some (by rw [hkeyword]; rfl) ?_
      refine reads_expectSymbol_bind.2 ⟨left, _, rfl, hleft, ?_⟩
      refine reads_closed_bind.2 ⟨condition, right, v ++ rest, first, second, ?_, hright, ?_, rfl⟩
      · simpa using hread
      · exact reads_map.2 ⟨body, hinner, rfl⟩
  | @Statement.forLoop _ _ _ left semicolon right w v u s _ _ _ _ initializer condition increment
      body hkeyword hleft hinitializer hcondition hsemicolon hincrement hright hbody => by
      obtain ⟨first, hinit, hfirst⟩ :=
        hinitializer.reads (v ++ semicolon :: (u ++ right :: (s ++ rest)))
      obtain ⟨second, hcond, hsecond⟩ :=
        hcondition.reads (u ++ right :: (s ++ rest)) hsemicolon
      obtain ⟨third, hincr, hthird⟩ := hincrement.reads (s ++ rest) hright
      obtain ⟨fourth, hinner, hfourth⟩ := hbody.reads rest hopen
      have hmarks := ((hfirst.append hsecond).append hthird).append hfourth
      rw [Array.append_assoc, Array.append_assoc] at hmarks
      refine ⟨first ++ (second ++ (third ++ fourth)), ?_, hmarks⟩
      refine reads_statement_of_eq_some (by rw [hkeyword]; rfl) ?_
      refine reads_forStatement.2 ⟨left, initializer, condition, semicolon, increment, right, body,
        _, _, _, _, first, second, third, fourth, rfl, hleft, ?_, hcond, hsemicolon, hincr, hright,
        hinner, rfl, rfl⟩
      simpa using hinit

theorem Declaration.reads {levels : Nat} {w misplaced : List Token} {stmt : Stmt}
    (rest : List Token) (helse : starts (·.isKeyword .«else») rest = false) :
    Declaration levels w stmt misplaced → ReadsPhrase (declarationAt levels) w stmt rest misplaced
  | @Declaration.declared _ keyword w _ _ hkeyword hvariable => by
      obtain ⟨reported, hread, hmarks⟩ := hvariable.reads rest
      refine ⟨reported, reads_takeIf_bind.2 (.inl ?_), hmarks⟩
      exact ⟨keyword, w ++ rest, rfl, by simpa using hkeyword, hread⟩
  | .statement hstatement => by
      obtain ⟨reported, hread, hmarks⟩ := hstatement.reads rest fun _ => helse
      have hnot := not_starts_append hstatement.begins not_var_of_beginsStatement rest
      exact ⟨reported, reads_takeIf_bind.2 (.inr ⟨hnot, hread⟩), hmarks⟩

theorem Declarations.turns {levels : Nat} {w misplaced : List Token} {body : List Stmt}
    (isLast : Token.Kind → Bool) (rest : List Token) (hend : rest = [] ∨ starts isLast rest = true)
    (hlast : ∀ kind, beginsDeclaration kind = true → isLast kind = false)
    (helse : starts (·.isKeyword .«else») rest = false) :
    Declarations levels w body misplaced → ReadsDeclarations isLast levels w body rest misplaced
  | .nil => fun reversed => ⟨#[], .done (declarationTurn_eq_none_iff.2 hend), by simp⟩
  | @Declarations.cons _ w v _ _ stmt _ hfirst hbody => by
      intro reversed
      obtain ⟨before, hread, hbefore⟩ := hfirst.reads (v ++ rest) (hbody.not_else helse)
      obtain ⟨after, hturns, hafter⟩ := hbody.turns isLast rest hend hlast helse (stmt :: reversed)
      have hnot := not_starts_append hfirst.begins hlast (v ++ rest)
      have hne : w ++ (v ++ rest) ≠ [] := by
        intro hnil
        have hbegins := starts_append hfirst.begins (v ++ rest)
        simp [hnil] at hbegins
      have hturn : declarationTurn isLast (declarationAt levels) reversed (w ++ (v ++ rest)) =
          some ⟨.ok (stmt :: reversed), v ++ rest, before⟩ :=
        declarationTurn_eq_some_iff.2 ⟨hne, hnot, .inl ⟨stmt, hread, rfl⟩⟩
      refine ⟨before ++ after, ?_, hbefore.append hafter⟩
      rw [List.append_assoc, List.reverse_cons, List.append_assoc]
      exact .turn hturn hturns

end

end Phrase

end Lox
