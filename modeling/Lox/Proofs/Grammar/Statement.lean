import Lox.Grammar.Statement
import Lox.Proofs.Grammar.Expression

/-!
# When the rules for statements read

For each rule for statements and declarations: when it reads, and that it goes
forward.  A declaration that is given up leaves less than it was given
(`takesTokens_declarationTurn`), so a list of declarations comes to an end.
-/

namespace Lox.Grammar

open Rule

variable {expression : Rule Expr} {statement : Rule Stmt} {tokens rest : List Token} {stmt : Stmt}
  {reported : Array Fault}

/-! ## Statements with clauses -/

/-- A declaration has a name, perhaps an initializer, and a semicolon. -/
theorem reads_varDeclaration :
    (varDeclaration expression).Reads tokens stmt rest reported ↔
      ∃ name tail, tokens = name :: tail ∧ isIdentifier name.kind = true ∧
        ((∃ semicolon, tail = semicolon :: rest ∧ semicolon.kind = .symbol .semicolon ∧
            stmt = .var name none ∧ reported = #[]) ∨
          ∃ equals tail' initializer semicolon, tail = equals :: tail' ∧
            equals.kind = .symbol .equal ∧
            expression.Reads tail' initializer (semicolon :: rest) reported ∧
            semicolon.kind = .symbol .semicolon ∧ stmt = .var name (some initializer)) := by
  simp only [varDeclaration, reads_expect_bind, reads_takeIf_bind, reads_expectSymbol_bind,
    reads_closed, reads_pure, Token.Kind.isSymbol_iff]
  refine exists_congr fun name => exists_congr fun tail => and_congr_right fun _ =>
    and_congr_right fun _ => ?_
  constructor
  · rintro (⟨equals, tail', rfl, hequals, initializer, semicolon, hread, hsemicolon, rfl⟩ |
      ⟨_, semicolon, _, rfl, hsemicolon, rfl, rfl, rfl⟩)
    · exact .inr ⟨equals, tail', initializer, semicolon, rfl, hequals, hread, hsemicolon, rfl⟩
    · exact .inl ⟨semicolon, rfl, hsemicolon, rfl, rfl⟩
  · rintro (⟨semicolon, rfl, hsemicolon, rfl, rfl⟩ |
      ⟨equals, tail', initializer, semicolon, rfl, hequals, hread, hsemicolon, rfl⟩)
    · exact .inr ⟨by simp [hsemicolon, Token.Kind.isSymbol], semicolon, rest, rfl, hsemicolon, rfl,
        rfl, rfl⟩
    · exact .inl ⟨equals, tail', rfl, hequals, initializer, semicolon, hread, hsemicolon, rfl⟩

/-- A `for` statement has its three clauses in parentheses, and then a body. -/
theorem reads_forStatement :
    (forStatement expression statement).Reads tokens stmt rest reported ↔
      ∃ left initializer condition semicolon increment right body,
        ∃ w v u s first second third fourth,
          tokens = left :: w ∧ left.kind = .symbol .leftParen ∧
            (forInitializer expression).Reads w initializer v first ∧
            (forCondition expression).Reads v condition (semicolon :: u) second ∧
            semicolon.kind = .symbol .semicolon ∧
            (forIncrement expression).Reads u increment (right :: s) third ∧
            right.kind = .symbol .rightParen ∧ statement.Reads s body rest fourth ∧
            stmt = .forLoop initializer condition increment body ∧
            reported = first ++ (second ++ (third ++ fourth)) := by
  constructor
  · intro h
    obtain ⟨left, w, rfl, hleft, hinside⟩ := reads_expectSymbol_bind.1 h
    obtain ⟨initializer, v, first, _, hinit, hsecond, rfl⟩ := reads_bind.1 hinside
    obtain ⟨condition, semicolon, u, second, _, hcond, hsemicolon, hthird, rfl⟩ :=
      reads_closed_bind.1 hsecond
    obtain ⟨increment, right, s, third, fourth, hincr, hright, hlast, rfl⟩ :=
      reads_closed_bind.1 hthird
    obtain ⟨body, hbody, rfl⟩ := reads_map.1 hlast
    exact ⟨left, initializer, condition, semicolon, increment, right, body, w, v, u, s, first,
      second, third, fourth, rfl, hleft, hinit, hcond, hsemicolon, hincr, hright, hbody, rfl, rfl⟩
  · rintro ⟨left, initializer, condition, semicolon, increment, right, body, w, v, u, s, first,
      second, third, fourth, rfl, hleft, hinit, hcond, hsemicolon, hincr, hright, hbody, rfl, rfl⟩
    refine reads_expectSymbol_bind.2 ⟨left, w, rfl, hleft, ?_⟩
    refine hinit.bind ?_
    refine reads_closed_bind.2 ⟨condition, semicolon, u, second, _, hcond, hsemicolon, ?_, rfl⟩
    refine reads_closed_bind.2 ⟨increment, right, s, third, fourth, hincr, hright, ?_, rfl⟩
    exact reads_map.2 ⟨body, hbody, rfl⟩

/-! ## Forward -/

theorem orderly_varDeclaration (hexpression : expression.Orderly) :
    (varDeclaration expression).Orderly := by
  refine orderly_bind (orderly_expect _ (by decide)) fun name =>
    orderly_bind (orderly_takeIf _) fun taken => ?_
  cases taken with
  | none => exact orderly_bind (orderly_expectSymbol _ (by decide)) fun _ => orderly_pure _
  | some equals => exact orderly_closed hexpression _ (by decide) fun _ => orderly_pure _

theorem orderly_expressionStatement (hexpression : expression.Orderly) :
    (expressionStatement expression).Orderly :=
  orderly_closed hexpression _ (by decide) fun _ => orderly_pure _

theorem orderly_printStatement (hexpression : expression.Orderly) :
    (printStatement expression).Orderly :=
  orderly_closed hexpression _ (by decide) fun _ => orderly_pure _

theorem orderly_ifStatement (hexpression : expression.Orderly) (hstatement : statement.Orderly) :
    (ifStatement expression statement).Orderly := by
  refine orderly_bind (orderly_expectSymbol _ (by decide)) fun _ =>
    orderly_closed hexpression _ (by decide) fun condition =>
      orderly_bind hstatement fun thenBranch => orderly_bind (orderly_takeIf _) fun taken => ?_
  cases taken with
  | none => exact orderly_pure _
  | some other => exact orderly_bind hstatement fun _ => orderly_pure _

theorem orderly_whileStatement (hexpression : expression.Orderly) (hstatement : statement.Orderly) :
    (whileStatement expression statement).Orderly :=
  orderly_bind (orderly_expectSymbol _ (by decide)) fun _ =>
    orderly_closed hexpression _ (by decide) fun _ =>
      orderly_bind hstatement fun _ => orderly_pure _

theorem orderly_forInitializer (hexpression : expression.Orderly) :
    (forInitializer expression).Orderly := by
  refine orderly_bind (orderly_takeIf _) fun taken => ?_
  cases taken with
  | some semicolon => exact orderly_pure none
  | none =>
      refine orderly_bind (orderly_takeIf _) fun taken => ?_
      cases taken with
      | some keyword =>
          exact orderly_bind (orderly_varDeclaration hexpression) fun _ => orderly_pure _
      | none => exact orderly_bind (orderly_expressionStatement hexpression) fun _ => orderly_pure _

theorem orderly_forCondition (hexpression : expression.Orderly) :
    (forCondition expression).Orderly := by
  refine orderly_bind (orderly_nextIs _) fun absent => ?_
  cases absent with
  | true => exact orderly_pure _
  | false => exact hexpression

theorem orderly_forIncrement (hexpression : expression.Orderly) :
    (forIncrement expression).Orderly := by
  refine orderly_bind (orderly_nextIs _) fun absent => ?_
  cases absent with
  | true => exact orderly_pure _
  | false => exact orderly_bind hexpression fun _ => orderly_pure _

theorem orderly_forStatement (hexpression : expression.Orderly) (hstatement : statement.Orderly) :
    (forStatement expression statement).Orderly :=
  orderly_bind (orderly_expectSymbol _ (by decide)) fun _ =>
    orderly_bind (orderly_forInitializer hexpression) fun _ =>
      orderly_closed (orderly_forCondition hexpression) _ (by decide) fun _ =>
        orderly_closed (orderly_forIncrement hexpression) _ (by decide) fun _ =>
          orderly_bind hstatement fun _ => orderly_pure _

theorem orderly_declaration (hexpression : expression.Orderly) (hstatement : statement.Orderly) :
    (declaration expression statement).Orderly := by
  refine orderly_bind (orderly_takeIf _) fun taken => ?_
  cases taken with
  | some keyword => exact orderly_varDeclaration hexpression
  | none => exact hstatement

/-! ## Recovery -/

theorem resume_suffix (tokens : List Token) : resume tokens <:+ tokens := by
  fun_induction resume tokens with
  | case1 => exact List.suffix_refl []
  | case2 token rest h => exact List.suffix_cons token rest
  | case3 token h => exact List.nil_suffix
  | case4 token h next tail hstarter => exact List.suffix_cons token _
  | case5 token h next tail hstarter ih => exact ih.trans (List.suffix_cons token _)

/-- Of tokens that are given up at least one is dropped. -/
theorem length_resume_lt {token : Token} {tail : List Token} :
    (resume (token :: tail)).length < (token :: tail).length := by
  have hle : (resume (token :: tail)).length ≤ tail.length := by
    unfold resume
    split
    · exact Nat.le_refl _
    · split
      · exact Nat.le_refl _
      · split
        · exact Nat.le_refl _
        · exact (resume_suffix _).length_le
  exact Nat.lt_succ_of_le hle

theorem reads_recovering {α : Type} {rule : Rule α} {found : Option α} :
    (recovering rule).Reads tokens found rest reported ↔
      (∃ a, found = some a ∧ rule.Reads tokens a rest reported) ∨
        ∃ fault left before, found = none ∧ rule.Stops tokens fault left before ∧
          rest = resume left ∧ reported = before.push fault := by
  unfold Reads Stops recovering
  rcases rule tokens with ⟨fault | a, left, before⟩
  · constructor
    · rintro ⟨⟩
      exact .inr ⟨fault, left, before, rfl, rfl, rfl, rfl⟩
    · rintro (⟨_, _, ⟨⟩⟩ | ⟨_, _, _, rfl, ⟨⟩, rfl, rfl⟩)
      rfl
  · constructor
    · rintro ⟨⟩
      exact .inl ⟨a, rfl, rfl⟩
    · rintro (⟨_, rfl, ⟨⟩⟩ | ⟨_, _, _, _, ⟨⟩, _⟩)
      rfl

theorem orderly_recovering {α : Type} {rule : Rule α} (hrule : rule.Orderly) :
    (recovering rule).Orderly := by
  intro tokens
  have h := hrule tokens
  unfold recovering
  generalize rule tokens = parsed at h
  rcases parsed with ⟨fault | a, left, before⟩
  · exact .of_ok ((resume_suffix left).trans h.suffix)
  · exact .of_ok h.suffix

/-! ## Lists of declarations -/

/-- One turn of a list of declarations, which keeps the last that was read first. -/
def declarationTurn (isLast : Token.Kind → Bool) (rule : Rule Stmt) (reversed : List Stmt) :
    List Token → Option (Parsed (List Stmt))
  | [] => none
  | token :: tail =>
      if isLast token.kind then none
      else
        some ((do
          match ← recovering rule with
          | some stmt => return stmt :: reversed
          | none => return reversed : Rule (List Stmt)) (token :: tail))

variable {isLast : Token.Kind → Bool} {rule : Rule Stmt} {reversed next : List Stmt}
  {mid : List Token}

theorem declarationTurn_eq_none_iff :
    declarationTurn isLast rule reversed tokens = none ↔
      tokens = [] ∨ starts isLast tokens = true := by
  cases tokens with
  | nil => simp [declarationTurn]
  | cons token tail => simp [declarationTurn]

theorem declarationTurn_eq_some_iff :
    declarationTurn isLast rule reversed tokens = some ⟨.ok next, mid, reported⟩ ↔
      tokens ≠ [] ∧ starts isLast tokens = false ∧
        ((∃ stmt, rule.Reads tokens stmt mid reported ∧ next = stmt :: reversed) ∨
          ∃ fault left before, rule.Stops tokens fault left before ∧ mid = resume left ∧
            reported = before.push fault ∧ next = reversed) := by
  cases tokens with
  | nil => simp [declarationTurn]
  | cons token tail =>
      unfold declarationTurn
      rw [Option.ite_none_left_eq_some, Option.some.injEq]
      refine Iff.trans (and_congr_right fun _ => reads_bind) ?_
      simp only [starts_cons, Bool.not_eq_true, ne_eq, reduceCtorEq, not_false_eq_true, true_and]
      refine and_congr_right fun _ => ?_
      constructor
      · rintro ⟨found, left, before, after, hfound, hpure, rfl⟩
        rcases reads_recovering.1 hfound with ⟨stmt, rfl, hread⟩ |
          ⟨fault, left, before, rfl, hstop, rfl, rfl⟩
        · obtain ⟨rfl, rfl, rfl⟩ := reads_pure.1 hpure
          exact .inl ⟨stmt, by simpa using hread, rfl⟩
        · obtain ⟨rfl, rfl, rfl⟩ := reads_pure.1 hpure
          exact .inr ⟨fault, left, before, hstop, rfl, by simp, rfl⟩
      · rintro (⟨stmt, hread, rfl⟩ | ⟨fault, left, before, hstop, rfl, rfl, rfl⟩)
        · have hfound := reads_recovering.2 (.inl ⟨stmt, rfl, hread⟩)
          exact ⟨some stmt, mid, reported, #[], hfound, reads_pure.2 ⟨rfl, rfl, rfl⟩, by simp⟩
        · have hfound := reads_recovering.2 (.inr ⟨fault, left, before, rfl, hstop, rfl, rfl⟩)
          exact ⟨none, _, _, #[], hfound, reads_pure.2 ⟨rfl, rfl, rfl⟩, by simp⟩

/-- A declaration that is given up leaves less than it was given, too. -/
theorem takesTokens_declarationTurn (hrule : rule.Orderly) (hconsumes : rule.Consumes) :
    TakesTokens (declarationTurn isLast rule) where
  none_of_nil reversed := rfl
  shorter := by
    intro reversed tokens next mid before hstep
    obtain ⟨hne, _, ⟨stmt, hread, _⟩ | ⟨fault, left, _, hstop, rfl, _⟩⟩ :=
      declarationTurn_eq_some_iff.1 hstep
    · exact hconsumes hread
    · -- the fault may be at the first token, but then recovery drops that one
      have hle : left.length ≤ tokens.length := by
        have hsuffix := (hrule tokens).suffix
        rw [hstop] at hsuffix
        exact hsuffix.length_le
      cases left with
      | nil => exact List.length_pos_iff.2 hne
      | cons token tail => exact Nat.lt_of_lt_of_le length_resume_lt hle

theorem declarations_eq :
    declarations isLast expression statement =
      repeating (declarationTurn isLast (declaration expression statement)) [] >>=
        fun reversed => pure reversed.reverse := by
  unfold declarations
  congr 2
  funext reversed tokens
  cases tokens with
  | nil => rfl
  | cons token tail => rfl

/-- What a list of declarations reads is what its turns read. -/
theorem reads_declarations {body : List Stmt} (hrule : (declaration expression statement).Orderly)
    (hconsumes : (declaration expression statement).Consumes) :
    (declarations isLast expression statement).Reads tokens body rest reported ↔
      Turns (declarationTurn isLast (declaration expression statement)) [] tokens body.reverse rest
        reported := by
  rw [declarations_eq, reads_map, ← reads_repeating (takesTokens_declarationTurn hrule hconsumes)]
  constructor
  · rintro ⟨reversed, hread, rfl⟩
    simpa using hread
  · exact fun hread => ⟨body.reverse, hread, by simp⟩

theorem orderly_declarations (hrule : (declaration expression statement).Orderly) :
    (declarations isLast expression statement).Orderly := by
  rw [declarations_eq]
  refine orderly_bind (orderly_repeating ?_ []) fun reversed => orderly_pure _
  intro reversed tokens next hstep
  cases tokens with
  | nil => simp [declarationTurn] at hstep
  | cons token tail =>
      unfold declarationTurn at hstep
      rw [Option.ite_none_left_eq_some, Option.some.injEq] at hstep
      obtain ⟨_, rfl⟩ := hstep
      refine orderly_bind (orderly_recovering hrule) (fun found => ?_) _
      cases found with
      | none => exact orderly_pure reversed
      | some stmt => exact orderly_pure _

theorem orderly_block (hrule : (declaration expression statement).Orderly) :
    (block expression statement).Orderly :=
  orderly_closed (orderly_declarations hrule) _ (by decide) fun _ => orderly_pure _

/-! ## Nesting -/

/-- The rule for what follows the first token of a statement, unless it is an expression. -/
def statementAfter? (expression : Rule Expr) (statement : Rule Stmt) :
    Token.Kind → Option (Rule Stmt)
  | .keyword .«if» => some (ifStatement expression statement)
  | .keyword .print => some (printStatement expression)
  | .symbol .leftBrace => some (block expression statement)
  | .keyword .«while» => some (whileStatement expression statement)
  | .keyword .«for» => some (forStatement expression statement)
  | _ => none

/-- The tokens that begin a statement other than an expression. -/
def opensStatement : Token.Kind → Bool
  | .keyword .«if» | .keyword .print | .symbol .leftBrace | .keyword .«while»
  | .keyword .«for» => true
  | _ => false

theorem isSome_statementAfter? (expression : Rule Expr) (statement : Rule Stmt) (kind : Token.Kind) :
    (statementAfter? expression statement kind).isSome = opensStatement kind := by
  unfold opensStatement
  split <;> simp_all [statementAfter?]

section

variable {token : Token} {tail : List Token} {inside : Rule Stmt}

private theorem statementBody_cons :
    statementBody expression statement (token :: tail) =
      match token.kind with
      | .keyword .«if» => ifStatement expression statement tail
      | .keyword .print => printStatement expression tail
      | .symbol .leftBrace => block expression statement tail
      | .keyword .«while» => whileStatement expression statement tail
      | .keyword .«for» => forStatement expression statement tail
      | _ => expressionStatement expression (token :: tail) := rfl

theorem statementBody_of_eq_some
    (h : statementAfter? expression statement token.kind = some inside) :
    statementBody expression statement (token :: tail) = inside tail := by
  rw [statementBody_cons]
  split <;> simp_all [statementAfter?]

theorem statementBody_of_eq_none
    (h : statementAfter? expression statement token.kind = none) :
    statementBody expression statement (token :: tail) =
      expressionStatement expression (token :: tail) := by
  rw [statementBody_cons]
  split <;> simp_all [statementAfter?]

end

/-- The first token tells which kind of statement it is. -/
theorem statementBody_iff (P : Parsed Stmt → Prop) :
    P (statementBody expression statement tokens) ↔
      (∃ token tail inside, tokens = token :: tail ∧
        statementAfter? expression statement token.kind = some inside ∧ P (inside tail)) ∨
      (starts opensStatement tokens = false ∧ P (expressionStatement expression tokens)) := by
  cases tokens with
  | nil =>
      constructor
      · exact fun h => .inr ⟨rfl, h⟩
      · rintro (⟨_, _, _, ⟨⟩, _⟩ | ⟨_, h⟩)
        exact h
  | cons token tail =>
      have hopens := isSome_statementAfter? expression statement token.kind
      cases hafter : statementAfter? expression statement token.kind with
      | none =>
          rw [hafter] at hopens
          rw [statementBody_of_eq_none hafter]
          constructor
          · exact fun h => .inr ⟨hopens.symm, h⟩
          · rintro (⟨_, _, _, ⟨⟩, hsome, _⟩ | ⟨_, h⟩)
            · rw [hafter] at hsome
              cases hsome
            · exact h
      | some inside =>
          rw [hafter] at hopens
          rw [statementBody_of_eq_some hafter]
          constructor
          · exact fun h => .inl ⟨token, tail, inside, rfl, hafter, h⟩
          · rintro (⟨_, _, _, ⟨⟩, hsome, h⟩ | ⟨hstarts, _⟩)
            · rw [hafter] at hsome
              cases hsome
              exact h
            · rw [starts_cons, ← hopens] at hstarts
              cases hstarts

theorem reads_statementBody :
    (statementBody expression statement).Reads tokens stmt rest reported ↔
      (∃ token tail inside, tokens = token :: tail ∧
        statementAfter? expression statement token.kind = some inside ∧
        inside.Reads tail stmt rest reported) ∨
      (starts opensStatement tokens = false ∧
        (expressionStatement expression).Reads tokens stmt rest reported) :=
  statementBody_iff fun parsed => parsed = ⟨.ok stmt, rest, reported⟩

theorem orderly_statementAfter? (hexpression : expression.Orderly) (hstatement : statement.Orderly)
    {kind : Token.Kind} {inside : Rule Stmt}
    (h : statementAfter? expression statement kind = some inside) : inside.Orderly := by
  unfold statementAfter? at h
  split at h <;> cases h
  · exact orderly_ifStatement hexpression hstatement
  · exact orderly_printStatement hexpression
  · exact orderly_block (orderly_declaration hexpression hstatement)
  · exact orderly_whileStatement hexpression hstatement
  · exact orderly_forStatement hexpression hstatement

theorem orderly_statementBody (hexpression : expression.Orderly) (hstatement : statement.Orderly) :
    (statementBody expression statement).Orderly := by
  intro tokens
  cases tokens with
  | nil => exact orderly_expressionStatement hexpression []
  | cons token tail =>
      cases hafter : statementAfter? expression statement token.kind with
      | none =>
          rw [statementBody_of_eq_none hafter]
          exact orderly_expressionStatement hexpression _
      | some inside =>
          have hinside := orderly_statementAfter? hexpression hstatement hafter
          rw [statementBody_of_eq_some hafter]
          exact (hinside tail).mono (List.suffix_cons token tail)

theorem consumes_statementBody (hexpression : expression.Orderly) (hstatement : statement.Orderly) :
    (statementBody expression statement).Consumes := by
  intro tokens stmt rest reported h
  rcases reads_statementBody.1 h with ⟨token, tail, inside, rfl, hafter, h⟩ | ⟨_, h⟩
  · have hinside := orderly_statementAfter? hexpression hstatement hafter
    exact Nat.lt_succ_of_le (hinside.length_le h)
  · -- the rule for the expression need not take a token, but the semicolon is one
    obtain ⟨expr, semicolon, hread, _⟩ := reads_closed.1 h
    exact hexpression.length_le hread

theorem consumes_declaration (hexpression : expression.Orderly) (hstatement : statement.Consumes) :
    (declaration expression statement).Consumes := by
  intro tokens stmt rest reported h
  rcases reads_takeIf_bind.1 h with ⟨keyword, tail, rfl, _, h⟩ | ⟨_, h⟩
  · exact Nat.lt_succ_of_le ((orderly_varDeclaration hexpression).length_le h)
  · exact hstatement h

theorem reads_statement {levels : Nat} :
    (Grammar.statement levels).Reads tokens stmt rest reported ↔
      ∃ inner, levels = inner + 1 ∧
        (statementBody (Grammar.expression inner) (Grammar.statement inner)).Reads tokens stmt rest
          reported := by
  cases levels with
  | zero => simp [Grammar.statement]
  | succ inner =>
      constructor
      · exact fun h => ⟨inner, rfl, h⟩
      · rintro ⟨_, heq, h⟩
        cases heq
        exact h

/-- After its first token a statement that is no expression is read by the rule for the rest. -/
theorem reads_statement_of_eq_some {levels : Nat} {token : Token} {tail : List Token}
    {inside : Rule Stmt}
    (hafter : statementAfter? (Grammar.expression levels) (Grammar.statement levels) token.kind =
      some inside)
    (h : inside.Reads tail stmt rest reported) :
    (Grammar.statement (levels + 1)).Reads (token :: tail) stmt rest reported := by
  have hbody := reads_statementBody.2 (.inl ⟨token, tail, inside, rfl, hafter, h⟩)
  exact reads_statement.2 ⟨levels, rfl, hbody⟩

theorem orderly_statement (levels : Nat) : (Grammar.statement levels).Orderly := by
  induction levels with
  | zero => exact orderly_fail (by decide)
  | succ levels ih => exact orderly_statementBody (orderly_expression levels) ih

theorem consumes_statement (levels : Nat) : (Grammar.statement levels).Consumes := by
  intro tokens stmt rest reported h
  obtain ⟨inner, _, h⟩ := reads_statement.1 h
  exact consumes_statementBody (orderly_expression inner) (orderly_statement inner) h

/-- The rule for declarations inside so many levels. -/
abbrev declarationAt (levels : Nat) : Rule Stmt :=
  declaration (Grammar.expression levels) (Grammar.statement levels)

theorem orderly_declarationAt (levels : Nat) : (declarationAt levels).Orderly :=
  orderly_declaration (orderly_expression levels) (orderly_statement levels)

theorem consumes_declarationAt (levels : Nat) : (declarationAt levels).Consumes :=
  consumes_declaration (orderly_expression levels) (consumes_statement levels)

end Lox.Grammar
