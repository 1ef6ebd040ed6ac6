import Lox.Grammar.Expression
import Lox.Proofs.Grammar.Progress

/-!
# When the rules for expressions read

For each rule for expressions: when it reads, and that it goes forward.  The
levels of binary operators are one rule, `leftAssoc`, applied once for each
`Level`, so there is one lemma for all of them.
-/

namespace Lox.Grammar

open Rule

/-- The levels of operators between two operands. -/
inductive Level
  | or
  | and
  | equality
  | comparison
  | term
  | factor
deriving DecidableEq

namespace Level

/-- The levels in order, those that bind loosest first. -/
def all : List Level := [.or, .and, .equality, .comparison, .term, .factor]

/-- The operators of a level. -/
def isOperator : Level → Token.Kind → Bool
  | .or => (·.isKeyword .or)
  | .and => (·.isKeyword .and)
  | .equality => isEquality
  | .comparison => isComparison
  | .term => isTerm
  | .factor => isFactor

/-- The tree of an operator with its operands. -/
def node : Level → Expr → Token → Expr → Expr
  | .or | .and => .logical
  | .equality | .comparison | .term | .factor => .binary

theorem node_ne_variable (level : Level) {left right : Expr} {operator name : Token} :
    level.node left operator right ≠ .variable name := by
  cases level <;> simp [node]

/-- The level to which a kind of token belongs as an operator. -/
def ofKind? : Token.Kind → Option Level
  | .keyword .or => some .or
  | .keyword .and => some .and
  | .symbol .bangEqual | .symbol .equalEqual => some .equality
  | .symbol .greater | .symbol .greaterEqual | .symbol .less | .symbol .lessEqual =>
      some .comparison
  | .symbol .minus | .symbol .plus => some .term
  | .symbol .slash | .symbol .star => some .factor
  | _ => none

theorem isOperator_iff {level : Level} {kind : Token.Kind} :
    level.isOperator kind = true ↔ ofKind? kind = some level := by
  cases kind with
  | symbol symbol => cases symbol <;> cases level <;> decide
  | keyword keyword => cases keyword <;> cases level <;> decide
  | _ => cases level <;> simp [isOperator, ofKind?, isEquality, isComparison, isTerm, isFactor,
      Token.Kind.isKeyword]

/-- No operator belongs to two levels. -/
theorem eq_of_isOperator {first second : Level} {kind : Token.Kind}
    (hfirst : first.isOperator kind = true) (hsecond : second.isOperator kind = true) :
    first = second := by
  rw [isOperator_iff] at hfirst hsecond
  rw [hfirst] at hsecond
  exact Option.some.inj hsecond

/-- The rule for some levels, over the rule for what they connect. -/
def rule : List Level → Rule Expr → Rule Expr
  | [], operand => operand
  | level :: tighter, operand =>
      leftAssoc level.isOperator level.node (rule tighter operand)

theorem operators_eq_rule (operand : Rule Expr) : operators operand = rule all operand := by
  simp only [operators, rule, all, isOperator, node]

end Level

variable {operand expression : Rule Expr} {tokens rest : List Token} {expr : Expr}
  {reported : Array Fault}

/-! ## Primary expressions -/

theorem isIdentifier_iff {kind : Token.Kind} :
    isIdentifier kind = true ↔ ∃ name, kind = .identifier name := by
  cases kind <;> simp [isIdentifier]

theorem primary_cons (expression : Rule Expr) (token : Token) (rest : List Token) :
    primary expression (token :: rest) =
      match literal? token.kind, token.kind with
      | some value, _ => ⟨.ok (.literal value), rest, #[]⟩
      | none, .identifier _ => ⟨.ok (.variable token), rest, #[]⟩
      | none, .symbol .leftParen =>
          (do
            let inner ← expression
            expectSymbol .rightParen .unclosedGrouping
            return .grouping inner : Rule Expr) rest
      | none, _ => fail .missingExpression (token :: rest) := rfl

/-- A primary expression is a literal, a name, or an expression in parentheses. -/
theorem reads_primary :
    (primary expression).Reads tokens expr rest reported ↔
      ∃ token tail, tokens = token :: tail ∧
        ((∃ value, literal? token.kind = some value ∧ expr = .literal value ∧
            tail = rest ∧ reported = #[]) ∨
          ((∃ name, token.kind = .identifier name) ∧ expr = .variable token ∧
            tail = rest ∧ reported = #[]) ∨
          (token.kind = .symbol .leftParen ∧ ∃ inner right,
            expression.Reads tail inner (right :: rest) reported ∧
              right.kind = .symbol .rightParen ∧ expr = .grouping inner)) := by
  constructor
  · intro h
    cases tokens with
    | nil => exact absurd h reads_fail
    | cons token tail =>
        refine ⟨token, tail, rfl, ?_⟩
        unfold Reads at h
        rw [primary_cons] at h
        split at h
        · rename_i value hvalue
          cases h
          exact .inl ⟨value, hvalue, rfl, rfl, rfl⟩
        · rename_i name _ hname
          cases h
          exact .inr (.inl ⟨⟨name, hname⟩, rfl, rfl, rfl⟩)
        · rename_i hparen
          exact .inr (.inr ⟨hparen, reads_closed.1 h⟩)
        · exact absurd h reads_fail
  · rintro ⟨token, tail, rfl, h⟩
    unfold Reads
    rw [primary_cons]
    rcases h with ⟨value, hvalue, rfl, rfl, rfl⟩ | ⟨⟨name, hname⟩, rfl, rfl, rfl⟩ |
      ⟨hparen, hgrouping⟩
    · rw [hvalue]
    · rw [hname]
      rfl
    · rw [hparen]
      exact reads_closed.2 hgrouping

theorem orderly_primary (hexpression : expression.Orderly) : (primary expression).Orderly := by
  intro tokens
  cases tokens with
  | nil => exact orderly_fail (by decide) []
  | cons token tail =>
      rw [primary_cons]
      split
      · exact .of_ok (List.suffix_cons token tail)
      · exact .of_ok (List.suffix_cons token tail)
      · have hcause : SyntaxError.Cause.unclosedGrouping ≠ .invalidAssignmentTarget := by decide
        have hgrouping := orderly_closed hexpression .rightParen hcause fun inner =>
          orderly_pure (Expr.grouping inner)
        exact (hgrouping tail).mono (List.suffix_cons token tail)
      · exact orderly_fail (by decide) _

/-! ## Operators -/

/-- A unary expression is a unary operator with its operand, or a primary expression. -/
theorem reads_unary :
    (unary operand expression).Reads tokens expr rest reported ↔
      (∃ operator tail right, tokens = operator :: tail ∧ isUnary operator.kind = true ∧
        operand.Reads tail right rest reported ∧ expr = .unary operator right) ∨
      (starts isUnary tokens = false ∧ (primary expression).Reads tokens expr rest reported) := by
  simp only [unary, reads_takeIf_bind, reads_map]
  constructor
  · rintro (⟨operator, tail, rfl, hkind, right, hright, rfl⟩ | ⟨hstarts, hprimary⟩)
    · exact .inl ⟨operator, tail, right, rfl, hkind, hright, rfl⟩
    · exact .inr ⟨hstarts, hprimary⟩
  · rintro (⟨operator, tail, right, rfl, hkind, hright, rfl⟩ | ⟨hstarts, hprimary⟩)
    · exact .inl ⟨operator, tail, rfl, hkind, right, hright, rfl⟩
    · exact .inr ⟨hstarts, hprimary⟩

theorem orderly_unary (hoperand : operand.Orderly) (hexpression : expression.Orderly) :
    (unary operand expression).Orderly := by
  refine orderly_bind (orderly_takeIf isUnary) fun taken => ?_
  cases taken with
  | none => exact orderly_primary hexpression
  | some operator => exact orderly_bind hoperand fun right => orderly_pure _

/-- One turn of a level: an operator with its right operand. -/
def Level.turn (level : Level) (operand : Rule Expr) (left : Expr) :
    List Token → Option (Parsed Expr)
  | [] => none
  | operator :: rest =>
      if level.isOperator operator.kind then
        some ((do return level.node left operator (← operand) : Rule Expr) rest)
      else none

theorem Level.turn_eq_none_iff {level : Level} {left : Expr} :
    level.turn operand left tokens = none ↔ starts level.isOperator tokens = false := by
  cases tokens with
  | nil => simp [Level.turn]
  | cons operator tail => simp [Level.turn]

theorem Level.turn_eq_some_iff {level : Level} {left next : Expr} {mid : List Token} :
    level.turn operand left tokens = some ⟨.ok next, mid, reported⟩ ↔
      ∃ operator tail right, tokens = operator :: tail ∧
        level.isOperator operator.kind = true ∧ operand.Reads tail right mid reported ∧
        next = level.node left operator right := by
  cases tokens with
  | nil => simp [Level.turn]
  | cons operator tail =>
      unfold Level.turn
      rw [Option.ite_none_right_eq_some, Option.some.injEq]
      constructor
      · intro ⟨hkind, hoperand⟩
        obtain ⟨right, hright, hnext⟩ := reads_map.1 hoperand
        exact ⟨operator, tail, right, rfl, hkind, hright, hnext⟩
      · rintro ⟨_, _, right, htokens, hkind, hright, hnext⟩
        cases htokens
        exact ⟨hkind, reads_map.2 ⟨right, hright, hnext⟩⟩

/-- Without an operator of its level a loop is done. -/
theorem Level.turns_done {level : Level} (left : Expr)
    (h : starts level.isOperator tokens = false) :
    Turns (level.turn operand) left tokens left tokens #[] :=
  .done (Level.turn_eq_none_iff.2 h)

/-- A loop takes an operator and its right operand in one turn. -/
theorem Level.turns_operator {level : Level} {operator : Token} {right last : Expr}
    {tail mid : List Token} {before after : Array Fault} (left : Expr)
    (hkind : level.isOperator operator.kind = true) (hread : operand.Reads tail right mid before)
    (hturns : Turns (level.turn operand) (level.node left operator right) mid last rest after) :
    Turns (level.turn operand) left (operator :: tail) last rest (before ++ after) :=
  .turn (Level.turn_eq_some_iff.2 ⟨operator, tail, right, rfl, hkind, hread, rfl⟩) hturns

theorem Level.takesTokens {level : Level} (hoperand : operand.Orderly) :
    TakesTokens (level.turn operand) where
  none_of_nil left := rfl
  shorter := by
    intro left tokens next mid before hstep
    obtain ⟨operator, tail, right, rfl, _, hright, _⟩ := Level.turn_eq_some_iff.1 hstep
    exact Nat.lt_succ_of_le (hoperand.length_le hright)

/-- The operands of a level are read in turns, after the first. -/
theorem Level.reads_rule {level : Level} {tighter : List Level}
    (htakes : TakesTokens (level.turn (Level.rule tighter operand))) :
    (Level.rule (level :: tighter) operand).Reads tokens expr rest reported ↔
      ∃ first mid before after, (Level.rule tighter operand).Reads tokens first mid before ∧
        Turns (level.turn (Level.rule tighter operand)) first mid expr rest after ∧
        reported = before ++ after := by
  simp only [← reads_repeating htakes]
  exact reads_bind

theorem orderly_leftAssoc {isOperator : Token.Kind → Bool} {node : Expr → Token → Expr → Expr}
    (hoperand : operand.Orderly) : (leftAssoc isOperator node operand).Orderly := by
  refine orderly_bind hoperand fun first => orderly_repeating ?_ first
  intro left tokens next hstep
  cases tokens with
  | nil => simp at hstep
  | cons operator tail =>
      simp only [Option.ite_none_right_eq_some, Option.some.injEq] at hstep
      obtain ⟨_, rfl⟩ := hstep
      have hright := orderly_bind hoperand fun right => orderly_pure (node left operator right)
      exact (hright tail).mono (List.suffix_cons operator tail)

theorem Level.orderly_rule (hoperand : operand.Orderly) :
    ∀ levels : List Level, (Level.rule levels operand).Orderly
  | [] => hoperand
  | _ :: tighter => orderly_leftAssoc (Level.orderly_rule hoperand tighter)

/-! ## Assignments -/

/-- What is read first may turn out to be assigned to.  If it is no name, that is
reported at the equals sign, after the right side has been read. -/
theorem reads_assignment :
    (assignment operand expression).Reads tokens expr rest reported ↔
      ∃ target mid before,
        (Level.rule Level.all (unary operand expression)).Reads tokens target mid before ∧
        ((starts (·.isSymbol .equal) mid = false ∧ expr = target ∧ mid = rest ∧
            reported = before) ∨
          ∃ equals tail value after, mid = equals :: tail ∧ equals.kind = .symbol .equal ∧
            expression.Reads tail value rest after ∧
            ((∃ name, target = .variable name ∧ expr = .assign name value ∧
                reported = before ++ after) ∨
              ((∀ name, target ≠ .variable name) ∧ expr = target ∧
                reported = before ++ after ++ #[⟨.invalidAssignmentTarget, equals :: tail⟩]))) := by
  simp only [assignment, Level.operators_eq_rule,
    @reads_bind _ _ _ _ _ (Level.rule Level.all (unary operand expression)),
    reads_remaining_bind, reads_takeIf_bind, Token.Kind.isSymbol_iff]
  refine exists_congr fun target => exists_congr fun mid => exists_congr fun before => ?_
  constructor
  · rintro ⟨finish, htarget, ⟨equals, tail, rfl, hequals, hnext⟩ | ⟨hstarts, hpure⟩, rfl⟩
    · refine ⟨htarget, .inr ⟨equals, tail, ?_⟩⟩
      obtain ⟨value, _, after, _, hvalue, hfinish, rfl⟩ := reads_bind.1 hnext
      split at hfinish
      · rename_i name
        obtain ⟨rfl, rfl, rfl⟩ := reads_pure.1 hfinish
        exact ⟨value, after, rfl, hequals, hvalue, .inl ⟨name, rfl, rfl, by simp⟩⟩
      · rename_i hother
        obtain ⟨_, hpure, rfl⟩ := reads_report_bind.1 hfinish
        obtain ⟨rfl, rfl, rfl⟩ := reads_pure.1 hpure
        exact ⟨value, after, rfl, hequals, hvalue, .inr ⟨hother, rfl, by simp⟩⟩
    · obtain ⟨rfl, rfl, rfl⟩ := reads_pure.1 hpure
      exact ⟨htarget, .inl ⟨hstarts, rfl, rfl, by simp⟩⟩
  · rintro ⟨htarget, ⟨hstarts, rfl, rfl, rfl⟩ | ⟨equals, tail, value, after, rfl, hequals, hvalue,
      hfinish⟩⟩
    · exact ⟨#[], htarget, .inr ⟨hstarts, reads_pure.2 ⟨rfl, rfl, rfl⟩⟩, by simp⟩
    · rcases hfinish with ⟨name, rfl, rfl, rfl⟩ | ⟨hother, rfl, rfl⟩
      · exact ⟨after, htarget, .inl ⟨equals, tail, rfl, hequals, reads_map.2 ⟨value, hvalue, rfl⟩⟩,
          rfl⟩
      · refine ⟨after ++ #[⟨.invalidAssignmentTarget, equals :: tail⟩], htarget,
          .inl ⟨equals, tail, rfl, hequals, hvalue.bind ?_⟩, by simp⟩
        split
        · rename_i name
          exact absurd rfl (hother name)
        · exact reads_report_bind.2 ⟨#[], reads_pure.2 ⟨rfl, rfl, rfl⟩, by simp⟩

theorem orderly_assignment (hoperand : operand.Orderly) (hexpression : expression.Orderly) :
    (assignment operand expression).Orderly := by
  unfold assignment
  rw [Level.operators_eq_rule]
  refine orderly_bind (Level.orderly_rule (orderly_unary hoperand hexpression) _) fun target =>
    orderly_bind orderly_remaining fun fromEquals =>
      orderly_bind (orderly_takeIf _) fun taken => ?_
  cases taken with
  | none => exact orderly_pure target
  | some equals =>
      refine orderly_bind hexpression fun value => ?_
      split
      · exact orderly_pure _
      · exact orderly_bind (orderly_report _ _) fun _ => orderly_pure target

/-! ## Nesting -/

theorem reads_expression {levels : Nat} :
    (Grammar.expression levels).Reads tokens expr rest reported ↔
      ∃ inner, levels = inner + 1 ∧
        (assignment (Grammar.operand inner) (Grammar.expression inner)).Reads tokens expr rest
          reported := by
  cases levels with
  | zero => simp [Grammar.expression]
  | succ inner =>
      constructor
      · exact fun h => ⟨inner, rfl, h⟩
      · rintro ⟨_, heq, h⟩
        cases heq
        exact h

theorem reads_operand {levels : Nat} :
    (Grammar.operand levels).Reads tokens expr rest reported ↔
      ∃ inner, levels = inner + 1 ∧
        (unary (Grammar.operand inner) (Grammar.expression inner)).Reads tokens expr rest
          reported := by
  cases levels with
  | zero => simp [Grammar.operand]
  | succ inner =>
      constructor
      · exact fun h => ⟨inner, rfl, h⟩
      · rintro ⟨_, heq, h⟩
        cases heq
        exact h

theorem orderly_nested (levels : Nat) :
    (Grammar.operand levels).Orderly ∧ (Grammar.expression levels).Orderly := by
  induction levels with
  | zero => exact ⟨orderly_fail (by decide), orderly_fail (by decide)⟩
  | succ levels ih =>
      obtain ⟨hoperand, hexpression⟩ := ih
      exact ⟨orderly_unary hoperand hexpression, orderly_assignment hoperand hexpression⟩

theorem orderly_operand (levels : Nat) : (Grammar.operand levels).Orderly :=
  (orderly_nested levels).1

theorem orderly_expression (levels : Nat) : (Grammar.expression levels).Orderly :=
  (orderly_nested levels).2

end Lox.Grammar
