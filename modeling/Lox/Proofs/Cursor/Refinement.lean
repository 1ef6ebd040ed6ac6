import Lox.Proofs.Cursor.Agreement

/-!
# Walks through programs

Every walk for a part of the grammar agrees with the rule for that part, which has as many levels
left as the depth of the walk allows.  So a walk through a program comes to its end
(`program_start`), and what it yields is what comes of the program (`parse_eq`).
-/

namespace Lox

open Grammar Cursor

namespace Walk

variable {tokens : List Token} {depth : Nat}

/-! ## Expressions -/

section

variable {operand expression : Walk Expr} {operand' expression' : Rule Expr}

theorem agrees_primary (hexpression : Agrees tokens depth expression expression') :
    Agrees tokens depth (primary expression) (Grammar.primary expression') := by
  rw [primary_eq_byFirst]
  refine agrees_byFirst rfl (fun token => ?_) (agrees_fail _)
  unfold primaryAfter? Grammar.primaryAfter?
  generalize literal? token.kind = value
  generalize token.kind = kind
  cases value with
  | some value => exact .some (agrees_pure _)
  | none =>
      cases kind with
      | symbol symbol =>
          cases symbol with
          | leftParen => exact .some (agrees_closed hexpression _ _ fun _ => agrees_pure _)
          | _ => exact .none
      | identifier name => exact .some (agrees_pure _)
      | keyword | string | number | endOfSource => exact .none

theorem agrees_unary (hoperand : Agrees tokens depth operand operand')
    (hexpression : Agrees tokens depth expression expression') :
    Agrees tokens depth (unary operand expression) (Grammar.unary operand' expression') := by
  refine agrees_bind (agrees_takeIf rfl) fun taken => ?_
  cases taken with
  | none => exact agrees_primary hexpression
  | some operator => exact agrees_bind hoperand fun right => agrees_pure _

/-- An operator is there when the loop of its level goes on, and so a walk may go past it. -/
theorem agreesAt_advance {kind : Token.Kind → Bool} {cause : SyntaxError.Cause}
    {left : List Token} (hleft : left <:+ programTokens tokens)
    (hstarts : Rule.starts kind left = true) :
    AgreesAt tokens depth advance (Rule.expect kind cause) left := by
  cases left with
  | nil => cases hstarts
  | cons token tail =>
      have hread : (Rule.expect kind cause).Reads (token :: tail) token tail #[] :=
        Rule.reads_expect.2 ⟨rfl, hstarts, rfl⟩
      refine .of_empty hread (List.suffix_cons token tail) fun errors => ?_
      unfold advance
      rw [forward_facing_cons hleft, previous_facing hleft]
      rfl

theorem agrees_leftAssoc (level : Level) (horderly : operand'.Orderly)
    (hoperand : Agrees tokens depth operand operand') :
    Agrees tokens depth (leftAssoc level.isOperator level.node operand)
      (Grammar.leftAssoc level.isOperator level.node operand') := by
  refine agrees_bind hoperand fun first => ?_
  show Agrees tokens depth _ (Rule.repeating (level.turn operand') first)
  have hkind := eq_not_isEnd_and (show level.isOperator .endOfSource = false by cases level <;> rfl)
  have htakes := @Level.takesTokens operand' level horderly
  rw [Level.turn_eq_stepWhile] at htakes ⊢
  refine agrees_repeatWhile hkind htakes (fun left mid hmid hstarts => ?_) first
  refine (agreesAt_advance hmid hstarts).bind hmid fun operator => ?_
  exact agrees_bind hoperand fun right => agrees_pure _

/-- The walk for some levels, over the walk for what they connect. -/
def tiers (operand : Walk Expr) : List Level → Walk Expr
  | [] => operand
  | level :: tighter => leftAssoc level.isOperator level.node (tiers operand tighter)

theorem agrees_tiers (horderly : operand'.Orderly)
    (hoperand : Agrees tokens depth operand operand') :
    ∀ levels : List Level, Agrees tokens depth (tiers operand levels) (Level.rule levels operand')
  | [] => hoperand
  | level :: tighter =>
      agrees_leftAssoc level (Level.orderly_rule horderly tighter)
        (agrees_tiers horderly hoperand tighter)

theorem agrees_operators (horderly : operand'.Orderly)
    (hoperand : Agrees tokens depth operand operand') :
    Agrees tokens depth (operators operand) (Grammar.operators operand') := by
  have htiers := agrees_tiers horderly hoperand Level.all
  rw [← Level.operators_eq_rule] at htiers
  exact htiers

private theorem eq_cons_of_takeIf {kind : Token.Kind → Bool} {left mid : List Token}
    {token : Token} {reported : Array Fault}
    (h : (Rule.takeIf kind).Reads left (some token) mid reported) : left = token :: mid := by
  cases left with
  | nil => cases h
  | cons first tail =>
      unfold Rule.Reads Rule.takeIf at h
      dsimp only at h
      split at h
      · cases h
        rfl
      · cases h

theorem agrees_assignment (horderly : (Grammar.unary operand' expression').Orderly)
    (hoperand : Agrees tokens depth operand operand')
    (hexpression : Agrees tokens depth expression expression') :
    Agrees tokens depth (assignment operand expression)
      (Grammar.assignment operand' expression') := by
  have hunary := agrees_unary hoperand hexpression
  refine agrees_bind (agrees_operators horderly hunary) fun target left hleft => ?_
  refine AgreesAt.remaining_bind ?_
  have htake := @agrees_takeIf tokens depth (·.isSymbol .equal) rfl left hleft
  refine htake.bind_of_reads fun {taken mid _} hread => ?_
  have hmid : mid <:+ left := by
    have hsuffix := htake.suffix
    rw [show Rule.takeIf _ left = _ from hread] at hsuffix
    exact hsuffix
  cases taken with
  | none => exact agrees_pure target mid (hmid.trans hleft)
  | some equals =>
      obtain rfl := eq_cons_of_takeIf hread
      refine (hexpression mid (hmid.trans hleft)).bind (hmid.trans hleft) fun value => ?_
      cases target with
      | «variable» name => exact agrees_pure _
      | literal | grouping | unary | binary | logical | assign =>
          exact agrees_bind (agrees_report equals mid) fun _ => agrees_pure _

end

/-! ## Statements -/

section

variable {expression : Walk Expr} {expression' : Rule Expr} {statement : Walk Stmt}
  {statement' : Rule Stmt} (hexpression : Agrees tokens depth expression expression')

include hexpression

theorem agrees_varDeclaration :
    Agrees tokens depth (varDeclaration expression) (Grammar.varDeclaration expression') := by
  refine agrees_bind (agrees_expect rfl _) fun name => ?_
  refine agrees_bind (agrees_takeIf rfl) fun taken => ?_
  cases taken with
  | none => exact agrees_bind (agrees_expectSymbol _ _) fun _ => agrees_pure _
  | some equals => exact agrees_closed hexpression _ _ fun _ => agrees_pure _

theorem agrees_expressionStatement :
    Agrees tokens depth (expressionStatement expression)
      (Grammar.expressionStatement expression') :=
  agrees_closed hexpression _ _ fun _ => agrees_pure _

theorem agrees_printStatement :
    Agrees tokens depth (printStatement expression) (Grammar.printStatement expression') :=
  agrees_closed hexpression _ _ fun _ => agrees_pure _

theorem agrees_forInitializer :
    Agrees tokens depth (forInitializer expression) (Grammar.forInitializer expression') := by
  refine agrees_bind (agrees_takeIf rfl) fun taken => ?_
  cases taken with
  | some semicolon => exact agrees_pure none
  | none =>
      refine agrees_bind (agrees_takeIf rfl) fun taken => ?_
      cases taken with
      | some keyword =>
          exact agrees_bind (agrees_varDeclaration hexpression) fun _ => agrees_pure _
      | none => exact agrees_bind (agrees_expressionStatement hexpression) fun _ => agrees_pure _

theorem agrees_forCondition :
    Agrees tokens depth (forCondition expression) (Grammar.forCondition expression') := by
  refine agrees_bind (agrees_nextIs rfl) fun absent => ?_
  cases absent with
  | true => exact agrees_pure _
  | false => exact hexpression

theorem agrees_forIncrement :
    Agrees tokens depth (forIncrement expression) (Grammar.forIncrement expression') := by
  refine agrees_bind (agrees_nextIs rfl) fun absent => ?_
  cases absent with
  | true => exact agrees_pure _
  | false => exact agrees_bind hexpression fun _ => agrees_pure _

variable (hstatement : Agrees tokens depth statement statement')

include hstatement

theorem agrees_ifStatement :
    Agrees tokens depth (ifStatement expression statement)
      (Grammar.ifStatement expression' statement') := by
  refine agrees_bind (agrees_expectSymbol _ _) fun _ => ?_
  refine agrees_closed hexpression _ _ fun condition => ?_
  refine agrees_bind hstatement fun thenBranch => ?_
  refine agrees_bind (agrees_takeIf rfl) fun taken => ?_
  cases taken with
  | none => exact agrees_pure _
  | some other => exact agrees_bind hstatement fun _ => agrees_pure _

theorem agrees_whileStatement :
    Agrees tokens depth (whileStatement expression statement)
      (Grammar.whileStatement expression' statement') := by
  refine agrees_bind (agrees_expectSymbol _ _) fun _ => ?_
  refine agrees_closed hexpression _ _ fun condition => ?_
  exact agrees_bind hstatement fun _ => agrees_pure _

theorem agrees_forStatement :
    Agrees tokens depth (forStatement expression statement)
      (Grammar.forStatement expression' statement') := by
  refine agrees_bind (agrees_expectSymbol _ _) fun _ => ?_
  refine agrees_bind (agrees_forInitializer hexpression) fun initializer => ?_
  refine agrees_closed (agrees_forCondition hexpression) _ _ fun condition => ?_
  refine agrees_closed (agrees_forIncrement hexpression) _ _ fun increment => ?_
  exact agrees_bind hstatement fun _ => agrees_pure _

theorem agrees_declaration :
    Agrees tokens depth (declaration expression statement)
      (Grammar.declaration expression' statement') := by
  refine agrees_bind (agrees_takeIf rfl) fun taken => ?_
  cases taken with
  | some keyword => exact agrees_varDeclaration hexpression
  | none => exact hstatement

section

variable (horderly : (Grammar.declaration expression' statement').Orderly)
  (hconsumes : (Grammar.declaration expression' statement').Consumes)

include horderly hconsumes

theorem agrees_declarations (isLast : Token.Kind → Bool) :
    Agrees tokens depth (declarations isLast expression statement)
      (Grammar.declarations isLast expression' statement') := by
  have hdeclaration := agrees_declaration hexpression hstatement
  have htakes := @takesTokens_declarationTurn isLast _ horderly hconsumes
  rw [declarations_eq]
  rw [declarationTurn_eq_stepWhile] at htakes ⊢
  refine agrees_bind (agrees_repeatWhile (fun _ => rfl) htakes ?_ []) fun _ => agrees_pure _
  intro reversed left hleft _
  refine (agrees_recovering hdeclaration _ hleft).bind hleft fun found => ?_
  cases found with
  | none => exact agrees_pure _
  | some stmt => exact agrees_pure _

theorem agrees_block :
    Agrees tokens depth (block expression statement) (Grammar.block expression' statement') :=
  agrees_closed (agrees_declarations hexpression hstatement horderly hconsumes _) _ _ fun _ =>
    agrees_pure _

theorem agrees_statementBody :
    Agrees tokens depth (statementBody expression statement)
      (Grammar.statementBody expression' statement') := by
  rw [statementBody_eq_byFirst]
  refine agrees_byFirst rfl (fun token => ?_) (agrees_expressionStatement hexpression)
  unfold statementAfter? Grammar.statementAfter?
  generalize token.kind = kind
  cases kind with
  | keyword keyword =>
      cases keyword with
      | «if» => exact .some (agrees_ifStatement hexpression hstatement)
      | print => exact .some (agrees_printStatement hexpression)
      | «while» => exact .some (agrees_whileStatement hexpression hstatement)
      | «for» => exact .some (agrees_forStatement hexpression hstatement)
      | _ => exact .none
  | symbol symbol =>
      cases symbol with
      | leftBrace => exact .some (agrees_block hexpression hstatement horderly hconsumes)
      | _ => exact .none
  | identifier | string | number | endOfSource => exact .none

end

end

/-! ## Knots -/

/-- A way to go one level deeper, and walks for the parts of the grammar that contain themselves. -/
structure Knot where
  enter : {α : Type} → Walk α → Walk α
  operand : Walk Expr
  expression : Walk Expr
  statement : Walk Stmt

section

variable {enter : {α : Type} → Walk α → Walk α}

/-- The walks of so many levels, with a way to go from one to the next. -/
def Knot.tied (enter : {α : Type} → Walk α → Walk α) : (levels : Nat) → Knot
  | 0 => ⟨enter, fail .tooMuchNesting, fail .tooMuchNesting, fail .tooMuchNesting⟩
  | levels + 1 =>
      let inner := tied enter levels
      ⟨enter, enter (unary inner.operand inner.expression),
        enter (assignment inner.operand inner.expression),
        enter (statementBody inner.expression inner.statement)⟩

theorem Knot.tied_nested (levels : Nat) :
    tied nested levels =
      ⟨nested, Walk.operand levels, Walk.expression levels, Walk.statement levels⟩ := by
  induction levels with
  | zero => rfl
  | succ levels ih =>
      rw [tied, ih]
      rfl

/-- What is entered goes on as rules do that have one level less, down to the greatest depth. -/
structure Deepens (tokens : List Token) (enter : {α : Type} → Walk α → Walk α) : Prop where
  deeper : ∀ {α : Type} {depth : Nat} {walk : Walk α} {rule : Rule α}, depth < maxNesting →
    Agrees tokens (depth + 1) walk rule → Agrees tokens depth (enter walk) rule
  stops : ∀ {α : Type} {depth : Nat} {walk : Walk α}, maxNesting ≤ depth →
    Agrees tokens depth (enter walk) (Rule.fail .tooMuchNesting)

theorem deepens_nested : Deepens tokens nested := ⟨agrees_nested, agrees_nested_of_le⟩

/-- The walks agree with the rules that have so many levels left. -/
structure Knot.Agrees (tokens : List Token) (depth levels : Nat) (knot : Knot) : Prop where
  operand : Walk.Agrees tokens depth knot.operand (Grammar.operand levels)
  expression : Walk.Agrees tokens depth knot.expression (Grammar.expression levels)
  statement : Walk.Agrees tokens depth knot.statement (Grammar.statement levels)

/-- One level deeper there is one level less.  The walks have a level more than the rules, for
they stop when they are to go deeper, and not when they have gone there. -/
theorem Deepens.agrees_tied (h : Deepens tokens enter) (levels : Nat) : ∀ {depth fuel : Nat},
    depth + levels = maxNesting → levels < fuel →
      (Knot.tied enter fuel).Agrees tokens depth levels := by
  induction levels with
  | zero =>
      intro depth fuel hdepth hfuel
      obtain ⟨fuel, rfl⟩ := Nat.exists_eq_succ_of_ne_zero (Nat.ne_of_gt hfuel)
      have hle : maxNesting ≤ depth := by omega
      rw [Knot.tied]
      constructor <;> dsimp only <;> exact h.stops hle
  | succ levels ih =>
      intro depth fuel hdepth hfuel
      obtain ⟨fuel, rfl⟩ := Nat.exists_eq_succ_of_ne_zero (Nat.ne_zero_of_lt hfuel)
      have hlt : depth < maxNesting := by omega
      have hdeeper : depth + 1 + levels = maxNesting := by omega
      obtain ⟨hoperand, hexpression, hstatement⟩ := ih hdeeper (Nat.lt_of_succ_lt_succ hfuel)
      have hunary := agrees_unary hoperand hexpression
      have hassignment :=
        agrees_assignment (Phrase.orderly_unaryAt levels) hoperand hexpression
      have hbody := agrees_statementBody hexpression hstatement (orderly_declarationAt levels)
        (consumes_declarationAt levels)
      rw [Knot.tied]
      exact ⟨h.deeper hlt hunary, h.deeper hlt hassignment, h.deeper hlt hbody⟩

end

/-! ## Programs -/

theorem agrees_program : Agrees tokens 0 program Grammar.program := by
  have hknot : (Knot.tied nested (maxNesting + 1)).Agrees tokens 0 maxNesting :=
    deepens_nested.agrees_tied _ (Nat.zero_add _) (Nat.lt_succ_self _)
  rw [Knot.tied_nested] at hknot
  exact agrees_declarations hknot.expression hknot.statement (orderly_declarationAt maxNesting)
    (consumes_declarationAt maxNesting) _

/-- A walk through a program comes to its end, with an error for each fault of the program. -/
theorem program_start (tokens : List Token) :
    ∃ statements reported,
      Grammar.program.Reads (programTokens tokens) statements [] reported ∧
        program (start tokens) =
          (.ok statements,
            facing tokens 0 (reported.map (Fault.toError (endMark tokens))) []) := by
  obtain ⟨statements, reported, hread⟩ := exists_reads_programAt maxNesting (programTokens tokens)
  have heq := (@agrees_program tokens (programTokens tokens) (List.suffix_refl _)).eq #[]
  refine ⟨statements, reported, hread, ?_⟩
  rw [start_eq_facing, heq, show Grammar.program (programTokens tokens) = _ from hread]
  unfold outcome
  rw [Array.empty_append]
  rfl

/-- A walk through a program yields what comes of the program. -/
theorem parse_eq (tokens : List Token) : parse tokens = Lox.parse tokens := by
  obtain ⟨statements, reported, hread, hwalk⟩ := program_start tokens
  unfold parse
  rw [hwalk, parse_of_reads hread]
  show (if (reported.map (Fault.toError (endMark tokens))).isEmpty then _
    else Except.error (reported.map (Fault.toError (endMark tokens))).toList) = _
  by_cases hnone : reported = #[]
  · rw [if_pos hnone, if_pos (by simp [hnone])]
  · rw [if_neg hnone, if_neg (by simpa using hnone), Array.toList_map]

end Walk

end Lox
