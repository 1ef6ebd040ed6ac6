import Lox.Proofs.Cursor.Refinement

/-!
# The discipline of walks

A walk is begun somewhere in the program, not too deep, and with some errors behind it.  Whether
it comes to its end or stops at an error, it is then as deep as before, no further back and not
behind the end of the program; the errors that were there are there still, before those that it
has added; and an error that it stops at is at the token where it stands (`Walk.Keeps`).  So a
declaration that is given up, however deep, leaves as many levels to the next as it had itself.

Nor is any walk begun too deep on the way.  To say so there is a watched knot, in which the depth
is looked at again whenever it has grown (`Walk.unlessTooDeep`): whatever would be done instead of
a walk that is begun too deep, it is never done.

Both hold of the walk for every part of the grammar (`Walk.parts_keep_discipline`), because each
agrees with a rule, and a rule stops at a fault where it has found it.
-/

namespace Lox

open Grammar

/-- The place is in the program, or at its end. -/
def Cursor.IsInside (cursor : Cursor) : Prop :=
  cursor.current ≤ (programTokens cursor.tokens).length

/-- What is left of the program at a place. -/
def Cursor.left (cursor : Cursor) : List Token := (programTokens cursor.tokens).drop cursor.current

theorem Cursor.facing_left {cursor : Cursor} (h : cursor.IsInside) :
    facing cursor.tokens cursor.depth cursor.errors cursor.left = cursor := by
  unfold facing left
  rw [List.length_drop, Nat.sub_sub_self h]

namespace Walk

open Cursor

variable {α : Type}

/-! ## Parts of the grammar -/

/-- The parts of the grammar that have walks of their own, by what these yield, and the steps that
the walks are made of.  A level of operators is given by all levels from it on, so that
`operators Level.all` stands for the loosest, and `operators []` for what they connect. -/
inductive Part : Type → Type 1
  | declaration : Part (Option Stmt)
  | varDeclaration : Part Stmt
  | statement : Part Stmt
  | statementBody : Part Stmt
  | forStatement : Part Stmt
  | whileStatement : Part Stmt
  | ifStatement : Part Stmt
  | block : Part Stmt
  | printStatement : Part Stmt
  | expressionStatement : Part Stmt
  | expression : Part Expr
  | assignment : Part Expr
  | operators (levels : List Level) : Part Expr
  | unary : Part Expr
  | primary : Part Expr
  | nested {α : Type} (part : Part α) : Part α
  | synchronize : Part Unit
  | expect (kind : Token.Kind → Bool) (cause : SyntaxError.Cause) : Part Token

/-- The walk for a part, in a knot. -/
def Part.walk : {α : Type} → Part α → Knot → Walk α
  | _, .declaration, knot => recovering (Walk.declaration knot.expression knot.statement)
  | _, .varDeclaration, knot => Walk.varDeclaration knot.expression
  | _, .statement, knot => knot.statement
  | _, .statementBody, knot => Walk.statementBody knot.expression knot.statement
  | _, .forStatement, knot => Walk.forStatement knot.expression knot.statement
  | _, .whileStatement, knot => Walk.whileStatement knot.expression knot.statement
  | _, .ifStatement, knot => Walk.ifStatement knot.expression knot.statement
  | _, .block, knot => Walk.block knot.expression knot.statement
  | _, .printStatement, knot => Walk.printStatement knot.expression
  | _, .expressionStatement, knot => Walk.expressionStatement knot.expression
  | _, .expression, knot => knot.expression
  | _, .assignment, knot => Walk.assignment knot.operand knot.expression
  | _, .operators levels, knot => tiers (Walk.unary knot.operand knot.expression) levels
  | _, .unary, knot => Walk.unary knot.operand knot.expression
  | _, .primary, knot => Walk.primary knot.expression
  | _, .nested part, knot => knot.enter (part.walk knot)
  | _, .synchronize, _ => Walk.synchronize
  | _, .expect kind cause, _ => Walk.expect kind cause

/-- The walks of a program.  There are levels enough for a walk that is begun at any depth. -/
def Knot.full : Knot :=
  ⟨nested, Walk.operand (maxNesting + 1), Walk.expression (maxNesting + 1),
    Walk.statement (maxNesting + 1)⟩

/-- A walk, but another one if that is begun too deep. -/
def unlessTooDeep (other walk : Walk α) : Walk α := fun cursor =>
  if cursor.depth ≤ maxNesting then walk cursor else other cursor

/-- The same walks, with another one for each that is begun too deep. -/
def Knot.watched (other : (α : Type) → Walk α) : Knot :=
  tied (fun walk => nested (unlessTooDeep (other _) walk)) (maxNesting + 1)

theorem unlessTooDeep_of_le {cursor : Cursor} (h : cursor.depth ≤ maxNesting)
    (other walk : Walk α) : unlessTooDeep other walk cursor = walk cursor := if_pos h

theorem agrees_unlessTooDeep {tokens : List Token} {depth : Nat} {walk : Walk α} {rule : Rule α}
    (h : depth ≤ maxNesting) (hwalk : Agrees tokens depth walk rule) (other : Walk α) :
    Agrees tokens depth (unlessTooDeep other walk) rule := by
  intro left hleft
  obtain ⟨hsuffix, heq⟩ := hwalk left hleft
  refine ⟨hsuffix, fun errors => ?_⟩
  have hdepth : (facing tokens depth errors left).depth ≤ maxNesting := h
  rw [unlessTooDeep_of_le hdepth]
  exact heq errors

/-- What is watched goes on as what is not, for it is no deeper than is allowed. -/
theorem deepens_watched (tokens : List Token) (other : (α : Type) → Walk α) :
    Deepens tokens fun walk => nested (unlessTooDeep (other _) walk) where
  deeper hlt hwalk := agrees_nested hlt (agrees_unlessTooDeep hlt hwalk _)
  stops := agrees_nested_of_le

/-! ## Discipline -/

/-- What a walk from a place comes to leaves everything as it has to be left. -/
structure Keeps (cursor : Cursor) (outcome : Except SyntaxError α × Cursor) : Prop where
  tokens_eq : outcome.2.tokens = cursor.tokens
  depth_eq : outcome.2.depth = cursor.depth
  current_le : cursor.current ≤ outcome.2.current
  isInside : outcome.2.IsInside
  errors_prefix : cursor.errors.toList <+: outcome.2.errors.toList
  token_eq : ∀ error, outcome.1 = .error error → error.token = outcome.2.token

/-- Wherever the walk is begun it leaves everything as it has to be left, and it comes to the same
when it is watched. -/
def Disciplined (walk : Knot → Walk α) : Prop :=
  ∀ cursor : Cursor, cursor.depth ≤ maxNesting → cursor.IsInside →
    Keeps cursor (walk .full cursor) ∧ ∀ other, walk (.watched other) cursor = walk .full cursor

/-- What stays where it is keeps all, if it stops at the token there. -/
theorem keeps_self {cursor : Cursor} {result : Except SyntaxError α} (hinside : cursor.IsInside)
    (htoken : ∀ error, result = .error error → error.token = cursor.token) :
    Keeps cursor (result, cursor) :=
  ⟨rfl, rfl, Nat.le_refl _, hinside, List.prefix_refl _, htoken⟩

/-! ### Walks that agree with rules -/

/-- What a walk comes to that agrees with a rule which stops where it has found a fault. -/
theorem keeps_outcome {tokens left : List Token} {parsed : Parsed α}
    (hleft : left <:+ programTokens tokens) (hparsed : parsed.Orderly left) (depth : Nat)
    (errors : Array SyntaxError) :
    Keeps (facing tokens depth errors left) (outcome tokens depth errors parsed) := by
  have hrest := hparsed.suffix.trans hleft
  refine ⟨rfl, rfl, ?_, Nat.sub_le _ _, ?_, fun error herror => ?_⟩
  · exact Nat.sub_le_sub_left hparsed.suffix.length_le _
  · show errors.toList <+: (errors ++ _).toList
    rw [Array.toList_append]
    exact List.prefix_append _ _
  · show error.token = (facing tokens depth _ parsed.rest).token
    rw [token_facing hrest]
    obtain ⟨result, rest, reported⟩ := parsed
    cases result with
    | ok a => cases herror
    | error fault =>
        cases herror
        have hfault : fault.left = rest := hparsed.left_eq rfl
        rw [← hfault]
        rfl

/-- A walk is disciplined if it agrees with a rule. -/
theorem disciplined_of_agrees {walk : Knot → Walk α} {rule : Nat → Rule α}
    (horderly : ∀ levels, (rule levels).Orderly)
    (hagrees : ∀ {tokens depth levels knot}, Knot.Agrees tokens depth levels knot →
      Agrees tokens depth (walk knot) (rule levels)) : Disciplined walk := by
  intro cursor hdepth hinside
  obtain ⟨levels, hlevels⟩ := Nat.exists_eq_add_of_le hdepth
  have hleft : cursor.left <:+ programTokens cursor.tokens := List.drop_suffix _ _
  have hsame {knot : Knot} (hknot : knot.Agrees cursor.tokens cursor.depth levels) :
      walk knot cursor =
        outcome cursor.tokens cursor.depth cursor.errors (rule levels cursor.left) := by
    have heq := (hagrees hknot cursor.left hleft).eq cursor.errors
    rwa [facing_left hinside] at heq
  have hlevels' : levels < maxNesting + 1 := by omega
  have hfull := hsame (deepens_nested.agrees_tied levels hlevels.symm hlevels')
  rw [Knot.tied_nested] at hfull
  have hkeeps := keeps_outcome hleft (horderly levels cursor.left) cursor.depth cursor.errors
  rw [facing_left hinside, ← hfull] at hkeeps
  refine ⟨hkeeps, fun other => ?_⟩
  have hwatched := (deepens_watched cursor.tokens other).agrees_tied levels hlevels.symm hlevels'
  exact (hsame hwatched).trans hfull.symm

theorem disciplined_synchronize : Disciplined fun _ => synchronize :=
  @disciplined_of_agrees Unit _ (fun _ left => ⟨.ok (), resume left, #[]⟩)
    (fun _ left => .of_ok (resume_suffix left))
    (fun _ left hleft => .of_empty rfl (resume_suffix left) fun _ => synchronize_facing hleft)

/-! ### Single steps and levels -/

theorem expect_apply (kind : Token.Kind → Bool) (cause : SyntaxError.Cause) (cursor : Cursor) :
    expect kind cause cursor =
      if kind cursor.token.kind then (.ok cursor.forward.previous, cursor.forward)
      else (.error ⟨cause, cursor.token⟩, cursor) := by
  unfold expect takeIf
  rw [bind_apply]
  split_ifs with hkind
  · rw [byFirst_of_some (if_pos hkind)]
    rfl
  · rw [byFirst_of_none (if_neg hkind)]
    rfl

/-- The next place is in the program too, for there is none behind the end. -/
theorem keeps_forward {cursor : Cursor} (hinside : cursor.IsInside) :
    Keeps cursor (Except.ok cursor.forward.previous, cursor.forward) := by
  unfold Cursor.forward
  split_ifs with hend
  · exact keeps_self hinside (by rintro error ⟨⟩)
  · refine ⟨rfl, rfl, Nat.le_succ _, ?_, List.prefix_refl _, by rintro error ⟨⟩⟩
    have hne : cursor.left ≠ [] := by
      intro hnil
      rw [← facing_left hinside, hnil] at hend
      exact hend isAtEnd_facing_nil
    rw [left, ne_eq, List.drop_eq_nil_iff] at hne
    exact Nat.lt_of_not_le hne

/-- A token that has to come next may even be the end, which is not gone past. -/
theorem disciplined_expect (kind : Token.Kind → Bool) (cause : SyntaxError.Cause) :
    Disciplined fun _ => expect kind cause := by
  refine fun cursor _ hinside => ⟨?_, fun _ => rfl⟩
  show Keeps cursor (expect kind cause cursor)
  rw [expect_apply]
  split_ifs
  · exact keeps_forward hinside
  · refine keeps_self hinside ?_
    rintro error ⟨⟩
    rfl

/-- One level deeper, or at the greatest depth nowhere. -/
theorem disciplined_enter {walk : Knot → Walk α} (h : Disciplined walk) :
    Disciplined fun knot => knot.enter (walk knot) := by
  intro cursor hdepth hinside
  show Keeps cursor (nested (walk .full) cursor) ∧ ∀ other : (α : Type) → Walk α,
    nested (unlessTooDeep (other _) (walk (.watched other))) cursor = nested (walk .full) cursor
  by_cases hlt : cursor.depth < maxNesting
  · obtain ⟨hkeeps, hsame⟩ := h { cursor with depth := cursor.depth + 1 } hlt hinside
    constructor
    · rw [nested_of_lt hlt]
      exact ⟨hkeeps.tokens_eq, by simp [hkeeps.depth_eq], hkeeps.current_le, hkeeps.isInside,
        hkeeps.errors_prefix, hkeeps.token_eq⟩
    · intro other
      have hdepth : Cursor.depth { cursor with depth := cursor.depth + 1 } ≤ maxNesting := hlt
      rw [nested_of_lt hlt, nested_of_lt hlt, unlessTooDeep_of_le hdepth, hsame other]
  · have hstops (walk : Walk α) : nested walk cursor = fail .tooMuchNesting cursor :=
      if_pos (Nat.le_of_not_lt hlt)
    rw [hstops]
    refine ⟨keeps_self hinside ?_, fun other => hstops _⟩
    rintro error ⟨⟩
    rfl

/-! ## All parts -/

/-- A part agrees with the rule for it, which has as many levels left as the depth allows.  The
steps, which there are no rules for, are looked at by themselves. -/
theorem disciplined_part {α : Type} (part : Part α) : Disciplined part.walk := by
  induction part with
  | declaration =>
      exact disciplined_of_agrees (fun levels => orderly_recovering (orderly_declarationAt levels))
        fun h => agrees_recovering (agrees_declaration h.expression h.statement)
  | varDeclaration =>
      exact disciplined_of_agrees (fun levels => orderly_varDeclaration (orderly_expression levels))
        fun h => agrees_varDeclaration h.expression
  | statement => exact disciplined_of_agrees orderly_statement fun h => h.statement
  | statementBody =>
      exact disciplined_of_agrees
        (fun levels => orderly_statementBody (orderly_expression levels) (orderly_statement levels))
        fun h => agrees_statementBody h.expression h.statement (orderly_declarationAt _)
          (consumes_declarationAt _)
  | forStatement =>
      exact disciplined_of_agrees
        (fun levels => orderly_forStatement (orderly_expression levels) (orderly_statement levels))
        fun h => agrees_forStatement h.expression h.statement
  | whileStatement =>
      exact disciplined_of_agrees
        (fun levels =>
          orderly_whileStatement (orderly_expression levels) (orderly_statement levels))
        fun h => agrees_whileStatement h.expression h.statement
  | ifStatement =>
      exact disciplined_of_agrees
        (fun levels => orderly_ifStatement (orderly_expression levels) (orderly_statement levels))
        fun h => agrees_ifStatement h.expression h.statement
  | block =>
      exact disciplined_of_agrees (fun levels => orderly_block (orderly_declarationAt levels))
        fun h => agrees_block h.expression h.statement (orderly_declarationAt _)
          (consumes_declarationAt _)
  | printStatement =>
      exact disciplined_of_agrees
        (fun levels => orderly_printStatement (orderly_expression levels))
        fun h => agrees_printStatement h.expression
  | expressionStatement =>
      exact disciplined_of_agrees
        (fun levels => orderly_expressionStatement (orderly_expression levels))
        fun h => agrees_expressionStatement h.expression
  | expression => exact disciplined_of_agrees orderly_expression fun h => h.expression
  | assignment =>
      exact disciplined_of_agrees
        (fun levels => orderly_assignment (orderly_operand levels) (orderly_expression levels))
        fun h => agrees_assignment (Phrase.orderly_unaryAt _) h.operand h.expression
  | operators tighter =>
      exact disciplined_of_agrees
        (fun levels => Level.orderly_rule (Phrase.orderly_unaryAt levels) tighter)
        fun h => agrees_tiers (Phrase.orderly_unaryAt _) (agrees_unary h.operand h.expression) _
  | unary =>
      exact disciplined_of_agrees Phrase.orderly_unaryAt
        fun h => agrees_unary h.operand h.expression
  | primary =>
      exact disciplined_of_agrees (fun levels => orderly_primary (orderly_expression levels))
        fun h => agrees_primary h.expression
  | nested part ih => exact disciplined_enter ih
  | synchronize => exact disciplined_synchronize
  | expect kind cause => exact disciplined_expect kind cause

/-- However a part of the grammar comes out, the walk for it leaves everything as it has to be
left, and no walk is begun too deep on the way. -/
theorem parts_keep_discipline {α : Type} (part : Part α) {cursor : Cursor}
    (hdepth : cursor.depth ≤ maxNesting) (hinside : cursor.IsInside) :
    Keeps cursor (part.walk .full cursor) ∧
      ∀ other : (α : Type) → Walk α, part.walk (.watched other) cursor = part.walk .full cursor :=
  disciplined_part part cursor hdepth hinside

/-- A parenthesis that opens, on the given line. -/
def opening (line : Int32) : Token := ⟨.symbol .leftParen, "(", line⟩

/-- Before two parentheses, where the second is one level too deep, and behind an error. -/
def crowded : Cursor where
  tokens := [⟨.symbol .semicolon, ";", 1⟩, opening 2, opening 3, ⟨.symbol .semicolon, ";", 4⟩,
    Token.atEnd 5, opening 6]
  current := 1
  depth := 253
  errors := #[⟨.missingExpression, ⟨.symbol .semicolon, ";", 1⟩⟩]

/-- The declaration is given up at the second parenthesis, and the next can be as deep as it. -/
theorem parts_keep_discipline_crowded :
    crowded.depth ≤ maxNesting ∧ crowded.IsInside ∧
      Part.declaration.walk .full crowded =
        (.ok none, { crowded with
          current := 4, errors := crowded.errors.push ⟨.tooMuchNesting, opening 3⟩ }) ∧
      Keeps crowded (Part.declaration.walk .full crowded) ∧
      ∀ other : (α : Type) → Walk α,
        Part.declaration.walk (.watched other) crowded = Part.declaration.walk .full crowded := by
  have hdepth : crowded.depth ≤ maxNesting := by decide
  have hinside : crowded.IsInside := by
    unfold IsInside
    decide
  exact ⟨hdepth, hinside, rfl, parts_keep_discipline .declaration hdepth hinside⟩

end Walk

end Lox
