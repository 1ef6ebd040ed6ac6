import Lox.Proofs.Grammar.Acceptance
import Lox.Proofs.Syntax.Matching

/-!
# Rules read matching tokens alike

A rule looks at nothing of a token but its kind.  So of two lists with alike tokens in the same
places, it reads as many tokens of the one as of the other, and what it yields and the faults
that it finds match as the tokens do.  Each way of building a rule keeps this.
-/

namespace Lox

variable {α α' β β' : Type} {R : Token → Token → Prop} {S : α → α' → Prop} {T : β → β' → Prop}

/-! ## What comes of reading -/

/-- The same fault, found where the tokens that are left match. -/
structure Fault.Matches (R : Token → Token → Prop) (fault fault' : Fault) : Prop where
  cause_eq : fault.cause = fault'.cause
  left : List.Forall₂ R fault.left fault'.left

/-- What comes of reading in two ways: both read, or both stop at a fault. -/
inductive Parsed.Matches (R : Token → Token → Prop) (S : α → α' → Prop) :
    Parsed α → Parsed α' → Prop
  | read {a : α} {a' : α'} {rest rest' : List Token} {reported reported' : Array Fault} :
      S a a' → List.Forall₂ R rest rest' →
        List.Forall₂ (Fault.Matches R) reported.toList reported'.toList →
        Matches R S ⟨.ok a, rest, reported⟩ ⟨.ok a', rest', reported'⟩
  | stopped {fault fault' : Fault} {rest rest' : List Token} {reported reported' : Array Fault} :
      fault.Matches R fault' → List.Forall₂ R rest rest' →
        List.Forall₂ (Fault.Matches R) reported.toList reported'.toList →
        Matches R S ⟨.error fault, rest, reported⟩ ⟨.error fault', rest', reported'⟩

/-- Reports from before are put in front of those from now. -/
theorem Parsed.Matches.prepend {parsed : Parsed α} {parsed' : Parsed α'}
    {before before' : Array Fault} (h : parsed.Matches R S parsed')
    (hbefore : List.Forall₂ (Fault.Matches R) before.toList before'.toList) :
    Parsed.Matches R S ⟨parsed.result, parsed.rest, before ++ parsed.reported⟩
      ⟨parsed'.result, parsed'.rest, before' ++ parsed'.reported⟩ := by
  cases h with
  | read hvalue hrest hreported =>
      refine .read hvalue hrest ?_
      rw [Array.toList_append, Array.toList_append]
      exact List.rel_append hbefore hreported
  | stopped hfault hrest hreported =>
      refine .stopped hfault hrest ?_
      rw [Array.toList_append, Array.toList_append]
      exact List.rel_append hbefore hreported

namespace Rule

/-- Given tokens that match, what comes of the rules matches. -/
def Matches (R : Token → Token → Prop) (S : α → α' → Prop) (rule : Rule α) (rule' : Rule α') :
    Prop :=
  ∀ ⦃tokens tokens' : List Token⦄, List.Forall₂ R tokens tokens' →
    (rule tokens).Matches R S (rule' tokens')

/-- What comes of the rule matches if the tokens do. -/
abbrev ReadsAlike (R : Token → Token → Prop) (S : α → α → Prop) (rule : Rule α) : Prop :=
  Matches R S rule rule

/-! ## Single steps -/

theorem matches_pure {a : α} {a' : α'} (h : S a a') : Matches R S (pure a) (pure a') :=
  fun _ _ htokens => .read h htokens .nil

theorem matches_bind {rule : Rule α} {rule' : Rule α'} {next : α → Rule β} {next' : α' → Rule β'}
    (hrule : Matches R S rule rule') (hnext : ∀ ⦃a a'⦄, S a a' → Matches R T (next a) (next' a')) :
    Matches R T (rule >>= next) (rule' >>= next') := by
  intro tokens tokens' htokens
  have hfirst := hrule htokens
  rw [bind_apply, bind_apply]
  generalize rule tokens = first at hfirst
  generalize rule' tokens' = first' at hfirst
  cases hfirst with
  | stopped hfault hrest hreported => exact .stopped hfault hrest hreported
  | read hvalue hrest hreported => exact (hnext hvalue hrest).prepend hreported

theorem matches_fail (cause : SyntaxError.Cause) : Matches R S (fail cause) (fail cause) :=
  fun _ _ htokens => .stopped ⟨rfl, htokens⟩ htokens .nil

theorem matches_report (cause : SyntaxError.Cause) {left left' : List Token}
    (hleft : List.Forall₂ R left left') :
    Matches R (fun _ _ => True) (report cause left) (report cause left') :=
  fun _ _ htokens => .read trivial htokens (.cons ⟨rfl, hleft⟩ .nil)

theorem readsAlike_remaining : ReadsAlike R (List.Forall₂ R) remaining :=
  fun _ _ htokens => .read htokens htokens .nil

variable (halike : RelatesAlike R)

include halike

theorem readsAlike_nextIs (kind : Token.Kind → Bool) :
    ReadsAlike R (fun found found' => found = found') (nextIs kind) := by
  intro tokens tokens' htokens
  refine .read ?_ htokens .nil
  cases htokens with
  | nil => rfl
  | cons htoken _ => exact congrArg kind (halike htoken).kind_eq

theorem readsAlike_takeIf (kind : Token.Kind → Bool) :
    ReadsAlike R (Option.Rel R) (takeIf kind) := by
  intro tokens tokens' htokens
  cases htokens with
  | nil => exact .read .none .nil .nil
  | cons htoken hrest =>
      unfold takeIf
      dsimp only
      rw [← (halike htoken).kind_eq]
      split
      · exact .read (.some htoken) hrest .nil
      · exact .read .none (.cons htoken hrest) .nil

theorem readsAlike_expect (kind : Token.Kind → Bool) (cause : SyntaxError.Cause) :
    ReadsAlike R R (expect kind cause) := by
  refine matches_bind (readsAlike_takeIf halike kind) fun _ _ htaken => ?_
  cases htaken with
  | none => exact matches_fail cause
  | some htoken => exact matches_pure htoken

theorem readsAlike_expectSymbol (symbol : Symbol) (cause : SyntaxError.Cause) :
    ReadsAlike R (fun _ _ => True) (expectSymbol symbol cause) :=
  matches_bind (readsAlike_expect halike _ cause) fun _ _ _ => matches_pure trivial

/-- What is read and then closed by a symbol. -/
theorem matches_closed {rule : Rule α} {rule' : Rule α'} (hrule : Matches R S rule rule')
    (symbol : Symbol) (cause : SyntaxError.Cause) {next : α → Rule β} {next' : α' → Rule β'}
    (hnext : ∀ ⦃a a'⦄, S a a' → Matches R T (next a) (next' a')) :
    Matches R T (rule >>= fun a => expectSymbol symbol cause >>= fun _ => next a)
      (rule' >>= fun a => expectSymbol symbol cause >>= fun _ => next' a) :=
  matches_bind hrule fun _ _ h =>
    matches_bind (readsAlike_expectSymbol halike symbol cause) fun _ _ _ => hnext h

omit halike

/-! ## Repetition -/

/-- Steps match if given the same they take a turn both or none, with what matches. -/
def StepMatches (R : Token → Token → Prop) (S : α → α' → Prop)
    (step : α → List Token → Option (Parsed α)) (step' : α' → List Token → Option (Parsed α')) :
    Prop :=
  ∀ ⦃a a' tokens tokens'⦄, S a a' → List.Forall₂ R tokens tokens' →
    Option.Rel (Parsed.Matches R S) (step a tokens) (step' a' tokens')

theorem matches_iterate {step : α → List Token → Option (Parsed α)}
    {step' : α' → List Token → Option (Parsed α')} (hstep : StepMatches R S step step')
    {turns turns' : List Token} (hturns : List.Forall₂ R turns turns') {parsed : Parsed α}
    {parsed' : Parsed α'} (h : parsed.Matches R S parsed') :
    (iterate step turns parsed).Matches R S (iterate step' turns' parsed') := by
  induction hturns generalizing parsed parsed' with
  | nil => exact h
  | cons _ _ ih =>
      cases h with
      | stopped hfault hrest hreported => exact .stopped hfault hrest hreported
      | @read a a' rest rest' reported reported' hvalue hrest hreported =>
          have hnext := hstep hvalue hrest
          unfold iterate
          dsimp only
          generalize step a rest = next at hnext
          generalize step' a' rest' = next' at hnext
          cases hnext with
          | none => exact .read hvalue hrest hreported
          | some hparsed => exact ih (hparsed.prepend hreported)

theorem matches_repeating {step : α → List Token → Option (Parsed α)}
    {step' : α' → List Token → Option (Parsed α')} (hstep : StepMatches R S step step')
    {a : α} {a' : α'} (h : S a a') : Matches R S (repeating step a) (repeating step' a') :=
  fun _ _ htokens => matches_iterate hstep htokens (.read h htokens .nil)

end Rule

namespace Grammar

open Rule

variable {operand expression : Rule Expr} {statement : Rule Stmt} (halike : RelatesAlike R)

include halike

/-! ## Expressions -/

theorem readsAlike_primary (hexpression : ReadsAlike R (Expr.Matches R) expression) :
    ReadsAlike R (Expr.Matches R) (primary expression) := by
  intro tokens tokens' htokens
  cases htokens with
  | nil => exact matches_fail _ .nil
  | @cons token token' rest rest' htoken hrest =>
      unfold primary
      dsimp only
      rw [← (halike htoken).kind_eq]
      split
      · exact .read (.literal _) hrest .nil
      · exact .read (.variable htoken) hrest .nil
      · exact matches_closed halike hexpression _ _ (fun _ _ h => matches_pure (.grouping h)) hrest
      · exact matches_fail _ (.cons htoken hrest)

theorem readsAlike_unary (hoperand : ReadsAlike R (Expr.Matches R) operand)
    (hexpression : ReadsAlike R (Expr.Matches R) expression) :
    ReadsAlike R (Expr.Matches R) (unary operand expression) := by
  refine matches_bind (readsAlike_takeIf halike _) fun _ _ htaken => ?_
  cases htaken with
  | none => exact readsAlike_primary halike hexpression
  | some hoperator => exact matches_bind hoperand fun _ _ h => matches_pure (.unary hoperator h)

theorem readsAlike_leftAssoc (isOperator : Token.Kind → Bool) {node : Expr → Token → Expr → Expr}
    (hnode : ∀ {left left' operator operator' right right'}, Expr.Matches R left left' →
      R operator operator' → Expr.Matches R right right' →
      Expr.Matches R (node left operator right) (node left' operator' right'))
    (hoperand : ReadsAlike R (Expr.Matches R) operand) :
    ReadsAlike R (Expr.Matches R) (leftAssoc isOperator node operand) := by
  refine matches_bind hoperand fun _ _ hfirst => matches_repeating ?_ hfirst
  intro left left' tokens tokens' hleft htokens
  cases htokens with
  | nil => exact .none
  | cons hoperator hrest =>
      dsimp only
      rw [← (halike hoperator).kind_eq]
      split
      · refine .some (matches_bind hoperand (fun _ _ hright => ?_) hrest)
        exact matches_pure (hnode hleft hoperator hright)
      · exact .none

theorem readsAlike_operators (hoperand : ReadsAlike R (Expr.Matches R) operand) :
    ReadsAlike R (Expr.Matches R) (operators operand) :=
  readsAlike_leftAssoc halike _ .logical <| readsAlike_leftAssoc halike _ .logical <|
    readsAlike_leftAssoc halike _ .binary <| readsAlike_leftAssoc halike _ .binary <|
    readsAlike_leftAssoc halike _ .binary <| readsAlike_leftAssoc halike _ .binary hoperand

theorem readsAlike_assignment (hoperand : ReadsAlike R (Expr.Matches R) operand)
    (hexpression : ReadsAlike R (Expr.Matches R) expression) :
    ReadsAlike R (Expr.Matches R) (assignment operand expression) := by
  refine matches_bind (readsAlike_operators halike (readsAlike_unary halike hoperand hexpression))
    fun _ _ htarget => ?_
  refine matches_bind readsAlike_remaining fun _ _ hequals => ?_
  refine matches_bind (readsAlike_takeIf halike _) fun _ _ htaken => ?_
  cases htaken with
  | none => exact matches_pure htarget
  | some _ =>
      refine matches_bind hexpression fun _ _ hvalue => ?_
      have hsame := htarget
      -- both targets are names, or neither is
      cases htarget with
      | «variable» hname =>
          dsimp only
          exact matches_pure (.assign hname hvalue)
      | literal | grouping | unary | binary | logical | assign =>
          dsimp only
          exact matches_bind (matches_report _ hequals) fun _ _ _ => matches_pure hsame

theorem readsAlike_nested (levels : Nat) :
    ReadsAlike R (Expr.Matches R) (Grammar.operand levels) ∧
      ReadsAlike R (Expr.Matches R) (Grammar.expression levels) := by
  induction levels with
  | zero => exact ⟨matches_fail _, matches_fail _⟩
  | succ levels ih =>
      exact ⟨readsAlike_unary halike ih.1 ih.2, readsAlike_assignment halike ih.1 ih.2⟩

theorem readsAlike_expression (levels : Nat) :
    ReadsAlike R (Expr.Matches R) (Grammar.expression levels) :=
  (readsAlike_nested halike levels).2

/-! ## Statements -/

omit halike in
theorem Stmt.matches_forLoop {initializer initializer' : Option Stmt} {condition condition' : Expr}
    {increment increment' : Option Expr} {body body' : Stmt}
    (hinitializer : Option.Rel (Stmt.Matches R) initializer initializer')
    (hcondition : condition.Matches R condition')
    (hincrement : Option.Rel (Expr.Matches R) increment increment') (hbody : body.Matches R body') :
    (Stmt.forLoop initializer condition increment body).Matches R
      (Stmt.forLoop initializer' condition' increment' body') := by
  cases hinitializer with
  | none =>
      cases hincrement with
      | none => exact .loop hcondition hbody
      | some h => exact .loop hcondition (.block (.cons hbody (.cons (.expression h) .nil)))
  | some hstmt =>
      cases hincrement with
      | none => exact .block (.cons hstmt (.cons (.loop hcondition hbody) .nil))
      | some h =>
          refine .block (.cons hstmt (.cons (.loop hcondition ?_) .nil))
          exact .block (.cons hbody (.cons (.expression h) .nil))

theorem readsAlike_varDeclaration (hexpression : ReadsAlike R (Expr.Matches R) expression) :
    ReadsAlike R (Stmt.Matches R) (varDeclaration expression) := by
  refine matches_bind (readsAlike_expect halike _ _) fun _ _ hname => ?_
  refine matches_bind (readsAlike_takeIf halike _) fun _ _ htaken => ?_
  cases htaken with
  | none =>
      exact matches_bind (readsAlike_expectSymbol halike _ _) fun _ _ _ =>
        matches_pure (.declared hname)
  | some _ =>
      exact matches_closed halike hexpression _ _ fun _ _ h => matches_pure (.initialized hname h)

theorem readsAlike_expressionStatement (hexpression : ReadsAlike R (Expr.Matches R) expression) :
    ReadsAlike R (Stmt.Matches R) (expressionStatement expression) :=
  matches_closed halike hexpression _ _ fun _ _ h => matches_pure (.expression h)

theorem readsAlike_printStatement (hexpression : ReadsAlike R (Expr.Matches R) expression) :
    ReadsAlike R (Stmt.Matches R) (printStatement expression) :=
  matches_closed halike hexpression _ _ fun _ _ h => matches_pure (.print h)

variable (hexpression : ReadsAlike R (Expr.Matches R) expression)
  (hstatement : ReadsAlike R (Stmt.Matches R) statement)

include hexpression hstatement

theorem readsAlike_ifStatement :
    ReadsAlike R (Stmt.Matches R) (ifStatement expression statement) := by
  refine matches_bind (readsAlike_expectSymbol halike _ _) fun _ _ _ => ?_
  refine matches_closed halike hexpression _ _ fun _ _ hcondition => ?_
  refine matches_bind hstatement fun _ _ hthen => ?_
  refine matches_bind (readsAlike_takeIf halike _) fun _ _ htaken => ?_
  cases htaken with
  | none => exact matches_pure (.ifThen hcondition hthen)
  | some _ =>
      exact matches_bind hstatement fun _ _ helse => matches_pure (.ifElse hcondition hthen helse)

theorem readsAlike_whileStatement :
    ReadsAlike R (Stmt.Matches R) (whileStatement expression statement) := by
  refine matches_bind (readsAlike_expectSymbol halike _ _) fun _ _ _ => ?_
  refine matches_closed halike hexpression _ _ fun _ _ hcondition => ?_
  exact matches_bind hstatement fun _ _ hbody => matches_pure (.loop hcondition hbody)

omit hstatement in
theorem readsAlike_forInitializer :
    ReadsAlike R (Option.Rel (Stmt.Matches R)) (forInitializer expression) := by
  refine matches_bind (readsAlike_takeIf halike _) fun _ _ hsemicolon => ?_
  cases hsemicolon with
  | some _ => exact matches_pure .none
  | none =>
      refine matches_bind (readsAlike_takeIf halike _) fun _ _ hvar => ?_
      cases hvar with
      | some _ =>
          exact matches_bind (readsAlike_varDeclaration halike hexpression) fun _ _ h =>
            matches_pure (.some h)
      | none =>
          exact matches_bind (readsAlike_expressionStatement halike hexpression) fun _ _ h =>
            matches_pure (.some h)

omit hstatement in
theorem readsAlike_forCondition :
    ReadsAlike R (Expr.Matches R) (forCondition expression) := by
  refine matches_bind (readsAlike_nextIs halike _) fun found found' hfound => ?_
  subst hfound
  cases found with
  | true => exact matches_pure (.literal _)
  | false => exact hexpression

omit hstatement in
theorem readsAlike_forIncrement :
    ReadsAlike R (Option.Rel (Expr.Matches R)) (forIncrement expression) := by
  refine matches_bind (readsAlike_nextIs halike _) fun found found' hfound => ?_
  subst hfound
  cases found with
  | true => exact matches_pure .none
  | false => exact matches_bind hexpression fun _ _ h => matches_pure (.some h)

theorem readsAlike_forStatement :
    ReadsAlike R (Stmt.Matches R) (forStatement expression statement) := by
  refine matches_bind (readsAlike_expectSymbol halike _ _) fun _ _ _ => ?_
  refine matches_bind (readsAlike_forInitializer halike hexpression) fun _ _ hinitializer => ?_
  have hreadCondition := readsAlike_forCondition halike hexpression
  have hreadIncrement := readsAlike_forIncrement halike hexpression
  refine matches_closed halike hreadCondition _ _ fun _ _ hcondition => ?_
  refine matches_closed halike hreadIncrement _ _ fun _ _ hincrement => ?_
  exact matches_bind hstatement fun _ _ hbody =>
    matches_pure (Stmt.matches_forLoop hinitializer hcondition hincrement hbody)

/-! ## Declarations -/

theorem readsAlike_declaration :
    ReadsAlike R (Stmt.Matches R) (declaration expression statement) := by
  refine matches_bind (readsAlike_takeIf halike _) fun _ _ htaken => ?_
  cases htaken with
  | some _ => exact readsAlike_varDeclaration halike hexpression
  | none => exact hstatement

omit hexpression hstatement in
theorem forall₂_resume {tokens tokens' : List Token} (h : List.Forall₂ R tokens tokens') :
    List.Forall₂ R (resume tokens) (resume tokens') := by
  induction h with
  | nil => exact .nil
  | cons htoken hrest ih =>
      unfold resume
      rw [← (halike htoken).kind_eq]
      split
      · exact hrest
      · cases hrest with
        | nil => exact .nil
        | cons hnext hothers =>
            dsimp only
            rw [← (halike hnext).kind_eq]
            split
            · exact .cons hnext hothers
            · exact ih

omit hexpression hstatement in
theorem matches_recovering {rule : Rule α} {rule' : Rule α'} (hrule : Matches R S rule rule') :
    Matches R (Option.Rel S) (recovering rule) (recovering rule') := by
  intro tokens tokens' htokens
  have hparsed := hrule htokens
  unfold recovering
  generalize rule tokens = parsed at hparsed
  generalize rule' tokens' = parsed' at hparsed
  cases hparsed with
  | read hvalue hrest hreported => exact .read (.some hvalue) hrest hreported
  | stopped hfault hrest hreported =>
      refine .read .none (forall₂_resume halike hrest) ?_
      rw [Array.toList_push, Array.toList_push]
      exact List.rel_append hreported (.cons hfault .nil)

theorem stepMatches_declarationTurn (isLast : Token.Kind → Bool) :
    StepMatches R (Stmt.MatchesAll R)
      (declarationTurn isLast (declaration expression statement))
      (declarationTurn isLast (declaration expression statement)) := by
  intro reversed reversed' tokens tokens' hreversed htokens
  cases htokens with
  | nil => exact .none
  | cons htoken hrest =>
      have hdeclaration := readsAlike_declaration halike hexpression hstatement
      unfold declarationTurn
      dsimp only
      rw [← (halike htoken).kind_eq]
      split
      · exact .none
      · refine .some (matches_bind (matches_recovering halike hdeclaration) (fun _ _ hfound => ?_)
          (.cons htoken hrest))
        cases hfound with
        | none => exact matches_pure hreversed
        | some hstmt => exact matches_pure (.cons hstmt hreversed)

theorem readsAlike_declarations (isLast : Token.Kind → Bool) :
    ReadsAlike R (Stmt.MatchesAll R) (declarations isLast expression statement) := by
  have hstep := stepMatches_declarationTurn halike hexpression hstatement isLast
  rw [declarations_eq]
  exact matches_bind (matches_repeating hstep .nil) fun _ _ hreversed =>
    matches_pure hreversed.reverse

theorem readsAlike_block :
    ReadsAlike R (Stmt.Matches R) (block expression statement) :=
  matches_closed halike (readsAlike_declarations halike hexpression hstatement _) _ _
    fun _ _ hbody => matches_pure (.block hbody)

theorem readsAlike_statementBody :
    ReadsAlike R (Stmt.Matches R) (statementBody expression statement) := by
  intro tokens tokens' htokens
  cases htokens with
  | nil => exact readsAlike_expressionStatement halike hexpression .nil
  | cons htoken hrest =>
      unfold statementBody
      dsimp only
      rw [← (halike htoken).kind_eq]
      split
      · exact readsAlike_ifStatement halike hexpression hstatement hrest
      · exact readsAlike_printStatement halike hexpression hrest
      · exact readsAlike_block halike hexpression hstatement hrest
      · exact readsAlike_whileStatement halike hexpression hstatement hrest
      · exact readsAlike_forStatement halike hexpression hstatement hrest
      · exact readsAlike_expressionStatement halike hexpression (.cons htoken hrest)

omit hexpression hstatement

theorem readsAlike_statement (levels : Nat) :
    ReadsAlike R (Stmt.Matches R) (Grammar.statement levels) := by
  induction levels with
  | zero => exact matches_fail _
  | succ levels ih => exact readsAlike_statementBody halike (readsAlike_expression halike levels) ih

theorem readsAlike_program : ReadsAlike R (Stmt.MatchesAll R) Grammar.program :=
  readsAlike_declarations halike (readsAlike_expression halike maxNesting)
    (readsAlike_statement halike maxNesting) _

end Grammar

/-! ## Programs -/

theorem forall₂_programTokens (halike : RelatesAlike R) {tokens tokens' : List Token}
    (h : List.Forall₂ R tokens tokens') :
    List.Forall₂ R (programTokens tokens) (programTokens tokens') := by
  induction h with
  | nil => exact .nil
  | cons htoken _ ih =>
      unfold programTokens
      rw [List.takeWhile_cons, List.takeWhile_cons, ← (halike htoken).kind_eq]
      split
      · exact .cons htoken ih
      · exact .nil

/-- If the end of one of two lists of matching tokens is marked, their end marks match. -/
theorem relates_endMark (halike : RelatesAlike R) {tokens tokens' : List Token}
    (h : List.Forall₂ R tokens tokens') (hmark : ∃ token ∈ tokens, token.kind.isEnd = true) :
    R (endMark tokens) (endMark tokens') := by
  unfold endMark
  induction h with
  | nil => simp at hmark
  | @cons token token' _ _ htoken _ ih =>
      rw [List.find?_cons, List.find?_cons, ← (halike htoken).kind_eq]
      cases hend : token.kind.isEnd with
      | true => exact htoken
      | false =>
          obtain ⟨mark, hmem, hmark⟩ := hmark
          rcases List.mem_cons.1 hmem with rfl | hmem
          · rw [hmark] at hend
            cases hend
          · exact ih ⟨mark, hmem, hmark⟩

/-- The same mistake, at related tokens. -/
structure SyntaxError.Matches (R : Token → Token → Prop) (error error' : SyntaxError) : Prop where
  cause_eq : error.cause = error'.cause
  token : R error.token error'.token

/-- What is parsed in two ways: both are accepted, or both have the same mistakes. -/
inductive ParseMatches (R : Token → Token → Prop) :
    Except (List SyntaxError) (List Stmt) → Except (List SyntaxError) (List Stmt) → Prop
  | accepted {program program' : List Stmt} :
      Stmt.MatchesAll R program program' → ParseMatches R (.ok program) (.ok program')
  | rejected {errors errors' : List SyntaxError} :
      List.Forall₂ (SyntaxError.Matches R) errors errors' →
        ParseMatches R (.error errors) (.error errors')

private theorem matches_toError {endMark endMark' : Token} (hend : R endMark endMark')
    {faults faults' : List Fault} (h : List.Forall₂ (Fault.Matches R) faults faults') :
    List.Forall₂ (SyntaxError.Matches R) (faults.map (Fault.toError endMark))
      (faults'.map (Fault.toError endMark')) := by
  rw [List.forall₂_map_left_iff, List.forall₂_map_right_iff]
  refine h.imp fun fault fault' hfault => ⟨hfault.cause_eq, ?_⟩
  obtain ⟨cause, left⟩ := fault
  obtain ⟨cause', left'⟩ := fault'
  unfold Fault.toError
  cases hfault.left with
  | nil => exact hend
  | cons htoken _ => exact htoken

/-- Matching tokens are parsed alike, whether they are accepted or not. -/
theorem parse_matches (halike : RelatesAlike R) {tokens tokens' : List Token}
    (h : List.Forall₂ R tokens tokens') (hend : R (endMark tokens) (endMark tokens')) :
    ParseMatches R (parse tokens) (parse tokens') := by
  have hparsed := Grammar.readsAlike_program halike (forall₂_programTokens halike h)
  unfold parse
  generalize Grammar.program (programTokens tokens) = parsed at hparsed
  generalize Grammar.program (programTokens tokens') = parsed' at hparsed
  cases hparsed with
  | stopped hfault _ hreported =>
      have hfaults := List.rel_append hreported (.cons hfault .nil)
      exact .rejected (matches_toError hend hfaults)
  | @read _ _ _ _ reported reported' hprogram _ hreported =>
      -- a program that is read to its end may have faults that have been reported
      obtain ⟨faults⟩ := reported
      obtain ⟨faults'⟩ := reported'
      dsimp only [Parsed.faults] at hreported ⊢
      cases hreported with
      | nil => exact .accepted hprogram
      | cons hfault hothers => exact .rejected (matches_toError hend (.cons hfault hothers))

/-- If a program is accepted, so is one with matching tokens, and the trees match. -/
theorem exists_parse_eq_ok (halike : RelatesAlike R) {tokens tokens' : List Token}
    (h : List.Forall₂ R tokens tokens') {program : List Stmt}
    (hparse : parse tokens = .ok program) :
    ∃ program', parse tokens' = .ok program' ∧ Stmt.MatchesAll R program program' := by
  obtain ⟨rest, hreads⟩ := parse_eq_ok_iff_reads.1 hparse
  have hparsed := Grammar.readsAlike_program halike (forall₂_programTokens halike h)
  rw [hreads] at hparsed
  generalize hother : Grammar.program (programTokens tokens') = parsed' at hparsed
  cases hparsed with
  | @read _ program' _ rest' _ reported' hprogram _ hreported =>
      obtain rfl : reported' = #[] :=
        Array.toList_eq_nil_iff.1 (List.forall₂_nil_left_iff.1 hreported)
      exact ⟨program', parse_eq_ok_iff_reads.2 ⟨rest', hother⟩, hprogram⟩

end Lox
