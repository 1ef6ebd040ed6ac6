import Lox.Proofs.Grammar.Recovery

/-!
# Where a rule fails first

A rule fails at the first fault that is not a misplaced assignment.  It may have stopped there,
or a declaration in it did, and what was found after that does not matter here.  Up to this
fault everything has been read as it should be: `Clean` says so of the reports.

As for `Reads`, each way of building a rule has one lemma that tells when it fails.
-/

namespace Lox

open Grammar Rule Phrase

/-! ## The first fault -/

/-- A misplaced assignment, after which reading goes on. -/
structure Fault.IsMark (fault : Fault) : Prop where
  cause_eq : fault.cause = .invalidAssignmentTarget
  left_ne : fault.left ≠ []

/-- Of these faults this one is the first that is not a misplaced assignment. -/
inductive FirstStop (fault : Fault) : List Fault → Prop
  | here {others : List Fault} :
      fault.cause ≠ .invalidAssignmentTarget → FirstStop fault (fault :: others)
  | later {mark : Fault} {others : List Fault} :
      mark.IsMark → FirstStop fault others → FirstStop fault (mark :: others)

theorem FirstStop.mem {fault : Fault} {faults : List Fault} (h : FirstStop fault faults) :
    fault ∈ faults := by
  induction h with
  | here _ => exact List.mem_cons_self
  | later _ _ ih => exact List.mem_cons_of_mem _ ih

theorem FirstStop.cause_ne {fault : Fault} {faults : List Fault} (h : FirstStop fault faults) :
    fault.cause ≠ .invalidAssignmentTarget := by
  induction h with
  | here hcause => exact hcause
  | later _ _ ih => exact ih

@[simp] theorem not_firstStop_nil {fault : Fault} : ¬ FirstStop fault [] := by
  rintro ⟨⟩

@[simp] theorem firstStop_singleton {fault only : Fault} :
    FirstStop fault [only] ↔ only.cause ≠ .invalidAssignmentTarget ∧ fault = only := by
  constructor
  · rintro (hcause | ⟨_, ⟨⟩⟩)
    exact ⟨hcause, rfl⟩
  · rintro ⟨hcause, rfl⟩
    exact .here hcause

theorem firstStop_append {fault : Fault} {first second : List Fault} :
    FirstStop fault (first ++ second) ↔
      FirstStop fault first ∨ (∀ mark ∈ first, mark.IsMark) ∧ FirstStop fault second := by
  induction first with
  | nil => simp
  | cons found others ih =>
      constructor
      · rintro (hcause | ⟨hmark, h⟩)
        · exact .inl (.here hcause)
        · rcases ih.1 h with hothers | ⟨hmarks, hsecond⟩
          · exact .inl (.later hmark hothers)
          · exact .inr ⟨List.forall_mem_cons.2 ⟨hmark, hmarks⟩, hsecond⟩
      · rintro ((hcause | ⟨hmark, h⟩) | ⟨hmarks, h⟩)
        · exact .here hcause
        · exact .later hmark (ih.2 (.inl h))
        · obtain ⟨hmark, hothers⟩ := List.forall_mem_cons.1 hmarks
          exact .later hmark (ih.2 (.inr ⟨hothers, h⟩))

namespace Rule

/-- Nothing but misplaced assignments has been reported. -/
def Clean (reported : Array Fault) : Prop := ∀ fault ∈ reported.toList, fault.IsMark

@[simp] theorem clean_empty : Clean #[] := by simp [Clean]

theorem clean_append {before after : Array Fault} :
    Clean (before ++ after) ↔ Clean before ∧ Clean after := by
  unfold Clean
  rw [Array.toList_append]
  exact List.forall_mem_append

theorem not_clean_push {before : Array Fault} {fault : Fault}
    (h : fault.cause ≠ .invalidAssignmentTarget) : ¬ Clean (before.push fault) := by
  intro hclean
  exact h (hclean fault (by simp)).cause_eq

theorem clean_iff_exists_marks {reported : Array Fault} :
    Clean reported ↔ ∃ misplaced, Marks reported misplaced := by
  obtain ⟨faults⟩ := reported
  unfold Clean Marks
  induction faults with
  | nil => exact ⟨fun _ => ⟨[], rfl⟩, fun _ => by simp⟩
  | cons fault others ih =>
      simp only [List.forall_mem_cons, ih]
      constructor
      · rintro ⟨⟨hcause, hleft⟩, misplaced, hmarks⟩
        obtain ⟨equals, tail, heq⟩ := List.exists_cons_of_ne_nil hleft
        exact ⟨equals :: misplaced, by simp [hcause, heq, hmarks]⟩
      · rintro ⟨misplaced, hmarks⟩
        cases misplaced with
        | nil => simp at hmarks
        | cons equals misplaced =>
            simp only [List.map_cons, List.cons.injEq, Prod.mk.injEq] at hmarks
            obtain ⟨⟨hcause, hhead⟩, hothers⟩ := hmarks
            refine ⟨⟨hcause, ?_⟩, misplaced, hothers⟩
            intro hnil
            simp [hnil] at hhead

theorem Clean.not_firstStop {reported : Array Fault} (h : Clean reported) {fault : Fault} :
    ¬ FirstStop fault reported.toList := by
  intro hfirst
  exact hfirst.cause_ne (h fault hfirst.mem).cause_eq

variable {α β : Type}

/-- A rule that is given up has reported more than misplaced assignments. -/
theorem Orderly.not_clean_push {rule : Rule α} (h : rule.Orderly) {tokens left : List Token}
    {stop : Fault} {before : Array Fault} (hstop : rule.Stops tokens stop left before) :
    ¬ Clean (before.push stop) :=
  Rule.not_clean_push ((h tokens).cause_ne (by rw [hstop]))

/-- The rule fails on the tokens with this fault first. -/
def Fails (rule : Rule α) (tokens : List Token) (fault : Fault) : Prop :=
  FirstStop fault (rule tokens).faults

variable {rule : Rule α} {tokens rest : List Token} {fault : Fault} {reported : Array Fault}

theorem fails_of_reads {a : α} (h : rule.Reads tokens a rest reported) :
    rule.Fails tokens fault ↔ FirstStop fault reported.toList := by
  unfold Fails
  rw [show rule tokens = _ from h]
  rfl

/-! ## Single steps -/

@[simp] theorem not_fails_pure {a : α} : ¬ (pure a : Rule α).Fails tokens fault :=
  not_firstStop_nil

@[simp] theorem fails_fail {cause : SyntaxError.Cause} :
    (fail cause : Rule α).Fails tokens fault ↔
      cause ≠ .invalidAssignmentTarget ∧ fault = ⟨cause, tokens⟩ :=
  firstStop_singleton

@[simp] theorem not_fails_report {left : List Token} :
    ¬ (report .invalidAssignmentTarget left).Fails tokens fault :=
  fun h => (firstStop_singleton.1 h).1 rfl

/-- Of two rules in turn the first fails, or it has read and the second fails. -/
theorem fails_bind {next : α → Rule β} :
    (rule >>= next).Fails tokens fault ↔
      rule.Fails tokens fault ∨ ∃ a mid before, rule.Reads tokens a mid before ∧ Clean before ∧
        (next a).Fails mid fault := by
  rcases hparsed : rule tokens with ⟨stop | a, mid, before⟩
  · have hstops : rule.Stops tokens stop mid before := hparsed
    unfold Fails
    rw [bind_of_stops hstops, hparsed]
    refine ⟨.inl, ?_⟩
    rintro (h | ⟨_, _, _, hreads, _⟩)
    · exact h
    · cases hparsed.symm.trans hreads
  · have hreads : rule.Reads tokens a mid before := hparsed
    have hfaults : ((rule >>= next) tokens).faults = before.toList ++ (next a mid).faults := by
      rw [bind_of_reads hreads]
      rcases next a mid with ⟨_ | _, _, _⟩ <;> simp [Parsed.faults]
    unfold Fails
    rw [hfaults, firstStop_append, show (rule tokens).faults = before.toList by rw [hparsed]; rfl]
    refine or_congr_right ?_
    constructor
    · rintro ⟨hclean, h⟩
      exact ⟨a, mid, before, hreads, hclean, h⟩
    · rintro ⟨_, _, _, hother, hclean, h⟩
      cases hreads.symm.trans hother
      exact ⟨hclean, h⟩

/-- What is read is only passed on. -/
theorem fails_map {f : α → β} :
    (rule >>= fun a => pure (f a)).Fails tokens fault ↔ rule.Fails tokens fault := by
  rw [fails_bind]
  simp

theorem fails_remaining_bind {next : List Token → Rule β} :
    (remaining >>= next).Fails tokens fault ↔ (next tokens).Fails tokens fault := by
  unfold Fails
  have hread : remaining.Reads tokens tokens tokens #[] := rfl
  rw [bind_of_reads_empty hread]

theorem fails_nextIs_bind {kind : Token.Kind → Bool} {next : Bool → Rule β} :
    (nextIs kind >>= next).Fails tokens fault ↔ (next (starts kind tokens)).Fails tokens fault := by
  unfold Fails
  have hread : (nextIs kind).Reads tokens (starts kind tokens) tokens #[] := rfl
  rw [bind_of_reads_empty hread]

theorem fails_takeIf_bind {kind : Token.Kind → Bool} {next : Option Token → Rule β} :
    (takeIf kind >>= next).Fails tokens fault ↔
      (∃ token tail, tokens = token :: tail ∧ kind token.kind = true ∧
        (next (some token)).Fails tail fault) ∨
      (starts kind tokens = false ∧ (next none).Fails tokens fault) := by
  unfold Fails
  cases hstarts : starts kind tokens with
  | false =>
      rw [takeIf_bind_of_not_starts hstarts]
      constructor
      · exact fun h => .inr ⟨rfl, h⟩
      · rintro (⟨token, tail, rfl, hkind, _⟩ | ⟨_, h⟩)
        · rw [starts_cons, hkind] at hstarts
          cases hstarts
        · exact h
  | true =>
      cases tokens with
      | nil => simp at hstarts
      | cons token tail =>
          have hkind : kind token.kind = true := hstarts
          rw [takeIf_bind_of_pos hkind]
          constructor
          · exact fun h => .inl ⟨token, tail, rfl, hkind, h⟩
          · rintro (⟨_, _, ⟨⟩, _, h⟩ | ⟨⟨⟩, _⟩)
            exact h

theorem fails_expect_bind {kind : Token.Kind → Bool} {cause : SyntaxError.Cause}
    {next : Token → Rule β} :
    (expect kind cause >>= next).Fails tokens fault ↔
      (starts kind tokens = false ∧ cause ≠ .invalidAssignmentTarget ∧ fault = ⟨cause, tokens⟩) ∨
      ∃ token tail, tokens = token :: tail ∧ kind token.kind = true ∧
        (next token).Fails tail fault := by
  rw [fails_bind]
  constructor
  · rintro (h | ⟨token, mid, before, hread, _, h⟩)
    · rcases fails_takeIf_bind.1 h with ⟨_, _, _, _, hpure⟩ | ⟨hstarts, hfail⟩
      · exact absurd hpure not_fails_pure
      · exact .inl ⟨hstarts, fails_fail.1 hfail⟩
    · obtain ⟨rfl, hkind, rfl⟩ := reads_expect.1 hread
      exact .inr ⟨token, mid, rfl, hkind, h⟩
  · rintro (⟨hstarts, hfault⟩ | ⟨token, tail, rfl, hkind, h⟩)
    · exact .inl (fails_takeIf_bind.2 (.inr ⟨hstarts, fails_fail.2 hfault⟩))
    · exact .inr ⟨token, tail, #[], reads_expect.2 ⟨rfl, hkind, rfl⟩, by simp, h⟩

theorem fails_expectSymbol_bind {symbol : Symbol} {cause : SyntaxError.Cause}
    {next : Unit → Rule β} :
    (expectSymbol symbol cause >>= next).Fails tokens fault ↔
      (starts (·.isSymbol symbol) tokens = false ∧ cause ≠ .invalidAssignmentTarget ∧
        fault = ⟨cause, tokens⟩) ∨
      ∃ token tail, tokens = token :: tail ∧ token.kind = .symbol symbol ∧
        (next ()).Fails tail fault := by
  have hassoc : (expectSymbol symbol cause >>= next) tokens =
      (expect (·.isSymbol symbol) cause >>= fun _ => next ()) tokens := by
    unfold expectSymbol
    rw [bind_apply, bind_apply, bind_apply]
    rcases expect (·.isSymbol symbol) cause tokens with ⟨_ | _, _, _⟩
    · rfl
    · simp [Pure.pure]
  unfold Fails
  rw [hassoc]
  refine Iff.trans fails_expect_bind (or_congr_right ?_)
  simp only [Token.Kind.isSymbol_iff]
  rfl

/-- What is read before a symbol that has to follow it fails in itself, at the symbol, or after. -/
theorem fails_closed_bind {symbol : Symbol} {cause : SyntaxError.Cause} {next : α → Rule β} :
    (rule >>= fun a => expectSymbol symbol cause >>= fun _ => next a).Fails tokens fault ↔
      rule.Fails tokens fault ∨
      ∃ a mid before, rule.Reads tokens a mid before ∧ Clean before ∧
        ((starts (·.isSymbol symbol) mid = false ∧ cause ≠ .invalidAssignmentTarget ∧
            fault = ⟨cause, mid⟩) ∨
          ∃ token tail, mid = token :: tail ∧ token.kind = .symbol symbol ∧
            (next a).Fails tail fault) := by
  rw [fails_bind]
  simp only [fails_expectSymbol_bind]

theorem fails_closed {symbol : Symbol} {cause : SyntaxError.Cause} {f : α → β} :
    (rule >>= fun a => expectSymbol symbol cause >>= fun _ => pure (f a)).Fails tokens fault ↔
      rule.Fails tokens fault ∨
      ∃ a mid before, rule.Reads tokens a mid before ∧ Clean before ∧
        starts (·.isSymbol symbol) mid = false ∧ cause ≠ .invalidAssignmentTarget ∧
          fault = ⟨cause, mid⟩ := by
  rw [fails_closed_bind]
  simp

/-! ## Loops -/

/-- A loop fails in one of its turns, after others that have been read. -/
inductive LoopFails (step : α → List Token → Option (Parsed α)) (fault : Fault) :
    α → List Token → Prop
  | here {a : α} {tokens : List Token} {next : Parsed α} :
      step a tokens = some next → FirstStop fault next.faults → LoopFails step fault a tokens
  | later {a b : α} {tokens mid : List Token} {before : Array Fault} :
      step a tokens = some ⟨.ok b, mid, before⟩ → Clean before → LoopFails step fault b mid →
        LoopFails step fault a tokens

variable {step : α → List Token → Option (Parsed α)} {a : α}

private theorem faults_turn (parsed : Parsed α) (before : Array Fault) :
    Parsed.faults ⟨parsed.result, parsed.rest, before ++ parsed.reported⟩ =
      before.toList ++ parsed.faults := by
  obtain ⟨_ | _, _, _⟩ := parsed <;> simp [Parsed.faults]

theorem Loops.firstStop_iff {parsed : Parsed α} (h : Loops step a tokens parsed) :
    FirstStop fault parsed.faults ↔ LoopFails step fault a tokens := by
  induction h with
  | done hnone =>
      refine ⟨fun h => absurd h not_firstStop_nil, fun h => ?_⟩
      cases h with
      | here hsome _ => cases hnone.symm.trans hsome
      | later hsome _ _ => cases hnone.symm.trans hsome
  | stopped hstep =>
      refine ⟨.here hstep, fun h => ?_⟩
      cases h with
      | here hsome hfirst =>
          cases hstep.symm.trans hsome
          exact hfirst
      | later hsome _ _ => cases hstep.symm.trans hsome
  | turn hstep _ ih =>
      rw [faults_turn, firstStop_append, ih]
      constructor
      · rintro (hfirst | ⟨hclean, hlater⟩)
        · exact .here hstep hfirst
        · exact .later hstep hclean hlater
      · intro h
        cases h with
        | here hsome hfirst =>
            cases hstep.symm.trans hsome
            exact .inl hfirst
        | later hsome hclean hlater =>
            cases hstep.symm.trans hsome
            exact .inr ⟨hclean, hlater⟩

theorem fails_repeating (htakes : TakesTokens step) :
    (repeating step a).Fails tokens fault ↔ LoopFails step fault a tokens :=
  (loops_repeating htakes a tokens).firstStop_iff

end Rule

namespace Grammar

variable {operand expression : Rule Expr} {statement : Rule Stmt} {tokens : List Token}
  {fault : Fault}

/-! ## Expressions -/

/-- A primary expression fails where it would begin, or inside its parentheses. -/
theorem fails_primary :
    (primary expression).Fails tokens fault ↔
      (starts beginsPrimary tokens = false ∧ fault = ⟨.missingExpression, tokens⟩) ∨
      ∃ left tail, tokens = left :: tail ∧ left.kind = .symbol .leftParen ∧
        (expression.Fails tail fault ∨
          ∃ inner mid before, expression.Reads tail inner mid before ∧ Clean before ∧
            starts (·.isSymbol .rightParen) mid = false ∧
            fault = ⟨.unclosedGrouping, mid⟩) := by
  have hcause : SyntaxError.Cause.missingExpression ≠ .invalidAssignmentTarget := by decide
  constructor
  · intro h
    cases tokens with
    | nil => exact .inl ⟨rfl, (fails_fail.1 h).2⟩
    | cons token tail =>
        unfold Fails at h
        rw [primary_cons] at h
        split at h
        · exact absurd h not_firstStop_nil
        · exact absurd h not_firstStop_nil
        · rename_i hparen
          refine .inr ⟨token, tail, rfl, hparen, ?_⟩
          rcases fails_closed.1 h with hfails | ⟨inner, mid, before, hread, hclean, hnot, _, heq⟩
          · exact .inl hfails
          · exact .inr ⟨inner, mid, before, hread, hclean, hnot, heq⟩
        · rename_i hliteral hname hparen
          have hnot : isIdentifier token.kind = false := by
            rw [Bool.eq_false_iff, ne_eq, isIdentifier_iff]
            exact fun ⟨name, hkind⟩ => hname name hkind
          have hsymbol : token.kind.isSymbol .leftParen = false :=
            Bool.eq_false_iff.2 fun h => hparen (Token.Kind.isSymbol_iff.1 h)
          have hbegins : beginsPrimary token.kind = false := by
            simp [beginsPrimary, hliteral, hnot, hsymbol]
          exact .inl ⟨hbegins, (fails_fail.1 h).2⟩
  · rintro (⟨hbegins, rfl⟩ | ⟨left, tail, rfl, hleft, h⟩)
    · cases tokens with
      | nil => exact fails_fail.2 ⟨hcause, rfl⟩
      | cons token tail =>
          unfold Fails
          rw [primary_cons]
          split
          · rename_i hvalue
            simp [beginsPrimary, hvalue] at hbegins
          · rename_i hname
            simp [beginsPrimary, hname, isIdentifier] at hbegins
          · rename_i hparen
            simp [beginsPrimary, hparen, Token.Kind.isSymbol] at hbegins
          · exact fails_fail.2 ⟨hcause, rfl⟩
    · unfold Fails
      rw [primary_cons, hleft]
      refine fails_closed.2 ?_
      rcases h with hfails | ⟨inner, mid, before, hread, hclean, hnot, heq⟩
      · exact .inl hfails
      · exact .inr ⟨inner, mid, before, hread, hclean, hnot, by decide, heq⟩

/-- A turn of a level fails in its right operand. -/
theorem Level.turn_fails_iff {level : Level} {left : Expr} :
    (∃ next, level.turn operand left tokens = some next ∧ FirstStop fault next.faults) ↔
      ∃ operator tail, tokens = operator :: tail ∧ level.isOperator operator.kind = true ∧
        operand.Fails tail fault := by
  cases tokens with
  | nil => simp [Level.turn]
  | cons operator tail =>
      unfold Level.turn
      constructor
      · rintro ⟨next, hsome, hfirst⟩
        rw [Option.ite_none_right_eq_some, Option.some.injEq] at hsome
        obtain ⟨hkind, rfl⟩ := hsome
        exact ⟨operator, tail, rfl, hkind, fails_map.1 hfirst⟩
      · rintro ⟨_, _, ⟨⟩, hkind, hfails⟩
        exact ⟨_, if_pos hkind, fails_map.2 hfails⟩

/-- An assignment fails before its equals sign, or behind it. -/
theorem fails_assignment :
    (assignment operand expression).Fails tokens fault ↔
      (Level.rule Level.all (unary operand expression)).Fails tokens fault ∨
      ∃ target equals tail before,
        (Level.rule Level.all (unary operand expression)).Reads tokens target (equals :: tail)
          before ∧ Clean before ∧ equals.kind = .symbol .equal ∧ expression.Fails tail fault := by
  unfold assignment
  rw [Level.operators_eq_rule, fails_bind]
  refine or_congr_right ?_
  constructor
  · rintro ⟨target, mid, before, hread, hclean, h⟩
    rcases fails_takeIf_bind.1 (fails_remaining_bind.1 h) with
      ⟨equals, tail, rfl, hequals, hright⟩ | ⟨_, hpure⟩
    · refine ⟨target, equals, tail, before, hread, hclean, by simpa using hequals, ?_⟩
      rcases fails_bind.1 hright with hfails | ⟨value, rest, after, _, _, hfinish⟩
      · exact hfails
      · -- once the right side has been read, there is nothing to fail at
        cases target with
        | «variable» name => exact absurd hfinish not_fails_pure
        | literal | grouping | unary | binary | logical | assign =>
            exact absurd (fails_map.1 hfinish) not_fails_report
    · exact absurd hpure not_fails_pure
  · rintro ⟨target, equals, tail, before, hread, hclean, hequals, hvalue⟩
    refine ⟨target, equals :: tail, before, hread, hclean, fails_remaining_bind.2 ?_⟩
    refine fails_takeIf_bind.2 (.inl ⟨equals, tail, rfl, by simpa using hequals, ?_⟩)
    exact fails_bind.2 (.inl hvalue)

/-! ## Statements -/

variable {isLast : Token.Kind → Bool} {rule : Rule Stmt} {reversed : List Stmt}

theorem fails_recovering (horderly : rule.Orderly) :
    (recovering rule).Fails tokens fault ↔ rule.Fails tokens fault := by
  have hplace := horderly tokens
  unfold Fails recovering
  rcases rule tokens with ⟨stop | stmt, left, before⟩
  · simp [Parsed.faults]
  · rfl

/-- A turn of a list of declarations fails in the declaration. -/
theorem declarationTurn_fails_iff (horderly : rule.Orderly) :
    (∃ next, declarationTurn isLast rule reversed tokens = some next ∧
        FirstStop fault next.faults) ↔
      tokens ≠ [] ∧ starts isLast tokens = false ∧ rule.Fails tokens fault := by
  cases tokens with
  | nil => simp [declarationTurn]
  | cons token tail =>
      unfold declarationTurn
      constructor
      · rintro ⟨next, hsome, hfirst⟩
        rw [Option.ite_none_left_eq_some, Option.some.injEq] at hsome
        obtain ⟨hnot, rfl⟩ := hsome
        refine ⟨by simp, by simpa using hnot, (fails_recovering horderly).1 ?_⟩
        rcases fails_bind.1 hfirst with hfails | ⟨found, _, _, _, _, hpure⟩
        · exact hfails
        · cases found with
          | none => exact absurd hpure not_fails_pure
          | some stmt => exact absurd hpure not_fails_pure
      · rintro ⟨_, hnot, hfails⟩
        have hturn := (fails_recovering horderly).2 hfails
        exact ⟨_, if_neg (by simpa using hnot), fails_bind.2 (.inl hturn)⟩

/-- A statement fails behind the keyword or brace that opens it, or as an expression. -/
theorem fails_statementBody :
    (statementBody expression statement).Fails tokens fault ↔
      (∃ token tail inside, tokens = token :: tail ∧
        statementAfter? expression statement token.kind = some inside ∧ inside.Fails tail fault) ∨
      (starts opensStatement tokens = false ∧
        (expressionStatement expression).Fails tokens fault) :=
  statementBody_iff fun parsed => FirstStop fault parsed.faults

end Grammar

end Lox
