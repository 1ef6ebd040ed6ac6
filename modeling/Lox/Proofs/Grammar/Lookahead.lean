import Lox.Proofs.Grammar.Failing

/-!
# Rules look one token ahead

Of the tokens that it leaves a rule has seen the first at most.  So let two lists of tokens begin
with the same tokens and go on with `left` and `left'`, of which the first tokens are the same,
too.  A rule that comes to `left` in the one without a stop comes to `left'` in the other, and
one that fails at `left` fails at `left'`, for the same cause.

The levels that are left do not matter either, unless there are too few of them.  So `Follows`
compares two rules, of which the second may have more levels than the first.
-/

namespace Lox

open Grammar Rule

namespace Rule

variable {α β : Type}

/-- What the first rule does on tokens that end with `left`, the second does with `left'`: it
reads up to the same place, or fails at the first token of `left'`.  Besides, the first rule goes
forward, in what it leaves and in where it fails. -/
structure Follows (left left' : List Token) (rule rule' : Rule α) : Prop where
  suffix : ∀ {tokens a rest reported}, rule.Reads tokens a rest reported → rest <:+ tokens
  located : ∀ {tokens fault}, rule.Fails tokens fault → fault.left <:+ tokens
  reads : ∀ {u a r reported}, rule.Reads (u ++ left) a (r ++ left) reported → Clean reported →
    ∃ reported', rule'.Reads (u ++ left') a (r ++ left') reported' ∧ Clean reported'
  fails : ∀ {u cause}, rule.Fails (u ++ left) ⟨cause, left⟩ → cause ≠ .tooMuchNesting →
    rule'.Fails (u ++ left') ⟨cause, left'⟩

variable {left left' : List Token} {rule rule' : Rule α} {next next' : α → Rule β}

private theorem exists_append_of_suffix {r tokens : List Token} (h : r ++ left <:+ tokens) :
    ∃ s, tokens = s ++ left := by
  obtain ⟨s, rfl⟩ := (List.suffix_append r left).trans h
  exact ⟨s, rfl⟩

/-! ## Single steps -/

theorem follows_pure (a : α) : Follows left left' (pure a) (pure a) where
  suffix h := by
    obtain ⟨_, rfl, _⟩ := reads_pure.1 h
    exact List.suffix_refl _
  located h := absurd h not_fails_pure
  reads h _ := by
    obtain ⟨rfl, heq, _⟩ := reads_pure.1 h
    obtain rfl := List.append_cancel_right heq
    exact ⟨#[], reads_pure.2 ⟨rfl, rfl, rfl⟩, clean_empty⟩
  fails h _ := absurd h not_fails_pure

theorem follows_fail (cause : SyntaxError.Cause) :
    Follows left left' (fail cause : Rule α) (fail cause) where
  suffix h := absurd h reads_fail
  located h := by
    obtain ⟨_, rfl⟩ := fails_fail.1 h
    exact List.suffix_refl _
  reads h _ := absurd h reads_fail
  fails {u cause'} h _ := by
    obtain ⟨hcause, heq⟩ := fails_fail.1 h
    obtain ⟨rfl, hleft⟩ := Fault.mk.inj heq
    obtain rfl : u = [] := by simpa using hleft
    exact fails_fail.2 ⟨hcause, rfl⟩

/-- Without a level a rule fails for too much nesting, so it need not be followed. -/
theorem follows_of_tooMuchNesting (rule' : Rule α) :
    Follows left left' (fail .tooMuchNesting) rule' where
  suffix h := absurd h reads_fail
  located h := by
    obtain ⟨_, rfl⟩ := fails_fail.1 h
    exact List.suffix_refl _
  reads h _ := absurd h reads_fail
  fails h hnesting := by
    obtain ⟨_, heq⟩ := fails_fail.1 h
    exact absurd (Fault.mk.inj heq).1 hnesting

theorem follows_bind (hrule : Follows left left' rule rule')
    (hnext : ∀ a, Follows left left' (next a) (next' a)) :
    Follows left left' (rule >>= next) (rule' >>= next') where
  suffix h := by
    obtain ⟨a, mid, _, _, hfirst, hsecond, _⟩ := reads_bind.1 h
    exact ((hnext a).suffix hsecond).trans (hrule.suffix hfirst)
  located h := by
    rcases fails_bind.1 h with hfirst | ⟨a, mid, _, hread, _, hsecond⟩
    · exact hrule.located hfirst
    · exact ((hnext a).located hsecond).trans (hrule.suffix hread)
  reads h hclean := by
    obtain ⟨a, mid, before, after, hfirst, hsecond, rfl⟩ := reads_bind.1 h
    obtain ⟨hbefore, hafter⟩ := clean_append.1 hclean
    -- the first rule has not gone beyond the place that the second comes to
    obtain ⟨s, rfl⟩ := exists_append_of_suffix ((hnext a).suffix hsecond)
    obtain ⟨before', hfirst', hbefore'⟩ := hrule.reads hfirst hbefore
    obtain ⟨after', hsecond', hafter'⟩ := (hnext a).reads hsecond hafter
    exact ⟨before' ++ after', hfirst'.bind hsecond', clean_append.2 ⟨hbefore', hafter'⟩⟩
  fails h hnesting := by
    rcases fails_bind.1 h with hfirst | ⟨a, mid, before, hread, hclean, hsecond⟩
    · exact fails_bind.2 (.inl (hrule.fails hfirst hnesting))
    · obtain ⟨s, rfl⟩ := (hnext a).located hsecond
      obtain ⟨before', hread', hclean'⟩ := hrule.reads hread hclean
      have hsecond' := (hnext a).fails hsecond hnesting
      exact fails_bind.2 (.inr ⟨a, s ++ left', before', hread', hclean', hsecond'⟩)

/-- A misplaced assignment is reported before tokens that need not be the same. -/
theorem follows_report {from' from'' : List Token} (h : from' ≠ [] → from'' ≠ []) :
    Follows left left' (report .invalidAssignmentTarget from')
      (report .invalidAssignmentTarget from'') where
  suffix h := by
    cases h
    exact List.suffix_refl _
  located h := absurd h not_fails_report
  reads {u a r reported} hread hclean := by
    obtain ⟨_, hrest, rfl⟩ := Parsed.mk.inj hread
    obtain rfl := List.append_cancel_right hrest
    have hmark := (hclean ⟨.invalidAssignmentTarget, from'⟩ (by simp)).left_ne
    refine ⟨#[⟨.invalidAssignmentTarget, from''⟩], rfl, ?_⟩
    intro fault hmem
    obtain rfl : fault = ⟨.invalidAssignmentTarget, from''⟩ := by simpa using hmem
    exact ⟨rfl, h hmark⟩
  fails h _ := absurd h not_fails_report

/-! ## The first token -/

/-- Reads by a rule for what follows the first token, if there is one for it. -/
def byFirst (choose : Token → Option (Rule α)) (otherwise : Rule α) : Rule α
  | [] => otherwise []
  | token :: tail =>
      match choose token with
      | some rule => rule tail
      | none => otherwise (token :: tail)

variable {choose choose' : Token → Option (Rule α)} {otherwise otherwise' : Rule α}

theorem byFirst_cons (choose : Token → Option (Rule α)) (otherwise : Rule α) (token : Token)
    (tail : List Token) :
    byFirst choose otherwise (token :: tail) =
      match choose token with
      | some rule => rule tail
      | none => otherwise (token :: tail) := rfl

theorem takeIf_eq_byFirst (kind : Token.Kind → Bool) :
    takeIf kind =
      byFirst (fun token => if kind token.kind then some (pure (some token)) else none)
        (pure none) := by
  funext tokens
  cases tokens with
  | nil => rfl
  | cons token tail =>
      unfold takeIf byFirst
      dsimp only
      split
      · rfl
      · rfl

section

variable (hhead : left.head? = left'.head?)

include hhead

private theorem head?_append (u : List Token) : (u ++ left').head? = (u ++ left).head? := by
  rw [List.head?_append, List.head?_append, hhead]

omit hhead in
/-- For the first token there is a rule in both choices, or in neither. -/
private theorem byFirst_cons_cases
    (hchoose : ∀ token, Option.Rel (Follows left left') (choose token) (choose' token))
    (otherwise otherwise' : Rule α) (token : Token) :
    (∀ tail, byFirst choose otherwise (token :: tail) = otherwise (token :: tail) ∧
        byFirst choose' otherwise' (token :: tail) = otherwise' (token :: tail)) ∨
      ∃ rule rule', Follows left left' rule rule' ∧
        ∀ tail, byFirst choose otherwise (token :: tail) = rule tail ∧
          byFirst choose' otherwise' (token :: tail) = rule' tail := by
  have hrel := hchoose token
  unfold byFirst
  dsimp only
  generalize choose token = chosen at hrel
  generalize choose' token = chosen' at hrel
  cases hrel with
  | none => exact .inl fun _ => ⟨rfl, rfl⟩
  | some hrule => exact .inr ⟨_, _, hrule, fun _ => ⟨rfl, rfl⟩⟩

/-- A rule that is chosen by the first token leaves that one behind.  So the token is among those
that are shared, or else nothing is chosen for it. -/
private theorem byFirst_append_cases
    (hchoose : ∀ token, Option.Rel (Follows left left') (choose token) (choose' token))
    (otherwise otherwise' : Rule α) (u : List Token) :
    (byFirst choose otherwise (u ++ left) = otherwise (u ++ left) ∧
        byFirst choose' otherwise' (u ++ left') = otherwise' (u ++ left')) ∨
      (∃ s rule rule', Follows left left' rule rule' ∧
        byFirst choose otherwise (u ++ left) = rule (s ++ left) ∧
          byFirst choose' otherwise' (u ++ left') = rule' (s ++ left')) ∨
      ∃ rule rule' tail, Follows left left' rule rule' ∧ ¬ left <:+ tail ∧
        byFirst choose otherwise (u ++ left) = rule tail := by
  cases u with
  | cons token s =>
      rcases byFirst_cons_cases hchoose otherwise otherwise' token with
        heq | ⟨rule, rule', hrule, heq⟩
      · exact .inl ⟨(heq _).1, (heq _).2⟩
      · exact .inr (.inl ⟨s, rule, rule', hrule, (heq _).1, (heq _).2⟩)
  | nil =>
      cases left with
      | nil =>
          obtain rfl : left' = [] := by simpa using hhead.symm
          exact .inl ⟨rfl, rfl⟩
      | cons token tail =>
          obtain ⟨tail', rfl⟩ : ∃ tail', left' = token :: tail' := by
            cases left' with
            | nil => cases hhead
            | cons other tail' => exact ⟨tail', by rw [Option.some.inj hhead]⟩
          rcases byFirst_cons_cases hchoose otherwise otherwise' token with
            heq | ⟨rule, rule', hrule, heq⟩
          · exact .inl ⟨(heq _).1, (heq _).2⟩
          · refine .inr (.inr ⟨rule, rule', tail, hrule, ?_, (heq _).1⟩)
            intro hsuffix
            exact Nat.not_succ_le_self _ hsuffix.length_le

theorem follows_byFirst
    (hchoose : ∀ token, Option.Rel (Follows left left') (choose token) (choose' token))
    (hotherwise : Follows left left' otherwise otherwise') :
    Follows left left' (byFirst choose otherwise) (byFirst choose' otherwise') where
  suffix {tokens a rest reported} h := by
    cases tokens with
    | nil => exact hotherwise.suffix h
    | cons token tail =>
        unfold Reads at h
        rcases byFirst_cons_cases hchoose otherwise otherwise' token with
          heq | ⟨rule, rule', hrule, heq⟩
        · rw [(heq tail).1] at h
          exact hotherwise.suffix h
        · rw [(heq tail).1] at h
          exact (hrule.suffix h).trans (List.suffix_cons token tail)
  located {tokens fault} h := by
    cases tokens with
    | nil => exact hotherwise.located h
    | cons token tail =>
        unfold Fails at h
        rcases byFirst_cons_cases hchoose otherwise otherwise' token with
          heq | ⟨rule, rule', hrule, heq⟩
        · rw [(heq tail).1] at h
          exact hotherwise.located h
        · rw [(heq tail).1] at h
          exact (hrule.located h).trans (List.suffix_cons token tail)
  reads {u a r reported} h hclean := by
    unfold Reads at h ⊢
    rcases byFirst_append_cases hhead hchoose otherwise otherwise' u with
      ⟨heq, heq'⟩ | ⟨s, rule, rule', hrule, heq, heq'⟩ | ⟨rule, rule', tail, hrule, hnot, heq⟩
    · rw [heq] at h
      rw [heq']
      exact hotherwise.reads h hclean
    · rw [heq] at h
      rw [heq']
      exact hrule.reads h hclean
    · rw [heq] at h
      exact absurd ((List.suffix_append r left).trans (hrule.suffix h)) hnot
  fails {u cause} h hnesting := by
    unfold Fails at h ⊢
    rcases byFirst_append_cases hhead hchoose otherwise otherwise' u with
      ⟨heq, heq'⟩ | ⟨s, rule, rule', hrule, heq, heq'⟩ | ⟨rule, rule', tail, hrule, hnot, heq⟩
    · rw [heq] at h
      rw [heq']
      exact hotherwise.fails h hnesting
    · rw [heq] at h
      rw [heq']
      exact hrule.fails h hnesting
    · rw [heq] at h
      exact absurd (hrule.located h) hnot

theorem follows_takeIf (kind : Token.Kind → Bool) :
    Follows left left' (takeIf kind) (takeIf kind) := by
  rw [takeIf_eq_byFirst]
  refine follows_byFirst hhead (fun token => ?_) (follows_pure none)
  split
  · exact .some (follows_pure (some token))
  · exact .none

theorem follows_expect (kind : Token.Kind → Bool) (cause : SyntaxError.Cause) :
    Follows left left' (expect kind cause) (expect kind cause) := by
  refine follows_bind (follows_takeIf hhead kind) fun taken => ?_
  cases taken with
  | none => exact follows_fail cause
  | some token => exact follows_pure token

theorem follows_expectSymbol (symbol : Symbol) (cause : SyntaxError.Cause) :
    Follows left left' (expectSymbol symbol cause) (expectSymbol symbol cause) :=
  follows_bind (follows_expect hhead _ cause) fun _ => follows_pure ()

/-- What is read and then closed by a symbol. -/
theorem follows_closed (hrule : Follows left left' rule rule') (symbol : Symbol)
    (cause : SyntaxError.Cause) (hnext : ∀ a, Follows left left' (next a) (next' a)) :
    Follows left left' (rule >>= fun a => expectSymbol symbol cause >>= fun _ => next a)
      (rule' >>= fun a => expectSymbol symbol cause >>= fun _ => next' a) :=
  follows_bind hrule fun a =>
    follows_bind (follows_expectSymbol hhead symbol cause) fun _ => hnext a

theorem follows_nextIs (kind : Token.Kind → Bool) :
    Follows left left' (nextIs kind) (nextIs kind) where
  suffix h := by
    obtain ⟨_, rfl, _⟩ := Parsed.mk.inj h
    exact List.suffix_refl _
  located h := absurd h not_firstStop_nil
  reads {u a r reported} h _ := by
    obtain ⟨hfound, hrest, _⟩ := Parsed.mk.inj h
    obtain rfl := List.append_cancel_right hrest
    refine ⟨#[], ?_, clean_empty⟩
    unfold Reads nextIs
    rw [head?_append hhead, hfound]
  fails h _ := absurd h not_firstStop_nil

private theorem append_ne_nil (u : List Token) (h : u ++ left ≠ []) : u ++ left' ≠ [] := by
  intro hnil
  have heq := head?_append hhead u
  rw [hnil] at heq
  exact h (List.head?_eq_none_iff.1 heq.symm)

/-- The tokens that are left differ, but they are there in both cases or in neither. -/
theorem follows_remaining_bind {next next' : List Token → Rule β}
    (hnext : ∀ left₁ left₂, (left₁ ≠ [] → left₂ ≠ []) →
      Follows left left' (next left₁) (next' left₂)) :
    Follows left left' (remaining >>= next) (remaining >>= next') where
  suffix h := (hnext _ _ id).suffix (reads_remaining_bind.1 h)
  located h := (hnext _ _ id).located (fails_remaining_bind.1 h)
  reads {u a r reported} h hclean := by
    have hne := append_ne_nil hhead u
    obtain ⟨reported', hread, hclean'⟩ := (hnext _ _ hne).reads (reads_remaining_bind.1 h) hclean
    exact ⟨reported', reads_remaining_bind.2 hread, hclean'⟩
  fails {u cause} h hnesting := by
    have hne := append_ne_nil hhead u
    exact fails_remaining_bind.2 ((hnext _ _ hne).fails (fails_remaining_bind.1 h) hnesting)

/-! ## Loops -/

omit hhead

/-- Steps by one rule for each value, as long as the next token is one to go on with. -/
def stepWhile (goesOn : Option Token → Bool) (turn : α → Rule α) (a : α) (tokens : List Token) :
    Option (Parsed α) :=
  if goesOn tokens.head? then some (turn a tokens) else none

variable {goesOn : Option Token → Bool} {turn turn' : α → Rule α} {a b : α}
  {tokens rest : List Token} {reported : Array Fault} {fault : Fault}

theorem stepWhile_eq_some_iff {parsed : Parsed α} :
    stepWhile goesOn turn a tokens = some parsed ↔
      goesOn tokens.head? = true ∧ turn a tokens = parsed := by
  simp [stepWhile]

theorem stepWhile_eq_none_iff :
    stepWhile goesOn turn a tokens = none ↔ goesOn tokens.head? = false := by
  simp [stepWhile]

section

variable (hturn : ∀ a, Follows left left' (turn a) (turn' a))

include hturn

private theorem suffix_of_turns (h : Turns (stepWhile goesOn turn) a tokens b rest reported) :
    rest <:+ tokens := by
  induction h with
  | done _ => exact List.suffix_refl _
  | turn hstep _ ih =>
      obtain ⟨_, hread⟩ := stepWhile_eq_some_iff.1 hstep
      exact ih.trans ((hturn _).suffix hread)

private theorem suffix_of_loopFails (h : LoopFails (stepWhile goesOn turn) fault a tokens) :
    fault.left <:+ tokens := by
  induction h with
  | here hstep hfirst =>
      obtain ⟨_, rfl⟩ := stepWhile_eq_some_iff.1 hstep
      exact (hturn _).located hfirst
  | later hstep _ _ ih =>
      obtain ⟨_, hread⟩ := stepWhile_eq_some_iff.1 hstep
      exact ih.trans ((hturn _).suffix hread)

include hhead

private theorem turns_follow (h : Turns (stepWhile goesOn turn) a tokens b rest reported) :
    ∀ {u r : List Token}, tokens = u ++ left → rest = r ++ left → Clean reported →
      ∃ reported', Turns (stepWhile goesOn turn') a (u ++ left') b (r ++ left') reported' ∧
        Clean reported' := by
  induction h with
  | done hnone =>
      rintro u r rfl heq _
      obtain rfl := List.append_cancel_right heq
      have hdone := stepWhile_eq_none_iff.1 hnone
      rw [← head?_append hhead] at hdone
      exact ⟨#[], .done (stepWhile_eq_none_iff.2 hdone), clean_empty⟩
  | turn hstep hturns ih =>
      rintro u r rfl rfl hclean
      obtain ⟨hgoes, hread⟩ := stepWhile_eq_some_iff.1 hstep
      obtain ⟨hbefore, hafter⟩ := clean_append.1 hclean
      obtain ⟨s, rfl⟩ := exists_append_of_suffix (suffix_of_turns hturn hturns)
      obtain ⟨before', hread', hbefore'⟩ := (hturn _).reads hread hbefore
      obtain ⟨after', hturns', hafter'⟩ := ih rfl rfl hafter
      rw [← head?_append hhead] at hgoes
      exact ⟨before' ++ after', .turn (stepWhile_eq_some_iff.2 ⟨hgoes, hread'⟩) hturns',
        clean_append.2 ⟨hbefore', hafter'⟩⟩

private theorem loopFails_follow {cause : SyntaxError.Cause} (hnesting : cause ≠ .tooMuchNesting)
    (h : LoopFails (stepWhile goesOn turn) ⟨cause, left⟩ a tokens) :
    ∀ {u : List Token}, tokens = u ++ left →
      LoopFails (stepWhile goesOn turn') ⟨cause, left'⟩ a (u ++ left') := by
  induction h with
  | here hstep hfirst =>
      rintro u rfl
      obtain ⟨hgoes, rfl⟩ := stepWhile_eq_some_iff.1 hstep
      rw [← head?_append hhead] at hgoes
      exact .here (stepWhile_eq_some_iff.2 ⟨hgoes, rfl⟩) ((hturn _).fails hfirst hnesting)
  | later hstep hclean hlater ih =>
      rintro u rfl
      obtain ⟨hgoes, hread⟩ := stepWhile_eq_some_iff.1 hstep
      obtain ⟨s, rfl⟩ := suffix_of_loopFails hturn hlater
      obtain ⟨before', hread', hclean'⟩ := (hturn _).reads hread hclean
      rw [← head?_append hhead] at hgoes
      exact .later (stepWhile_eq_some_iff.2 ⟨hgoes, hread'⟩) hclean' (ih rfl)

theorem follows_repeating (htakes : TakesTokens (stepWhile goesOn turn))
    (htakes' : TakesTokens (stepWhile goesOn turn')) (a : α) :
    Follows left left' (repeating (stepWhile goesOn turn) a)
      (repeating (stepWhile goesOn turn') a) where
  suffix h := suffix_of_turns hturn ((reads_repeating htakes).1 h)
  located h := suffix_of_loopFails hturn ((fails_repeating htakes).1 h)
  reads h hclean := by
    obtain ⟨reported', hturns, hclean'⟩ :=
      turns_follow hhead hturn ((reads_repeating htakes).1 h) rfl rfl hclean
    exact ⟨reported', (reads_repeating htakes').2 hturns, hclean'⟩
  fails h hnesting := by
    have hloop := loopFails_follow hhead hturn hnesting ((fails_repeating htakes).1 h) rfl
    exact (fails_repeating htakes').2 hloop

end

end

end Rule

namespace Grammar

variable {left left' : List Token} (hhead : left.head? = left'.head?)
  {operand operand' expression expression' : Rule Expr}

/-! ## Rules that go by the next token -/

/-- The rule for what follows the first token of a primary expression. -/
def primaryAfter? (expression : Rule Expr) (token : Token) : Option (Rule Expr) :=
  match literal? token.kind, token.kind with
  | some value, _ => some (pure (.literal value))
  | none, .identifier _ => some (pure (.variable token))
  | none, .symbol .leftParen =>
      some do
        let inner ← expression
        expectSymbol .rightParen .unclosedGrouping
        return .grouping inner
  | none, _ => none

theorem primary_eq_byFirst (expression : Rule Expr) :
    primary expression = byFirst (primaryAfter? expression) (fail .missingExpression) := by
  funext tokens
  cases tokens with
  | nil => rfl
  | cons token tail =>
      rw [primary_cons]
      unfold byFirst primaryAfter?
      dsimp only
      generalize literal? token.kind = value
      generalize token.kind = kind
      cases value with
      | some value => rfl
      | none =>
          cases kind with
          | symbol symbol => cases symbol <;> rfl
          | _ => rfl

/-- One turn of a level reads its operator, which is there, and then the right operand. -/
theorem Level.turn_eq_stepWhile (level : Level) (operand : Rule Expr) :
    level.turn operand =
      stepWhile (·.any (level.isOperator ·.kind)) fun left =>
        expect level.isOperator .missingExpression >>= fun operator =>
          operand >>= fun right => pure (level.node left operator right) := by
  funext left tokens
  cases tokens with
  | nil => rfl
  | cons operator tail =>
      by_cases hkind : level.isOperator operator.kind = true
      · have hread : (expect level.isOperator .missingExpression).Reads (operator :: tail) operator
            tail #[] := reads_expect.2 ⟨rfl, hkind, rfl⟩
        have hturn : (expect level.isOperator .missingExpression >>= fun operator =>
            operand >>= fun right => pure (level.node left operator right)) (operator :: tail) =
              (operand >>= fun right => pure (level.node left operator right)) tail :=
          bind_of_reads_empty hread
        exact (if_pos hkind).trans ((congrArg some hturn.symm).trans (if_pos hkind).symm)
      · exact (if_neg hkind).trans (if_neg hkind).symm

theorem statementBody_eq_byFirst (expression : Rule Expr) (statement : Rule Stmt) :
    statementBody expression statement =
      byFirst (fun token => statementAfter? expression statement token.kind)
        (expressionStatement expression) := by
  funext tokens
  cases tokens with
  | nil => rfl
  | cons token tail =>
      unfold byFirst
      dsimp only
      cases hafter : statementAfter? expression statement token.kind with
      | none => exact statementBody_of_eq_none hafter
      | some inside => exact statementBody_of_eq_some hafter

theorem declarationTurn_eq_stepWhile (isLast : Token.Kind → Bool) (rule : Rule Stmt) :
    declarationTurn isLast rule =
      stepWhile (·.any (!isLast ·.kind)) fun reversed => do
        match ← recovering rule with
        | some stmt => return stmt :: reversed
        | none => return reversed := by
  funext reversed tokens
  cases tokens with
  | nil => rfl
  | cons token tail =>
      by_cases hlast : isLast token.kind = true
      · exact (if_pos hlast).trans (if_neg (by simp [hlast])).symm
      · exact (if_neg hlast).trans (if_pos (by simp [hlast])).symm

/-! ## Expressions -/

include hhead

theorem follows_primary (hexpression : Follows left left' expression expression') :
    Follows left left' (primary expression) (primary expression') := by
  rw [primary_eq_byFirst, primary_eq_byFirst]
  refine follows_byFirst hhead (fun token => ?_) (follows_fail _)
  unfold primaryAfter?
  split
  · exact .some (follows_pure _)
  · exact .some (follows_pure _)
  · exact .some (follows_closed hhead hexpression _ _ fun _ => follows_pure _)
  · exact .none

theorem follows_unary (hoperand : Follows left left' operand operand')
    (hexpression : Follows left left' expression expression') :
    Follows left left' (unary operand expression) (unary operand' expression') := by
  refine follows_bind (follows_takeIf hhead isUnary) fun taken => ?_
  cases taken with
  | none => exact follows_primary hhead hexpression
  | some operator => exact follows_bind hoperand fun right => follows_pure _

theorem follows_rule (horderly : operand.Orderly) (horderly' : operand'.Orderly)
    (hoperand : Follows left left' operand operand') :
    ∀ tiers : List Level, Follows left left' (Level.rule tiers operand) (Level.rule tiers operand')
  | [] => hoperand
  | level :: tiers => by
      have htighter := follows_rule horderly horderly' hoperand tiers
      have htakes := @Level.takesTokens _ level (Level.orderly_rule horderly tiers)
      have htakes' := @Level.takesTokens _ level (Level.orderly_rule horderly' tiers)
      refine follows_bind htighter fun first => ?_
      show Follows left left' (repeating (level.turn _) first) (repeating (level.turn _) first)
      rw [Level.turn_eq_stepWhile] at htakes htakes' ⊢
      rw [Level.turn_eq_stepWhile]
      refine follows_repeating hhead (fun left => ?_) htakes htakes' first
      refine follows_bind (follows_expect hhead _ _) fun operator => ?_
      exact follows_bind htighter fun right => follows_pure _

theorem follows_assignment (horderly : (unary operand expression).Orderly)
    (horderly' : (unary operand' expression').Orderly)
    (hoperand : Follows left left' operand operand')
    (hexpression : Follows left left' expression expression') :
    Follows left left' (assignment operand expression) (assignment operand' expression') := by
  have hunary := follows_unary hhead hoperand hexpression
  unfold assignment
  rw [Level.operators_eq_rule, Level.operators_eq_rule]
  refine follows_bind (follows_rule hhead horderly horderly' hunary Level.all) fun target => ?_
  refine follows_remaining_bind hhead fun from₁ from₂ hne => ?_
  refine follows_bind (follows_takeIf hhead _) fun taken => ?_
  cases taken with
  | none => exact follows_pure target
  | some equals =>
      refine follows_bind hexpression fun value => ?_
      cases target with
      | «variable» name => exact follows_pure _
      | literal | grouping | unary | binary | logical | assign =>
          exact follows_bind (follows_report hne) fun _ => follows_pure _

/-- With more levels left nothing else is read. -/
theorem follows_nested (levels : Nat) : ∀ {more : Nat}, levels ≤ more →
    Follows left left' (Grammar.operand levels) (Grammar.operand more) ∧
      Follows left left' (Grammar.expression levels) (Grammar.expression more) := by
  induction levels with
  | zero => exact fun _ => ⟨follows_of_tooMuchNesting _, follows_of_tooMuchNesting _⟩
  | succ levels ih =>
      intro more hle
      obtain ⟨deeper, rfl⟩ := Nat.exists_eq_add_of_le' (Nat.le_of_add_left_le hle)
      obtain ⟨hoperand, hexpression⟩ := ih (show levels ≤ deeper by omega)
      exact ⟨follows_unary hhead hoperand hexpression,
        follows_assignment hhead (Phrase.orderly_unaryAt levels) (Phrase.orderly_unaryAt deeper)
          hoperand hexpression⟩

theorem follows_expression {levels more : Nat} (hle : levels ≤ more) :
    Follows left left' (Grammar.expression levels) (Grammar.expression more) :=
  (follows_nested hhead levels hle).2

/-! ## Statements -/

section

variable {statement statement' : Rule Stmt}
  (hexpression : Follows left left' expression expression')

include hexpression

theorem follows_varDeclaration :
    Follows left left' (varDeclaration expression) (varDeclaration expression') := by
  refine follows_bind (follows_expect hhead _ _) fun name => ?_
  refine follows_bind (follows_takeIf hhead _) fun taken => ?_
  cases taken with
  | none => exact follows_bind (follows_expectSymbol hhead _ _) fun _ => follows_pure _
  | some equals => exact follows_closed hhead hexpression _ _ fun _ => follows_pure _

theorem follows_expressionStatement :
    Follows left left' (expressionStatement expression) (expressionStatement expression') :=
  follows_closed hhead hexpression _ _ fun _ => follows_pure _

theorem follows_printStatement :
    Follows left left' (printStatement expression) (printStatement expression') :=
  follows_closed hhead hexpression _ _ fun _ => follows_pure _

theorem follows_forInitializer :
    Follows left left' (forInitializer expression) (forInitializer expression') := by
  refine follows_bind (follows_takeIf hhead _) fun taken => ?_
  cases taken with
  | some semicolon => exact follows_pure none
  | none =>
      refine follows_bind (follows_takeIf hhead _) fun taken => ?_
      cases taken with
      | some keyword =>
          exact follows_bind (follows_varDeclaration hhead hexpression) fun _ => follows_pure _
      | none =>
          exact follows_bind (follows_expressionStatement hhead hexpression) fun _ => follows_pure _

theorem follows_forCondition :
    Follows left left' (forCondition expression) (forCondition expression') := by
  refine follows_bind (follows_nextIs hhead _) fun absent => ?_
  cases absent with
  | true => exact follows_pure _
  | false => exact hexpression

theorem follows_forIncrement :
    Follows left left' (forIncrement expression) (forIncrement expression') := by
  refine follows_bind (follows_nextIs hhead _) fun absent => ?_
  cases absent with
  | true => exact follows_pure _
  | false => exact follows_bind hexpression fun _ => follows_pure _

variable (hstatement : Follows left left' statement statement')

include hstatement

theorem follows_ifStatement :
    Follows left left' (ifStatement expression statement) (ifStatement expression' statement') := by
  refine follows_bind (follows_expectSymbol hhead _ _) fun _ => ?_
  refine follows_closed hhead hexpression _ _ fun condition => ?_
  refine follows_bind hstatement fun thenBranch => ?_
  refine follows_bind (follows_takeIf hhead _) fun taken => ?_
  cases taken with
  | none => exact follows_pure _
  | some other => exact follows_bind hstatement fun _ => follows_pure _

theorem follows_whileStatement :
    Follows left left' (whileStatement expression statement)
      (whileStatement expression' statement') := by
  refine follows_bind (follows_expectSymbol hhead _ _) fun _ => ?_
  refine follows_closed hhead hexpression _ _ fun condition => ?_
  exact follows_bind hstatement fun _ => follows_pure _

theorem follows_forStatement :
    Follows left left' (forStatement expression statement)
      (forStatement expression' statement') := by
  refine follows_bind (follows_expectSymbol hhead _ _) fun _ => ?_
  refine follows_bind (follows_forInitializer hhead hexpression) fun initializer => ?_
  refine follows_closed hhead (follows_forCondition hhead hexpression) _ _ fun condition => ?_
  refine follows_closed hhead (follows_forIncrement hhead hexpression) _ _ fun increment => ?_
  exact follows_bind hstatement fun _ => follows_pure _

theorem follows_declaration :
    Follows left left' (declaration expression statement) (declaration expression' statement') := by
  refine follows_bind (follows_takeIf hhead _) fun taken => ?_
  cases taken with
  | some keyword => exact follows_varDeclaration hhead hexpression
  | none => exact hstatement

end

/-! ## Declarations -/

section

omit hhead

variable {rule rule' : Rule Stmt}

/-- A declaration that is given up has reported its fault, so it is none that has been read. -/
theorem follows_recovering (horderly : rule.Orderly) (horderly' : rule'.Orderly)
    (hrule : Follows left left' rule rule') :
    Follows left left' (recovering rule) (recovering rule') where
  suffix {tokens a rest reported} h := by
    have hsuffix := (orderly_recovering horderly tokens).suffix
    rw [show recovering rule tokens = _ from h] at hsuffix
    exact hsuffix
  located h := hrule.located ((fails_recovering horderly).1 h)
  reads h hclean := by
    rcases reads_recovering.1 h with ⟨stmt, rfl, hread⟩ | ⟨stop, left, before, _, hstop, _, rfl⟩
    · obtain ⟨reported', hread', hclean'⟩ := hrule.reads hread hclean
      exact ⟨reported', reads_recovering.2 (.inl ⟨stmt, rfl, hread'⟩), hclean'⟩
    · exact absurd hclean (horderly.not_clean_push hstop)
  fails h hnesting :=
    (fails_recovering horderly').2 (hrule.fails ((fails_recovering horderly).1 h) hnesting)

end

section

variable {statement statement' : Rule Stmt}
  (horderly : (declaration expression statement).Orderly)
  (hconsumes : (declaration expression statement).Consumes)
  (horderly' : (declaration expression' statement').Orderly)
  (hconsumes' : (declaration expression' statement').Consumes)
  (hexpression : Follows left left' expression expression')
  (hstatement : Follows left left' statement statement')

include horderly hconsumes horderly' hconsumes' hexpression hstatement

theorem follows_declarations (isLast : Token.Kind → Bool) :
    Follows left left' (declarations isLast expression statement)
      (declarations isLast expression' statement') := by
  have hrecovering := follows_recovering horderly horderly'
    (follows_declaration hhead hexpression hstatement)
  have htakes := @takesTokens_declarationTurn isLast _ horderly hconsumes
  have htakes' := @takesTokens_declarationTurn isLast _ horderly' hconsumes'
  rw [declarations_eq, declarations_eq]
  rw [declarationTurn_eq_stepWhile] at htakes htakes' ⊢
  rw [declarationTurn_eq_stepWhile]
  refine follows_bind (follows_repeating hhead (fun reversed => ?_) htakes htakes' []) fun _ =>
    follows_pure _
  refine follows_bind hrecovering fun found => ?_
  cases found with
  | none => exact follows_pure _
  | some stmt => exact follows_pure _

theorem follows_block :
    Follows left left' (block expression statement) (block expression' statement') :=
  follows_closed hhead
    (follows_declarations hhead horderly hconsumes horderly' hconsumes' hexpression hstatement _)
    _ _ fun _ => follows_pure _

theorem follows_statementBody :
    Follows left left' (statementBody expression statement)
      (statementBody expression' statement') := by
  rw [statementBody_eq_byFirst, statementBody_eq_byFirst]
  refine follows_byFirst hhead (fun token => ?_) (follows_expressionStatement hhead hexpression)
  unfold statementAfter?
  split
  · exact .some (follows_ifStatement hhead hexpression hstatement)
  · exact .some (follows_printStatement hhead hexpression)
  · exact .some (follows_block hhead horderly hconsumes horderly' hconsumes' hexpression hstatement)
  · exact .some (follows_whileStatement hhead hexpression hstatement)
  · exact .some (follows_forStatement hhead hexpression hstatement)
  · exact .none

end

theorem follows_statement (levels : Nat) : ∀ {more : Nat}, levels ≤ more →
    Follows left left' (Grammar.statement levels) (Grammar.statement more) := by
  induction levels with
  | zero => exact fun _ => follows_of_tooMuchNesting _
  | succ levels ih =>
      intro more hle
      obtain ⟨deeper, rfl⟩ := Nat.exists_eq_add_of_le' (Nat.le_of_add_left_le hle)
      have hle' : levels ≤ deeper := by omega
      exact follows_statementBody hhead (orderly_declarationAt levels)
        (consumes_declarationAt levels) (orderly_declarationAt deeper)
        (consumes_declarationAt deeper) (follows_expression hhead hle') (ih hle')

/-- With more levels a program that goes on otherwise fails at the same place, if it fails before
it goes on. -/
theorem follows_programAt {levels more : Nat} (hle : levels ≤ more) :
    Follows left left' (programAt levels) (programAt more) :=
  follows_declarations hhead (orderly_declarationAt levels) (consumes_declarationAt levels)
    (orderly_declarationAt more) (consumes_declarationAt more) (follows_expression hhead hle)
    (follows_statement hhead levels hle) _

end Grammar

end Lox
