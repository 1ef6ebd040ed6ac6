import Lox.Proofs.Grammar.Ending

/-!
# What every rule keeps

The rules are put together from a few steps in a few ways.  A property of what comes of reading
that holds of each step, and that each way of putting rules together keeps, is `Closed`, and so
it holds of what comes of every declaration (`Closed.declarationAt`).

Two ways are left to the property.  An assignment to something else than a name reports a fault
from before the place where it has come to, and a list of declarations gives up some of them and
goes on after these.
-/

namespace Lox

/-! ## One rule after another -/

namespace Rule

variable {α β : Type} {rule : Rule α} {next : α → Rule β} {kind : Token.Kind → Bool}
  {tokens rest : List Token} {reported : Array Fault}

theorem bind_of_stops {fault : Fault} (h : rule.Stops tokens fault rest reported) :
    (rule >>= next) tokens = ⟨.error fault, rest, reported⟩ := by
  rw [bind_apply, show rule tokens = _ from h]

theorem bind_of_reads {a : α} (h : rule.Reads tokens a rest reported) :
    (rule >>= next) tokens =
      ⟨(next a rest).result, (next a rest).rest, reported ++ (next a rest).reported⟩ := by
  rw [bind_apply, show rule tokens = _ from h]

/-- What is read without a report leads straight on to the next rule. -/
theorem bind_of_reads_empty {a : α} (h : rule.Reads tokens a rest #[]) :
    (rule >>= next) tokens = next a rest := by
  rw [bind_of_reads h, Array.empty_append]

theorem takeIf_bind_of_pos {next : Option Token → Rule β} {token : Token} {tail : List Token}
    (h : kind token.kind = true) :
    (takeIf kind >>= next) (token :: tail) = next (some token) tail :=
  bind_of_reads_empty (takeIf_cons_of_pos h)

theorem takeIf_bind_of_not_starts {next : Option Token → Rule β} (h : starts kind tokens = false) :
    (takeIf kind >>= next) tokens = next none tokens :=
  bind_of_reads_empty (takeIf_of_not_starts h)

end Rule

namespace Grammar

open Rule Phrase

/-! ## Properties that rules keep -/

variable {α β : Type} {Q : (α : Type) → List Token → Parsed α → Prop}

/-- The property holds of what comes of the rule, whatever the tokens are. -/
def Keeps (Q : (α : Type) → List Token → Parsed α → Prop) (rule : Rule α) : Prop :=
  ∀ tokens, Q α tokens (rule tokens)

/-- The property holds of what comes of single steps and is kept by putting rules together. -/
structure Closed (Q : (α : Type) → List Token → Parsed α → Prop) : Prop where
  read {α : Type} {a : α} {tokens rest : List Token} :
    rest <:+ tokens → Q α tokens ⟨.ok a, rest, #[]⟩
  stop {α : Type} {cause : SyntaxError.Cause} (tokens : List Token) :
    cause ≠ .invalidAssignmentTarget → Q α tokens ⟨.error ⟨cause, tokens⟩, tokens, #[]⟩
  stopped {α β : Type} {tokens rest : List Token} {fault : Fault} {reported : Array Fault} :
    Q α tokens ⟨.error fault, rest, reported⟩ → Q β tokens ⟨.error fault, rest, reported⟩
  next {α β : Type} {tokens mid : List Token} {a : α} {before : Array Fault} {parsed : Parsed β} :
    Q α tokens ⟨.ok a, mid, before⟩ → Q β mid parsed →
      Q β tokens ⟨parsed.result, parsed.rest, before ++ parsed.reported⟩
  misassigned {levels : Nat} {equals : Token} {tail rest : List Token} {value target : Expr}
    {after : Array Fault} :
    equals.kind = .symbol .equal → (Grammar.expression levels).Reads tail value rest after →
      Q Expr tail ⟨.ok value, rest, after⟩ →
      Q Expr (equals :: tail)
        ⟨.ok target, rest, after.push ⟨.invalidAssignmentTarget, equals :: tail⟩⟩
  declarations {levels : Nat} {token : Token} {tail rest : List Token} {body : List Stmt}
    {reported : Array Fault} :
    Keeps Q (Grammar.declarationAt levels) →
      Turns (declarationTurn (·.isSymbol .rightBrace) (Grammar.declarationAt levels)) [] tail
        body.reverse rest reported →
      Q (List Stmt) (token :: tail) ⟨.ok body, rest, reported⟩

namespace Closed

variable (closed : Closed Q)

include closed

/-! ## Single steps -/

/-- After a token has been read, what comes of the rest comes of the whole. -/
theorem later {token : Token} {tail : List Token} {parsed : Parsed α} (h : Q α tail parsed) :
    Q α (token :: tail) parsed := by
  have hread : Q Unit (token :: tail) ⟨.ok (), tail, #[]⟩ :=
    closed.read (List.suffix_cons token tail)
  simpa using closed.next hread h

theorem pure (a : α) : Keeps Q (Pure.pure a : Rule α) :=
  fun tokens => closed.read (List.suffix_refl tokens)

theorem bind {rule : Rule α} {next : α → Rule β} (hrule : Keeps Q rule)
    (hnext : ∀ a, Keeps Q (next a)) : Keeps Q (rule >>= next) := by
  intro tokens
  have hfirst := hrule tokens
  rw [bind_apply]
  generalize rule tokens = first at hfirst
  rcases first with ⟨fault | a, mid, before⟩
  · exact closed.stopped hfirst
  · exact closed.next hfirst (hnext a mid)

theorem fail {cause : SyntaxError.Cause} (h : cause ≠ .invalidAssignmentTarget) :
    Keeps Q (Rule.fail cause : Rule α) :=
  fun tokens => closed.stop tokens h

theorem nextIs (kind : Token.Kind → Bool) : Keeps Q (Rule.nextIs kind) :=
  fun tokens => closed.read (List.suffix_refl tokens)

theorem takeIf (kind : Token.Kind → Bool) : Keeps Q (Rule.takeIf kind) := by
  intro tokens
  cases tokens with
  | nil => exact closed.read (List.suffix_refl [])
  | cons token tail =>
      unfold Rule.takeIf
      dsimp only
      split
      · exact closed.read (List.suffix_cons token tail)
      · exact closed.read (List.suffix_refl _)

theorem expect (kind : Token.Kind → Bool) {cause : SyntaxError.Cause}
    (h : cause ≠ .invalidAssignmentTarget) : Keeps Q (Rule.expect kind cause) := by
  refine closed.bind (closed.takeIf kind) fun taken => ?_
  cases taken with
  | none => exact closed.fail h
  | some token => exact closed.pure token

theorem expectSymbol (symbol : Symbol) {cause : SyntaxError.Cause}
    (h : cause ≠ .invalidAssignmentTarget) : Keeps Q (Rule.expectSymbol symbol cause) :=
  closed.bind (closed.expect _ h) fun _ => closed.pure ()

/-- What is read and then closed by a symbol. -/
theorem closedBy {rule : Rule α} (hrule : Keeps Q rule) (symbol : Symbol)
    {cause : SyntaxError.Cause} (h : cause ≠ .invalidAssignmentTarget) {next : α → Rule β}
    (hnext : ∀ a, Keeps Q (next a)) :
    Keeps Q (rule >>= fun a => Rule.expectSymbol symbol cause >>= fun _ => next a) :=
  closed.bind hrule fun a => closed.bind (closed.expectSymbol symbol h) fun _ => hnext a

theorem repeating {step : α → List Token → Option (Parsed α)}
    (hstep : ∀ a tokens next, step a tokens = some next → Q α tokens next) (a : α) :
    Keeps Q (Rule.repeating step a) := by
  -- over the turns, for whatever has come of the steps so far
  have hiterate : ∀ (turns tokens : List Token) (parsed : Parsed α),
      Q α tokens parsed → Q α tokens (iterate step turns parsed) := by
    intro turns
    induction turns with
    | nil => exact fun tokens parsed h => h
    | cons turn turns ih =>
        rintro tokens ⟨fault | b, mid, before⟩ h
        · exact h
        · unfold iterate
          dsimp only
          split
          · exact h
          · rename_i next hnext
            exact ih tokens _ (closed.next h (hstep b mid next hnext))
  exact fun tokens => hiterate tokens tokens _ (closed.read (List.suffix_refl tokens))

/-! ## Expressions -/

theorem primary {expression : Rule Expr} (hexpression : Keeps Q expression) :
    Keeps Q (Grammar.primary expression) := by
  intro tokens
  cases tokens with
  | nil => exact closed.stop [] (by decide)
  | cons token tail =>
      unfold Grammar.primary
      dsimp only
      split
      · exact closed.read (List.suffix_cons token tail)
      · exact closed.read (List.suffix_cons token tail)
      · exact closed.later (closed.closedBy hexpression _ (by decide) (fun _ => closed.pure _) tail)
      · exact closed.stop _ (by decide)

theorem unary {operand expression : Rule Expr} (hoperand : Keeps Q operand)
    (hexpression : Keeps Q expression) : Keeps Q (Grammar.unary operand expression) := by
  refine closed.bind (closed.takeIf isUnary) fun taken => ?_
  cases taken with
  | none => exact closed.primary hexpression
  | some operator => exact closed.bind hoperand fun right => closed.pure _

theorem rule {operand : Rule Expr} (hoperand : Keeps Q operand) :
    ∀ tiers : List Level, Keeps Q (Level.rule tiers operand)
  | [] => hoperand
  | level :: tiers => by
      have htighter := rule hoperand tiers
      refine closed.bind htighter fun first => closed.repeating ?_ first
      intro left tokens next hstep
      cases tokens with
      | nil => simp at hstep
      | cons operator tail =>
          simp only [Option.ite_none_right_eq_some, Option.some.injEq] at hstep
          obtain ⟨_, rfl⟩ := hstep
          exact closed.later (closed.bind htighter (fun right => closed.pure _) tail)

theorem assignment {levels : Nat} (hoperand : Keeps Q (Grammar.operand levels))
    (hexpression : Keeps Q (Grammar.expression levels)) :
    Keeps Q (Grammar.assignment (Grammar.operand levels) (Grammar.expression levels)) := by
  unfold Grammar.assignment
  rw [Level.operators_eq_rule]
  refine closed.bind (closed.rule (closed.unary hoperand hexpression) _) fun target mid => ?_
  have hremaining : remaining.Reads mid mid mid #[] := rfl
  rw [bind_of_reads_empty hremaining]
  cases hstarts : starts (·.isSymbol .equal) mid with
  | false =>
      rw [takeIf_bind_of_not_starts hstarts]
      exact closed.pure target mid
  | true =>
      cases mid with
      | nil => simp at hstarts
      | cons equals tail =>
          have hequals : equals.kind = .symbol .equal := by simpa using hstarts
          have hvalue := hexpression tail
          rw [takeIf_bind_of_pos (by simpa using hequals)]
          generalize heq : Grammar.expression levels tail = parsed at hvalue
          rcases parsed with ⟨fault | value, rest, after⟩
          · dsimp only
            rw [bind_of_stops heq]
            exact closed.later (closed.stopped hvalue)
          · have hplain (expr : Expr) : Q Expr (equals :: tail) ⟨.ok expr, rest, after⟩ := by
              have hpure := closed.next hvalue (closed.pure expr rest)
              exact closed.later (by simpa [Pure.pure] using hpure)
            have hreport : Q Expr (equals :: tail)
                ⟨.ok target, rest, after.push ⟨.invalidAssignmentTarget, equals :: tail⟩⟩ :=
              closed.misassigned hequals heq hvalue
            dsimp only
            rw [bind_of_reads heq]
            cases target with
            | «variable» name => simpa [Pure.pure] using hplain (.assign name value)
            | literal | grouping | unary | binary | logical | assign =>
                show Q Expr _
                  ⟨.ok _, rest, after ++ (#[⟨.invalidAssignmentTarget, equals :: tail⟩] ++ #[])⟩
                simpa using hreport

/-- Every rule for expressions keeps the property, however many levels are left. -/
theorem nested (levels : Nat) :
    Keeps Q (Grammar.operand levels) ∧ Keeps Q (Grammar.expression levels) := by
  induction levels with
  | zero => exact ⟨closed.fail (by decide), closed.fail (by decide)⟩
  | succ levels ih =>
      obtain ⟨hoperand, hexpression⟩ := ih
      exact ⟨closed.unary hoperand hexpression, closed.assignment hoperand hexpression⟩

theorem expression (levels : Nat) : Keeps Q (Grammar.expression levels) :=
  (closed.nested levels).2

/-! ## Statements -/

section

variable {expression : Rule Expr} {statement : Rule Stmt} (hexpression : Keeps Q expression)
  (hstatement : Keeps Q statement)

include hexpression

theorem varDeclaration : Keeps Q (Grammar.varDeclaration expression) := by
  refine closed.bind (closed.expect _ (by decide)) fun name =>
    closed.bind (closed.takeIf _) fun taken => ?_
  cases taken with
  | none => exact closed.bind (closed.expectSymbol _ (by decide)) fun _ => closed.pure _
  | some equals => exact closed.closedBy hexpression _ (by decide) fun _ => closed.pure _

theorem expressionStatement : Keeps Q (Grammar.expressionStatement expression) :=
  closed.closedBy hexpression _ (by decide) fun _ => closed.pure _

theorem printStatement : Keeps Q (Grammar.printStatement expression) :=
  closed.closedBy hexpression _ (by decide) fun _ => closed.pure _

theorem forInitializer : Keeps Q (Grammar.forInitializer expression) := by
  refine closed.bind (closed.takeIf _) fun taken => ?_
  cases taken with
  | some semicolon => exact closed.pure none
  | none =>
      refine closed.bind (closed.takeIf _) fun taken => ?_
      cases taken with
      | some keyword =>
          exact closed.bind (closed.varDeclaration hexpression) fun _ => closed.pure _
      | none => exact closed.bind (closed.expressionStatement hexpression) fun _ => closed.pure _

theorem forCondition : Keeps Q (Grammar.forCondition expression) := by
  refine closed.bind (closed.nextIs _) fun absent => ?_
  cases absent with
  | true => exact closed.pure _
  | false => exact hexpression

theorem forIncrement : Keeps Q (Grammar.forIncrement expression) := by
  refine closed.bind (closed.nextIs _) fun absent => ?_
  cases absent with
  | true => exact closed.pure _
  | false => exact closed.bind hexpression fun _ => closed.pure _

include hstatement

theorem ifStatement : Keeps Q (Grammar.ifStatement expression statement) := by
  refine closed.bind (closed.expectSymbol _ (by decide)) fun _ =>
    closed.closedBy hexpression _ (by decide) fun condition =>
      closed.bind hstatement fun thenBranch => closed.bind (closed.takeIf _) fun taken => ?_
  cases taken with
  | none => exact closed.pure _
  | some other => exact closed.bind hstatement fun _ => closed.pure _

theorem whileStatement : Keeps Q (Grammar.whileStatement expression statement) :=
  closed.bind (closed.expectSymbol _ (by decide)) fun _ =>
    closed.closedBy hexpression _ (by decide) fun _ =>
      closed.bind hstatement fun _ => closed.pure _

theorem forStatement : Keeps Q (Grammar.forStatement expression statement) :=
  closed.bind (closed.expectSymbol _ (by decide)) fun _ =>
    closed.bind (closed.forInitializer hexpression) fun _ =>
      closed.closedBy (closed.forCondition hexpression) _ (by decide) fun _ =>
        closed.closedBy (closed.forIncrement hexpression) _ (by decide) fun _ =>
          closed.bind hstatement fun _ => closed.pure _

theorem declaration : Keeps Q (Grammar.declaration expression statement) := by
  refine closed.bind (closed.takeIf _) fun taken => ?_
  cases taken with
  | some keyword => exact closed.varDeclaration hexpression
  | none => exact hstatement

end

/-- After its opening brace a block reads declarations to their end. -/
theorem block {levels : Nat} (hrule : Keeps Q (Grammar.declarationAt levels)) (token : Token)
    (tail : List Token) :
    Q Stmt (token :: tail)
      (Grammar.block (Grammar.expression levels) (Grammar.statement levels) tail) := by
  have horderly := orderly_declarationAt levels
  have hconsumes := consumes_declarationAt levels
  obtain ⟨last, rest, reported, hturns⟩ :=
    exists_turns_declarationTurn horderly hconsumes (·.isSymbol .rightBrace) [] tail
  have hbody : Turns (declarationTurn (·.isSymbol .rightBrace) (Grammar.declarationAt levels)) []
      tail last.reverse.reverse rest reported := by
    rw [List.reverse_reverse]
    exact hturns
  have hread := (reads_declarations horderly hconsumes).2 hbody
  unfold Grammar.block
  rw [bind_of_reads hread]
  refine closed.next (closed.declarations hrule hbody) ?_
  exact closed.bind (closed.expectSymbol _ (by decide)) (fun _ => closed.pure _) rest

/-- Every statement keeps the property, however many levels are left. -/
theorem statement (levels : Nat) : Keeps Q (Grammar.statement levels) := by
  induction levels with
  | zero => exact closed.fail (by decide)
  | succ levels ih =>
      have hexpression := closed.expression levels
      intro tokens
      cases tokens with
      | nil => exact closed.expressionStatement hexpression []
      | cons token tail =>
          show Q Stmt (token :: tail) (statementBody _ _ (token :: tail))
          unfold statementBody
          dsimp only
          split
          · exact closed.later (closed.ifStatement hexpression ih tail)
          · exact closed.later (closed.printStatement hexpression tail)
          · exact closed.block (closed.declaration hexpression ih) token tail
          · exact closed.later (closed.whileStatement hexpression ih tail)
          · exact closed.later (closed.forStatement hexpression ih tail)
          · exact closed.expressionStatement hexpression _

theorem declarationAt (levels : Nat) : Keeps Q (Grammar.declarationAt levels) :=
  closed.declaration (closed.expression levels) (closed.statement levels)

end Closed

end Grammar

end Lox
