import Lox.Proofs.Execution.Origin
import Lox.Proofs.Grammar.Placement

/-!
# Well-formed trees

A tree may hold any tokens, and operators without a meaning are found out only when they are
evaluated.  The trees of accepted programs have none: their operators are those of the place where
they stand, their names are identifiers, all of these are tokens of the program, and a declaration
is no branch of an `if` and no body of a loop (`regular_of_parse`).

So an accepted program never raises the error that an operator is unknown
(`never_unknown_of_parse`), though there are trees that do.
-/

namespace Lox

/-! ## Operators with a meaning -/

namespace Operator

/-- The operators between two operands that are both evaluated. -/
def isBinary : Token.Kind → Bool
  | .symbol .bangEqual | .symbol .equalEqual | .symbol .greater | .symbol .greaterEqual
  | .symbol .less | .symbol .lessEqual | .symbol .minus | .symbol .plus | .symbol .slash
  | .symbol .star => true
  | _ => false

/-- The operators of which the left operand may decide. -/
def isLogical : Token.Kind → Bool
  | .keyword .or | .keyword .and => true
  | _ => false

theorem isLogical_of_isOperator {level : Grammar.Level} {kind : Token.Kind}
    (h : level.isOperator kind = true) (hlevel : level = .or ∨ level = .and) :
    isLogical kind = true := by
  rcases hlevel with rfl | rfl
  · rw [Token.Kind.isKeyword_iff.1 h, isLogical]
  · rw [Token.Kind.isKeyword_iff.1 h, isLogical]

theorem isBinary_of_isOperator {level : Grammar.Level} {kind : Token.Kind}
    (h : level.isOperator kind = true) (hor : level ≠ .or) (hand : level ≠ .and) :
    isBinary kind = true := by
  rw [Grammar.Level.isOperator_iff] at h
  unfold Grammar.Level.ofKind? at h
  split at h <;> simp_all [isBinary]

variable {operator : Token} {error : RuntimeError}

theorem cause_eq_of_unary {value : Value} (hkind : Grammar.isUnary operator.kind = true)
    (h : unary operator value = .error error) : error.cause = .operandNotNumber := by
  unfold unary at h
  split at h
  · cases h
  · cases h
    rfl
  · cases h
  · rename_i hminus hother hbang
    unfold Grammar.isUnary at hkind
    split at hkind <;> simp_all

theorem cause_eq_of_arithmetic {x y : Float} (hkind : isBinary operator.kind = true)
    (hequal : operator.kind ≠ .symbol .equalEqual) (hbangEqual : operator.kind ≠ .symbol .bangEqual)
    (hplus : operator.kind ≠ .symbol .plus) : arithmetic operator x y ≠ .error error := by
  unfold arithmetic
  unfold isBinary at hkind
  split at hkind <;> simp_all

theorem cause_eq_of_binary {x y : Value} (hkind : isBinary operator.kind = true)
    (h : binary operator x y = .error error) :
    error.cause = .operandsNotNumbers ∨ error.cause = .operandsNotAddable := by
  unfold binary at h
  split at h
  · cases h
  · cases h
  · unfold add at h
    split at h <;> cases h
    exact .inr rfl
  · split at h
    · exact absurd h (cause_eq_of_arithmetic hkind ‹_› ‹_› ‹_›)
    · cases h
      exact .inl rfl

end Operator

namespace RuntimeError

/-- The wordings of the errors that say that an operator is unknown. -/
def unknownMessages : List String :=
  ["Unknown unary operator.", "Unknown binary operator.", "Unknown logical operator."]

/-- An error says so only if that is its cause. -/
theorem mem_unknownMessages_iff {error : RuntimeError} :
    error.message ∈ unknownMessages ↔
      error.cause = .unknownUnary ∨ error.cause = .unknownBinary ∨
        error.cause = .unknownLogical := by
  obtain ⟨cause, token⟩ := error
  cases cause with
  | undefinedVariable =>
      have hmessage : message ⟨.undefinedVariable, token⟩ ∉ unknownMessages := by
        simp [message, unknownMessages, ← String.toList_inj]
      simp [hmessage]
  | _ => simp [message, unknownMessages]

end RuntimeError

/-! ## Nodes -/

namespace Node

/-- What can be told from a node and its tokens, apart from its parts: the operator has a meaning
where it stands, a name is an identifier, both are tokens of the source, and no branch and no body
of a loop is a declaration. -/
def WellFormed (source : List Token) : Node → Prop
  | .expression (.unary operator _) => operator ∈ source ∧ Grammar.isUnary operator.kind = true
  | .expression (.binary _ operator _) =>
      operator ∈ source ∧ Operator.isBinary operator.kind = true
  | .expression (.logical _ operator _) =>
      operator ∈ source ∧ Operator.isLogical operator.kind = true
  | .expression (.variable name) | .expression (.assign name _) | .statement (.var name _) =>
      name ∈ source ∧ Grammar.isIdentifier name.kind = true
  | .statement (.ifThen _ thenBranch) => thenBranch.declared? = none
  | .statement (.ifElse _ thenBranch elseBranch) =>
      thenBranch.declared? = none ∧ elseBranch.declared? = none
  | .statement (.loop _ body) => body.declared? = none
  | _ => True

/-- All that is in the node is well formed. -/
def Regular (source : List Token) (node : Node) : Prop :=
  ∀ part, node.Contains part → part.WellFormed source

variable {source source' : List Token} {node : Node}

theorem regular_iff :
    node.Regular source ↔
      node.WellFormed source ∧ ∀ part ∈ node.parts, part.Regular source := by
  constructor
  · intro h
    exact ⟨h node (.refl node), fun part hpart last hlast => h last (.part hpart hlast)⟩
  · rintro ⟨hnode, hparts⟩ last hlast
    cases hlast with
    | refl => exact hnode
    | part hpart hlast => exact hparts _ hpart last hlast

theorem WellFormed.mono (h : node.WellFormed source) (hsubset : source ⊆ source') :
    node.WellFormed source' := by
  unfold WellFormed at h ⊢
  split <;> first | exact ⟨hsubset h.1, h.2⟩ | exact h | trivial

theorem Regular.mono (h : node.Regular source) (hsubset : source ⊆ source') :
    node.Regular source' :=
  fun part hpart => (h part hpart).mono hsubset

theorem Regular.of_contains {part : Node} (h : node.Regular source)
    (hcontains : node.Contains part) : part.Regular source := by
  induction hcontains with
  | refl => exact h
  | part hpart _ ih => exact ih ((regular_iff.1 h).2 _ hpart)

/-- An expression of a well-formed node raises other errors than that its operator is unknown. -/
theorem WellFormed.not_unknown {expr : Expr} {error : RuntimeError}
    (h : (Node.expression expr).WellFormed source) (hraise : expr.MayRaise error) :
    error.message ∉ RuntimeError.unknownMessages := by
  rw [RuntimeError.mem_unknownMessages_iff]
  cases hraise with
  | unary hvalue => simp [Operator.cause_eq_of_unary h.2 hvalue]
  | binary hvalue =>
      rcases Operator.cause_eq_of_binary h.2 hvalue with hcause | hcause <;> simp [hcause]
  | logical hor hand =>
      have hkind := h.2
      unfold Operator.isLogical at hkind
      split at hkind <;> simp_all
  | «variable» | assign => simp

/-- What is regular never raises the error that an operator is unknown. -/
theorem Regular.not_unknown {σ : Type} {sink : Sink (StateM σ)} {fuel : Nat} {env : Environment}
    {s : σ} {error : RuntimeError} (h : node.Regular source)
    (hraises : node.Raises sink fuel env s error) :
    error.message ∉ RuntimeError.unknownMessages := by
  obtain ⟨expr, hcontains, hraise⟩ := exists_mayRaise node env s hraises
  exact (h _ hcontains).not_unknown hraise

end Node

/-! ## Phrases -/

namespace Phrase

open Node

variable {levels : Nat} {w misplaced : List Token} {stmt : Stmt}

theorem regular_node (level : Grammar.Level) {left right : Expr} {operator : Token}
    (hkind : level.isOperator operator.kind = true) (hmem : operator ∈ w)
    (hleft : (Node.expression left).Regular w) (hright : (Node.expression right).Regular w) :
    (Node.expression (level.node left operator right)).Regular w := by
  have hparts : ∀ part ∈ [Node.expression left, .expression right], part.Regular w := by
    simp [hleft, hright]
  cases level with
  | or => exact regular_iff.2 ⟨⟨hmem, Operator.isLogical_of_isOperator hkind (.inl rfl)⟩, hparts⟩
  | and => exact regular_iff.2 ⟨⟨hmem, Operator.isLogical_of_isOperator hkind (.inr rfl)⟩, hparts⟩
  | equality | comparison | term | factor =>
      have hbinary := Operator.isBinary_of_isOperator hkind (by decide) (by decide)
      exact regular_iff.2 ⟨⟨hmem, hbinary⟩, hparts⟩

mutual

theorem Primary.regular {levels : Nat} {w misplaced : List Token} {expr : Expr} :
    Primary levels w expr misplaced → (Node.expression expr).Regular w
  | .literal _ => regular_iff.2 ⟨trivial, by simp [parts]⟩
  | .name hname => regular_iff.2 ⟨⟨List.mem_singleton_self _, hname⟩, by simp [parts]⟩
  | .grouping _ hinner _ =>
      regular_iff.2 ⟨trivial, List.forall_mem_singleton.2 (hinner.regular.mono (by grind))⟩

theorem Unary.regular {levels : Nat} {w misplaced : List Token} {expr : Expr} :
    Unary levels w expr misplaced → (Node.expression expr).Regular w
  | .operator hkind hright =>
      regular_iff.2 ⟨⟨List.mem_cons_self, hkind⟩,
        List.forall_mem_singleton.2 (hright.regular.mono (by grind))⟩
  | .primary hprimary => hprimary.regular

theorem Operators.regular {tiers : List Grammar.Level} {levels : Nat} {w misplaced : List Token}
    {expr : Expr} : Operators tiers levels w expr misplaced → (Node.expression expr).Regular w
  | .unary hunary => hunary.regular
  | .tighter htighter => htighter.regular
  | .operator hleft hkind hright =>
      regular_node _ hkind (by simp) (hleft.regular.mono (by grind))
        (hright.regular.mono (by grind))

theorem Assignment.regular {levels : Nat} {w misplaced : List Token} {expr : Expr} :
    Assignment levels w expr misplaced → (Node.expression expr).Regular w
  | .operators h => h.regular
  | .assign hname _ hvalue =>
      regular_iff.2 ⟨⟨List.mem_cons_self, hname⟩,
        List.forall_mem_singleton.2 (hvalue.regular.mono (by grind))⟩
  | .misassign htarget _ _ _ => htarget.regular.mono (by grind)

theorem Expression.regular {levels : Nat} {w misplaced : List Token} {expr : Expr} :
    Expression levels w expr misplaced → (Node.expression expr).Regular w
  | .nested h => h.regular

end

theorem Variable.regular (h : Variable levels w stmt misplaced) :
    (Node.statement stmt).Regular w := by
  cases h with
  | plain hname _ => exact regular_iff.2 ⟨⟨List.mem_cons_self, hname⟩, by simp [parts]⟩
  | initialized hname _ hinitializer _ =>
      exact regular_iff.2 ⟨⟨List.mem_cons_self, hname⟩,
        List.forall_mem_singleton.2 (hinitializer.regular.mono (by grind))⟩

theorem regular_expression {expr : Expr} (h : (Node.expression expr).Regular w) :
    (Node.statement (.expression expr)).Regular w :=
  regular_iff.2 ⟨trivial, List.forall_mem_singleton.2 h⟩

theorem Initializer.regular {initializer : Option Stmt}
    (h : Initializer levels w initializer misplaced) :
    ∀ stmt ∈ initializer, (Node.statement stmt).Regular w := by
  intro stmt hstmt
  cases h with
  | absent _ => cases hstmt
  | declared _ hvariable =>
      obtain rfl := Option.mem_some_iff.1 hstmt
      exact hvariable.regular.mono (by grind)
  | expression hexpression _ =>
      obtain rfl := Option.mem_some_iff.1 hstmt
      exact (regular_expression hexpression.regular).mono (by grind)

theorem Condition.regular {condition : Expr} (h : Condition levels w condition misplaced) :
    (Node.expression condition).Regular w := by
  cases h with
  | absent => exact regular_iff.2 ⟨trivial, by simp [parts]⟩
  | expression hexpression => exact hexpression.regular

theorem Increment.regular {increment : Option Expr}
    (h : Increment levels w increment misplaced) :
    ∀ expr ∈ increment, (Node.expression expr).Regular w := by
  intro expr hexpr
  cases h with
  | absent => cases hexpr
  | expression hexpression =>
      obtain rfl := Option.mem_some_iff.1 hexpr
      exact hexpression.regular

theorem regular_block {body : List Stmt} (h : ∀ stmt ∈ body, (Node.statement stmt).Regular w) :
    (Node.statement (.block body)).Regular w := by
  have hbody : (Node.statements body).Regular w :=
    regular_iff.2 ⟨trivial, List.forall_mem_map.2 h⟩
  exact regular_iff.2 ⟨trivial, List.forall_mem_singleton.2 hbody⟩

theorem regular_loop {condition : Expr} {body : Stmt}
    (hcondition : (Node.expression condition).Regular w) (hbody : (Node.statement body).Regular w)
    (hnone : body.declared? = none) : (Node.statement (.loop condition body)).Regular w :=
  regular_iff.2 ⟨hnone, by simp [parts, hcondition, hbody]⟩

/-- What a `for` statement stands for is as regular as its clauses. -/
theorem regular_forLoop {initializer : Option Stmt} {condition : Expr} {increment : Option Expr}
    {body : Stmt} (hinitializer : ∀ stmt ∈ initializer, (Node.statement stmt).Regular w)
    (hcondition : (Node.expression condition).Regular w)
    (hincrement : ∀ expr ∈ increment, (Node.expression expr).Regular w)
    (hbody : (Node.statement body).Regular w) (hnone : body.declared? = none) :
    (Node.statement (.forLoop initializer condition increment body)).Regular w := by
  have hturn : ∀ expr ∈ increment,
      (Node.statement (.block [body, .expression expr])).Regular w := by
    intro expr hexpr
    have hlast := regular_expression (hincrement expr hexpr)
    exact regular_block (by simp [hbody, hlast])
  have hwhole : ∀ loop : Stmt, (Node.statement loop).Regular w → ∀ first ∈ initializer,
      (Node.statement (.block [first, loop])).Regular w := by
    intro loop hloop first hfirst
    have hstart := hinitializer first hfirst
    exact regular_block (by simp [hstart, hloop])
  cases increment with
  | none =>
      have hloop := regular_loop hcondition hbody hnone
      cases initializer with
      | none => exact hloop
      | some first => exact hwhole _ hloop first rfl
  | some expr =>
      have hloop := regular_loop hcondition (hturn expr rfl) rfl
      cases initializer with
      | none => exact hloop
      | some first => exact hwhole _ hloop first rfl

mutual

theorem Statement.regular {openEnd : Bool} {levels : Nat} {w misplaced : List Token}
    {stmt : Stmt} : Statement openEnd levels w stmt misplaced → (Node.statement stmt).Regular w
  | .expression hexpression _ =>
      (regular_expression hexpression.regular).mono (by grind)
  | .print _ hexpression _ =>
      regular_iff.2 ⟨trivial, List.forall_mem_singleton.2 (hexpression.regular.mono (by grind))⟩
  | .block _ hbody _ =>
      regular_block fun stmt hstmt => (hbody.regular stmt hstmt).mono (by grind)
  | .ifThen _ _ hcondition _ hthen =>
      regular_iff.2 ⟨hthen.tidy.2, List.forall_mem_cons.2 ⟨hcondition.regular.mono (by grind),
        List.forall_mem_singleton.2 (hthen.regular.mono (by grind))⟩⟩
  | .ifElse _ _ hcondition _ hthen _ helse =>
      regular_iff.2 ⟨⟨hthen.tidy.2, helse.tidy.2⟩,
        List.forall_mem_cons.2 ⟨hcondition.regular.mono (by grind),
          List.forall_mem_cons.2 ⟨hthen.regular.mono (by grind),
            List.forall_mem_singleton.2 (helse.regular.mono (by grind))⟩⟩⟩
  | .loop _ _ hcondition _ hbody =>
      regular_loop (hcondition.regular.mono (by grind)) (hbody.regular.mono (by grind))
        hbody.tidy.2
  | .forLoop _ _ hinitializer hcondition _ hincrement _ hbody =>
      regular_forLoop (fun stmt hstmt => (hinitializer.regular stmt hstmt).mono (by grind))
        (hcondition.regular.mono (by grind))
        (fun expr hexpr => (hincrement.regular expr hexpr).mono (by grind))
        (hbody.regular.mono (by grind)) hbody.tidy.2

theorem Declaration.regular {levels : Nat} {w misplaced : List Token} {stmt : Stmt} :
    Declaration levels w stmt misplaced → (Node.statement stmt).Regular w
  | .declared _ hvariable => hvariable.regular.mono (by grind)
  | .statement hstatement => hstatement.regular

theorem Declarations.regular {levels : Nat} {w misplaced : List Token} {body : List Stmt} :
    Declarations levels w body misplaced → ∀ stmt ∈ body, (Node.statement stmt).Regular w
  | .nil => by simp
  | .cons hfirst hbody =>
      List.forall_mem_cons.2 ⟨hfirst.regular.mono (by grind),
        fun stmt hstmt => (hbody.regular stmt hstmt).mono (by grind)⟩

end

end Phrase

/-! ## Accepted programs -/

open Stmt Exec

/-- The trees of an accepted program are regular, whatever its tokens are. -/
theorem regular_of_parse {tokens : List Token} {program : List Stmt}
    (h : parse tokens = .ok program) : (Node.statements program).Regular tokens := by
  have hall := (derives_of_parse_eq_ok h).regular
  refine Node.regular_iff.2 ⟨trivial, List.forall_mem_map.2 fun stmt hstmt => ?_⟩
  exact (hall stmt hstmt).mono (List.takeWhile_prefix _).subset

/-- Every node of an accepted program is well formed, and neither the program nor a part of it,
executed on its own, ever raises the error that an operator is unknown. -/
theorem never_unknown_of_parse {tokens : List Token} {program : List Stmt}
    (h : parse tokens = .ok program) :
    (∀ node, (Node.statements program).Contains node → node.WellFormed tokens) ∧
      ∀ {σ : Type} (sink : Sink (StateM σ)) (fuel : Nat) (env : Environment) (s : σ)
        (error : RuntimeError), error.message ∈ RuntimeError.unknownMessages →
          (outcome (interpret sink fuel program) env s).result ≠ .error (.runtime error) ∧
            ∀ node, (Node.statements program).Contains node →
              ¬ node.Raises sink fuel env s error := by
  have hregular := regular_of_parse h
  refine ⟨hregular, fun sink fuel env s error hunknown => ⟨fun hresult => ?_, ?_⟩⟩
  · have hraises : (Node.statements program).Raises sink fuel env s error :=
      interpret_eq_error_iff.1 hresult
    exact hregular.not_unknown hraises hunknown
  · intro node hcontains hraises
    exact (hregular.of_contains hcontains).not_unknown hraises hunknown

/-- The tokens of `print -nil;`, which raises an error, but of another kind. -/
def negatedNil : List Token :=
  [⟨.keyword .print, "print", 1⟩, ⟨.symbol .minus, "-", 1⟩, ⟨.keyword .nil, "nil", 1⟩,
    ⟨.symbol .semicolon, ";", 1⟩]

theorem never_unknown_negatedNil :
    ∃ program, parse negatedNil = .ok program ∧
      (outcome (interpret ⟨fun _ => pure (), pure ()⟩ 0 program) .empty ()).result =
        .error (.runtime ⟨.operandNotNumber, ⟨.symbol .minus, "-", 1⟩⟩) ∧
      ∀ token, (outcome (interpret ⟨fun _ => pure (), pure ()⟩ 0 program) .empty ()).result ≠
        .error (.runtime ⟨.unknownUnary, token⟩) := by
  have hparse : parse negatedNil =
      .ok [.print (.unary ⟨.symbol .minus, "-", 1⟩ (.literal .nil))] := rfl
  refine ⟨_, hparse, rfl, fun token => ?_⟩
  have hunknown : RuntimeError.message ⟨.unknownUnary, token⟩ ∈ RuntimeError.unknownMessages :=
    List.mem_cons_self
  exact ((never_unknown_of_parse hparse).2 _ 0 .empty () _ hunknown).1

end Lox
