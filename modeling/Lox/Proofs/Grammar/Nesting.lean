import Mathlib.Data.List.TakeWhile
import Lox.Proofs.Grammar.Acceptance
import Lox.Proofs.Syntax.Height

/-!
# How high the trees of accepted programs are

Every rule that makes a tree deeper takes a nesting level, but for one: the loop of a level
of operators puts what it has read so far below the next operator, as its left operand.
So the nesting limit bounds the nesting of every accepted tree (`nesting_le_of_parse`), in
which left operands do not count, and together with the length of its chains of operators
it bounds the height (`height_le_of_parse`).

Nothing bounds the chains.  A sum with any number of summands takes two nesting levels, and
its tree has a level for each summand.
-/

namespace Lox

open Grammar

namespace Phrase

variable {levels : Nat} {w misplaced : List Token} {expr : Expr} {stmt : Stmt}

/-! ## Expressions -/

theorem nesting_node (level : Level) (left right : Expr) (operator : Token) :
    (level.node left operator right).nesting = max left.nesting (right.nesting + 1) := by
  cases level <;> rfl

mutual

/-- Six levels of operators, a unary operator and a pair of parentheses can be gone through
before the next nesting level. -/
theorem Primary.nesting_le {levels : Nat} {w misplaced : List Token} {expr : Expr} :
    Primary levels w expr misplaced → expr.nesting ≤ 7 * levels + 1
  | .literal _ | .name _ => Nat.le_add_left 1 _
  | .grouping _ hinner _ => Nat.succ_le_succ hinner.nesting_le

theorem Unary.nesting_le {levels : Nat} {w misplaced : List Token} {expr : Expr} :
    Unary levels w expr misplaced → expr.nesting ≤ 7 * levels + 1
  | .operator _ hright => by
      have h := hright.nesting_le
      simp only [Expr.nesting]
      omega
  | .primary hprimary => hprimary.nesting_le

theorem Operators.nesting_le {tiers : List Level} {levels : Nat} {w misplaced : List Token}
    {expr : Expr} :
    Operators tiers levels w expr misplaced → expr.nesting ≤ tiers.length + (7 * levels + 1)
  | .unary h => by
      rw [List.length_nil, Nat.zero_add]
      exact h.nesting_le
  | .tighter h => by
      have hle := h.nesting_le
      rw [List.length_cons]
      omega
  | .operator hleft _ hright => by
      -- the right operand is of a tighter level, so it is nested less deep than the left
      have hleftLe := hleft.nesting_le
      have hrightLe := hright.nesting_le
      rw [List.length_cons] at hleftLe ⊢
      rw [nesting_node]
      omega

theorem Assignment.nesting_le {levels : Nat} {w misplaced : List Token} {expr : Expr} :
    Assignment levels w expr misplaced → expr.nesting ≤ 7 * (levels + 1)
  | .operators h | .misassign h _ _ _ => by
      have hle := h.nesting_le
      have hlength : Level.all.length = 6 := rfl
      omega
  | .assign _ _ hvalue => by
      have hle := hvalue.nesting_le
      simp only [Expr.nesting]
      omega

theorem Expression.nesting_le {levels : Nat} {w misplaced : List Token} {expr : Expr} :
    Expression levels w expr misplaced → expr.nesting ≤ 7 * levels
  | .nested h => h.nesting_le

end

/-! ## Statements -/

theorem Variable.nesting_le (h : Variable levels w stmt misplaced) :
    stmt.nesting ≤ 7 * levels + 1 := by
  cases h with
  | plain _ _ => exact Nat.le_add_left 1 _
  | initialized _ _ hinitializer _ => exact Nat.succ_le_succ hinitializer.nesting_le

theorem Initializer.nesting_le {initializer : Option Stmt}
    (h : Initializer levels w initializer misplaced) :
    ∀ stmt ∈ initializer, stmt.nesting ≤ 7 * levels + 1 := by
  intro stmt hstmt
  cases h with
  | absent _ => cases hstmt
  | declared _ hvariable =>
      obtain rfl := Option.mem_some_iff.1 hstmt
      exact hvariable.nesting_le
  | expression hexpression _ =>
      obtain rfl := Option.mem_some_iff.1 hstmt
      exact Nat.succ_le_succ hexpression.nesting_le

theorem Condition.nesting_le {condition : Expr} (h : Condition levels w condition misplaced) :
    condition.nesting ≤ 7 * levels + 1 := by
  cases h with
  | absent => exact Nat.le_add_left 1 _
  | expression hexpression => exact Nat.le_succ_of_le hexpression.nesting_le

theorem Increment.nesting_le {increment : Option Expr}
    (h : Increment levels w increment misplaced) :
    ∀ expr ∈ increment, expr.nesting ≤ 7 * levels := by
  intro expr hexpr
  cases h with
  | absent => cases hexpr
  | expression hexpression =>
      obtain rfl := Option.mem_some_iff.1 hexpr
      exact hexpression.nesting_le

end Phrase

/-- A `for` statement stands for at most a block with a loop over a block. -/
theorem Stmt.nesting_forLoop_le {initializer : Option Stmt} {condition : Expr}
    {increment : Option Expr} {body : Stmt} {bound : Nat}
    (hinitializer : ∀ stmt ∈ initializer, stmt.nesting ≤ bound + 1)
    (hcondition : condition.nesting ≤ bound + 1)
    (hincrement : ∀ expr ∈ increment, expr.nesting ≤ bound)
    (hbody : body.nesting ≤ bound + 1) :
    (Stmt.forLoop initializer condition increment body).nesting ≤ bound + 4 := by
  have hturn : ∀ turn : Stmt, turn.nesting ≤ bound + 2 →
      (Stmt.loop condition turn).nesting ≤ bound + 3 := by
    intro turn hle
    simp only [Stmt.nesting]
    omega
  have hblock : ∀ expr ∈ increment,
      (Stmt.block [body, .expression expr]).nesting ≤ bound + 2 := by
    intro expr hexpr
    have hle := hincrement expr hexpr
    simp only [Stmt.nesting, Stmt.nestingAll]
    omega
  have hwhole : ∀ loop : Stmt, loop.nesting ≤ bound + 3 → ∀ first ∈ initializer,
      (Stmt.block [first, loop]).nesting ≤ bound + 4 := by
    intro loop hle first hfirst
    have hfirstLe := hinitializer first hfirst
    simp only [Stmt.nesting, Stmt.nestingAll]
    omega
  cases increment with
  | none =>
      have hloop := hturn body (by omega)
      cases initializer with
      | none => exact hloop.trans (by omega)
      | some first => exact hwhole _ hloop first rfl
  | some expr =>
      have hloop := hturn _ (hblock expr rfl)
      cases initializer with
      | none => exact hloop.trans (by omega)
      | some first => exact hwhole _ hloop first rfl

namespace Phrase

mutual

theorem Statement.nesting_le {openEnd : Bool} {levels : Nat} {w misplaced : List Token}
    {stmt : Stmt} : Statement openEnd levels w stmt misplaced → stmt.nesting ≤ 7 * levels
  | .expression hexpression _ | .print _ hexpression _ => by
      have hle := hexpression.nesting_le
      simp only [Stmt.nesting]
      omega
  | .block _ hbody _ => by
      have hle := hbody.nestingAll_le
      simp only [Stmt.nesting]
      omega
  | .ifThen _ _ hcondition _ hthen | .loop _ _ hcondition _ hthen => by
      have hconditionLe := hcondition.nesting_le
      have hthenLe := hthen.nesting_le
      simp only [Stmt.nesting]
      omega
  | .ifElse _ _ hcondition _ hthen _ helse => by
      have hconditionLe := hcondition.nesting_le
      have hthenLe := hthen.nesting_le
      have helseLe := helse.nesting_le
      simp only [Stmt.nesting]
      omega
  | .forLoop _ _ hinitializer hcondition _ hincrement _ hbody => by
      have hle := Stmt.nesting_forLoop_le hinitializer.nesting_le hcondition.nesting_le
        hincrement.nesting_le (Nat.le_succ_of_le hbody.nesting_le)
      omega

theorem Declaration.nesting_le {levels : Nat} {w misplaced : List Token} {stmt : Stmt} :
    Declaration levels w stmt misplaced → stmt.nesting ≤ 7 * levels + 1
  | .declared _ hvariable => hvariable.nesting_le
  | .statement hstatement => Nat.le_succ_of_le hstatement.nesting_le

theorem Declarations.nestingAll_le {levels : Nat} {w misplaced : List Token} {body : List Stmt} :
    Declarations levels w body misplaced → Stmt.nestingAll body ≤ 7 * levels + 1
  | .nil => Nat.zero_le _
  | .cons hfirst hbody => max_le hfirst.nesting_le hbody.nestingAll_le

end

end Phrase

/-! ## Accepted programs -/

section

variable {tokens : List Token} {program : List Stmt} {stmt : Stmt}

theorem Stmt.nesting_le_nestingAll {body : List Stmt} (h : stmt ∈ body) :
    stmt.nesting ≤ nestingAll body := by
  induction body with
  | nil => cases h
  | cons first rest ih =>
      rcases List.mem_cons.1 h with rfl | hrest
      · exact Nat.le_max_left _ _
      · exact (ih hrest).trans (Nat.le_max_right _ _)

/-- The nesting limit bounds the nesting of what is accepted. -/
theorem nesting_le_of_parse (h : parse tokens = .ok program) (hstmt : stmt ∈ program) :
    stmt.nesting ≤ 7 * maxNesting + 1 :=
  (Stmt.nesting_le_nestingAll hstmt).trans (derives_of_parse_eq_ok h).nestingAll_le

/-- With chains of a bounded length the nesting limit bounds the height, too. -/
theorem height_le_of_parse {longest : Nat} (h : parse tokens = .ok program) (hstmt : stmt ∈ program)
    (hchain : stmt.chain ≤ longest) : stmt.height ≤ (longest + 1) * (7 * maxNesting + 1) := by
  calc
    stmt.height ≤ (longest + 1) * stmt.nesting := stmt.height_le hchain
    _ ≤ (longest + 1) * (7 * maxNesting + 1) :=
      Nat.mul_le_mul_left _ (nesting_le_of_parse h hstmt)

end

/-- Of these token lists, one bound holds for all statements of those that are accepted. -/
def Bounded (measure : Stmt → Nat) (among : List Token → Prop) : Prop :=
  ∃ bound, ∀ tokens program, among tokens → parse tokens = .ok program →
    ∀ stmt ∈ program, measure stmt ≤ bound

/-- Accepted programs have trees of bounded height exactly as far as their chains of
operators are of bounded length. -/
theorem bounded_height_iff_bounded_chain (among : List Token → Prop) :
    Bounded Stmt.height among ↔ Bounded Stmt.chain among := by
  constructor
  · rintro ⟨bound, hbound⟩
    refine ⟨bound, fun tokens program hamong hparse stmt hstmt => ?_⟩
    exact stmt.chain_le_height.trans (hbound tokens program hamong hparse stmt hstmt)
  · rintro ⟨longest, hlongest⟩
    refine ⟨(longest + 1) * (7 * maxNesting + 1), fun tokens program hamong hparse stmt hstmt => ?_⟩
    exact height_le_of_parse hparse hstmt (hlongest tokens program hamong hparse stmt hstmt)

/-! ## Sums -/

namespace Sum

/-- A summand. -/
def summand : Token := ⟨.keyword .nil, "nil", 1⟩

/-- The operator between summands. -/
def plus : Token := ⟨.symbol .plus, "+", 1⟩

/-- The end of the statement. -/
def semicolon : Token := ⟨.symbol .semicolon, ";", 1⟩

/-- The sum `nil + … + nil` with so many operators. -/
def tokens : (operators : Nat) → List Token
  | 0 => [summand]
  | operators + 1 => tokens operators ++ [plus, summand]

/-- The tree of a sum. -/
def tree : (operators : Nat) → Expr
  | 0 => .literal .nil
  | operators + 1 => .binary (tree operators) plus (.literal .nil)

theorem height_tree (operators : Nat) : (tree operators).height = operators + 1 := by
  induction operators with
  | zero => rfl
  | succ operators ih =>
      simp only [tree, Expr.height, ih]
      omega

theorem operators_tokens (levels operators : Nat) :
    Phrase.Operators [.term, .factor] levels (tokens operators) (tree operators) [] := by
  have hsummand : Phrase.Operators [.factor] levels [summand] (.literal .nil) [] :=
    .tighter (.unary (.primary (.literal rfl)))
  induction operators with
  | zero => exact .tighter hsummand
  | succ operators ih => exact .operator ih rfl hsummand

theorem declarations_tokens (levels operators : Nat) :
    Phrase.Declarations (levels + 2) (tokens operators ++ [semicolon])
      [.expression (tree operators)] [] := by
  have hsum := operators_tokens levels operators
  have hassignment : Phrase.Assignment levels (tokens operators) (tree operators) [] :=
    .operators (.tighter (.tighter (.tighter (.tighter hsum))))
  have hstatement : Phrase.Statement false (levels + 2) (tokens operators ++ [semicolon])
      (.expression (tree operators)) [] := .expression (.nested hassignment) rfl
  have hwhole := Phrase.Declarations.cons (.statement hstatement) .nil
  rw [List.append_nil] at hwhole
  exact hwhole

theorem programTokens_tokens (operators : Nat) :
    programTokens (tokens operators ++ [semicolon]) = tokens operators ++ [semicolon] := by
  have hkind : ∀ token ∈ tokens operators, token.kind.isEnd = false := by
    induction operators with
    | zero => simp [tokens, summand, Token.Kind.isEnd]
    | succ operators ih =>
        intro token htoken
        rcases List.mem_append.1 htoken with hmem | hmem
        · exact ih token hmem
        · simp only [List.mem_cons, List.not_mem_nil, or_false] at hmem
          rcases hmem with rfl | rfl <;> rfl
  refine List.takeWhile_eq_self_iff.2 fun token htoken => ?_
  rcases List.mem_append.1 htoken with hmem | hmem
  · simp [hkind token hmem]
  · obtain rfl := List.mem_singleton.1 hmem
    rfl

/-- However long a sum is, it is accepted. -/
theorem parse_tokens (operators : Nat) :
    parse (tokens operators ++ [semicolon]) = .ok [.expression (tree operators)] := by
  refine parse_eq_ok_of_derives ?_
  rw [programTokens_tokens]
  exact declarations_tokens 253 operators

end Sum

/-- No bound holds for the heights of all accepted programs. -/
theorem not_bounded_height : ¬ Bounded Stmt.height (fun _ => True) := by
  rintro ⟨bound, hbound⟩
  have hle := hbound _ _ trivial (Sum.parse_tokens bound) _ (List.mem_singleton_self _)
  simp only [Stmt.height, Sum.height_tree] at hle
  omega

end Lox
