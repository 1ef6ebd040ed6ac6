import Mathlib.Order.MinMax
import Lox.Syntax.Basic

/-!
# The height of a tree

Executing, evaluating and rendering a tree go down it one level at a time, so its height
is how deep they go.  Two other measures tell where the height comes from.  `nesting`
counts the levels as `height` does, but a left operand is on the level of its operator.
`chain` is the most operators in a row that are each the left operand of the next.

A tree of little height has short chains (`chain_le_height`), and one that is not nested
deep can be high only by its chains: `height_le` bounds the height by the two.
-/

namespace Lox

namespace Expr

/-- The number of nodes on the longest way down an expression. -/
def height : Expr → Nat
  | .literal _ | .variable _ => 1
  | .grouping inner => inner.height + 1
  | .unary _ right => right.height + 1
  | .binary left _ right | .logical left _ right => max left.height right.height + 1
  | .assign _ value => value.height + 1

/-- The height, if a left operand is no deeper than its operator. -/
def nesting : Expr → Nat
  | .literal _ | .variable _ => 1
  | .grouping inner => inner.nesting + 1
  | .unary _ right => right.nesting + 1
  | .binary left _ right | .logical left _ right => max left.nesting (right.nesting + 1)
  | .assign _ value => value.nesting + 1

/-- The operators on the way down from the root through left operands. -/
def spine : Expr → Nat
  | .binary left _ _ | .logical left _ _ => left.spine + 1
  | .literal _ | .variable _ | .grouping _ | .unary _ _ | .assign _ _ => 0

/-- The most operators that are each the left operand of the next. -/
def chain : Expr → Nat
  | .literal _ | .variable _ => 0
  | .grouping inner => inner.chain
  | .unary _ right => right.chain
  | .binary left _ right | .logical left _ right =>
      max (left.spine + 1) (max left.chain right.chain)
  | .assign _ value => value.chain

theorem spine_le_chain (expr : Expr) : expr.spine ≤ expr.chain := by
  cases expr with
  | binary left operator right => exact Nat.le_max_left _ _
  | logical left operator right => exact Nat.le_max_left _ _
  | literal | grouping | unary | «variable» | assign => exact Nat.zero_le _

theorem spine_lt_height (expr : Expr) : expr.spine < expr.height := by
  induction expr with
  | binary left operator right ih _ | logical left operator right ih _ =>
      have hle : left.height ≤ max left.height right.height := Nat.le_max_left _ _
      simp only [spine, height]
      omega
  | literal | grouping | unary | «variable» | assign => exact Nat.succ_pos _

theorem chain_le_height (expr : Expr) : expr.chain ≤ expr.height := by
  induction expr with
  | binary left operator right ihLeft ihRight | logical left operator right ihLeft ihRight =>
      have hspine := spine_lt_height left
      simp only [chain, height]
      omega
  | grouping inner ih => exact Nat.le_succ_of_le ih
  | unary operator right ih => exact Nat.le_succ_of_le ih
  | assign name value ih => exact Nat.le_succ_of_le ih
  | literal | «variable» => exact Nat.zero_le _

/-- Going down from an expression, one level of nesting is left at the latest where its
spine ends, and below that every level of nesting is gone through with one chain. -/
private theorem height_add_le {longest : Nat} (expr : Expr) (hchain : expr.chain ≤ longest) :
    expr.height + longest ≤ expr.spine + (longest + 1) * expr.nesting := by
  induction expr with
  | literal | «variable» =>
      simp only [height, spine, nesting]
      omega
  | grouping inner ih | unary _ inner ih | assign _ inner ih =>
      have hinner := ih hchain
      have hspine : inner.spine ≤ longest := (spine_le_chain inner).trans hchain
      simp only [height, spine, nesting, Nat.mul_succ]
      omega
  | binary left operator right ihLeft ihRight | logical left operator right ihLeft ihRight =>
      simp only [chain, max_le_iff] at hchain
      obtain ⟨-, hleft, hright⟩ := hchain
      have hspine : right.spine ≤ longest := (spine_le_chain right).trans hright
      have hheightLeft := ihLeft hleft
      have hheightRight := ihRight hright
      -- the left operand is on this level of nesting, the right one on the next
      have honLevel : (longest + 1) * left.nesting ≤
          (longest + 1) * max left.nesting (right.nesting + 1) :=
        Nat.mul_le_mul_left _ (Nat.le_max_left _ _)
      have hbelow : (longest + 1) * (right.nesting + 1) ≤
          (longest + 1) * max left.nesting (right.nesting + 1) :=
        Nat.mul_le_mul_left _ (Nat.le_max_right _ _)
      rw [Nat.mul_succ] at hbelow
      simp only [height, spine, nesting]
      omega

/-- An expression is no higher than so many chains as it is nested deep. -/
theorem height_le {longest : Nat} (expr : Expr) (hchain : expr.chain ≤ longest) :
    expr.height ≤ (longest + 1) * expr.nesting := by
  have hheight := height_add_le expr hchain
  have hspine := (spine_le_chain expr).trans hchain
  omega

end Expr

namespace Stmt

mutual

/-- The number of nodes on the longest way down a statement. -/
def height : Stmt → Nat
  | .expression expr | .print expr => expr.height + 1
  | .var _ none => 1
  | .var _ (some initializer) => initializer.height + 1
  | .block body => heightAll body + 1
  | .ifThen condition thenBranch => max condition.height thenBranch.height + 1
  | .ifElse condition thenBranch elseBranch =>
      max condition.height (max thenBranch.height elseBranch.height) + 1
  | .loop condition body => max condition.height body.height + 1

/-- The height of the highest statement. -/
def heightAll : List Stmt → Nat
  | [] => 0
  | stmt :: rest => max stmt.height (heightAll rest)

end

mutual

/-- The height, if a left operand is no deeper than its operator. -/
def nesting : Stmt → Nat
  | .expression expr | .print expr => expr.nesting + 1
  | .var _ none => 1
  | .var _ (some initializer) => initializer.nesting + 1
  | .block body => nestingAll body + 1
  | .ifThen condition thenBranch => max condition.nesting thenBranch.nesting + 1
  | .ifElse condition thenBranch elseBranch =>
      max condition.nesting (max thenBranch.nesting elseBranch.nesting) + 1
  | .loop condition body => max condition.nesting body.nesting + 1

/-- The nesting of the statement that is nested deepest. -/
def nestingAll : List Stmt → Nat
  | [] => 0
  | stmt :: rest => max stmt.nesting (nestingAll rest)

end

mutual

/-- The longest chain of operators in a statement. -/
def chain : Stmt → Nat
  | .expression expr | .print expr => expr.chain
  | .var _ none => 0
  | .var _ (some initializer) => initializer.chain
  | .block body => chainAll body
  | .ifThen condition thenBranch => max condition.chain thenBranch.chain
  | .ifElse condition thenBranch elseBranch =>
      max condition.chain (max thenBranch.chain elseBranch.chain)
  | .loop condition body => max condition.chain body.chain

/-- The longest chain of operators in any of the statements. -/
def chainAll : List Stmt → Nat
  | [] => 0
  | stmt :: rest => max stmt.chain (chainAll rest)

end

mutual

theorem chain_le_height : ∀ stmt : Stmt, stmt.chain ≤ stmt.height
  | .expression expr | .print expr => Nat.le_succ_of_le expr.chain_le_height
  | .var _ none => Nat.zero_le _
  | .var _ (some initializer) => Nat.le_succ_of_le initializer.chain_le_height
  | .block body => Nat.le_succ_of_le (chainAll_le_heightAll body)
  | .ifThen condition thenBranch =>
      Nat.le_succ_of_le (max_le_max condition.chain_le_height (chain_le_height thenBranch))
  | .ifElse condition thenBranch elseBranch => by
      have hbranches := max_le_max (chain_le_height thenBranch) (chain_le_height elseBranch)
      exact Nat.le_succ_of_le (max_le_max condition.chain_le_height hbranches)
  | .loop condition body =>
      Nat.le_succ_of_le (max_le_max condition.chain_le_height (chain_le_height body))

theorem chainAll_le_heightAll : ∀ body : List Stmt, chainAll body ≤ heightAll body
  | [] => Nat.zero_le _
  | stmt :: rest => max_le_max (chain_le_height stmt) (chainAll_le_heightAll rest)

end

variable {longest : Nat}

/-- What is on the next level of nesting may be higher by a chain. -/
private theorem succ_le_mul_succ {height nesting : Nat} (h : height ≤ (longest + 1) * nesting) :
    height + 1 ≤ (longest + 1) * (nesting + 1) := by
  rw [Nat.mul_succ]
  omega

private theorem max_le_mul_max {first second deep deeper : Nat} (h : first ≤ (longest + 1) * deep)
    (h' : second ≤ (longest + 1) * deeper) :
    max first second ≤ (longest + 1) * max deep deeper := by
  have hfirst := h.trans (Nat.mul_le_mul_left (longest + 1) (Nat.le_max_left deep deeper))
  have hsecond := h'.trans (Nat.mul_le_mul_left (longest + 1) (Nat.le_max_right deep deeper))
  exact max_le hfirst hsecond

mutual

/-- A statement is no higher than so many chains as it is nested deep. -/
theorem height_le : ∀ stmt : Stmt, stmt.chain ≤ longest → stmt.height ≤ (longest + 1) * stmt.nesting
  | .expression expr, hchain | .print expr, hchain => succ_le_mul_succ (expr.height_le hchain)
  | .var _ none, _ => succ_le_mul_succ (Nat.zero_le _)
  | .var _ (some initializer), hchain => succ_le_mul_succ (initializer.height_le hchain)
  | .block body, hchain => succ_le_mul_succ (heightAll_le body hchain)
  | .ifThen condition thenBranch, hchain => by
      obtain ⟨hcondition, hthen⟩ := max_le_iff.1 hchain
      exact succ_le_mul_succ
        (max_le_mul_max (condition.height_le hcondition) (height_le thenBranch hthen))
  | .ifElse condition thenBranch elseBranch, hchain => by
      obtain ⟨hcondition, hbranches⟩ := max_le_iff.1 hchain
      obtain ⟨hthen, helse⟩ := max_le_iff.1 hbranches
      have hheight := max_le_mul_max (height_le thenBranch hthen) (height_le elseBranch helse)
      exact succ_le_mul_succ (max_le_mul_max (condition.height_le hcondition) hheight)
  | .loop condition body, hchain => by
      obtain ⟨hcondition, hbody⟩ := max_le_iff.1 hchain
      exact succ_le_mul_succ
        (max_le_mul_max (condition.height_le hcondition) (height_le body hbody))

theorem heightAll_le : ∀ body : List Stmt, chainAll body ≤ longest →
    heightAll body ≤ (longest + 1) * nestingAll body
  | [], _ => Nat.zero_le _
  | stmt :: rest, hchain => by
      obtain ⟨hstmt, hrest⟩ := max_le_iff.1 hchain
      exact max_le_mul_max (height_le stmt hstmt) (heightAll_le rest hrest)

end

end Stmt

end Lox
