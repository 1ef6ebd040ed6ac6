import Lox.Proofs.Execution.Error

/-!
# What an execution reaches

`Leads` is one step of an execution down the tree: from a node to a part of it that is
executed next, and from the environment and the state of the sink there to those which the
part is given.  `Reaches` goes along a path of such steps.  What comes before the part is
executed to its end for that: the left operand, the condition, the statements before, and
the earlier turns of a loop.

An undefined variable ends an execution exactly if the execution reaches an expression
that looks the name up where it is not bound (`Node.undefined_iff`).
-/

namespace Lox.Node

open Stmt

variable {σ : Type}

section

variable (sink : Sink (StateM σ)) (fuel : Nat)

/-- The execution of a node leads to that of its part of this number. -/
inductive Leads : Node → Environment → σ → Nat → Node → Environment → σ → Prop
  | grouping {inner : Expr} {env : Environment} {s : σ} :
      Leads (.expression (.grouping inner)) env s 0 (.expression inner) env s
  | unary {operator : Token} {right : Expr} {env : Environment} {s : σ} :
      Leads (.expression (.unary operator right)) env s 0 (.expression right) env s
  | binaryLeft {operator : Token} {left right : Expr} {env : Environment} {s : σ} :
      Leads (.expression (.binary left operator right)) env s 0 (.expression left) env s
  | binaryRight {operator : Token} {left right : Expr} {env mid : Environment} {s : σ}
      {value : Value} :
      Eval.outcome left.eval env = (.ok value, mid) →
        Leads (.expression (.binary left operator right)) env s 1 (.expression right) mid s
  | logicalLeft {operator : Token} {left right : Expr} {env : Environment} {s : σ} :
      Leads (.expression (.logical left operator right)) env s 0 (.expression left) env s
  | logicalRight {operator : Token} {left right : Expr} {env mid : Environment} {s : σ}
      {value : Value} :
      Eval.outcome left.eval env = (.ok value, mid) → Expr.leavesOpen operator value →
        Leads (.expression (.logical left operator right)) env s 1 (.expression right) mid s
  | assign {name : Token} {expr : Expr} {env : Environment} {s : σ} :
      Leads (.expression (.assign name expr)) env s 0 (.expression expr) env s
  | expression {expr : Expr} {env : Environment} {s : σ} :
      Leads (.statement (.expression expr)) env s 0 (.expression expr) env s
  | print {expr : Expr} {env : Environment} {s : σ} :
      Leads (.statement (.print expr)) env s 0 (.expression expr) env s
  | initializer {name : Token} {expr : Expr} {env : Environment} {s : σ} :
      Leads (.statement (.var name (some expr))) env s 0 (.expression expr) env s
  | block {body : List Stmt} {env : Environment} {s : σ} :
      Leads (.statement (.block body)) env s 0 (.statements body) env.enter s
  | item {body : List Stmt} {i : Nat} {stmt : Stmt} {env mid : Environment} {s t : σ} :
      body[i]? = some stmt →
        Exec.outcome (executeAll sink fuel (body.take i)) env s = ⟨.ok (), mid, t⟩ →
        Leads (.statements body) env s i (.statement stmt) mid t
  | ifCondition {condition : Expr} {thenBranch : Stmt} {env : Environment} {s : σ} :
      Leads (.statement (.ifThen condition thenBranch)) env s 0 (.expression condition) env s
  | ifBranch {condition : Expr} {thenBranch : Stmt} {env mid : Environment} {s : σ}
      {value : Value} :
      Eval.outcome condition.eval env = (.ok value, mid) → value.isTruthy = true →
        Leads (.statement (.ifThen condition thenBranch)) env s 1 (.statement thenBranch) mid s
  | elseCondition {condition : Expr} {thenBranch elseBranch : Stmt} {env : Environment} {s : σ} :
      Leads (.statement (.ifElse condition thenBranch elseBranch)) env s 0 (.expression condition)
        env s
  | thenBranch {condition : Expr} {thenBranch elseBranch : Stmt} {env mid : Environment} {s : σ}
      {value : Value} :
      Eval.outcome condition.eval env = (.ok value, mid) → value.isTruthy = true →
        Leads (.statement (.ifElse condition thenBranch elseBranch)) env s 1
          (.statement thenBranch) mid s
  | elseBranch {condition : Expr} {thenBranch elseBranch : Stmt} {env mid : Environment} {s : σ}
      {value : Value} :
      Eval.outcome condition.eval env = (.ok value, mid) → value.isTruthy = false →
        Leads (.statement (.ifElse condition thenBranch elseBranch)) env s 2
          (.statement elseBranch) mid s
  | loopCondition {condition : Expr} {body : Stmt} {rounds : Nat} {env mid : Environment}
      {s t : σ} :
      rounds < fuel → Rounds sink fuel condition body rounds env s mid t →
        Leads (.statement (.loop condition body)) env s 0 (.expression condition) mid t
  | loopBody {condition : Expr} {body : Stmt} {rounds : Nat} {env mid after : Environment}
      {s t : σ} {value : Value} :
      rounds < fuel → Rounds sink fuel condition body rounds env s mid t →
        Eval.outcome condition.eval mid = (.ok value, after) → value.isTruthy = true →
        Leads (.statement (.loop condition body)) env s 1 (.statement body) after t

/-- The execution of a node reaches the node at the end of a path. -/
inductive Reaches : Node → Environment → σ → (path : List Nat) → Node → Environment → σ → Prop
  | here {node : Node} {env : Environment} {s : σ} : Reaches node env s [] node env s
  | step {node part last : Node} {i : Nat} {path : List Nat} {env mid after : Environment}
      {s t u : σ} :
      Leads sink fuel node env s i part mid t → Reaches part mid t path last after u →
        Reaches node env s (i :: path) last after u

/-- The execution of a node ends because this name is not bound. -/
def Undefined (env : Environment) (s : σ) (name : Token) : Node → Prop
  | .expression expr => expr.Undefined env name
  | .statement stmt => stmt.Raises sink fuel env s ⟨.undefinedVariable, name⟩
  | .statements body => AnyRaises sink fuel body env s ⟨.undefinedVariable, name⟩

end

variable {sink : Sink (StateM σ)} {fuel : Nat} {node part last : Node} {env mid after : Environment}
  {s t u : σ} {i : Nat} {path : List Nat} {name : Token}

theorem Leads.part_eq (h : Leads sink fuel node env s i part mid t) :
    node.parts[i]? = some part := by
  cases h with
  | item hstmt _ => rw [parts, List.getElem?_map, hstmt, Option.map_some]
  | _ => rfl

/-- What a part ends with, the node ends with. -/
theorem Leads.undefined (h : Leads sink fuel node env s i part mid t)
    (hpart : part.Undefined sink fuel mid t name) : node.Undefined sink fuel env s name := by
  cases h with
  | grouping => exact hpart
  | unary => exact Expr.undefined_unary_iff.2 hpart
  | binaryLeft => exact Expr.undefined_binary_iff.2 (.inl hpart)
  | binaryRight hleft => exact Expr.undefined_binary_iff.2 (.inr ⟨_, _, hleft, hpart⟩)
  | logicalLeft => exact Expr.undefined_logical_iff.2 (.inl hpart)
  | logicalRight hleft hopen =>
      exact Expr.undefined_logical_iff.2 (.inr ⟨_, _, hleft, hopen, hpart⟩)
  | assign => exact Expr.undefined_assign_iff.2 (.inl hpart)
  | expression => exact raises_expression_iff.2 hpart
  | print => exact raises_print_iff.2 hpart
  | initializer => exact raises_var_iff.2 hpart
  | block => exact raises_block_iff.2 hpart
  | item hstmt hbefore => exact anyRaises_iff.2 ⟨_, _, _, _, hstmt, hbefore, hpart⟩
  | ifCondition => exact raises_ifThen_iff.2 (.inl hpart)
  | ifBranch hvalue htruthy => exact raises_ifThen_iff.2 (.inr ⟨_, _, hvalue, htruthy, hpart⟩)
  | elseCondition => exact raises_ifElse_iff.2 (.inl hpart)
  | thenBranch hvalue htruthy =>
      exact raises_ifElse_iff.2 (.inr ⟨_, _, hvalue, .inl ⟨htruthy, hpart⟩⟩)
  | elseBranch hvalue htruthy =>
      exact raises_ifElse_iff.2 (.inr ⟨_, _, hvalue, .inr ⟨htruthy, hpart⟩⟩)
  | loopCondition hlt hrounds => exact raises_loop_iff.2 ⟨_, _, _, hlt, hrounds, .inl hpart⟩
  | loopBody hlt hrounds hvalue htruthy =>
      exact raises_loop_iff.2 ⟨_, _, _, hlt, hrounds, .inr ⟨_, _, hvalue, htruthy, hpart⟩⟩

/-- An unbound name that an expression looks up ends its evaluation. -/
theorem undefined_of_looksUp {expr : Expr} (h : expr.LooksUp env name after)
    (hnone : after.level? name.lexeme = none) : expr.Undefined env name := by
  cases h with
  | «variable» => exact Expr.undefined_variable_iff.2 ⟨rfl, hnone⟩
  | assign hvalue => exact Expr.undefined_assign_iff.2 (.inr ⟨_, _, hvalue, rfl, hnone⟩)

/-- An evaluation that ends so looks the name up, or one of its parts ends so. -/
private theorem leads_of_expr_undefined {expr : Expr} (h : expr.Undefined env name) :
    (∃ after, expr.LooksUp env name after ∧ after.level? name.lexeme = none) ∨
      ∃ i part mid t, Leads sink fuel (.expression expr) env s i part mid t ∧
        part.Undefined sink fuel mid t name := by
  cases expr with
  | literal value => exact absurd h (Expr.not_undefined_literal value)
  | grouping inner => exact .inr ⟨0, _, _, s, .grouping, h⟩
  | unary operator right => exact .inr ⟨0, _, _, s, .unary, Expr.undefined_unary_iff.1 h⟩
  | binary left operator right =>
      rcases Expr.undefined_binary_iff.1 h with h | ⟨value, mid, hleft, h⟩
      · exact .inr ⟨0, _, _, s, .binaryLeft, h⟩
      · exact .inr ⟨1, _, _, s, .binaryRight hleft, h⟩
  | logical left operator right =>
      rcases Expr.undefined_logical_iff.1 h with h | ⟨value, mid, hleft, hopen, h⟩
      · exact .inr ⟨0, _, _, s, .logicalLeft, h⟩
      · exact .inr ⟨1, _, _, s, .logicalRight hleft hopen, h⟩
  | «variable» token =>
      obtain ⟨rfl, hnone⟩ := Expr.undefined_variable_iff.1 h
      exact .inl ⟨env, .variable, hnone⟩
  | assign token expr =>
      rcases Expr.undefined_assign_iff.1 h with h | ⟨value, after, hvalue, rfl, hnone⟩
      · exact .inr ⟨0, _, _, s, .assign, h⟩
      · exact .inl ⟨after, .assign hvalue, hnone⟩

/-- Of a statement that ends so, a part ends so. -/
private theorem leads_of_raises {stmt : Stmt}
    (h : stmt.Raises sink fuel env s ⟨.undefinedVariable, name⟩) :
    ∃ i part mid t, Leads sink fuel (.statement stmt) env s i part mid t ∧
      part.Undefined sink fuel mid t name := by
  cases stmt with
  | expression expr => exact ⟨0, _, _, s, .expression, raises_expression_iff.1 h⟩
  | print expr => exact ⟨0, _, _, s, .print, raises_print_iff.1 h⟩
  | var token initializer =>
      cases initializer with
      | none => cases h
      | some expr => exact ⟨0, _, _, s, .initializer, raises_var_iff.1 h⟩
  | block body => exact ⟨0, _, _, s, .block, raises_block_iff.1 h⟩
  | ifThen condition thenBranch =>
      rcases raises_ifThen_iff.1 h with h | ⟨value, mid, hvalue, htruthy, h⟩
      · exact ⟨0, _, _, s, .ifCondition, h⟩
      · exact ⟨1, _, _, s, .ifBranch hvalue htruthy, h⟩
  | ifElse condition thenBranch elseBranch =>
      rcases raises_ifElse_iff.1 h with h | ⟨value, mid, hvalue, ⟨htruthy, h⟩ | ⟨htruthy, h⟩⟩
      · exact ⟨0, _, _, s, .elseCondition, h⟩
      · exact ⟨1, _, _, s, .thenBranch hvalue htruthy, h⟩
      · exact ⟨2, _, _, s, .elseBranch hvalue htruthy, h⟩
  | loop condition body =>
      obtain ⟨rounds, mid, t, hlt, hrounds, h | ⟨value, after, hvalue, htruthy, h⟩⟩ :=
        raises_loop_iff.1 h
      · exact ⟨0, _, _, t, .loopCondition hlt hrounds, h⟩
      · exact ⟨1, _, _, t, .loopBody hlt hrounds hvalue htruthy, h⟩

private theorem reaches_of_undefined (node : Node) (env : Environment) (s : σ)
    (h : node.Undefined sink fuel env s name) :
    ∃ path expr mid t after, Reaches sink fuel node env s path (.expression expr) mid t ∧
      expr.LooksUp mid name after ∧ after.level? name.lexeme = none := by
  have hleads : (∃ expr after, node = .expression expr ∧ expr.LooksUp env name after ∧
      after.level? name.lexeme = none) ∨ ∃ i part mid t, Leads sink fuel node env s i part mid t ∧
        part.Undefined sink fuel mid t name := by
    cases node with
    | expression expr =>
        rcases leads_of_expr_undefined h with ⟨after, hlooks, hnone⟩ | hpart
        · exact .inl ⟨expr, after, rfl, hlooks, hnone⟩
        · exact .inr hpart
    | statement stmt => exact .inr (leads_of_raises h)
    | statements body =>
        obtain ⟨i, stmt, mid, t, hstmt, hbefore, h⟩ := anyRaises_iff.1 h
        exact .inr ⟨i, _, mid, t, .item hstmt hbefore, h⟩
  rcases hleads with ⟨expr, after, rfl, hlooks, hnone⟩ | ⟨i, part, mid, t, hstep, hpart⟩
  · exact ⟨[], expr, env, s, after, .here, hlooks, hnone⟩
  · -- the part is smaller than the node, so it may be asked in turn
    have hlt := sizeOf_lt_of_mem_parts (List.mem_of_getElem? hstep.part_eq)
    obtain ⟨path, expr, last, u, after, hreaches, hlooks, hnone⟩ :=
      reaches_of_undefined part mid t hpart
    exact ⟨i :: path, expr, last, u, after, .step hstep hreaches, hlooks, hnone⟩
termination_by sizeOf node

/-- A node ends so exactly if its execution reaches an expression that looks the name up
where it is not bound. -/
theorem undefined_iff :
    node.Undefined sink fuel env s name ↔
      ∃ path expr mid t after, Reaches sink fuel node env s path (.expression expr) mid t ∧
        expr.LooksUp mid name after ∧ after.level? name.lexeme = none := by
  constructor
  · exact reaches_of_undefined node env s
  · rintro ⟨path, expr, mid, t, after, hreaches, hlooks, hnone⟩
    -- the error goes back along the path, from each part to the node it is in
    generalize hlast : Node.expression expr = last at hreaches
    induction hreaches with
    | here =>
        subst hlast
        exact undefined_of_looksUp hlooks hnone
    | step hstep _ ih => exact hstep.undefined (ih hlooks hlast)

end Lox.Node
