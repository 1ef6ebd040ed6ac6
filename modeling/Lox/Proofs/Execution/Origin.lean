import Lox.Proofs.Execution.Error

/-!
# Where an error of evaluation comes from

An error of evaluation is raised by an operator or by a name of the tree, once the values of its
operands are there: `Expr.MayRaise` says which errors these can be for one expression, apart from
its parts.  What a node raises, one of the expressions in it may raise (`exists_mayRaise`), so a
statement about all errors that a tree can raise is one about each of its expressions.
-/

namespace Lox

open Stmt

variable {σ : Type} {sink : Sink (StateM σ)} {fuel : Nat} {env : Environment} {s : σ}
  {error : RuntimeError}

/-- The expression itself can raise the error, for some values of its parts. -/
inductive Expr.MayRaise : Expr → RuntimeError → Prop
  | unary {operator : Token} {right : Expr} {value : Value} {error : RuntimeError} :
      Operator.unary operator value = .error error → MayRaise (.unary operator right) error
  | binary {left right : Expr} {operator : Token} {x y : Value} {error : RuntimeError} :
      Operator.binary operator x y = .error error → MayRaise (.binary left operator right) error
  | logical {left right : Expr} {operator : Token} :
      operator.kind ≠ .keyword .or → operator.kind ≠ .keyword .and →
        MayRaise (.logical left operator right) ⟨.unknownLogical, operator⟩
  | variable (name : Token) : MayRaise (.variable name) ⟨.undefinedVariable, name⟩
  | assign (name : Token) (value : Expr) : MayRaise (.assign name value) ⟨.undefinedVariable, name⟩

theorem Environment.eq_of_get_eq_error {name : Token} (h : env.get name = .error error) :
    error = ⟨.undefinedVariable, name⟩ := by
  unfold Environment.get at h
  split at h <;> cases h
  rfl

theorem Environment.eq_of_set_eq_error {name : Token} {value : Value}
    (h : env.set name value = .error error) : error = ⟨.undefinedVariable, name⟩ := by
  unfold Environment.set at h
  split at h <;> cases h
  rfl

namespace Node

/-- The other node is this one, or in one of its parts. -/
inductive Contains : Node → Node → Prop
  | refl (node : Node) : Contains node node
  | part {node part last : Node} : part ∈ node.parts → Contains part last → Contains node last

/-- The execution of a node ends in this error of evaluation. -/
def Raises (sink : Sink (StateM σ)) (fuel : Nat) (env : Environment) (s : σ)
    (error : RuntimeError) : Node → Prop
  | .expression expr => (Eval.outcome expr.eval env).1 = .error error
  | .statement stmt => stmt.Raises sink fuel env s error
  | .statements body => AnyRaises sink fuel body env s error

/-! ## One step down the tree -/

/-- An error of an expression is its own, or that of one of its parts. -/
private theorem mayRaise_or_part {expr : Expr} (h : (Eval.outcome expr.eval env).1 = .error error) :
    expr.MayRaise error ∨
      ∃ part ∈ (Node.expression expr).parts, ∃ mid, part.Raises sink fuel mid s error := by
  cases expr with
  | literal value => cases h
  | grouping inner => exact .inr ⟨.expression inner, List.mem_singleton_self _, env, h⟩
  | unary operator right =>
      rcases Eval.outcome_bind_eq_error_iff.1 h with hright | ⟨value, mid, _, hvalue⟩
      · exact .inr ⟨.expression right, List.mem_singleton_self _, env, hright⟩
      · rw [Eval.outcome_ofExcept] at hvalue
        exact .inl (.unary hvalue)
  | binary left operator right =>
      rcases Eval.outcome_bind_eq_error_iff.1 h with hleft | ⟨x, mid, _, h⟩
      · exact .inr ⟨.expression left, List.mem_cons_self, env, hleft⟩
      · rcases Eval.outcome_bind_eq_error_iff.1 h with hright | ⟨y, last, _, hvalue⟩
        · exact .inr ⟨.expression right, List.mem_cons_of_mem _ List.mem_cons_self, mid, hright⟩
        · rw [Eval.outcome_ofExcept] at hvalue
          exact .inl (.binary hvalue)
  | logical left operator right =>
      rcases Eval.outcome_bind_eq_error_iff.1 h with hleft | ⟨value, mid, _, h⟩
      · exact .inr ⟨.expression left, List.mem_cons_self, env, hleft⟩
      · have hright : (Eval.outcome right.eval mid).1 = .error error →
            ∃ part ∈ (Node.expression (.logical left operator right)).parts, ∃ mid,
              part.Raises sink fuel mid s error :=
          fun h => ⟨.expression right, List.mem_cons_of_mem _ List.mem_cons_self, mid, h⟩
        -- an operator with a meaning leaves the error to the right operand
        split at h
        · split at h
          · cases h
          · exact .inr (hright h)
        · split at h
          · exact .inr (hright h)
          · cases h
        · rename_i hor hand
          cases h
          exact .inl (.logical hor hand)
  | «variable» name =>
      rw [Expr.outcome_variable] at h
      rw [Environment.eq_of_get_eq_error h]
      exact .inl (.variable name)
  | assign name value =>
      rw [Expr.outcome_assign] at h
      rcases hvalue : Eval.outcome value.eval env with ⟨found | x, mid⟩
      · rw [hvalue] at h
        refine .inr ⟨.expression value, List.mem_singleton_self _, env, ?_⟩
        rw [Raises, hvalue]
        exact h
      · rw [hvalue] at h
        dsimp only at h
        cases hset : mid.set name x with
        | ok after =>
            rw [hset] at h
            cases h
        | error found =>
            rw [hset] at h
            cases h
            rw [Environment.eq_of_set_eq_error hset]
            exact .inl (.assign name value)

/-- An error of a statement is that of one of its parts. -/
private theorem part_of_raises {stmt : Stmt} (h : stmt.Raises sink fuel env s error) :
    ∃ part ∈ (Node.statement stmt).parts, ∃ mid t, part.Raises sink fuel mid t error := by
  cases stmt with
  | expression expr =>
      exact ⟨_, List.mem_singleton_self _, env, s, raises_expression_iff.1 h⟩
  | print expr => exact ⟨_, List.mem_singleton_self _, env, s, raises_print_iff.1 h⟩
  | var name initializer =>
      cases initializer with
      | none => cases h
      | some expr => exact ⟨_, List.mem_singleton_self _, env, s, raises_var_iff.1 h⟩
  | block body => exact ⟨_, List.mem_singleton_self _, env.enter, s, raises_block_iff.1 h⟩
  | ifThen condition thenBranch =>
      rcases raises_ifThen_iff.1 h with h | ⟨_, mid, _, _, h⟩
      · exact ⟨.expression condition, List.mem_cons_self, env, s, h⟩
      · exact ⟨.statement thenBranch, List.mem_cons_of_mem _ List.mem_cons_self, mid, s, h⟩
  | ifElse condition thenBranch elseBranch =>
      rcases raises_ifElse_iff.1 h with h | ⟨_, mid, _, ⟨_, h⟩ | ⟨_, h⟩⟩
      · exact ⟨.expression condition, by simp [parts], env, s, h⟩
      · exact ⟨.statement thenBranch, by simp [parts], mid, s, h⟩
      · exact ⟨.statement elseBranch, by simp [parts], mid, s, h⟩
  | loop condition body =>
      obtain ⟨_, mid, t, _, _, h | ⟨_, after, _, _, h⟩⟩ := raises_loop_iff.1 h
      · exact ⟨.expression condition, List.mem_cons_self, mid, t, h⟩
      · exact ⟨.statement body, List.mem_cons_of_mem _ List.mem_cons_self, after, t, h⟩

/-! ## All the way down -/

/-- What a node raises, one of the expressions in it may raise. -/
theorem exists_mayRaise (node : Node) (env : Environment) (s : σ)
    (h : node.Raises sink fuel env s error) :
    ∃ expr, node.Contains (.expression expr) ∧ expr.MayRaise error := by
  have hstep : (∃ expr, node = .expression expr ∧ expr.MayRaise error) ∨
      ∃ part ∈ node.parts, ∃ mid t, part.Raises sink fuel mid t error := by
    cases node with
    | expression expr =>
        rcases mayRaise_or_part h with hown | ⟨part, hpart, mid, hraises⟩
        · exact .inl ⟨expr, rfl, hown⟩
        · exact .inr ⟨part, hpart, mid, s, hraises⟩
    | statement stmt => exact .inr (part_of_raises h)
    | statements body =>
        obtain ⟨i, stmt, mid, t, hstmt, _, hraises⟩ := anyRaises_iff.1 h
        exact .inr ⟨_, List.mem_map_of_mem (List.mem_of_getElem? hstmt), mid, t, hraises⟩
  rcases hstep with ⟨expr, rfl, hown⟩ | ⟨part, hpart, mid, t, hraises⟩
  · exact ⟨expr, .refl _, hown⟩
  · -- the part is smaller than the node, so it may be asked in turn
    have hlt := sizeOf_lt_of_mem_parts hpart
    obtain ⟨expr, hcontains, hown⟩ := exists_mayRaise part mid t hraises
    exact ⟨expr, .part hpart hcontains, hown⟩
termination_by sizeOf node

end Node

end Lox
