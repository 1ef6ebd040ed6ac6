import Lox.Proofs.Execution.Scope

/-!
# Errors of evaluation

Where an error comes from.  For each kind of statement: it ends in an error of evaluation
exactly if a part of it does, from what was executed before that part; a loop, in one of
its turns.  For expressions the error is that of an undefined variable, which operators do
not raise: only a variable or an assignment raises it, and exactly if no frame binds the
name.
-/

namespace Lox

variable {σ : Type} {env : Environment} {s : σ}

/-! ## Undefined variables -/

namespace Operator

theorem unary_ne_undefined (operator name : Token) (value : Value) :
    unary operator value ≠ .error ⟨.undefinedVariable, name⟩ := by
  unfold unary
  split <;> simp

theorem binary_ne_undefined (operator name : Token) (left right : Value) :
    binary operator left right ≠ .error ⟨.undefinedVariable, name⟩ := by
  unfold binary
  split
  · simp
  · simp
  · unfold add
    split <;> simp
  · split
    · unfold arithmetic
      split <;> simp
    · simp

end Operator

namespace Environment

theorem get_eq_undefined_iff {token name : Token} :
    env.get token = .error ⟨.undefinedVariable, name⟩ ↔
      token = name ∧ env.level? token.lexeme = none := by
  have hlookup : env.lookup? token.lexeme = none ↔ env.level? token.lexeme = none := by
    rw [lookup?, level?, List.findSome?_eq_none_iff, List.findIdx?_eq_none_iff]
    simp only [Std.TreeMap.contains_eq_isSome_getElem?, Option.isSome_eq_false_iff,
      Option.isNone_iff_eq_none]
  rw [← hlookup, get]
  cases env.lookup? token.lexeme <;> simp

theorem set_eq_undefined_iff {token name : Token} {value : Value} :
    env.set token value = .error ⟨.undefinedVariable, name⟩ ↔
      token = name ∧ env.level? token.lexeme = none := by
  have hassign : env.assign? token.lexeme value = none ↔ env.level? token.lexeme = none := by
    rw [← Option.map_eq_none_iff (f := frames), frames_assign?, Option.map_eq_none_iff]
  rw [← hassign, set]
  cases env.assign? token.lexeme value <;> simp

end Environment

namespace Expr

/-- The evaluation ends because this name is not bound. -/
def Undefined (expr : Expr) (env : Environment) (name : Token) : Prop :=
  (Eval.outcome expr.eval env).1 = .error ⟨.undefinedVariable, name⟩

/-- The expression itself looks a name up, in the environment that its parts have left. -/
inductive LooksUp : Expr → Environment → Token → Environment → Prop
  | variable {name : Token} {env : Environment} : LooksUp (.variable name) env name env
  | assign {name : Token} {expr : Expr} {env after : Environment} {value : Value} :
      Eval.outcome expr.eval env = (.ok value, after) → LooksUp (.assign name expr) env name after

/-- The value of the left operand leaves it to the right one to decide. -/
def leavesOpen (operator : Token) (value : Value) : Prop :=
  (operator.kind = .keyword .or ∧ value.isTruthy = false) ∨
    (operator.kind = .keyword .and ∧ value.isTruthy = true)

variable {operator name : Token} {left right : Expr}

theorem not_undefined_literal (value : Value) : ¬ (literal value).Undefined env name := by
  show ¬ ((.ok value : Except RuntimeError Value) = _)
  simp

theorem undefined_unary_iff :
    (unary operator right).Undefined env name ↔ right.Undefined env name := by
  have hbind : (unary operator right).Undefined env name ↔ _ := Eval.outcome_bind_eq_error_iff
  rw [hbind]
  constructor
  · rintro (h | ⟨value, mid, _, h⟩)
    · exact h
    · rw [Eval.outcome_ofExcept] at h
      exact absurd h (Operator.unary_ne_undefined _ _ _)
  · exact .inl

theorem undefined_binary_iff :
    (binary left operator right).Undefined env name ↔
      left.Undefined env name ∨ ∃ value mid, Eval.outcome left.eval env = (.ok value, mid) ∧
        right.Undefined mid name := by
  have hbind : (binary left operator right).Undefined env name ↔ _ := Eval.outcome_bind_eq_error_iff
  rw [hbind]
  refine or_congr_right (exists_congr fun value => exists_congr fun mid => ?_)
  refine and_congr_right fun _ => ?_
  rw [Eval.outcome_bind_eq_error_iff]
  constructor
  · rintro (h | ⟨other, last, _, h⟩)
    · exact h
    · rw [Eval.outcome_ofExcept] at h
      exact absurd h (Operator.binary_ne_undefined _ _ _ _)
  · exact .inl

theorem undefined_logical_iff :
    (logical left operator right).Undefined env name ↔
      left.Undefined env name ∨ ∃ value mid, Eval.outcome left.eval env = (.ok value, mid) ∧
        leavesOpen operator value ∧ right.Undefined mid name := by
  have hbind : (logical left operator right).Undefined env name ↔ _ :=
    Eval.outcome_bind_eq_error_iff
  rw [hbind]
  refine or_congr_right (exists_congr fun value => exists_congr fun mid => ?_)
  refine and_congr_right fun _ => ?_
  unfold leavesOpen
  split
  · rename_i hkind
    cases hvalue : value.isTruthy <;> simp [hkind, Undefined]
  · rename_i hkind
    cases hvalue : value.isTruthy <;> simp [hkind, Undefined]
  · rename_i hor hand
    constructor
    · intro h
      cases h
    · rintro ⟨⟨hkind, _⟩ | ⟨hkind, _⟩, _⟩
      · exact absurd hkind hor
      · exact absurd hkind hand

theorem undefined_variable_iff {token : Token} :
    (Expr.variable token).Undefined env name ↔
      token = name ∧ env.level? token.lexeme = none := by
  rw [Undefined, outcome_variable]
  exact Environment.get_eq_undefined_iff

theorem undefined_assign_iff {token : Token} {expr : Expr} :
    (assign token expr).Undefined env name ↔
      expr.Undefined env name ∨ ∃ value after, Eval.outcome expr.eval env = (.ok value, after) ∧
        token = name ∧ after.level? token.lexeme = none := by
  unfold Undefined
  rw [outcome_assign]
  rcases Eval.outcome expr.eval env with ⟨error | value, mid⟩
  · simp
  · have hset := @Environment.set_eq_undefined_iff mid token name value
    cases hresult : mid.set token value with
    | ok after => simp [hresult] at hset ⊢; exact hset
    | error error => simpa [hresult] using hset

end Expr

/-! ## Errors of evaluation in statements -/

namespace Stmt

open Exec

section

variable (sink : Sink (StateM σ)) (fuel : Nat)

/-- The execution ends in this error of evaluation. -/
def Raises (stmt : Stmt) (env : Environment) (s : σ) (error : RuntimeError) : Prop :=
  (outcome (execute sink fuel stmt) env s).result = .error (.runtime error)

/-- The execution of statements ends in this error of evaluation. -/
def AnyRaises (body : List Stmt) (env : Environment) (s : σ) (error : RuntimeError) : Prop :=
  (outcome (executeAll sink fuel body) env s).result = .error (.runtime error)

/-- A loop that may take so many turns ends in this error of evaluation. -/
def TurnsRaise (condition : Expr) (body : Stmt) (turns : Nat) (env : Environment) (s : σ)
    (error : RuntimeError) : Prop :=
  (outcome (whileTrue (Value.isTruthy <$> ofEval condition.eval) (execute sink fuel body) turns)
    env s).result = .error (.runtime error)

/-- So many turns of a loop are taken, of which each comes to its end. -/
inductive Rounds (condition : Expr) (body : Stmt) :
    Nat → Environment → σ → Environment → σ → Prop
  | zero {env : Environment} {s : σ} : Rounds condition body 0 env s env s
  | succ {rounds : Nat} {env mid after last : Environment} {s t u : σ} {value : Value} :
      Eval.outcome condition.eval env = (.ok value, mid) → value.isTruthy = true →
        outcome (execute sink fuel body) mid s = ⟨.ok (), after, t⟩ →
        Rounds condition body rounds after t last u →
        Rounds condition body (rounds + 1) env s last u

end

variable {sink : Sink (StateM σ)} {fuel : Nat} {error : RuntimeError} {condition expr : Expr}
  {body : List Stmt}

theorem raises_expression_iff :
    (Stmt.expression expr).Raises sink fuel env s error ↔
      (Eval.outcome expr.eval env).1 = .error error := by
  have hbind : (Stmt.expression expr).Raises sink fuel env s error ↔ _ := outcome_bind_eq_error_iff
  rw [hbind, outcome_ofEval_eq_error_iff]
  simp

theorem raises_print_iff :
    (Stmt.print expr).Raises sink fuel env s error ↔
      (Eval.outcome expr.eval env).1 = .error error := by
  have hbind : (Stmt.print expr).Raises sink fuel env s error ↔ _ := outcome_bind_eq_error_iff
  rw [hbind, outcome_ofEval_eq_error_iff]
  constructor
  · rintro (h | ⟨_, _, _, _, h⟩)
    · exact h
    · exact absurd h (outcome_ofSink_ne_runtime _ _)
  · exact .inl

theorem raises_var_iff {name : Token} :
    (Stmt.var name (some expr)).Raises sink fuel env s error ↔
      (Eval.outcome expr.eval env).1 = .error error := by
  have hbind : (Stmt.var name (some expr)).Raises sink fuel env s error ↔ _ :=
    outcome_bind_eq_error_iff
  rw [hbind, outcome_ofEval_eq_error_iff]
  simp

theorem raises_block_iff :
    (Stmt.block body).Raises sink fuel env s error ↔ AnyRaises sink fuel body env.enter s error :=
  Iff.rfl

/-- Of what follows a condition, the error is raised by the part that is chosen. -/
private theorem outcome_ofEval_bind_eq_error_iff {α β : Type} {eval : Eval α}
    {next : α → Exec (StateM σ) β} :
    (outcome (ofEval eval >>= next) env s).result = .error (.runtime error) ↔
      (Eval.outcome eval env).1 = .error error ∨
        ∃ a mid, Eval.outcome eval env = (.ok a, mid) ∧
          (outcome (next a) mid s).result = .error (.runtime error) := by
  rw [outcome_bind_eq_error_iff, outcome_ofEval_eq_error_iff]
  refine or_congr_right (exists_congr fun a => exists_congr fun mid => ?_)
  constructor
  · rintro ⟨t, hfirst, hnext⟩
    obtain ⟨heval, rfl⟩ := outcome_ofEval_eq_ok_iff.1 hfirst
    exact ⟨heval, hnext⟩
  · rintro ⟨heval, hnext⟩
    exact ⟨s, outcome_ofEval_eq_ok_iff.2 ⟨heval, rfl⟩, hnext⟩

theorem raises_ifThen_iff {thenBranch : Stmt} :
    (Stmt.ifThen condition thenBranch).Raises sink fuel env s error ↔
      (Eval.outcome condition.eval env).1 = .error error ∨
        ∃ value mid, Eval.outcome condition.eval env = (.ok value, mid) ∧
          value.isTruthy = true ∧ thenBranch.Raises sink fuel mid s error := by
  have hbind : (Stmt.ifThen condition thenBranch).Raises sink fuel env s error ↔ _ :=
    outcome_ofEval_bind_eq_error_iff
  rw [hbind]
  refine or_congr_right (exists_congr fun value => exists_congr fun mid => ?_)
  refine and_congr_right fun _ => ?_
  cases value.isTruthy <;> simp [Raises]

theorem raises_ifElse_iff {thenBranch elseBranch : Stmt} :
    (Stmt.ifElse condition thenBranch elseBranch).Raises sink fuel env s error ↔
      (Eval.outcome condition.eval env).1 = .error error ∨
        ∃ value mid, Eval.outcome condition.eval env = (.ok value, mid) ∧
          ((value.isTruthy = true ∧ thenBranch.Raises sink fuel mid s error) ∨
            (value.isTruthy = false ∧ elseBranch.Raises sink fuel mid s error)) := by
  have hbind : (Stmt.ifElse condition thenBranch elseBranch).Raises sink fuel env s error ↔ _ :=
    outcome_ofEval_bind_eq_error_iff
  rw [hbind]
  refine or_congr_right (exists_congr fun value => exists_congr fun mid => ?_)
  refine and_congr_right fun _ => ?_
  cases value.isTruthy <;> simp [Raises]

/-- What comes of a condition. -/
private theorem outcome_condition (condition : Expr) :
    outcome (Value.isTruthy <$> ofEval condition.eval : Exec (StateM σ) Bool) env s =
      match Eval.outcome condition.eval env with
        | (.ok value, mid) => ⟨.ok value.isTruthy, mid, s⟩
        | (.error error, mid) => ⟨.error (.runtime error), mid, s⟩ := by
  rw [outcome_map, outcome_ofEval]
  rcases Eval.outcome condition.eval env with ⟨error | value, mid⟩ <;> rfl

/-- What a loop with turns left does, it does in its first turn or in those after that. -/
private theorem turnsRaise_succ_iff {body : Stmt} {turns : Nat} :
    TurnsRaise sink fuel condition body (turns + 1) env s error ↔
      (Eval.outcome condition.eval env).1 = .error error ∨
        ∃ value mid, Eval.outcome condition.eval env = (.ok value, mid) ∧ value.isTruthy = true ∧
          (body.Raises sink fuel mid s error ∨
            ∃ after t, outcome (execute sink fuel body) mid s = ⟨.ok (), after, t⟩ ∧
              TurnsRaise sink fuel condition body turns after t error) := by
  rw [TurnsRaise, whileTrue, outcome_bind, outcome_condition]
  rcases Eval.outcome condition.eval env with ⟨found | value, mid⟩
  · simp
  · cases hvalue : value.isTruthy with
    | false => simp [hvalue]
    | true =>
        simp only [hvalue, if_true, outcome_bind_eq_error_iff]
        constructor
        · rintro (h | ⟨_, after, t, hbody, h⟩)
          · exact .inr ⟨value, mid, rfl, hvalue, .inl h⟩
          · exact .inr ⟨value, mid, rfl, hvalue, .inr ⟨after, t, hbody, h⟩⟩
        · rintro (h | ⟨_, _, ⟨⟩, _, h | ⟨after, t, hbody, h⟩⟩)
          · cases h
          · exact .inl h
          · exact .inr ⟨(), after, t, hbody, h⟩

/-- Some turns come to their end, and the error is raised in the one after them. -/
private theorem turnsRaise_iff {body : Stmt} {turns : Nat} :
    TurnsRaise sink fuel condition body turns env s error ↔
      ∃ rounds mid t, rounds < turns ∧ Rounds sink fuel condition body rounds env s mid t ∧
        ((Eval.outcome condition.eval mid).1 = .error error ∨
          ∃ value after, Eval.outcome condition.eval mid = (.ok value, after) ∧
            value.isTruthy = true ∧ body.Raises sink fuel after t error) := by
  induction turns generalizing env s with
  | zero =>
      -- without turns a loop ends for want of fuel, which is no error of evaluation
      simp [TurnsRaise, whileTrue]
  | succ turns ih =>
      rw [turnsRaise_succ_iff]
      constructor
      · rintro (h | ⟨value, mid, hvalue, htruthy, h | ⟨after, t, hbody, h⟩⟩)
        · exact ⟨0, env, s, Nat.succ_pos _, .zero, .inl h⟩
        · exact ⟨0, env, s, Nat.succ_pos _, .zero, .inr ⟨value, mid, hvalue, htruthy, h⟩⟩
        · obtain ⟨rounds, last, u, hlt, hrounds, hraises⟩ := ih.1 h
          have hrounds' := Rounds.succ hvalue htruthy hbody hrounds
          exact ⟨rounds + 1, last, u, Nat.succ_lt_succ hlt, hrounds', hraises⟩
      · rintro ⟨rounds, last, u, hlt, hrounds, hraises⟩
        cases hrounds with
        | zero =>
            rcases hraises with h | ⟨value, mid, hvalue, htruthy, h⟩
            · exact .inl h
            · exact .inr ⟨value, mid, hvalue, htruthy, .inl h⟩
        | @succ rounds _ mid after _ _ t _ value hvalue htruthy hbody hrounds =>
            have hrest : TurnsRaise sink fuel condition body turns after t error :=
              ih.2 ⟨rounds, last, u, Nat.lt_of_succ_lt_succ hlt, hrounds, hraises⟩
            exact .inr ⟨value, mid, hvalue, htruthy, .inr ⟨after, t, hbody, hrest⟩⟩

/-- A loop raises the error in one of its turns. -/
theorem raises_loop_iff {body : Stmt} :
    (Stmt.loop condition body).Raises sink fuel env s error ↔
      ∃ rounds mid t, rounds < fuel ∧ Rounds sink fuel condition body rounds env s mid t ∧
        ((Eval.outcome condition.eval mid).1 = .error error ∨
          ∃ value after, Eval.outcome condition.eval mid = (.ok value, after) ∧
            value.isTruthy = true ∧ body.Raises sink fuel after t error) :=
  turnsRaise_iff

/-- Of statements the first that stops raises the error. -/
theorem anyRaises_iff :
    AnyRaises sink fuel body env s error ↔
      ∃ i stmt mid t, body[i]? = some stmt ∧
        outcome (executeAll sink fuel (body.take i)) env s = ⟨.ok (), mid, t⟩ ∧
        stmt.Raises sink fuel mid t error := by
  -- over the statements, from whatever those before them have left
  induction body generalizing env s with
  | nil => simp [AnyRaises, executeAll]
  | cons stmt rest ih =>
      have hbind : AnyRaises sink fuel (stmt :: rest) env s error ↔ _ := outcome_bind_eq_error_iff
      rw [hbind]
      constructor
      · rintro (h | ⟨_, mid, t, hfirst, h⟩)
        · exact ⟨0, stmt, env, s, rfl, rfl, h⟩
        · obtain ⟨i, other, last, u, hother, hbefore, hraises⟩ := ih.1 h
          refine ⟨i + 1, other, last, u, hother, ?_, hraises⟩
          rw [List.take_succ_cons, executeAll]
          exact outcome_bind_eq_ok_iff.2 ⟨_, mid, t, hfirst, hbefore⟩
      · rintro ⟨i, other, last, u, hother, hbefore, hraises⟩
        cases i with
        | zero =>
            cases hother
            cases hbefore
            exact .inl hraises
        | succ i =>
            rw [List.take_succ_cons, executeAll] at hbefore
            obtain ⟨_, mid, t, hfirst, hbefore⟩ := outcome_bind_eq_ok_iff.1 hbefore
            exact .inr ⟨_, mid, t, hfirst, ih.2 ⟨i, other, last, u, hother, hbefore, hraises⟩⟩

/-- The flush at the end of a program raises no error of evaluation. -/
theorem interpret_eq_error_iff {program : List Stmt} :
    (outcome (interpret sink fuel program) env s).result = .error (.runtime error) ↔
      AnyRaises sink fuel program env s error := by
  rw [interpret, outcome_bind_eq_error_iff]
  constructor
  · rintro (h | ⟨_, _, _, _, h⟩)
    · exact h
    · exact absurd h (outcome_ofSink_ne_runtime _ _)
  · exact .inl

end Stmt

end Lox
