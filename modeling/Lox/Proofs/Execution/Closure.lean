import Lox.Execution

/-!
# What every execution keeps

The execution of a tree is put together from a few steps in a few ways.  A property that holds of
each step, and that each way of putting executions together keeps, is `Closed`, and so it holds of
the execution of every tree (`Closed.execute`).  The trees may be any.
-/

namespace Lox.Exec

variable {σ : Type} {sink : Sink (StateM σ)} {P : (α : Type) → Exec (StateM σ) α → Prop}

/-- The property holds of the steps of executions and is kept by putting executions together. -/
structure Closed (sink : Sink (StateM σ)) (P : (α : Type) → Exec (StateM σ) α → Prop) : Prop where
  pure {α : Type} (a : α) : P α (pure a)
  outOfFuel : P Unit (throw .outOfFuel)
  bind {α β : Type} {exec : Exec (StateM σ) α} {next : α → Exec (StateM σ) β} :
    P α exec → (∀ a, P β (next a)) → P β (exec >>= next)
  eval (expr : Expr) : P Value (ofEval expr.eval)
  define (name : String) (value : Value) : P PUnit (modify (·.define name value))
  writeLine (text : String) : P Unit (ofSink (sink.writeLine text))
  inFrame {exec : Exec (StateM σ) Unit} : P Unit exec → P Unit (inFrame exec)

namespace Closed

variable (closed : Closed sink P)

include closed

theorem map {α β : Type} (f : α → β) {exec : Exec (StateM σ) α} (h : P α exec) :
    P β (f <$> exec) := by
  rw [map_eq_pure_bind]
  exact closed.bind h fun a => closed.pure (f a)

/-- What the condition and the body keep, the turns of a loop keep. -/
theorem whileTrue {condition : Exec (StateM σ) Bool} {body : Exec (StateM σ) Unit}
    (hcondition : P Bool condition) (hbody : P Unit body) (fuel : Nat) :
    P Unit (whileTrue condition body fuel) := by
  induction fuel with
  | zero => exact closed.outOfFuel
  | succ fuel ih =>
      refine closed.bind hcondition fun holds => ?_
      cases holds with
      | true => exact closed.bind hbody fun _ => ih
      | false => exact closed.pure ()

mutual

theorem execute (fuel : Nat) : ∀ stmt : Stmt, P Unit (stmt.execute sink fuel)
  | .expression expr => closed.bind (closed.eval expr) fun _ => closed.pure ()
  | .print expr => closed.bind (closed.eval expr) fun value => closed.writeLine value.text
  | .var name none => closed.define name.lexeme .nil
  | .var name (some initializer) =>
      closed.bind (closed.eval initializer) fun value => closed.define name.lexeme value
  | .block body => closed.inFrame (executeAll fuel body)
  | .ifThen condition thenBranch => by
      refine closed.bind (closed.eval condition) fun value => ?_
      split
      · exact execute fuel thenBranch
      · exact closed.pure ()
  | .ifElse condition thenBranch elseBranch => by
      refine closed.bind (closed.eval condition) fun value => ?_
      split
      · exact execute fuel thenBranch
      · exact execute fuel elseBranch
  | .loop condition body =>
      closed.whileTrue (closed.map _ (closed.eval condition)) (execute fuel body) fuel

theorem executeAll (fuel : Nat) : ∀ body : List Stmt, P Unit (Stmt.executeAll sink fuel body)
  | [] => closed.pure ()
  | stmt :: rest => closed.bind (execute fuel stmt) fun _ => executeAll fuel rest

end

end Closed

end Lox.Exec
