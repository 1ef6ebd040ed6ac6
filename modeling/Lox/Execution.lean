import Lox.Evaluation.Basic
import Lox.Sink.Basic

/-!
# Execution of statements

Statements are executed in an environment, and what they print goes to a sink.
An execution that stops early keeps what it has done to the environment, but it
has closed every frame that it opened.

A loop has `fuel` for so many turns, and an execution whose loop has used it up
stops for that reason alone.  Each loop starts with all of the fuel, so the fuel
is no measure of the whole run.
-/

namespace Lox

/-- Why an execution has stopped before its end. -/
inductive Stop
  | runtime (error : RuntimeError)
  | output (error : SinkError)
  | outOfFuel

/-- The report of why an execution has stopped. -/
def Stop.text : Stop → String
  | .runtime error => error.text
  | .output error => "Failed to write output: " ++ error.message
  | .outOfFuel => "Too many turns of a loop."

/-- An execution: it changes the environment and acts in `m`, and it may stop
before its end. -/
abbrev Exec (m : Type → Type) : Type → Type := ExceptT Stop (StateT Environment m)

namespace Exec

variable {m : Type → Type} [Monad m] {α : Type}

/-- An evaluation as part of an execution. -/
@[specialize] def ofEval (eval : Eval α) : Exec m α := fun (env : Environment) =>
  match Id.run (eval env) with
  | (.ok value, after) => pure (.ok value, after)
  | (.error error, after) => pure (.error (.runtime error), after)

/-- Something written to a sink as part of an execution. -/
@[specialize] def ofSink (action : ExceptT SinkError m α) : Exec m α :=
  fun (env : Environment) => do
    match ← action.run with
    | .ok value => return (.ok value, env)
    | .error error => return (.error (.output error), env)

/-- An execution in a frame of its own, which is closed however it ends. -/
@[specialize] def inFrame (body : Exec m α) : Exec m α := fun (env : Environment) => do
  let (result, after) ← body env.enter
  return (result, after.leave)

/-- Executes the body as long as the condition holds, for at most `fuel` turns. -/
@[specialize] def whileTrue (condition : Exec m Bool) (body : Exec m Unit) :
    (fuel : Nat) → Exec m Unit
  | 0 => throw .outOfFuel
  | fuel + 1 => do
      if ← condition then
        body
        whileTrue condition body fuel
      else return ()

end Exec

namespace Stmt

variable {m : Type → Type} [Monad m]

mutual

/-- Executes a statement. -/
@[specialize] def execute (sink : Sink m) (fuel : Nat) : Stmt → Exec m Unit
  | .expression expr => do
      let _ ← Exec.ofEval expr.eval
  | .print expr => do
      let value ← Exec.ofEval expr.eval
      Exec.ofSink (sink.writeLine value.text)
  | .var name none => modify (·.define name.lexeme .nil)
  | .var name (some initializer) => do
      let value ← Exec.ofEval initializer.eval
      modify (·.define name.lexeme value)
  | .block body => Exec.inFrame (executeAll sink fuel body)
  | .ifThen condition thenBranch => do
      let value ← Exec.ofEval condition.eval
      if value.isTruthy then execute sink fuel thenBranch
  | .ifElse condition thenBranch elseBranch => do
      let value ← Exec.ofEval condition.eval
      if value.isTruthy then execute sink fuel thenBranch
      else execute sink fuel elseBranch
  | .loop condition body =>
      Exec.whileTrue (Value.isTruthy <$> Exec.ofEval condition.eval) (execute sink fuel body) fuel

/-- Executes statements in order, up to the first that stops. -/
@[specialize] def executeAll (sink : Sink m) (fuel : Nat) : List Stmt → Exec m Unit
  | [] => return ()
  | stmt :: rest => do
      execute sink fuel stmt
      executeAll sink fuel rest

end

/-- Executes statements in a frame of their own. -/
def executeBlock (sink : Sink m) (fuel : Nat) (body : List Stmt) : Exec m Unit :=
  Exec.inFrame (executeAll sink fuel body)

/-- Executes a program: its statements in order, and at their end a flush. -/
def interpret (sink : Sink m) (fuel : Nat) (program : List Stmt) : Exec m Unit := do
  executeAll sink fuel program
  Exec.ofSink sink.flush

end Stmt

end Lox
