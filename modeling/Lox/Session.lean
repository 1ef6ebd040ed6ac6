import Lox.Execution
import Lox.Grammar.Program
import Lox.Source.Scan
import Lox.Syntax.Render

/-!
# Sessions

A session runs sources one after another over the same variables.  What programs
print goes to one sink, reports of errors to another.  A source with a mistake is
reported and not run at all.
-/

namespace Lox

/-- How a source has fared. -/
inductive Status
  | ok
  | syntaxError
  | runtimeError
deriving DecidableEq

namespace Status

/-- The wording of a status. -/
def text : Status → String
  | .ok => "ok"
  | .syntaxError => "syntax error"
  | .runtimeError => "runtime error"

/-- The exit code of a process that has run one source. -/
def exitCode : Status → UInt8
  | .ok => 0
  | .syntaxError => 65
  | .runtimeError => 70

end Status

/-- What a session carries from one source to the next. -/
structure Session where
  environment : Environment := Environment.empty
  /-- Whether the trees of a program are written to the reports before it runs. -/
  printTrees : Bool := false
  /-- Whether the last source had a mistake. -/
  hadError : Bool := false
  /-- Whether any source has stopped at an error of evaluation. -/
  hadRuntimeError : Bool := false

namespace Session

/-- Why a run has no status. -/
inductive Failure
  | sink (error : SinkError)
  | outOfFuel

/-- The report of why a run has no status. -/
def Failure.message : Failure → String
  | .sink error => error.message
  | .outOfFuel => Stop.outOfFuel.text

/-- What is done in a session.  It changes the session and acts in `m`, and it may
fail. -/
abbrev Run (m : Type → Type) : Type → Type := ExceptT Failure (StateT Session m)

variable {m : Type → Type} [Monad m]

/-- Writes texts, each with a newline after it, as part of a run. -/
def writeLines (sink : Sink m) (texts : List String) : Run m Unit := fun (session : Session) => do
  match ← (sink.writeLines texts).run with
  | .ok () => return (.ok (), session)
  | .error error => return (.error (.sink error), session)

/-- Executes a program over the variables of the session. -/
def interpret (sink : Sink m) (fuel : Nat) (program : List Stmt) : Run m (Except Stop Unit) :=
  fun (session : Session) => do
    let (result, environment) ← Stmt.interpret sink fuel program session.environment
    return (.ok result, { session with environment := environment })

/-- Runs a source.  Mistakes are reported in the order in which they are found,
first those of the scan, and the flags change only after the reports have been
written. -/
def run (streams : Streams m) (fuel : Nat) (source : String) : Run m Status := do
  modify fun session => { session with hadError := false }
  let scanned := scan source
  writeLines streams.diagnostics (scanned.errors.map ScanError.text)
  modify fun session => { session with hadError := !scanned.errors.isEmpty }
  match parse scanned.tokens with
  | .error errors =>
      writeLines streams.diagnostics (errors.map SyntaxError.text)
      modify fun session => { session with hadError := true }
      return .syntaxError
  | .ok program =>
      if !scanned.errors.isEmpty then return .syntaxError
      if (← get).printTrees then
        writeLines streams.diagnostics (program.map Stmt.render)
      match ← interpret streams.output fuel program with
      | .ok () => return .ok
      | .error (.runtime error) =>
          writeLines streams.diagnostics [error.text]
          modify fun session => { session with hadRuntimeError := true }
          return .runtimeError
      | .error (.output error) => throw (.sink error)
      | .error .outOfFuel => throw .outOfFuel

end Session

end Lox
