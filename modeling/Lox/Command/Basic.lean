import Lox.Command.Arguments
import Lox.Console.Basic
import Lox.Session
import Lox.Text.Utf8

/-!
# The command

`Command.run` is the command as a whole: it reads its arguments, runs a script or
the lines of the input at a prompt, and yields the exit code.  It is written for
any console, so that it can be run in memory as well.

At the prompt a mistake or an error of evaluation is reported and the next line
is read; only a failure to read or to write ends it with an exit code other than
zero.
-/

namespace Lox.Command

/-! ## Texts -/

/-- The answer to a request for the version. -/
def versionText : String := "tlox 0.1.0"

/-- What may follow the name of the command, in general or after arguments that have
been given: a flag among them takes the place of all that could be given. -/
def synopsis (given : Arguments) : String :=
  if given.printTrees then "--print-ast" else "[FLAGS] [script]"

/-- How the command is called, in general or after arguments that have been given. -/
def usage (given : Arguments) : String := "USAGE:\n    tlox " ++ synopsis given

/-- The answer to a request for help. -/
def helpText : String :=
  "\n".intercalate
    [versionText,
      "Tree-walking interpreter for Lox",
      "",
      usage {},
      "",
      "FLAGS:",
      "    -h, --help         Prints help information",
      "        --print-ast    Print each parsed statement as a parenthesized tree",
      "    -V, --version      Prints version information",
      "",
      "ARGS:",
      "    <script>    Script to run; starts an interactive prompt when omitted"]

/-- The report of an argument that is not expected after those given before it. -/
def unexpectedText (argument : String) (given : Arguments) : String :=
  "error: Found argument '" ++ argument ++
    "' which wasn't expected, or isn't valid in this context\n\n" ++ usage given ++
    "\n\nFor more information try --help"

/-- The report of a version that could not be told. -/
def untoldVersionText (error : SinkError) : String := "error: " ++ error.kind

/-- The report of an input line that is no text. -/
def malformedLineText : String := "stream did not contain valid UTF-8"

/-! ## Exit codes -/

/-- The arguments are not what the command expects, or the version that they ask for
could not be told. -/
def usageCode : UInt8 := 1

/-- The script is no text. -/
def malformedCode : UInt8 := Status.syntaxError.exitCode

/-- The script cannot be read. -/
def unreadableCode : UInt8 := 66

/-- Something could not be read or written. -/
def failureCode : UInt8 := 74

/-! ## Running -/

variable {m : Type → Type} [Monad m]

/-- Ends with an exit code after a report, which is lost if it cannot be written. -/
def endWith (console : Console m) (code : UInt8) (report : String) : m UInt8 := do
  let _ ← (console.streams.diagnostics.writeLine report).run
  return code

/-- Answers a request.  An answer that cannot be written is lost. -/
def answer (console : Console m) (text : String) : m UInt8 := do
  let _ ← (console.streams.output.writeLine text).run
  return 0

/-- Answers a request for the version.  The line ends once its text has been passed
on; until then a failure is reported. -/
def answerVersion (console : Console m) : m UInt8 := do
  let told ← (do console.streams.output.write versionText; console.streams.output.flush).run
  match told with
  | .error error => endWith console usageCode (untoldVersionText error)
  | .ok () => answer console ""

/-- Runs a script, given its bytes. -/
def runScript (console : Console m) (fuel : Nat) (session : Session) (path : String)
    (bytes : ByteArray) : m UInt8 :=
  match Utf8.decode bytes with
  | .error fault =>
      endWith console malformedCode
        ("'" ++ path ++ "' is not valid UTF-8: " ++ fault.message)
  | .ok source => do
      let (result, _) ← (Session.run console.streams fuel source).run.run session
      match result with
      | .ok status => return status.exitCode
      | .error failure => endWith console failureCode failure.message

/-- Runs the script at a path. -/
def runFile (console : Console m) (fuel : Nat) (session : Session) (path : String) : m UInt8 := do
  match ← (console.readFile path).run with
  | .error error =>
      endWith console unreadableCode ("Could not read '" ++ path ++ "': " ++ error.message)
  | .ok bytes => runScript console fuel session path bytes

/-- Runs a line of the input, given its bytes: the session after it, or the exit
code with which the prompt ends. -/
def runLine (console : Console m) (fuel : Nat) (session : Session) (line : ByteArray) :
    m (Except UInt8 Session) :=
  match Utf8.decode line with
  | .error _ => do return .error (← endWith console failureCode malformedLineText)
  | .ok source => do
      let (result, session) ← (Session.run console.streams fuel source).run.run session
      match result with
      | .ok _ => return .ok session
      | .error failure => return .error (← endWith console failureCode failure.message)

/-- Shows the prompt, and reads and runs a line. -/
def promptOnce (console : Console m) (fuel : Nat) (session : Session) :
    m (Except UInt8 Session) := do
  let shown ← (do console.streams.output.write "> "; console.streams.output.flush).run
  match shown with
  | .error error => return .error (← endWith console failureCode error.message)
  | .ok () =>
      match ← console.readLine.run with
      | .error error => return .error (← endWith console failureCode error.message)
      | .ok none => return .error (← answer console "")
      | .ok (some line) => runLine console fuel session line

/-- Runs lines at the prompt until the input ends, or at most `turns` of them. -/
def prompt (console : Console m) (fuel : Nat) : (turns : Nat) → Session → m UInt8
  | 0, _ => endWith console failureCode Stop.outOfFuel.text
  | turns + 1, session => do
      match ← promptOnce console fuel session with
      | .error code => return code
      | .ok session => prompt console fuel turns session

/-- The command.  There is `fuel` for so many turns of each loop, and for so many
lines at the prompt. -/
def run (console : Console m) (fuel : Nat) (arguments : List String) : m UInt8 :=
  match Request.ofArguments arguments with
  | .help => answer console helpText
  | .version => answerVersion console
  | .unexpected argument given => endWith console usageCode (unexpectedText argument given)
  | .run arguments =>
      let session : Session := { printTrees := arguments.printTrees }
      match arguments.script with
      | some path => runFile console fuel session path
      | none => prompt console fuel fuel session

end Lox.Command
