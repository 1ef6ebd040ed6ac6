/-!
# Arguments of the command

The command takes flags and at most one script.  Arguments are read from left to
right, and the first that asks for help or for the version, or that is not
expected, decides.  After `--` there are no flags any more.
-/

namespace Lox.Command

/-- What the command has been told to do when it runs. -/
structure Arguments where
  /-- The path of the script, unless sources are read at the prompt. -/
  script : Option String := none
  printTrees : Bool := false
deriving DecidableEq

/-- What the arguments ask for. -/
inductive Request
  | help
  | version
  /-- Nothing, because of an argument that is not expected after those given before
  it. -/
  | unexpected (argument : String) (given : Arguments)
  | run (arguments : Arguments)
deriving DecidableEq

/-- A flag. -/
inductive Flag
  | help
  | version
  | printTrees
deriving DecidableEq

namespace Flag

/-- The flag of one letter. -/
def ofLetter? : Char → Option Flag
  | 'h' => some .help
  | 'V' => some .version
  | _ => none

/-- The flag of this name. -/
def ofName? : String → Option Flag
  | "help" => some .help
  | "version" => some .version
  | "print-ast" => some .printTrees
  | _ => none

/-- The flags of an argument, each with its spelling; none if it is no flag.  One
dash goes before letters, of which each is a flag, and two before a name, which
may be followed by a value that is ignored.  A dash alone is no flag. -/
def ofArgument (argument : String) : List (String × Option Flag) :=
  match argument.toList with
  | '-' :: '-' :: rest =>
      let name := String.ofList ((rest.dropWhile (· == '-')).takeWhile (· != '='))
      [("--" ++ name, ofName? name)]
  | '-' :: letter :: rest =>
      (letter :: rest).map fun letter => (String.ofList ['-', letter], ofLetter? letter)
  | _ => []

end Flag

namespace Arguments

/-- The arguments with one more flag, unless it decides what is asked for. -/
def addFlag (arguments : Arguments) : String × Option Flag → Except Request Arguments
  | (_, some .help) => .error .help
  | (_, some .version) => .error .version
  | (_, some .printTrees) => .ok { arguments with printTrees := true }
  | (spelling, none) => .error (.unexpected spelling arguments)

/-- The arguments with a script, of which there can be only one. -/
def addScript (arguments : Arguments) (path : String) : Except Request Arguments :=
  match arguments.script with
  | none => .ok { arguments with script := some path }
  | some _ => .error (.unexpected path arguments)

/-- The arguments with one more, which may be flags or a script. -/
def add (arguments : Arguments) (argument : String) : Except Request Arguments :=
  match Flag.ofArgument argument with
  | [] => arguments.addScript argument
  | flags => flags.foldlM addFlag arguments

/-- All arguments, or what one of them has decided. -/
def read (arguments : List String) : Except Request Arguments := do
  let flagged ← (arguments.takeWhile (· != "--")).foldlM add {}
  ((arguments.dropWhile (· != "--")).drop 1).foldlM addScript flagged

end Arguments

/-- What the arguments ask for. -/
def Request.ofArguments (arguments : List String) : Request :=
  match Arguments.read arguments with
  | .ok arguments => .run arguments
  | .error request => request

end Lox.Command
