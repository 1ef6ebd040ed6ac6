import Lox.Command.Basic

/-!
# The program

The command at the console of the process.
-/

namespace Lox.Main

/-- Turns enough for every loop that ends. -/
def fuel : Nat := 1 <<< 62

/-- The number of a failure.  Some calls give it with its sign changed. -/
def osCode (code : UInt32) : UInt32 := if code < 0x80000000 then code else 0 - code

/-- The reason that the system gives for a failure. -/
def reason : IO.Error → String
  | .resourceExhausted _ code details
  | .permissionDenied _ code details
  | .invalidArgument _ code details
  | .inappropriateType _ code details => s!"{details.capitalize} (os error {osCode code})"
  | .resourceVanished code details
  | .hardwareFault code details
  | .otherError code details => s!"{details.capitalize} (os error {osCode code})"
  | error => toString error

/-- A failure to read, as the system tells it. -/
def readError : IO.Error → ReadError
  | .noFileOrDirectory .. => .notFound
  | error@(.inappropriateType _ code _) =>
      match osCode code with
      | 20 => .notDirectory
      | 21 => .isDirectory
      | _ => .device (reason error)
  | error@(.invalidArgument _ code _) =>
      if osCode code == 36 then .nameTooLong else .device (reason error)
  | error => .device (reason error)

/-- A failure to write, as the system tells it. -/
def sinkError : IO.Error → SinkError
  | error@(.resourceExhausted _ code _) =>
      if osCode code == 28 then .noSpace else .device (reason error)
  | error => .device (reason error)

/-- A stream of the process as a sink.  It is flushed after each line. -/
def sink (stream : IO.FS.Stream) : Sink IO where
  write text := ExceptT.mk do
    try
      stream.putStr text
      if text.endsWith "\n" then stream.flush
      return .ok ()
    catch error => return .error (sinkError error)
  flush := ExceptT.mk do
    try
      stream.flush
      return .ok ()
    catch error => return .error (sinkError error)

/-- Reads up to and including the next newline. -/
partial def readLine (input : IO.FS.Stream) (begun : ByteArray) : IO ByteArray := do
  let byte ← input.read 1
  if byte.isEmpty then return begun
  let line := begun ++ byte
  if byte.data == #[10] then return line
  readLine input line

/-- The console of the process. -/
def console : IO (Console IO) := do
  let input ← IO.getStdin
  let output ← IO.getStdout
  let diagnostics ← IO.getStderr
  return {
    streams := ⟨sink output, sink diagnostics⟩
    readFile := fun path => ExceptT.mk do
      try return .ok (← IO.FS.readBinFile path)
      catch error => return .error (readError error)
    readLine := ExceptT.mk do
      try
        let line ← readLine input ByteArray.empty
        return .ok (if line.isEmpty then none else some line)
      catch error => return .error (readError error) }

end Lox.Main

/-- Runs the command with the arguments of the process. -/
def main (arguments : List String) : IO UInt32 := do
  let console ← Lox.Main.console
  let code ← Lox.Command.run console Lox.Main.fuel arguments
  return code.toUInt32
