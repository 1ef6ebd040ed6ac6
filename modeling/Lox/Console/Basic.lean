import Lox.Sink.Basic

/-!
# Consoles

What a command needs of its surroundings: sinks to write to, files and lines to
read.
-/

namespace Lox

/-- Why something could not be read. -/
inductive ReadError
  | notFound
  | isDirectory
  | notDirectory
  | nameTooLong
  /-- Some other reason, in the words of the device. -/
  | device (reason : String)
deriving DecidableEq

/-- The wording of a failure to read. -/
def ReadError.message : ReadError → String
  | .notFound => "No such file or directory (os error 2)"
  | .isDirectory => "Is a directory (os error 21)"
  | .notDirectory => "Not a directory (os error 20)"
  | .nameTooLong => "File name too long (os error 36)"
  | .device reason => reason

/-- The surroundings of a command. -/
structure Console (m : Type → Type) where
  streams : Streams m
  /-- Reads the file at a path. -/
  readFile : String → ExceptT ReadError m ByteArray
  /-- Reads up to and including the next newline; nothing at the end of the input. -/
  readLine : ExceptT ReadError m (Option ByteArray)

end Lox
