/-!
# Sinks

Where text is written to.  A sink may fail, and what it does lives in a monad, so
that the same program can write to a real stream or to a buffer.
-/

namespace Lox

/-- Why a sink has failed. -/
inductive SinkError
  /-- There is no room left. -/
  | full
  /-- What was written could not be passed on. -/
  | flushFailed
  /-- The device has no room left. -/
  | noSpace
  /-- Some other reason, in the words of the device. -/
  | device (reason : String)
deriving DecidableEq

namespace SinkError

/-- The wording of a failure. -/
def message : SinkError → String
  | .full => "sink full"
  | .flushFailed => "flush failed"
  | .noSpace => "No space left on device (os error 28)"
  | .device reason => reason

/-- The kind of a failure, without the number that the device gives it. -/
def kind : SinkError → String
  | .noSpace => "no storage space"
  | error => error.message

end SinkError

/-- Where text is written to. -/
structure Sink (m : Type → Type) where
  /-- Writes a text. -/
  write : String → ExceptT SinkError m Unit
  /-- Passes on what has been written. -/
  flush : ExceptT SinkError m Unit

namespace Sink

/-- Writes a text and a newline after it. -/
def writeLine (sink : Sink m) (text : String) : ExceptT SinkError m Unit :=
  sink.write (text ++ "\n")

/-- Writes texts, each with a newline after it, up to the first that fails. -/
def writeLines [Monad m] (sink : Sink m) (texts : List String) : ExceptT SinkError m Unit :=
  texts.forM sink.writeLine

end Sink

/-- The two sinks of a session: one for what programs print, one for reports. -/
structure Streams (m : Type → Type) where
  output : Sink m
  diagnostics : Sink m

end Lox
