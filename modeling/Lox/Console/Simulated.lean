import Lox.Console.Folder
import Lox.Sink.Buffer

/-!
# Simulated consoles

A console in memory: a folder, the lines of an input that has been given
beforehand, and a buffer for each sink.
-/

namespace Lox

/-! ## Lines -/

/-- Splits bytes after each newline, given the bytes of the line that has begun. -/
def linesFrom (begun : Array UInt8) : List UInt8 → List ByteArray
  | [] => if begun.isEmpty then [] else [⟨begun⟩]
  | byte :: rest =>
      if byte == 10 then ⟨begun.push byte⟩ :: linesFrom #[] rest
      else linesFrom (begun.push byte) rest

/-- The lines of an input, each with its newline.  What follows the last newline is
a line too, unless it is empty. -/
def lines (input : ByteArray) : List ByteArray := linesFrom #[] input.toList

/-! ## The console -/

/-- What is done at a simulated console: it uses up lines and fills buffers. -/
abbrev Simulated : Type → Type := StateT (List ByteArray) (StateM Terminal)

namespace Simulated

/-- A sink of the terminal. -/
def sink (sink : Sink (StateM Terminal)) : Sink Simulated where
  write text := fun lines => do return (← (sink.write text).run, lines)
  flush := fun lines => do return (← sink.flush.run, lines)

/-- The console over a folder. -/
def console (folder : Folder) : Console Simulated where
  streams := ⟨sink Terminal.streams.output, sink Terminal.streams.diagnostics⟩
  readFile path := fun lines => pure (folder.read path, lines)
  readLine := fun lines =>
    match lines with
    | [] => pure (.ok none, [])
    | line :: rest => pure (.ok (some line), rest)

end Simulated

end Lox
