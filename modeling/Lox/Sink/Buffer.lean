import Lox.Sink.Basic

/-!
# Buffers

Sinks in memory.  A buffer may have room for so many bytes only, and it may be
made to fail when it is flushed.
-/

namespace Lox

/-- Bytes that have been written, and how more of them are taken. -/
structure Buffer where
  bytes : ByteArray := ByteArray.empty
  /-- The number of bytes that there is room for, if that is limited. -/
  capacity : Option Nat := none
  /-- The failure of a write for which there is no room. -/
  whenFull : SinkError := .full
  flushFails : Bool := false

namespace Buffer

/-- Writes a text.  If there is not room for all of its bytes, the first ones are
still taken, even up to the middle of a character. -/
def write (buffer : Buffer) (text : String) : Except SinkError Unit × Buffer :=
  let ⟨bytes, capacity, whenFull, flushFails⟩ := buffer
  let data := text.toUTF8
  match capacity with
  | none => (.ok (), ⟨bytes ++ data, capacity, whenFull, flushFails⟩)
  | some total =>
      let room := total - bytes.size
      if data.size ≤ room then (.ok (), ⟨bytes ++ data, capacity, whenFull, flushFails⟩)
      else (.error whenFull, ⟨bytes ++ data.extract 0 room, capacity, whenFull, flushFails⟩)

/-- Flushes. -/
def flush (buffer : Buffer) : Except SinkError Unit :=
  if buffer.flushFails then .error .flushFailed else .ok ()

/-- A buffer as a sink. -/
def sink : Sink (StateM Buffer) where
  write text := fun buffer => buffer.write text
  flush := fun buffer => (buffer.flush, buffer)

end Buffer

/-- A buffer for each of the two sinks of a session. -/
structure Terminal where
  output : Buffer := {}
  diagnostics : Buffer := {}

namespace Terminal

/-- The buffers as sinks. -/
def streams : Streams (StateM Terminal) where
  output :=
    { write := fun text ⟨output, diagnostics⟩ =>
        let (result, output) := output.write text
        (result, ⟨output, diagnostics⟩)
      flush := fun terminal => (terminal.output.flush, terminal) }
  diagnostics :=
    { write := fun text ⟨output, diagnostics⟩ =>
        let (result, diagnostics) := diagnostics.write text
        (result, ⟨output, diagnostics⟩)
      flush := fun terminal => (terminal.diagnostics.flush, terminal) }

end Terminal

end Lox
