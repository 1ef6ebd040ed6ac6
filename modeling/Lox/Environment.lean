import Std.Data.TreeMap
import Lox.Value

/-!
# Environments

The variables in scope: a stack of frames, of which the outermost holds the
globals.  A name means its binding in the innermost frame that has one.
-/

namespace Lox

/-- The variables of one scope. -/
abbrev Frame : Type := Std.TreeMap String Value

/-- The frames in scope.  There is always an innermost one; with no frame
enclosing it, it holds the globals. -/
structure Environment where
  innermost : Frame
  enclosing : List Frame

namespace Environment

/-- The environment without any variables. -/
def empty : Environment := ⟨∅, []⟩

/-- All frames, the innermost first. -/
def frames (env : Environment) : List Frame := env.innermost :: env.enclosing

/-- The number of frames. -/
def depth (env : Environment) : Nat := env.frames.length

/-- Opens a new frame. -/
def enter (env : Environment) : Environment := ⟨∅, env.frames⟩

/-- Closes the innermost frame.  The globals are never closed. -/
def leave (env : Environment) : Environment :=
  match env.enclosing with
  | [] => env
  | frame :: rest => ⟨frame, rest⟩

/-- Binds a name in the innermost frame, whatever it meant before. -/
def define (env : Environment) (name : String) (value : Value) : Environment :=
  { env with innermost := env.innermost.insert name value }

/-- What a name means. -/
def lookup? (env : Environment) (name : String) : Option Value :=
  env.frames.findSome? (·[name]?)

/-- The frames after the first that binds the name has been given a new value for it. -/
def assignFrames? (name : String) (value : Value) : List Frame → Option (List Frame)
  | [] => none
  | frame :: rest =>
      if frame.contains name then some (frame.insert name value :: rest)
      else (assignFrames? name value rest).map (frame :: ·)

/-- Gives a new value to what a name means.  The name has to be bound. -/
def assign? (env : Environment) (name : String) (value : Value) : Option Environment :=
  if env.innermost.contains name then some (env.define name value)
  else
    (assignFrames? name value env.enclosing).map fun enclosing =>
      { env with enclosing := enclosing }

end Environment

end Lox
