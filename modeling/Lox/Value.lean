import Lox.Number.Text

/-!
# Values

What an expression of Lox can be worth.
-/

namespace Lox

/-- A value.  Two values are equal if they are of one type and equal there; no
value is converted, and numbers are compared as numbers, so `nan` differs from
itself and `-0` equals `0`. -/
inductive Value
  | nil
  | bool (value : Bool)
  | number (value : Float)
  | string (value : String)
deriving BEq

namespace Value

/-- The text of a value, as `print` writes it. -/
def text : Value → String
  | .nil => "nil"
  | .bool true => "true"
  | .bool false => "false"
  | .number x => Number.text x
  | .string s => s

/-- Whether a condition holds that has this value: all but `nil` and `false` do. -/
def isTruthy : Value → Bool
  | .nil => false
  | .bool value => value
  | .number _ => true
  | .string _ => true

end Value

end Lox
