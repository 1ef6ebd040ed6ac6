import Lox.Token.Symbol
import Lox.Token.Keyword

/-!
# Tokens

A token is a kind, which is all that the grammar looks at, with the lexeme and
the line for which it stands in a message.
-/

namespace Lox

/-- What a token is, with what it carries. -/
inductive Token.Kind
  | symbol (symbol : Symbol)
  | keyword (keyword : Keyword)
  | identifier (name : String)
  | string (text : String)
  | number (value : Float)
  | endOfSource
deriving BEq

/-- A token of a source.  Its line is the one on which its lexeme ends. -/
structure Token where
  kind : Token.Kind
  lexeme : String
  line : Int32
deriving BEq

namespace Token

namespace Kind

/-- Whether two kinds are alike but for what identifiers, strings and numbers
carry. -/
def sameShape : Kind → Kind → Bool
  | .symbol a, .symbol b => a == b
  | .keyword a, .keyword b => a == b
  | .identifier _, .identifier _ => true
  | .string _, .string _ => true
  | .number _, .number _ => true
  | .endOfSource, .endOfSource => true
  | _, _ => false

/-- Whether this is the given symbol. -/
def isSymbol (kind : Kind) (symbol : Symbol) : Bool :=
  match kind with
  | .symbol s => s == symbol
  | _ => false

/-- Whether this is the given keyword. -/
def isKeyword (kind : Kind) (keyword : Keyword) : Bool :=
  match kind with
  | .keyword k => k == keyword
  | _ => false

@[simp] theorem isSymbol_iff {kind : Kind} {symbol : Symbol} :
    kind.isSymbol symbol = true ↔ kind = .symbol symbol := by
  cases kind <;> simp [isSymbol]

@[simp] theorem isKeyword_iff {kind : Kind} {keyword : Keyword} :
    kind.isKeyword keyword = true ↔ kind = .keyword keyword := by
  cases kind <;> simp [isKeyword]

/-- Whether this marks the end of the source. -/
def isEnd : Kind → Bool
  | .endOfSource => true
  | _ => false

theorem isEnd_iff {kind : Kind} : kind.isEnd = true ↔ kind = .endOfSource := by
  cases kind <;> simp [isEnd]

end Kind

/-- The end of the source, on the given line. -/
def atEnd (line : Int32) : Token := ⟨.endOfSource, "", line⟩

end Token

end Lox
