/-!
# Keywords

The words that are no identifiers.  Some of them are reserved only: no rule of
the grammar uses `class`, `fun`, `return`, `super` or `this`.
-/

namespace Lox

/-- A reserved word. -/
inductive Keyword
  | and
  | «class»
  | «else»
  | «false»
  | «for»
  | «fun»
  | «if»
  | nil
  | or
  | print
  | «return»
  | super
  | this
  | «true»
  | var
  | «while»
deriving DecidableEq

namespace Keyword

/-- All keywords. -/
def all : List Keyword :=
  [.and, .«class», .«else», .«false», .«for», .«fun», .«if», .nil, .or, .print, .«return», .super,
    .this, .«true», .var, .«while»]

/-- The word itself. -/
def lexeme : Keyword → String
  | .and => "and"
  | .«class» => "class"
  | .«else» => "else"
  | .«false» => "false"
  | .«for» => "for"
  | .«fun» => "fun"
  | .«if» => "if"
  | .nil => "nil"
  | .or => "or"
  | .print => "print"
  | .«return» => "return"
  | .super => "super"
  | .this => "this"
  | .«true» => "true"
  | .var => "var"
  | .«while» => "while"

/-- The keyword that is spelled like this, if there is one. -/
def ofLexeme? (word : String) : Option Keyword := all.find? (·.lexeme == word)

theorem mem_all (keyword : Keyword) : keyword ∈ all := by cases keyword <;> decide

/-- A word that is spelled like no keyword is none. -/
theorem ofLexeme?_eq_none_iff {word : String} :
    ofLexeme? word = none ↔ ∀ keyword : Keyword, keyword.lexeme ≠ word := by
  rw [ofLexeme?, List.find?_eq_none]
  constructor
  · intro hnone keyword heq
    exact hnone keyword (mem_all keyword) (beq_iff_eq.2 heq)
  · intro hnot keyword _ heq
    exact hnot keyword (beq_iff_eq.1 heq)

end Keyword

end Lox
