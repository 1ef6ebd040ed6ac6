import Lox.Grammar.Statement

/-!
# Programs

A program is the declarations before the first token that marks an end.  What
comes after that token is never read.  Tokens without such a mark end after the
last, as if the mark stood there with line zero.
-/

namespace Lox

/-- How deep statements and expressions can be nested. -/
def maxNesting : Nat := 255

/-- The mark that is implied after the last token. -/
def impliedEnd : Token := Token.atEnd 0

/-- The tokens before the end of the program. -/
def programTokens (tokens : List Token) : List Token := tokens.takeWhile (!·.kind.isEnd)

/-- The token that marks the end of the program. -/
def endMark (tokens : List Token) : Token :=
  (tokens.find? (·.kind.isEnd)).getD impliedEnd

/-- A whole program. -/
def Grammar.program : Rule (List Stmt) :=
  declarations (fun _ => false) (expression maxNesting) (statement maxNesting)

/-- The faults of a program in the order in which they were found. -/
def Parsed.faults (parsed : Parsed α) : List Fault :=
  match parsed.result with
  | .ok _ => parsed.reported.toList
  | .error fault => parsed.reported.toList ++ [fault]

/-- The statements of a program, or all of its mistakes in the order in which
they were found.  A program with any mistake has no statements. -/
def parse (tokens : List Token) : Except (List SyntaxError) (List Stmt) :=
  let parsed := Grammar.program (programTokens tokens)
  match parsed.result, parsed.faults with
  | .ok program, [] => .ok program
  | _, faults => .error (faults.map (Fault.toError (endMark tokens)))

end Lox
