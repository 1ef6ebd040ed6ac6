import Lox.Source.Piece

/-!
# Scanning

`scan` reads a whole source: its tokens, each with the line on which it ends,
and the errors for the stretches that are no tokens.  An error never stops the
scan, so there is always a token for the end of the source.

The lines are those of the source after a byte order mark at its very beginning
has been dropped.  They are counted from one, in 32 bits.
-/

namespace Lox

/-- Why a stretch of a source is no token. -/
inductive ScanError.Cause
  | unexpectedCharacter
  | unterminatedString
deriving DecidableEq

/-- A stretch of a source that is no token, with the line on which it ends. -/
structure ScanError where
  line : Int32
  cause : ScanError.Cause
deriving DecidableEq

namespace ScanError

/-- The wording of a cause. -/
def Cause.message : Cause → String
  | .unexpectedCharacter => "Unexpected character."
  | .unterminatedString => "Unterminated string."

/-- The report of an error. -/
def text (error : ScanError) : String := s!"[line {error.line}] error: {error.cause.message}"

end ScanError

/-- A source taken apart. -/
structure Scan where
  tokens : List Token
  errors : List ScanError

/-- How far a scan has come: the line it is on and what it has found. -/
structure Scan.Progress where
  line : Int32
  tokens : Array Token
  errors : Array ScanError

namespace Scan

/-- The newlines of a text. -/
def newlines (text : List Char) : Int32 := Int32.ofNat (text.count '\n')

namespace Progress

/-- At the beginning of a source. -/
def start : Progress := ⟨1, #[], #[]⟩

/-- After one more piece. -/
def push (progress : Progress) (piece : Piece) : Progress :=
  let line := progress.line + newlines piece.text
  let tokens := progress.tokens
  let errors := progress.errors
  match piece with
  | .token kind text => ⟨line, tokens.push ⟨kind, String.ofList text, line⟩, errors⟩
  | .blank _ | .comment _ => ⟨line, tokens, errors⟩
  | .unterminated _ => ⟨line, tokens, errors.push ⟨line, .unterminatedString⟩⟩
  | .unexpected _ => ⟨line, tokens, errors.push ⟨line, .unexpectedCharacter⟩⟩

/-- After all pieces of the rest of a source. -/
def run (progress : Progress) : List Char → Progress
  | [] => progress
  | c :: rest => (progress.push (Piece.first c rest).1).run (Piece.first c rest).2
termination_by source => source.length
decreasing_by exact Nat.lt_succ_of_le (Piece.length_first_le c rest)

/-- Running over a source is pushing its pieces in order. -/
theorem run_eq_foldl (progress : Progress) (source : List Char) :
    progress.run source = (pieces source).foldl push progress := by
  fun_induction run progress source with
  | case1 => simp
  | case2 progress c rest ih => rw [pieces_cons, List.foldl_cons, ih]

end Progress

/-- The source without a byte order mark at its beginning. -/
def dropByteOrderMark : List Char → List Char
  | '\uFEFF' :: rest => rest
  | source => source

end Scan

/-- The tokens and the errors of a source. -/
def scan (source : String) : Scan :=
  let progress := Scan.Progress.start.run (Scan.dropByteOrderMark source.toList)
  { tokens := (progress.tokens.push (Token.atEnd progress.line)).toList
    errors := progress.errors.toList }

end Lox
