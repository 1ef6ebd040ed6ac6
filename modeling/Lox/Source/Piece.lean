import Lox.Number.Text
import Lox.Token.Basic

/-!
# Pieces of a source

A source is read as a row of pieces, each the longest that can stand where it
begins: the lexemes of tokens, blanks and comments, which only separate them,
and what is in error.  Every piece carries its own characters, so the pieces of
a source joined together are the source (`text_first_append`, `text_pieces`).
-/

namespace Lox

/-- A stretch of a source. -/
inductive Piece
  | token (kind : Token.Kind) (text : List Char)
  | blank (char : Char)
  | comment (text : List Char)
  /-- A string that is never closed.  It runs to the end of the source. -/
  | unterminated (text : List Char)
  /-- A character that begins no other piece. -/
  | unexpected (char : Char)

namespace Piece

/-- The characters of a piece. -/
def text : Piece → List Char
  | .token _ text => text
  | .blank char => [char]
  | .comment text => text
  | .unterminated text => text
  | .unexpected char => [char]

/-! ## Classes of characters

Letters and digits are those of ASCII. -/

/-- Space, carriage return, tab and newline. -/
def isBlank (c : Char) : Bool := c == ' ' || c == '\r' || c == '\t' || c == '\n'

/-- A string is closed by the quote that opened it, so either can hold the other. -/
def isQuote (c : Char) : Bool := c == '"' || c == '\''

/-- Letters and the underscore begin a word. -/
def isWordStart (c : Char) : Bool := c.isAlpha || c == '_'

/-- A word goes on with letters, digits and underscores. -/
def isWordRest (c : Char) : Bool := isWordStart c || c.isDigit

/-! ## The first piece

Each function takes the first character of a source and what follows it, and
gives the first piece with the rest of the source. -/

/-- A string, with the newlines and all other characters before its closing quote. -/
def string (quote : Char) (rest : List Char) : Piece × List Char :=
  let body := rest.takeWhile (· != quote)
  match rest.dropWhile (· != quote) with
  | [] => (.unterminated (quote :: rest), [])
  | closing :: tail =>
      (.token (.string (String.ofList body)) (quote :: body ++ [closing]), tail)

/-- A number: digits, and a point only with digits after it. -/
def number (digit : Char) (rest : List Char) : Piece × List Char :=
  let whole := digit :: rest.takeWhile Char.isDigit
  let tail := rest.dropWhile Char.isDigit
  match tail with
  | '.' :: after =>
      match after.takeWhile Char.isDigit with
      | [] => (.token (.number (Number.ofDigits whole [])) whole, tail)
      | fraction =>
          (.token (.number (Number.ofDigits whole fraction)) (whole ++ '.' :: fraction),
            after.dropWhile Char.isDigit)
  | _ => (.token (.number (Number.ofDigits whole [])) whole, tail)

/-- The kind of a word: a keyword, or else an identifier. -/
def wordKind (word : String) : Token.Kind :=
  match Keyword.ofLexeme? word with
  | some keyword => .keyword keyword
  | none => .identifier word

/-- A keyword or an identifier. -/
def word (letter : Char) (rest : List Char) : Piece × List Char :=
  let text := letter :: rest.takeWhile isWordRest
  (.token (wordKind (String.ofList text)) text, rest.dropWhile isWordRest)

/-- A comment runs up to the end of its line, the newline not included. -/
def lineComment (slash : Char) (rest : List Char) : Piece × List Char :=
  (.comment (slash :: rest.takeWhile (· != '\n')), rest.dropWhile (· != '\n'))

/-- An operator or a punctuation mark of one or two characters. -/
def symbol (symbol : Symbol) (char : Char) (rest : List Char) : Piece × List Char :=
  match symbol.withEqual?, rest with
  | some longer, '=' :: tail => (.token (.symbol longer) [char, '='], tail)
  | _, _ => (.token (.symbol symbol) [char], rest)

/-- The first piece of a source, and the rest of the source. -/
def first (c : Char) (rest : List Char) : Piece × List Char :=
  if isBlank c then (.blank c, rest)
  else if isQuote c then string c rest
  else if c.isDigit then number c rest
  else if isWordStart c then word c rest
  else if c == '/' && rest.head? == some '/' then lineComment c rest
  else
    match Symbol.ofChar? c with
    | some s => symbol s c rest
    | none => (.unexpected c, rest)

/-! ## Nothing is lost -/

theorem text_string_append (quote : Char) (rest : List Char) :
    (string quote rest).1.text ++ (string quote rest).2 = quote :: rest := by
  unfold string
  have joined := List.takeWhile_append_dropWhile (p := (· != quote)) (l := rest)
  cases h : rest.dropWhile (· != quote) with
  | nil => simp [text]
  | cons closing tail => simpa [text, h] using joined

theorem text_number_append (digit : Char) (rest : List Char) :
    (number digit rest).1.text ++ (number digit rest).2 = digit :: rest := by
  unfold number
  have joined := List.takeWhile_append_dropWhile (p := Char.isDigit) (l := rest)
  dsimp only
  split
  · rename_i after h
    have fraction := List.takeWhile_append_dropWhile (p := Char.isDigit) (l := after)
    split
    · simp [text, joined]
    · rw [h, ← fraction] at joined
      simpa [text] using joined
  · simp [text, joined]

theorem text_symbol_append (s : Symbol) (char : Char) (rest : List Char) :
    (symbol s char rest).1.text ++ (symbol s char rest).2 = char :: rest := by
  unfold symbol
  split <;> simp [text]

/-- The first piece and the rest are the source. -/
theorem text_first_append (c : Char) (rest : List Char) :
    (first c rest).1.text ++ (first c rest).2 = c :: rest := by
  unfold first
  split
  · simp [text]
  split
  · exact text_string_append c rest
  split
  · exact text_number_append c rest
  split
  · simp [word, text, List.takeWhile_append_dropWhile]
  split
  · simp [lineComment, text, List.takeWhile_append_dropWhile]
  split
  · exact text_symbol_append _ c rest
  · simp [text]

theorem text_first_ne_nil (c : Char) (rest : List Char) : (first c rest).1.text ≠ [] := by
  unfold first
  split
  · simp [text]
  split
  · unfold string
    dsimp only
    split <;> simp [text]
  split
  · unfold number
    dsimp only
    split
    · split <;> simp [text]
    · simp [text]
  split
  · simp [word, text]
  split
  · simp [lineComment, text]
  split
  · unfold symbol
    split <;> simp [text]
  · simp [text]

/-- The first piece takes at least one character. -/
theorem length_first_le (c : Char) (rest : List Char) : (first c rest).2.length ≤ rest.length := by
  have joined := congrArg List.length (text_first_append c rest)
  have nonempty := List.length_pos_iff.2 (text_first_ne_nil c rest)
  simp only [List.length_append, List.length_cons] at joined
  omega

end Piece

/-! ## All pieces -/

/-- The pieces of a source, in order. -/
def pieces : List Char → List Piece
  | [] => []
  | c :: rest => (Piece.first c rest).1 :: pieces (Piece.first c rest).2
termination_by source => source.length
decreasing_by exact Nat.lt_succ_of_le (Piece.length_first_le c rest)

@[simp] theorem pieces_nil : pieces [] = [] := by rw [pieces]

theorem pieces_cons (c : Char) (rest : List Char) :
    pieces (c :: rest) = (Piece.first c rest).1 :: pieces (Piece.first c rest).2 := by
  rw [pieces]

/-- The pieces joined together are the source. -/
theorem text_pieces (source : List Char) : (pieces source).flatMap Piece.text = source := by
  fun_induction pieces source with
  | case1 => rfl
  | case2 c rest ih =>
      rw [List.flatMap_cons, ih]
      exact Piece.text_first_append c rest

end Lox
