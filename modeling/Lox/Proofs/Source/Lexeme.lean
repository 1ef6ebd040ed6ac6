import Lox.Source.Scan

/-!
# Lexemes

What can be read from a source, apart from any way of reading it.  `Lexeme kind w` says
that the text `w` is spelled like a token of this kind, `Piece.Readable` adds comments
and blanks, and `Tokenizes text cut` says that the text is cut into these pieces, each
the longest that can be read where it begins.

Only where nothing can be read does a source go wrong: at a quote, which has then no
match in what follows it and takes all of that, or at a character that begins nothing.
-/

namespace Lox

/-- How a symbol is written. -/
def Symbol.lexeme : Symbol → List Char
  | .leftParen => ['(']
  | .rightParen => [')']
  | .leftBrace => ['{']
  | .rightBrace => ['}']
  | .comma => [',']
  | .dot => ['.']
  | .minus => ['-']
  | .plus => ['+']
  | .semicolon => [';']
  | .slash => ['/']
  | .star => ['*']
  | .bang => ['!']
  | .bangEqual => ['!', '=']
  | .equal => ['=']
  | .equalEqual => ['=', '=']
  | .greater => ['>']
  | .greaterEqual => ['>', '=']
  | .less => ['<']
  | .lessEqual => ['<', '=']

open Piece

/-- How the tokens of each kind are written. -/
inductive Lexeme : Token.Kind → List Char → Prop
  | symbol (symbol : Symbol) : Lexeme (.symbol symbol) symbol.lexeme
  | keyword (keyword : Keyword) : Lexeme (.keyword keyword) keyword.lexeme.toList
  | identifier {c : Char} {w : List Char} :
      isWordStart c = true → (∀ d ∈ w, isWordRest d = true) →
        (∀ keyword : Keyword, keyword.lexeme ≠ String.ofList (c :: w)) →
        Lexeme (.identifier (String.ofList (c :: w))) (c :: w)
  | string {quote : Char} {body : List Char} :
      isQuote quote = true → quote ∉ body →
        Lexeme (.string (String.ofList body)) (quote :: body ++ [quote])
  | whole {digits : List Char} :
      digits ≠ [] → (∀ d ∈ digits, d.isDigit = true) →
        Lexeme (.number (Number.ofDigits digits [])) digits
  | fraction {whole fraction : List Char} :
      whole ≠ [] → (∀ d ∈ whole, d.isDigit = true) →
        fraction ≠ [] → (∀ d ∈ fraction, d.isDigit = true) →
        Lexeme (.number (Number.ofDigits whole fraction)) (whole ++ '.' :: fraction)

namespace Piece

/-- The pieces that are in no error: tokens, comments within a line, and blanks. -/
inductive Readable : Piece → Prop
  | token {kind : Token.Kind} {w : List Char} : Lexeme kind w → Readable (.token kind w)
  | comment {body : List Char} : '\n' ∉ body → Readable (.comment ('/' :: '/' :: body))
  | blank {c : Char} : isBlank c = true → Readable (.blank c)

/-- Of what can be read at the beginning of a text, the piece is the longest. -/
structure Longest (piece : Piece) (text : List Char) : Prop where
  readable : piece.Readable
  isPrefix : piece.text <+: text
  length_le : ∀ other : Piece, other.Readable → other.text <+: text →
    other.text.length ≤ piece.text.length

end Piece

/-- Nothing can be read at the beginning of a text. -/
def Unreadable (text : List Char) : Prop :=
  ∀ piece : Piece, piece.Readable → ¬ piece.text <+: text

/-- The text is cut into these pieces, from left to right. -/
inductive Tokenizes : List Char → List Piece → Prop
  | nil : Tokenizes [] []
  | longest {piece : Piece} {rest : List Char} {cut : List Piece} :
      piece.Longest (piece.text ++ rest) → Tokenizes rest cut →
        Tokenizes (piece.text ++ rest) (piece :: cut)
  | unterminated {quote : Char} {rest : List Char} :
      isQuote quote = true → quote ∉ rest →
        Tokenizes (quote :: rest) [.unterminated (quote :: rest)]
  | unexpected {c : Char} {rest : List Char} {cut : List Piece} :
      isQuote c = false → Unreadable (c :: rest) → Tokenizes rest cut →
        Tokenizes (c :: rest) (.unexpected c :: cut)

/-! ## Classes of characters -/

theorem isBlank_iff {c : Char} : isBlank c = true ↔ c = ' ' ∨ c = '\r' ∨ c = '\t' ∨ c = '\n' := by
  simp [isBlank, or_assoc]

theorem isQuote_iff {c : Char} : isQuote c = true ↔ c = '"' ∨ c = '\'' := by
  simp [isQuote]

theorem isWordRest_of_isWordStart {c : Char} (h : isWordStart c = true) : isWordRest c = true := by
  simp [isWordRest, h]

theorem isWordRest_of_isDigit {c : Char} (h : c.isDigit = true) : isWordRest c = true := by
  simp [isWordRest, h]

/-- Nothing that may be in a word is a blank or a quote. -/
theorem not_isWordRest_of_isBlank {c : Char} (h : isBlank c = true) : isWordRest c = false := by
  rcases isBlank_iff.1 h with rfl | rfl | rfl | rfl <;> decide

theorem not_isWordRest_of_isQuote {c : Char} (h : isQuote c = true) : isWordRest c = false := by
  rcases isQuote_iff.1 h with rfl | rfl <;> decide

/-- No word begins with a digit: the letters are those of ASCII. -/
theorem not_isDigit_of_isWordStart {c : Char} (h : isWordStart c = true) : c.isDigit = false := by
  have hval : 'A'.toNat ≤ c.toNat := by
    rcases Bool.or_eq_true_iff.1 h with halpha | hunderscore
    · rcases Bool.or_eq_true_iff.1 halpha with hupper | hlower
      · have hbounds : c.val ≥ 'A'.val ∧ c.val ≤ 'Z'.val := of_decide_eq_true hupper
        exact hbounds.1
      · have hbound : 'a'.val ≤ c.val := of_decide_eq_true (Bool.and_eq_true_iff.1 hlower).1
        exact Nat.le_trans (by decide) hbound
    · rw [beq_iff_eq] at hunderscore
      subst hunderscore
      decide
  rw [Bool.eq_false_iff]
  intro hdigit
  have hle := (Char.isDigit_iff_toNat.1 hdigit).2
  exact absurd (Nat.le_trans hval hle) (by decide)

/-! ## The first piece, by its first character -/

variable {c : Char} {rest : List Char}

theorem first_of_isBlank (h : isBlank c = true) (rest : List Char) :
    first c rest = (.blank c, rest) := if_pos h

theorem first_of_isQuote (h : isQuote c = true) (rest : List Char) :
    first c rest = string c rest := by
  rcases isQuote_iff.1 h with rfl | rfl <;> rfl

private theorem not_isBlank_of_isWordRest (h : isWordRest c = true) : isBlank c = false := by
  rw [Bool.eq_false_iff]
  intro hblank
  rw [not_isWordRest_of_isBlank hblank] at h
  cases h

private theorem not_isQuote_of_isWordRest (h : isWordRest c = true) : isQuote c = false := by
  rw [Bool.eq_false_iff]
  intro hquote
  rw [not_isWordRest_of_isQuote hquote] at h
  cases h

theorem first_of_isDigit (h : c.isDigit = true) (rest : List Char) :
    first c rest = number c rest := by
  have hrest := isWordRest_of_isDigit h
  simp [first, h, not_isBlank_of_isWordRest hrest, not_isQuote_of_isWordRest hrest]

theorem first_of_isWordStart (h : isWordStart c = true) (rest : List Char) :
    first c rest = word c rest := by
  have hrest := isWordRest_of_isWordStart h
  simp [first, h, not_isDigit_of_isWordStart h, not_isBlank_of_isWordRest hrest,
    not_isQuote_of_isWordRest hrest]

theorem first_of_slash_slash (rest : List Char) :
    first '/' ('/' :: rest) = lineComment '/' ('/' :: rest) := rfl

theorem first_of_symbol {s : Symbol} (h : Symbol.ofChar? c = some s)
    (hslash : ¬ (c = '/' ∧ rest.head? = some '/')) : first c rest = symbol s c rest := by
  have hcomment : (c == '/' && rest.head? == some '/') = false := by simpa using hslash
  have hclass : isBlank c = false ∧ isQuote c = false ∧ c.isDigit = false ∧
      isWordStart c = false := by
    unfold Symbol.ofChar? at h
    split at h <;> first | decide | cases h
  obtain ⟨hblank, hquote, hdigit, hword⟩ := hclass
  simp [first, hblank, hquote, hdigit, hword, hcomment, h]

end Lox
