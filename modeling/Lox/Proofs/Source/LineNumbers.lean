import Mathlib.Data.List.Basic
import Lox.Proofs.Source.Lines

/-!
# Line numbers

A scan counts the newlines as it takes the pieces of a source, and looks at its counter when it
has taken a piece.  So the place of a piece tells the line of what is found in it: a token is on
the line on which its lexeme ends, a stray character on its own, and a string that is never
closed on the last.  `scan_lines_exact` says so for all that a scan finds, in order.

Lines are plain numbers here.  As long as all newlines of a source can be counted, the counter
is one of these numbers from the beginning of the scan to its end.
-/

namespace Lox

open Piece

variable {before text : List Char} {cut : List Piece}

namespace Piece

/-- The pieces of a cut, each with the characters before it. -/
def placed (before : List Char) : List Piece → List (List Char × Piece)
  | [] => []
  | piece :: cut => (before, piece) :: placed (before ++ piece.text) cut

/-- What a token at its place is, with the number of the line on which its lexeme ends. -/
def tokenAt? : List Char × Piece → Option (Token.Kind × String × Int)
  | (before, .token kind w) => some (kind, String.ofList w, 1 + (before ++ w).count '\n')
  | _ => none

/-- What is in error at its place in a text with so many newlines, and the number of its line.
That of a string which is never closed is the last of the text. -/
def errorAt? (newlines : Nat) : List Char × Piece → Option (ScanError.Cause × Int)
  | (before, .unexpected _) => some (.unexpectedCharacter, 1 + before.count '\n')
  | (_, .unterminated _) => some (.unterminatedString, 1 + newlines)
  | _ => none

/-- What is in error at its place, with the number of the line at the end of the piece. -/
def errorEnd? : List Char × Piece → Option (ScanError.Cause × Int)
  | (before, .unexpected c) => some (.unexpectedCharacter, 1 + (before ++ [c]).count '\n')
  | (before, .unterminated w) => some (.unterminatedString, 1 + (before ++ w).count '\n')
  | _ => none

theorem placed_append (before : List Char) (cut more : List Piece) :
    placed before (cut ++ more) =
      placed before cut ++ placed (before ++ cut.flatMap Piece.text) more := by
  induction cut generalizing before with
  | nil => simp [placed]
  | cons piece cut ih =>
      rw [List.cons_append, placed, placed, ih, List.flatMap_cons, List.append_assoc,
        List.cons_append]

/-- What is before a piece is the text of the pieces before it. -/
theorem exists_of_mem_placed {place : List Char × Piece} (h : place ∈ placed before cut) :
    ∃ earlier later, cut = earlier ++ place.2 :: later ∧
      place.1 = before ++ earlier.flatMap Piece.text := by
  induction cut generalizing before with
  | nil => cases h
  | cons piece cut ih =>
      rcases List.mem_cons.1 h with rfl | hmem
      · exact ⟨[], cut, rfl, by simp⟩
      · obtain ⟨earlier, later, rfl, hplace⟩ := ih hmem
        exact ⟨piece :: earlier, later, rfl, by simp [hplace]⟩

/-- A token is on no line above its place, and on none below the end of the text. -/
theorem line_of_mem_placed {entry : Token.Kind × String × Int}
    (h : entry ∈ (placed before cut).filterMap tokenAt?) :
    1 + (before.count '\n' : Int) ≤ entry.2.2 ∧
      entry.2.2 ≤ 1 + ((before ++ cut.flatMap Piece.text).count '\n' : Int) := by
  obtain ⟨⟨upto, piece⟩, hplace, hentry⟩ := List.mem_filterMap.1 h
  obtain ⟨earlier, later, rfl, hupto⟩ := exists_of_mem_placed hplace
  cases piece with
  | token kind w =>
      cases hentry
      dsimp only at hupto
      subst hupto
      simp only [List.count_append, List.flatMap_append, List.flatMap_cons, Piece.text]
      omega
  | blank | comment | unterminated | unexpected => cases hentry

theorem pairwise_placed (before : List Char) (cut : List Piece) :
    ((placed before cut).filterMap tokenAt?).Pairwise (·.2.2 ≤ ·.2.2) := by
  induction cut generalizing before with
  | nil => exact .nil
  | cons piece cut ih =>
      rw [placed, List.filterMap_cons]
      cases piece with
      | token kind w => exact .cons (fun _ hmem => (line_of_mem_placed hmem).1) (ih _)
      | blank | comment | unterminated | unexpected => exact ih _

end Piece

/-! ## What goes wrong in a cut -/

/-- A newline begins a piece, so it is no stray character. -/
theorem Tokenizes.ne_newline (h : Tokenizes text cut) {c : Char} (hmem : .unexpected c ∈ cut) :
    c ≠ '\n' := by
  induction h with
  | nil => cases hmem
  | longest hlongest _ ih =>
      rcases List.mem_cons.1 hmem with rfl | hlater
      · cases hlongest.readable
      · exact ih hlater
  | unterminated => simp at hmem
  | unexpected _ hnone _ ih =>
      rcases List.mem_cons.1 hmem with heq | hlater
      · cases heq
        rintro rfl
        exact hnone _ (.blank (by decide)) ⟨_, rfl⟩
      · exact ih hlater

/-- A string that is never closed takes all of the text that is left. -/
theorem Tokenizes.eq_nil_of_unterminated (h : Tokenizes text cut) {earlier later : List Piece}
    {w : List Char} (hcut : cut = earlier ++ .unterminated w :: later) : later = [] := by
  induction h generalizing earlier with
  | nil => simp at hcut
  | longest hlongest _ ih =>
      cases earlier with
      | nil =>
          obtain ⟨rfl, -⟩ := List.cons.inj hcut
          cases hlongest.readable
      | cons piece earlier => exact ih (List.cons.inj hcut).2
  | unterminated =>
      cases earlier with
      | nil => exact (List.cons.inj hcut).2.symm
      | cons piece earlier => simp at hcut
  | unexpected _ _ _ ih =>
      cases earlier with
      | nil => cases (List.cons.inj hcut).1
      | cons piece earlier => exact ih (List.cons.inj hcut).2

/-- A stray character ends on the line on which it stands, and an open string on the last. -/
theorem Tokenizes.errorEnd?_eq (h : Tokenizes text cut) {place : List Char × Piece}
    (hplace : place ∈ placed [] cut) : errorEnd? place = errorAt? (text.count '\n') place := by
  obtain ⟨earlier, later, hcut, hbefore⟩ := exists_of_mem_placed hplace
  obtain ⟨before, piece⟩ := place
  rw [List.nil_append] at hbefore
  dsimp only at hcut hbefore
  cases piece with
  | unexpected c =>
      have hne : c ≠ '\n' := h.ne_newline (by simp [hcut])
      rw [errorEnd?, errorAt?, List.count_append, List.count_cons_of_ne hne, List.count_nil,
        Nat.add_zero]
  | unterminated w =>
      obtain rfl := h.eq_nil_of_unterminated hcut
      have htext : before ++ w = text := by
        rw [← text_pieces text, ← h.eq_pieces, hcut, hbefore, List.flatMap_append,
          List.flatMap_singleton]
        rfl
      rw [errorEnd?, errorAt?, htext]
  | token | blank | comment => rfl

/-! ## The counter -/

/-- A token with the number of its line. -/
def Token.numbered (token : Token) : Token.Kind × String × Int :=
  (token.kind, token.lexeme, token.line.toInt)

/-- An error with the number of its line. -/
def ScanError.numbered (error : ScanError) : ScanError.Cause × Int :=
  (error.cause, error.line.toInt)

namespace Scan

/-- Up to so many newlines the counter is exact. -/
theorem toInt_lineAfter (h : (cut.flatMap Piece.text).count '\n' < 2 ^ 31 - 1) :
    (lineAfter cut).toInt = 1 + (cut.flatMap Piece.text).count '\n' := by
  have hlt : (cut.flatMap Piece.text).count '\n' + 1 < 2 ^ 31 := by omega
  rw [lineAfter, Int32.toInt_ofNat_of_lt hlt]
  omega

/-- And it still is after one piece more. -/
theorem toInt_line_push {piece : Piece}
    (h : ((cut ++ [piece]).flatMap Piece.text).count '\n' < 2 ^ 31 - 1) :
    ((cut.foldl Progress.push .start).line + newlines piece.text).toInt =
      1 + (cut.flatMap Piece.text ++ piece.text).count '\n' := by
  rw [line_push, toInt_lineAfter h, List.flatMap_append, List.flatMap_singleton]

theorem count_flatMap_lt {piece : Piece}
    (h : ((cut ++ [piece]).flatMap Piece.text).count '\n' < 2 ^ 31 - 1) :
    (cut.flatMap Piece.text).count '\n' < 2 ^ 31 - 1 := by
  rw [List.flatMap_append, List.count_append] at h
  omega

/-- The tokens that have been found in pieces are numbered by their places. -/
theorem numbered_tokens_foldl (h : (cut.flatMap Piece.text).count '\n' < 2 ^ 31 - 1) :
    (cut.foldl Progress.push .start).tokens.toList.map Token.numbered =
      (placed [] cut).filterMap tokenAt? := by
  induction cut using List.reverseRecOn with
  | nil => rfl
  | append_singleton cut piece ih =>
      rw [placed_append, List.filterMap_append, ← ih (count_flatMap_lt h), List.foldl_append]
      cases piece with
      | token kind w =>
          have hline := toInt_line_push h
          rw [List.foldl_cons, List.foldl_nil, Progress.push, Array.toList_push, List.map_append]
          simp only [List.map_cons, List.map_nil, Token.numbered, hline]
          rfl
      | blank | comment | unterminated | unexpected => exact (List.append_nil _).symm

/-- The errors that have been found in pieces are numbered by the ends of these. -/
theorem numbered_errors_foldl (h : (cut.flatMap Piece.text).count '\n' < 2 ^ 31 - 1) :
    (cut.foldl Progress.push .start).errors.toList.map ScanError.numbered =
      (placed [] cut).filterMap errorEnd? := by
  induction cut using List.reverseRecOn with
  | nil => rfl
  | append_singleton cut piece ih =>
      rw [placed_append, List.filterMap_append, ← ih (count_flatMap_lt h), List.foldl_append]
      cases piece with
      | unexpected | unterminated =>
          have hline := toInt_line_push h
          rw [List.foldl_cons, List.foldl_nil, Progress.push, Array.toList_push, List.map_append]
          simp only [List.map_cons, List.map_nil, ScanError.numbered, hline]
          rfl
      | token | blank | comment => exact (List.append_nil _).symm

/-! ## The lines of a source -/

/-- All that a scan finds in a source is on its line, and after the tokens comes the end, on the
last line.  So the lines of the tokens never decrease.  After every piece the counter is the
number of newlines so far and one, and no such number is out of its range. -/
theorem scan_lines_exact (source : String) (hlines : source.toList.count '\n' < 2 ^ 31 - 1) :
    ∃ cut, Tokenizes (dropByteOrderMark source.toList) cut ∧
      (scan source).tokens.map Token.numbered = (placed [] cut).filterMap tokenAt? ++
        [((.endOfSource, "", 1 + source.toList.count '\n') : Token.Kind × String × Int)] ∧
      (scan source).errors.map ScanError.numbered =
        (placed [] cut).filterMap (errorAt? (source.toList.count '\n')) ∧
      (scan source).tokens.Pairwise (fun token later => token.line.toInt ≤ later.line.toInt) ∧
      (∀ earlier later, cut = earlier ++ later →
        (earlier.foldl Progress.push .start).line.toInt =
          1 + (earlier.flatMap Piece.text).count '\n') ∧
      (1 + source.toList.count '\n' : Int) ≤ Int32.maxValue.toInt := by
  have hcut := tokenizes_pieces (dropByteOrderMark source.toList)
  have htext := text_pieces (dropByteOrderMark source.toList)
  have hscan := scan_of_pieces source rfl
  generalize pieces (dropByteOrderMark source.toList) = cut at hcut htext hscan
  have hcount : (cut.flatMap Piece.text).count '\n' = source.toList.count '\n' := by
    rw [htext, count_dropByteOrderMark]
  have hbound : (cut.flatMap Piece.text).count '\n' < 2 ^ 31 - 1 := by rwa [hcount]
  have htokens : (scan source).tokens.map Token.numbered = (placed [] cut).filterMap tokenAt? ++
      [((.endOfSource, "", 1 + source.toList.count '\n') : Token.Kind × String × Int)] := by
    rw [hscan, List.map_append, numbered_tokens_foldl hbound, List.map_singleton, Token.numbered,
      Token.atEnd, line_foldl, toInt_lineAfter hbound, hcount]
  refine ⟨cut, hcut, htokens, ?_, ?_, ?_, ?_⟩
  · rw [hscan, numbered_errors_foldl hbound]
    refine List.filterMap_congr fun place hplace => ?_
    rw [hcut.errorEnd?_eq hplace, count_dropByteOrderMark]
  · have hpairwise : ((scan source).tokens.map Token.numbered).Pairwise (·.2.2 ≤ ·.2.2) := by
      rw [htokens, List.pairwise_append]
      refine ⟨pairwise_placed [] cut, List.pairwise_singleton _ _, ?_⟩
      intro entry hentry last hlast
      obtain rfl := List.mem_singleton.1 hlast
      have hle := (line_of_mem_placed hentry).2
      rwa [List.nil_append, hcount] at hle
    rwa [List.pairwise_map] at hpairwise
  · rintro earlier later rfl
    rw [line_foldl, toInt_lineAfter]
    rw [List.flatMap_append, List.count_append] at hbound
    omega
  · have hmax : Int32.maxValue.toInt = 2 ^ 31 - 1 := rfl
    omega

theorem pieces_twoLines : pieces ['\'', '\n', '\'', '@', '\n', '"'] =
    [.token (.string "\n") ['\'', '\n', '\''], .unexpected '@', .blank '\n',
      .unterminated ['"']] := by
  have hstring : pieces ['\'', '\n', '\'', '@', '\n', '"'] =
      .token (.string "\n") ['\'', '\n', '\''] :: pieces ['@', '\n', '"'] := pieces_cons '\'' _
  have hstray : pieces ['@', '\n', '"'] = .unexpected '@' :: pieces ['\n', '"'] := pieces_cons '@' _
  have hblank : pieces ['\n', '"'] = .blank '\n' :: pieces ['"'] := pieces_cons '\n' _
  have hopen : pieces ['"'] = [.unterminated ['"']] :=
    (pieces_cons '"' _).trans (congrArg _ pieces_nil)
  rw [hstring, hstray, hblank, hopen]

/-- A string is on the line of its closing quote. -/
theorem scan_lines_exact_string :
    "'\n'@\n\"".toList.count '\n' < 2 ^ 31 - 1 ∧
      (scan "'\n'@\n\"").tokens.map Token.numbered =
        [(.string "\n", "'\n'", 2), (.endOfSource, "", 3)] ∧
      (scan "'\n'@\n\"").errors.map ScanError.numbered =
        [(.unexpectedCharacter, 2), (.unterminatedString, 3)] := by
  have hlines : "'\n'@\n\"".toList.count '\n' < 2 ^ 31 - 1 := by decide
  obtain ⟨cut, hcut, htokens, herrors, -⟩ := scan_lines_exact "'\n'@\n\"" hlines
  obtain rfl := hcut.eq_pieces.trans pieces_twoLines
  exact ⟨hlines, htokens, herrors⟩

end Scan

end Lox
