import Mathlib.Algebra.Group.Nat.Defs
import Mathlib.Data.List.Induction
import Lox.Proofs.Source.Joining

/-!
# Lines

Where the tokens and the errors of a scan stand in the source.  Each is on the line at the end
of its piece, that is, one line further down for each newline up to there
(`exists_piece_of_mem_tokens`, `exists_piece_of_mem_errors`).  Only strings have newlines in them
(`newline_mem_lexeme_iff`), so any other token is also on the line on which it begins.

As long as lines can be counted, all of these lines are lines of the source.
-/

namespace Lox

open Piece

/-! ## Strings that span lines -/

/-- Whether this is a string with newlines in it. -/
def Token.Kind.spansLines : Token.Kind → Bool
  | .string text => text.toList.contains '\n'
  | _ => false

/-- Of all that can be read, only strings have newlines in them. -/
theorem Lexeme.newline_mem_iff {kind : Token.Kind} {w : List Char} (h : Lexeme kind w) :
    '\n' ∈ w ↔ kind.spansLines = true := by
  have hdigits : ∀ {digits : List Char}, (∀ d ∈ digits, d.isDigit = true) → '\n' ∉ digits := by
    intro digits hall hnewline
    cases hall _ hnewline
  cases h with
  | symbol symbol => cases symbol <;> decide
  | keyword keyword => cases keyword <;> decide
  | identifier hstart hrest _ =>
      refine iff_of_false ?_ Bool.false_ne_true
      intro hnewline
      rcases List.mem_cons.1 hnewline with rfl | hnewline
      · cases hstart
      · cases hrest _ hnewline
  | @string quote body hquote _ =>
      have hne : '\n' ≠ quote := by
        rintro rfl
        cases hquote
      simp [Token.Kind.spansLines, hne]
  | whole _ hall => exact iff_of_false (hdigits hall) Bool.false_ne_true
  | fraction _ hwhole _ hfraction =>
      refine iff_of_false ?_ Bool.false_ne_true
      intro hnewline
      rcases List.mem_append.1 hnewline with hnewline | hnewline
      · exact hdigits hwhole hnewline
      · rcases List.mem_cons.1 hnewline with hpoint | hnewline
        · cases hpoint
        · exact hdigits hfraction hnewline

namespace Scan

variable {source : String} {cut : List Piece} {token : Token}

/-! ## Where things stand -/

/-- The line at the end of pieces. -/
def lineAfter (cut : List Piece) : Int32 := Int32.ofNat ((cut.flatMap text).count '\n' + 1)

theorem line_foldl (cut : List Piece) :
    (cut.foldl Progress.push .start).line = lineAfter cut := by
  have hstart : Progress.start.Within 0 := ⟨rfl, by simp [Progress.start]⟩
  have hend := (hstart.foldl cut).line_eq
  rwa [Nat.zero_add] at hend

/-- The line at the end of one piece more. -/
theorem line_push (cut : List Piece) (piece : Piece) :
    (cut.foldl Progress.push .start).line + newlines piece.text = lineAfter (cut ++ [piece]) := by
  rw [line_foldl, lineAfter, lineAfter, newlines, ← Int32.ofNat_add, List.flatMap_append,
    List.count_append]
  congr 1
  simp only [List.flatMap_cons, List.flatMap_nil, List.append_nil]
  omega

/-- A token that has been found is one of the pieces, and on the line at its end. -/
theorem exists_piece_of_mem_tokens
    (h : token ∈ (cut.foldl Progress.push .start).tokens.toList) :
    ∃ earlier w later, cut = earlier ++ .token token.kind w :: later ∧
      token.lexeme = String.ofList w ∧
      token.line = lineAfter (earlier ++ [.token token.kind w]) := by
  induction cut using List.reverseRecOn with
  | nil => cases h
  | append_singleton cut piece ih =>
      have hbefore : token ∈ (cut.foldl Progress.push .start).tokens.toList →
          ∃ earlier w later, cut ++ [piece] = earlier ++ .token token.kind w :: later ∧
            token.lexeme = String.ofList w ∧
            token.line = lineAfter (earlier ++ [.token token.kind w]) := by
        intro hmem
        obtain ⟨earlier, w, later, rfl, hplace⟩ := ih hmem
        exact ⟨earlier, w, later ++ [piece], by simp, hplace⟩
      rw [List.foldl_append, List.foldl_cons, List.foldl_nil] at h
      cases piece with
      | token kind w =>
          unfold Progress.push at h
          rw [Array.toList_push, List.mem_append, List.mem_singleton] at h
          rcases h with hmem | rfl
          · exact hbefore hmem
          · exact ⟨cut, w, [], rfl, rfl, line_push cut _⟩
      | blank | comment | unterminated | unexpected => exact hbefore h

/-- An error that has been found is at one of the pieces, and on the line at its end. -/
theorem exists_piece_of_mem_errors {error : ScanError}
    (h : error ∈ (cut.foldl Progress.push .start).errors.toList) :
    ∃ earlier piece later, cut = earlier ++ piece :: later ∧
      piece.message? = some error.cause.message ∧ error.line = lineAfter (earlier ++ [piece]) := by
  induction cut using List.reverseRecOn with
  | nil => cases h
  | append_singleton cut piece ih =>
      have hbefore : error ∈ (cut.foldl Progress.push .start).errors.toList →
          ∃ earlier other later, cut ++ [piece] = earlier ++ other :: later ∧
            other.message? = some error.cause.message ∧
            error.line = lineAfter (earlier ++ [other]) := by
        intro hmem
        obtain ⟨earlier, other, later, rfl, hplace⟩ := ih hmem
        exact ⟨earlier, other, later ++ [piece], by simp, hplace⟩
      rw [List.foldl_append, List.foldl_cons, List.foldl_nil] at h
      cases piece with
      | unterminated | unexpected =>
          unfold Progress.push at h
          rw [Array.toList_push, List.mem_append, List.mem_singleton] at h
          rcases h with hmem | rfl
          · exact hbefore hmem
          · exact ⟨cut, _, [], rfl, rfl, line_push cut _⟩
      | token | blank | comment => exact hbefore h

/-- The token is one of the pieces of the source, and these are the characters before it. -/
def StandsAfter (source : String) (before : List Char) (token : Token) : Prop :=
  ∃ earlier w later,
    pieces (dropByteOrderMark source.toList) = earlier ++ .token token.kind w :: later ∧
      token.lexeme = String.ofList w ∧ earlier.flatMap text = before

/-- A symbol or a name is all on one line. -/
theorem StandsAfter.notMem_newline {before : List Char} (h : StandsAfter source before token)
    (hkind : (∃ symbol, token.kind = .symbol symbol) ∨ ∃ name, token.kind = .identifier name) :
    '\n' ∉ token.lexeme.toList := by
  obtain ⟨earlier, w, later, hcut, hlexeme, -⟩ := h
  have hmem : .token token.kind w ∈ pieces (dropByteOrderMark source.toList) := by
    rw [hcut]
    exact List.mem_append_right _ List.mem_cons_self
  rw [hlexeme, String.toList_ofList, (lexeme_of_mem_pieces hmem).newline_mem_iff]
  rcases hkind with ⟨symbol, hsymbol⟩ | ⟨name, hname⟩
  · rw [hsymbol]
    exact Bool.false_ne_true
  · rw [hname]
    exact Bool.false_ne_true

/-- The tokens of a source that have newlines in them are strings that do. -/
theorem newline_mem_lexeme_iff (h : token ∈ (scan source).tokens) :
    '\n' ∈ token.lexeme.toList ↔ token.kind.spansLines = true := by
  rw [scan_eq] at h
  rcases List.mem_append.1 h with hmem | hmem
  · obtain ⟨earlier, w, later, hcut, hlexeme, -⟩ := exists_piece_of_mem_tokens hmem
    have hpiece : .token token.kind w ∈ pieces (dropByteOrderMark source.toList) := by
      rw [hcut]
      exact List.mem_append_right _ List.mem_cons_self
    rw [hlexeme, String.toList_ofList]
    exact (lexeme_of_mem_pieces hpiece).newline_mem_iff
  · obtain rfl := List.mem_singleton.1 hmem
    exact iff_of_false List.not_mem_nil Bool.false_ne_true

/-! ## Lines of the source -/

/-- There are no more newlines up to a piece than in all of the source. -/
theorem count_earlier_le {earlier later : List Piece} {piece : Piece}
    (h : pieces (dropByteOrderMark source.toList) = earlier ++ piece :: later) :
    ((earlier ++ [piece]).flatMap text).count '\n' ≤ source.toList.count '\n' := by
  have hjoined := text_pieces (dropByteOrderMark source.toList)
  rw [h, List.append_cons, List.flatMap_append] at hjoined
  rw [← count_dropByteOrderMark source.toList, ← hjoined, List.count_append]
  exact Nat.le_add_right _ _

/-- The number of a line is that of a line of the source. -/
def IsLine (source : String) (line : Int32) : Prop :=
  1 ≤ line.toInt ∧ line.toInt ≤ 1 + source.toList.count '\n'

variable (hlines : source.toList.count '\n' < 2 ^ 31 - 1)

include hlines

/-- Lines can be counted up to the last. -/
theorem toInt_line {before : Nat} (h : before ≤ source.toList.count '\n') :
    (Int32.ofNat (before + 1)).toInt = before + 1 := by
  have hbound : before + 1 < 2 ^ 31 := by omega
  rw [Int32.toInt_ofNat_of_lt hbound]
  omega

theorem isLine_ofNat {before : Nat} (h : before ≤ source.toList.count '\n') :
    IsLine source (Int32.ofNat (before + 1)) := by
  have hline := toInt_line hlines h
  constructor
  · omega
  · omega

/-- A token that is no mark for the end stands in the source, on the line at its end. -/
theorem exists_standsAfter (h : token ∈ (scan source).tokens) (hend : token.kind.isEnd = false) :
    ∃ before, StandsAfter source before token ∧
      token.line.toInt = 1 + before.count '\n' + token.lexeme.toList.count '\n' := by
  rw [scan_eq] at h
  rcases List.mem_append.1 h with hmem | hmem
  · obtain ⟨earlier, w, later, hcut, hlexeme, hline⟩ := exists_piece_of_mem_tokens hmem
    refine ⟨earlier.flatMap text, ⟨earlier, w, later, hcut, hlexeme, rfl⟩, ?_⟩
    have hjoined : ((earlier ++ [Piece.token token.kind w]).flatMap text).count '\n' =
        (earlier.flatMap text).count '\n' + token.lexeme.toList.count '\n' := by
      rw [hlexeme, String.toList_ofList, List.flatMap_append, List.count_append]
      simp only [List.flatMap_cons, List.flatMap_nil, List.append_nil, text]
    rw [hline, lineAfter, toInt_line hlines (count_earlier_le hcut), hjoined]
    omega
  · obtain rfl := List.mem_singleton.1 hmem
    cases hend

theorem isLine_of_mem_errors {error : ScanError} (h : error ∈ (scan source).errors) :
    IsLine source error.line := by
  rw [scan_eq] at h
  obtain ⟨earlier, piece, later, hcut, -, hline⟩ := exists_piece_of_mem_errors h
  rw [hline]
  exact isLine_ofNat hlines (count_earlier_le hcut)

theorem isLine_of_mem_tokens (h : token ∈ (scan source).tokens) : IsLine source token.line := by
  have hwithin := within_progress source
  rw [scan_eq] at h
  rcases List.mem_append.1 h with hmem | hmem
  · obtain ⟨before, hle, hline⟩ := hwithin.tokens token hmem
    rw [hline]
    exact isLine_ofNat hlines hle
  · obtain rfl := List.mem_singleton.1 hmem
    show IsLine source (progress source).line
    rw [hwithin.line_eq]
    exact isLine_ofNat hlines (Nat.le_refl _)

end Scan

end Lox
