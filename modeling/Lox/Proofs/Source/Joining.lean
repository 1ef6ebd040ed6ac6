import Lox.Proofs.Source.Tokenization

/-!
# Two sources on lines after each other

No piece but a string goes on past the end of a line, and in a source without mistakes every
string is closed.  So a newline cuts what is joined by it: the pieces of the whole are those of
the two parts, with a blank between them.
-/

namespace Lox

open Piece

variable {c : Char} {rest w after : List Char}

/-! ## The first piece -/

theorem takeWhile_append_newline {p : Char → Bool} (hp : p '\n' = false) (w after : List Char) :
    (w ++ '\n' :: after).takeWhile p = w.takeWhile p := by
  induction w with
  | nil => simp [hp]
  | cons d w ih =>
      rw [List.cons_append, List.takeWhile_cons, List.takeWhile_cons, ih]

theorem dropWhile_append_newline {p : Char → Bool} (hp : p '\n' = false) (w after : List Char) :
    (w ++ '\n' :: after).dropWhile p = w.dropWhile p ++ '\n' :: after := by
  induction w with
  | nil => simp [hp]
  | cons d w ih =>
      rw [List.cons_append, List.dropWhile_cons, List.dropWhile_cons, ih]
      split <;> rfl

namespace Piece

/-- The piece is a string that is never closed. -/
def IsOpenString : Piece → Prop
  | .unterminated _ => True
  | _ => False

/-- A line after it changes nothing in a piece. -/
def Unchanged (read : Char → List Char → Piece × List Char) (c : Char) (rest : List Char) : Prop :=
  ∀ after, read c (rest ++ '\n' :: after) = ((read c rest).1, (read c rest).2 ++ '\n' :: after)

theorem unchanged_string (h : ¬ (string c rest).1.IsOpenString) : Unchanged string c rest := by
  intro after
  by_cases hmem : c ∈ rest
  · obtain ⟨body, tail, rfl, hbody⟩ := List.eq_append_cons_of_mem hmem
    rw [List.append_assoc, List.cons_append, string_append hbody, string_append hbody]
  · rw [string_of_not_mem hmem] at h
    exact absurd trivial h

theorem unchanged_number : Unchanged number c rest := by
  have hdigit : Char.isDigit '\n' = false := by decide
  intro after
  unfold number
  rw [takeWhile_append_newline hdigit, dropWhile_append_newline hdigit]
  cases rest.dropWhile Char.isDigit with
  | nil => rfl
  | cons d tail =>
      by_cases hpoint : d = '.'
      · subst hpoint
        simp only [List.cons_append, takeWhile_append_newline hdigit,
          dropWhile_append_newline hdigit]
        cases tail.takeWhile Char.isDigit <;> rfl
      · simp [hpoint]

theorem unchanged_word : Unchanged word c rest := by
  intro after
  unfold word
  rw [takeWhile_append_newline (by decide), dropWhile_append_newline (by decide)]

theorem unchanged_lineComment : Unchanged lineComment c rest := by
  intro after
  unfold lineComment
  rw [takeWhile_append_newline (by decide), dropWhile_append_newline (by decide)]

theorem unchanged_symbol (s : Symbol) : Unchanged (symbol s) c rest := by
  intro after
  unfold symbol
  cases s.withEqual? with
  | none => rfl
  | some longer =>
      cases rest with
      | nil => rfl
      | cons d tail =>
          by_cases hequal : d = '='
          · subst hequal
            rfl
          · simp [hequal]

theorem unchanged_first (h : ¬ (first c rest).1.IsOpenString) : Unchanged first c rest := by
  intro after
  have hslash : (c == '/' && (rest ++ '\n' :: after).head? == some '/') =
      (c == '/' && rest.head? == some '/') := by
    cases rest <;> simp
  unfold first at h ⊢
  rw [hslash]
  split
  · rfl
  split
  · rename_i hblank hquote
    rw [if_neg hblank, if_pos hquote] at h
    exact unchanged_string h after
  split
  · exact unchanged_number after
  split
  · exact unchanged_word after
  split
  · exact unchanged_lineComment after
  split
  · exact unchanged_symbol _ after
  · rfl

end Piece

/-! ## All pieces -/

theorem pieces_append_newline {source : List Char}
    (h : ∀ piece ∈ pieces source, ¬ piece.IsOpenString) (after : List Char) :
    pieces (source ++ '\n' :: after) = pieces source ++ .blank '\n' :: pieces after := by
  fun_induction pieces source with
  | case1 => exact pieces_cons '\n' after
  | case2 c rest ih =>
      rw [List.forall_mem_cons] at h
      rw [List.cons_append, pieces_cons, unchanged_first h.1 after, ih h.2, List.cons_append]

/-! ## Lines -/

/-- The token, so many lines further down. -/
def Token.down (lines : Int32) (token : Token) : Token := { token with line := token.line + lines }

/-- The error, so many lines further down. -/
def ScanError.down (lines : Int32) (error : ScanError) : ScanError :=
  { error with line := error.line + lines }

namespace Scan

/-- How far a scan has come at the end of a source. -/
def progress (source : String) : Progress :=
  (pieces (dropByteOrderMark source.toList)).foldl Progress.push .start

theorem scan_eq (source : String) :
    scan source =
      ⟨(progress source).tokens.toList ++ [Token.atEnd (progress source).line],
        (progress source).errors.toList⟩ := by
  unfold scan progress
  dsimp only
  rw [Progress.run_eq_foldl, Array.toList_push]

/-- A scan follows from the pieces of its source. -/
theorem scan_of_pieces (source : String) {cut : List Piece}
    (h : pieces (dropByteOrderMark source.toList) = cut) :
    scan source =
      ⟨(cut.foldl Progress.push .start).tokens.toList ++
          [Token.atEnd (cut.foldl Progress.push .start).line],
        (cut.foldl Progress.push .start).errors.toList⟩ := by
  subst h
  exact scan_eq source

/-- A source of pieces that are all readable has no errors. -/
theorem errors_eq_nil_of_pieces {source : String} {cut : List Piece}
    (h : pieces (dropByteOrderMark source.toList) = cut)
    (hcut : cut.filterMap message? = []) : (scan source).errors = [] := by
  have hmessages := Progress.messages_foldl cut .start
  rw [hcut] at hmessages
  rw [scan_of_pieces source h]
  exact List.map_eq_nil_iff.1 hmessages

namespace Progress

/-- After so many newlines, no token is on a line further down than that. -/
structure Within (newlines : Nat) (progress : Progress) : Prop where
  line_eq : progress.line = Int32.ofNat (newlines + 1)
  tokens : ∀ token ∈ progress.tokens.toList,
    ∃ before ≤ newlines, token.line = Int32.ofNat (before + 1)

theorem Within.push {newlines : Nat} {progress : Progress} (h : progress.Within newlines)
    (piece : Piece) : (progress.push piece).Within (newlines + piece.text.count '\n') := by
  have hline : progress.line + Scan.newlines piece.text =
      Int32.ofNat (newlines + piece.text.count '\n' + 1) := by
    rw [h.line_eq, Scan.newlines, ← Int32.ofNat_add]
    congr 1
    omega
  have hbefore : ∀ token ∈ progress.tokens.toList,
      ∃ before ≤ newlines + piece.text.count '\n', token.line = Int32.ofNat (before + 1) := by
    intro token htoken
    obtain ⟨before, hle, heq⟩ := h.tokens token htoken
    exact ⟨before, by omega, heq⟩
  cases piece with
  | token kind text =>
      refine ⟨hline, ?_⟩
      unfold Progress.push
      rw [Array.toList_push, List.forall_mem_append]
      refine ⟨hbefore, ?_⟩
      intro token htoken
      obtain rfl := List.mem_singleton.1 htoken
      exact ⟨_, Nat.le_refl _, hline⟩
  | blank | comment | unterminated | unexpected => exact ⟨hline, hbefore⟩

theorem Within.foldl {newlines : Nat} {progress : Progress} (h : progress.Within newlines)
    (cut : List Piece) :
    (cut.foldl Progress.push progress).Within (newlines + (cut.flatMap text).count '\n') := by
  induction cut generalizing newlines progress with
  | nil => exact h
  | cons piece cut ih =>
      have hcut := ih (h.push piece)
      rw [List.flatMap_cons, List.count_append, ← Nat.add_assoc]
      exact hcut

/-- What was found before, and after it what another scan has found, so many lines further
down. -/
structure Continues (before : Progress) (lines : Int32) (other progress : Progress) : Prop where
  line_eq : progress.line = other.line + lines
  tokens_eq : progress.tokens.toList =
    before.tokens.toList ++ other.tokens.toList.map (Token.down lines)
  errors_eq : progress.errors.toList =
    before.errors.toList ++ other.errors.toList.map (ScanError.down lines)

theorem Continues.push {before other progress : Progress} {lines : Int32}
    (h : Continues before lines other progress) (piece : Piece) :
    Continues before lines (other.push piece) (progress.push piece) := by
  have hline : progress.line + Scan.newlines piece.text =
      other.line + Scan.newlines piece.text + lines := by
    rw [h.line_eq, Int32.add_assoc, Int32.add_comm lines, ← Int32.add_assoc]
  cases piece with
  | token kind text =>
      refine ⟨hline, ?_, h.errors_eq⟩
      unfold Progress.push
      rw [Array.toList_push, Array.toList_push, h.tokens_eq, List.map_append, List.append_assoc]
      rw [hline]
      rfl
  | blank | comment => exact ⟨hline, h.tokens_eq, h.errors_eq⟩
  | unterminated | unexpected =>
      refine ⟨hline, h.tokens_eq, ?_⟩
      unfold Progress.push
      rw [Array.toList_push, Array.toList_push, h.errors_eq, List.map_append, List.append_assoc]
      rw [hline]
      rfl

theorem Continues.foldl {before other progress : Progress} {lines : Int32}
    (h : Continues before lines other progress) (cut : List Piece) :
    Continues before lines (cut.foldl Progress.push other) (cut.foldl Progress.push progress) := by
  induction cut generalizing other progress with
  | nil => exact h
  | cons piece cut ih => exact ih (h.push piece)

end Progress

theorem count_dropByteOrderMark (text : List Char) :
    (dropByteOrderMark text).count '\n' = text.count '\n' := by
  unfold dropByteOrderMark
  split
  · rw [List.count_cons_of_ne (by decide)]
  · rfl

theorem within_progress (source : String) :
    (progress source).Within (source.toList.count '\n') := by
  have hstart : Progress.start.Within 0 := ⟨rfl, by simp [Progress.start]⟩
  have hend := hstart.foldl (pieces (dropByteOrderMark source.toList))
  rw [text_pieces, count_dropByteOrderMark, Nat.zero_add] at hend
  exact hend

/-! ## Joined sources -/

theorem dropByteOrderMark_append (w after : List Char) :
    dropByteOrderMark (w ++ '\n' :: after) = dropByteOrderMark w ++ '\n' :: after := by
  cases w with
  | nil => rfl
  | cons c rest =>
      by_cases hmark : c = '\uFEFF'
      · subst hmark
        rfl
      · simp [dropByteOrderMark, hmark]

theorem dropByteOrderMark_eq_self {text : List Char} (h : text.head? ≠ some '\uFEFF') :
    dropByteOrderMark text = text := by
  cases text with
  | nil => rfl
  | cons c rest =>
      have hmark : c ≠ '\uFEFF' := by simpa using h
      simp [dropByteOrderMark, hmark]

/-- A source that begins with a token has no byte order mark. -/
theorem dropByteOrderMark_of_pieces {text w : List Char} {kind : Token.Kind} {cut : List Piece}
    (h : pieces text = .token kind w :: cut) : dropByteOrderMark text = text := by
  apply dropByteOrderMark_eq_self
  intro hmark
  obtain ⟨rest, rfl⟩ : ∃ rest, text = '\uFEFF' :: rest := by
    cases text with
    | nil => cases hmark
    | cons c rest => exact ⟨rest, by cases hmark; rfl⟩
  have hfirst : Piece.first '\uFEFF' rest = (.unexpected '\uFEFF', rest) := rfl
  rw [pieces_cons, hfirst] at h
  cases h

variable {first second : String}

/-- Where a line ends and no string is open, a scan goes on as it begins. -/
theorem continues_progress
    (hclosed : ∀ piece ∈ pieces (dropByteOrderMark first.toList), ¬ piece.IsOpenString)
    (hmark : second.toList.head? ≠ some '\uFEFF') :
    Progress.Continues (progress first) (Int32.ofNat (first.toList.count '\n' + 1))
      (progress second) (progress (first ++ "\n" ++ second)) := by
  have hbegin : Progress.Continues (progress first) (Int32.ofNat (first.toList.count '\n' + 1))
      .start ((progress first).push (.blank '\n')) := by
    refine ⟨?_, by simp [Progress.start, Progress.push], by simp [Progress.start, Progress.push]⟩
    show (progress first).line + 1 = 1 + _
    rw [(within_progress first).line_eq, Int32.add_comm]
  have hjoined : (first ++ "\n" ++ second).toList = first.toList ++ '\n' :: second.toList := by
    simp [String.toList_append]
  have hend := hbegin.foldl (pieces second.toList)
  unfold progress at hend ⊢
  rw [hjoined, dropByteOrderMark_append, pieces_append_newline hclosed, List.foldl_append,
    List.foldl_cons, dropByteOrderMark_eq_self hmark]
  exact hend

/-- Every string is closed, unless the scan has found one that is not. -/
theorem not_isOpenString_of_closed
    (h : ∀ error ∈ (scan first).errors, error.cause ≠ .unterminatedString) :
    ∀ piece ∈ pieces (dropByteOrderMark first.toList), ¬ piece.IsOpenString := by
  have hmessages : (progress first).messages = _ :=
    Progress.messages_foldl (pieces (dropByteOrderMark first.toList)) .start
  intro piece hpiece hopen
  cases piece with
  | token | blank | comment | unexpected => exact hopen
  | unterminated w =>
      have hmem : "Unterminated string." ∈ (progress first).messages := by
        rw [hmessages]
        exact List.mem_append_right _ (List.mem_filterMap.2 ⟨_, hpiece, rfl⟩)
      obtain ⟨error, herror, hmessage⟩ := List.mem_map.1 hmem
      have hcause : error.cause = .unterminatedString := by
        cases hcause : error.cause with
        | unterminatedString => rfl
        | unexpectedCharacter => simp [hcause, ScanError.Cause.message] at hmessage
      rw [scan_eq] at h
      exact h error herror hcause

section

variable (hclosed : ∀ error ∈ (scan first).errors, error.cause ≠ .unterminatedString)
  (hmark : second.toList.head? ≠ some '\uFEFF')

include hclosed hmark

/-- The tokens of the joined source are those found in the first, and then those of the second
further down. -/
theorem tokens_append :
    (scan (first ++ "\n" ++ second)).tokens = (progress first).tokens.toList ++
      (scan second).tokens.map (Token.down (Int32.ofNat (first.toList.count '\n' + 1))) := by
  have hjoined := continues_progress (not_isOpenString_of_closed hclosed) hmark
  rw [scan_eq (first ++ "\n" ++ second), scan_eq second, hjoined.tokens_eq, hjoined.line_eq,
    List.map_append, List.append_assoc]
  rfl

/-- And so are its errors. -/
theorem errors_append :
    (scan (first ++ "\n" ++ second)).errors = (scan first).errors ++
      (scan second).errors.map (ScanError.down (Int32.ofNat (first.toList.count '\n' + 1))) := by
  have hjoined := continues_progress (not_isOpenString_of_closed hclosed) hmark
  rw [scan_eq (first ++ "\n" ++ second), scan_eq first, scan_eq second]
  exact hjoined.errors_eq

end

/-! ## The tokens of a source -/

/-- What is found as a token is spelled like one. -/
theorem lexeme_of_mem_progress (source : String) :
    ∀ token ∈ (progress source).tokens.toList, Lexeme token.kind token.lexeme.toList := by
  intro token htoken
  have hfound : (progress source).found = _ :=
    Progress.found_foldl (pieces (dropByteOrderMark source.toList)) .start
  have hmem : (token.kind, token.lexeme) ∈ (progress source).found :=
    List.mem_map_of_mem htoken
  rw [hfound, List.mem_append, List.mem_filterMap] at hmem
  rcases hmem with hstart | ⟨piece, hpiece, heq⟩
  · cases hstart
  · cases piece with
    | token kind w =>
        obtain ⟨hkind, hlexeme⟩ := Prod.mk.inj (Option.some.inj heq)
        rw [← hkind, ← hlexeme, String.toList_ofList]
        exact lexeme_of_mem_pieces hpiece
    | blank | comment | unterminated | unexpected => cases heq

/-- Only the last token of a scan marks the end. -/
theorem isEnd_of_mem_progress (source : String) :
    ∀ token ∈ (progress source).tokens.toList, token.kind.isEnd = false :=
  fun token htoken => (lexeme_of_mem_progress source token htoken).isEnd_eq_false

end Scan

end Lox
