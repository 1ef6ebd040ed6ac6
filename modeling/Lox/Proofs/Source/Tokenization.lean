import Lox.Proofs.Source.LongestMatch

/-!
# A source is cut in one way

The first piece of a text is the longest that can be read, unless nothing can be read
there, and pieces that can be read are alike if their texts are.  So every source has one
cut into longest pieces.  A scan finds it: its tokens are those of the cut, its errors are
the stretches of the cut that cannot be read, and all of the source is in the cut.
-/

namespace Lox

open Piece

variable {c : Char} {w rest text : List Char} {piece : Piece} {cut : List Piece}

/-! ## The first piece -/

theorem Piece.Readable.text_ne_nil (h : piece.Readable) : piece.text ≠ [] := by
  cases h with
  | token hlexeme => exact hlexeme.ne_nil
  | comment _ => exact List.cons_ne_nil _ _
  | blank _ => exact List.cons_ne_nil _ _

/-- A piece that can be read is what is read where nothing comes after it. -/
theorem Piece.Readable.first_self (h : piece.Readable) (htext : piece.text = c :: w) :
    (Piece.first c w).1 = piece := by
  cases h with
  | token hlexeme =>
      have hfirst := hlexeme.first_append apart_nil htext
      rw [List.append_nil] at hfirst
      rw [hfirst]
  | @comment body hbody =>
      obtain ⟨rfl, rfl⟩ := List.cons.inj htext
      have hline : '\n' ∉ '/' :: body := by simpa using hbody
      rw [first_of_slash_slash, lineComment, List.takeWhile_eq_self_iff.2 (bne_of_notMem hline)]
  | blank hblank =>
      obtain ⟨rfl, rfl⟩ := List.cons.inj htext
      rw [first_of_isBlank hblank]

theorem Piece.Readable.eq_of_text_eq {other : Piece} (h : piece.Readable) (hother : other.Readable)
    (htext : piece.text = other.text) : piece = other := by
  obtain ⟨c, w, hcons⟩ := List.exists_cons_of_ne_nil hother.text_ne_nil
  rw [← h.first_self (htext.trans hcons), hother.first_self hcons]

theorem begins_text_first (c : Char) (rest : List Char) :
    (first c rest).1.text <+: c :: rest :=
  ⟨(first c rest).2, text_first_append c rest⟩

/-- Only the longest piece that can be read is read. -/
theorem Piece.Longest.first_eq (h : piece.Longest (c :: rest)) : (first c rest).1 = piece := by
  obtain ⟨hreadable, hle⟩ := h.readable.first h.isPrefix
  have hge := h.length_le _ hreadable (begins_text_first c rest)
  have hbegins := List.prefix_of_prefix_length_le h.isPrefix (begins_text_first c rest) hle
  have htext := hbegins.eq_of_length (Nat.le_antisymm hle hge)
  exact hreadable.eq_of_text_eq h.readable htext.symm

theorem longest_first (h : (first c rest).1.Readable) : (first c rest).1.Longest (c :: rest) where
  readable := h
  isPrefix := begins_text_first c rest
  length_le _ hother hbegins := (hother.first hbegins).2

theorem readable_string {quote : Char} (hquote : isQuote quote = true) (hmem : quote ∈ rest) :
    (string quote rest).1.Readable := by
  obtain ⟨body, tail, rfl, hbody⟩ := List.eq_append_cons_of_mem hmem
  rw [string_append hbody]
  exact .token (.string hquote hbody)

/-- Where nothing can be read, there is a quote without a match or a stray character. -/
theorem first_cases (c : Char) (rest : List Char) :
    (first c rest).1.Longest (c :: rest) ∨
      (isQuote c = true ∧ c ∉ rest ∧ first c rest = (.unterminated (c :: rest), [])) ∨
      (isQuote c = false ∧ Unreadable (c :: rest) ∧ first c rest = (.unexpected c, rest)) := by
  by_cases hreadable : (first c rest).1.Readable
  · exact .inl (longest_first hreadable)
  right
  have hunreadable : Unreadable (c :: rest) :=
    fun piece hpiece hbegins => hreadable (hpiece.first hbegins).1
  by_cases hquote : isQuote c = true
  · rw [first_of_isQuote hquote] at hreadable ⊢
    have hmem : c ∉ rest := fun hmem => hreadable (readable_string hquote hmem)
    exact .inl ⟨hquote, hmem, string_of_not_mem hmem⟩
  refine .inr ⟨by simpa using hquote, hunreadable, ?_⟩
  -- a character of any class begins something that can be read
  by_cases hblank : isBlank c = true
  · rw [first_of_isBlank hblank] at hreadable
    exact absurd (.blank hblank) hreadable
  by_cases hdigit : c.isDigit = true
  · rw [first_of_isDigit hdigit] at hreadable
    exact absurd (readable_number hdigit rest) hreadable
  by_cases hword : isWordStart c = true
  · rw [first_of_isWordStart hword] at hreadable
    exact absurd (readable_word hword rest) hreadable
  cases hsymbol : Symbol.ofChar? c with
  | some s => exact absurd (readable_first_of_symbol hsymbol rest) hreadable
  | none =>
      have hslash : c ≠ '/' := by
        rintro rfl
        cases hsymbol
      simp [first, hblank, hquote, hdigit, hword, hslash, hsymbol]

/-! ## All pieces -/

/-- A lexeme is cut off from what it does not go on into. -/
theorem pieces_lexeme_append {kind : Token.Kind} (h : Lexeme kind w) {t : List Char}
    (ht : Apart t) : pieces (w ++ t) = .token kind w :: pieces t := by
  obtain ⟨c, v, rfl⟩ := List.exists_cons_of_ne_nil h.ne_nil
  rw [List.cons_append, pieces_cons, h.first_append ht rfl]

theorem tokenizes_pieces (text : List Char) : Tokenizes text (pieces text) := by
  fun_induction pieces text with
  | case1 => exact .nil
  | case2 c rest ih =>
      rcases first_cases c rest with hlongest | ⟨hquote, hmem, hfirst⟩ | ⟨hquote, hnone, hfirst⟩
      · rw [← text_first_append c rest] at hlongest
        have hcut := Tokenizes.longest hlongest ih
        rw [text_first_append] at hcut
        exact hcut
      · rw [hfirst, pieces_nil]
        exact .unterminated hquote hmem
      · rw [hfirst] at ih ⊢
        exact .unexpected hquote hnone ih

/-- What is cut out as a token is spelled like one. -/
theorem lexeme_of_mem_pieces {kind : Token.Kind} (h : .token kind w ∈ pieces text) :
    Lexeme kind w := by
  have hcut := tokenizes_pieces text
  generalize pieces text = cut at h hcut
  induction hcut with
  | nil => cases h
  | longest hlongest _ ih =>
      rcases List.mem_cons.1 h with rfl | hmem
      · cases hlongest.readable with
        | token hlexeme => exact hlexeme
      · exact ih hmem
  | unterminated => simp at h
  | unexpected _ _ _ ih =>
      rcases List.mem_cons.1 h with heq | hmem
      · cases heq
      · exact ih hmem

/-- The one cut of a text is that into its pieces. -/
theorem Tokenizes.eq_pieces (h : Tokenizes text cut) : cut = pieces text := by
  induction h with
  | nil => rw [pieces_nil]
  | @longest piece rest cut hlongest _ ih =>
      obtain ⟨c, w, htext⟩ := List.exists_cons_of_ne_nil hlongest.readable.text_ne_nil
      rw [htext, List.cons_append] at hlongest ⊢
      have hfirst := hlongest.first_eq
      -- the first piece has the text of the cut's, so what comes after the two is the same
      have hjoined := text_first_append c (w ++ rest)
      rw [hfirst, htext, List.cons_append] at hjoined
      have hrest := List.append_cancel_left (List.cons.inj hjoined).2
      rw [pieces_cons, hfirst, hrest, ih]
  | unterminated hquote hmem =>
      rw [pieces_cons, first_of_isQuote hquote, string_of_not_mem hmem, pieces_nil]
  | @unexpected c rest cut hquote hnone _ ih =>
      rcases first_cases c rest with hlongest | ⟨hquote', _, _⟩ | ⟨_, _, hfirst⟩
      · exact absurd hlongest.isPrefix (hnone _ hlongest.readable)
      · rw [hquote] at hquote'
        cases hquote'
      · rw [pieces_cons, hfirst, ih]

theorem tokenizes_iff : Tokenizes text cut ↔ cut = pieces text := by
  constructor
  · exact Tokenizes.eq_pieces
  · rintro rfl
    exact tokenizes_pieces text

/-! ## The scan -/

namespace Piece

/-- The kind and the lexeme of a piece that is a token. -/
def token? : Piece → Option (Token.Kind × String)
  | .token kind text => some (kind, String.ofList text)
  | _ => none

/-- What is said of a piece that cannot be read. -/
def message? : Piece → Option String
  | .unterminated _ => some "Unterminated string."
  | .unexpected _ => some "Unexpected character."
  | _ => none

end Piece

namespace Scan.Progress

/-- The kinds and lexemes of the tokens that have been found. -/
def found (progress : Progress) : List (Token.Kind × String) :=
  progress.tokens.toList.map fun token => (token.kind, token.lexeme)

/-- What has been said of the errors that have been found. -/
def messages (progress : Progress) : List String :=
  progress.errors.toList.map (·.cause.message)

theorem found_push (progress : Progress) (piece : Piece) :
    (progress.push piece).found = progress.found ++ piece.token?.toList := by
  cases piece <;> simp [push, found, token?]

theorem messages_push (progress : Progress) (piece : Piece) :
    (progress.push piece).messages = progress.messages ++ piece.message?.toList := by
  cases piece <;> simp [push, messages, message?, ScanError.Cause.message]

theorem found_foldl (cut : List Piece) (progress : Progress) :
    (cut.foldl push progress).found = progress.found ++ cut.filterMap token? := by
  induction cut generalizing progress with
  | nil => simp
  | cons piece cut ih =>
      rw [List.foldl_cons, ih, found_push, List.append_assoc]
      cases h : piece.token? <;> simp [h]

theorem messages_foldl (cut : List Piece) (progress : Progress) :
    (cut.foldl push progress).messages = progress.messages ++ cut.filterMap message? := by
  induction cut generalizing progress with
  | nil => simp
  | cons piece cut ih =>
      rw [List.foldl_cons, ih, messages_push, List.append_assoc]
      cases h : piece.message? <;> simp [h]

end Scan.Progress

/-- Every source, without its byte order mark, has one cut into longest pieces.  Its tokens
are those of the cut in order, with a mark for the end after them, and there is one error
for each piece that cannot be read. -/
theorem scan_finds_cut (source : String) :
    ∃ cut : List Piece,
      (∀ other, Tokenizes (Scan.dropByteOrderMark source.toList) other ↔ other = cut) ∧
      cut.flatMap Piece.text = Scan.dropByteOrderMark source.toList ∧
      (scan source).tokens.map (fun token => (token.kind, token.lexeme)) =
        cut.filterMap Piece.token? ++ [(.endOfSource, "")] ∧
      (scan source).errors.map (·.cause.message) = cut.filterMap Piece.message? := by
  refine ⟨pieces (Scan.dropByteOrderMark source.toList), fun other => tokenizes_iff,
    text_pieces _, ?_, ?_⟩
  · have hfound := Scan.Progress.found_foldl (pieces (Scan.dropByteOrderMark source.toList)) .start
    rw [← Scan.Progress.run_eq_foldl] at hfound
    simp only [scan, Array.toList_push, List.map_append]
    exact congrArg (· ++ [(.endOfSource, "")]) hfound
  · have hmessages :=
      Scan.Progress.messages_foldl (pieces (Scan.dropByteOrderMark source.toList)) .start
    rw [← Scan.Progress.run_eq_foldl] at hmessages
    exact hmessages

end Lox
