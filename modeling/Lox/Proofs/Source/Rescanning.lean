import Lox.Proofs.Source.Joining

/-!
# Lexemes with gaps between them

A scan of the lexemes that a scan has found, with a gap after each, finds the same tokens again
(`rescan_lexemes`): no lexeme goes on into a gap, and the gap itself is cut into pieces that are
neither tokens nor errors.  So what a source says does not hang on how its tokens are laid out,
and what is in error in it can be left out.
-/

namespace Lox

open Piece

variable {c : Char} {gap text t : List Char} {tokens : List Token}

/-- Blanks and comments, where each comment is ended by a newline. -/
inductive Layout : List Char → Prop
  | nil : Layout []
  | blank {c : Char} {rest : List Char} : isBlank c = true → Layout rest → Layout (c :: rest)
  | comment {body rest : List Char} : '\n' ∉ body → Layout rest →
      Layout ('/' :: '/' :: body ++ '\n' :: rest)

/-- What separates two tokens: layout that begins with a blank. -/
inductive Gap : List Char → Prop
  | intro {c : Char} {rest : List Char} : isBlank c = true → Layout rest → Gap (c :: rest)

/-- The text is made of the lexemes of the tokens in order, with a gap after each. -/
inductive Spaced : List Token → List Char → Prop
  | nil : Spaced [] []
  | cons {token : Token} {tokens : List Token} {gap text : List Char} :
      Gap gap → Spaced tokens text →
        Spaced (token :: tokens) (token.lexeme.toList ++ (gap ++ text))

/-! ## Gaps -/

/-- Layout is cut into pieces of which a scan keeps nothing. -/
theorem Layout.exists_pieces (h : Layout gap) (t : List Char) :
    ∃ cut, pieces (gap ++ t) = cut ++ pieces t ∧
      cut.filterMap token? = [] ∧ cut.filterMap message? = [] := by
  induction h with
  | nil => exact ⟨[], rfl, rfl, rfl⟩
  | @blank c rest hblank _ ih =>
      obtain ⟨cut, hcut, htokens, hmessages⟩ := ih
      refine ⟨.blank c :: cut, ?_, htokens, hmessages⟩
      rw [List.cons_append, pieces_cons, first_of_isBlank hblank, hcut, List.cons_append]
  | @comment body rest hbody _ ih =>
      obtain ⟨cut, hcut, htokens, hmessages⟩ := ih
      have hline : '\n' ∉ '/' :: body := by simpa using hbody
      have hself : ('/' :: body).takeWhile (· != '\n') = '/' :: body :=
        List.takeWhile_eq_self_iff.2 (bne_of_notMem hline)
      have hnone : ('/' :: body).dropWhile (· != '\n') = [] :=
        List.dropWhile_eq_nil_iff.2 (bne_of_notMem hline)
      have hcomment : lineComment '/' ('/' :: body ++ '\n' :: (rest ++ t)) =
          (.comment ('/' :: '/' :: body), '\n' :: (rest ++ t)) := by
        rw [lineComment, takeWhile_append_newline (by decide),
          dropWhile_append_newline (by decide), hself, hnone, List.nil_append]
      refine ⟨.comment ('/' :: '/' :: body) :: .blank '\n' :: cut, ?_, htokens, hmessages⟩
      calc
        pieces ('/' :: '/' :: body ++ '\n' :: rest ++ t)
            = pieces ('/' :: ('/' :: body ++ '\n' :: (rest ++ t))) := by simp
        _ = .comment ('/' :: '/' :: body) :: pieces ('\n' :: (rest ++ t)) := by
            rw [pieces_cons, List.cons_append, first_of_slash_slash, ← List.cons_append, hcomment]
        _ = .comment ('/' :: '/' :: body) :: .blank '\n' :: pieces (rest ++ t) := by
            rw [pieces_cons, first_of_isBlank (by decide)]
        _ = _ := by rw [hcut, List.cons_append, List.cons_append]

theorem Gap.layout (h : Gap gap) : Layout gap := by
  cases h with
  | intro hblank hrest => exact .blank hblank hrest

/-- No lexeme goes on into a blank. -/
theorem apart_of_isBlank (h : isBlank c = true) : Apart (c :: t) := by
  refine apart_cons ⟨not_isWordRest_of_isBlank h, ?_⟩
  rcases isBlank_iff.1 h with rfl | rfl | rfl | rfl <;> decide

theorem Gap.apart_append (h : Gap gap) (t : List Char) : Apart (gap ++ t) := by
  cases h with
  | intro hblank _ => exact apart_of_isBlank hblank

/-! ## Lexemes and gaps -/

/-- A lexeme with a gap after it is cut into its token and what a scan drops. -/
theorem Lexeme.exists_pieces_gap {kind : Token.Kind} {w : List Char} (h : Lexeme kind w)
    (hgap : Gap gap) (t : List Char) :
    ∃ cut, pieces (w ++ (gap ++ t)) = .token kind w :: (cut ++ pieces t) ∧
      cut.filterMap token? = [] ∧ cut.filterMap message? = [] := by
  obtain ⟨cut, hcut, htokens, hmessages⟩ := hgap.layout.exists_pieces t
  exact ⟨cut, by rw [pieces_lexeme_append h (hgap.apart_append t), hcut], htokens, hmessages⟩

/-- Nothing but the tokens is found in their lexemes and the gaps between these. -/
theorem Spaced.found (h : Spaced tokens text)
    (hlexemes : ∀ token ∈ tokens, Lexeme token.kind token.lexeme.toList) :
    (pieces text).filterMap token? = tokens.map (fun token => (token.kind, token.lexeme)) ∧
      (pieces text).filterMap message? = [] := by
  induction h with
  | nil => simp
  | @cons token tokens gap text hgap _ ih =>
      obtain ⟨hlexeme, hrest⟩ := List.forall_mem_cons.1 hlexemes
      obtain ⟨cut, hcut, htokens, hmessages⟩ := hlexeme.exists_pieces_gap hgap text
      obtain ⟨hfound, hclean⟩ := ih hrest
      rw [hcut]
      simp only [List.filterMap_cons, List.filterMap_append, token?, message?, htokens, hmessages,
        hfound, hclean, String.ofList_toList, List.map_cons, List.nil_append, and_self]

namespace Scan

theorem dropByteOrderMark_of_spaced (h : Spaced tokens text)
    (hlexemes : ∀ token ∈ tokens, Lexeme token.kind token.lexeme.toList) :
    dropByteOrderMark text = text := by
  cases h with
  | nil => rfl
  | cons hgap _ =>
      obtain ⟨cut, hcut, -, -⟩ :=
        (hlexemes _ List.mem_cons_self).exists_pieces_gap hgap _
      exact dropByteOrderMark_of_pieces hcut

/-- The lexemes that are found in a source, mistakes in it or not, with a gap put after each, are
scanned without an error, and to tokens of the same kinds and with the same lexemes. -/
theorem rescan_lexemes {source respaced : String}
    (h : Spaced (scan source).tokens.dropLast respaced.toList) :
    (scan respaced).errors = [] ∧
      (scan respaced).tokens.map (fun token => (token.kind, token.lexeme)) =
        (scan source).tokens.map (fun token => (token.kind, token.lexeme)) := by
  rw [scan_eq source, List.dropLast_concat] at h
  have hlexemes := lexeme_of_mem_progress source
  obtain ⟨hfound, hclean⟩ := h.found hlexemes
  have hpieces : pieces (dropByteOrderMark respaced.toList) = pieces respaced.toList := by
    rw [dropByteOrderMark_of_spaced h hlexemes]
  refine ⟨errors_eq_nil_of_pieces hpieces hclean, ?_⟩
  have hrespaced : (progress respaced).found =
      (progress source).tokens.toList.map fun token => (token.kind, token.lexeme) := by
    rw [progress, hpieces, Progress.found_foldl, hfound]
    rfl
  rw [scan_eq respaced, scan_eq source, List.map_append, List.map_append]
  exact congrArg (· ++ [(.endOfSource, "")]) hrespaced

theorem scan_strayBetweenSlashes : scan "/@/" =
    ⟨[⟨.symbol .slash, "/", 1⟩, ⟨.symbol .slash, "/", 1⟩, ⟨.endOfSource, "", 1⟩],
      [⟨1, .unexpectedCharacter⟩]⟩ := by
  have hfirst : pieces ['/', '@', '/'] = .token (.symbol .slash) ['/'] :: pieces ['@', '/'] :=
    pieces_cons '/' _
  have hstray : pieces ['@', '/'] = .unexpected '@' :: pieces ['/'] := pieces_cons '@' _
  have hsecond : pieces ['/'] = [.token (.symbol .slash) ['/']] :=
    (pieces_cons '/' _).trans (congrArg _ pieces_nil)
  rw [hstray, hsecond] at hfirst
  exact scan_of_pieces "/@/" hfirst

/-- Two slashes stay two slashes, also before a comment. -/
theorem rescan_lexemes_slashes :
    Spaced (scan "/@/").tokens.dropLast "/ /\t//\n".toList ∧
      (scan "/ /\t//\n").errors = [] ∧
      (scan "/ /\t//\n").tokens.map (fun token => (token.kind, token.lexeme)) =
        [(.symbol .slash, "/"), (.symbol .slash, "/"), (.endOfSource, "")] := by
  have hspaced : Spaced (scan "/@/").tokens.dropLast "/ /\t//\n".toList := by
    rw [scan_strayBetweenSlashes]
    have hspace : Gap [' '] := .intro (by decide) .nil
    have hcomment : Layout ['/', '/', '\n'] := .comment (List.not_mem_nil) .nil
    have hlast : Gap ['\t', '/', '/', '\n'] := .intro (by decide) hcomment
    exact .cons hspace (.cons hlast .nil)
  obtain ⟨herrors, htokens⟩ := rescan_lexemes hspaced
  rw [scan_strayBetweenSlashes] at htokens
  exact ⟨hspaced, herrors, htokens⟩

end Scan

end Lox
