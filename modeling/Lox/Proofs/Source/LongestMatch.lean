import Mathlib.Data.List.TakeWhile
import Lox.Proofs.Source.Lexeme

/-!
# The first piece is the longest

Whatever can be read at the beginning of a text, the first piece can be read too and is at
least as long (`Readable.first`): the proof looks at each kind of readable piece, and at
what is read where it stands.  What a lexeme alone is read as is its token
(`Lexeme.first_append`), so a text is the lexeme of one kind only.  From these two it
follows that a source is cut in one way, which is the one that `pieces` finds.
-/

namespace Lox

open Piece

variable {c quote : Char} {w t rest body text : List Char} {kind : Token.Kind}

/-! ## Spans -/

private theorem span_append {p : Char → Bool} (hw : ∀ d ∈ w, p d = true)
    (ht : ∀ d, t.head? = some d → p d = false) :
    (w ++ t).takeWhile p = w ∧ (w ++ t).dropWhile p = t := by
  rw [List.takeWhile_append_of_pos hw, List.dropWhile_append_of_pos hw]
  cases t with
  | nil => simp
  | cons d tail => simp [ht d rfl]

private theorem length_le_takeWhile {p : Char → Bool} (hw : ∀ d ∈ w, p d = true)
    (h : w <+: rest) : w.length ≤ (rest.takeWhile p).length := by
  obtain ⟨t, rfl⟩ := h
  rw [List.takeWhile_append_of_pos hw, List.length_append]
  exact Nat.le_add_right _ _

/-- Up to a character that does not occur, a span takes everything. -/
theorem bne_of_notMem (h : c ∉ w) : ∀ d ∈ w, (d != c) = true := by
  intro d hd
  rw [bne_iff_ne]
  rintro rfl
  exact h hd

/-- No lexeme goes on into this text: it is empty, or begins with what is in no word and no
number and makes no symbol or comment with what is before it. -/
def Apart (t : List Char) : Prop :=
  ∀ d, t.head? = some d → isWordRest d = false ∧ d ≠ '.' ∧ d ≠ '=' ∧ d ≠ '/'

theorem apart_nil : Apart [] := by
  intro d hd
  cases hd

theorem apart_cons (h : isWordRest c = false ∧ c ≠ '.' ∧ c ≠ '=' ∧ c ≠ '/') : Apart (c :: t) := by
  rintro d ⟨⟩
  exact h

theorem Apart.not_isWordRest (h : Apart t) : ∀ d, t.head? = some d → isWordRest d = false :=
  fun d hd => (h d hd).1

theorem Apart.not_isDigit (h : Apart t) : ∀ d, t.head? = some d → d.isDigit = false := by
  intro d hd
  have hword := h.not_isWordRest d hd
  simp only [isWordRest, Bool.or_eq_false_iff] at hword
  exact hword.2

theorem Apart.ne_point (h : Apart t) : t.head? ≠ some '.' := fun hd => (h '.' hd).2.1 rfl

theorem Apart.ne_equal (h : Apart t) : t.head? ≠ some '=' := fun hd => (h '=' hd).2.2.1 rfl

theorem Apart.ne_slash (h : Apart t) : t.head? ≠ some '/' := fun hd => (h '/' hd).2.2.2 rfl

/-! ## Symbols -/

theorem Symbol.lexeme_ne_nil (s : Symbol) : s.lexeme ≠ [] := by cases s <;> simp [Symbol.lexeme]

theorem Symbol.lexeme_of_ofChar? {s : Symbol} (h : Symbol.ofChar? c = some s) :
    s.lexeme = [c] := by
  unfold Symbol.ofChar? at h
  split at h <;> cases h <;> rfl

theorem Symbol.lexeme_of_withEqual? {s longer : Symbol} (h : Symbol.ofChar? c = some s)
    (hlonger : s.withEqual? = some longer) : longer.lexeme = [c, '='] := by
  unfold Symbol.ofChar? at h
  split at h <;> cases h <;> cases hlonger <;> rfl

/-- A symbol is a character, or one of four characters with an equals sign after it. -/
theorem Symbol.of_lexeme_eq_cons {s : Symbol} (h : s.lexeme = c :: w) :
    (w = [] ∧ Symbol.ofChar? c = some s) ∨
      (w = ['='] ∧ ∃ shorter, Symbol.ofChar? c = some shorter ∧ shorter.withEqual? = some s) := by
  cases s <;> cases h <;> first
    | exact .inl ⟨rfl, rfl⟩
    | exact .inr ⟨rfl, _, rfl, rfl⟩

theorem symbol_of_withEqual? {s longer : Symbol} (h : s.withEqual? = some longer) :
    Piece.symbol s c ('=' :: t) = (.token (.symbol longer) [c, '='], t) := by
  simp [Piece.symbol, h]

theorem symbol_of_ne {s : Symbol} (h : t.head? ≠ some '=') :
    Piece.symbol s c t = (.token (.symbol s) [c], t) := by
  unfold Piece.symbol
  split
  · simp at h
  · rfl

theorem readable_symbol {s : Symbol} (h : Symbol.ofChar? c = some s) (rest : List Char) :
    (Piece.symbol s c rest).1.Readable := by
  unfold Piece.symbol
  split
  · rename_i longer tail hlonger
    rw [← Symbol.lexeme_of_withEqual? h hlonger]
    exact .token (.symbol longer)
  · rw [← Symbol.lexeme_of_ofChar? h]
    exact .token (.symbol s)

/-! ## Words -/

theorem Keyword.ofLexeme?_lexeme (keyword : Keyword) :
    Keyword.ofLexeme? keyword.lexeme = some keyword := by cases keyword <;> decide

theorem isWord_of_keyword {keyword : Keyword} (h : keyword.lexeme.toList = c :: w) :
    isWordStart c = true ∧ ∀ d ∈ w, isWordRest d = true := by
  rw [← List.all_eq_true]
  cases keyword <;> cases h <;> exact ⟨rfl, rfl⟩

theorem lexeme_word (hc : isWordStart c = true) (hw : ∀ d ∈ w, isWordRest d = true) :
    Lexeme (wordKind (String.ofList (c :: w))) (c :: w) := by
  unfold wordKind
  cases hkeyword : Keyword.ofLexeme? (String.ofList (c :: w)) with
  | some keyword =>
      have heq : keyword.lexeme = String.ofList (c :: w) := by
        simpa using List.find?_some hkeyword
      have hlexeme := Lexeme.keyword keyword
      rw [heq, String.toList_ofList] at hlexeme
      exact hlexeme
  | none => exact .identifier hc hw (Keyword.ofLexeme?_eq_none_iff.1 hkeyword)

theorem readable_word (h : isWordStart c = true) (rest : List Char) :
    (word c rest).1.Readable :=
  .token (lexeme_word h fun _ => List.mem_takeWhile_imp)

/-- A word is read up to what cannot be in it. -/
theorem first_word_append (hc : isWordStart c = true) (hw : ∀ d ∈ w, isWordRest d = true)
    (ht : Apart t) :
    first c (w ++ t) = (.token (wordKind (String.ofList (c :: w))) (c :: w), t) := by
  obtain ⟨htake, hdrop⟩ := span_append hw ht.not_isWordRest
  rw [first_of_isWordStart hc, word, htake, hdrop]

/-! ## Strings -/

theorem string_append (h : quote ∉ body) (t : List Char) :
    string quote (body ++ quote :: t) =
      (.token (.string (String.ofList body)) (quote :: body ++ [quote]), t) := by
  obtain ⟨htake, hdrop⟩ := span_append (t := quote :: t) (bne_of_notMem h) (by simp)
  simp [string, htake, hdrop]

theorem string_of_not_mem (h : quote ∉ rest) :
    string quote rest = (.unterminated (quote :: rest), []) := by
  have hdrop := (span_append (t := []) (bne_of_notMem h) (by simp)).2
  rw [List.append_nil] at hdrop
  rw [string, hdrop]

/-! ## Numbers -/

private theorem not_isDigit_point : Char.isDigit '.' = false := by decide

/-- Digits are a number up to what is no digit, unless that is a point with a digit after it. -/
theorem number_append_whole (hw : ∀ d ∈ w, d.isDigit = true)
    (ht : ∀ d, t.head? = some d → d.isDigit = false) (hpoint : t.head? ≠ some '.') :
    number c (w ++ t) = (.token (.number (Number.ofDigits (c :: w) [])) (c :: w), t) := by
  obtain ⟨htake, hdrop⟩ := span_append hw ht
  unfold number
  rw [htake, hdrop]
  dsimp only
  split
  · simp at hpoint
  · rfl

theorem number_append_fraction {d : Char} (hw : ∀ d ∈ w, d.isDigit = true)
    (hd : d.isDigit = true) (rest : List Char) :
    number c (w ++ '.' :: d :: rest) =
      (.token (.number (Number.ofDigits (c :: w) (d :: rest.takeWhile Char.isDigit)))
        (c :: w ++ '.' :: d :: rest.takeWhile Char.isDigit), rest.dropWhile Char.isDigit) := by
  obtain ⟨htake, hdrop⟩ := span_append (t := '.' :: d :: rest) hw (by simp [not_isDigit_point])
  simp [number, htake, hdrop, hd]

theorem length_fraction_le {d : Char} (hw : ∀ d ∈ w, d.isDigit = true) (hd : d.isDigit = true)
    (ht : ∀ d ∈ t, d.isDigit = true) (rest : List Char) :
    (c :: w ++ '.' :: d :: t).length ≤ (number c (w ++ '.' :: d :: (t ++ rest))).1.text.length := by
  rw [number_append_fraction hw hd, List.takeWhile_append_of_pos ht]
  simp only [Piece.text, List.length_append, List.length_cons]
  omega

theorem length_takeWhile_lt_number (c : Char) (rest : List Char) :
    (rest.takeWhile Char.isDigit).length < (number c rest).1.text.length := by
  unfold number
  dsimp only
  split
  · split
    · simp [Piece.text]
    · simp only [Piece.text, List.length_append, List.length_cons]
      omega
  · simp [Piece.text]

theorem readable_number (h : c.isDigit = true) (rest : List Char) :
    (number c rest).1.Readable := by
  have hwhole : ∀ d ∈ c :: rest.takeWhile Char.isDigit, d.isDigit = true := by
    intro d hd
    rcases List.mem_cons.1 hd with rfl | hd
    · exact h
    · exact List.mem_takeWhile_imp hd
  unfold number
  dsimp only
  split
  · split
    · exact .token (.whole (List.cons_ne_nil _ _) hwhole)
    · rename_i after _ hne
      exact .token (.fraction (List.cons_ne_nil _ _) hwhole hne fun _ => List.mem_takeWhile_imp)
  · exact .token (.whole (List.cons_ne_nil _ _) hwhole)

/-! ## Comments -/

theorem readable_lineComment (rest : List Char) : (lineComment '/' ('/' :: rest)).1.Readable := by
  have hspan : ('/' :: rest).takeWhile (· != '\n') = '/' :: rest.takeWhile (· != '\n') := rfl
  unfold lineComment
  rw [hspan]
  refine .comment fun hmem => ?_
  have hne := List.mem_takeWhile_imp hmem
  simp at hne

/-! ## The longest match -/

private theorem one_le_length_first (c : Char) (rest : List Char) :
    1 ≤ (first c rest).1.text.length :=
  List.length_pos_iff.2 (text_first_ne_nil c rest)

theorem readable_first_of_symbol {s : Symbol} (h : Symbol.ofChar? c = some s)
    (rest : List Char) : (first c rest).1.Readable := by
  by_cases hslash : c = '/' ∧ rest.head? = some '/'
  · obtain ⟨rfl, hhead⟩ := hslash
    obtain ⟨tail, rfl⟩ := List.head?_eq_some_iff.1 hhead
    rw [first_of_slash_slash]
    exact readable_lineComment tail
  · rw [first_of_symbol h hslash]
    exact readable_symbol h rest

/-- If a lexeme begins a text, then the first piece can be read and is as long as the lexeme. -/
theorem Lexeme.first (h : Lexeme kind w) (hbegins : w <+: c :: rest) :
    (first c rest).1.Readable ∧ w.length ≤ (first c rest).1.text.length := by
  cases h with
  | symbol s =>
      rcases List.prefix_cons_iff.1 hbegins with hnil | ⟨v, hv, htail⟩
      · exact absurd hnil s.lexeme_ne_nil
      rcases s.of_lexeme_eq_cons hv with ⟨rfl, hchar⟩ | ⟨rfl, shorter, hchar, hlonger⟩
      · rw [hv]
        exact ⟨readable_first_of_symbol hchar rest, one_le_length_first c rest⟩
      · -- the equals sign is there, so the longer symbol is what is read
        obtain ⟨tail, rfl⟩ := htail
        have hfirst : Piece.first c ('=' :: tail) = Piece.symbol shorter c ('=' :: tail) :=
          first_of_symbol hchar (by simp)
        rw [hv]
        show (Piece.first c ('=' :: tail)).1.Readable ∧
          2 ≤ (Piece.first c ('=' :: tail)).1.text.length
        rw [hfirst]
        refine ⟨readable_symbol hchar _, ?_⟩
        rw [symbol_of_withEqual? hlonger]
        exact Nat.le_refl 2
  | keyword keyword =>
      rcases List.prefix_cons_iff.1 hbegins with hnil | ⟨v, hv, htail⟩
      · cases keyword <;> cases hnil
      obtain ⟨hc, hw⟩ := isWord_of_keyword hv
      rw [hv, first_of_isWordStart hc]
      exact ⟨readable_word hc rest, Nat.succ_le_succ (length_le_takeWhile hw htail)⟩
  | identifier hc hw _ =>
      obtain ⟨rfl, htail⟩ := List.cons_prefix_cons.1 hbegins
      rw [first_of_isWordStart hc]
      exact ⟨readable_word hc rest, Nat.succ_le_succ (length_le_takeWhile hw htail)⟩
  | string hquote hbody =>
      rw [List.cons_append] at hbegins
      obtain ⟨rfl, tail, rfl⟩ := List.cons_prefix_cons.1 hbegins
      rw [List.append_assoc, first_of_isQuote hquote, List.singleton_append, string_append hbody]
      exact ⟨.token (.string hquote hbody), Nat.le_refl _⟩
  | whole hne hdigits =>
      rcases List.prefix_cons_iff.1 hbegins with rfl | ⟨v, rfl, htail⟩
      · exact absurd rfl hne
      obtain ⟨hc, hv⟩ := List.forall_mem_cons.1 hdigits
      rw [first_of_isDigit hc]
      refine ⟨readable_number hc rest, ?_⟩
      calc
        (c :: v).length ≤ (rest.takeWhile Char.isDigit).length + 1 :=
          Nat.succ_le_succ (length_le_takeWhile hv htail)
        _ ≤ (number c rest).1.text.length := length_takeWhile_lt_number c rest
  | @fraction whole fraction hne hwhole hneFraction hfraction =>
      obtain ⟨d, v, rfl⟩ := List.exists_cons_of_ne_nil hne
      obtain ⟨e, u, rfl⟩ := List.exists_cons_of_ne_nil hneFraction
      rw [List.cons_append] at hbegins
      obtain ⟨rfl, tail, rfl⟩ := List.cons_prefix_cons.1 hbegins
      obtain ⟨hc, hv⟩ := List.forall_mem_cons.1 hwhole
      obtain ⟨he, hu⟩ := List.forall_mem_cons.1 hfraction
      rw [first_of_isDigit hc, List.append_assoc]
      exact ⟨readable_number hc _, length_fraction_le hv he hu tail⟩

/-- No readable piece is empty, and none is longer than the first. -/
theorem Piece.Readable.first {piece : Piece} (h : piece.Readable)
    (hbegins : piece.text <+: c :: rest) :
    (Piece.first c rest).1.Readable ∧ piece.text.length ≤ (Piece.first c rest).1.text.length := by
  cases h with
  | token hlexeme => exact hlexeme.first hbegins
  | @comment body hbody =>
      obtain ⟨rfl, tail, rfl⟩ := List.cons_prefix_cons.1 hbegins
      have hline : '\n' ∉ '/' :: body := by simpa using hbody
      have hlength := length_le_takeWhile (bne_of_notMem hline) (List.prefix_append _ tail)
      exact ⟨readable_lineComment (body ++ tail), Nat.succ_le_succ hlength⟩
  | blank hblank =>
      obtain ⟨rfl, _⟩ := List.cons_prefix_cons.1 hbegins
      rw [first_of_isBlank hblank]
      exact ⟨.blank hblank, Nat.le_refl 1⟩

/-! ## Lexemes alone -/

/-- A lexeme is read as its token if it does not go on into what comes next. -/
theorem Lexeme.first_append (h : Lexeme kind text) (ht : Apart t) (htext : text = c :: w) :
    Piece.first c (w ++ t) = (.token kind text, t) := by
  have hdigit := ht.not_isDigit
  cases h with
  | symbol s =>
      rcases s.of_lexeme_eq_cons htext with ⟨rfl, hchar⟩ | ⟨rfl, shorter, hchar, hlonger⟩
      · have hslash : ¬ (c = '/' ∧ t.head? = some '/') := fun hboth => ht.ne_slash hboth.2
        rw [List.nil_append, first_of_symbol hchar hslash, symbol_of_ne ht.ne_equal, htext]
      · rw [first_of_symbol hchar (by simp), htext]
        exact symbol_of_withEqual? hlonger
  | keyword keyword =>
      obtain ⟨hc, hw⟩ := isWord_of_keyword htext
      have hkind : wordKind (String.ofList (c :: w)) = .keyword keyword := by
        rw [← htext, String.ofList_toList, wordKind, Keyword.ofLexeme?_lexeme]
      rw [first_word_append hc hw ht, hkind, htext]
  | @identifier d v hc hw hnot =>
      obtain ⟨rfl, rfl⟩ := List.cons.inj htext
      have hkind : wordKind (String.ofList (d :: v)) = .identifier (String.ofList (d :: v)) := by
        rw [wordKind, Keyword.ofLexeme?_eq_none_iff.2 hnot]
      rw [first_word_append hc hw ht, hkind]
  | string hquote hbody =>
      rw [List.cons_append] at htext
      obtain ⟨rfl, rfl⟩ := List.cons.inj htext
      rw [first_of_isQuote hquote, List.append_assoc, List.singleton_append, string_append hbody]
  | whole hne hdigits =>
      subst htext
      obtain ⟨hc, hw⟩ := List.forall_mem_cons.1 hdigits
      rw [first_of_isDigit hc, number_append_whole hw hdigit ht.ne_point]
  | @fraction whole fraction hne hwhole hneFraction hfraction =>
      obtain ⟨d, v, rfl⟩ := List.exists_cons_of_ne_nil hne
      obtain ⟨e, u, rfl⟩ := List.exists_cons_of_ne_nil hneFraction
      rw [List.cons_append] at htext
      obtain ⟨rfl, rfl⟩ := List.cons.inj htext
      obtain ⟨hc, hv⟩ := List.forall_mem_cons.1 hwhole
      obtain ⟨he, hu⟩ := List.forall_mem_cons.1 hfraction
      obtain ⟨htake, hdrop⟩ := span_append hu hdigit
      have hnumber := number_append_fraction (c := d) hv he (u ++ t)
      rw [first_of_isDigit hc, List.append_assoc, List.cons_append, List.cons_append, hnumber,
        htake, hdrop]

theorem Lexeme.ne_nil (h : Lexeme kind w) : w ≠ [] := by
  cases h with
  | symbol s => exact s.lexeme_ne_nil
  | keyword keyword => cases keyword <;> decide
  | identifier _ _ _ => exact List.cons_ne_nil _ _
  | string _ _ => exact List.cons_ne_nil _ _
  | whole hne _ => exact hne
  | fraction hne _ _ _ => exact List.append_ne_nil_of_left_ne_nil hne _

/-- No lexeme marks the end. -/
theorem Lexeme.isEnd_eq_false (h : Lexeme kind w) : kind.isEnd = false := by
  cases h <;> rfl

/-- The spelling of a token tells its kind. -/
theorem Lexeme.kind_unique {other : Token.Kind} (h : Lexeme kind w) (hother : Lexeme other w) :
    kind = other := by
  obtain ⟨c, v, rfl⟩ := List.exists_cons_of_ne_nil h.ne_nil
  have heq := (h.first_append apart_nil rfl).symm.trans (hother.first_append apart_nil rfl)
  injection heq with hpiece
  injection hpiece

end Lox
