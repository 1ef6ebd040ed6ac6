import Lox.Proofs.Number.Text
import Lox.Proofs.Session.Layout

/-!
# Values read back

A value that can be written as a literal is read back from it.  `Value.Literal value text`
says that `text` is written for `value`: what `print` shows of it, or, for a string, the
string between quotes that are not in it.  Such a text is cut into the token of a literal,
or into a minus sign and the token of a number (`LiteralCut`), and these are an expression
whose value is the one that was written.
-/

namespace Lox

open Piece

variable {value : Value} {text : String} {cut : List Piece} {w t : List Char}

/-! ## Literals and their tokens -/

/-- The text is written for the value. -/
inductive Value.Literal : Value → String → Prop
  | nil : Literal .nil (Value.text .nil)
  | bool (b : Bool) : Literal (.bool b) (Value.text (.bool b))
  | number {x : Float} : x.isFinite = true → Literal (.number x) (Value.text (.number x))
  | string {quote : Char} {s : String} : isQuote quote = true → quote ∉ s.toList →
      Literal (.string s) (String.ofList (quote :: s.toList ++ [quote]))

/-- The tokens of a text that is written for the value. -/
inductive LiteralCut : Value → List Piece → Prop
  | literal {kind : Token.Kind} {w : List Char} {value : Value} :
      Lexeme kind w → Grammar.literal? kind = some value → LiteralCut value [.token kind w]
  | negated {x : Float} {w : List Char} : Lexeme (.number x) w →
      LiteralCut (.number (-x)) [.token (.symbol .minus) ['-'], .token (.number x) w]

theorem Value.Literal.exists_cut (h : value.Literal text) :
    ∃ cut, LiteralCut value cut ∧ cut.flatMap Piece.text = text.toList := by
  cases h with
  | nil => exact ⟨_, .literal (.keyword .nil) rfl, List.append_nil _⟩
  | bool b =>
      cases b with
      | true => exact ⟨_, .literal (.keyword .«true») rfl, List.append_nil _⟩
      | false => exact ⟨_, .literal (.keyword .«false») rfl, List.append_nil _⟩
  | number hfinite =>
      rcases Number.text_cases hfinite with hlexeme | ⟨y, w, hlexeme, rfl, htext⟩
      · exact ⟨_, .literal hlexeme rfl, List.append_nil _⟩
      · refine ⟨_, .negated hlexeme, ?_⟩
        show '-' :: (w ++ []) = _
        rw [List.append_nil]
        exact htext.symm
  | @string quote s hquote hmem =>
      have hvalue : Grammar.literal? (.string (String.ofList s.toList)) = some (.string s) := by
        rw [Grammar.literal?, String.ofList_toList]
      refine ⟨_, .literal (.string hquote hmem) hvalue, ?_⟩
      rw [String.toList_ofList]
      exact List.append_nil _

/-- The tokens of a literal are cut off from what no lexeme goes on into. -/
theorem LiteralCut.pieces_append (h : LiteralCut value cut) (ht : Apart t) :
    pieces (cut.flatMap Piece.text ++ t) = cut ++ pieces t := by
  cases h with
  | @literal kind w _ hlexeme _ =>
      show pieces (w ++ [] ++ t) = _
      rw [List.append_nil]
      exact pieces_lexeme_append hlexeme ht
  | @negated x w hlexeme =>
      show pieces ('-' :: (w ++ [] ++ t)) = _
      have hminus : first '-' (w ++ [] ++ t) = Piece.symbol .minus '-' (w ++ [] ++ t) :=
        first_of_symbol rfl (by simp)
      rw [pieces_cons, hminus, List.append_nil]
      exact congrArg _ (pieces_lexeme_append hlexeme ht)

theorem LiteralCut.exists_eq_cons (h : LiteralCut value cut) :
    ∃ kind w rest, cut = .token kind w :: rest := by
  cases h <;> exact ⟨_, _, _, rfl⟩

theorem LiteralCut.messages (h : LiteralCut value cut) : cut.filterMap message? = [] := by
  cases h <;> rfl

/-! ## The expression of a literal -/

namespace Phrase

variable {levels : Nat} {ts misplaced : List Token} {expr : Expr}

theorem Operators.of_unary (h : Unary levels ts expr misplaced) (tiers : List Grammar.Level) :
    Operators tiers levels ts expr misplaced := by
  induction tiers with
  | nil => exact .unary h
  | cons level tiers ih => exact .tighter ih

theorem Expression.of_unary (h : Unary levels ts expr misplaced) :
    Expression (levels + 1) ts expr misplaced :=
  .nested (.operators (.of_unary h _))

end Phrase

/-- The kind of a token and its lexeme. -/
def Token.face (token : Token) : Token.Kind × String := (token.kind, token.lexeme)

/-- The tokens of a literal are an expression that is worth the value and changes nothing. -/
theorem LiteralCut.exists_expression (h : LiteralCut value cut) (levels : Nat) {ts : List Token}
    (hts : ts.map Token.face = cut.filterMap token?) :
    ∃ expr, Phrase.Expression (levels + 2) ts expr [] ∧
      ∀ env, Eval.outcome expr.eval env = (.ok value, env) := by
  cases h with
  | literal _ hvalue =>
      obtain ⟨token, rfl, htoken⟩ := List.map_eq_singleton_iff.1 hts
      obtain ⟨rfl, -⟩ := Prod.mk.inj htoken
      exact ⟨.literal value, .of_unary (.primary (.literal hvalue)), fun env => rfl⟩
  | @negated x w _ =>
      obtain ⟨operator, rest, rfl, hoperator, hrest⟩ := List.map_eq_cons_iff.1 hts
      obtain ⟨token, rfl, htoken⟩ := List.map_eq_singleton_iff.1 hrest
      have hminus : operator.kind = .symbol .minus := (Prod.mk.inj hoperator).1
      have hnumber : token.kind = .number x := (Prod.mk.inj htoken).1
      have hliteral : Grammar.literal? token.kind = some (.number x) := by rw [hnumber]; rfl
      have hunary : Grammar.isUnary operator.kind = true := by rw [hminus]; rfl
      refine ⟨.unary operator (.literal (.number x)),
        .of_unary (.operator hunary (.primary (.literal hliteral))), fun env => ?_⟩
      show Eval.outcome (ofExcept (Operator.unary operator (.number x))) env = _
      rw [Operator.unary, Eval.outcome_ofExcept]
      exact hminus

/-! ## The sources -/

namespace Scan

variable {source : String}

/-- The tokens of a source are those of its pieces. -/
theorem face_programTokens (h : pieces (dropByteOrderMark source.toList) = cut) :
    (programTokens (scan source).tokens).map Token.face = cut.filterMap token? := by
  rw [Session.programTokens_scan, progress, h]
  exact Progress.found_foldl cut .start

end Scan

theorem LiteralCut.pieces_semicolon (h : LiteralCut value cut) :
    pieces (cut.flatMap Piece.text ++ [';']) = cut ++ [Piece.token (.symbol .semicolon) [';']] := by
  rw [h.pieces_append (apart_cons (by decide)), Session.pieces_semicolon]

/-- What comes of a source of some pieces, the tokens of a literal, and a semicolon. -/
theorem LiteralCut.exists_tokens (h : LiteralCut value cut) {source : String} {before : List Piece}
    (hpieces : pieces (Scan.dropByteOrderMark source.toList) =
      before ++ (cut ++ [Piece.token (.symbol .semicolon) [';']]))
    (hbefore : before.filterMap message? = []) :
    (scan source).errors = [] ∧
      ∃ (front ts : List Token) (semicolon : Token) (expr : Expr),
        programTokens (scan source).tokens = front ++ (ts ++ [semicolon]) ∧
        front.map Token.face = before.filterMap token? ∧
        semicolon.kind = .symbol .semicolon ∧ Phrase.Expression 254 ts expr [] ∧
        ∀ env, Eval.outcome expr.eval env = (.ok value, env) := by
  constructor
  · apply Scan.errors_eq_nil_of_pieces hpieces
    rw [List.filterMap_append, List.filterMap_append, hbefore, h.messages]
    rfl
  · have hfaces := Scan.face_programTokens hpieces
    rw [List.filterMap_append, List.filterMap_append] at hfaces
    obtain ⟨front, others, heq, hfront, hothers⟩ := List.map_eq_append_iff.1 hfaces
    obtain ⟨ts, last, rfl, hts, hlast⟩ := List.map_eq_append_iff.1 hothers
    obtain ⟨semicolon, rfl, hsemicolon⟩ := List.map_eq_singleton_iff.1 hlast
    obtain ⟨expr, hexpression, heval⟩ := h.exists_expression 252 hts
    exact ⟨front, ts, semicolon, expr, heq, hfront, (Prod.mk.inj hsemicolon).1, hexpression, heval⟩

namespace Session

/-- A statement is a program. -/
theorem derives_statement {ts : List Token} {openEnd : Bool} {stmt : Stmt}
    (h : Phrase.Statement openEnd maxNesting ts stmt []) :
    Phrase.Declarations maxNesting ts [stmt] [] := by
  have hdeclarations := Phrase.Declarations.cons (.statement h) .nil
  rwa [List.append_nil] at hdeclarations

/-- A literal with a semicolon is a program, of one statement. -/
theorem exists_accepted_expression (h : value.Literal text) :
    ∃ expr, Accepted (text ++ ";") [.expression expr] ∧
      ∀ env, Eval.outcome expr.eval env = (.ok value, env) := by
  obtain ⟨cut, hcut, htext⟩ := h.exists_cut
  have hpieces : pieces (text ++ ";").toList =
      [] ++ (cut ++ [Piece.token (.symbol .semicolon) [';']]) := by
    rw [String.toList_append, ← htext]
    exact hcut.pieces_semicolon
  have hmark : Scan.dropByteOrderMark (text ++ ";").toList = (text ++ ";").toList := by
    obtain ⟨kind, w, rest, rfl⟩ := hcut.exists_eq_cons
    exact Scan.dropByteOrderMark_of_pieces hpieces
  rw [← hmark] at hpieces
  obtain ⟨herrors, front, ts, semicolon, expr, heq, hfront, hsemicolon, hexpression, heval⟩ :=
    hcut.exists_tokens hpieces rfl
  obtain rfl := List.map_eq_nil_iff.1 hfront
  refine ⟨expr, ⟨herrors, parse_eq_ok_of_derives ?_⟩, heval⟩
  rw [heq]
  exact derives_statement (.expression hexpression hsemicolon)

/-- And so it is behind a `print`. -/
theorem exists_accepted_print (h : value.Literal text) :
    ∃ expr, Accepted ("print " ++ text ++ ";") [.print expr] ∧
      ∀ env, Eval.outcome expr.eval env = (.ok value, env) := by
  obtain ⟨cut, hcut, htext⟩ := h.exists_cut
  have hpieces : pieces ("print " ++ text ++ ";").toList =
      [Piece.token (.keyword .print) ['p', 'r', 'i', 'n', 't'], Piece.blank ' '] ++
        (cut ++ [Piece.token (.symbol .semicolon) [';']]) := by
    have hblank : pieces (' ' :: (cut.flatMap Piece.text ++ [';'])) =
        .blank ' ' :: pieces (cut.flatMap Piece.text ++ [';']) := by
      rw [pieces_cons, first_of_isBlank (by decide)]
    have hlexeme : Lexeme (.keyword .print) ['p', 'r', 'i', 'n', 't'] := .keyword .print
    have hspace : Apart (' ' :: (cut.flatMap Piece.text ++ [';'])) := apart_cons (by decide)
    have hprint := pieces_lexeme_append hlexeme hspace
    rw [hblank, hcut.pieces_semicolon, htext] at hprint
    rw [String.toList_append, String.toList_append, List.append_assoc]
    exact hprint
  have hmark := Scan.dropByteOrderMark_of_pieces hpieces
  rw [← hmark] at hpieces
  obtain ⟨herrors, front, ts, semicolon, expr, heq, hfront, hsemicolon, hexpression, heval⟩ :=
    hcut.exists_tokens hpieces rfl
  obtain ⟨keyword, rfl, hkeyword⟩ := List.map_eq_singleton_iff.1 hfront
  refine ⟨expr, ⟨herrors, parse_eq_ok_of_derives ?_⟩, heval⟩
  rw [heq]
  exact derives_statement (.print (Prod.mk.inj hkeyword).1 hexpression hsemicolon)

/-- A program that prints what an expression is worth, which changes nothing. -/
theorem execution_print {σ : Type} {streams : Streams (StateM σ)} (record : Recording streams)
    (fuel : Nat) (session : Session) {s : σ} (hopen : record.IsOpen s) {expr : Expr}
    (heval : ∀ env, Eval.outcome expr.eval env = (.ok value, env)) :
    ∃ t, execution streams fuel [.print expr] session s = ⟨.ok (), session.environment, t⟩ ∧
      record.Writes s (value.text ++ "\n").toUTF8 .empty t := by
  obtain ⟨t, hwrite, hprinted⟩ := record.write_output (value.text ++ "\n") hopen
  obtain ⟨u, hflush, hflushed⟩ := record.flush_output hprinted.isOpen
  have hline : streams.output.writeLine value.text s = (.ok (), t) := hwrite
  have hwrites := hprinted.trans_output hflushed
  rw [ByteArray.append_empty] at hwrites
  refine ⟨u, ?_, hwrites⟩
  show Exec.outcome (Stmt.interpret streams.output fuel [.print expr]) session.environment s = _
  simp only [Stmt.interpret, Stmt.executeAll, Stmt.execute, Exec.outcome_bind,
    Exec.outcome_ofEval, heval, Exec.outcome_ofSink, hline, hflush, Exec.outcome_pure]

/-- Whatever can be written as a literal is read back from it: the literal alone is a program of
one expression, which is worth just the value that was written and changes nothing, and what is
printed of it is the text of the value. -/
theorem literals_read_back {σ : Type} {streams : Streams (StateM σ)} (record : Recording streams)
    (fuel : Nat) (session : Session) {s : σ} (hopen : record.IsOpen s) (h : value.Literal text) :
    (∃ expr, Accepted (text ++ ";") [.expression expr] ∧
      ∀ env, Eval.outcome expr.eval env = (.ok value, env)) ∧
    (outcome (run streams fuel ("print " ++ text ++ ";")) session s).result = .ok .ok ∧
    (outcome (run streams fuel ("print " ++ text ++ ";")) session s).session =
      { session with hadError := false } ∧
    record.Writes s (value.text ++ "\n").toUTF8
      (utf8Reports (shownTrees session ("print " ++ text ++ ";")))
      (outcome (run streams fuel ("print " ++ text ++ ";")) session s).sinks := by
  refine ⟨exists_accepted_expression h, ?_⟩
  obtain ⟨expr, haccepted, heval⟩ := exists_accepted_print h
  obtain ⟨t, done, u, hshown, hdone, hstop, hrun⟩ :=
    run_of_accepted record fuel session haccepted hopen
  obtain ⟨v, hexecution, hprinted⟩ := execution_print record fuel session hshown.isOpen heval
  obtain rfl := hdone.symm.trans hexecution
  have htrees : treeReports session [.print expr] =
      shownTrees session ("print " ++ text ++ ";") := by
    rw [shownTrees, haccepted.parse_eq_ok]
  have hwrites := (hshown.trans hprinted).trans hstop
  have hnone : utf8Reports (stopReports (.ok ())) = .empty := rfl
  rw [hnone, htrees] at hwrites
  simp only [ByteArray.empty_append, ByteArray.append_empty] at hwrites
  rw [hrun]
  exact ⟨rfl, rfl, hwrites⟩

/-- The zero whose sign is set. -/
def negativeZero : Float := Float.ofBits 0x8000000000000000

/-- Zero keeps its sign. -/
theorem literals_read_back_negative_zero :
    Terminal.recording.IsOpen {} ∧ (Value.number negativeZero).Literal "-0" ∧
      (∃ expr, Accepted "-0;" [.expression expr] ∧
        ∀ env, Eval.outcome expr.eval env = (.ok (.number negativeZero), env)) ∧
      (outcome (run Terminal.streams 0 "print -0;") {} {}).result = .ok .ok ∧
      (outcome (run Terminal.streams 0 "print -0;") {} {}).session = {} ∧
      Terminal.recording.Writes {} "-0\n".toUTF8 (utf8Reports (shownTrees {} "print -0;"))
        (outcome (run Terminal.streams 0 "print -0;") {} {}).sinks := by
  have hopen : Terminal.recording.IsOpen {} := ⟨rfl, rfl, rfl⟩
  have htext : Value.text (.number negativeZero) = "-0" := by decide
  have hliteral : (Value.number negativeZero).Literal "-0" := by
    rw [← htext]
    exact .number (by decide)
  have hread := literals_read_back Terminal.recording 0 {} hopen hliteral
  rw [htext] at hread
  exact ⟨hopen, hliteral, hread⟩

end Session

end Lox
