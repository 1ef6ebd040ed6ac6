import Lox.Proofs.Session.Batch

/-!
# Layout

Whitespace, line breaks and comments between the tokens of a source decide nothing but the lines
of the tokens.  So two sources with alike tokens are run alike (`sameButLines_of_alike`): over
sinks that never fail they have the same status, print the same, and leave the session the same.
Only the reports may differ, and those in the numbers of their lines alone, each of which is the
line of the same token in both.

Tokens are related here if they stand in the same place of the two sources.  That relation goes
along through the grammar and the execution, so an error is found at tokens in the same place.
-/

namespace Lox

variable {tokens tokens' : List Token}

/-! ## Tokens in the same place -/

/-- Tokens that differ in their lines at most and stand in the same place of two lists. -/
structure Token.InPlace (tokens tokens' : List Token) (token token' : Token) : Prop where
  alike : token.Alike token'
  getElem?_eq : ∃ i : Nat, tokens[i]? = some token ∧ tokens'[i]? = some token'

theorem relatesAlike_inPlace : RelatesAlike (Token.InPlace tokens tokens') :=
  fun _ _ h => h.alike

theorem forall₂_inPlace (h : List.Forall₂ Token.Alike tokens tokens') :
    List.Forall₂ (Token.InPlace tokens tokens') tokens tokens' := by
  obtain ⟨hlength, halike⟩ := List.forall₂_iff_get.1 h
  refine List.forall₂_iff_get.2 ⟨hlength, fun i hi hi' => ⟨halike i hi hi', i, ?_, ?_⟩⟩
  · exact List.getElem?_eq_getElem hi
  · exact List.getElem?_eq_getElem hi'

theorem exists_isEnd_scan (source : String) :
    ∃ token ∈ (scan source).tokens, token.kind.isEnd = true := by
  rw [Scan.scan_eq]
  exact ⟨Token.atEnd _, List.mem_append_right _ (List.mem_singleton_self _), rfl⟩

/-! ## Reports -/

/-- A report about a line. -/
def lineReport (before : String) (line : Int32) (after : String) : String :=
  before ++ "[line " ++ toString line ++ "]" ++ after

/-- Reports that are the same but for the number of the line, which in each is that of the token
in the same place. -/
inductive SameReport (tokens tokens' : List Token) : String → String → Prop
  | intro {i : Nat} {token token' : Token} (before after : String) :
      tokens[i]? = some token → tokens'[i]? = some token' →
        SameReport tokens tokens' (lineReport before token.line after)
          (lineReport before token'.line after)

theorem SyntaxError.text_eq (error : SyntaxError) :
    error.text = lineReport "" error.token.line
      (" error at " ++ error.place ++ ": " ++ error.cause.message) := by
  show "[line " ++ toString error.token.line ++ "] error at " ++ error.place ++ ": " ++
    error.cause.message = _
  refine String.toList_injective ?_
  simp [lineReport]

theorem RuntimeError.text_eq (error : RuntimeError) :
    error.text = lineReport (error.message ++ " \n") error.token.line "" := by
  show error.message ++ " \n[line " ++ toString error.token.line ++ "]" = _
  refine String.toList_injective ?_
  simp [lineReport]

theorem SyntaxError.Matches.sameReport {error error' : SyntaxError}
    (h : error.Matches (Token.InPlace tokens tokens') error') :
    SameReport tokens tokens' error.text error'.text := by
  obtain ⟨i, hi, hi'⟩ := h.token.getElem?_eq
  have hplace : error.place = error'.place := by
    rw [SyntaxError.place, SyntaxError.place, h.token.alike.kind_eq, h.token.alike.lexeme_eq]
  rw [SyntaxError.text_eq, SyntaxError.text_eq, hplace, h.cause_eq]
  exact .intro _ _ hi hi'

theorem RuntimeError.Matches.sameReport {error error' : RuntimeError}
    (h : error.Matches (Token.InPlace tokens tokens') error') :
    SameReport tokens tokens' error.text error'.text := by
  obtain ⟨i, hi, hi'⟩ := h.token.getElem?_eq
  have hmessage : error.message = error'.message := by
    rw [RuntimeError.message, RuntimeError.message, h.cause_eq, h.token.alike.lexeme_eq]
  rw [RuntimeError.text_eq, RuntimeError.text_eq, hmessage]
  exact .intro _ _ hi hi'

/-! ## Runs -/

namespace Session

variable {σ : Type} {streams : Streams (StateM σ)}

/-- The run of a source never comes to an end, however many turns its loops are given. -/
def Diverges (streams : Streams (StateM σ)) (source : String) (session : Session) (s : σ) : Prop :=
  ∀ fuel, (outcome (run streams fuel source) session s).result = .error .outOfFuel

/-- The trees that a session shows of a source. -/
def shownTrees (session : Session) (source : String) : List String :=
  match parse (scan source).tokens with
  | .ok program => treeReports session program
  | .error _ => []

/-- Runs of two sources that begin in the same session, over sinks in the state `s`, come to the
same, and write the same but for the lines in their reports. -/
structure SameButLines (record : Record σ) (source source' : String) (session : Session) (s : σ)
    (first second : Outcome σ Status) : Prop where
  result_eq : first.result = second.result
  session_eq : first.session = second.session
  writes : ∃ output reports reports',
    record.Writes s output (utf8Reports (shownTrees session source ++ reports)) first.sinks ∧
    record.Writes s output (utf8Reports (shownTrees session source ++ reports')) second.sinks ∧
    List.Forall₂ (SameReport (scan source).tokens (scan source').tokens) reports reports'

/-- If programs have ended alike, the errors at which they have stopped are reported alike. -/
theorem stopReports_sameReport {result result' : Except Stop Unit}
    (h : ResultMatches (Stop.Matches (Token.InPlace tokens tokens')) result result') :
    List.Forall₂ (SameReport tokens tokens') (stopReports result) (stopReports result') := by
  cases h with
  | ok => exact .nil
  | error hstop =>
      cases hstop with
      | runtime herror => exact .cons herror.sameReport .nil
      | output | outOfFuel => exact .nil

section

variable (record : Recording streams) (session : Session) {s : σ} {source source' : String}

theorem mistakeReports_of_error {errors : List SyntaxError} (hscan : (scan source).errors = [])
    (hparse : parse (scan source).tokens = .error errors) :
    mistakeReports source = errors.map SyntaxError.text := by
  rw [mistakeReports, scanReports, hscan, syntaxReports_of_error hparse]
  rfl

/-- Rejected sources with the same mistakes in the same places have them reported alike. -/
theorem sameButLines_of_rejected (fuel : Nat) (hopen : record.IsOpen s)
    (hfirst : (scan source).errors = []) (hsecond : (scan source').errors = [])
    {errors errors' : List SyntaxError} (hparse : parse (scan source).tokens = .error errors)
    (hparse' : parse (scan source').tokens = .error errors')
    (herrors : List.Forall₂
      (SyntaxError.Matches (Token.InPlace (scan source).tokens (scan source').tokens))
      errors errors') :
    SameButLines record.toRecord source source' session s
      (outcome (run streams fuel source) session s)
      (outcome (run streams fuel source') session s) := by
  obtain ⟨t, hrun, hwrites⟩ :=
    run_of_mistaken record fuel session (.inr ⟨errors, hparse⟩) hopen
  obtain ⟨t', hrun', hwrites'⟩ :=
    run_of_mistaken record fuel session (.inr ⟨errors', hparse'⟩) hopen
  rw [mistakeReports_of_error hfirst hparse] at hwrites
  rw [mistakeReports_of_error hsecond hparse'] at hwrites'
  have hnone : shownTrees session source = [] := by rw [shownTrees, hparse]
  rw [hrun, hrun']
  refine ⟨rfl, rfl, .empty, errors.map SyntaxError.text, errors'.map SyntaxError.text, ?_, ?_, ?_⟩
  · rwa [hnone]
  · rwa [hnone]
  · rw [List.forall₂_map_left_iff, List.forall₂_map_right_iff]
    exact herrors.imp fun _ _ herror => herror.sameReport

/-- Accepted sources whose programs match do the same. -/
theorem sameButLines_of_accepted (fuel : Nat) (hopen : record.IsOpen s)
    {program program' : List Stmt} (haccepted : Accepted source program)
    (haccepted' : Accepted source' program')
    (hmatches : Stmt.MatchesAll (Token.InPlace (scan source).tokens (scan source').tokens)
      program program') :
    SameButLines record.toRecord source source' session s
      (outcome (run streams fuel source) session s)
      (outcome (run streams fuel source') session s) := by
  obtain ⟨t, done, u, hshown, hdone, hstop, hrun⟩ :=
    run_of_accepted record fuel session haccepted hopen
  obtain ⟨t', done', u', hshown', hdone', hstop', hrun'⟩ :=
    run_of_accepted record fuel session haccepted' hopen
  obtain ⟨hresult, henv, output, hprinted, hprinted'⟩ :=
    hmatches.interpret record fuel relatesAlike_inPlace session.environment hshown.isOpen
      hshown'.isOpen
  subst hdone hdone'
  have htrees : treeReports session program' = treeReports session program := by
    rw [treeReports, treeReports, hmatches.map_render_eq relatesAlike_inPlace]
  have hsource : shownTrees session source = treeReports session program := by
    rw [shownTrees, haccepted.parse_eq_ok]
  have hall := (hshown.trans hprinted).trans hstop
  have hall' := (hshown'.trans hprinted').trans hstop'
  simp only [ByteArray.empty_append, ByteArray.append_empty, ← utf8Reports_append] at hall hall'
  rw [hrun, hrun']
  refine ⟨conclusion_eq hresult, ?_, output, _, _, ?_, ?_, stopReports_sameReport hresult⟩
  · rw [henv]
    exact conclude_eq _ hresult
  · rwa [hsource]
  · rwa [hsource, ← htrees]

end

/-- Two sources without errors of the scan, whose tokens are alike one by one, are run alike: both
runs never end, or they come to the same and write the same but for the lines in the reports. -/
theorem sameButLines_of_alike (record : Recording streams) (session : Session) {s : σ}
    (hopen : record.IsOpen s) {source source' : String} (hfirst : (scan source).errors = [])
    (hsecond : (scan source').errors = [])
    (halike : List.Forall₂ Token.Alike (scan source).tokens (scan source').tokens) :
    (Diverges streams source session s ↔ Diverges streams source' session s) ∧
      ∀ fuel, SameButLines record.toRecord source source' session s
        (outcome (run streams fuel source) session s)
        (outcome (run streams fuel source') session s) := by
  have hplace := forall₂_inPlace halike
  have hend := relates_endMark relatesAlike_inPlace hplace (exists_isEnd_scan source)
  have hparse := parse_matches relatesAlike_inPlace hplace hend
  have hsame : ∀ fuel, SameButLines record.toRecord source source' session s
      (outcome (run streams fuel source) session s)
      (outcome (run streams fuel source') session s) := by
    intro fuel
    generalize hparsed : parse (scan source).tokens = parsed at hparse
    generalize hparsed' : parse (scan source').tokens = parsed' at hparse
    cases hparse with
    | accepted hmatches =>
        exact sameButLines_of_accepted record session fuel hopen ⟨hfirst, hparsed⟩
          ⟨hsecond, hparsed'⟩ hmatches
    | rejected herrors =>
        exact sameButLines_of_rejected record session fuel hopen hfirst hsecond hparsed hparsed'
          herrors
  refine ⟨forall_congr' fun fuel => ?_, hsame⟩
  rw [(hsame fuel).result_eq]

/-! ### A comment before a name -/

theorem scan_commented : scan "//\ny;" =
    ⟨[⟨.identifier "y", "y", 2⟩, ⟨.symbol .semicolon, ";", 2⟩, ⟨.endOfSource, "", 2⟩], []⟩ := by
  have hcomment : pieces ['/', '/', '\n', 'y', ';'] =
      .comment ['/', '/'] :: pieces ['\n', 'y', ';'] := pieces_cons '/' _
  have hblank : pieces ['\n', 'y', ';'] = .blank '\n' :: pieces ['y', ';'] := pieces_cons '\n' _
  have hname : pieces ['y', ';'] = .token (.identifier "y") ['y'] :: pieces [';'] :=
    pieces_cons 'y' _
  rw [hblank, hname, pieces_semicolon] at hcomment
  exact Scan.scan_of_pieces "//\ny;" hcomment

/-- A name that is not declared is reported on the line on which it stands. -/
theorem sameButLines_comment :
    Terminal.recording.IsOpen {} ∧ (scan "y;").errors = [] ∧ (scan "//\ny;").errors = [] ∧
      List.Forall₂ Token.Alike (scan "y;").tokens (scan "//\ny;").tokens ∧
      (outcome (run Terminal.streams 0 "y;") {} {}).result = .ok .runtimeError ∧
      SameButLines Terminal.recording.toRecord "y;" "//\ny;" {} {}
        (outcome (run Terminal.streams 0 "y;") {} {})
        (outcome (run Terminal.streams 0 "//\ny;") {} {}) := by
  have hopen : Terminal.recording.IsOpen {} := ⟨rfl, rfl, rfl⟩
  have hfirst : (scan "y;").errors = [] := by rw [scan_name]
  have hsecond : (scan "//\ny;").errors = [] := by rw [scan_commented]
  have halike : List.Forall₂ Token.Alike (scan "y;").tokens (scan "//\ny;").tokens := by
    rw [scan_name, scan_commented]
    exact .cons ⟨rfl, rfl⟩ (.cons ⟨rfl, rfl⟩ (.cons ⟨rfl, rfl⟩ .nil))
  have hstop : (outcome (run Terminal.streams 0 "y;") {} {}).result = .ok .runtimeError := by
    obtain ⟨t, hreport, -⟩ := Terminal.recording.write_reports
      [RuntimeError.text ⟨.undefinedVariable, ⟨.identifier "y", "y", 1⟩⟩] hopen
    rw [(Ends.stopped accepted_name rfl rfl hreport).eq]
  exact ⟨hopen, hfirst, hsecond, halike, hstop,
    (sameButLines_of_alike Terminal.recording {} hopen hfirst hsecond halike).2 0⟩

end Session

end Lox
