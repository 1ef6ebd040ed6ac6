import Lox.Proofs.Execution.Upkeep
import Lox.Proofs.Grammar.WellFormed
import Lox.Proofs.Session.Layout
import Lox.Proofs.Source.Lines

/-!
# Every diagnostic points into the source

The errors that a run finds, `diagnostics`, are those of the scan, those of the grammar, and the
one at which the program stops.  Each is about a line of the source, if its lines can be counted
at all (`diagnostics_point_into_source`).

No token is made up on the way.  The rules of the grammar do the same with related tokens, so
they put nothing into their faults and trees but tokens that they are given, and what an
evaluation raises is raised at an operator or a name of the tree.  The mark for the end that is
implied after the last token is on no line, but a scan always ends with a mark of its own.

What a run reports are these errors and the trees of its program (`reports`).  Sinks that fail
may lose some of it, but they are given nothing else: what survives each of these reports, and
whatever is printed, survives the run (`Survives.run`).
-/

namespace Lox

variable {source : String} {σ : Type}

/-! ## Diagnostics -/

/-- An error of any kind. -/
inductive Diagnostic
  | lexical (error : ScanError)
  | grammatical (error : SyntaxError)
  | runtime (error : RuntimeError)

namespace Diagnostic

/-- The report of an error. -/
def text : Diagnostic → String
  | .lexical error => error.text
  | .grammatical error => error.text
  | .runtime error => error.text

/-- The line that the report tells. -/
def line : Diagnostic → Int32
  | .lexical error => error.line
  | .grammatical error => error.token.line
  | .runtime error => error.token.line

end Diagnostic

theorem ScanError.text_eq (error : ScanError) :
    error.text = lineReport "" error.line (" error: " ++ error.cause.message) := by
  show "[line " ++ toString error.line ++ "] error: " ++ error.cause.message = _
  refine String.toList_injective ?_
  simp [lineReport]

theorem Diagnostic.text_eq (diagnostic : Diagnostic) :
    ∃ before after, diagnostic.text = lineReport before diagnostic.line after := by
  cases diagnostic with
  | lexical error => exact ⟨_, _, error.text_eq⟩
  | grammatical error => exact ⟨_, _, error.text_eq⟩
  | runtime error => exact ⟨_, _, error.text_eq⟩

/-! ## Errors of the grammar -/

/-- The errors of the grammar are at tokens of the source: what is found in two lists of tokens is
found in the same places of both, so this holds of one list and itself. -/
theorem token_mem_of_parse_eq_error {tokens : List Token} {errors : List SyntaxError}
    (hend : ∃ token ∈ tokens, token.kind.isEnd = true) (hparse : parse tokens = .error errors) :
    ∀ error ∈ errors, error.token ∈ tokens := by
  have hself : List.Forall₂ (Token.InPlace tokens tokens) tokens tokens :=
    forall₂_inPlace (List.forall₂_same.2 fun token _ => ⟨rfl, rfl⟩)
  have hmark := relates_endMark relatesAlike_inPlace hself hend
  have hmatches := parse_matches relatesAlike_inPlace hself hmark
  rw [hparse] at hmatches
  cases hmatches with
  | rejected herrors =>
      intro error herror
      have hplace := List.forall₂_same.1 herrors error herror
      obtain ⟨i, hi, -⟩ := hplace.token.getElem?_eq
      exact List.mem_of_getElem? hi

/-! ## Errors of evaluation -/

/-- Operators with operands, and names: the tokens at which an evaluation may stop. -/
def Token.Kind.isOperatorOrName (kind : Token.Kind) : Bool :=
  Grammar.isUnary kind || Operator.isBinary kind || Grammar.isIdentifier kind

theorem Token.Kind.symbol_or_identifier {kind : Token.Kind} (h : kind.isOperatorOrName = true) :
    (∃ symbol, kind = .symbol symbol) ∨ ∃ name, kind = .identifier name := by
  cases kind with
  | symbol symbol => exact .inl ⟨symbol, rfl⟩
  | identifier name => exact .inr ⟨name, rfl⟩
  | keyword | string | number | endOfSource => cases h

namespace Operator

variable {operator : Token} {error : RuntimeError}

theorem token_eq_of_unary {value : Value} (h : unary operator value = .error error) :
    error.token = operator := by
  unfold unary at h
  split at h <;> cases h <;> rfl

theorem token_eq_of_arithmetic {x y : Float} (h : arithmetic operator x y = .error error) :
    error.token = operator := by
  unfold arithmetic at h
  split at h <;> cases h
  rfl

theorem token_eq_of_binary {x y : Value} (h : binary operator x y = .error error) :
    error.token = operator := by
  unfold binary at h
  split at h
  · cases h
  · cases h
  · unfold add at h
    split at h <;> cases h
    rfl
  · split at h
    · exact token_eq_of_arithmetic h
    · cases h
      rfl

end Operator

/-- What an expression of a well-formed tree raises, it raises at an operator or a name of the
source. -/
theorem Node.WellFormed.token_of_mayRaise {tokens : List Token} {expr : Expr}
    {error : RuntimeError} (h : (Node.expression expr).WellFormed tokens)
    (hraise : expr.MayRaise error) :
    error.token ∈ tokens ∧ error.token.kind.isOperatorOrName = true := by
  unfold Token.Kind.isOperatorOrName
  cases hraise with
  | unary hvalue =>
      rw [Operator.token_eq_of_unary hvalue]
      exact ⟨h.1, by simp [h.2]⟩
  | binary hvalue =>
      rw [Operator.token_eq_of_binary hvalue]
      exact ⟨h.1, by simp [h.2]⟩
  | logical hor hand =>
      -- the logical operators of a well-formed tree have a meaning
      have hkind := h.2
      unfold Operator.isLogical at hkind
      split at hkind <;> simp_all
  | «variable» | assign => exact ⟨h.1, by simp [h.2]⟩

/-- An accepted program stops at an operator or a name of the source. -/
theorem token_of_interpret_eq_error {sink : Sink (StateM σ)} {fuel : Nat} {env : Environment}
    {s : σ} {tokens : List Token} {program : List Stmt} {error : RuntimeError}
    (hparse : parse tokens = .ok program)
    (h : (Exec.outcome (Stmt.interpret sink fuel program) env s).result =
      .error (.runtime error)) :
    error.token ∈ tokens ∧ error.token.kind.isOperatorOrName = true := by
  have hraises : (Node.statements program).Raises sink fuel env s error :=
    Stmt.interpret_eq_error_iff.1 h
  obtain ⟨expr, hcontains, hraise⟩ := Node.exists_mayRaise _ env s hraises
  exact (regular_of_parse hparse _ hcontains).token_of_mayRaise hraise

/-! ## Runs -/

/-- Where a diagnostic points to: its report is about a line of the source.  An error of the
grammar is at a token of the source, and an error of evaluation is at one that is an operator or
a name, on the line on which that begins. -/
structure Diagnostic.PointsInto (source : String) (diagnostic : Diagnostic) : Prop where
  text_eq : ∃ before after, diagnostic.text = lineReport before diagnostic.line after
  isLine : Scan.IsLine source diagnostic.line
  grammatical : ∀ error, diagnostic = .grammatical error → error.token ∈ (scan source).tokens
  runtime : ∀ error, diagnostic = .runtime error →
    error.token ∈ (scan source).tokens ∧ error.token.kind.isOperatorOrName = true ∧
      ∃ before, Scan.StandsAfter source before error.token ∧
        error.token.line.toInt = 1 + before.count '\n'

section

variable (hlines : source.toList.count '\n' < 2 ^ 31 - 1)

include hlines

theorem pointsInto_lexical {error : ScanError} (h : error ∈ (scan source).errors) :
    (Diagnostic.lexical error).PointsInto source where
  text_eq := Diagnostic.text_eq _
  isLine := Scan.isLine_of_mem_errors hlines h
  grammatical _ heq := by cases heq
  runtime _ heq := by cases heq

theorem pointsInto_grammatical {errors : List SyntaxError} {error : SyntaxError}
    (hparse : parse (scan source).tokens = .error errors) (h : error ∈ errors) :
    (Diagnostic.grammatical error).PointsInto source := by
  have hmem : error.token ∈ (scan source).tokens :=
    token_mem_of_parse_eq_error (exists_isEnd_scan source) hparse error h
  refine ⟨Diagnostic.text_eq _, Scan.isLine_of_mem_tokens hlines hmem, ?_, ?_⟩
  · rintro _ ⟨⟩
    exact hmem
  · intro _ heq
    cases heq

theorem pointsInto_runtime {error : RuntimeError} (hmem : error.token ∈ (scan source).tokens)
    (hkind : error.token.kind.isOperatorOrName = true) :
    (Diagnostic.runtime error).PointsInto source := by
  refine ⟨Diagnostic.text_eq _, Scan.isLine_of_mem_tokens hlines hmem, ?_, ?_⟩
  · intro _ heq
    cases heq
  · rintro _ ⟨⟩
    have hshape := Token.Kind.symbol_or_identifier hkind
    have hend : error.token.kind.isEnd = false := by
      rcases hshape with ⟨_, hsymbol⟩ | ⟨_, hname⟩
      · rw [hsymbol]
        rfl
      · rw [hname]
        rfl
    obtain ⟨before, hstands, hline⟩ := Scan.exists_standsAfter hlines hmem hend
    have hnone : error.token.lexeme.toList.count '\n' = 0 :=
      List.count_eq_zero.2 (hstands.notMem_newline hshape)
    refine ⟨hmem, hkind, before, hstands, ?_⟩
    rw [hline, hnone]
    omega

end

namespace Session

variable (streams : Streams (StateM σ)) (fuel : Nat) (source : String) (session : Session) (s : σ)

/-- The error of evaluation at which an accepted program stops, if it stops at one. -/
def stopDiagnostics (program : List Stmt) : List Diagnostic :=
  match writeTrees streams session.printTrees program s with
  | (.error _, _) => []
  | (.ok (), t) =>
      match (execution streams fuel program session t).result with
      | .error (.runtime error) => [.runtime error]
      | _ => []

/-- All errors that a run of a source finds, in the order in which they are reported. -/
def diagnostics : List Diagnostic :=
  (scan source).errors.map .lexical ++
    match parse (scan source).tokens with
    | .error errors => errors.map .grammatical
    | .ok program =>
        if (scan source).errors = [] then stopDiagnostics streams fuel session s program else []

variable {streams fuel source session s}

theorem exists_of_mem_stopDiagnostics {program : List Stmt} {diagnostic : Diagnostic}
    (h : diagnostic ∈ stopDiagnostics streams fuel session s program) :
    ∃ error t, diagnostic = .runtime error ∧
      (execution streams fuel program session t).result = .error (.runtime error) := by
  unfold stopDiagnostics at h
  split at h
  · cases h
  · split at h
    · rename_i error hstop
      exact ⟨error, _, List.mem_singleton.1 h, hstop⟩
    · cases h

theorem map_text_stopDiagnostics {program : List Stmt} {t : σ}
    (htrees : writeTrees streams session.printTrees program s = (.ok (), t)) :
    (stopDiagnostics streams fuel session s program).map Diagnostic.text =
      stopReports (execution streams fuel program session t).result := by
  unfold stopDiagnostics
  rw [htrees]
  dsimp only
  rcases (execution streams fuel program session t).result with ⟨error | failure | _⟩ | _ <;> rfl

/-- The reports of a source with mistakes are about all of them. -/
theorem map_text_diagnostics_of_mistaken (hmistaken : Mistaken source) :
    (diagnostics streams fuel source session s).map Diagnostic.text = mistakeReports source := by
  unfold diagnostics mistakeReports scanReports syntaxReports
  rw [List.map_append, List.map_map]
  congr 1
  cases hparse : parse (scan source).tokens with
  | error errors => exact List.map_map
  | ok program =>
      have herrors : (scan source).errors ≠ [] := hmistaken.resolve_right (by simp [hparse])
      dsimp only
      rw [if_neg herrors]
      rfl

theorem diagnostics_of_accepted {program : List Stmt} (haccepted : Accepted source program) :
    diagnostics streams fuel source session s =
      stopDiagnostics streams fuel session s program := by
  unfold diagnostics
  rw [haccepted.parse_eq_ok, haccepted.errors_eq_nil]
  rfl

/-- All that a run of a source may report: the trees of its program, and the errors that it
finds. -/
def reports (streams : Streams (StateM σ)) (fuel : Nat) (source : String) (session : Session)
    (s : σ) : List String :=
  (if Mistaken source then [] else shownTrees session source) ++
    (diagnostics streams fuel source session s).map Diagnostic.text

theorem reports_of_mistaken (hmistaken : Mistaken source) :
    reports streams fuel source session s = mistakeReports source := by
  rw [reports, if_pos hmistaken, map_text_diagnostics_of_mistaken hmistaken, List.nil_append]

theorem reports_of_accepted {program : List Stmt} (haccepted : Accepted source program) :
    reports streams fuel source session s =
      treeReports session program ++
        (stopDiagnostics streams fuel session s program).map Diagnostic.text := by
  rw [reports, if_neg haccepted.not_mistaken, shownTrees, haccepted.parse_eq_ok,
    diagnostics_of_accepted haccepted]

/-- Over sinks that never fail, a run reports all of that. -/
theorem run_writes_reports (record : Recording streams) (fuel : Nat) (source : String)
    (session : Session) (hopen : record.IsOpen s) :
    ∃ output, record.Writes s output (utf8Reports (reports streams fuel source session s))
      (outcome (run streams fuel source) session s).sinks := by
  rcases mistaken_or_accepted source with hmistaken | ⟨program, haccepted⟩
  · obtain ⟨t, hrun, hwrites⟩ := run_of_mistaken record fuel session hmistaken hopen
    rw [hrun, reports_of_mistaken hmistaken]
    exact ⟨.empty, hwrites⟩
  · obtain ⟨t, htrees, hshown⟩ := write_trees record session program hopen
    obtain ⟨-, -, output, hprinted, -⟩ :=
      execution_matches record fuel program session hshown.isOpen hshown.isOpen
    obtain ⟨u, hsettle, hstop⟩ := settle_writes record
      (execution streams fuel program session t).result
      { session with
        environment := (execution streams fuel program session t).env, hadError := false }
      hprinted.isOpen
    have hall := (hshown.trans hprinted).trans hstop
    simp only [ByteArray.empty_append, ByteArray.append_empty, ← utf8Reports_append] at hall
    rw [outcome_run_of_execution haccepted htrees, hsettle, reports_of_accepted haccepted,
      map_text_stopDiagnostics htrees]
    exact ⟨output, hall⟩

/-! ## Sinks of any kind -/

/-- The property of the sinks survives whatever is printed, and each of these reports. -/
structure Survives (streams : Streams (StateM σ)) (texts : List String) (P : σ → Prop) : Prop where
  print (text : String) {s : σ} : P s → P (streams.output.write text s).2
  flush {s : σ} : P s → P (streams.output.flush s).2
  report {text : String} {s : σ} : text ∈ texts → P s →
    P (streams.diagnostics.writeLine text s).2

variable {P : σ → Prop} {texts written : List String} {t : σ} {done : Except SinkError Unit}

theorem Survives.writeLines (h : Survives streams texts P) (hwritten : written ⊆ texts) (hs : P s)
    (hdone : streams.diagnostics.writeLines written s = (done, t)) : P t := by
  induction written generalizing s with
  | nil =>
      cases hdone
      exact hs
  | cons text rest ih =>
      obtain ⟨htext, hrest⟩ := List.cons_subset.1 hwritten
      have hfirst := h.report htext hs
      rw [Sink.writeLines_cons] at hdone
      generalize streams.diagnostics.writeLine text s = first at hfirst hdone
      rcases first with ⟨failure | _, u⟩
      · cases hdone
        exact hfirst
      · exact ih hrest hfirst hdone

theorem Survives.writeTrees {program : List Stmt} (h : Survives streams texts P)
    (hwritten : treeReports session program ⊆ texts) (hs : P s)
    (hdone : writeTrees streams session.printTrees program s = (done, t)) : P t := by
  unfold Session.writeTrees at hdone
  unfold treeReports at hwritten
  split at hdone
  · rename_i hshow
    rw [if_pos hshow] at hwritten
    exact h.writeLines hwritten hs hdone
  · cases hdone
    exact hs

/-- The property survives a program, and the report of the error at which it stops is left. -/
theorem Survives.execution {program : List Stmt} {env : Environment} {result : Except Stop Unit}
    {u : σ} (h : Survives streams (reports streams fuel source session s) P) (hs : P s)
    (haccepted : Accepted source program)
    (htrees : Session.writeTrees streams session.printTrees program s = (.ok (), t))
    (hexecution : Session.execution streams fuel program session t = ⟨result, env, u⟩) :
    P u ∧ stopReports result ⊆ reports streams fuel source session s := by
  have hreports : reports streams fuel source session s = _ := reports_of_accepted haccepted
  rw [map_text_stopDiagnostics htrees, hexecution] at hreports
  rw [hreports] at h ⊢
  refine ⟨?_, List.subset_append_right _ _⟩
  have hkeeps : streams.output.Keeps P fun _ => True :=
    ⟨fun text _ hs => ⟨h.print text hs, fun _ _ => trivial⟩,
      fun hs => ⟨h.flush hs, fun _ _ => trivial⟩⟩
  have hshown := h.writeTrees (List.subset_append_left _ _) hs htrees
  have hexecuted : P (Session.execution streams fuel program session t).sink :=
    (Exec.keepsSink_interpret hkeeps fuel program session.environment t hshown).1
  rwa [hexecution] at hexecuted

theorem scanReports_subset : scanReports source ⊆ reports streams fuel source session s := by
  rcases mistaken_or_accepted source with hmistaken | ⟨program, haccepted⟩
  · rw [reports_of_mistaken hmistaken]
    exact List.subset_append_left _ _
  · rw [haccepted.scanReports_eq]
    exact List.nil_subset _

/-- Whatever the sinks do, a run reports nothing else. -/
theorem Survives.run (h : Survives streams (reports streams fuel source session s) P) (hs : P s) :
    P (outcome (run streams fuel source) session s).sinks := by
  have hends := ends_run streams fuel source session s
  generalize outcome (Session.run streams fuel source) session s = result at hends
  cases hends with
  | scanLost hscan => exact h.writeLines scanReports_subset hs hscan
  | syntaxLost hscan hparse hgrammar =>
      have hfirst := h.writeLines scanReports_subset hs hscan
      rw [reports_of_mistaken (.inr ⟨_, hparse⟩)] at h
      exact h.writeLines (List.subset_append_right _ _) hfirst hgrammar
  | rejected hscan hmistaken hgrammar =>
      have hfirst := h.writeLines scanReports_subset hs hscan
      rw [reports_of_mistaken hmistaken] at h
      exact h.writeLines (List.subset_append_right _ _) hfirst hgrammar
  | treesLost haccepted htrees =>
      rw [reports_of_accepted haccepted] at h
      exact h.writeTrees (List.subset_append_left _ _) hs htrees
  | stopped haccepted htrees hexecution hreport | stopLost haccepted htrees hexecution hreport =>
      obtain ⟨hstopped, hstop⟩ := h.execution hs haccepted htrees hexecution
      exact h.writeLines hstop hstopped hreport
  | finished haccepted htrees hexecution
  | outputLost haccepted htrees hexecution
  | outOfFuel haccepted htrees hexecution =>
      exact (h.execution hs haccepted htrees hexecution).1

/-! ## All runs -/

/-- Every error that a run finds points into its source, in any session and whatever the sinks do.
A run reports nothing but these errors, after the trees of its program if the session shows them;
over sinks that never fail, it reports them all. -/
theorem diagnostics_point_into_source (streams : Streams (StateM σ)) (fuel : Nat) (source : String)
    (session : Session) (s : σ) (hlines : source.toList.count '\n' < 2 ^ 31 - 1) :
    (∀ diagnostic ∈ diagnostics streams fuel source session s, diagnostic.PointsInto source) ∧
      (∀ P : σ → Prop, Survives streams (reports streams fuel source session s) P → P s →
        P (outcome (run streams fuel source) session s).sinks) ∧
      ∀ record : Recording streams, record.IsOpen s →
        ∃ output, record.Writes s output (utf8Reports (reports streams fuel source session s))
          (outcome (run streams fuel source) session s).sinks := by
  refine ⟨fun diagnostic hmem => ?_, fun P h hs => h.run hs, fun record hopen =>
    run_writes_reports record fuel source session hopen⟩
  unfold diagnostics at hmem
  rcases List.mem_append.1 hmem with hmem | hmem
  · obtain ⟨error, herror, rfl⟩ := List.mem_map.1 hmem
    exact pointsInto_lexical hlines herror
  cases hparse : parse (scan source).tokens with
  | error errors =>
      rw [hparse] at hmem
      obtain ⟨error, herror, rfl⟩ := List.mem_map.1 hmem
      exact pointsInto_grammatical hlines hparse herror
  | ok program =>
      rw [hparse] at hmem
      dsimp only at hmem
      split at hmem
      · obtain ⟨error, t, rfl, hstop⟩ := exists_of_mem_stopDiagnostics hmem
        obtain ⟨htoken, hkind⟩ := token_of_interpret_eq_error hparse hstop
        exact pointsInto_runtime hlines htoken hkind
      · cases hmem

/-- A name that is not declared is an error on the line on which it stands. -/
theorem diagnostics_point_into_source_comment :
    let error : RuntimeError := ⟨.undefinedVariable, ⟨.identifier "y", "y", 2⟩⟩
    "//\ny;".toList.count '\n' < 2 ^ 31 - 1 ∧
      diagnostics Terminal.streams 0 "//\ny;" {} {} = [.runtime error] ∧
      (Diagnostic.runtime error).PointsInto "//\ny;" := by
  intro error
  have hlines : "//\ny;".toList.count '\n' < 2 ^ 31 - 1 := by decide
  have hparse : parse (scan "//\ny;").tokens =
      .ok [.expression (.variable ⟨.identifier "y", "y", 2⟩)] := by
    rw [scan_commented]
    rfl
  have haccepted : Accepted "//\ny;" [.expression (.variable ⟨.identifier "y", "y", 2⟩)] :=
    ⟨by rw [scan_commented], hparse⟩
  have hfound : diagnostics Terminal.streams 0 "//\ny;" {} {} = [.runtime error] :=
    diagnostics_of_accepted haccepted
  refine ⟨hlines, hfound, ?_⟩
  apply (diagnostics_point_into_source Terminal.streams 0 "//\ny;" {} {} hlines).1
  rw [hfound]
  exact List.mem_singleton_self _

end Session

end Lox
