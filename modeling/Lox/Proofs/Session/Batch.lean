import Mathlib.Algebra.Group.Nat.Defs
import Lox.Proofs.Execution.Fuel
import Lox.Proofs.Grammar.Matching
import Lox.Proofs.Session.Recorded
import Lox.Proofs.Source.Joining

/-!
# A source at a time, or all at once

Two sources without mistakes may be run one after another, or joined by a newline and run as
one.  Over sinks that never fail the session is the same in the end, and so is all that has
been written, except that the lines of the second source are counted from the beginning of the
first: `run_append` says so.

Three things make up the proof.  The tokens of the joined source are those of the two sources,
those of the second further down (`accepted_append`).  Its program is that of the first source
and then one that matches that of the second.  And such a program does what the two programs do
one after another (`interpret_append`).
-/

namespace Lox

variable {σ : Type}

/-! ## Further down -/

/-- The same token, so many lines further down. -/
structure Token.Below (lines : Nat) (token token' : Token) : Prop where
  kind_eq : token.kind = token'.kind
  lexeme_eq : token.lexeme = token'.lexeme
  line_eq : token'.line.toInt = token.line.toInt + lines

theorem relatesAlike_below (lines : Nat) : RelatesAlike (Token.Below lines) := by
  intro token token' h
  exact ⟨h.kind_eq, h.lexeme_eq⟩

/-- As long as lines can be counted, a token that is moved down is below. -/
theorem Token.below_down {token : Token} {before lines : Nat}
    (hline : token.line = Int32.ofNat (before + 1)) (hbound : before + 1 + lines < 2 ^ 31) :
    token.Below lines (token.down (Int32.ofNat lines)) := by
  refine ⟨rfl, rfl, ?_⟩
  have hdown : token.line + Int32.ofNat lines = Int32.ofNat (before + 1 + lines) := by
    rw [hline, ← Int32.ofNat_add]
  show (token.line + Int32.ofNat lines).toInt = _
  rw [hdown, hline, Int32.toInt_ofNat_of_lt hbound, Int32.toInt_ofNat_of_lt (by omega)]
  omega

/-! ## The joined source -/

namespace Session

variable {first second : String} {program program' : List Stmt}

open Scan

theorem forall₂_below
    (hlines : (first ++ "\n" ++ second).toList.count '\n' < 2 ^ 31 - 1) :
    List.Forall₂ (Token.Below (first.toList.count '\n' + 1)) (scan second).tokens
      ((scan second).tokens.map (Token.down (Int32.ofNat (first.toList.count '\n' + 1)))) := by
  have hcount : (first ++ "\n" ++ second).toList.count '\n' =
      first.toList.count '\n' + 1 + second.toList.count '\n' := by
    simp only [String.toList_append, List.count_append]
    rfl
  have hwithin := within_progress second
  rw [List.forall₂_map_right_iff, List.forall₂_same, scan_eq]
  intro token htoken
  rcases List.mem_append.1 htoken with hmem | hmem
  · obtain ⟨before, hle, hline⟩ := hwithin.tokens token hmem
    exact Token.below_down hline (by omega)
  · obtain rfl := List.mem_singleton.1 hmem
    exact Token.below_down hwithin.line_eq (by omega)

theorem programTokens_scan (source : String) :
    programTokens (scan source).tokens = (progress source).tokens.toList := by
  have hinside : ∀ token ∈ (progress source).tokens.toList, (!token.kind.isEnd) = true := by
    intro token htoken
    rw [isEnd_of_mem_progress source token htoken]
    rfl
  rw [scan_eq]
  unfold programTokens
  rw [List.takeWhile_append_of_pos hinside]
  exact List.append_nil _

/-- Two sources without mistakes are one when they are joined, and its program is that of the
first and then that of the second further down. -/
theorem accepted_append (hfirst : Accepted first program) (hsecond : Accepted second program')
    (hmark : second.toList.head? ≠ some '\uFEFF')
    (hlines : (first ++ "\n" ++ second).toList.count '\n' < 2 ^ 31 - 1) :
    ∃ lower, Accepted (first ++ "\n" ++ second) (program ++ lower) ∧
      Stmt.MatchesAll (Token.Below (first.toList.count '\n' + 1)) program' lower := by
  obtain ⟨lower, hparse, hmatches⟩ :=
    exists_parse_eq_ok (relatesAlike_below _) (forall₂_below hlines) hsecond.parse_eq_ok
  have hclosed : ∀ error ∈ (scan first).errors, error.cause ≠ .unterminatedString := by
    simp [hfirst.errors_eq_nil]
  have herrors : (scan (first ++ "\n" ++ second)).errors = [] := by
    rw [errors_append hclosed hmark, hfirst.errors_eq_nil, hsecond.errors_eq_nil]
    rfl
  refine ⟨lower, ⟨herrors, ?_⟩, hmatches⟩
  have hbefore := derives_of_parse_eq_ok hfirst.parse_eq_ok
  have hafter := derives_of_parse_eq_ok hparse
  refine parse_eq_ok_of_derives ?_
  have hall : ∀ token ∈ programTokens (scan first).tokens, (!token.kind.isEnd) = true :=
    fun token => List.mem_takeWhile_imp
  rw [tokens_append hclosed hmark, ← programTokens_scan]
  unfold programTokens at hall hbefore hafter ⊢
  rw [List.takeWhile_append_of_pos hall]
  exact hbefore.append hafter

end Session

/-! ## The joined program -/

namespace Stmt

open Exec

variable {sink : Sink (StateM σ)} {fuel : Nat} {body more : List Stmt} {env mid : Environment}
  {s t : σ}

theorem outcome_executeAll_append :
    outcome (executeAll sink fuel (body ++ more)) env s =
      outcome (executeAll sink fuel body >>= fun _ => executeAll sink fuel more) env s := by
  induction body generalizing env s with
  | nil =>
      rw [outcome_bind]
      rfl
  | cons stmt rest ih =>
      show outcome (execute sink fuel stmt >>= fun _ => executeAll sink fuel (rest ++ more)) env s =
        outcome ((execute sink fuel stmt >>= fun _ => executeAll sink fuel rest) >>=
          fun _ => executeAll sink fuel more) env s
      rw [outcome_bind, outcome_bind, outcome_bind]
      rcases outcome (execute sink fuel stmt) env s with ⟨stop | _, mid, t⟩
      · rfl
      · dsimp only
        rw [ih, outcome_bind]

/-- Once the first part of a program is through, it goes on as the second part begins. -/
theorem outcome_interpret_append
    (h : outcome (executeAll sink fuel body) env s = ⟨.ok (), mid, t⟩) :
    outcome (interpret sink fuel (body ++ more)) env s =
      outcome (interpret sink fuel more) mid t := by
  unfold interpret
  rw [outcome_bind, outcome_executeAll_append, outcome_bind, h]
  dsimp only
  rw [outcome_bind]

/-- The first part of a program does what it does on its own. -/
theorem interpret_append {streams : Streams (StateM σ)} (record : Recording streams) {s' : σ}
    (hopen : record.IsOpen s) (hopen' : record.IsOpen s')
    (hfirst : outcome (interpret streams.output fuel body) env s = ⟨.ok (), mid, t⟩) :
    ∃ output t', record.Writes s output .empty t ∧ record.Writes s' output .empty t' ∧
      outcome (interpret streams.output fuel (body ++ more)) env s' =
        outcome (interpret streams.output fuel more) mid t' := by
  obtain ⟨_, mid', u, hbody, hflush⟩ := outcome_bind_eq_ok_iff.1 hfirst
  have hself := (matchesAll_self (fun token => rfl) body).executeAll record fuel relatesAlike_eq
  obtain ⟨hresult, henv, output, hwrites, hwrites'⟩ := hself env hopen hopen'
  rw [hbody] at hresult henv hwrites
  generalize hother : outcome (executeAll streams.output fuel body) env s' = other
    at hresult henv hwrites'
  obtain ⟨result', env', t'⟩ := other
  cases hresult
  subst henv
  -- the flush between the parts writes nothing
  obtain ⟨v, hwritten, hnothing⟩ := record.flush_output hwrites.isOpen
  rw [outcome_ofSink, hwritten] at hflush
  cases hflush
  have hthrough := hwrites.trans_output hnothing
  rw [ByteArray.append_empty] at hthrough
  exact ⟨output, t', hthrough, hwrites', outcome_interpret_append hother⟩

/-- A program whose first part is through with `m` turns for each loop, and whose second part
matches one that ends with `n`, does what the two do one after another. -/
theorem interpret_joined {streams : Streams (StateM σ)} (record : Recording streams)
    {R : Token → Token → Prop} (halike : RelatesAlike R) {lower : List Stmt}
    (hmatches : MatchesAll R more lower) {m n : Nat} (hm : m ≤ fuel) (hn : n ≤ fuel)
    (hfirst : outcome (interpret streams.output m body) env s = ⟨.ok (), mid, t⟩) {u s' : σ}
    (hsecond : (outcome (interpret streams.output n more) mid u).result ≠ .error .outOfFuel)
    (hopen : record.IsOpen s) (hopenSecond : record.IsOpen u) (hopen' : record.IsOpen s') :
    ∃ output output', record.Writes s output .empty t ∧
      record.Writes u output' .empty (outcome (interpret streams.output n more) mid u).sink ∧
      record.Writes s' (output ++ output') .empty
        (outcome (interpret streams.output fuel (body ++ lower)) env s').sink ∧
      ResultMatches (Stop.Matches R) (outcome (interpret streams.output n more) mid u).result
        (outcome (interpret streams.output fuel (body ++ lower)) env s').result ∧
      (outcome (interpret streams.output n more) mid u).env =
        (outcome (interpret streams.output fuel (body ++ lower)) env s').env := by
  have hbody : outcome (interpret streams.output fuel body) env s = ⟨.ok (), mid, t⟩ :=
    (extends_interpret streams.output hm body env s (by simp [hfirst])).trans hfirst
  have hmore := extends_interpret streams.output hn more mid u hsecond
  obtain ⟨output, t', hwrites, hwrites', hjoined⟩ := interpret_append record hopen hopen' hbody
  obtain ⟨hresult, henv, output', hmoreWrites, hlowerWrites⟩ :=
    hmatches.interpret record fuel halike mid hopenSecond hwrites'.isOpen
  rw [hmore] at hresult henv hmoreWrites
  rw [hjoined]
  exact ⟨output, output', hwrites, hmoreWrites, hwrites'.trans_output hlowerWrites, hresult, henv⟩

end Stmt

/-! ## The joined run -/

/-- The error, with its token on another line. -/
def RuntimeError.onLine (error : RuntimeError) (line : Int32) : RuntimeError :=
  { error with token := { error.token with line := line } }

theorem RuntimeError.Matches.exists_onLine {lines : Nat} {error error' : RuntimeError}
    (h : error.Matches (Token.Below lines) error') :
    ∃ line, line.toInt = error.token.line.toInt + lines ∧ error' = error.onLine line := by
  obtain ⟨cause, token⟩ := error
  obtain ⟨cause', ⟨kind', lexeme', line'⟩⟩ := error'
  obtain ⟨rfl, htoken⟩ := h
  refine ⟨line', htoken.line_eq, ?_⟩
  have hkind : token.kind = kind' := htoken.kind_eq
  have hlexeme : token.lexeme = lexeme' := htoken.lexeme_eq
  subst hkind hlexeme
  rfl

namespace Session

variable {streams : Streams (StateM σ)}

/-- Two runs end in the same way, but the report of an error of evaluation is about a line that
is so many further down in the second. -/
structure SameUpToLines (record : Record σ) (lines : Nat) (first second : Outcome σ Status) :
    Prop where
  result_eq : first.result = second.result
  session_eq : first.session = second.session
  printed_eq : record.printed first.sinks = record.printed second.sinks
  reported : (first.result ≠ .ok .runtimeError ∧
      record.reported first.sinks = record.reported second.sinks) ∨
    (first.result = .ok .runtimeError ∧
      ∃ (before : ByteArray) (error : RuntimeError) (line : Int32),
      line.toInt = error.token.line.toInt + lines ∧
      record.reported first.sinks = before ++ utf8Reports [error.text] ∧
      record.reported second.sinks = before ++ utf8Reports [(error.onLine line).text])

theorem treeReports_append {session : Session} {program more lower : List Stmt} {lines : Nat}
    (h : Stmt.MatchesAll (Token.Below lines) more lower) :
    treeReports session (program ++ lower) =
      treeReports session program ++ treeReports session more := by
  unfold treeReports
  split
  · rw [List.map_append, h.map_render_eq (relatesAlike_below lines)]
  · rfl

theorem conclusion_eq_ok_iff {result : Except Stop Unit} :
    conclusion result = .ok .ok ↔ result = .ok () := by
  rcases result with ⟨error | failure | _⟩ | _ <;> simp [conclusion]

theorem conclusion_eq_outOfFuel_iff {result : Except Stop Unit} :
    conclusion result = .error .outOfFuel ↔ result = .error .outOfFuel := by
  rcases result with ⟨error | failure | _⟩ | _ <;> simp [conclusion]

/-- Only the report of an error of evaluation tells a line. -/
theorem stopReports_cases {lines : Nat} {result result' : Except Stop Unit}
    (h : ResultMatches (Stop.Matches (Token.Below lines)) result result') :
    (conclusion result ≠ .ok .runtimeError ∧ stopReports result = stopReports result') ∨
      (conclusion result = .ok .runtimeError ∧ ∃ (error : RuntimeError) (line : Int32),
        line.toInt = error.token.line.toInt + lines ∧ stopReports result = [error.text] ∧
        stopReports result' = [(error.onLine line).text]) := by
  cases h with
  | ok => exact .inl ⟨by simp [conclusion], rfl⟩
  | error hstop =>
      cases hstop with
      | @runtime error error' herror =>
          obtain ⟨line, hline, rfl⟩ := herror.exists_onLine
          exact .inr ⟨rfl, error, line, hline, rfl, rfl⟩
      | output | outOfFuel => exact .inl ⟨by simp [conclusion], rfl⟩

/-- If the programs of two runs have ended in the same way, and the same had been written, the
runs end in the same way. -/
theorem sameUpToLines_of_matches (record : Record σ) (session : Session) {lines : Nat}
    {done done' : Lox.Outcome σ Unit} {s t t' : σ} {output reports : ByteArray}
    (hresult : ResultMatches (Stop.Matches (Token.Below lines)) done.result done'.result)
    (henv : done.env = done'.env)
    (hwrites : record.Writes s output (reports ++ utf8Reports (stopReports done.result)) t)
    (hwrites' : record.Writes s output (reports ++ utf8Reports (stopReports done'.result)) t') :
    SameUpToLines record lines
      ⟨conclusion done.result,
        conclude { session with environment := done.env, hadError := false } done.result, t⟩
      ⟨conclusion done'.result,
        conclude { session with environment := done'.env, hadError := false } done'.result,
        t'⟩ := by
  refine ⟨conclusion_eq hresult, ?_, ?_, ?_⟩
  · rw [henv]
    exact conclude_eq _ hresult
  · exact hwrites.printed_eq.trans hwrites'.printed_eq.symm
  · have hreported := hwrites.reported_eq
    have hreported' := hwrites'.reported_eq
    rw [← ByteArray.append_assoc] at hreported hreported'
    rcases stopReports_cases hresult with ⟨hnot, hsame⟩ | ⟨hstop, error, line, hline, heq, heq'⟩
    · rw [hsame] at hreported
      exact .inl ⟨hnot, hreported.trans hreported'.symm⟩
    · rw [heq] at hreported
      rw [heq'] at hreported'
      exact .inr ⟨hstop, _, error, line, hline, hreported, hreported'⟩

/-- Running two sources one after another, or joined by a newline as one source, comes to the
same in the end: the result of the second, the session, and all that has been written, but for
the line in the report of an error, which is counted from the beginning of the first source. -/
theorem run_append (record : Recording streams) (session : Session) {s : σ}
    (hopen : record.IsOpen s) {first second : String} (hfirst : ¬ Mistaken first)
    (hsecond : ¬ Mistaken second) (hmark : second.toList.head? ≠ some '\uFEFF')
    (hlines : (first ++ "\n" ++ second).toList.count '\n' < 2 ^ 31 - 1) {m n fuel : Nat}
    (hm : m ≤ fuel) (hn : n ≤ fuel)
    (hok : (outcome (run streams m first) session s).result = .ok .ok)
    (hends : (outcome (run streams n second) (outcome (run streams m first) session s).session
      (outcome (run streams m first) session s).sinks).result ≠ .error .outOfFuel) :
    SameUpToLines record.toRecord (first.toList.count '\n' + 1)
      (outcome (run streams n second) (outcome (run streams m first) session s).session
        (outcome (run streams m first) session s).sinks)
      (outcome (run streams fuel (first ++ "\n" ++ second)) session s) := by
  obtain ⟨program, haccepted⟩ := not_mistaken_iff.1 hfirst
  obtain ⟨more, haccepted'⟩ := not_mistaken_iff.1 hsecond
  obtain ⟨lower, hjoined, hmatches⟩ := accepted_append haccepted haccepted' hmark hlines
  -- the first source comes through and has nothing to report
  obtain ⟨t, ⟨result, env, u⟩, v, hshown, hdone, hnothing, hrun⟩ :=
    run_of_accepted record m session haccepted hopen
  rw [hrun] at hok hends ⊢
  obtain rfl : result = .ok () := conclusion_eq_ok_iff.1 hok
  -- the second begins in the session that the first has left
  obtain ⟨t', done, v', hshown', hdone', hstop, hrun'⟩ :=
    run_of_accepted record n (conclude { session with environment := env, hadError := false }
      (.ok ())) haccepted' hnothing.isOpen
  rw [hrun'] at hends ⊢
  have hfuel : done.result ≠ .error .outOfFuel :=
    fun h => hends (conclusion_eq_outOfFuel_iff.2 h)
  -- both at once
  obtain ⟨t'', done', v'', hshown'', hdone'', hstop', hrun''⟩ :=
    run_of_accepted record fuel session hjoined hopen
  rw [hrun'']
  subst hdone' hdone''
  obtain ⟨output, output', hwrites, hwrites', hwrites'', hresult, henv⟩ :=
    Stmt.interpret_joined record (relatesAlike_below _) hmatches hm hn hdone hfuel hshown.isOpen
      hshown'.isOpen hshown''.isOpen
  have halone := (hshown.trans hwrites).trans hnothing
  have hapart := ((halone.trans hshown').trans hwrites').trans hstop
  have hatOnce := (hshown''.trans hwrites'').trans hstop'
  have htrees : utf8Reports (treeReports session (program ++ lower)) =
      utf8Reports (treeReports session program) ++ utf8Reports (treeReports session more) := by
    rw [treeReports_append hmatches, utf8Reports_append]
  rw [htrees] at hatOnce
  have hnone : utf8Reports (stopReports (.ok ())) = .empty := rfl
  simp only [hnone, ByteArray.empty_append, ByteArray.append_empty] at hapart hatOnce
  exact sameUpToLines_of_matches record.toRecord session hresult henv hapart hatOnce

/-! ### A declaration, and a name that is not declared -/

theorem pieces_semicolon : pieces [';'] = [.token (.symbol .semicolon) [';']] :=
  (pieces_cons ';' []).trans (congrArg _ pieces_nil)

theorem scan_declaration : scan "var x;" =
    ⟨[⟨.keyword .var, "var", 1⟩, ⟨.identifier "x", "x", 1⟩, ⟨.symbol .semicolon, ";", 1⟩,
      ⟨.endOfSource, "", 1⟩], []⟩ := by
  have hvar : pieces ['v', 'a', 'r', ' ', 'x', ';'] =
      .token (.keyword .var) ['v', 'a', 'r'] :: pieces [' ', 'x', ';'] := pieces_cons 'v' _
  have hblank : pieces [' ', 'x', ';'] = .blank ' ' :: pieces ['x', ';'] := pieces_cons ' ' _
  have hname : pieces ['x', ';'] = .token (.identifier "x") ['x'] :: pieces [';'] :=
    pieces_cons 'x' _
  rw [hblank, hname, pieces_semicolon] at hvar
  exact Scan.scan_of_pieces "var x;" hvar

theorem scan_name : scan "y;" =
    ⟨[⟨.identifier "y", "y", 1⟩, ⟨.symbol .semicolon, ";", 1⟩, ⟨.endOfSource, "", 1⟩], []⟩ := by
  have hname : pieces ['y', ';'] = .token (.identifier "y") ['y'] :: pieces [';'] :=
    pieces_cons 'y' _
  rw [pieces_semicolon] at hname
  exact Scan.scan_of_pieces "y;" hname

theorem accepted_declaration : Accepted "var x;" [.var ⟨.identifier "x", "x", 1⟩ none] := by
  constructor <;> rw [scan_declaration]
  rfl

theorem accepted_name : Accepted "y;" [.expression (.variable ⟨.identifier "y", "y", 1⟩)] := by
  constructor <;> rw [scan_name]
  rfl

/-- The environment of a session in which `x` has been declared. -/
def declared : Environment := Environment.empty.define "x" .nil

/-- The second of two lines stops at a name that is not declared. -/
theorem run_append_undeclared :
    (outcome (run Terminal.streams 0 "var x;") {} {}).result = .ok .ok ∧
      (outcome (run Terminal.streams 0 "y;") { environment := declared } {}).result =
        .ok .runtimeError ∧
      SameUpToLines Terminal.recording.toRecord 1
        (outcome (run Terminal.streams 0 "y;") { environment := declared } {})
        (outcome (run Terminal.streams 0 "var x;\ny;") {} {}) := by
  have hopen : Terminal.recording.IsOpen {} := ⟨rfl, rfl, rfl⟩
  have hfirst : outcome (run Terminal.streams 0 "var x;") {} {} =
      ⟨.ok .ok, { environment := declared }, {}⟩ :=
    (Ends.finished accepted_declaration rfl rfl).eq
  have hsecond : (outcome (run Terminal.streams 0 "y;") { environment := declared } {}).result =
      .ok .runtimeError := by
    obtain ⟨t, hreport, -⟩ := Terminal.recording.write_reports
      [RuntimeError.text ⟨.undefinedVariable, ⟨.identifier "y", "y", 1⟩⟩] hopen
    rw [(Ends.stopped accepted_name rfl rfl hreport).eq]
  have hjoined := run_append Terminal.recording {} hopen accepted_declaration.not_mistaken
    accepted_name.not_mistaken (by decide) (by decide) (Nat.le_refl 0) (Nat.le_refl 0)
    (by rw [hfirst]) (by rw [hfirst, hsecond]; simp)
  rw [hfirst] at hjoined
  exact ⟨by rw [hfirst], hsecond, hjoined⟩

end Session

end Lox
