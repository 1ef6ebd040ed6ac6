import Lox.Proofs.Execution.Matching
import Lox.Proofs.Session.Calls

/-!
# Runs over sinks that never fail

Over such sinks a run loses no report, so what comes of it follows from what comes of its
program (`run_of_accepted`), or it has no program and reports its mistakes (`run_of_mistaken`).
Either way a run depends on nothing that the sinks hold already: `run_eq_run` compares two runs
of a source that begin in the same session.
-/

namespace Lox.Session

variable {σ : Type} {streams : Streams (StateM σ)} {source : String} {program : List Stmt}

/-! ## What is reported -/

/-- All reports of the mistakes of a source, in order. -/
def mistakeReports (source : String) : List String := scanReports source ++ syntaxReports source

/-- The trees of a program, if the session shows them. -/
def treeReports (session : Session) (program : List Stmt) : List String :=
  if session.printTrees then program.map Stmt.render else []

/-- The report of the error at which a program has stopped. -/
def stopReports : Except Stop Unit → List String
  | .error (.runtime error) => [error.text]
  | _ => []

/-! ## What comes of a program -/

/-- The result of a run, by that of its program. -/
def conclusion : Except Stop Unit → Except Failure Status
  | .ok () => .ok .ok
  | .error (.runtime _) => .ok .runtimeError
  | .error (.output failure) => .error (.sink failure)
  | .error .outOfFuel => .error .outOfFuel

/-- The session once its program has ended so. -/
def conclude (session : Session) : Except Stop Unit → Session
  | .error (.runtime _) => { session with hadRuntimeError := true }
  | _ => session

section

variable {R : Token → Token → Prop} {result result' : Except Stop Unit}

theorem conclusion_eq (h : ResultMatches (Stop.Matches R) result result') :
    conclusion result = conclusion result' := by
  cases h with
  | ok => rfl
  | error hstop => cases hstop <;> rfl

theorem conclude_eq (session : Session) (h : ResultMatches (Stop.Matches R) result result') :
    session.conclude result = session.conclude result' := by
  cases h with
  | ok => rfl
  | error hstop => cases hstop <;> rfl

end

/-! ## One run -/

variable (record : Recording streams) {s : σ}

/-- A source with mistakes has them reported, and nothing else. -/
theorem run_of_mistaken (fuel : Nat) (session : Session) (hmistaken : Mistaken source)
    (hopen : record.IsOpen s) :
    ∃ t, outcome (run streams fuel source) session s =
        ⟨.ok .syntaxError, { session with hadError := true }, t⟩ ∧
      record.Writes s .empty (utf8Reports (mistakeReports source)) t := by
  obtain ⟨t, hscan, hfirst⟩ := record.write_reports (scanReports source) hopen
  obtain ⟨u, hgrammar, hsecond⟩ := record.write_reports (syntaxReports source) hfirst.isOpen
  refine ⟨u, (Ends.rejected hscan hmistaken hgrammar).eq, ?_⟩
  rw [mistakeReports, utf8Reports_append]
  exact hfirst.trans hsecond

theorem write_trees (session : Session) (program : List Stmt) (hopen : record.IsOpen s) :
    ∃ t, writeTrees streams session.printTrees program s = (.ok (), t) ∧
      record.Writes s .empty (utf8Reports (treeReports session program)) t := by
  unfold writeTrees treeReports
  split
  · exact record.write_reports _ hopen
  · exact ⟨s, rfl, .nothing hopen⟩

/-- Whatever open sinks hold already, the same comes of a program. -/
theorem execution_matches (fuel : Nat) (program : List Stmt) (session : Session) {s s' : σ}
    (hopen : record.IsOpen s) (hopen' : record.IsOpen s') :
    (execution streams fuel program session s).Matches record.toRecord
      (fun token token' => token = token') s s' (execution streams fuel program session s') := by
  have hself := Stmt.matchesAll_self (fun token => rfl) program
  exact hself.interpret record fuel relatesAlike_eq session.environment hopen hopen'

/-- If a program has stopped at an error, that is reported. -/
theorem settle_writes (result : Except Stop Unit) (session : Session) (hopen : record.IsOpen s) :
    ∃ t, outcome (settle streams result) session s =
        ⟨conclusion result, session.conclude result, t⟩ ∧
      record.Writes s .empty (utf8Reports (stopReports result)) t := by
  obtain ⟨t, hreport, hwrites⟩ := record.write_reports (stopReports result) hopen
  refine ⟨t, ?_, hwrites⟩
  rw [outcome_settle]
  rcases result with ⟨error | failure | _⟩ | _
  · have hline : streams.diagnostics.writeLines [error.text] s = (.ok (), t) := hreport
    dsimp only
    rw [hline]
    rfl
  all_goals
    cases hreport
    rfl

/-- An accepted source shows its trees, runs, and reports the error at which it stops. -/
theorem run_of_accepted (fuel : Nat) (session : Session) (haccepted : Accepted source program)
    (hopen : record.IsOpen s) :
    ∃ t done u, record.Writes s .empty (utf8Reports (treeReports session program)) t ∧
      execution streams fuel program session t = done ∧
      record.Writes done.sink .empty (utf8Reports (stopReports done.result)) u ∧
      outcome (run streams fuel source) session s =
        ⟨conclusion done.result,
          conclude { session with environment := done.env, hadError := false } done.result, u⟩ := by
  obtain ⟨t, htrees, hshown⟩ := write_trees record session program hopen
  obtain ⟨-, -, output, hprinted, -⟩ :=
    execution_matches record fuel program session hshown.isOpen hshown.isOpen
  obtain ⟨u, hsettle, hstop⟩ := settle_writes record
    (execution streams fuel program session t).result
    { session with
      environment := (execution streams fuel program session t).env, hadError := false }
    hprinted.isOpen
  exact ⟨t, _, u, hshown, rfl, hstop, (outcome_run_of_execution haccepted htrees).trans hsettle⟩

/-- Two runs of a source that begin in the same session come to the same and write the same,
whatever the sinks hold already. -/
theorem run_eq_run (fuel : Nat) (source : String) (session : Session) {s s' : σ}
    (hopen : record.IsOpen s) (hopen' : record.IsOpen s') :
    (outcome (run streams fuel source) session s).result =
        (outcome (run streams fuel source) session s').result ∧
      (outcome (run streams fuel source) session s).session =
        (outcome (run streams fuel source) session s').session ∧
      ∃ output diagnostics,
        record.Writes s output diagnostics (outcome (run streams fuel source) session s).sinks ∧
        record.Writes s' output diagnostics
          (outcome (run streams fuel source) session s').sinks := by
  rcases mistaken_or_accepted source with hmistaken | ⟨program, haccepted⟩
  · obtain ⟨t, hrun, hwrites⟩ := run_of_mistaken record fuel session hmistaken hopen
    obtain ⟨t', hrun', hwrites'⟩ := run_of_mistaken record fuel session hmistaken hopen'
    rw [hrun, hrun']
    exact ⟨rfl, rfl, _, _, hwrites, hwrites'⟩
  · obtain ⟨t, done, u, hshown, hdone, hstop, hrun⟩ :=
      run_of_accepted record fuel session haccepted hopen
    obtain ⟨t', done', u', hshown', hdone', hstop', hrun'⟩ :=
      run_of_accepted record fuel session haccepted hopen'
    obtain ⟨hresult, henv, output, hprinted, hprinted'⟩ :=
      execution_matches record fuel program session hshown.isOpen hshown'.isOpen
    have heq := hresult.eq_of_eq
    rw [hdone] at heq henv hprinted
    rw [hdone'] at heq henv hprinted'
    rw [hrun, hrun', heq, henv]
    refine ⟨rfl, rfl, _, _, (hshown.trans hprinted).trans hstop, ?_⟩
    rw [heq]
    exact (hshown'.trans hprinted').trans hstop'

end Lox.Session
