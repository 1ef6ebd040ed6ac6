import Lox.Proofs.Session.Run

/-!
# How a run ends

A source has mistakes, or it is accepted and has a program (`mistaken_or_accepted`).  `Ends`
lists all the ways in which a run of a source can end, whatever the sinks do: with what
result, in which session, and with the sinks in which state.  It is the interface of `run`:
nothing that is proved of runs by it opens the definition again.
-/

namespace Lox

namespace Session

/-! ## Sources -/

/-- The source has an error of the scan or of the grammar. -/
def Mistaken (source : String) : Prop :=
  (scan source).errors ≠ [] ∨ ∃ errors, parse (scan source).tokens = .error errors

/-- The source has no mistake, and this is its program. -/
structure Accepted (source : String) (program : List Stmt) : Prop where
  errors_eq_nil : (scan source).errors = []
  parse_eq_ok : parse (scan source).tokens = .ok program

/-- The reports of the errors of the scan, in order. -/
def scanReports (source : String) : List String := (scan source).errors.map ScanError.text

/-- The reports of the errors of the grammar, in order. -/
def syntaxReports (source : String) : List String :=
  match parse (scan source).tokens with
  | .ok _ => []
  | .error errors => errors.map SyntaxError.text

variable {source : String} {program : List Stmt}

theorem Accepted.not_mistaken (h : Accepted source program) : ¬ Mistaken source := by
  rintro (herrors | ⟨errors, herror⟩)
  · exact herrors h.errors_eq_nil
  · rw [h.parse_eq_ok] at herror
    cases herror

instance : DecidablePred Mistaken := fun source =>
  match hparse : parse (scan source).tokens with
  | .error errors => .isTrue (.inr ⟨errors, hparse⟩)
  | .ok _ =>
      if herrors : (scan source).errors = [] then
        .isFalse (Accepted.not_mistaken ⟨herrors, hparse⟩)
      else .isTrue (.inl herrors)

theorem mistaken_or_accepted (source : String) :
    Mistaken source ∨ ∃ program, Accepted source program := by
  cases hparse : parse (scan source).tokens with
  | error errors => exact .inl (.inr ⟨errors, hparse⟩)
  | ok program =>
      by_cases herrors : (scan source).errors = []
      · exact .inr ⟨program, herrors, hparse⟩
      · exact .inl (.inl herrors)

theorem not_mistaken_iff : ¬ Mistaken source ↔ ∃ program, Accepted source program := by
  constructor
  · exact (mistaken_or_accepted source).resolve_left
  · rintro ⟨program, haccepted⟩
    exact haccepted.not_mistaken

theorem Accepted.scanReports_eq (h : Accepted source program) : scanReports source = [] := by
  rw [scanReports, h.errors_eq_nil, List.map_nil]

theorem syntaxReports_of_error {errors : List SyntaxError}
    (h : parse (scan source).tokens = .error errors) :
    syntaxReports source = errors.map SyntaxError.text := by
  rw [syntaxReports, h]

theorem syntaxReports_of_ok (h : parse (scan source).tokens = .ok program) :
    syntaxReports source = [] := by
  rw [syntaxReports, h]

/-! ## Runs -/

variable {σ : Type}

/-- Writes the trees of a program, if the session shows them. -/
def writeTrees (streams : Streams (StateM σ)) (printTrees : Bool) (program : List Stmt) :
    ExceptT SinkError (StateM σ) Unit :=
  if printTrees then streams.diagnostics.writeLines (program.map Stmt.render) else pure ()

/-- What comes of executing a program in a session, without its trees. -/
abbrev execution (streams : Streams (StateM σ)) (fuel : Nat) (program : List Stmt)
    (session : Session) (s : σ) : Lox.Outcome σ Unit :=
  Exec.outcome (Stmt.interpret streams.output fuel program) session.environment s

/-- How a run of a source can end: its result, the session after it, and the sinks. -/
inductive Ends (streams : Streams (StateM σ)) (fuel : Nat) (source : String) (session : Session)
    (s : σ) : Outcome σ Status → Prop
  /-- A report of the scan is lost, and nothing is known yet. -/
  | scanLost {failure : SinkError} {t : σ} :
      streams.diagnostics.writeLines (scanReports source) s = (.error failure, t) →
        Ends streams fuel source session s
          ⟨.error (.sink failure), { session with hadError := false }, t⟩
  /-- A report of the grammar is lost, and only the errors of the scan are known. -/
  | syntaxLost {errors : List SyntaxError} {failure : SinkError} {t u : σ} :
      streams.diagnostics.writeLines (scanReports source) s = (.ok (), t) →
        parse (scan source).tokens = .error errors →
        streams.diagnostics.writeLines (syntaxReports source) t = (.error failure, u) →
        Ends streams fuel source session s
          ⟨.error (.sink failure), { session with hadError := !(scan source).errors.isEmpty }, u⟩
  | rejected {t u : σ} :
      streams.diagnostics.writeLines (scanReports source) s = (.ok (), t) → Mistaken source →
        streams.diagnostics.writeLines (syntaxReports source) t = (.ok (), u) →
        Ends streams fuel source session s
          ⟨.ok .syntaxError, { session with hadError := true }, u⟩
  | treesLost {program : List Stmt} {failure : SinkError} {t : σ} :
      Accepted source program →
        writeTrees streams session.printTrees program s = (.error failure, t) →
        Ends streams fuel source session s
          ⟨.error (.sink failure), { session with hadError := false }, t⟩
  | finished {program : List Stmt} {env : Environment} {t u : σ} :
      Accepted source program → writeTrees streams session.printTrees program s = (.ok (), t) →
        execution streams fuel program session t = ⟨.ok (), env, u⟩ →
        Ends streams fuel source session s
          ⟨.ok .ok, { session with environment := env, hadError := false }, u⟩
  | stopped {program : List Stmt} {error : RuntimeError} {env : Environment} {t u v : σ} :
      Accepted source program → writeTrees streams session.printTrees program s = (.ok (), t) →
        execution streams fuel program session t = ⟨.error (.runtime error), env, u⟩ →
        streams.diagnostics.writeLines [error.text] u = (.ok (), v) →
        Ends streams fuel source session s
          ⟨.ok .runtimeError,
            { session with environment := env, hadError := false, hadRuntimeError := true }, v⟩
  /-- The report of an error of evaluation is lost, and nobody knows of the error. -/
  | stopLost {program : List Stmt} {error : RuntimeError} {env : Environment} {failure : SinkError}
      {t u v : σ} :
      Accepted source program → writeTrees streams session.printTrees program s = (.ok (), t) →
        execution streams fuel program session t = ⟨.error (.runtime error), env, u⟩ →
        streams.diagnostics.writeLines [error.text] u = (.error failure, v) →
        Ends streams fuel source session s
          ⟨.error (.sink failure), { session with environment := env, hadError := false }, v⟩
  | outputLost {program : List Stmt} {env : Environment} {failure : SinkError} {t u : σ} :
      Accepted source program → writeTrees streams session.printTrees program s = (.ok (), t) →
        execution streams fuel program session t = ⟨.error (.output failure), env, u⟩ →
        Ends streams fuel source session s
          ⟨.error (.sink failure), { session with environment := env, hadError := false }, u⟩
  | outOfFuel {program : List Stmt} {env : Environment} {t u : σ} :
      Accepted source program → writeTrees streams session.printTrees program s = (.ok (), t) →
        execution streams fuel program session t = ⟨.error .outOfFuel, env, u⟩ →
        Ends streams fuel source session s
          ⟨.error .outOfFuel, { session with environment := env, hadError := false }, u⟩

/-! ## Every run ends in one of these ways -/

variable {session : Session} {s : σ} {streams : Streams (StateM σ)} {fuel : Nat}
  {result : Outcome σ Status}

/-- What a run does once its program has been executed. -/
def settle (streams : Streams (StateM σ)) : Except Stop Unit → Run (StateM σ) Status
  | .ok () => pure .ok
  | .error (.runtime error) => do
      writeLines streams.diagnostics [error.text]
      modify fun session => { session with hadRuntimeError := true }
      return .runtimeError
  | .error (.output error) => throw (.sink error)
  | .error .outOfFuel => throw .outOfFuel

/-- What a run does once its source has been accepted. -/
def perform (streams : Streams (StateM σ)) (fuel : Nat) (program : List Stmt) :
    Run (StateM σ) Status := do
  if (← get).printTrees then
    writeLines streams.diagnostics (program.map Stmt.render)
  let result ← interpret streams.output fuel program
  settle streams result

theorem outcome_settle (result : Except Stop Unit) :
    outcome (settle streams result) session s = match result with
      | .ok () => ⟨.ok .ok, session, s⟩
      | .error (.runtime error) =>
          match streams.diagnostics.writeLines [error.text] s with
          | (.ok (), t) => ⟨.ok .runtimeError, { session with hadRuntimeError := true }, t⟩
          | (.error failure, t) => ⟨.error (.sink failure), session, t⟩
      | .error (.output failure) => ⟨.error (.sink failure), session, s⟩
      | .error .outOfFuel => ⟨.error .outOfFuel, session, s⟩ := by
  rcases result with ⟨error | failure | _⟩ | _
  · simp only [settle, outcome_bind, outcome_writeLines]
    rcases streams.diagnostics.writeLines [error.text] s with ⟨_ | _, t⟩ <;> rfl
  · rfl
  · rfl
  · rfl

theorem outcome_perform :
    outcome (perform streams fuel program) session s =
      match writeTrees streams session.printTrees program s with
      | (.error failure, t) => ⟨.error (.sink failure), session, t⟩
      | (.ok (), t) =>
          outcome (settle streams (execution streams fuel program session t).result)
            { session with environment := (execution streams fuel program session t).env }
            (execution streams fuel program session t).sink := by
  unfold perform writeTrees
  rw [outcome_bind, outcome_get]
  dsimp only
  split
  · rw [outcome_bind, outcome_writeLines]
    rcases streams.diagnostics.writeLines (program.map Stmt.render) s with ⟨_ | _, t⟩
    · rfl
    · dsimp only
      rw [outcome_bind, outcome_interpret]
  · rw [outcome_bind, outcome_interpret]
    rfl

theorem outcome_run :
    outcome (run streams fuel source) session s =
      match streams.diagnostics.writeLines (scanReports source) s with
      | (.error failure, t) => ⟨.error (.sink failure), { session with hadError := false }, t⟩
      | (.ok (), t) =>
          match parse (scan source).tokens with
          | .error _ =>
              match streams.diagnostics.writeLines (syntaxReports source) t with
              | (.error failure, u) =>
                  ⟨.error (.sink failure),
                    { session with hadError := !(scan source).errors.isEmpty }, u⟩
              | (.ok (), u) => ⟨.ok .syntaxError, { session with hadError := true }, u⟩
          | .ok program =>
              if (scan source).errors = [] then
                outcome (perform streams fuel program) { session with hadError := false } t
              else ⟨.ok .syntaxError, { session with hadError := true }, t⟩ := by
  unfold run scanReports
  rw [outcome_bind, outcome_modify]
  dsimp only
  rw [outcome_bind, outcome_writeLines]
  rcases streams.diagnostics.writeLines ((scan source).errors.map ScanError.text) s
    with ⟨failure | _, t⟩
  · rfl
  dsimp only
  rw [outcome_bind, outcome_modify]
  dsimp only
  cases hparse : parse (scan source).tokens with
  | error errors =>
      dsimp only
      rw [outcome_bind, outcome_writeLines, syntaxReports_of_error hparse]
      rcases streams.diagnostics.writeLines (errors.map SyntaxError.text) t with ⟨_ | _, u⟩ <;> rfl
  | ok program =>
      cases herrors : (scan source).errors with
      | nil => rfl
      | cons error others => rfl

private theorem ends_perform (haccepted : Accepted source program) :
    Ends streams fuel source session s
      (outcome (perform streams fuel program) { session with hadError := false } s) := by
  rw [outcome_perform]
  dsimp only
  rcases htrees : writeTrees streams session.printTrees program s with ⟨failure | _, t⟩
  · exact .treesLost haccepted htrees
  · dsimp only
    show Ends _ _ _ _ _ (outcome (settle streams (execution streams fuel program session t).result)
      { session with
        environment := (execution streams fuel program session t).env, hadError := false }
      (execution streams fuel program session t).sink)
    rcases hexecution : execution streams fuel program session t
      with ⟨⟨error | failure | _⟩ | _, env, u⟩
    · rw [outcome_settle]
      dsimp only
      rcases hreport : streams.diagnostics.writeLines [error.text] u with ⟨failure | _, v⟩
      · exact .stopLost haccepted htrees hexecution hreport
      · exact .stopped haccepted htrees hexecution hreport
    · exact .outputLost haccepted htrees hexecution
    · exact .outOfFuel haccepted htrees hexecution
    · exact .finished haccepted htrees hexecution

/-- A run ends in one of the ways that are listed. -/
theorem ends_run (streams : Streams (StateM σ)) (fuel : Nat) (source : String) (session : Session)
    (s : σ) : Ends streams fuel source session s (outcome (run streams fuel source) session s) := by
  rw [outcome_run]
  rcases hscan : streams.diagnostics.writeLines (scanReports source) s with ⟨failure | _, t⟩
  · exact .scanLost hscan
  dsimp only
  cases hparse : parse (scan source).tokens with
  | error errors =>
      dsimp only
      rcases hgrammar : streams.diagnostics.writeLines (syntaxReports source) t
        with ⟨failure | _, u⟩
      · exact .syntaxLost hscan hparse hgrammar
      · exact .rejected hscan (.inr ⟨errors, hparse⟩) hgrammar
  | ok program =>
      dsimp only
      split
      · rename_i herrors
        have haccepted : Accepted source program := ⟨herrors, hparse⟩
        rw [haccepted.scanReports_eq] at hscan
        cases hscan
        exact ends_perform haccepted
      · rename_i herrors
        have hnone : streams.diagnostics.writeLines (syntaxReports source) t = (.ok (), t) := by
          rw [syntaxReports_of_ok hparse]
          rfl
        exact .rejected hscan (.inl herrors) hnone

private theorem outcome_run_of_accepted (h : Accepted source program) :
    outcome (run streams fuel source) session s =
      outcome (perform streams fuel program) { session with hadError := false } s := by
  rw [outcome_run, h.scanReports_eq, h.parse_eq_ok]
  exact if_pos h.errors_eq_nil

theorem outcome_run_of_execution {t : σ} (h : Accepted source program)
    (htrees : writeTrees streams session.printTrees program s = (.ok (), t)) :
    outcome (run streams fuel source) session s =
      outcome (settle streams (execution streams fuel program session t).result)
        { session with
          environment := (execution streams fuel program session t).env, hadError := false }
        (execution streams fuel program session t).sink := by
  rw [outcome_run_of_accepted h, outcome_perform, htrees]

/-- What a run can end in, it ends in. -/
theorem Ends.eq (h : Ends streams fuel source session s result) :
    outcome (run streams fuel source) session s = result := by
  cases h with
  | scanLost hscan => rw [outcome_run, hscan]
  | syntaxLost hscan hparse hgrammar =>
      rw [outcome_run, hscan, hparse]
      dsimp only
      rw [hgrammar]
  | rejected hscan hmistaken hgrammar =>
      rw [outcome_run, hscan]
      dsimp only
      cases hparse : parse (scan source).tokens with
      | error errors =>
          dsimp only
          rw [hgrammar]
      | ok program =>
          have herrors : (scan source).errors ≠ [] :=
            hmistaken.resolve_right (by simp [hparse])
          rw [syntaxReports_of_ok hparse] at hgrammar
          cases hgrammar
          exact if_neg herrors
  | treesLost haccepted htrees => rw [outcome_run_of_accepted haccepted, outcome_perform, htrees]
  | finished haccepted htrees hexecution =>
      rw [outcome_run_of_execution haccepted htrees, hexecution, outcome_settle]
  | stopped haccepted htrees hexecution hreport =>
      rw [outcome_run_of_execution haccepted htrees, hexecution, outcome_settle]
      dsimp only
      rw [hreport]
  | stopLost haccepted htrees hexecution hreport =>
      rw [outcome_run_of_execution haccepted htrees, hexecution, outcome_settle]
      dsimp only
      rw [hreport]
  | outputLost haccepted htrees hexecution =>
      rw [outcome_run_of_execution haccepted htrees, hexecution, outcome_settle]
  | outOfFuel haccepted htrees hexecution =>
      rw [outcome_run_of_execution haccepted htrees, hexecution, outcome_settle]

end Session

end Lox
