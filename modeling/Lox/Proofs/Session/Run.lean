import Lox.Proofs.Execution.FrameLaw
import Lox.Session

/-!
# The runs of a session

`Session.outcome` is what comes of a run: its result, the session after it and the state of
the sinks, which share one machine.  A run changes the variables of its session only by
interpreting a program, so the frame law holds of it, and a session is always back at its
globals after a run.
-/

namespace Lox

namespace Session

variable {α β σ : Type}

/-- What comes of a run over sinks with states in `σ`. -/
structure Outcome (σ α : Type) where
  result : Except Failure α
  session : Session
  sinks : σ

/-- What comes of a run. -/
def outcome (run : Run (StateM σ) α) (session : Session) (s : σ) : Outcome σ α :=
  ⟨(run session s).1.1, (run session s).1.2, (run session s).2⟩

variable {session : Session} {s : σ} {first : Run (StateM σ) α} {next : α → Run (StateM σ) β}

@[simp] theorem outcome_pure (a : α) :
    outcome (pure a : Run (StateM σ) α) session s = ⟨.ok a, session, s⟩ := rfl

@[simp] theorem outcome_throw (failure : Failure) :
    outcome (throw failure : Run (StateM σ) α) session s = ⟨.error failure, session, s⟩ := rfl

@[simp] theorem outcome_get :
    outcome (get : Run (StateM σ) Session) session s = ⟨.ok session, session, s⟩ := rfl

@[simp] theorem outcome_modify (f : Session → Session) :
    outcome (modify f : Run (StateM σ) PUnit) session s = ⟨.ok ⟨⟩, f session, s⟩ := rfl

theorem outcome_bind : outcome (first >>= next) session s = match outcome first session s with
    | ⟨.ok a, mid, t⟩ => outcome (next a) mid t
    | ⟨.error failure, mid, t⟩ => ⟨.error failure, mid, t⟩ := by
  unfold outcome
  simp only [bind, ExceptT.bind, ExceptT.mk, StateT.bind, ExceptT.bindCont]
  rcases first session s with ⟨⟨_ | _, _⟩, _⟩ <;> rfl

theorem outcome_writeLines (sink : Sink (StateM σ)) (lines : List String) :
    outcome (writeLines sink lines) session s = match (sink.writeLines lines) s with
      | (.ok (), t) => ⟨.ok (), session, t⟩
      | (.error error, t) => ⟨.error (.sink error), session, t⟩ := by
  unfold outcome writeLines
  simp only [bind, StateT.bind, ExceptT.run]
  rcases sink.writeLines lines s with ⟨_ | _, _⟩ <;> rfl

theorem outcome_interpret (sink : Sink (StateM σ)) (fuel : Nat) (program : List Stmt) :
    outcome (interpret sink fuel program) session s =
      ⟨.ok (Exec.outcome (Stmt.interpret sink fuel program) session.environment s).result,
        { session with environment :=
            (Exec.outcome (Stmt.interpret sink fuel program) session.environment s).env },
        (Exec.outcome (Stmt.interpret sink fuel program) session.environment s).sink⟩ := rfl

/-! ## The depth of a session -/

/-- However it ends, the run leaves as many frames as there were. -/
def KeepsDepth (run : Run (StateM σ) α) : Prop :=
  ∀ (session : Session) (s : σ),
    (outcome run session s).session.environment.depth = session.environment.depth

theorem keepsDepth_pure (a : α) : KeepsDepth (pure a : Run (StateM σ) α) := fun _ _ => rfl

theorem keepsDepth_throw (failure : Failure) : KeepsDepth (throw failure : Run (StateM σ) α) :=
  fun _ _ => rfl

theorem keepsDepth_get : KeepsDepth (get : Run (StateM σ) Session) := fun _ _ => rfl

theorem keepsDepth_modify {f : Session → Session}
    (h : ∀ session, (f session).environment = session.environment) :
    KeepsDepth (modify f : Run (StateM σ) PUnit) :=
  fun session _ => congrArg Environment.depth (h session)

theorem keepsDepth_bind (hfirst : KeepsDepth first) (hnext : ∀ a, KeepsDepth (next a)) :
    KeepsDepth (first >>= next) := by
  intro session s
  have h := hfirst session s
  rw [outcome_bind]
  generalize outcome first session s = result at h
  rcases result with ⟨failure | a, mid, t⟩
  · exact h
  · exact (hnext a mid t).trans h

theorem keepsDepth_writeLines (sink : Sink (StateM σ)) (lines : List String) :
    KeepsDepth (writeLines sink lines) := by
  intro session s
  rw [outcome_writeLines]
  rcases sink.writeLines lines s with ⟨error | _, t⟩ <;> rfl

theorem keepsDepth_interpret (sink : Sink (StateM σ)) (fuel : Nat) (program : List Stmt) :
    KeepsDepth (interpret sink fuel program) := by
  intro session s
  rw [outcome_interpret]
  exact (Stmt.keeps_interpret sink fuel program session.environment s).depth_eq

/-- A run ends with the status of its program, after a report if there is an error. -/
private theorem keepsDepth_report (streams : Streams (StateM σ)) (result : Except Stop Unit) :
    KeepsDepth (match result with
      | .ok () => pure .ok
      | .error (.runtime error) => do
          writeLines streams.diagnostics [error.text]
          modify fun session => { session with hadRuntimeError := true }
          return .runtimeError
      | .error (.output error) => throw (.sink error)
      | .error .outOfFuel => throw .outOfFuel : Run (StateM σ) Status) := by
  split
  · exact keepsDepth_pure _
  · refine keepsDepth_bind (keepsDepth_writeLines _ _) fun _ => ?_
    exact keepsDepth_bind (keepsDepth_modify fun _ => rfl) fun _ => keepsDepth_pure _
  · exact keepsDepth_throw _
  · exact keepsDepth_throw _

theorem keepsDepth_run (streams : Streams (StateM σ)) (fuel : Nat) (source : String) :
    KeepsDepth (run streams fuel source) := by
  refine keepsDepth_bind (keepsDepth_modify fun _ => rfl) fun _ => ?_
  refine keepsDepth_bind (keepsDepth_writeLines _ _) fun _ => ?_
  refine keepsDepth_bind (keepsDepth_modify fun _ => rfl) fun _ => ?_
  -- only what has been accepted is interpreted, with its trees printed first or not
  split
  · refine keepsDepth_bind (keepsDepth_writeLines _ _) fun _ => ?_
    exact keepsDepth_bind (keepsDepth_modify fun _ => rfl) fun _ => keepsDepth_pure _
  · split
    · exact keepsDepth_pure _
    refine keepsDepth_bind keepsDepth_get fun session => ?_
    split
    · refine keepsDepth_bind (keepsDepth_writeLines _ _) fun _ => ?_
      exact keepsDepth_bind (keepsDepth_interpret _ _ _) (keepsDepth_report streams)
    · exact keepsDepth_bind (keepsDepth_interpret _ _ _) (keepsDepth_report streams)

/-- The session after sources have been run in it, each with its fuel and whatever came of
those before. -/
def after (streams : Streams (StateM σ)) (session : Session) (s : σ) : List (Nat × String) → Session
  | [] => session
  | (fuel, source) :: rest =>
      after streams (outcome (run streams fuel source) session s).session
        (outcome (run streams fuel source) session s).sinks rest

/-- What every run keeps, any number of runs keep. -/
theorem depth_after (streams : Streams (StateM σ)) (runs : List (Nat × String)) (session : Session)
    (s : σ) : (after streams session s runs).environment.depth = session.environment.depth := by
  induction runs generalizing session s with
  | nil => rfl
  | cons run rest ih =>
      obtain ⟨fuel, source⟩ := run
      unfold after
      rw [ih, keepsDepth_run streams fuel source session s]

end Session

open Exec Stmt in
/-- The frame law holds of every tree, every environment, every sink and every end that an
execution may come to, and a session has one frame after any runs. -/
theorem frame_law {σ : Type} (streams : Streams (StateM σ)) (fuel : Nat) (stmt : Stmt)
    (body : List Stmt) (env : Environment) (s : σ) (printTrees : Bool) (runs : List (Nat × String)) :
    FrameLaw stmt.declares stmt.assigns env (outcome (execute streams.output fuel stmt) env s).env ∧
      FrameLaw (declaresAll body) (assignsAll body) env
        (outcome (executeAll streams.output fuel body) env s).env ∧
      FrameLaw ∅ (assignsAll body) env (outcome (executeBlock streams.output fuel body) env s).env ∧
      FrameLaw (declaresAll body) (assignsAll body) env
        (outcome (interpret streams.output fuel body) env s).env ∧
      (Session.after streams { printTrees := printTrees } s runs).environment.depth = 1 := by
  refine ⟨(keeps_execute _ _ _ env s).frameLaw, (keeps_executeAll _ _ _ env s).frameLaw,
    (keeps_executeBlock _ _ _ env s).frameLaw, (keeps_interpret _ _ _ env s).frameLaw, ?_⟩
  rw [Session.depth_after]
  rfl

end Lox
