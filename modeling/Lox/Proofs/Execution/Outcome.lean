import Lox.Execution

/-!
# What comes of a run

`outcome` is what a run amounts to: its result, the environment that it leaves, and, if it
writes, the state of the sink.  A sink is any machine with a state, so it may fail at any
text.  Each way of building a run has one lemma that tells its outcome.
-/

namespace Lox

variable {α β σ : Type} {env : Environment}

/-! ## Evaluations -/

namespace Eval

/-- The result of an evaluation, and the environment that it leaves. -/
def outcome (eval : Eval α) (env : Environment) : Except RuntimeError α × Environment :=
  Id.run (eval env)

variable {eval : Eval α} {next : α → Eval β}

@[simp] theorem outcome_pure (a : α) : outcome (pure a) env = (.ok a, env) := rfl

@[simp] theorem outcome_throw (error : RuntimeError) :
    outcome (throw error : Eval α) env = (.error error, env) := rfl

@[simp] theorem outcome_ofExcept (result : Except RuntimeError α) :
    outcome (ofExcept result) env = (result, env) := by
  cases result <;> rfl

@[simp] theorem outcome_get : outcome (get : Eval Environment) env = (.ok env, env) := rfl

@[simp] theorem outcome_set (after : Environment) :
    outcome (set after : Eval PUnit) env = (.ok ⟨⟩, after) := rfl

/-- One evaluation after another. -/
theorem outcome_bind : outcome (eval >>= next) env = match outcome eval env with
    | (.ok a, mid) => outcome (next a) mid
    | (.error error, mid) => (.error error, mid) := by
  unfold outcome Id.run
  simp only [bind, ExceptT.bind, ExceptT.mk, StateT.bind, ExceptT.bindCont]
  rcases eval env with ⟨_ | _, _⟩ <;> rfl

/-- Two evaluations end in an error if the first does, or if it does not and the second does. -/
theorem outcome_bind_eq_error_iff {error : RuntimeError} :
    (outcome (eval >>= next) env).1 = .error error ↔
      (outcome eval env).1 = .error error ∨
        ∃ a mid, outcome eval env = (.ok a, mid) ∧ (outcome (next a) mid).1 = .error error := by
  rw [outcome_bind]
  generalize outcome eval env = first
  rcases first with ⟨found | a, mid⟩
  · simp
  · constructor
    · exact fun h => .inr ⟨a, mid, rfl, h⟩
    · rintro (h | ⟨_, _, ⟨⟩, h⟩)
      · cases h
      · exact h

end Eval

namespace Expr

theorem outcome_variable (name : Token) :
    Eval.outcome (Expr.variable name).eval env = (env.get name, env) := by
  have hbind : Eval.outcome (Expr.variable name).eval env = _ := Eval.outcome_bind
  rw [hbind, Eval.outcome_get]
  exact Eval.outcome_ofExcept _

/-- A name is assigned to once the value is there. -/
theorem outcome_assign (name : Token) (expr : Expr) :
    Eval.outcome (assign name expr).eval env = match Eval.outcome expr.eval env with
      | (.ok value, mid) =>
          match mid.set name value with
          | .ok after => (.ok value, after)
          | .error error => (.error error, mid)
      | (.error error, mid) => (.error error, mid) := by
  have hbind : Eval.outcome (assign name expr).eval env = _ := Eval.outcome_bind
  rw [hbind]
  rcases Eval.outcome expr.eval env with ⟨error | value, mid⟩
  · rfl
  · dsimp only
    rw [Eval.outcome_bind, Eval.outcome_get]
    show Eval.outcome (ofExcept (mid.set name value) >>= _) mid = _
    rw [Eval.outcome_bind, Eval.outcome_ofExcept]
    cases mid.set name value with
    | error error => rfl
    | ok after =>
        show Eval.outcome (set after >>= _) mid = _
        rw [Eval.outcome_bind, Eval.outcome_set]
        rfl

end Expr

/-! ## Executions -/

/-- What comes of an execution over a sink with states in `σ`. -/
structure Outcome (σ α : Type) where
  result : Except Stop α
  env : Environment
  sink : σ

namespace Exec

/-- What comes of an execution. -/
def outcome (exec : Exec (StateM σ) α) (env : Environment) (s : σ) : Outcome σ α :=
  ⟨(exec env s).1.1, (exec env s).1.2, (exec env s).2⟩

variable {s : σ} {exec : Exec (StateM σ) α} {next : α → Exec (StateM σ) β}

/-- An execution is what comes of it. -/
theorem ext_outcome {exec' : Exec (StateM σ) α}
    (h : ∀ (env : Environment) (s : σ), outcome exec env s = outcome exec' env s) :
    exec = exec' := by
  funext env s
  obtain ⟨hresult, henv, hsink⟩ := Outcome.mk.inj (h env s)
  exact Prod.ext (Prod.ext hresult henv) hsink

@[simp] theorem outcome_pure (a : α) :
    outcome (pure a : Exec (StateM σ) α) env s = ⟨.ok a, env, s⟩ := rfl

@[simp] theorem outcome_throw (stop : Stop) :
    outcome (throw stop : Exec (StateM σ) α) env s = ⟨.error stop, env, s⟩ := rfl

@[simp] theorem outcome_modify (f : Environment → Environment) :
    outcome (modify f : Exec (StateM σ) PUnit) env s = ⟨.ok ⟨⟩, f env, s⟩ := rfl

/-- One execution after another. -/
theorem outcome_bind : outcome (exec >>= next) env s = match outcome exec env s with
    | ⟨.ok a, mid, t⟩ => outcome (next a) mid t
    | ⟨.error stop, mid, t⟩ => ⟨.error stop, mid, t⟩ := by
  unfold outcome
  simp only [bind, ExceptT.bind, ExceptT.mk, StateT.bind, ExceptT.bindCont]
  rcases exec env s with ⟨⟨_ | _, _⟩, _⟩ <;> rfl

/-- Two executions stop if the first does, or if it does not and the second does. -/
theorem outcome_bind_eq_error_iff {stop : Stop} :
    (outcome (exec >>= next) env s).result = .error stop ↔
      (outcome exec env s).result = .error stop ∨
        ∃ a mid t, outcome exec env s = ⟨.ok a, mid, t⟩ ∧
          (outcome (next a) mid t).result = .error stop := by
  rw [outcome_bind]
  generalize outcome exec env s = first
  rcases first with ⟨found | a, mid, t⟩
  · simp
  · constructor
    · exact fun h => .inr ⟨a, mid, t, rfl, h⟩
    · rintro (h | ⟨_, _, _, ⟨⟩, h⟩)
      · cases h
      · exact h

theorem outcome_bind_eq_ok_iff {b : β} {after : Environment} {t : σ} :
    outcome (exec >>= next) env s = ⟨.ok b, after, t⟩ ↔
      ∃ a mid u, outcome exec env s = ⟨.ok a, mid, u⟩ ∧
        outcome (next a) mid u = ⟨.ok b, after, t⟩ := by
  rw [outcome_bind]
  generalize outcome exec env s = first
  rcases first with ⟨found | a, mid, u⟩
  · constructor
    · intro h
      cases h
    · rintro ⟨_, _, _, ⟨⟩, _⟩
  · constructor
    · exact fun h => ⟨a, mid, u, rfl, h⟩
    · rintro ⟨_, _, _, ⟨⟩, h⟩
      exact h

theorem outcome_map (f : α → β) : outcome (f <$> exec) env s = match outcome exec env s with
    | ⟨.ok a, mid, t⟩ => ⟨.ok (f a), mid, t⟩
    | ⟨.error stop, mid, t⟩ => ⟨.error stop, mid, t⟩ := by
  unfold outcome
  simp only [Functor.map, ExceptT.map, ExceptT.mk, bind, StateT.bind]
  rcases exec env s with ⟨⟨_ | _, _⟩, _⟩ <;> rfl

theorem outcome_ofEval (eval : Eval α) :
    outcome (ofEval eval : Exec (StateM σ) α) env s = match Eval.outcome eval env with
      | (.ok a, after) => ⟨.ok a, after, s⟩
      | (.error error, after) => ⟨.error (.runtime error), after, s⟩ := by
  unfold outcome ofEval Eval.outcome
  rcases Id.run (eval env) with ⟨_ | _, _⟩ <;> rfl

theorem outcome_ofEval_eq_ok_iff {eval : Eval α} {a : α} {after : Environment} {t : σ} :
    outcome (ofEval eval) env s = ⟨.ok a, after, t⟩ ↔
      Eval.outcome eval env = (.ok a, after) ∧ t = s := by
  rw [outcome_ofEval]
  rcases Eval.outcome eval env with ⟨error | b, mid⟩
  · simp
  · simp [and_assoc, eq_comm (a := s)]

theorem outcome_ofEval_eq_error_iff {eval : Eval α} {error : RuntimeError} :
    (outcome (ofEval eval : Exec (StateM σ) α) env s).result = .error (.runtime error) ↔
      (Eval.outcome eval env).1 = .error error := by
  rw [outcome_ofEval]
  rcases Eval.outcome eval env with ⟨found | a, mid⟩ <;> simp

/-- Writing leaves the environment alone. -/
theorem outcome_ofSink (action : ExceptT SinkError (StateM σ) α) :
    outcome (ofSink action) env s = match action s with
      | (.ok a, t) => ⟨.ok a, env, t⟩
      | (.error error, t) => ⟨.error (.output error), env, t⟩ := by
  unfold outcome ofSink
  simp only [bind, StateT.bind, ExceptT.run]
  rcases action s with ⟨_ | _, _⟩ <;> rfl

/-- What is written raises no error of evaluation. -/
theorem outcome_ofSink_ne_runtime (action : ExceptT SinkError (StateM σ) α) (error : RuntimeError) :
    (outcome (ofSink action) env s).result ≠ .error (.runtime error) := by
  rw [outcome_ofSink]
  rcases action s with ⟨found | a, t⟩ <;> simp

/-- A frame is closed however the execution in it ends. -/
theorem outcome_inFrame : outcome (inFrame exec) env s =
    ⟨(outcome exec env.enter s).result, (outcome exec env.enter s).env.leave,
      (outcome exec env.enter s).sink⟩ := rfl

end Exec

end Lox
