import Lox.Session

/-!
# Sessions in other monads

A run acts in a monad only through the sinks that it is given.  So a way from one monad into
another that keeps `pure` and `bind` takes a run over sinks in the first to the run over the
same sinks in the second: what is known of a run over two buffers is known of it where lines
are read besides.
-/

namespace Lox

/-- A way from one monad into another that keeps `pure` and `bind`. -/
structure Lift (m n : Type → Type) [Monad m] [Monad n] where
  lift {α : Type} : m α → n α
  lift_pure {α : Type} (a : α) : lift (pure a : m α) = pure a
  lift_bind {α β : Type} (x : m α) (f : α → m β) :
    lift (x >>= f) = lift x >>= fun a => lift (f a)

namespace Lift

variable {m n : Type → Type} [Monad m] [Monad n] (φ : Lift m n) {α β ρ ε : Type}

/-- A sink, in the other monad. -/
def sink (sink : Sink m) : Sink n where
  write text := ExceptT.mk (φ.lift (sink.write text).run)
  flush := ExceptT.mk (φ.lift sink.flush.run)

/-- Sinks, in the other monad. -/
def streams (streams : Streams m) : Streams n where
  output := φ.sink streams.output
  diagnostics := φ.sink streams.diagnostics

/-- What is done with a state and may fail, in the other monad. -/
def act (x : ExceptT ε (StateT ρ m) α) : ExceptT ε (StateT ρ n) α :=
  fun (r : ρ) => φ.lift (x r)

theorem act_pure (a : α) : φ.act (pure a : ExceptT ε (StateT ρ m) α) = pure a :=
  funext fun _ => φ.lift_pure _

theorem act_throw (e : ε) : φ.act (throw e : ExceptT ε (StateT ρ m) α) = throw e :=
  funext fun _ => φ.lift_pure _

/-- What is done in the monad below, which cannot fail. -/
theorem act_monadLift (x : StateT ρ m α) :
    φ.act (ExceptT.lift x : ExceptT ε (StateT ρ m) α) =
      ExceptT.lift (fun (r : ρ) => φ.lift (x r) : StateT ρ n α) := by
  funext r
  show φ.lift (x r >>= fun done => pure (Except.ok done.1, done.2)) =
    φ.lift (x r) >>= fun done => pure (Except.ok done.1, done.2)
  rw [φ.lift_bind]
  congr 1
  funext done
  exact φ.lift_pure _

theorem act_get : φ.act (get : ExceptT ε (StateT ρ m) ρ) = get := by
  refine (φ.act_monadLift _).trans ?_
  exact congrArg ExceptT.lift (funext fun _ => φ.lift_pure _)

theorem act_modify (f : ρ → ρ) : φ.act (modify f : ExceptT ε (StateT ρ m) PUnit) = modify f := by
  refine (φ.act_monadLift _).trans ?_
  exact congrArg ExceptT.lift (funext fun _ => φ.lift_pure _)

theorem act_bind (x : ExceptT ε (StateT ρ m) α) (f : α → ExceptT ε (StateT ρ m) β) :
    φ.act (x >>= f) = φ.act x >>= fun a => φ.act (f a) := by
  funext r
  show φ.lift (x r >>= fun done => ExceptT.bindCont f done.1 done.2) =
    φ.lift (x r) >>= fun done => ExceptT.bindCont (fun a => φ.act (f a)) done.1 done.2
  rw [φ.lift_bind]
  congr 1
  funext done
  rcases done with ⟨e | a, r⟩
  · exact φ.lift_pure _
  · rfl

theorem act_map (f : α → β) (x : ExceptT ε (StateT ρ m) α) :
    φ.act (f <$> x) = f <$> φ.act x := by
  funext r
  show φ.lift (x r >>= fun done => _) = φ.lift (x r) >>= fun done => _
  rw [φ.lift_bind]
  congr 1
  funext done
  rcases done with ⟨e | a, r⟩
  · exact φ.lift_pure _
  · exact φ.lift_pure _

/-! ## Writing -/

theorem sink_writeLines (sink : Sink m) (lines : List String) :
    (φ.sink sink).writeLines lines = ExceptT.mk (φ.lift (sink.writeLines lines).run) := by
  induction lines with
  | nil => exact (φ.lift_pure _).symm
  | cons line rest ih =>
      show (φ.sink sink).writeLine line >>= (fun _ => (φ.sink sink).writeLines rest) =
        ExceptT.mk (φ.lift ((sink.writeLine line).run >>=
          ExceptT.bindCont fun _ => sink.writeLines rest))
      rw [ih, φ.lift_bind]
      show φ.lift (sink.writeLine line).run >>= _ = _
      congr 1
      funext done
      rcases done with e | a
      · exact (φ.lift_pure _).symm
      · rfl

/-! ## Executions -/

theorem act_ofEval (eval : Eval α) : φ.act (Exec.ofEval eval) = Exec.ofEval eval := by
  funext env
  show φ.lift (Exec.ofEval eval env) = Exec.ofEval eval env
  unfold Exec.ofEval
  split <;> exact φ.lift_pure _

theorem act_ofSink (action : ExceptT SinkError m α) :
    φ.act (Exec.ofSink action) = Exec.ofSink (ExceptT.mk (φ.lift action.run)) := by
  funext env
  show φ.lift (action.run >>= fun done => _) = φ.lift action.run >>= fun done => _
  rw [φ.lift_bind]
  congr 1
  funext done
  rcases done with error | a
  · exact φ.lift_pure _
  · exact φ.lift_pure _

theorem act_inFrame (body : Exec m α) : φ.act (Exec.inFrame body) = Exec.inFrame (φ.act body) := by
  funext env
  show φ.lift (body env.enter >>= fun done => _) = φ.lift (body env.enter) >>= fun done => _
  rw [φ.lift_bind]
  congr 1
  funext done
  exact φ.lift_pure _

theorem act_whileTrue (condition : Exec m Bool) (body : Exec m Unit) (fuel : Nat) :
    φ.act (Exec.whileTrue condition body fuel) =
      Exec.whileTrue (φ.act condition) (φ.act body) fuel := by
  induction fuel with
  | zero => exact φ.act_throw _
  | succ fuel ih =>
      unfold Exec.whileTrue
      rw [act_bind]
      congr 1
      funext holds
      cases holds with
      | true => rw [if_pos rfl, if_pos rfl, act_bind, ih]
      | false => exact φ.act_pure _

mutual

/-- A statement acts only through its sink. -/
theorem act_execute (sink : Sink m) (fuel : Nat) (stmt : Stmt) :
    φ.act (stmt.execute sink fuel) = stmt.execute (φ.sink sink) fuel := by
  cases stmt with
  | expression expr =>
      unfold Stmt.execute
      rw [act_bind, act_ofEval]
      exact congrArg _ (funext fun _ => φ.act_pure _)
  | print expr =>
      unfold Stmt.execute
      rw [act_bind, act_ofEval]
      exact congrArg _ (funext fun _ => φ.act_ofSink _)
  | var name initializer =>
      cases initializer with
      | none =>
          unfold Stmt.execute
          exact φ.act_modify _
      | some initializer =>
          unfold Stmt.execute
          rw [act_bind, act_ofEval]
          exact congrArg _ (funext fun _ => φ.act_modify _)
  | block body =>
      unfold Stmt.execute
      rw [act_inFrame, act_executeAll sink fuel body]
  | ifThen condition thenBranch =>
      unfold Stmt.execute
      rw [act_bind, act_ofEval]
      congr 1
      funext value
      split
      · exact act_execute sink fuel thenBranch
      · exact φ.act_pure _
  | ifElse condition thenBranch elseBranch =>
      unfold Stmt.execute
      rw [act_bind, act_ofEval]
      congr 1
      funext value
      split
      · exact act_execute sink fuel thenBranch
      · exact act_execute sink fuel elseBranch
  | loop condition body =>
      unfold Stmt.execute
      rw [act_whileTrue, act_map, act_ofEval, act_execute sink fuel body]

theorem act_executeAll (sink : Sink m) (fuel : Nat) (body : List Stmt) :
    φ.act (Stmt.executeAll sink fuel body) = Stmt.executeAll (φ.sink sink) fuel body := by
  cases body with
  | nil => exact φ.act_pure _
  | cons stmt rest =>
      unfold Stmt.executeAll
      rw [act_bind, act_execute sink fuel stmt, act_executeAll sink fuel rest]

end

theorem act_interpret (sink : Sink m) (fuel : Nat) (program : List Stmt) :
    φ.act (Stmt.interpret sink fuel program) = Stmt.interpret (φ.sink sink) fuel program := by
  unfold Stmt.interpret
  rw [act_bind, act_executeAll]
  exact congrArg _ (funext fun _ => φ.act_ofSink _)

/-! ## Sessions -/

theorem act_sessionWriteLines (sink : Sink m) (lines : List String) :
    φ.act (Session.writeLines sink lines) = Session.writeLines (φ.sink sink) lines := by
  funext session
  show φ.lift ((sink.writeLines lines).run >>= fun done => _) =
    ((φ.sink sink).writeLines lines).run >>= fun done => _
  rw [φ.lift_bind, φ.sink_writeLines]
  show _ = φ.lift (sink.writeLines lines).run >>= fun done => _
  congr 1
  funext done
  rcases done with error | a
  · exact φ.lift_pure _
  · exact φ.lift_pure _

theorem act_sessionInterpret (sink : Sink m) (fuel : Nat) (program : List Stmt) :
    φ.act (Session.interpret sink fuel program) = Session.interpret (φ.sink sink) fuel program := by
  funext session
  show φ.lift (Stmt.interpret sink fuel program session.environment >>= fun done => _) =
    Stmt.interpret (φ.sink sink) fuel program session.environment >>= fun done => _
  rw [φ.lift_bind, ← φ.act_interpret]
  show φ.lift _ >>= _ = φ.lift _ >>= _
  congr 1
  funext done
  exact φ.lift_pure _

/-- What a run does once its program has been executed. -/
private theorem act_report (streams : Streams m) (result : Except Stop Unit) :
    φ.act (match result with
      | .ok () => pure .ok
      | .error (.runtime error) => do
          Session.writeLines streams.diagnostics [error.text]
          modify fun session => { session with hadRuntimeError := true }
          return .runtimeError
      | .error (.output error) => throw (.sink error)
      | .error .outOfFuel => throw .outOfFuel : Session.Run m Status) =
    match result with
      | .ok () => pure .ok
      | .error (.runtime error) => do
          Session.writeLines (φ.streams streams).diagnostics [error.text]
          modify fun session => { session with hadRuntimeError := true }
          return .runtimeError
      | .error (.output error) => throw (.sink error)
      | .error .outOfFuel => throw .outOfFuel := by
  split
  · exact φ.act_pure _
  · simp only [act_bind, act_sessionWriteLines, act_modify, act_pure]
    rfl
  · exact φ.act_throw _
  · exact φ.act_throw _

/-- A session acts only through its sinks. -/
theorem act_run (streams : Streams m) (fuel : Nat) (source : String) :
    φ.act (Session.run streams fuel source) = Session.run (φ.streams streams) fuel source := by
  unfold Session.run
  simp only [act_bind, act_modify, act_sessionWriteLines]
  refine congrArg _ (funext fun _ => congrArg _ (funext fun _ => congrArg _ (funext fun _ => ?_)))
  split
  · simp only [act_bind, act_sessionWriteLines, act_modify, act_pure]
    rfl
  · split
    · exact φ.act_pure _
    rw [act_bind, act_get]
    refine congrArg _ (funext fun session => ?_)
    -- the trees are shown or not, and then the program runs
    split
    · simp only [act_bind, act_sessionWriteLines, act_sessionInterpret]
      refine congrArg _ (funext fun _ => congrArg _ (funext fun result => ?_))
      exact φ.act_report streams result
    · rw [act_bind, act_sessionInterpret]
      exact congrArg _ (funext fun result => φ.act_report streams result)

end Lift

end Lox
