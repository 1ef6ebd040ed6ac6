import Lox.Proofs.Execution.Closure
import Lox.Proofs.Execution.Outcome
import Lox.Proofs.Sink.Recording

/-!
# What writing keeps, executions keep

An execution does nothing to its sink but write to it and flush it.  What every write and every
flush keeps is therefore kept by executions, and an execution stops at what it writes only where
a write or a flush can fail.  Over sinks that never fail, it does not stop there at all.
-/

namespace Lox

variable {α β σ : Type} {streams : Streams (StateM σ)} {sink : Sink (StateM σ)} {P : σ → Prop}
  {mayFail : SinkError → Prop}

/-- Whatever is written to the sink, the property is kept, and there are no other failures. -/
structure Sink.Keeps (sink : Sink (StateM σ)) (P : σ → Prop) (mayFail : SinkError → Prop) :
    Prop where
  write (text : String) {s : σ} : P s →
    P (sink.write text s).2 ∧ ∀ failure, (sink.write text s).1 = .error failure → mayFail failure
  flush {s : σ} : P s →
    P (sink.flush s).2 ∧ ∀ failure, (sink.flush s).1 = .error failure → mayFail failure

/-- A sink that never fails is always open. -/
theorem Recording.keeps_isOpen (record : Recording streams) :
    streams.output.Keeps record.IsOpen fun _ => False where
  write text s hopen := by
    obtain ⟨t, hwrite, hwrites⟩ := record.write_output text hopen
    rw [hwrite]
    exact ⟨hwrites.isOpen, by simp⟩
  flush {s} hopen := by
    obtain ⟨t, hflush, hwrites⟩ := record.flush_output hopen
    rw [hflush]
    exact ⟨hwrites.isOpen, by simp⟩

namespace Exec

/-- The execution keeps the property of the sink, and if it stops at what it writes, then at one
of these failures. -/
def KeepsSink (P : σ → Prop) (mayFail : SinkError → Prop) (exec : Exec (StateM σ) α) : Prop :=
  ∀ (env : Environment) (s : σ), P s → P (outcome exec env s).sink ∧
    ∀ failure, (outcome exec env s).result = .error (.output failure) → mayFail failure

theorem keepsSink_ofEval (eval : Eval α) : KeepsSink P mayFail (ofEval eval) := by
  intro env s h
  rw [outcome_ofEval]
  rcases Eval.outcome eval env with ⟨error | a, after⟩
  · exact ⟨h, by simp⟩
  · exact ⟨h, by simp⟩

theorem keepsSink_bind {exec : Exec (StateM σ) α} {next : α → Exec (StateM σ) β}
    (hexec : KeepsSink P mayFail exec) (hnext : ∀ a, KeepsSink P mayFail (next a)) :
    KeepsSink P mayFail (exec >>= next) := by
  intro env s h
  have hfirst := hexec env s h
  rw [outcome_bind]
  generalize outcome exec env s = first at hfirst
  rcases first with ⟨stop | a, mid, t⟩
  · refine ⟨hfirst.1, fun failure heq => hfirst.2 failure ?_⟩
    simpa using heq
  · exact hnext a mid t hfirst.1

theorem keepsSink_ofSink {act : ExceptT SinkError (StateM σ) Unit}
    (hact : ∀ {s : σ}, P s →
      P (act s).2 ∧ ∀ failure, (act s).1 = .error failure → mayFail failure) :
    KeepsSink P mayFail (ofSink act) := by
  intro env s h
  have hdone := hact h
  rw [outcome_ofSink]
  generalize act s = done at hdone
  rcases done with ⟨failure | _, t⟩
  · refine ⟨hdone.1, fun found heq => hdone.2 found ?_⟩
    simpa using heq
  · exact ⟨hdone.1, by simp⟩

theorem closed_keepsSink (hsink : sink.Keeps P mayFail) :
    Closed sink fun _ exec => KeepsSink P mayFail exec where
  pure _ := fun _ _ h => ⟨h, by simp⟩
  outOfFuel := fun _ _ h => ⟨h, by simp⟩
  bind := keepsSink_bind
  eval expr := keepsSink_ofEval expr.eval
  define _ _ := fun _ _ h => ⟨h, by simp⟩
  writeLine text := keepsSink_ofSink (hsink.write (text ++ "\n"))
  inFrame hexec := fun env s h => hexec env.enter s h

theorem keepsSink_interpret (hsink : sink.Keeps P mayFail) (fuel : Nat) (program : List Stmt) :
    KeepsSink P mayFail (Stmt.interpret sink fuel program) :=
  keepsSink_bind ((closed_keepsSink hsink).executeAll fuel program) fun _ =>
    keepsSink_ofSink hsink.flush

end Exec

end Lox
