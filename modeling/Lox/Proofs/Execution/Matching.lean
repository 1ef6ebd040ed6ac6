import Lox.Proofs.Execution.Outcome
import Lox.Proofs.Sink.Recording
import Lox.Proofs.Syntax.Matching

/-!
# Matching programs do the same

Two executions in lock step, of matching trees over sinks that never fail.  Both begin in the
same environment, but what the sinks hold already may differ.  They end in the same
environment and have written the same, and if they stop at an error, it is the same error at
related tokens: nothing that a program does depends on a line, or on what has been written.
-/

namespace Lox

variable {α β ε σ : Type} {R : Token → Token → Prop}

/-- The same value, or errors that match. -/
inductive ResultMatches (E : ε → ε → Prop) : Except ε α → Except ε α → Prop
  | ok (a : α) : ResultMatches E (.ok a) (.ok a)
  | error {error error' : ε} : E error error' → ResultMatches E (.error error) (.error error')

/-- The same error, at related tokens. -/
structure RuntimeError.Matches (R : Token → Token → Prop) (error error' : RuntimeError) : Prop where
  cause_eq : error.cause = error'.cause
  token : R error.token error'.token

/-- The same reason to stop; if it is an error of evaluation, at related tokens. -/
inductive Stop.Matches (R : Token → Token → Prop) : Stop → Stop → Prop
  | runtime {error error' : RuntimeError} :
      error.Matches R error' → Matches R (.runtime error) (.runtime error')
  | output (error : SinkError) : Matches R (.output error) (.output error)
  | outOfFuel : Matches R .outOfFuel .outOfFuel

/-- If related tokens are equal, results that match are equal. -/
theorem ResultMatches.eq_of_eq {result result' : Except Stop α}
    (h : ResultMatches (Stop.Matches fun token token' => token = token') result result') :
    result = result' := by
  cases h with
  | ok a => rfl
  | error hstop =>
      cases hstop with
      | @runtime error error' herror =>
          obtain ⟨cause, token⟩ := error
          obtain ⟨cause', token'⟩ := error'
          obtain ⟨rfl, rfl⟩ := herror
          rfl
      | output | outOfFuel => rfl

/-! ## Evaluations -/

namespace Eval

/-- From every environment the evaluations come to the same. -/
def Matches (R : Token → Token → Prop) (eval eval' : Eval α) : Prop :=
  ∀ env : Environment, (outcome eval env).2 = (outcome eval' env).2 ∧
    ResultMatches (RuntimeError.Matches R) (outcome eval env).1 (outcome eval' env).1

theorem matches_pure (a : α) : Matches R (pure a : Eval α) (pure a) := fun _ => ⟨rfl, .ok a⟩

theorem matches_throw {error error' : RuntimeError} (h : error.Matches R error') :
    Matches R (throw error : Eval α) (throw error') := fun _ => ⟨rfl, .error h⟩

theorem matches_ofExcept {result result' : Except RuntimeError α}
    (h : ResultMatches (RuntimeError.Matches R) result result') :
    Matches R (ofExcept result : Eval α) (ofExcept result') := by
  intro env
  rw [outcome_ofExcept, outcome_ofExcept]
  exact ⟨rfl, h⟩

theorem matches_get : Matches R (get : Eval Environment) get := fun env => ⟨rfl, .ok env⟩

theorem matches_set (after : Environment) : Matches R (set after : Eval PUnit) (set after) :=
  fun _ => ⟨rfl, .ok PUnit.unit⟩

theorem matches_bind {eval eval' : Eval α} {next next' : α → Eval β} (h : Matches R eval eval')
    (hnext : ∀ a, Matches R (next a) (next' a)) : Matches R (eval >>= next) (eval' >>= next') := by
  intro env
  have hfirst := h env
  rw [outcome_bind, outcome_bind]
  generalize outcome eval env = first at hfirst
  generalize outcome eval' env = first' at hfirst
  obtain ⟨result, mid⟩ := first
  obtain ⟨result', mid'⟩ := first'
  obtain ⟨henv, hresult⟩ := hfirst
  dsimp only at henv hresult
  subst henv
  cases hresult with
  | ok a => exact hnext a mid
  | error herror => exact ⟨rfl, .error herror⟩

end Eval

section

variable {operator operator' name name' : Token} (halike : RelatesAlike R)

include halike

theorem Operator.matches_unary (h : R operator operator') (right : Value) :
    ResultMatches (RuntimeError.Matches R) (Operator.unary operator right)
      (Operator.unary operator' right) := by
  unfold Operator.unary
  rw [← (halike h).kind_eq]
  split
  · exact .ok _
  · exact .error ⟨rfl, h⟩
  · exact .ok _
  · exact .error ⟨rfl, h⟩

theorem Operator.matches_arithmetic (h : R operator operator') (x y : Float) :
    ResultMatches (RuntimeError.Matches R) (Operator.arithmetic operator x y)
      (Operator.arithmetic operator' x y) := by
  unfold Operator.arithmetic
  rw [← (halike h).kind_eq]
  split <;> first | exact .ok _ | exact .error ⟨rfl, h⟩

omit halike in
theorem Operator.matches_add (h : R operator operator') (left right : Value) :
    ResultMatches (RuntimeError.Matches R) (Operator.add operator left right)
      (Operator.add operator' left right) := by
  unfold Operator.add
  split
  · exact .ok _
  · exact .ok _
  · exact .error ⟨rfl, h⟩

theorem Operator.matches_binary (h : R operator operator') (left right : Value) :
    ResultMatches (RuntimeError.Matches R) (Operator.binary operator left right)
      (Operator.binary operator' left right) := by
  unfold Operator.binary
  rw [← (halike h).kind_eq]
  split
  · exact .ok _
  · exact .ok _
  · exact Operator.matches_add h left right
  · split
    · exact Operator.matches_arithmetic halike h _ _
    · exact .error ⟨rfl, h⟩

theorem Environment.matches_get (h : R name name') (env : Environment) :
    ResultMatches (RuntimeError.Matches R) (env.get name) (env.get name') := by
  unfold Environment.get
  rw [← (halike h).lexeme_eq]
  split
  · exact .ok _
  · exact .error ⟨rfl, h⟩

theorem Environment.matches_set (h : R name name') (env : Environment) (value : Value) :
    ResultMatches (RuntimeError.Matches R) (env.set name value) (env.set name' value) := by
  unfold Environment.set
  rw [← (halike h).lexeme_eq]
  split
  · exact .ok _
  · exact .error ⟨rfl, h⟩

theorem Expr.Matches.eval {expr expr' : Expr} (h : expr.Matches R expr') :
    Eval.Matches R expr.eval expr'.eval := by
  induction h with
  | literal value => exact Eval.matches_pure value
  | grouping _ ih => exact ih
  | unary hoperator _ ih =>
      exact Eval.matches_bind ih fun value =>
        Eval.matches_ofExcept (Operator.matches_unary halike hoperator value)
  | binary _ hoperator _ ihLeft ihRight =>
      exact Eval.matches_bind ihLeft fun x => Eval.matches_bind ihRight fun y =>
        Eval.matches_ofExcept (Operator.matches_binary halike hoperator x y)
  | logical _ hoperator _ ihLeft ihRight =>
      refine Eval.matches_bind ihLeft fun value => ?_
      rw [← (halike hoperator).kind_eq]
      split
      · split
        · exact Eval.matches_pure value
        · exact ihRight
      · split
        · exact ihRight
        · exact Eval.matches_pure value
      · exact Eval.matches_throw ⟨rfl, hoperator⟩
  | «variable» hname =>
      exact Eval.matches_bind Eval.matches_get fun env =>
        Eval.matches_ofExcept (Environment.matches_get halike hname env)
  | assign hname _ ih =>
      refine Eval.matches_bind ih fun value => Eval.matches_bind Eval.matches_get fun env => ?_
      refine Eval.matches_bind (Eval.matches_ofExcept ?_) fun after => ?_
      · exact Environment.matches_set halike hname env value
      · exact Eval.matches_bind (Eval.matches_set after) fun _ => Eval.matches_pure value

end

/-! ## Executions -/

/-- From the same environment, over sinks in the states `s` and `s'`, the executions have come to
the same. -/
structure Outcome.Matches (record : Record σ) (R : Token → Token → Prop) (s s' : σ)
    (first first' : Outcome σ α) : Prop where
  result : ResultMatches (Stop.Matches R) first.result first'.result
  env_eq : first.env = first'.env
  writes : ∃ output, record.Writes s output .empty first.sink ∧
    record.Writes s' output .empty first'.sink

namespace Exec

variable {streams : Streams (StateM σ)} {record : Recording streams}

/-- From every environment and open sinks, the executions come to the same. -/
def Matches (record : Record σ) (R : Token → Token → Prop) (exec exec' : Exec (StateM σ) α) :
    Prop :=
  ∀ (env : Environment) {s s' : σ}, record.IsOpen s → record.IsOpen s' →
    (outcome exec env s).Matches record R s s' (outcome exec' env s')

section

variable {record : Record σ} {exec exec' : Exec (StateM σ) α} {next next' : α → Exec (StateM σ) β}

theorem matches_pure (a : α) : Matches record R (pure a : Exec (StateM σ) α) (pure a) :=
  fun _ _ _ hs hs' => ⟨.ok a, rfl, .empty, .nothing hs, .nothing hs'⟩

theorem matches_throw {stop stop' : Stop} (h : stop.Matches R stop') :
    Matches record R (throw stop : Exec (StateM σ) α) (throw stop') :=
  fun _ _ _ hs hs' => ⟨.error h, rfl, .empty, .nothing hs, .nothing hs'⟩

theorem matches_modify (f : Environment → Environment) :
    Matches record R (modify f : Exec (StateM σ) PUnit) (modify f) :=
  fun _ _ _ hs hs' => ⟨.ok PUnit.unit, rfl, .empty, .nothing hs, .nothing hs'⟩

theorem matches_bind (h : Matches record R exec exec')
    (hnext : ∀ a, Matches record R (next a) (next' a)) :
    Matches record R (exec >>= next) (exec' >>= next') := by
  intro env s s' hs hs'
  have hfirst := h env hs hs'
  rw [outcome_bind, outcome_bind]
  generalize outcome exec env s = first at hfirst
  generalize outcome exec' env s' = first' at hfirst
  obtain ⟨result, mid, t⟩ := first
  obtain ⟨result', mid', t'⟩ := first'
  obtain ⟨hresult, henv, output, hwrites, hwrites'⟩ := hfirst
  dsimp only at hresult henv hwrites hwrites'
  subst henv
  cases hresult with
  | error hstop => exact ⟨.error hstop, rfl, output, hwrites, hwrites'⟩
  | ok a =>
      obtain ⟨hsecond, henv, more, hmore, hmore'⟩ := hnext a mid hwrites.isOpen hwrites'.isOpen
      exact ⟨hsecond, henv, output ++ more, hwrites.trans_output hmore,
        hwrites'.trans_output hmore'⟩

theorem matches_map (f : α → β) (h : Matches record R exec exec') :
    Matches record R (f <$> exec) (f <$> exec') := by
  rw [map_eq_pure_bind, map_eq_pure_bind]
  exact matches_bind h fun a => matches_pure (f a)

theorem matches_ofEval {eval eval' : Eval α} (h : Eval.Matches R eval eval') :
    Matches record R (ofEval eval) (ofEval eval') := by
  intro env s s' hs hs'
  have heval := h env
  rw [outcome_ofEval, outcome_ofEval]
  generalize Eval.outcome eval env = first at heval
  generalize Eval.outcome eval' env = first' at heval
  obtain ⟨result, mid⟩ := first
  obtain ⟨result', mid'⟩ := first'
  obtain ⟨henv, hresult⟩ := heval
  dsimp only at henv hresult
  subst henv
  cases hresult with
  | ok a => exact ⟨.ok a, rfl, .empty, .nothing hs, .nothing hs'⟩
  | error herror => exact ⟨.error (.runtime herror), rfl, .empty, .nothing hs, .nothing hs'⟩

theorem matches_inFrame (h : Matches record R exec exec') :
    Matches record R (inFrame exec) (inFrame exec') := by
  intro env s s' hs hs'
  obtain ⟨hresult, henv, hwrites⟩ := h env.enter hs hs'
  rw [outcome_inFrame, outcome_inFrame]
  exact ⟨hresult, congrArg Environment.leave henv, hwrites⟩

/-- Loops whose turns match have the same number of turns. -/
theorem matches_whileTrue {condition condition' : Exec (StateM σ) Bool}
    {body body' : Exec (StateM σ) Unit} (hcondition : Matches record R condition condition')
    (hbody : Matches record R body body') (fuel : Nat) :
    Matches record R (whileTrue condition body fuel) (whileTrue condition' body' fuel) := by
  induction fuel with
  | zero => exact matches_throw .outOfFuel
  | succ fuel ih =>
      refine matches_bind hcondition fun holds => ?_
      cases holds with
      | true => exact matches_bind hbody fun _ => ih
      | false => exact matches_pure ()

end

theorem matches_writeLine (text : String) :
    Matches record.toRecord R (ofSink (streams.output.writeLine text))
      (ofSink (streams.output.writeLine text)) := by
  intro env s s' hs hs'
  obtain ⟨t, hwrite, hwrites⟩ := record.write_output (text ++ "\n") hs
  obtain ⟨t', hwrite', hwrites'⟩ := record.write_output (text ++ "\n") hs'
  have hline : streams.output.writeLine text s = (.ok (), t) := hwrite
  have hline' : streams.output.writeLine text s' = (.ok (), t') := hwrite'
  rw [outcome_ofSink, outcome_ofSink, hline, hline']
  exact ⟨.ok (), rfl, _, hwrites, hwrites'⟩

theorem matches_flush :
    Matches record.toRecord R (ofSink streams.output.flush) (ofSink streams.output.flush) := by
  intro env s s' hs hs'
  obtain ⟨t, hflush, hwrites⟩ := record.flush_output hs
  obtain ⟨t', hflush', hwrites'⟩ := record.flush_output hs'
  rw [outcome_ofSink, outcome_ofSink, hflush, hflush']
  exact ⟨.ok (), rfl, .empty, hwrites, hwrites'⟩

end Exec

/-! ## Statements -/

namespace Stmt

open Exec

variable {streams : Streams (StateM σ)} (record : Recording streams) (fuel : Nat)

mutual

theorem Matches.execute {stmt stmt' : Stmt} (halike : RelatesAlike R) (h : stmt.Matches R stmt') :
    Exec.Matches record.toRecord R (Stmt.execute streams.output fuel stmt)
      (Stmt.execute streams.output fuel stmt') := by
  cases h with
  | expression hexpr =>
      exact matches_bind (matches_ofEval (hexpr.eval halike)) fun _ => matches_pure ()
  | print hexpr =>
      exact matches_bind (matches_ofEval (hexpr.eval halike)) fun value =>
        matches_writeLine value.text
  | declared hname =>
      unfold Stmt.execute
      rw [(halike hname).lexeme_eq]
      exact matches_modify _
  | initialized hname hexpr =>
      unfold Stmt.execute
      rw [(halike hname).lexeme_eq]
      exact matches_bind (matches_ofEval (hexpr.eval halike)) fun value => matches_modify _
  | block hbody => exact matches_inFrame (hbody.executeAll halike)
  | ifThen hcondition hthen =>
      refine matches_bind (matches_ofEval (hcondition.eval halike)) fun value => ?_
      split
      · exact hthen.execute halike
      · exact matches_pure ()
  | ifElse hcondition hthen helse =>
      refine matches_bind (matches_ofEval (hcondition.eval halike)) fun value => ?_
      split
      · exact hthen.execute halike
      · exact helse.execute halike
  | loop hcondition hbody =>
      exact matches_whileTrue (matches_map _ (matches_ofEval (hcondition.eval halike)))
        (hbody.execute halike) fuel

theorem MatchesAll.executeAll {body body' : List Stmt} (halike : RelatesAlike R)
    (h : MatchesAll R body body') :
    Exec.Matches record.toRecord R (Stmt.executeAll streams.output fuel body)
      (Stmt.executeAll streams.output fuel body') := by
  cases h with
  | nil => exact matches_pure ()
  | cons hstmt hrest => exact matches_bind (hstmt.execute halike) fun _ => hrest.executeAll halike

end

theorem MatchesAll.interpret {program program' : List Stmt} (halike : RelatesAlike R)
    (h : MatchesAll R program program') :
    Exec.Matches record.toRecord R (Stmt.interpret streams.output fuel program)
      (Stmt.interpret streams.output fuel program') :=
  matches_bind (h.executeAll record fuel halike) fun _ => matches_flush

end Stmt

end Lox
