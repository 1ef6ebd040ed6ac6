import Lox.Proofs.Execution.Seam

/-!
# Braces around a program

A program may as well be executed as a block, with a frame of its own around all that it
declares.  The two executions go on in the same way, step by step: that frame is the inner part
of a frame which the program without braces has in one (`Environment.Seam`).  So the same is
written, and the end is the same, if there is one.

What remains of the difference is what the program declares outside of the blocks in it.  With
braces it is gone when the block ends; without them it lies over what was bound before in the
innermost frame (`Environment.Overlaid`).
-/

namespace Lox

variable {σ : Type}

/-- The environments are alike but for the bindings of a frame, which the first has over those of
its innermost frame. -/
structure Environment.Overlaid (own : Frame) (env env' : Environment) : Prop where
  depth_eq : env.depth = env'.depth
  enclosing_eq : env.enclosing = env'.enclosing
  getElem?_eq (name : String) : env.innermost[name]? = own[name]?.or env'.innermost[name]?

/-- When the inner part of a frame is closed, what it binds is all that is missing. -/
theorem Environment.Seam.overlaid {env env' : Environment} (h : env.Seam 0 env') :
    env.Overlaid env'.innermost env'.leave := by
  cases h with
  | here rest hsplits => exact ⟨rfl, rfl, hsplits.getElem?_eq⟩

namespace Exec

/-- The execution never comes to an end, however many turns its loops are given. -/
def Diverges (exec : (fuel : Nat) → Exec (StateM σ) Unit) (env : Environment) (s : σ) : Prop :=
  ∀ fuel, (outcome (exec fuel) env s).result = .error .outOfFuel

end Exec

namespace Stmt

open Exec

variable (sink : Sink (StateM σ)) (fuel : Nat) (body : List Stmt) (env : Environment) (s : σ)

/-- What a program has bound in the frame that the braces around it open, when that is closed. -/
def ownFrame : Frame := (outcome (executeAll sink fuel body) env.enter s).env.innermost

/-- The program declares all that is bound there. -/
theorem names_ownFrame : Frame.names (ownFrame sink fuel body env s) ⊆ declaresAll body := by
  have hkeeps := (keeps_executeAll sink fuel body env.enter s).innermost.subset_union
  have hempty : Frame.names env.enter.innermost = ∅ := Frame.names_empty
  rwa [hempty, Finset.empty_union] at hkeeps

/-- Statements in braces come to the same as without, and leave the environment without what they
have declared. -/
theorem outcome_executeBlock :
    let whole := outcome (executeAll sink fuel body) env s
    let block := outcome (executeBlock sink fuel body) env s
    whole.result = block.result ∧ whole.sink = block.sink ∧
      whole.env.Overlaid (ownFrame sink fuel body env s) block.env := by
  obtain ⟨hresult, hsink, henv⟩ := (closed_seamless sink).executeAll fuel body s (.opened env)
  exact ⟨hresult, hsink, henv.overlaid⟩

/-- A program ends as its statements do if its sink can be flushed. -/
theorem outcome_interpret_of_flush {written : σ → ByteArray}
    (hflush : ∀ t, ∃ u, sink.flush t = (.ok (), u) ∧ written u = written t) :
    let program := outcome (interpret sink fuel body) env s
    let statements := outcome (executeAll sink fuel body) env s
    program.result = statements.result ∧ written program.sink = written statements.sink ∧
      program.env = statements.env := by
  unfold interpret
  rw [outcome_bind]
  generalize outcome (executeAll sink fuel body) env s = statements
  obtain ⟨result, mid, t⟩ := statements
  cases result with
  | error stop => exact ⟨rfl, rfl, rfl⟩
  | ok _ =>
      obtain ⟨u, hflushed, hwritten⟩ := hflush t
      dsimp only
      rw [outcome_ofSink, hflushed]
      exact ⟨rfl, hwritten, rfl⟩

variable {sink}

/-- Over a sink whose flush never fails and writes nothing, a program and the same in braces both
never end, or they end in the same way and write the same.  The environments that they leave are
alike but for the names that the program has declared in the innermost frame. -/
theorem braces_change_nothing {written : σ → ByteArray}
    (hflush : ∀ t, ∃ u, sink.flush t = (.ok (), u) ∧ written u = written t) (body : List Stmt)
    (env : Environment) (s : σ) :
    (Diverges (fun fuel => interpret sink fuel body) env s ↔
        Diverges (fun fuel => executeBlock sink fuel body) env s) ∧
      ∀ fuel,
        let whole := outcome (interpret sink fuel body) env s
        let block := outcome (executeBlock sink fuel body) env s
        whole.result = block.result ∧ written whole.sink = written block.sink ∧
          whole.env.Overlaid (ownFrame sink fuel body env s) block.env ∧
          Frame.names (ownFrame sink fuel body env s) ⊆ declaresAll body := by
  have hsame : ∀ fuel,
      let whole := outcome (interpret sink fuel body) env s
      let block := outcome (executeBlock sink fuel body) env s
      whole.result = block.result ∧ written whole.sink = written block.sink ∧
        whole.env.Overlaid (ownFrame sink fuel body env s) block.env := by
    intro fuel whole block
    obtain ⟨hresult, hwritten, henv⟩ := outcome_interpret_of_flush sink fuel body env s hflush
    obtain ⟨hresult', hsink', hover⟩ := outcome_executeBlock sink fuel body env s
    refine ⟨hresult.trans hresult', hwritten.trans (congrArg written hsink'), ?_⟩
    show whole.env.Overlaid _ block.env
    rw [henv]
    exact hover
  constructor
  · apply forall_congr'
    intro fuel
    rw [(hsame fuel).1]
  · intro fuel whole block
    obtain ⟨hresult, hwritten, hover⟩ := hsame fuel
    exact ⟨hresult, hwritten, hover, names_ownFrame sink fuel body env s⟩

/-- A sink that takes all bytes. -/
def roll : Sink (StateM ByteArray) where
  write text := fun bytes => (.ok (), bytes ++ text.toUTF8)
  flush := fun bytes => (.ok (), bytes)

/-- The program `var a = true; print a;`. -/
def redeclaring : List Stmt :=
  [.var ⟨.identifier "a", "a", 1⟩ (some (.literal (.bool true))),
    .print (.variable ⟨.identifier "a", "a", 1⟩)]

/-- Where `a` is bound already, the braces keep that binding. -/
theorem braces_change_nothing_redeclaring :
    let env := Environment.empty.define "a" .nil
    let whole := outcome (interpret roll 0 redeclaring) env .empty
    let block := outcome (executeBlock roll 0 redeclaring) env .empty
    (∀ bytes, ∃ after, roll.flush bytes = (.ok (), after) ∧ id after = id bytes) ∧
      whole.result = .ok () ∧ whole.sink = "true\n".toUTF8 ∧
      whole.env.lookup? "a" = some (.bool true) ∧ block.env.lookup? "a" = some .nil ∧
      whole.result = block.result ∧ whole.sink = block.sink := by
  intro env whole block
  have hflush : ∀ bytes, ∃ after, roll.flush bytes = (.ok (), after) ∧ id after = id bytes :=
    fun bytes => ⟨bytes, rfl, rfl⟩
  obtain ⟨hresult, hwritten, -⟩ := (braces_change_nothing hflush redeclaring env .empty).2 0
  exact ⟨hflush, rfl, rfl, rfl, rfl, hresult, hwritten⟩

end Stmt

end Lox
