import Lox.Proofs.Execution.Reach
import Lox.Proofs.Grammar.Placement

/-!
# Lexical scoping

Wherever the execution of a tidy tree comes, the frames bind exactly the names that are
statically in scope there: `Leads.names_eq` for one step, `Reaches.at?_eq` for a path.
Only declarations change the names of a frame (`FrameLaw`), a tidy tree has them only
among the statements of a block, and statements come one after another.

So a name is found at the level that the tree tells, however often it is looked up, and
it is undefined exactly if it is in no set of its scope.
-/

namespace Lox

open Stmt

variable {σ : Type} {sink : Sink (StateM σ)} {fuel : Nat} {env mid after : Environment} {s t : σ}

/-! ## The names after an execution -/

namespace Environment

theorem names_enter (env : Environment) : env.enter.names = ∅ :: env.names := by
  simp [names, enter, frames]

theorem names_define (env : Environment) (name : String) (value : Value) :
    (env.define name value).names = Scope.declare {name} env.names := by
  simp [names, define, frames, Scope.declare, Finset.union_comm _ {name}]

end Environment

theorem Expr.names_eq {expr : Expr} {result : Except RuntimeError Value}
    (h : Eval.outcome expr.eval env = (result, after)) : after.names = env.names := by
  have hnames := expr.keeps_eval env
  rw [h] at hnames
  exact hnames.names_eq

namespace Stmt

variable {stmt : Stmt} {body : List Stmt}

theorem names_eq_of_tidy (htidy : stmt.Tidy) (hnone : stmt.declared? = none)
    (h : Exec.outcome (execute sink fuel stmt) env s = ⟨.ok (), after, t⟩) :
    after.names = env.names := by
  have hkeeps := keeps_execute sink fuel stmt env s
  rw [htidy.declares_eq_empty hnone, h] at hkeeps
  exact hkeeps.names_eq

theorem names_eq_of_var {name : Token} {initializer : Option Expr}
    (h : Exec.outcome (execute sink fuel (.var name initializer)) env s = ⟨.ok (), after, t⟩) :
    after.names = Scope.declare {name.lexeme} env.names := by
  cases initializer with
  | none =>
      cases h
      exact env.names_define name.lexeme .nil
  | some expr =>
      obtain ⟨value, mid, u, hvalue, hdefine⟩ := Exec.outcome_bind_eq_ok_iff.1 h
      obtain ⟨heval, rfl⟩ := Exec.outcome_ofEval_eq_ok_iff.1 hvalue
      cases hdefine
      rw [← Expr.names_eq heval]
      exact mid.names_define name.lexeme value

/-- After statements, what they declare is in scope. -/
theorem names_eq_of_all (htidy : ∀ stmt ∈ body, stmt.Tidy)
    (h : Exec.outcome (executeAll sink fuel body) env s = ⟨.ok (), after, t⟩) :
    after.names = Scope.declare (declaredBy body) env.names := by
  induction body generalizing env s with
  | nil =>
      cases h
      exact (Scope.declare_empty env.names).symm
  | cons stmt rest ih =>
      obtain ⟨_, mid, u, hfirst, hrest⟩ := Exec.outcome_bind_eq_ok_iff.1 h
      obtain ⟨hstmt, htidy⟩ := List.forall_mem_cons.1 htidy
      -- what the first statement declares is in scope in the rest
      rw [ih htidy hrest]
      cases hdeclared : stmt.declared? with
      | none =>
          rw [names_eq_of_tidy hstmt hdeclared hfirst, declaredBy_cons_of_eq_none rest hdeclared]
      | some name =>
          obtain ⟨token, initializer, rfl⟩ :
              ∃ token initializer, stmt = .var token initializer := by
            cases stmt <;> first
              | exact ⟨_, _, rfl⟩
              | cases hdeclared
          rw [names_eq_of_var hfirst, Scope.declare_declare, declaredBy_cons_of_eq_some rest rfl,
            Finset.insert_eq]

theorem Rounds.names_eq {condition : Expr} {body : Stmt} {rounds : Nat} (htidy : body.Tidy)
    (hnone : body.declared? = none) (h : Rounds sink fuel condition body rounds env s after t) :
    after.names = env.names := by
  induction h with
  | zero => rfl
  | succ hvalue _ hbody _ ih => rw [ih, names_eq_of_tidy htidy hnone hbody, Expr.names_eq hvalue]

end Stmt

/-! ## The names where an execution comes -/

namespace Node

variable {node part last : Node} {i : Nat} {path : List Nat}

/-- One step keeps to the static scope. -/
theorem Leads.names_eq (htidy : node.Tidy) (h : Leads sink fuel node env s i part mid t) :
    mid.names = node.scopeAt env.names i := by
  cases h with
  | binaryRight hleft => exact Expr.names_eq hleft
  | logicalRight hleft _ => exact Expr.names_eq hleft
  | block => exact env.names_enter
  | item _ hbefore =>
      exact names_eq_of_all (fun stmt hmem => htidy stmt (List.mem_of_mem_take hmem)) hbefore
  | ifBranch hvalue _ => exact Expr.names_eq hvalue
  | thenBranch hvalue _ => exact Expr.names_eq hvalue
  | elseBranch hvalue _ => exact Expr.names_eq hvalue
  | loopCondition _ hrounds =>
      cases htidy with
      | loop _ hbody hnone => exact hrounds.names_eq hbody hnone
  | loopBody _ hrounds hvalue _ =>
      cases htidy with
      | loop _ hbody hnone => exact (Expr.names_eq hvalue).trans (hrounds.names_eq hbody hnone)
  | _ => rfl

/-- Wherever an execution comes, the frames bind what is statically in scope. -/
theorem Reaches.at?_eq (htidy : node.Tidy) (h : Reaches sink fuel node env s path last after t) :
    node.at? env.names path = some (after.names, last) := by
  induction h with
  | here => rfl
  | step hstep _ ih =>
      -- the part is reached with the names that its own scope has
      rw [at?, hstep.part_eq, Option.bind_some, ← hstep.names_eq htidy]
      exact ih (htidy.of_mem_parts (List.mem_of_getElem? hstep.part_eq))

end Node

/-- What an expression has evaluated before it looks a name up has changed no names. -/
theorem Expr.LooksUp.names_eq {expr : Expr} {name : Token} (h : expr.LooksUp env name after) :
    after.names = env.names := by
  cases h with
  | «variable» => rfl
  | assign hvalue => exact Expr.names_eq hvalue

theorem Scope.level?_eq_none_iff {scope : Scope} {name : String} :
    scope.level? name = none ↔ ∀ names ∈ scope, name ∉ names := by
  simp [level?]

/-! ## Programs -/

open Node in
/-- The program, run over these globals, is scoped as its tree tells. -/
structure LexicallyScoped (sink : Sink (StateM σ)) (fuel : Nat) (program : List Stmt)
    (globals : Frame) (s : σ) : Prop where
  /-- Where the execution comes, the frames bind exactly the names that are in scope. -/
  names_eq : ∀ path node env t,
    Reaches sink fuel (.statements program) ⟨globals, []⟩ s path node env t →
      (Node.statements program).at? [Frame.names globals] path = some (env.names, node)
  /-- A name is found in the frame of the level that it has in the scope. -/
  level_eq : ∀ path expr env t name after,
    Reaches sink fuel (.statements program) ⟨globals, []⟩ s path (.expression expr) env t →
      expr.LooksUp env name after → ∃ scope,
        (Node.statements program).at? [Frame.names globals] path = some (scope, .expression expr) ∧
        after.level? name.lexeme = scope.level? name.lexeme
  /-- A name is undefined exactly if it is looked up and is not in scope. -/
  undefined_iff : ∀ name,
    (Exec.outcome (interpret sink fuel program) ⟨globals, []⟩ s).result =
        .error (.runtime ⟨.undefinedVariable, name⟩) ↔
      ∃ path scope expr env t after,
        Reaches sink fuel (.statements program) ⟨globals, []⟩ s path (.expression expr) env t ∧
        expr.LooksUp env name after ∧
        (Node.statements program).at? [Frame.names globals] path = some (scope, .expression expr) ∧
        ∀ names ∈ scope, name.lexeme ∉ names

/-- Tidy programs are lexically scoped. -/
theorem lexicallyScoped_of_tidy (sink : Sink (StateM σ)) (fuel : Nat) (globals : Frame) (s : σ)
    {program : List Stmt} (htidy : (Node.statements program).Tidy) :
    LexicallyScoped sink fuel program globals s where
  names_eq path node env t hreaches := hreaches.at?_eq htidy
  level_eq path expr env t name after hreaches hlooks := by
    refine ⟨env.names, hreaches.at?_eq htidy, ?_⟩
    rw [Environment.level?_eq, hlooks.names_eq]
  undefined_iff name := by
    rw [interpret_eq_error_iff]
    show (Node.statements program).Undefined sink fuel ⟨globals, []⟩ s name ↔ _
    rw [Node.undefined_iff]
    constructor
    · rintro ⟨path, expr, env, t, after, hreaches, hlooks, hnone⟩
      refine ⟨path, env.names, expr, env, t, after, hreaches, hlooks, hreaches.at?_eq htidy, ?_⟩
      rw [Environment.level?_eq, hlooks.names_eq] at hnone
      exact Scope.level?_eq_none_iff.1 hnone
    · rintro ⟨path, scope, expr, env, t, after, hreaches, hlooks, hplace, hnone⟩
      refine ⟨path, expr, env, t, after, hreaches, hlooks, ?_⟩
      have hscope := (hreaches.at?_eq htidy).symm.trans hplace
      cases hscope
      rw [Environment.level?_eq, hlooks.names_eq]
      exact Scope.level?_eq_none_iff.2 hnone

/-- Accepted programs are lexically scoped, over any globals, with any sink, and for
however many turns their loops are run. -/
theorem lexicallyScoped_of_parse (sink : Sink (StateM σ)) (fuel : Nat) (globals : Frame) (s : σ)
    {tokens : List Token} {program : List Stmt} (h : parse tokens = .ok program) :
    LexicallyScoped sink fuel program globals s :=
  lexicallyScoped_of_tidy sink fuel globals s (tidy_of_parse_eq_ok h)

/-- The tokens of `{ var a; } print a;`, where the second `a` is not in scope. -/
def strayPrint : List Token :=
  [⟨.symbol .leftBrace, "\x7b", 1⟩, ⟨.keyword .var, "var", 1⟩, ⟨.identifier "a", "a", 1⟩,
    ⟨.symbol .semicolon, ";", 1⟩, ⟨.symbol .rightBrace, "\x7d", 1⟩, ⟨.keyword .print, "print", 1⟩,
    ⟨.identifier "a", "a", 1⟩, ⟨.symbol .semicolon, ";", 1⟩]

theorem lexicallyScoped_strayPrint :
    ∃ program, parse strayPrint = .ok program ∧
      LexicallyScoped ⟨fun _ => pure (), pure ()⟩ 1 program ∅ () := by
  have hparse : parse strayPrint = .ok [.block [.var ⟨.identifier "a", "a", 1⟩ none],
      .print (.variable ⟨.identifier "a", "a", 1⟩)] := rfl
  exact ⟨_, hparse, lexicallyScoped_of_parse _ 1 ∅ () hparse⟩

end Lox
