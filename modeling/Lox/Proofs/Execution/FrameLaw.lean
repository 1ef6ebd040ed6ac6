import Lox.Proofs.Execution.Evolution
import Lox.Proofs.Execution.Outcome

/-!
# The frame law of execution

However an execution ends, the environment has evolved by what the tree declares and
assigns: `Keeps` says so of an execution, and each way of building an execution keeps it.
The trees may be any, also some that no source has, such as a declaration as the body of
a loop.

A block declares nothing outside itself: the frame in which it declares is closed in the
end.
-/

namespace Lox

/-! ## What a tree declares and assigns -/

/-- The names that an expression assigns to. -/
def Expr.assigns : Expr → Finset String
  | .literal _ | .variable _ => ∅
  | .grouping inner => inner.assigns
  | .unary _ right => right.assigns
  | .binary left _ right | .logical left _ right => left.assigns ∪ right.assigns
  | .assign name value => insert name.lexeme value.assigns

namespace Stmt

mutual

/-- The names that a statement assigns to. -/
def assigns : Stmt → Finset String
  | .expression expr | .print expr => expr.assigns
  | .var _ none => ∅
  | .var _ (some initializer) => initializer.assigns
  | .block body => assignsAll body
  | .ifThen condition thenBranch => condition.assigns ∪ assigns thenBranch
  | .ifElse condition thenBranch elseBranch =>
      condition.assigns ∪ (assigns thenBranch ∪ assigns elseBranch)
  | .loop condition body => condition.assigns ∪ assigns body

/-- The names that statements assign to. -/
def assignsAll : List Stmt → Finset String
  | [] => ∅
  | stmt :: rest => assigns stmt ∪ assignsAll rest

end

/-- The names that a statement declares outside of the blocks in it. -/
def declares : Stmt → Finset String
  | .var name _ => {name.lexeme}
  | .ifThen _ thenBranch => thenBranch.declares
  | .ifElse _ thenBranch elseBranch => thenBranch.declares ∪ elseBranch.declares
  | .loop _ body => body.declares
  | .expression _ | .print _ | .block _ => ∅

/-- The names that statements declare outside of the blocks in them. -/
def declaresAll : List Stmt → Finset String
  | [] => ∅
  | stmt :: rest => stmt.declares ∪ declaresAll rest

end Stmt

/-- What an execution that declares and assigns these names may do to an environment, however
it ends. -/
structure FrameLaw (declared assigned : Finset String) (before after : Environment) : Prop where
  depth_eq : after.depth = before.depth
  enclosing_names_eq : after.enclosing.map Frame.names = before.enclosing.map Frame.names
  evolves : before.Evolves declared assigned after

theorem Environment.Evolves.frameLaw {declared assigned : Finset String}
    {before after : Environment} (h : before.Evolves declared assigned after) :
    FrameLaw declared assigned before after :=
  ⟨h.depth_eq, h.enclosing_names_eq, h⟩

/-! ## Evaluations -/

variable {α β σ : Type} {declared assigned : Finset String} {env : Environment}

namespace Eval

/-- However it ends, the evaluation declares nothing and assigns to nothing but these names. -/
def Keeps (assigned : Finset String) (eval : Eval α) : Prop :=
  ∀ env : Environment, env.Evolves ∅ assigned (outcome eval env).2

theorem keeps_pure (a : α) : Keeps assigned (pure a : Eval α) := Environment.Evolves.refl

theorem keeps_ofExcept (result : Except RuntimeError α) :
    Keeps assigned (ofExcept result : Eval α) := by
  intro env
  rw [outcome_ofExcept]
  exact .refl env

theorem keeps_throw (error : RuntimeError) : Keeps assigned (throw error : Eval α) :=
  Environment.Evolves.refl

theorem Keeps.mono {eval : Eval α} {assigned' : Finset String} (h : Keeps assigned eval)
    (hsubset : assigned ⊆ assigned') : Keeps assigned' eval :=
  fun env => (h env).mono (Finset.Subset.refl _) hsubset

theorem Keeps.union_left {eval : Eval α} (h : Keeps assigned eval) (other : Finset String) :
    Keeps (assigned ∪ other) eval := h.mono Finset.subset_union_left

theorem Keeps.union_right {eval : Eval α} (h : Keeps assigned eval) (other : Finset String) :
    Keeps (other ∪ assigned) eval := h.mono Finset.subset_union_right

theorem keeps_bind {eval : Eval α} {next : α → Eval β} (h : Keeps assigned eval)
    (hnext : ∀ a, Keeps assigned (next a)) : Keeps assigned (eval >>= next) := by
  intro env
  have hfirst := h env
  rw [outcome_bind]
  generalize outcome eval env = first at hfirst
  rcases first with ⟨error | a, mid⟩
  · exact hfirst
  · exact hfirst.trans (hnext a mid)

end Eval

theorem Expr.keeps_eval (expr : Expr) : Eval.Keeps expr.assigns expr.eval := by
  induction expr with
  | literal value => exact Eval.keeps_pure value
  | grouping inner ih => exact ih
  | unary operator right ih => exact Eval.keeps_bind ih fun value => Eval.keeps_ofExcept _
  | binary left operator right ihLeft ihRight =>
      exact Eval.keeps_bind (ihLeft.union_left _) fun x =>
        Eval.keeps_bind (ihRight.union_right _) fun y => Eval.keeps_ofExcept _
  | logical left operator right ihLeft ihRight =>
      refine Eval.keeps_bind (ihLeft.union_left _) fun value => ?_
      have hright := ihRight.union_right left.assigns
      split
      · split
        · exact Eval.keeps_pure value
        · exact hright
      · split
        · exact hright
        · exact Eval.keeps_pure value
      · exact Eval.keeps_throw _
  | «variable» name =>
      intro env
      rw [outcome_variable]
      exact .refl env
  | assign name value ih =>
      intro env
      have hvalue := (ih env).mono (Finset.Subset.refl _) (Finset.subset_insert name.lexeme _)
      rw [outcome_assign]
      generalize Eval.outcome value.eval env = first at hvalue
      rcases first with ⟨error | x, mid⟩
      · exact hvalue
      · -- if the name is not bound, what the value has assigned to stays
        dsimp only
        unfold Environment.set
        cases hassign : mid.assign? name.lexeme x with
        | none => exact hvalue
        | some after => exact hvalue.trans (.assign? (Finset.mem_insert_self _ _) hassign)

/-! ## Executions -/

namespace Exec

/-- However it ends, the execution declares and assigns to nothing but these names. -/
def Keeps (declared assigned : Finset String) (exec : Exec (StateM σ) α) : Prop :=
  ∀ (env : Environment) (s : σ), env.Evolves declared assigned (outcome exec env s).env

variable {exec : Exec (StateM σ) α} {next : α → Exec (StateM σ) β}

theorem Keeps.mono {declared' assigned' : Finset String} (h : Keeps declared assigned exec)
    (hdeclared : declared ⊆ declared') (hassigned : assigned ⊆ assigned') :
    Keeps declared' assigned' exec :=
  fun env s => (h env s).mono hdeclared hassigned

theorem keeps_pure (a : α) : Keeps declared assigned (pure a : Exec (StateM σ) α) :=
  fun env _ => .refl env

theorem keeps_throw (stop : Stop) : Keeps declared assigned (throw stop : Exec (StateM σ) α) :=
  fun env _ => .refl env

theorem keeps_define {name : String} (value : Value) (h : name ∈ declared) :
    Keeps declared assigned (modify (·.define name value) : Exec (StateM σ) PUnit) := by
  intro env s
  rw [outcome_modify]
  exact .define env value h

theorem keeps_bind (h : Keeps declared assigned exec)
    (hnext : ∀ a, Keeps declared assigned (next a)) : Keeps declared assigned (exec >>= next) := by
  intro env s
  have hfirst := h env s
  rw [outcome_bind]
  generalize outcome exec env s = first at hfirst
  rcases first with ⟨stop | a, mid, t⟩
  · exact hfirst
  · exact hfirst.trans (hnext a mid t)

theorem keeps_ofEval {eval : Eval α} (h : eval.Keeps assigned) :
    Keeps declared assigned (ofEval eval : Exec (StateM σ) α) := by
  intro env s
  have heval := (h env).mono (Finset.empty_subset declared) (Finset.Subset.refl assigned)
  rw [outcome_ofEval]
  generalize Eval.outcome eval env = result at heval
  rcases result with ⟨error | a, after⟩ <;> exact heval

theorem keeps_map {f : α → β} (h : Keeps declared assigned exec) :
    Keeps declared assigned (f <$> exec) := by
  intro env s
  have hexec := h env s
  rw [outcome_map]
  generalize outcome exec env s = result at hexec
  rcases result with ⟨stop | a, mid, t⟩ <;> exact hexec

theorem keeps_ofSink (action : ExceptT SinkError (StateM σ) α) :
    Keeps declared assigned (ofSink action) := by
  intro env s
  rw [outcome_ofSink]
  rcases action s with ⟨error | a, t⟩ <;> exact .refl env

theorem keeps_inFrame (h : Keeps declared assigned exec) : Keeps ∅ assigned (inFrame exec) := by
  intro env s
  rw [outcome_inFrame]
  exact (h env.enter s).leave

/-- What every turn of a loop keeps, the loop keeps. -/
theorem keeps_whileTrue {condition : Exec (StateM σ) Bool} {body : Exec (StateM σ) Unit}
    (hcondition : Keeps declared assigned condition) (hbody : Keeps declared assigned body)
    (fuel : Nat) : Keeps declared assigned (whileTrue condition body fuel) := by
  induction fuel with
  | zero => exact keeps_throw .outOfFuel
  | succ fuel ih =>
      -- a turn, and then the loop with one turn less
      refine keeps_bind hcondition fun holds => ?_
      cases holds with
      | true => exact keeps_bind hbody fun _ => ih
      | false => exact keeps_pure ()

end Exec

/-! ## Statements -/

namespace Stmt

open Exec

variable (sink : Sink (StateM σ)) (fuel : Nat)

mutual

theorem keeps_execute : ∀ stmt : Stmt, Keeps stmt.declares stmt.assigns (execute sink fuel stmt)
  | .expression expr => keeps_bind (keeps_ofEval expr.keeps_eval) fun _ => keeps_pure ()
  | .print expr =>
      keeps_bind (keeps_ofEval expr.keeps_eval) fun value => keeps_ofSink _
  | .var name none => keeps_define .nil (Finset.mem_singleton_self _)
  | .var name (some initializer) =>
      keeps_bind (keeps_ofEval initializer.keeps_eval) fun value =>
        keeps_define value (Finset.mem_singleton_self _)
  | .block body => keeps_inFrame (keeps_executeAll body)
  | .ifThen condition thenBranch => by
      refine keeps_bind (keeps_ofEval (condition.keeps_eval.union_left _)) fun value => ?_
      split
      · exact (keeps_execute thenBranch).mono (Finset.Subset.refl _) Finset.subset_union_right
      · exact keeps_pure ()
  | .ifElse condition thenBranch elseBranch => by
      refine keeps_bind (keeps_ofEval (condition.keeps_eval.union_left _)) fun value => ?_
      split
      · refine (keeps_execute thenBranch).mono Finset.subset_union_left ?_
        exact Finset.subset_union_left.trans Finset.subset_union_right
      · refine (keeps_execute elseBranch).mono Finset.subset_union_right ?_
        exact Finset.subset_union_right.trans Finset.subset_union_right
  | .loop condition body =>
      keeps_whileTrue (keeps_map (keeps_ofEval (condition.keeps_eval.union_left _)))
        ((keeps_execute body).mono (Finset.Subset.refl _) Finset.subset_union_right) fuel

theorem keeps_executeAll : ∀ body : List Stmt,
    Keeps (declaresAll body) (assignsAll body) (executeAll sink fuel body)
  | [] => keeps_pure ()
  | stmt :: rest =>
      keeps_bind ((keeps_execute stmt).mono Finset.subset_union_left Finset.subset_union_left)
        fun _ => (keeps_executeAll rest).mono Finset.subset_union_right Finset.subset_union_right

end

theorem keeps_executeBlock (body : List Stmt) :
    Keeps ∅ (assignsAll body) (executeBlock sink fuel body) :=
  keeps_inFrame (keeps_executeAll sink fuel body)

theorem keeps_interpret (program : List Stmt) :
    Keeps (declaresAll program) (assignsAll program) (interpret sink fuel program) :=
  keeps_bind (keeps_executeAll sink fuel program) fun _ => keeps_ofSink _

end Stmt

end Lox
