import Lox.Proofs.Execution.Outcome

/-!
# Fuel is inert

Fuel only bounds the turns of loops.  An execution that has ended for another reason than that
its fuel was used up ends in the same way with more fuel.
-/

namespace Lox

variable {α β σ : Type}

namespace Exec

/-- Unless the first execution runs out of fuel, the second does just the same. -/
def Extends (exec exec' : Exec (StateM σ) α) : Prop :=
  ∀ (env : Environment) (s : σ), (outcome exec env s).result ≠ .error .outOfFuel →
    outcome exec' env s = outcome exec env s

variable {exec exec' : Exec (StateM σ) α} {next next' : α → Exec (StateM σ) β}

theorem Extends.refl (exec : Exec (StateM σ) α) : Extends exec exec := fun _ _ _ => rfl

theorem extends_bind (h : Extends exec exec') (hnext : ∀ a, Extends (next a) (next' a)) :
    Extends (exec >>= next) (exec' >>= next') := by
  intro env s hfuel
  have hfirst := h env s
  rw [outcome_bind] at hfuel ⊢
  rw [outcome_bind]
  generalize outcome exec env s = first at hfirst hfuel
  rcases first with ⟨stop | a, mid, t⟩
  · rw [hfirst (by simpa using hfuel)]
  · rw [hfirst (by simp)]
    exact hnext a mid t hfuel

theorem extends_inFrame (h : Extends exec exec') : Extends (inFrame exec) (inFrame exec') := by
  intro env s hfuel
  have hbody := h env.enter s hfuel
  rw [outcome_inFrame, outcome_inFrame, hbody]

/-- A loop that has ended in so many turns has no use for more. -/
theorem extends_whileTrue {condition : Exec (StateM σ) Bool} {body body' : Exec (StateM σ) Unit}
    (hbody : Extends body body') {fuel more : Nat} (hle : fuel ≤ more) :
    Extends (whileTrue condition body fuel) (whileTrue condition body' more) := by
  induction fuel generalizing more with
  | zero =>
      intro env s hfuel
      exact absurd rfl hfuel
  | succ fuel ih =>
      obtain ⟨more, rfl⟩ : ∃ less, more = less + 1 := ⟨more - 1, by omega⟩
      refine extends_bind (.refl condition) fun holds => ?_
      cases holds with
      | true => exact extends_bind hbody fun _ => ih (by omega)
      | false => exact .refl _

end Exec

namespace Stmt

open Exec

variable (sink : Sink (StateM σ)) {fuel more : Nat}

mutual

theorem extends_execute (hle : fuel ≤ more) : ∀ stmt : Stmt,
    Extends (execute sink fuel stmt) (execute sink more stmt)
  | .expression _ | .print _ | .var _ none | .var _ (some _) => .refl _
  | .block body => extends_inFrame (extends_executeAll hle body)
  | .ifThen condition thenBranch => by
      refine extends_bind (.refl _) fun value => ?_
      split
      · exact extends_execute hle thenBranch
      · exact .refl _
  | .ifElse condition thenBranch elseBranch => by
      refine extends_bind (.refl _) fun value => ?_
      split
      · exact extends_execute hle thenBranch
      · exact extends_execute hle elseBranch
  | .loop condition body => extends_whileTrue (extends_execute hle body) hle

theorem extends_executeAll (hle : fuel ≤ more) : ∀ body : List Stmt,
    Extends (executeAll sink fuel body) (executeAll sink more body)
  | [] => .refl _
  | stmt :: rest => extends_bind (extends_execute hle stmt) fun _ => extends_executeAll hle rest

end

theorem extends_interpret (hle : fuel ≤ more) (program : List Stmt) :
    Extends (interpret sink fuel program) (interpret sink more program) :=
  extends_bind (extends_executeAll sink hle program) fun _ => .refl _

end Stmt

end Lox
