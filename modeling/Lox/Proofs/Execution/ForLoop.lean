import Lox.Proofs.Execution.Seam
import Lox.Proofs.Grammar.Placement
import Lox.Proofs.Grammar.Soundness
import Lox.Sink.Buffer

/-!
# The meaning of `for` statements

The language has no trees for `for` statements: one stands for a loop in which the increment
follows the body, in a block around both.  `ForLoop.run` is the meaning that its clauses have by
themselves, and there no frame is opened at a turn.  The two agree because the body of a `for`
statement is no declaration, so nothing comes into the frame of a turn
(`Stmt.execute_block_eq`).
-/

namespace Lox

open Exec Grammar Phrase

/-- The clauses of a `for` statement and its body.  Each clause may be left out. -/
structure ForLoop where
  initializer : Option Stmt
  condition : Option Expr
  increment : Option Expr
  body : Stmt

namespace ForLoop

/-! ## What is written -/

/-- The tokens after the keyword of a `for` statement are such clauses and such a body.  A
condition is written as an increment is: it is an expression, or nothing. -/
inductive Written (levels : Nat) : List Token → ForLoop → Prop
  | clauses {openEnd : Bool} {left semicolon right : Token} {w v u s : List Token}
      {loop : ForLoop} :
      left.kind = .symbol .leftParen → Initializer levels w loop.initializer [] →
        Increment levels v loop.condition [] → semicolon.kind = .symbol .semicolon →
        Increment levels u loop.increment [] → right.kind = .symbol .rightParen →
        Statement openEnd levels s loop.body [] →
        Written levels (left :: w ++ v ++ semicolon :: u ++ right :: s) loop

/-- The tree that the grammar has for the loop. -/
def tree (loop : ForLoop) : Stmt :=
  .forLoop loop.initializer (loop.condition.getD (.literal (.bool true))) loop.increment loop.body

/-- The tree of a turn. -/
def turnTree (loop : ForLoop) : Stmt :=
  match loop.increment with
  | none => loop.body
  | some increment => .block [loop.body, .expression increment]

/-- The tree of all turns. -/
def turnsTree (loop : ForLoop) : Stmt :=
  .loop (loop.condition.getD (.literal (.bool true))) loop.turnTree

/-- The initializer is in a block with the turns. -/
theorem tree_eq (loop : ForLoop) : loop.tree = match loop.initializer with
    | none => loop.turnsTree
    | some initializer => .block [initializer, loop.turnsTree] := by
  obtain ⟨initializer, condition, increment, body⟩ := loop
  cases initializer <;> cases increment <;> rfl

/-! ## What is done -/

section

variable {m : Type → Type} [Monad m] (sink : Sink m) (fuel : Nat) (loop : ForLoop)

/-- Whether there is a further turn.  There always is if there is no condition. -/
def holds : Exec m Bool :=
  match loop.condition with
  | none => return true
  | some condition => Value.isTruthy <$> ofEval condition.eval

/-- A turn: the body is executed, and then the increment is evaluated. -/
def turn : Exec m Unit := do
  loop.body.execute sink fuel
  match loop.increment with
  | none => return ()
  | some increment =>
      let _ ← ofEval increment.eval

/-- All turns, in the frame that is innermost at their start. -/
def turns : Exec m Unit := whileTrue loop.holds (loop.turn sink fuel) fuel

/-- The loop.  Only for the initializer a frame is opened, once. -/
def run : Exec m Unit :=
  match loop.initializer with
  | none => loop.turns sink fuel
  | some initializer => inFrame do
      initializer.execute sink fuel
      loop.turns sink fuel

end

variable {σ : Type} (sink : Sink (StateM σ)) (fuel : Nat) {loop : ForLoop}

theorem holds_eq (loop : ForLoop) :
    (Value.isTruthy <$> ofEval (loop.condition.getD (.literal (.bool true))).eval :
      Exec (StateM σ) Bool) = loop.holds := by
  unfold holds
  cases loop.condition with
  | none => rfl
  | some condition => rfl

/-- The block around the body and the increment does not show, if the body declares nothing. -/
theorem execute_turnTree (hbody : loop.body.declares = ∅) :
    loop.turnTree.execute sink fuel = loop.turn sink fuel := by
  unfold turnTree turn
  cases loop.increment with
  | none => exact (bind_pure _).symm
  | some increment =>
      have hnone : Stmt.declaresAll [loop.body, .expression increment] = ∅ := by
        simp [Stmt.declaresAll, Stmt.declares, hbody]
      dsimp only
      rw [Stmt.execute_block_eq sink fuel hnone]
      simp only [Stmt.executeAll, Stmt.execute, bind_assoc, pure_bind]

/-- The tree does what the loop does, if the body declares nothing. -/
theorem execute_tree (hbody : loop.body.declares = ∅) :
    loop.tree.execute sink fuel = loop.run sink fuel := by
  have hturns : loop.turnsTree.execute sink fuel = loop.turns sink fuel := by
    rw [turnsTree, Stmt.execute, holds_eq, execute_turnTree sink fuel hbody, turns]
  rw [tree_eq, run]
  cases loop.initializer with
  | none => exact hturns
  | some initializer =>
      show inFrame (Stmt.executeAll sink fuel [initializer, loop.turnsTree]) = inFrame _
      rw [Stmt.executeAll, Stmt.executeAll, Stmt.executeAll, hturns, bind_pure_unit]

/-! ## From the tokens to the loop -/

/-- A condition that is left out always holds. -/
theorem exists_condition {levels : Nat} {w misplaced : List Token} {expr : Expr}
    (h : Condition levels w expr misplaced) :
    ∃ condition, Increment levels w condition misplaced ∧
      condition.getD (.literal (.bool true)) = expr := by
  cases h with
  | absent => exact ⟨none, .absent, rfl⟩
  | expression hexpr => exact ⟨some expr, .expression hexpr, rfl⟩

/-- What is read as a `for` statement is written as a loop, and its tree is the loop's. -/
theorem exists_written {levels : Nat} {tokens rest : List Token} {stmt : Stmt}
    (h : (forStatement (expression levels) (statement levels)).Reads tokens stmt rest #[]) :
    ∃ w loop, tokens = w ++ rest ∧ Written levels w loop ∧ stmt = loop.tree := by
  obtain ⟨left, initializer, condition, semicolon, increment, right, body, _, _, _, _, _, _, _, _,
    rfl, hleft, hinit, hcond, hsemicolon, hincr, hright, hinner, rfl, hempty⟩ :=
    reads_forStatement.1 h
  -- nothing has been reported, so nothing in any of the clauses
  simp only [Array.empty_eq_append_iff, Array.append_eq_empty_iff] at hempty
  obtain ⟨rfl, rfl, rfl, rfl⟩ := hempty
  have hexpression := sound_expression levels
  have hnone : Rule.Marks #[] [] := Rule.marks_nil.2 rfl
  obtain ⟨w, rfl, hw⟩ := sound_forInitializer hexpression hinit hnone
  obtain ⟨v, rfl, hv⟩ := sound_forCondition hexpression hcond hnone
  obtain ⟨u, rfl, hu⟩ := sound_forIncrement hexpression hincr hnone
  obtain ⟨s, openEnd, rfl, hs, _⟩ := sound_statement levels hinner hnone
  obtain ⟨written, hwritten, rfl⟩ := exists_condition hv
  refine ⟨left :: w ++ v ++ semicolon :: u ++ right :: s, ⟨initializer, written, increment, body⟩,
    by simp, ?_, rfl⟩
  exact .clauses hleft hw hwritten hsemicolon hu hright hs

theorem Written.declares_body {levels : Nat} {w : List Token} (h : Written levels w loop) :
    loop.body.declares = ∅ := by
  cases h with
  | clauses _ _ _ _ _ _ hbody => exact hbody.tidy.1.declares_eq_empty hbody.tidy.2

end ForLoop

/-- A `for` statement that is accepted does what its clauses say, from every environment and with
every sink: the tree for it comes to the same as the loop. -/
theorem execute_forStatement {levels : Nat} {tokens rest : List Token} {stmt : Stmt}
    (h : (forStatement (expression levels) (statement levels)).Reads tokens stmt rest #[]) :
    ∃ w loop, tokens = w ++ rest ∧ ForLoop.Written levels w loop ∧
      ∀ {σ : Type} (sink : Sink (StateM σ)) (fuel : Nat) (env : Environment) (s : σ),
        outcome (stmt.execute sink fuel) env s = outcome (loop.run sink fuel) env s := by
  obtain ⟨w, loop, htokens, hwritten, rfl⟩ := ForLoop.exists_written h
  refine ⟨w, loop, htokens, hwritten, fun sink fuel env s => ?_⟩
  rw [ForLoop.execute_tree sink fuel hwritten.declares_body]

/-- The tokens of `(var a; !a; a = true) print a;`. -/
def printUnset : List Token :=
  [⟨.symbol .leftParen, "(", 1⟩, ⟨.keyword .var, "var", 1⟩, ⟨.identifier "a", "a", 1⟩,
    ⟨.symbol .semicolon, ";", 1⟩, ⟨.symbol .bang, "!", 1⟩, ⟨.identifier "a", "a", 1⟩,
    ⟨.symbol .semicolon, ";", 1⟩, ⟨.identifier "a", "a", 1⟩, ⟨.symbol .equal, "=", 1⟩,
    ⟨.keyword .true, "true", 1⟩, ⟨.symbol .rightParen, ")", 1⟩, ⟨.keyword .print, "print", 1⟩,
    ⟨.identifier "a", "a", 1⟩, ⟨.symbol .semicolon, ";", 1⟩]

/-- The tree for these tokens. -/
def printUnsetTree : Stmt :=
  .forLoop (some (.var ⟨.identifier "a", "a", 1⟩ none))
    (.unary ⟨.symbol .bang, "!", 1⟩ (.variable ⟨.identifier "a", "a", 1⟩))
    (some (.assign ⟨.identifier "a", "a", 1⟩ (.literal (.bool true))))
    (.print (.variable ⟨.identifier "a", "a", 1⟩))

theorem execute_forStatement_printUnset :
    (forStatement (expression 3) (statement 3)).Reads printUnset printUnsetTree [] #[] ∧
      ∃ loop, ForLoop.Written 3 printUnset loop ∧
        outcome (printUnsetTree.execute Buffer.sink 2) .empty {} =
          outcome (loop.run Buffer.sink 2) .empty {} ∧
        (outcome (loop.run Buffer.sink 2) .empty {}).sink.bytes = "nil\n".toUTF8 := by
  have hreads : (forStatement (expression 3) (statement 3)).Reads printUnset
      printUnsetTree [] #[] := rfl
  obtain ⟨w, loop, htokens, hwritten, hloop⟩ := execute_forStatement hreads
  rw [List.append_nil] at htokens
  subst htokens
  have hsame := hloop Buffer.sink 2 .empty {}
  refine ⟨hreads, loop, hwritten, hsame, ?_⟩
  rw [← hsame]
  rfl

end Lox
