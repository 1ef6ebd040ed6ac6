import Lox.Proofs.Grammar.Ending

/-!
# Assignments to something else than a name

In the wider grammar anything that operators make may stand to the left of an `=`.  A program
that is derived by it is read to its end, and what is reported are the `=` tokens whose left
side is no name, each once.  The parser goes on after each of them as if nothing had been wrong.
-/

namespace Lox

open Grammar Rule Phrase

/-- What operators make may be assigned to, be it a name or not. -/
theorem Phrase.Assignment.of_equals {levels : Nat} {equals : Token}
    {w v misplaced misplaced' : List Token} {target value : Expr}
    (htarget : Operators Level.all levels w target misplaced)
    (hequals : equals.kind = .symbol .equal) (hvalue : Expression levels v value misplaced') :
    ∃ expr marked, Assignment levels (w ++ equals :: v) expr marked := by
  by_cases hname : ∃ name, target = .variable name
  · obtain ⟨name, rfl⟩ := hname
    obtain ⟨rfl, hidentifier, rfl⟩ := operators_variable rfl htarget
    exact ⟨_, _, .assign hidentifier hequals hvalue⟩
  · have hother : ∀ name, target ≠ .variable name := fun name heq => hname ⟨name, heq⟩
    exact ⟨_, _, .misassign htarget hother hequals hvalue⟩

/-- The errors for misplaced assignments are at their `=` tokens. -/
theorem map_toError_of_marks {reported : Array Fault} {misplaced : List Token} (endMark : Token)
    (h : Marks reported misplaced) :
    reported.toList.map (Fault.toError endMark) =
      misplaced.map fun equals => ⟨.invalidAssignmentTarget, equals⟩ := by
  let error (found : SyntaxError.Cause × Option Token) : SyntaxError :=
    ⟨found.1, found.2.getD endMark⟩
  calc
    reported.toList.map (Fault.toError endMark) =
        (reported.toList.map fun fault => (fault.cause, fault.left.head?)).map error := by
      rw [List.map_map]
      rfl
    _ = (misplaced.map fun equals => (.invalidAssignmentTarget, some equals)).map error := by
      rw [show reported.toList.map _ = _ from h]
    _ = misplaced.map fun equals => ⟨.invalidAssignmentTarget, equals⟩ := by
      rw [List.map_map]
      rfl

/-- A program of the wider grammar is accepted if all its assignments are to names.  Otherwise
each `=` whose left side is no name is reported once, and nothing else is. -/
theorem misplaced_assignments_reported {tokens misplaced : List Token} {program : List Stmt}
    (h : Declarations maxNesting (programTokens tokens) program misplaced) :
    parse tokens =
      if misplaced = [] then .ok program
      else .error (misplaced.map fun equals => ⟨.invalidAssignmentTarget, equals⟩) := by
  obtain ⟨reported, hread, hmarks⟩ := reads_program_iff.2 ⟨rfl, h⟩
  rw [parse_of_reads hread, map_toError_of_marks _ hmarks]
  by_cases hnone : misplaced = []
  · subst hnone
    rw [if_pos rfl, if_pos (marks_nil.1 hmarks)]
  · have hsome : reported ≠ #[] := by
      rintro rfl
      exact hnone (marks_empty.1 hmarks)
    rw [if_neg hnone, if_neg hsome]

namespace Chain

/-- A literal. -/
def literal : Token := ⟨.keyword .nil, "nil", 1⟩

/-- An equals sign on a line of its own. -/
def equals (line : Int32) : Token := ⟨.symbol .equal, "=", line⟩

/-- The end of the statement. -/
def semicolon : Token := ⟨.symbol .semicolon, ";", 1⟩

/-- The statement `nil = nil = nil;`. -/
def tokens : List Token := [literal, equals 1, literal, equals 2, literal, semicolon]

end Chain

open Chain in
/-- Of two assignments to literals in one another the inner one is reported first. -/
theorem misplaced_assignments_reported_chain :
    Declarations maxNesting (programTokens tokens) [.expression (.literal .nil)]
        [equals 2, equals 1] ∧
      parse tokens = .error [⟨.invalidAssignmentTarget, equals 2⟩,
        ⟨.invalidAssignmentTarget, equals 1⟩] := by
  have hliteral (levels : Nat) : Operators Level.all levels [literal] (.literal .nil) [] :=
    .tighter (.tighter (.tighter (.tighter (.tighter (.tighter
      (.unary (.primary (.literal rfl))))))))
  have hother (name : Token) : Expr.literal .nil ≠ .variable name := by simp
  have hlast : Expression 252 [literal] (.literal .nil) [] := .nested (.operators (hliteral 251))
  have hinner : Expression 253 [literal, equals 2, literal] (.literal .nil) [equals 2] :=
    .nested (.misassign (hliteral 252) hother rfl hlast)
  have houter : Expression 254 [literal, equals 1, literal, equals 2, literal] (.literal .nil)
      [equals 2, equals 1] := .nested (.misassign (hliteral 253) hother rfl hinner)
  have hprogram : Declarations maxNesting (programTokens tokens) [.expression (.literal .nil)]
      [equals 2, equals 1] :=
    .cons (.statement (.expression houter (show semicolon.kind = .symbol .semicolon from rfl))) .nil
  exact ⟨hprogram, misplaced_assignments_reported hprogram⟩

end Lox
