import Lox.Proofs.Grammar.Ending
import Lox.Proofs.Grammar.Nesting

/-!
# Programs one after another

Between two declarations nothing is carried over but the statements that have been read, and
the end of a declaration depends on the next token only where that is an `else`.  So what
comes of a program that follows another one is what comes of it on its own, its mistakes
included: they are found at the same tokens, for a rule does not see what was before these.
-/

namespace Lox

open Grammar Rule

namespace Phrase

variable {levels : Nat} {isLast : Token.Kind → Bool} {w rest rest' : List Token}
  {reversed last : List Stmt} {after : Array Fault}

/-- After declarations without a mistake their list goes on as it would without them. -/
theorem Declarations.continues {body : List Stmt}
    (hlast : ∀ kind, beginsDeclaration kind = true → isLast kind = false)
    (helse : starts (·.isKeyword .«else») rest = false)
    (hturns : Turns (declarationTurn isLast (declarationAt levels)) (body.reverse ++ reversed) rest
      last rest' after)
    (hbody : Declarations levels w body []) :
    Turns (declarationTurn isLast (declarationAt levels)) reversed (w ++ rest) last rest'
      after := by
  -- over the declarations, the first of which is read in the first turn
  induction body generalizing w reversed with
  | nil =>
      cases hbody
      exact hturns
  | cons stmt body ih =>
      generalize hmisplaced : ([] : List Token) = misplaced at hbody
      cases hbody with
      | @cons _ u v _ _ _ _ hfirst hmore =>
          obtain ⟨rfl, rfl⟩ := List.append_eq_nil_iff.1 hmisplaced.symm
          obtain ⟨reported, hread, hmarks⟩ := hfirst.reads (v ++ rest) (hmore.not_else helse)
          obtain rfl := marks_nil.1 hmarks
          have hnot := not_starts_append hfirst.begins hlast (v ++ rest)
          have hne : u ++ (v ++ rest) ≠ [] := by
            intro hnil
            have hbegins := starts_append hfirst.begins (v ++ rest)
            simp [hnil] at hbegins
          have hturn : declarationTurn isLast (declarationAt levels) reversed (u ++ (v ++ rest)) =
              some ⟨.ok (stmt :: reversed), v ++ rest, #[]⟩ :=
            declarationTurn_eq_some_iff.2 ⟨hne, hnot, .inl ⟨stmt, hread, rfl⟩⟩
          have hturns' : Turns (declarationTurn isLast (declarationAt levels))
              (body.reverse ++ stmt :: reversed) rest last rest' after := by simpa using hturns
          have hrest := ih hturns' hmore
          simpa using Turns.turn hturn hrest

end Phrase

variable {first second : List Token} {program : List Stmt}

theorem programTokens_append (hfirst : ∀ token ∈ first, token.kind.isEnd = false) :
    programTokens (first ++ second) = first ++ programTokens second :=
  List.takeWhile_append_of_pos fun token htoken => by simp [hfirst token htoken]

theorem endMark_append (hfirst : ∀ token ∈ first, token.kind.isEnd = false) :
    endMark (first ++ second) = endMark second := by
  unfold endMark
  rw [List.find?_append, List.find?_eq_none.2 fun token htoken => by simp [hfirst token htoken]]
  rfl

/-- A program that follows an accepted one is read as it is on its own, unless it begins with an
`else`: with its statements after those of the first, or with the same mistakes. -/
theorem parse_append (hfirst : ∀ token ∈ first, token.kind.isEnd = false)
    (hparse : parse first = .ok program) (helse : starts (·.isKeyword .«else») second = false) :
    parse (first ++ second) = (parse second).map (program ++ ·) := by
  obtain ⟨more, reported, hread⟩ := exists_reads_programAt maxNesting (programTokens second)
  have hprogram := derives_of_parse_eq_ok hparse
  have hself : programTokens first = first := by
    simpa [programTokens] using @programTokens_append first [] hfirst
  rw [hself] at hprogram
  have helse' : starts (·.isKeyword .«else») (programTokens second) = false := by
    cases second with
    | nil => rfl
    | cons token tail =>
        unfold programTokens
        rw [List.takeWhile_cons]
        split
        · exact helse
        · rfl
  -- the turns for the second program, with the statements of the first below its own
  have hturns : Turns (programTurn maxNesting) (program.reverse ++ []) (programTokens second)
      (more.reverse ++ program.reverse) [] reported := by
    simpa using turns_declarationTurn_append (reads_programAt.1 hread)
  have hjoined := hprogram.continues (fun _ _ => rfl) helse' hturns
  have hwhole : (programAt maxNesting).Reads (programTokens (first ++ second)) (program ++ more) []
      reported := by
    rw [programTokens_append hfirst]
    exact reads_programAt.2 (by simpa using hjoined)
  rw [parse_of_reads hwhole, parse_of_reads hread, endMark_append hfirst]
  split
  · rfl
  · rfl

/-- A statement before a semicolon that stands alone, which is a mistake. -/
theorem parse_append_stray :
    (∀ token ∈ Sum.tokens 0 ++ [Sum.semicolon], token.kind.isEnd = false) ∧
      parse (Sum.tokens 0 ++ [Sum.semicolon]) = .ok [.expression (Sum.tree 0)] ∧
      starts (·.isKeyword .«else») [Sum.semicolon] = false ∧
      parse (Sum.tokens 0 ++ [Sum.semicolon] ++ [Sum.semicolon]) =
        .error [⟨.missingExpression, Sum.semicolon⟩] := by
  have hend : ∀ token ∈ Sum.tokens 0 ++ [Sum.semicolon], token.kind.isEnd = false := by
    simp [Sum.tokens, Sum.summand, Sum.semicolon, Token.Kind.isEnd]
  have hparse := Sum.parse_tokens 0
  have hstray : parse [Sum.semicolon] = .error [⟨.missingExpression, Sum.semicolon⟩] := rfl
  have helse : starts (·.isKeyword .«else») [Sum.semicolon] = false := rfl
  have hjoined := parse_append hend hparse helse
  rw [hstray] at hjoined
  exact ⟨hend, hparse, helse, hjoined⟩

end Lox
