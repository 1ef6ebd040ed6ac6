import Lox.Proofs.Cursor.Refinement
import Lox.Proofs.Grammar.Concatenation
import Lox.Proofs.Grammar.Recovery

/-!
# Nothing behind the first end

A program is ended by the first token that marks an end.  A walk that is given more tokens than
that comes to the place of the mark and no further, whatever it meets on the way, and what it
yields does not tell which tokens follow.  The mark itself can only be told from another one by
the errors that are at the end.
-/

namespace Lox

open Grammar Rule

variable {tokens tokens' : List Token} {mark : Token}

/-- The same error in a program that ends at another mark. -/
def SyntaxError.endingAt (mark : Token) (error : SyntaxError) : SyntaxError :=
  if error.token.kind.isEnd then { error with token := mark } else error

/-- The faults of a program are found at places in it. -/
theorem located_of_reads_program {program : List Stmt} {rest : List Token}
    {reported : Array Fault} (h : Grammar.program.Reads tokens program rest reported) :
    ∀ fault ∈ reported, fault.left <:+ tokens :=
  (inOrder_of_turns (orderly_declarationAt maxNesting) (closed_inOrder.declarationAt maxNesting)
    (reads_programAt.1 h) (.ok program)).located

/-- An error is at a token of the program or at the mark that ends it. -/
theorem Fault.token_toError {fault : Fault} (h : fault.left <:+ tokens) :
    (fault.toError mark).token ∈ tokens ∨ (fault.toError mark).token = mark := by
  obtain ⟨cause, left⟩ := fault
  cases left with
  | nil => exact .inr rfl
  | cons token tail => exact .inl (h.subset (List.mem_cons_self ..))

theorem Fault.endingAt_toError {fault : Fault} (h : fault.left <:+ programTokens tokens)
    (mark : Token) : (fault.toError (endMark tokens)).endingAt mark = fault.toError mark := by
  obtain ⟨cause, left⟩ := fault
  cases left with
  | nil =>
      have hend : (endMark tokens).kind.isEnd = true := by
        rw [kind_endMark]
        rfl
      exact if_pos hend
  | cons token tail =>
      have hend : token.kind.isEnd = false := isEnd_of_suffix h
      exact if_neg (by simpa [Fault.toError] using hend)

/-- Programs with the same tokens differ in the mark that ends them, and so do their errors. -/
theorem parse_endingAt (h : programTokens tokens' = programTokens tokens) :
    parse tokens' =
      (parse tokens).mapError (List.map (SyntaxError.endingAt (endMark tokens'))) := by
  obtain ⟨program, reported, hread⟩ := exists_reads_programAt maxNesting (programTokens tokens)
  have hlocated := located_of_reads_program hread
  have hread' : Grammar.program.Reads (programTokens tokens') program [] reported := by
    rw [h]
    exact hread
  rw [parse_of_reads hread, parse_of_reads hread']
  split
  · rfl
  · refine congrArg Except.error ?_
    rw [List.map_map]
    refine List.map_congr_left fun fault hmem => ?_
    exact (Fault.endingAt_toError (hlocated fault (Array.mem_toList_iff.1 hmem)) _).symm

/-- The errors of a program are at its tokens or at the mark that ends it. -/
theorem token_mem_of_parse {errors : List SyntaxError} (hparse : parse tokens = .error errors) :
    ∀ error ∈ errors, error.token ∈ programTokens tokens ∨ error.token = endMark tokens := by
  obtain ⟨program, reported, hread⟩ := exists_reads_programAt maxNesting (programTokens tokens)
  have hlocated := located_of_reads_program hread
  rw [parse_of_reads hread] at hparse
  split at hparse
  · cases hparse
  · cases hparse
    intro error hmem
    obtain ⟨fault, hfault, rfl⟩ := List.mem_map.1 hmem
    exact Fault.token_toError (hlocated fault (Array.mem_toList_iff.1 hfault))

/-- The first token that marks an end ends the program.  What follows it makes no difference, not
even to a walk, which could go on there: that comes to the place of the mark and no further, and
no error is at a token behind it.  Without a mark the program is the same, and its errors at the
end are at the mark that is implied. -/
theorem parse_up_to_first_end {before after : List Token}
    (hbefore : ∀ token ∈ before, token.kind.isEnd = false) (hmark : mark.kind.isEnd = true) :
    parse (before ++ mark :: after) = parse (before ++ [mark]) ∧
      parse before =
        (parse (before ++ [mark])).mapError (List.map (SyntaxError.endingAt impliedEnd)) ∧
      Walk.parse (before ++ mark :: after) = parse (before ++ [mark]) ∧
      (Walk.program (.start (before ++ mark :: after))).2.current = before.length ∧
      ∀ errors, parse (before ++ mark :: after) = .error errors →
        ∀ error ∈ errors, error.token ∈ before ∨ error.token = mark := by
  have hprogram (more : List Token) : programTokens (before ++ mark :: more) = before := by
    rw [programTokens_append hbefore]
    simp [programTokens, hmark]
  have hend (more : List Token) : endMark (before ++ mark :: more) = mark := by
    rw [endMark_append hbefore]
    simp [endMark, hmark]
  have hself : programTokens before = before := by
    simpa [programTokens] using @programTokens_append before [] hbefore
  have himplied : endMark before = impliedEnd := by
    simpa [endMark] using @endMark_append before [] hbefore
  have hsame : parse (before ++ mark :: after) = parse (before ++ [mark]) := by
    unfold parse
    rw [hprogram, hprogram, hend, hend]
  refine ⟨hsame, ?_, (Walk.parse_eq _).trans hsame, ?_, fun errors hparse => ?_⟩
  · have hother := @parse_endingAt (before ++ [mark]) before (hself.trans (hprogram []).symm)
    rw [himplied] at hother
    exact hother
  · obtain ⟨statements, reported, _, hwalk⟩ := Walk.program_start (before ++ mark :: after)
    rw [hwalk]
    show (programTokens (before ++ mark :: after)).length - 0 = before.length
    rw [hprogram, Nat.sub_zero]
  · have htokens := token_mem_of_parse hparse
    rw [hprogram, hend] at htokens
    exact htokens

/-- An expression without its semicolon, which stands behind the end. -/
theorem parse_up_to_first_end_unended :
    (∀ token ∈ [Sum.summand], token.kind.isEnd = false) ∧ (Token.atEnd 3).kind.isEnd = true ∧
      parse ([Sum.summand] ++ Token.atEnd 3 :: [Sum.semicolon]) =
        .error [⟨.unendedExpression, Token.atEnd 3⟩] ∧
      parse [Sum.summand] = .error [⟨.unendedExpression, impliedEnd⟩] ∧
      (Walk.program (.start ([Sum.summand] ++ Token.atEnd 3 :: [Sum.semicolon]))).2.current =
        1 := by
  have hbefore : ∀ token ∈ [Sum.summand], token.kind.isEnd = false := by
    simp [Sum.summand, Token.Kind.isEnd]
  have hmark : (Token.atEnd 3).kind.isEnd = true := rfl
  have hparse : parse ([Sum.summand] ++ [Token.atEnd 3]) =
      .error [⟨.unendedExpression, Token.atEnd 3⟩] := rfl
  obtain ⟨hsame, himplied, _, hcurrent, _⟩ :=
    @parse_up_to_first_end (Token.atEnd 3) [Sum.summand] [Sum.semicolon] hbefore hmark
  rw [hparse] at hsame himplied
  exact ⟨hbefore, hmark, hsame, himplied, hcurrent⟩

end Lox
