import Lox.Proofs.Grammar.Lookahead
import Lox.Proofs.Grammar.Viability

/-!
# The first error is where the program goes wrong

Misplaced assignments apart, the first error of a program is at the first token with which no
program begins.  What comes before this token can be completed, as `viable_programAt` shows.  If
it could be completed with the token, too, the parser would fail on this other program in the
same way (`follows_programAt`), though it reads every program of the wider grammar.
-/

namespace Lox

open Grammar Rule Phrase

namespace Phrase

/-- Tokens that the wider grammar derives, with any nesting. -/
def Sentence (w : List Token) : Prop :=
  ∃ levels program misplaced, Declarations levels w program misplaced

/-- Tokens with which such a sentence begins. -/
def BeginsSentence (w : List Token) : Prop := ∃ v, Sentence (w ++ v)

/-- Declarations are read to their end, and nothing but misplaced assignments is reported. -/
theorem Declarations.reads_clean {levels : Nat} {w misplaced : List Token} {program : List Stmt}
    (h : Declarations levels w program misplaced) :
    ∃ reported, (programAt levels).Reads w program [] reported ∧ Clean reported := by
  have hturns := h.turns (fun _ => false) [] (.inl rfl) (by simp) rfl
  obtain ⟨reported, hread, hmarks⟩ := ReadsDeclarations.reads hturns
  rw [List.append_nil] at hread
  exact ⟨reported, hread, clean_iff_exists_marks.2 ⟨misplaced, hmarks⟩⟩

/-- Where a program fails, none goes on with the same next token. -/
theorem not_sentence_of_fails {levels : Nat} {w left left' : List Token}
    {cause : SyntaxError.Cause} (h : (programAt levels).Fails (w ++ left) ⟨cause, left⟩)
    (hnesting : cause ≠ .tooMuchNesting) (hhead : left.head? = left'.head?) :
    ¬ Sentence (w ++ left') := by
  rintro ⟨more, program, misplaced, hphrase⟩
  -- with levels enough for both the parser would read the sentence and fail on it
  have hfollows := follows_programAt hhead (Nat.le_max_left levels more)
  have hfails := hfollows.fails h hnesting
  obtain ⟨reported, hread, hclean⟩ := (hphrase.mono (Nat.le_max_right levels more)).reads_clean
  exact hclean.not_firstStop ((fails_of_reads hread).1 hfails)

end Phrase

theorem firstStop_of_find? {faults : List Fault} {fault : Fault}
    (hmarks : ∀ mark ∈ faults, mark.cause = .invalidAssignmentTarget → mark.left ≠ [])
    (h : faults.find? (·.cause != .invalidAssignmentTarget) = some fault) :
    FirstStop fault faults := by
  induction faults with
  | nil => cases h
  | cons found others ih =>
      obtain ⟨hfound, hothers⟩ := List.forall_mem_cons.1 hmarks
      by_cases hcause : found.cause = .invalidAssignmentTarget
      · rw [List.find?_cons_of_neg (by simpa using hcause)] at h
        exact .later ⟨hcause, hfound hcause⟩ (ih hothers h)
      · rw [List.find?_cons_of_pos (by simpa using hcause)] at h
        obtain rfl := Option.some.inj h
        exact .here hcause

/-- The first error that is not a misplaced assignment is that of the first such fault. -/
theorem exists_fails_of_find? {tokens : List Token} {errors : List SyntaxError}
    {error : SyntaxError} (hparse : parse tokens = .error errors)
    (herror : errors.find? (·.cause != .invalidAssignmentTarget) = some error) :
    ∃ fault, Grammar.program.Fails (programTokens tokens) fault ∧
      error = fault.toError (endMark tokens) := by
  obtain ⟨program, reported, hread⟩ := exists_reads_programAt maxNesting (programTokens tokens)
  have horder := inOrder_of_turns (orderly_declarationAt maxNesting)
    (closed_inOrder.declarationAt maxNesting) (reads_programAt.1 hread) (.ok program)
  have hmarks : ∀ mark ∈ reported.toList, mark.cause = .invalidAssignmentTarget →
      mark.left ≠ [] := by
    intro mark hmem hcause hnil
    have hequals := horder.atEquals mark (Array.mem_toList_iff.1 hmem) hcause
    simp [hnil] at hequals
  rw [parse_of_reads hread] at hparse
  split at hparse
  · cases hparse
  · obtain rfl := Except.error.inj hparse
    rw [List.find?_map, Option.map_eq_some_iff] at herror
    obtain ⟨fault, hfind, rfl⟩ := herror
    exact ⟨fault, (fails_of_reads hread).2 (firstStop_of_find? hmarks hfind), rfl⟩

/-- The first error that is not a misplaced assignment is at the first token with which no
sentence of the wider grammar begins, unless there is too much nesting.  At the end of the
program it means that something is missing. -/
theorem first_error_located {tokens : List Token} {errors : List SyntaxError} {error : SyntaxError}
    (hparse : parse tokens = .error errors)
    (herror : errors.find? (·.cause != .invalidAssignmentTarget) = some error)
    (hnesting : error.cause ≠ .tooMuchNesting) :
    (∃ before after, programTokens tokens = before ++ error.token :: after ∧
        BeginsSentence before ∧ ¬ BeginsSentence (before ++ [error.token])) ∨
      (error.token = endMark tokens ∧ (∃ after, after ≠ [] ∧
        Sentence (programTokens tokens ++ after)) ∧ ¬ Sentence (programTokens tokens)) := by
  obtain ⟨⟨cause, left⟩, hfails, rfl⟩ := exists_fails_of_find? hparse herror
  obtain ⟨w, v, program, misplaced, heq, hphrase⟩ :=
    viable_programAt maxNesting hfails hnesting
  dsimp only at heq hnesting
  have hsentence : Sentence (w ++ v) := ⟨_, _, _, hphrase⟩
  have hfails' : (programAt maxNesting).Fails (w ++ left) ⟨cause, left⟩ := heq ▸ hfails
  rw [heq]
  cases left with
  | cons token after =>
      refine .inl ⟨w, after, rfl, ⟨v, hsentence⟩, ?_⟩
      rintro ⟨u, hlonger⟩
      rw [List.append_assoc] at hlonger
      have hhead : (token :: after).head? = (token :: u).head? := rfl
      exact not_sentence_of_fails hfails' hnesting hhead hlonger
  | nil =>
      have hnot := not_sentence_of_fails hfails' hnesting rfl
      rw [List.append_nil] at hnot ⊢
      refine .inr ⟨rfl, ⟨v, ?_, hsentence⟩, hnot⟩
      rintro rfl
      exact hnot (by simpa using hsentence)

open Chain in
/-- After a statement with misplaced assignments a semicolon stands alone. -/
theorem first_error_located_stray :
    parse (tokens ++ [semicolon]) = .error [⟨.invalidAssignmentTarget, equals 2⟩,
        ⟨.invalidAssignmentTarget, equals 1⟩, ⟨.missingExpression, semicolon⟩] ∧
      ∃ before after, programTokens (tokens ++ [semicolon]) = before ++ semicolon :: after ∧
        BeginsSentence before ∧ ¬ BeginsSentence (before ++ [semicolon]) := by
  have hparse : parse (tokens ++ [semicolon]) = .error [⟨.invalidAssignmentTarget, equals 2⟩,
      ⟨.invalidAssignmentTarget, equals 1⟩, ⟨.missingExpression, semicolon⟩] := rfl
  have herror : [⟨.invalidAssignmentTarget, equals 2⟩, ⟨.invalidAssignmentTarget, equals 1⟩,
      ⟨.missingExpression, semicolon⟩].find? (·.cause != .invalidAssignmentTarget) =
        some (⟨.missingExpression, semicolon⟩ : SyntaxError) := rfl
  have hlocated := first_error_located hparse herror (by decide)
  refine ⟨hparse, hlocated.resolve_right ?_⟩
  rintro ⟨hend, _⟩
  have hkind := congrArg (·.kind.isEnd) hend
  cases hkind

end Lox
