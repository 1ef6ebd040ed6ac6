import Lox.Proofs.Grammar.Completeness

/-!
# Which programs are accepted

The programs that are accepted are those that the grammar derives, and what comes of
one is its tree.  So a program has at most one tree: reading is a function, and it
yields every tree that the program has.
-/

namespace Lox

open Grammar Rule Phrase

variable {tokens rest : List Token} {program : List Stmt}

/-- A program is accepted if it is read without a fault. -/
theorem parse_eq_ok_iff_reads :
    parse tokens = .ok program ↔
      ∃ rest, Grammar.program.Reads (programTokens tokens) program rest #[] := by
  unfold parse Reads
  generalize Grammar.program (programTokens tokens) = parsed
  rcases parsed with ⟨fault | accepted, left, ⟨reported⟩⟩
  · simp
  · cases reported with
    | nil => simp [Parsed.faults, eq_comm]
    | cons fault others => simp [Parsed.faults]

/-- Nothing but the end of the tokens ends a program. -/
theorem reads_program_iff {misplaced : List Token} :
    (∃ reported, Grammar.program.Reads tokens program rest reported ∧ Marks reported misplaced) ↔
      rest = [] ∧ Declarations maxNesting tokens program misplaced := by
  constructor
  · rintro ⟨reported, hread, hmarks⟩
    obtain ⟨w, rfl, hphrase, hend⟩ := sound_declarations (orderly_declarationAt maxNesting)
      (consumes_declarationAt maxNesting)
      (sound_declaration (sound_expression maxNesting) (sound_statement maxNesting)) hread hmarks
    -- no kind of token ends a program
    obtain rfl : rest = [] := by
      cases hend with
      | inl hnil => exact hnil
      | inr hlast => cases rest <;> simp at hlast
    exact ⟨rfl, by simpa using hphrase⟩
  · rintro ⟨rfl, hphrase⟩
    have hturns := hphrase.turns (fun _ => false) [] (.inl rfl) (by simp) rfl
    obtain ⟨reported, hread, hmarks⟩ := ReadsDeclarations.reads hturns
    rw [List.append_nil] at hread
    exact ⟨reported, hread, hmarks⟩

/-- A program is read without a fault exactly if the grammar derives it. -/
theorem reads_program_iff_derives :
    (∃ rest, Grammar.program.Reads tokens program rest #[]) ↔
      Declarations maxNesting tokens program [] := by
  constructor
  · rintro ⟨rest, hread⟩
    exact (reads_program_iff.1 ⟨#[], hread, by simp⟩).2
  · intro hphrase
    obtain ⟨reported, hread, hmarks⟩ := reads_program_iff.2 ⟨rfl, hphrase⟩
    obtain rfl := marks_nil.1 hmarks
    exact ⟨[], hread⟩

theorem derives_of_parse_eq_ok (h : parse tokens = .ok program) :
    Declarations maxNesting (programTokens tokens) program [] :=
  reads_program_iff_derives.1 (parse_eq_ok_iff_reads.1 h)

theorem parse_eq_ok_of_derives (h : Declarations maxNesting (programTokens tokens) program []) :
    parse tokens = .ok program :=
  parse_eq_ok_iff_reads.2 (reads_program_iff_derives.2 h)

/-- A program is accepted exactly if its tokens, up to the first that marks an end, are
derived by the grammar within the nesting limit, and then it is the tree of the
derivation that comes of it. -/
theorem parse_eq_ok_iff_derives (tokens : List Token) (program : List Stmt) :
    parse tokens = .ok program ↔ Declarations maxNesting (programTokens tokens) program [] := by
  rw [parse_eq_ok_iff_reads, reads_program_iff_derives]

/-- The tokens of a program have one tree. -/
theorem Phrase.Declarations.tree_unique {first second : List Stmt}
    (hfirst : Declarations maxNesting tokens first [])
    (hsecond : Declarations maxNesting tokens second []) : first = second := by
  obtain ⟨_, hread⟩ := reads_program_iff_derives.2 hfirst
  obtain ⟨_, hother⟩ := reads_program_iff_derives.2 hsecond
  have heq := hread.symm.trans hother
  cases heq
  rfl

end Lox
