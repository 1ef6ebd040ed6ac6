import Lox.Proofs.Grammar.Acceptance

/-!
# Loops come to an end

Every turn of a loop takes a token, so a loop ends with no bound on its turns, and what is
made of it with one turn for each token is what comes of it without a bound
(`loops_repeating`).

A declaration is either read or given up.  So a list of declarations goes on until there are
no more tokens, or until the one that ends it.  A program is ended by no token, so its tokens
are read to the last, whatever mistakes there are among them (`exists_reads_programAt`).
-/

namespace Lox

open Grammar Rule

namespace Rule

variable {α : Type}

/-- What comes of a loop that takes steps until there is none, or until one stops at a fault. -/
inductive Loops (step : α → List Token → Option (Parsed α)) : α → List Token → Parsed α → Prop
  | done {a : α} {tokens : List Token} :
      step a tokens = none → Loops step a tokens ⟨.ok a, tokens, #[]⟩
  | stopped {a : α} {tokens rest : List Token} {fault : Fault} {reported : Array Fault} :
      step a tokens = some ⟨.error fault, rest, reported⟩ →
        Loops step a tokens ⟨.error fault, rest, reported⟩
  | turn {a b : α} {tokens mid : List Token} {before : Array Fault} {parsed : Parsed α} :
      step a tokens = some ⟨.ok b, mid, before⟩ → Loops step b mid parsed →
        Loops step a tokens ⟨parsed.result, parsed.rest, before ++ parsed.reported⟩

variable {step : α → List Token → Option (Parsed α)} {a b : α} {tokens rest : List Token}
  {reported : Array Fault}

/-- With a turn for each token a loop ends for no other reason than without a bound. -/
private theorem loops_iterate (htakes : TakesTokens step) :
    ∀ (turns : List Token) (a : α) (tokens : List Token) (before : Array Fault),
      tokens.length ≤ turns.length →
        ∃ parsed, Loops step a tokens parsed ∧
          iterate step turns ⟨.ok a, tokens, before⟩ =
            ⟨parsed.result, parsed.rest, before ++ parsed.reported⟩ := by
  intro turns
  induction turns with
  | nil =>
      intro a tokens before hle
      obtain rfl : tokens = [] := by simpa using hle
      exact ⟨⟨.ok a, [], #[]⟩, .done (htakes.none_of_nil a), by simp [iterate]⟩
  | cons turn turns ih =>
      intro a tokens before hle
      cases hstep : step a tokens with
      | none => exact ⟨⟨.ok a, tokens, #[]⟩, .done hstep, by simp [iterate, hstep]⟩
      | some next =>
          obtain ⟨fault | b, mid, found⟩ := next
          · refine ⟨⟨.error fault, mid, found⟩, .stopped hstep, ?_⟩
            cases turns <;> simp [iterate, hstep]
          · have hlt : mid.length < tokens.length := htakes.shorter hstep
            rw [List.length_cons] at hle
            obtain ⟨parsed, hloops, heq⟩ := ih b mid (before ++ found) (by omega)
            refine ⟨_, .turn hstep hloops, ?_⟩
            simp [iterate, hstep, heq, Array.append_assoc]

theorem loops_repeating (htakes : TakesTokens step) (a : α) (tokens : List Token) :
    Loops step a tokens (repeating step a tokens) := by
  obtain ⟨parsed, hloops, heq⟩ := loops_iterate htakes tokens a tokens #[] (Nat.le_refl _)
  have hself : repeating step a tokens = parsed := by simpa [repeating] using heq
  rw [hself]
  exact hloops

/-- A loop is over where there is no further step. -/
theorem Turns.step_eq_none (h : Turns step a tokens b rest reported) : step b rest = none := by
  induction h with
  | done hnone => exact hnone
  | turn _ _ ih => exact ih

end Rule

namespace Grammar

variable {isLast : Token.Kind → Bool} {rule : Rule Stmt} {reversed last kept : List Stmt}
  {tokens rest : List Token} {reported : Array Fault}

/-- A turn of a list of declarations does not stop at a fault. -/
theorem exists_of_declarationTurn_eq_some {next : Parsed (List Stmt)}
    (h : declarationTurn isLast rule reversed tokens = some next) :
    ∃ body mid found, next = ⟨.ok body, mid, found⟩ := by
  cases tokens with
  | nil => simp [declarationTurn] at h
  | cons token tail =>
      unfold declarationTurn at h
      rw [Option.ite_none_left_eq_some, Option.some.injEq] at h
      obtain ⟨_, rfl⟩ := h
      rw [bind_apply]
      unfold recovering
      rcases rule (token :: tail) with ⟨fault | stmt, left, before⟩
      · exact ⟨_, _, _, rfl⟩
      · exact ⟨_, _, _, rfl⟩

/-- With no bound on its turns a list of declarations comes to an end. -/
theorem exists_turns_declarationTurn (hrule : rule.Orderly) (hconsumes : rule.Consumes)
    (isLast : Token.Kind → Bool) (reversed : List Stmt) (tokens : List Token) :
    ∃ last rest reported,
      Turns (declarationTurn isLast rule) reversed tokens last rest reported := by
  have htakes := @takesTokens_declarationTurn isLast rule hrule hconsumes
  have hloops := loops_repeating htakes reversed tokens
  generalize repeating (declarationTurn isLast rule) reversed tokens = parsed at hloops
  induction hloops with
  | done hnone => exact ⟨_, _, #[], .done hnone⟩
  | stopped hsome =>
      obtain ⟨_, _, _, heq⟩ := exists_of_declarationTurn_eq_some hsome
      cases heq
  | turn hsome _ ih =>
      obtain ⟨last, rest, reported, hturns⟩ := ih
      exact ⟨last, rest, _, .turn hsome hturns⟩

/-- What has been read before is kept under what a list of declarations reads. -/
theorem turns_declarationTurn_append
    (h : Turns (declarationTurn isLast rule) reversed tokens last rest reported) :
    Turns (declarationTurn isLast rule) (reversed ++ kept) tokens (last ++ kept) rest reported := by
  induction h with
  | done hnone =>
      refine .done (declarationTurn_eq_none_iff.2 ?_)
      exact declarationTurn_eq_none_iff.1 hnone
  | turn hsome _ ih =>
      refine .turn (declarationTurn_eq_some_iff.2 ?_) ih
      obtain ⟨hne, hnot, ⟨stmt, hread, rfl⟩ | ⟨fault, left, before, hstop, rfl, rfl, rfl⟩⟩ :=
        declarationTurn_eq_some_iff.1 hsome
      · exact ⟨hne, hnot, .inl ⟨stmt, hread, rfl⟩⟩
      · exact ⟨hne, hnot, .inr ⟨fault, left, before, hstop, rfl, rfl, rfl⟩⟩

/-- The declarations of a program inside so many levels. -/
abbrev programAt (levels : Nat) : Rule (List Stmt) :=
  declarations (fun _ => false) (Grammar.expression levels) (Grammar.statement levels)

/-- One turn of a program inside so many levels. -/
abbrev programTurn (levels : Nat) : List Stmt → List Token → Option (Parsed (List Stmt)) :=
  declarationTurn (fun _ => false) (declarationAt levels)

theorem reads_programAt {levels : Nat} {body : List Stmt} :
    (programAt levels).Reads tokens body rest reported ↔
      Turns (programTurn levels) [] tokens body.reverse rest reported :=
  reads_declarations (orderly_declarationAt levels) (consumes_declarationAt levels)

/-- Whatever its tokens are, a program is read to its end. -/
theorem exists_reads_programAt (levels : Nat) (tokens : List Token) :
    ∃ body reported, (programAt levels).Reads tokens body [] reported := by
  obtain ⟨last, rest, reported, hturns⟩ :=
    exists_turns_declarationTurn (orderly_declarationAt levels) (consumes_declarationAt levels)
      (fun _ => false) [] tokens
  have hend : rest = [] := by
    rcases declarationTurn_eq_none_iff.1 hturns.step_eq_none with hnil | hlast
    · exact hnil
    · cases rest <;> simp at hlast
  subst hend
  refine ⟨last.reverse, reported, reads_programAt.2 ?_⟩
  rw [List.reverse_reverse]
  exact hturns

end Grammar

/-- What comes of a program, by the faults that have been reported in it. -/
theorem parse_of_reads {tokens rest : List Token} {program : List Stmt} {reported : Array Fault}
    (h : Grammar.program.Reads (programTokens tokens) program rest reported) :
    parse tokens =
      if reported = #[] then .ok program
      else .error (reported.toList.map (Fault.toError (endMark tokens))) := by
  unfold parse
  rw [show Grammar.program (programTokens tokens) = _ from h]
  obtain ⟨faults⟩ := reported
  cases faults with
  | nil => rfl
  | cons fault others => simp [Parsed.faults]

end Lox
