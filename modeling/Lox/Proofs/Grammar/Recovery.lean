import Lox.Proofs.Grammar.Closure

/-!
# Faults in order and in number

Reading goes forward, and after a fault it goes on behind it.  So the faults at which
declarations stop are found in the order of their places, each after the one before; only at
the end of the tokens can several be found, one for each block that is still open
(`Parsed.InOrder`).

A fault is paid for with a token.  A misplaced assignment has its `=`, a declaration that stops
before the end has the token that is dropped after it, and one that stops at the end has the
token at which it began.  So there are not more faults than tokens (`Parsed.Frugal`).
-/

namespace Lox

open Grammar Rule Phrase

/-! ## Places -/

/-- The tokens left at a later place are fewer, unless both places are the end. -/
def Passed (first later : List Token) : Prop :=
  later.length < first.length ∨ first = [] ∧ later = []

theorem Passed.of_suffix {first later rest : List Token} (h : Passed first later)
    (hsuffix : rest <:+ later) : Passed first rest := by
  rcases h with hlt | ⟨rfl, rfl⟩
  · exact .inl (Nat.lt_of_le_of_lt hsuffix.length_le hlt)
  · exact .inr ⟨rfl, List.suffix_nil.1 hsuffix⟩

/-- Recovery goes on behind the token at which a declaration stopped. -/
theorem passed_resume (left : List Token) : Passed left (resume left) := by
  cases left with
  | nil => exact .inr ⟨rfl, rfl⟩
  | cons token tail => exact .inl length_resume_lt

/-! ## Order -/

/-- What comes of reading has its faults in order: those at which something stopped are found one
after another, and before the place that has been reached. -/
structure Parsed.InOrder {α : Type} (tokens : List Token) (parsed : Parsed α) : Prop where
  suffix : parsed.rest <:+ tokens
  located : ∀ fault ∈ parsed.reported, fault.left <:+ tokens
  atEquals : ∀ fault ∈ parsed.reported, fault.cause = .invalidAssignmentTarget →
    starts (·.isSymbol .equal) fault.left = true
  passed : ∀ fault ∈ parsed.reported, fault.cause ≠ .invalidAssignmentTarget →
    Passed fault.left parsed.rest
  pairwise : parsed.reported.toList.Pairwise fun first later =>
    first.cause ≠ .invalidAssignmentTarget → later.cause ≠ .invalidAssignmentTarget →
      Passed first.left later.left

namespace Parsed.InOrder

variable {α β : Type} {tokens mid rest : List Token} {before reported : Array Fault}

theorem of_empty {result : Except Fault α} (h : rest <:+ tokens) :
    Parsed.InOrder tokens ⟨result, rest, #[]⟩ :=
  ⟨h, by simp, by simp, by simp, by simp⟩

/-- Nothing but the faults and the place that has been reached matters. -/
theorem of_eq {result : Except Fault α} {result' : Except Fault β}
    (h : Parsed.InOrder tokens ⟨result, rest, reported⟩) :
    Parsed.InOrder tokens ⟨result', rest, reported⟩ :=
  ⟨h.suffix, h.located, h.atEquals, h.passed, h.pairwise⟩

theorem mono {parsed : Parsed α} (h : parsed.InOrder mid) (hsuffix : mid <:+ tokens) :
    parsed.InOrder tokens :=
  ⟨h.suffix.trans hsuffix, fun fault hmem => (h.located fault hmem).trans hsuffix, h.atEquals,
    h.passed, h.pairwise⟩

theorem next {result : Except Fault α} {parsed : Parsed β}
    (hfirst : Parsed.InOrder tokens ⟨result, mid, before⟩) (hnext : parsed.InOrder mid) :
    Parsed.InOrder tokens ⟨parsed.result, parsed.rest, before ++ parsed.reported⟩ where
  suffix := hnext.suffix.trans hfirst.suffix
  located := by
    intro fault hmem
    rcases Array.mem_append.1 hmem with hbefore | hafter
    · exact hfirst.located fault hbefore
    · exact (hnext.located fault hafter).trans hfirst.suffix
  atEquals := by
    intro fault hmem
    rcases Array.mem_append.1 hmem with hbefore | hafter
    · exact hfirst.atEquals fault hbefore
    · exact hnext.atEquals fault hafter
  passed := by
    intro fault hmem hcause
    rcases Array.mem_append.1 hmem with hbefore | hafter
    · exact (hfirst.passed fault hbefore hcause).of_suffix hnext.suffix
    · exact hnext.passed fault hafter hcause
  pairwise := by
    rw [Array.toList_append]
    refine List.pairwise_append.2 ⟨hfirst.pairwise, hnext.pairwise, ?_⟩
    -- what has been passed at the first place is passed at all places from there on
    intro first hmem later hlater hcause _
    have hpassed := hfirst.passed first (Array.mem_toList_iff.1 hmem) hcause
    exact hpassed.of_suffix (hnext.located later (Array.mem_toList_iff.1 hlater))

/-- One fault more is in order if it is at a place among the tokens, behind which reading goes
on, unless it is a misplaced assignment. -/
theorem push {result : Except Fault α} {result' : Except Fault β} {fault : Fault}
    (h : Parsed.InOrder tokens ⟨result, mid, reported⟩) (hsuffix : rest <:+ mid)
    (hlocated : fault.left <:+ tokens)
    (hequals : fault.cause = .invalidAssignmentTarget →
      starts (·.isSymbol .equal) fault.left = true)
    (hstopped : fault.cause ≠ .invalidAssignmentTarget → fault.left = mid ∧ Passed mid rest) :
    Parsed.InOrder tokens ⟨result', rest, reported.push fault⟩ where
  suffix := hsuffix.trans h.suffix
  located := by
    intro found hmem
    rcases Array.mem_push.1 hmem with hbefore | rfl
    · exact h.located found hbefore
    · exact hlocated
  atEquals := by
    intro found hmem
    rcases Array.mem_push.1 hmem with hbefore | rfl
    · exact h.atEquals found hbefore
    · exact hequals
  passed := by
    intro found hmem hcause
    rcases Array.mem_push.1 hmem with hbefore | rfl
    · exact (h.passed found hbefore hcause).of_suffix hsuffix
    · obtain ⟨hleft, hpassed⟩ := hstopped hcause
      rw [hleft]
      exact hpassed
  pairwise := by
    rw [Array.toList_push]
    refine List.pairwise_append.2 ⟨h.pairwise, List.pairwise_singleton _ _, ?_⟩
    intro found hmem last hlast hcause hlastCause
    obtain rfl := List.mem_singleton.1 hlast
    rw [(hstopped hlastCause).1]
    exact h.passed found (Array.mem_toList_iff.1 hmem) hcause

end Parsed.InOrder

/-- The faults in a list of declarations are in order if those in each declaration are. -/
theorem inOrder_of_turns {isLast : Token.Kind → Bool} {rule : Rule Stmt}
    {reversed last : List Stmt} {tokens rest : List Token} {reported : Array Fault}
    (horderly : rule.Orderly) (hrule : ∀ tokens, (rule tokens).InOrder tokens)
    (h : Turns (declarationTurn isLast rule) reversed tokens last rest reported)
    (result : Except Fault (List Stmt)) : Parsed.InOrder tokens ⟨result, rest, reported⟩ := by
  induction h with
  | done _ => exact .of_empty (List.suffix_refl _)
  | @turn _ next _ tokens mid _ before _ hsome _ ih =>
      have hturn : Parsed.InOrder tokens (⟨.ok next, mid, before⟩ : Parsed (List Stmt)) := by
        obtain ⟨_, _, ⟨stmt, hread, rfl⟩ | ⟨fault, left, found, hstop, rfl, rfl, rfl⟩⟩ :=
          declarationTurn_eq_some_iff.1 hsome
        · have hinside := hrule tokens
          rw [show rule tokens = _ from hread] at hinside
          exact hinside.of_eq
        · have hinside := hrule tokens
          have hplace := horderly tokens
          rw [show rule tokens = _ from hstop] at hinside hplace
          have hleft : fault.left = left := hplace.left_eq rfl
          have hcause : fault.cause ≠ .invalidAssignmentTarget := hplace.cause_ne rfl
          exact hinside.push (resume_suffix left) (hleft ▸ hinside.suffix) (absurd · hcause)
            fun _ => ⟨hleft, passed_resume left⟩
      exact hturn.next ih

theorem closed_inOrder : Closed fun _ tokens parsed => parsed.InOrder tokens where
  read h := .of_empty h
  stop tokens _ := .of_empty (List.suffix_refl tokens)
  stopped h := h.of_eq
  next hfirst hnext := hfirst.next hnext
  misassigned {levels equals tail rest value target after} hequals _ h := by
    have hwhole := h.mono (List.suffix_cons equals tail)
    exact hwhole.push (List.suffix_refl _) (List.suffix_refl _) (fun _ => by simpa using hequals)
      (absurd rfl)
  declarations {levels token tail rest body reported} hrule hturns := by
    have hbody := inOrder_of_turns (orderly_declarationAt levels) hrule hturns (.ok body)
    exact hbody.mono (List.suffix_cons token tail)

/-! ## Number -/

namespace Grammar

variable {tokens rest : List Token} {reported : Array Fault}

theorem Turns.length_le {α : Type} {step : α → List Token → Option (Parsed α)} {a b : α}
    (htakes : TakesTokens step) (h : Turns step a tokens b rest reported) :
    rest.length ≤ tokens.length := by
  induction h with
  | done _ => exact Nat.le_refl _
  | turn hsome _ ih => exact Nat.le_trans ih (Nat.le_of_lt (htakes.shorter hsome))

theorem consumes_primary {expression : Rule Expr} (hexpression : expression.Orderly) :
    (primary expression).Consumes := by
  intro tokens expr rest reported h
  obtain ⟨token, tail, rfl, ⟨_, _, _, rfl, _⟩ | ⟨_, _, rfl, _⟩ | ⟨_, inner, right, hinner, _⟩⟩ :=
    reads_primary.1 h
  · exact Nat.lt_succ_self _
  · exact Nat.lt_succ_self _
  · have hle := hexpression.length_le hinner
    rw [List.length_cons] at hle ⊢
    omega

theorem consumes_unary {operand expression : Rule Expr} (hoperand : operand.Orderly)
    (hexpression : expression.Orderly) : (unary operand expression).Consumes := by
  intro tokens expr rest reported h
  rcases reads_unary.1 h with ⟨operator, tail, right, rfl, _, hright, _⟩ | ⟨_, hprimary⟩
  · exact Nat.lt_succ_of_le (hoperand.length_le hright)
  · exact consumes_primary hexpression hprimary

theorem consumes_rule {operand : Rule Expr} (horderly : operand.Orderly)
    (hoperand : operand.Consumes) : ∀ tiers : List Level, (Level.rule tiers operand).Consumes
  | [] => hoperand
  | level :: tiers => by
      intro tokens expr rest reported h
      have htakes := @Level.takesTokens (Level.rule tiers operand) level
        (Level.orderly_rule horderly tiers)
      obtain ⟨first, mid, _, _, hfirst, hturns, _⟩ := (Level.reads_rule htakes).1 h
      have hlt := consumes_rule horderly hoperand tiers hfirst
      exact Nat.lt_of_le_of_lt (Turns.length_le htakes hturns) hlt

theorem consumes_expression (levels : Nat) : (Grammar.expression levels).Consumes := by
  intro tokens expr rest reported h
  obtain ⟨inner, _, h⟩ := reads_expression.1 h
  have horderly := orderly_expression inner
  have hunary := consumes_unary (orderly_operand inner) horderly
  obtain ⟨target, mid, before, htarget, hrest⟩ := reads_assignment.1 h
  have hlt := consumes_rule (orderly_unaryAt inner) hunary Level.all htarget
  rcases hrest with ⟨_, _, rfl, _⟩ | ⟨equals, tail, value, after, rfl, _, hvalue, _⟩
  · exact hlt
  · have hle := horderly.length_le hvalue
    rw [List.length_cons] at hlt
    omega

end Grammar

/-- What comes of reading has fewer faults than tokens that have been taken, if it has any. -/
structure Parsed.Frugal {α : Type} (tokens : List Token) (parsed : Parsed α) : Prop where
  length_le : parsed.rest.length ≤ tokens.length
  size_lt : 0 < parsed.reported.size →
    parsed.reported.size + parsed.rest.length < tokens.length

/-- There are no more faults in a list of declarations than tokens that have been taken. -/
theorem size_le_of_turns {isLast : Token.Kind → Bool} {rule : Rule Stmt}
    {reversed last : List Stmt} {tokens rest : List Token} {reported : Array Fault}
    (hrule : ∀ tokens, (rule tokens).Frugal tokens)
    (h : Turns (declarationTurn isLast rule) reversed tokens last rest reported) :
    reported.size + rest.length ≤ tokens.length := by
  induction h with
  | done _ => exact Nat.le_of_eq (Nat.zero_add _)
  | @turn _ _ _ tokens mid rest before after hsome _ ih =>
      have hturn : before.size + mid.length ≤ tokens.length := by
        have hinside := hrule tokens
        obtain ⟨hne, _, ⟨stmt, hread, _⟩ | ⟨fault, left, found, hstop, rfl, rfl, _⟩⟩ :=
          declarationTurn_eq_some_iff.1 hsome
        · rw [show rule tokens = _ from hread] at hinside
          have hle := hinside.length_le
          have hlt := hinside.size_lt
          dsimp only at hle hlt
          omega
        · rw [show rule tokens = _ from hstop] at hinside
          have hle := hinside.length_le
          have hlt := hinside.size_lt
          have hpos := List.length_pos_iff.2 hne
          dsimp only at hle hlt
          rw [Array.size_push]
          -- recovery drops a token, or else all tokens have been taken
          rcases passed_resume left with hdropped | ⟨rfl, hnil⟩
          · omega
          · rw [hnil]
            rw [List.length_nil] at hlt ⊢
            omega
      rw [Array.size_append]
      omega

theorem closed_frugal : Closed fun _ tokens parsed => parsed.Frugal tokens where
  read h := ⟨h.length_le, by simp⟩
  stop tokens _ := ⟨Nat.le_refl _, by simp⟩
  stopped h := ⟨h.length_le, h.size_lt⟩
  next {_ _ tokens mid _ before parsed} hfirst hnext := by
    have hfirstLe := hfirst.length_le
    have hfirstLt := hfirst.size_lt
    have hnextLe := hnext.length_le
    have hnextLt := hnext.size_lt
    dsimp only at hfirstLe hfirstLt
    refine ⟨Nat.le_trans hnextLe hfirstLe, ?_⟩
    rw [Array.size_append]
    intro hpos
    dsimp only
    omega
  misassigned {levels equals tail rest value target after} _ hread h := by
    have hlt := consumes_expression levels hread
    have hsize := h.size_lt
    dsimp only at hsize
    constructor
    · rw [List.length_cons]
      exact Nat.le_succ_of_le (Nat.le_of_lt hlt)
    · intro _
      rw [Array.size_push, List.length_cons]
      dsimp only
      omega
  declarations {levels token tail rest body reported} hrule hturns := by
    have hle := size_le_of_turns hrule hturns
    constructor
    · rw [List.length_cons]
      dsimp only
      omega
    · intro _
      rw [List.length_cons]
      exact Nat.lt_succ_of_le hle

/-! ## Programs -/

/-- A call for a declaration takes a token, if there is one. -/
theorem length_recovering_lt (levels : Nat) {tokens : List Token} (h : tokens ≠ []) :
    (recovering (declarationAt levels) tokens).rest.length < tokens.length := by
  have hle := (orderly_declarationAt levels tokens).suffix.length_le
  unfold recovering
  generalize hparsed : declarationAt levels tokens = parsed at hle
  obtain ⟨fault | stmt, left, reported⟩ := parsed
  · rcases passed_resume left with hlt | ⟨_, hnil⟩
    · exact Nat.lt_of_lt_of_le hlt hle
    · dsimp only
      rw [hnil]
      exact List.length_pos_iff.2 h
  · exact consumes_declarationAt levels hparsed

/-- Whatever the tokens are, reading comes to an end, and the faults are no more than the tokens
of the program and in the order of their places.  A list of declarations ends with no bound on
its turns, for each call for a declaration takes a token if there is one. -/
theorem reading_ends_in_order (tokens : List Token) :
    (∀ levels isLast reversed left, ∃ last rest reported,
      Turns (declarationTurn isLast (declarationAt levels)) reversed left last rest reported) ∧
    (∀ levels left, left ≠ [] →
      (recovering (declarationAt levels) left).rest.length < left.length) ∧
    ∃ program reported, Grammar.program.Reads (programTokens tokens) program [] reported ∧
      parse tokens = (if reported = #[] then .ok program
        else .error (reported.toList.map (Fault.toError (endMark tokens)))) ∧
      reported.size ≤ (programTokens tokens).length ∧
      (∀ fault ∈ reported, fault.left <:+ programTokens tokens) ∧
      reported.toList.Pairwise fun first later =>
        first.cause ≠ .invalidAssignmentTarget → later.cause ≠ .invalidAssignmentTarget →
          later.left.length < first.left.length ∨ first.left = [] ∧ later.left = [] := by
  refine ⟨fun levels => exists_turns_declarationTurn (orderly_declarationAt levels)
    (consumes_declarationAt levels), fun levels left => length_recovering_lt levels, ?_⟩
  obtain ⟨program, reported, hread⟩ := exists_reads_programAt maxNesting (programTokens tokens)
  have hturns := reads_programAt.1 hread
  have hsize := size_le_of_turns (closed_frugal.declarationAt maxNesting) hturns
  have horder := inOrder_of_turns (orderly_declarationAt maxNesting)
    (closed_inOrder.declarationAt maxNesting) hturns (.ok program)
  exact ⟨program, reported, hread, parse_of_reads hread, hsize, horder.located, horder.pairwise⟩

end Lox
