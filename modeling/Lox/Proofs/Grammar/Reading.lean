import Lox.Grammar.Rule

/-!
# Reading by a rule

`Reads rule tokens a rest reported` says that the rule finds no fault at which it
stops: it reads `tokens` up to `rest` and yields `a`, having reported `reported`.
Each way of building a rule has one lemma that tells when it reads, so a rule can
be taken apart, or put together, without unfolding it.

A loop of a rule is told apart from the number of its turns here, once for all
loops: `reads_repeating` shows that, if every turn takes a token, the loop ends
for no other reason than that there is no further step.
-/

namespace Lox.Rule

variable {α β : Type}

/-- The rule reads the tokens up to `rest`, without stopping at a fault. -/
def Reads (rule : Rule α) (tokens : List Token) (a : α) (rest : List Token)
    (reported : Array Fault) : Prop :=
  rule tokens = ⟨.ok a, rest, reported⟩

/-- The rule stops at a fault, and leaves the tokens from `rest` on. -/
def Stops (rule : Rule α) (tokens : List Token) (fault : Fault) (rest : List Token)
    (reported : Array Fault) : Prop :=
  rule tokens = ⟨.error fault, rest, reported⟩

/-- The first token is of such a kind. -/
def starts (kind : Token.Kind → Bool) (tokens : List Token) : Bool :=
  tokens.head?.any fun token => kind token.kind

@[simp] theorem starts_nil (kind : Token.Kind → Bool) : starts kind [] = false := rfl

@[simp] theorem starts_cons (kind : Token.Kind → Bool) (token : Token) (rest : List Token) :
    starts kind (token :: rest) = kind token.kind := rfl

theorem starts_append {kind : Token.Kind → Bool} {w : List Token} (h : starts kind w = true)
    (rest : List Token) : starts kind (w ++ rest) = true := by
  cases w with
  | nil => simp at h
  | cons token tail => exact h

theorem starts_mono {p q : Token.Kind → Bool} {w : List Token} (h : starts p w = true)
    (hpq : ∀ kind, p kind = true → q kind = true) : starts q w = true := by
  cases w with
  | nil => simp at h
  | cons token tail => exact hpq _ h

/-- What begins with a token of one kind does not begin with one of another. -/
theorem not_starts_append {p q : Token.Kind → Bool} {w : List Token} (h : starts p w = true)
    (hpq : ∀ kind, p kind = true → q kind = false) (rest : List Token) :
    starts q (w ++ rest) = false := by
  cases w with
  | nil => simp at h
  | cons token tail => exact hpq _ h

variable {tokens rest : List Token} {reported : Array Fault}

/-! ## Single steps -/

@[simp] theorem reads_pure {a b : α} :
    (pure a : Rule α).Reads tokens b rest reported ↔ a = b ∧ tokens = rest ∧ reported = #[] := by
  constructor
  · intro h
    cases h
    exact ⟨rfl, rfl, rfl⟩
  · rintro ⟨rfl, rfl, rfl⟩
    rfl

theorem bind_apply (rule : Rule α) (next : α → Rule β) (tokens : List Token) :
    (rule >>= next) tokens = match (rule tokens).result with
      | .error fault => ⟨.error fault, (rule tokens).rest, (rule tokens).reported⟩
      | .ok a => ⟨(next a (rule tokens).rest).result, (next a (rule tokens).rest).rest,
          (rule tokens).reported ++ (next a (rule tokens).rest).reported⟩ := rfl

/-- One rule after another reads what the two read in turn. -/
theorem reads_bind {rule : Rule α} {next : α → Rule β} {b : β} :
    (rule >>= next).Reads tokens b rest reported ↔
      ∃ a mid before after, rule.Reads tokens a mid before ∧
        (next a).Reads mid b rest after ∧ reported = before ++ after := by
  unfold Reads
  rw [bind_apply]
  rcases rule tokens with ⟨result, mid, before⟩
  cases result with
  | error fault => simp
  | ok a =>
      constructor
      · intro h
        injection h with hresult hrest hreported
        refine ⟨a, mid, before, (next a mid).reported, rfl, ?_, hreported.symm⟩
        rw [← hresult, ← hrest]
      · rintro ⟨_, _, _, after, hfirst, hnext, rfl⟩
        cases hfirst
        simp [hnext]

theorem Reads.bind {rule : Rule α} {next : α → Rule β} {a : α} {b : β} {mid : List Token}
    {before after : Array Fault} (hrule : rule.Reads tokens a mid before)
    (hnext : (next a).Reads mid b rest after) :
    (rule >>= next).Reads tokens b rest (before ++ after) :=
  reads_bind.2 ⟨a, mid, before, after, hrule, hnext, rfl⟩

/-- What is read is only passed on. -/
theorem reads_map {rule : Rule α} {f : α → β} {b : β} :
    (rule >>= fun a => pure (f a)).Reads tokens b rest reported ↔
      ∃ a, rule.Reads tokens a rest reported ∧ b = f a := by
  rw [reads_bind]
  constructor
  · rintro ⟨a, mid, before, after, hrule, hpure, rfl⟩
    obtain ⟨rfl, rfl, rfl⟩ := reads_pure.1 hpure
    exact ⟨a, by simpa using hrule, rfl⟩
  · rintro ⟨a, hrule, rfl⟩
    exact ⟨a, rest, reported, #[], hrule, reads_pure.2 ⟨rfl, rfl, rfl⟩, by simp⟩

@[simp] theorem reads_fail {cause : SyntaxError.Cause} {a : α} :
    ¬ (fail cause : Rule α).Reads tokens a rest reported := by
  simp [Reads, fail]

variable {next : α → Rule β} {b : β}

theorem reads_report_bind {cause : SyntaxError.Cause} {left : List Token} {next : Unit → Rule β} :
    (report cause left >>= next).Reads tokens b rest reported ↔
      ∃ after, (next ()).Reads tokens b rest after ∧ reported = #[⟨cause, left⟩] ++ after := by
  rw [reads_bind]
  constructor
  · rintro ⟨_, _, _, after, hreport, hnext, rfl⟩
    cases hreport
    exact ⟨after, hnext, rfl⟩
  · rintro ⟨after, hnext, rfl⟩
    exact ⟨(), tokens, _, after, rfl, hnext, rfl⟩

theorem reads_remaining_bind {next : List Token → Rule β} :
    (remaining >>= next).Reads tokens b rest reported ↔
      (next tokens).Reads tokens b rest reported := by
  rw [reads_bind]
  constructor
  · rintro ⟨_, _, _, after, hremaining, hnext, rfl⟩
    cases hremaining
    simpa using hnext
  · intro hnext
    exact ⟨tokens, tokens, #[], reported, rfl, hnext, by simp⟩

theorem reads_nextIs_bind {kind : Token.Kind → Bool} {next : Bool → Rule β} :
    (nextIs kind >>= next).Reads tokens b rest reported ↔
      (next (starts kind tokens)).Reads tokens b rest reported := by
  rw [reads_bind]
  constructor
  · rintro ⟨_, _, _, after, hnextIs, hnext, rfl⟩
    cases hnextIs
    simpa [starts] using hnext
  · intro hnext
    exact ⟨starts kind tokens, tokens, #[], reported, rfl, hnext, by simp⟩

theorem takeIf_cons_of_pos {kind : Token.Kind → Bool} {token : Token} {tail : List Token}
    (h : kind token.kind = true) : takeIf kind (token :: tail) = ⟨.ok (some token), tail, #[]⟩ :=
  if_pos h

theorem takeIf_of_not_starts {kind : Token.Kind → Bool} (h : starts kind tokens = false) :
    takeIf kind tokens = ⟨.ok none, tokens, #[]⟩ := by
  cases tokens with
  | nil => rfl
  | cons token tail => exact if_neg (by simpa using h)

/-- An optional token is either read, or not there. -/
theorem reads_takeIf_bind {kind : Token.Kind → Bool} {next : Option Token → Rule β} :
    (takeIf kind >>= next).Reads tokens b rest reported ↔
      (∃ token tail, tokens = token :: tail ∧ kind token.kind = true ∧
        (next (some token)).Reads tail b rest reported) ∨
      (starts kind tokens = false ∧ (next none).Reads tokens b rest reported) := by
  rw [reads_bind]
  constructor
  · rintro ⟨taken, mid, before, after, htaken, hnext, rfl⟩
    unfold Reads at htaken
    cases hstarts : starts kind tokens with
    | false =>
        rw [takeIf_of_not_starts hstarts] at htaken
        cases htaken
        exact .inr ⟨rfl, by simpa using hnext⟩
    | true =>
        cases tokens with
        | nil => simp at hstarts
        | cons token tail =>
            rw [takeIf_cons_of_pos (show kind token.kind = true from hstarts)] at htaken
            cases htaken
            exact .inl ⟨token, _, rfl, hstarts, by simpa using hnext⟩
  · rintro (⟨token, tail, rfl, hkind, hnext⟩ | ⟨hstarts, hnext⟩)
    · exact ⟨some token, tail, #[], reported, takeIf_cons_of_pos hkind, hnext, by simp⟩
    · exact ⟨none, tokens, #[], reported, takeIf_of_not_starts hstarts, hnext, by simp⟩

theorem reads_expect {kind : Token.Kind → Bool} {cause : SyntaxError.Cause} {token : Token} :
    (expect kind cause).Reads tokens token rest reported ↔
      tokens = token :: rest ∧ kind token.kind = true ∧ reported = #[] := by
  unfold expect
  rw [reads_takeIf_bind]
  constructor
  · rintro (⟨other, tail, rfl, hkind, hpure⟩ | ⟨_, hfail⟩)
    · obtain ⟨rfl, rfl, rfl⟩ := reads_pure.1 hpure
      exact ⟨rfl, hkind, rfl⟩
    · exact absurd hfail reads_fail
  · rintro ⟨rfl, hkind, rfl⟩
    exact .inl ⟨token, rest, rfl, hkind, reads_pure.2 ⟨rfl, rfl, rfl⟩⟩

theorem reads_expect_bind {kind : Token.Kind → Bool} {cause : SyntaxError.Cause}
    {next : Token → Rule β} :
    (expect kind cause >>= next).Reads tokens b rest reported ↔
      ∃ token tail, tokens = token :: tail ∧ kind token.kind = true ∧
        (next token).Reads tail b rest reported := by
  rw [reads_bind]
  constructor
  · rintro ⟨token, tail, _, after, hexpect, hnext, rfl⟩
    obtain ⟨rfl, hkind, rfl⟩ := reads_expect.1 hexpect
    exact ⟨token, tail, rfl, hkind, by simpa using hnext⟩
  · rintro ⟨token, tail, rfl, hkind, hnext⟩
    exact ⟨token, tail, #[], reported, reads_expect.2 ⟨rfl, hkind, rfl⟩, hnext, by simp⟩

/-- A symbol that has to come next is read and dropped. -/
theorem reads_expectSymbol_bind {symbol : Symbol} {cause : SyntaxError.Cause}
    {next : Unit → Rule β} :
    (expectSymbol symbol cause >>= next).Reads tokens b rest reported ↔
      ∃ token tail, tokens = token :: tail ∧ token.kind = .symbol symbol ∧
        (next ()).Reads tail b rest reported := by
  rw [reads_bind]
  unfold expectSymbol
  constructor
  · rintro ⟨_, mid, _, after, hexpect, hnext, rfl⟩
    obtain ⟨token, tail, rfl, hkind, hpure⟩ := reads_expect_bind.1 hexpect
    obtain ⟨_, rfl, rfl⟩ := reads_pure.1 hpure
    exact ⟨token, _, rfl, by simpa using hkind, by simpa using hnext⟩
  · rintro ⟨token, tail, rfl, hkind, hnext⟩
    exact ⟨(), tail, #[], reported,
      reads_expect_bind.2 ⟨token, tail, rfl, by simpa using hkind, reads_pure.2 ⟨rfl, rfl, rfl⟩⟩,
      hnext, by simp⟩

/-- What is read before a symbol that has to follow it. -/
theorem reads_closed_bind {rule : Rule α} {symbol : Symbol} {cause : SyntaxError.Cause} :
    (rule >>= fun a => expectSymbol symbol cause >>= fun _ => next a).Reads tokens b rest
        reported ↔
      ∃ a token tail before after, rule.Reads tokens a (token :: tail) before ∧
        token.kind = .symbol symbol ∧ (next a).Reads tail b rest after ∧
        reported = before ++ after := by
  simp only [@reads_bind _ _ _ _ _ rule, reads_expectSymbol_bind]
  constructor
  · rintro ⟨a, _, before, after, hrule, ⟨token, tail, rfl, hkind, hnext⟩, rfl⟩
    exact ⟨a, token, tail, before, after, hrule, hkind, hnext, rfl⟩
  · rintro ⟨a, token, tail, before, after, hrule, hkind, hnext, rfl⟩
    exact ⟨a, _, before, after, hrule, ⟨token, tail, rfl, hkind, hnext⟩, rfl⟩

theorem reads_closed {rule : Rule α} {symbol : Symbol} {cause : SyntaxError.Cause} {f : α → β} :
    (rule >>= fun a => expectSymbol symbol cause >>= fun _ => pure (f a)).Reads tokens b rest
        reported ↔
      ∃ a token, rule.Reads tokens a (token :: rest) reported ∧ token.kind = .symbol symbol ∧
        b = f a := by
  rw [reads_closed_bind]
  constructor
  · rintro ⟨a, token, tail, before, after, hrule, hkind, hpure, rfl⟩
    obtain ⟨rfl, rfl, rfl⟩ := reads_pure.1 hpure
    exact ⟨a, token, by simpa using hrule, hkind, rfl⟩
  · rintro ⟨a, token, hrule, hkind, rfl⟩
    exact ⟨a, token, rest, reported, #[], hrule, hkind, reads_pure.2 ⟨rfl, rfl, rfl⟩, by simp⟩

/-! ## Loops -/

/-- The steps of a loop lead from one value and its tokens to another, after which
there is no further step. -/
inductive Turns (step : α → List Token → Option (Parsed α)) :
    α → List Token → α → List Token → Array Fault → Prop
  | done {a : α} {tokens : List Token} : step a tokens = none → Turns step a tokens a tokens #[]
  | turn {a b c : α} {tokens mid rest : List Token} {before after : Array Fault} :
      step a tokens = some ⟨.ok b, mid, before⟩ → Turns step b mid c rest after →
        Turns step a tokens c rest (before ++ after)

/-- Every step of a loop takes a token, and there is none without tokens. -/
structure TakesTokens (step : α → List Token → Option (Parsed α)) : Prop where
  none_of_nil : ∀ a, step a [] = none
  shorter : ∀ {a tokens b mid before},
    step a tokens = some ⟨.ok b, mid, before⟩ → mid.length < tokens.length

variable {step : α → List Token → Option (Parsed α)} {a b c : α} {mid turns : List Token}
  {before found : Array Fault}

theorem turns_iff_of_none (h : step a tokens = none) :
    Turns step a tokens b rest reported ↔ a = b ∧ tokens = rest ∧ reported = #[] := by
  constructor
  · intro hturns
    cases hturns with
    | done _ => exact ⟨rfl, rfl, rfl⟩
    | turn hstep _ =>
        rw [h] at hstep
        cases hstep
  · rintro ⟨rfl, rfl, rfl⟩
    exact .done h

theorem turns_iff_of_ok (h : step a tokens = some ⟨.ok c, mid, found⟩) :
    Turns step a tokens b rest reported ↔
      ∃ after, Turns step c mid b rest after ∧ reported = found ++ after := by
  constructor
  · intro hturns
    cases hturns with
    | done hnone =>
        rw [h] at hnone
        cases hnone
    | @turn _ _ _ _ _ _ _ after hstep hturns =>
        rw [h] at hstep
        cases hstep
        exact ⟨after, hturns, rfl⟩
  · rintro ⟨after, hturns, rfl⟩
    exact .turn h hturns

theorem not_turns_of_error {fault : Fault} (h : step a tokens = some ⟨.error fault, mid, found⟩) :
    ¬ Turns step a tokens b rest reported := by
  intro hturns
  cases hturns with
  | done hnone =>
      rw [h] at hnone
      cases hnone
  | turn hstep _ =>
      rw [h] at hstep
      cases hstep

private theorem iterate_error (turns : List Token) (fault : Fault) (left : List Token)
    (before : Array Fault) :
    iterate step turns ⟨.error fault, left, before⟩ = ⟨.error fault, left, before⟩ := by
  cases turns <;> rfl

private theorem iterate_eq_ok_iff_of_none (h : step a tokens = none) :
    iterate step turns ⟨.ok a, tokens, before⟩ = ⟨.ok b, rest, reported⟩ ↔
      ∃ after, Turns step a tokens b rest after ∧ reported = before ++ after := by
  have hiterate : iterate step turns ⟨.ok a, tokens, before⟩ = ⟨.ok a, tokens, before⟩ := by
    cases turns with
    | nil => rfl
    | cons turn turns => simp [iterate, h]
  simp only [hiterate, turns_iff_of_none h, Parsed.mk.injEq, Except.ok.injEq]
  constructor
  · rintro ⟨rfl, rfl, rfl⟩
    exact ⟨#[], ⟨rfl, rfl, rfl⟩, by simp⟩
  · rintro ⟨after, ⟨rfl, rfl, rfl⟩, rfl⟩
    exact ⟨rfl, rfl, by simp⟩

/-- With a turn for each token, a loop takes its steps to their end. -/
private theorem iterate_eq_ok_iff (htakes : TakesTokens step) :
    ∀ (turns : List Token) (a : α) (tokens : List Token) (before : Array Fault),
      tokens.length ≤ turns.length →
        (iterate step turns ⟨.ok a, tokens, before⟩ = ⟨.ok b, rest, reported⟩ ↔
          ∃ after, Turns step a tokens b rest after ∧ reported = before ++ after) := by
  intro turns
  induction turns with
  | nil =>
      -- no turns are left, but then there are no tokens for a step either
      intro a tokens before hle
      obtain rfl : tokens = [] := by simpa using hle
      exact iterate_eq_ok_iff_of_none (htakes.none_of_nil a)
  | cons turn turns ih =>
      intro a tokens before hle
      cases hstep : step a tokens with
      | none => exact iterate_eq_ok_iff_of_none hstep
      | some next =>
          obtain ⟨result, mid, found⟩ := next
          have hiterate : iterate step (turn :: turns) ⟨.ok a, tokens, before⟩ =
              iterate step turns ⟨result, mid, before ++ found⟩ := by simp [iterate, hstep]
          rw [hiterate]
          cases result with
          | error fault =>
              rw [iterate_error]
              constructor
              · intro h
                cases h
              · rintro ⟨after, hturns, _⟩
                exact absurd hturns (not_turns_of_error hstep)
          | ok c =>
              have hlt : mid.length < tokens.length := htakes.shorter hstep
              have hle' : mid.length ≤ turns.length := by
                rw [List.length_cons] at hle
                omega
              rw [ih c mid (before ++ found) hle']
              simp only [turns_iff_of_ok hstep]
              constructor
              · rintro ⟨after, hturns, rfl⟩
                exact ⟨found ++ after, ⟨after, hturns, rfl⟩, Array.append_assoc⟩
              · rintro ⟨_, ⟨after, hturns, rfl⟩, rfl⟩
                exact ⟨after, hturns, Array.append_assoc.symm⟩

/-- What a loop reads is what its steps read in turn, up to where there is none. -/
theorem reads_repeating (htakes : TakesTokens step) :
    (repeating step a).Reads tokens b rest reported ↔ Turns step a tokens b rest reported := by
  unfold Reads repeating
  rw [iterate_eq_ok_iff htakes tokens a tokens #[] (Nat.le_refl _)]
  simp

end Lox.Rule
