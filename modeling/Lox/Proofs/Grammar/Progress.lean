import Lox.Proofs.Grammar.Reading

/-!
# Rules go forward

What a rule leaves is an end of the tokens that it was given, whether it stops at a
fault or not, and a fault at which it stops is at the first token that it leaves.
`Orderly` says both, and each way of building a rule keeps it.  So a loop can only
take further tokens, and it has turns enough.
-/

namespace Lox

/-- What comes of reading leaves an end of the tokens, and stops at a fault only at
the token that is left first.  It never stops at an assignment to something else than a name. -/
structure Parsed.Orderly {α : Type} (parsed : Parsed α) (tokens : List Token) : Prop where
  suffix : parsed.rest <:+ tokens
  left_eq : ∀ {fault}, parsed.result = .error fault → fault.left = parsed.rest
  cause_ne : ∀ {fault}, parsed.result = .error fault → fault.cause ≠ .invalidAssignmentTarget

namespace Parsed.Orderly

variable {α : Type} {parsed : Parsed α}

theorem mono {first second : List Token} (h : parsed.Orderly first) (hsuffix : first <:+ second) :
    parsed.Orderly second :=
  ⟨h.suffix.trans hsuffix, h.left_eq, h.cause_ne⟩

theorem of_ok {a : α} {rest tokens : List Token} {reported : Array Fault} (h : rest <:+ tokens) :
    Parsed.Orderly ⟨.ok a, rest, reported⟩ tokens where
  suffix := h
  left_eq := by
    intro fault herror
    cases herror
  cause_ne := by
    intro fault herror
    cases herror

end Parsed.Orderly

namespace Rule

variable {α β : Type}

/-- Whatever the rule is given, what comes of it is orderly. -/
def Orderly (rule : Rule α) : Prop := ∀ tokens, (rule tokens).Orderly tokens

theorem Orderly.length_le {rule : Rule α} (h : rule.Orderly) {tokens rest : List Token} {a : α}
    {reported : Array Fault} (hreads : rule.Reads tokens a rest reported) :
    rest.length ≤ tokens.length := by
  have hsuffix := (h tokens).suffix
  rw [hreads] at hsuffix
  exact hsuffix.length_le

/-- If the rule reads, it takes a token. -/
def Consumes (rule : Rule α) : Prop :=
  ∀ ⦃tokens a rest reported⦄, rule.Reads tokens a rest reported → rest.length < tokens.length

/-! ## Single steps -/

theorem orderly_pure (a : α) : (pure a : Rule α).Orderly :=
  fun tokens => .of_ok (List.suffix_refl tokens)

theorem orderly_bind {rule : Rule α} {next : α → Rule β} (hrule : rule.Orderly)
    (hnext : ∀ a, (next a).Orderly) : (rule >>= next).Orderly := by
  intro tokens
  have hfirst := hrule tokens
  rw [bind_apply]
  generalize rule tokens = first at hfirst
  rcases first with ⟨fault | a, mid, before⟩
  · refine ⟨hfirst.suffix, ?_, ?_⟩
    · rintro _ ⟨⟩
      exact hfirst.left_eq rfl
    · rintro _ ⟨⟩
      exact hfirst.cause_ne rfl
  · have hsecond := (hnext a mid).mono hfirst.suffix
    exact ⟨hsecond.suffix, hsecond.left_eq, hsecond.cause_ne⟩

theorem orderly_fail {cause : SyntaxError.Cause} (h : cause ≠ .invalidAssignmentTarget) :
    (fail cause : Rule α).Orderly := by
  intro tokens
  refine ⟨List.suffix_refl tokens, ?_, ?_⟩
  · rintro _ ⟨⟩
    rfl
  · rintro _ ⟨⟩
    exact h

theorem orderly_report (cause : SyntaxError.Cause) (left : List Token) :
    (report cause left).Orderly :=
  fun tokens => .of_ok (List.suffix_refl tokens)

theorem orderly_remaining : remaining.Orderly := fun tokens => .of_ok (List.suffix_refl tokens)

theorem orderly_nextIs (kind : Token.Kind → Bool) : (nextIs kind).Orderly :=
  fun tokens => .of_ok (List.suffix_refl tokens)

theorem orderly_takeIf (kind : Token.Kind → Bool) : (takeIf kind).Orderly := by
  intro tokens
  cases hstarts : starts kind tokens with
  | false =>
      rw [takeIf_of_not_starts hstarts]
      exact .of_ok (List.suffix_refl tokens)
  | true =>
      cases tokens with
      | nil => simp at hstarts
      | cons token tail =>
          rw [takeIf_cons_of_pos (show kind token.kind = true from hstarts)]
          exact .of_ok (List.suffix_cons token tail)

theorem orderly_expect (kind : Token.Kind → Bool) {cause : SyntaxError.Cause}
    (h : cause ≠ .invalidAssignmentTarget) : (expect kind cause).Orderly := by
  refine orderly_bind (orderly_takeIf kind) fun taken => ?_
  cases taken with
  | none => exact orderly_fail h
  | some token => exact orderly_pure token

theorem orderly_expectSymbol (symbol : Symbol) {cause : SyntaxError.Cause}
    (h : cause ≠ .invalidAssignmentTarget) : (expectSymbol symbol cause).Orderly :=
  orderly_bind (orderly_expect _ h) fun _ => orderly_pure ()

theorem orderly_closed {rule : Rule α} (hrule : rule.Orderly) (symbol : Symbol)
    {cause : SyntaxError.Cause} (h : cause ≠ .invalidAssignmentTarget) {next : α → Rule β}
    (hnext : ∀ a, (next a).Orderly) :
    (rule >>= fun a => expectSymbol symbol cause >>= fun _ => next a).Orderly :=
  orderly_bind hrule fun a => orderly_bind (orderly_expectSymbol symbol h) fun _ => hnext a

theorem orderly_repeating {step : α → List Token → Option (Parsed α)}
    (hstep : ∀ a tokens next, step a tokens = some next → next.Orderly tokens) (a : α) :
    (repeating step a).Orderly := by
  -- over the turns, for whatever has come of the steps so far
  have hiterate : ∀ (turns tokens : List Token) (parsed : Parsed α),
      parsed.Orderly tokens → (iterate step turns parsed).Orderly tokens := by
    intro turns
    induction turns with
    | nil => exact fun tokens parsed h => h
    | cons turn turns ih =>
        intro tokens parsed h
        unfold iterate
        split
        · exact h
        · split
          · exact h
          · rename_i next hnext
            have horderly := (hstep _ _ next hnext).mono h.suffix
            exact ih tokens _ ⟨horderly.suffix, horderly.left_eq, horderly.cause_ne⟩
  exact fun tokens => hiterate tokens tokens _ (.of_ok (List.suffix_refl tokens))

end Rule

end Lox
