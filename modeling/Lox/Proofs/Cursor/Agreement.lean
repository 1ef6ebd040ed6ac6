import Mathlib.Data.List.TakeWhile
import Lox.Proofs.Cursor.Walk
import Lox.Proofs.Grammar.Lookahead
import Lox.Proofs.Grammar.Closure

/-!
# Walks and rules

Where a rule is given the tokens that are left of the program, a walk stands at the place before
them (`Cursor.facing`).  It agrees with the rule if it comes to the same result, to the place
before what the rule leaves, and with an error more for each fault (`Walk.AgreesAt`).

Such a place is never behind the end of the program, for what a rule leaves is an end of what it
was given.  At the end itself a walk stays where it is: it goes past a token only for its kind, and
nothing is chosen for the kind of the end (`agrees_byFirst`), loops look for the end before each
turn (`agrees_repeatWhile`), and recovery does not go forward there (`synchronize_facing`).
-/

namespace Lox

open Grammar

/-! ## Places -/

variable {tokens left tail rest : List Token} {token : Token} {depth : Nat}
  {errors : Array SyntaxError}

/-- The place at which so much is left of the program. -/
def Cursor.facing (tokens : List Token) (depth : Nat) (errors : Array SyntaxError)
    (left : List Token) : Cursor :=
  ⟨tokens, (programTokens tokens).length - left.length, depth, errors⟩

theorem Cursor.start_eq_facing (tokens : List Token) :
    start tokens = facing tokens 0 #[] (programTokens tokens) := by
  unfold start facing
  rw [Nat.sub_self]

theorem kind_endMark (tokens : List Token) : (endMark tokens).kind = .endOfSource := by
  unfold endMark
  cases hfind : tokens.find? (·.kind.isEnd) with
  | none => rfl
  | some mark =>
      have hmark := List.find?_some hfind
      exact Token.Kind.isEnd_iff.1 hmark

/-- No token of a program marks an end. -/
theorem isEnd_of_mem_programTokens (h : token ∈ programTokens tokens) :
    token.kind.isEnd = false := by
  simpa using List.mem_takeWhile_imp h

theorem isEnd_of_suffix (h : token :: tail <:+ programTokens tokens) : token.kind.isEnd = false :=
  isEnd_of_mem_programTokens (h.subset (List.mem_cons_self ..))

theorem suffix_of_cons (h : token :: tail <:+ programTokens tokens) :
    tail <:+ programTokens tokens :=
  (List.suffix_cons token tail).trans h

namespace Cursor

/-- Behind the tokens of the program is the mark that ends it. -/
theorem token_facing_nil : (facing tokens depth errors []).token = endMark tokens := by
  show tokens[(programTokens tokens).length - 0]?.getD impliedEnd = endMark tokens
  rw [Nat.sub_zero]
  unfold endMark programTokens
  congr 1
  induction tokens with
  | nil => rfl
  | cons token tail ih =>
      cases hend : token.kind.isEnd with
      | true => simp [hend]
      | false => simpa [hend] using ih

/-- The first token that is left is at the place that is told by their number. -/
private theorem getElem?_of_suffix (h : token :: tail <:+ programTokens tokens) :
    tokens[(programTokens tokens).length - (tail.length + 1)]? = some token := by
  obtain ⟨passed, hpassed⟩ := h
  have hplace : (programTokens tokens).length - (tail.length + 1) = passed.length := by
    rw [← hpassed, List.length_append, List.length_cons, Nat.add_sub_cancel]
  obtain ⟨behind, hbehind⟩ : programTokens tokens <+: tokens := List.takeWhile_prefix _
  rw [hplace]
  calc
    tokens[passed.length]? = (programTokens tokens ++ behind)[passed.length]? := by rw [hbehind]
    _ = (passed ++ token :: tail ++ behind)[passed.length]? := by rw [hpassed]
    _ = some token := by simp

theorem token_facing_cons (h : token :: tail <:+ programTokens tokens) :
    (facing tokens depth errors (token :: tail)).token = token := by
  show tokens[(programTokens tokens).length - (tail.length + 1)]?.getD impliedEnd = token
  rw [getElem?_of_suffix h]
  rfl

/-- Behind a token of the program that one is the token before. -/
theorem previous_facing (h : token :: tail <:+ programTokens tokens) :
    (facing tokens depth errors tail).previous = token := by
  show tokens[(programTokens tokens).length - tail.length - 1]?.getD impliedEnd = token
  rw [Nat.sub_sub, getElem?_of_suffix h]
  rfl

theorem isAtEnd_facing_nil : (facing tokens depth errors []).isAtEnd = true := by
  unfold isAtEnd
  rw [token_facing_nil, kind_endMark]
  rfl

theorem isAtEnd_facing_cons (h : token :: tail <:+ programTokens tokens) :
    (facing tokens depth errors (token :: tail)).isAtEnd = false := by
  unfold isAtEnd
  rw [token_facing_cons h]
  exact isEnd_of_suffix h

/-- At the end there is no way forward. -/
theorem forward_facing_nil :
    (facing tokens depth errors []).forward = facing tokens depth errors [] :=
  if_pos isAtEnd_facing_nil

theorem forward_facing_cons (h : token :: tail <:+ programTokens tokens) :
    (facing tokens depth errors (token :: tail)).forward = facing tokens depth errors tail := by
  have hlength := h.length_le
  rw [List.length_cons] at hlength
  have hplace : (programTokens tokens).length - (tail.length + 1) + 1 =
      (programTokens tokens).length - tail.length := by omega
  unfold forward
  rw [isAtEnd_facing_cons h, if_neg Bool.false_ne_true]
  show (⟨tokens, (programTokens tokens).length - (tail.length + 1) + 1, depth, errors⟩ : Cursor) = _
  rw [hplace]
  rfl

end Cursor

namespace Walk

open Cursor

variable {α β : Type}

/-! ## Agreement -/

/-- What a walk comes to where a rule, with so much left, comes to what is given. -/
def outcome (tokens : List Token) (depth : Nat) (errors : Array SyntaxError) (parsed : Parsed α) :
    Except SyntaxError α × Cursor :=
  (parsed.result.mapError (Fault.toError (endMark tokens)),
    facing tokens depth (errors ++ parsed.reported.map (Fault.toError (endMark tokens)))
      parsed.rest)

/-- With so much left the walk comes to what the rule comes to. -/
structure AgreesAt (tokens : List Token) (depth : Nat) (walk : Walk α) (rule : Rule α)
    (left : List Token) : Prop where
  suffix : (rule left).rest <:+ left
  eq : ∀ errors, walk (facing tokens depth errors left) = outcome tokens depth errors (rule left)

/-- At every place in the program the walk comes to what the rule comes to. -/
def Agrees (tokens : List Token) (depth : Nat) (walk : Walk α) (rule : Rule α) : Prop :=
  ∀ left, left <:+ programTokens tokens → AgreesAt tokens depth walk rule left

variable {walk : Walk α} {rule : Rule α} {next : α → Walk β} {next' : α → Rule β}

/-- Where nothing is reported the errors stay as they are. -/
theorem outcome_empty (errors : Array SyntaxError) (result : Except Fault α) :
    outcome tokens depth errors ⟨result, rest, #[]⟩ =
      (result.mapError (Fault.toError (endMark tokens)), facing tokens depth errors rest) := by
  unfold outcome
  rw [Array.map_empty, Array.append_empty]

/-- What is reported on the way is recorded before what comes of the rest. -/
theorem outcome_append (errors : Array SyntaxError) (before : Array Fault) (parsed : Parsed α) :
    outcome tokens depth errors ⟨parsed.result, parsed.rest, before ++ parsed.reported⟩ =
      outcome tokens depth (errors ++ before.map (Fault.toError (endMark tokens))) parsed := by
  unfold outcome
  rw [Array.map_append, Array.append_assoc]

theorem AgreesAt.of_eq {parsed : Parsed α} (hrule : rule left = parsed)
    (hsuffix : parsed.rest <:+ left)
    (hwalk : ∀ errors, walk (facing tokens depth errors left) =
      outcome tokens depth errors parsed) : AgreesAt tokens depth walk rule left := by
  subst hrule
  exact ⟨hsuffix, hwalk⟩

theorem AgreesAt.of_empty {result : Except Fault α} (hrule : rule left = ⟨result, rest, #[]⟩)
    (hsuffix : rest <:+ left)
    (hwalk : ∀ errors, walk (facing tokens depth errors left) =
      (result.mapError (Fault.toError (endMark tokens)), facing tokens depth errors rest)) :
    AgreesAt tokens depth walk rule left :=
  .of_eq hrule hsuffix fun errors => (hwalk errors).trans (outcome_empty errors result).symm

/-! ## Single steps -/

theorem bind_apply (walk : Walk α) (next : α → Walk β) (cursor : Cursor) :
    (walk >>= next) cursor = match walk cursor with
      | (.error error, reached) => (.error error, reached)
      | (.ok a, reached) => next a reached := rfl

theorem peek_bind (next : Token → Walk β) (cursor : Cursor) :
    (peek >>= next) cursor = next cursor.token cursor := rfl

theorem advance_bind (next : Token → Walk β) (cursor : Cursor) :
    (advance >>= next) cursor = next cursor.forward.previous cursor.forward := rfl

theorem agrees_pure (a : α) : Agrees tokens depth (pure a) (pure a) :=
  fun left _ => .of_empty rfl (List.suffix_refl left) fun _ => rfl

/-- After the first walk the second has to agree at the place that the first rule comes to. -/
theorem AgreesAt.bind_of_reads (hwalk : AgreesAt tokens depth walk rule left)
    (hnext : ∀ {a mid reported}, rule.Reads left a mid reported →
      AgreesAt tokens depth (next a) (next' a) mid) :
    AgreesAt tokens depth (walk >>= next) (rule >>= next') left := by
  obtain ⟨hsuffix, heq⟩ := hwalk
  generalize hparsed : rule left = parsed at hsuffix heq
  rcases parsed with ⟨fault | a, mid, before⟩
  · refine .of_eq (Rule.bind_of_stops hparsed) hsuffix fun errors => ?_
    rw [bind_apply, heq]
    rfl
  · obtain ⟨hmid, hsecond⟩ := hnext hparsed
    refine .of_eq (Rule.bind_of_reads hparsed) (hmid.trans hsuffix) fun errors => ?_
    rw [bind_apply, heq, outcome_append]
    exact hsecond _

theorem AgreesAt.bind (hleft : left <:+ programTokens tokens)
    (hwalk : AgreesAt tokens depth walk rule left)
    (hnext : ∀ a, Agrees tokens depth (next a) (next' a)) :
    AgreesAt tokens depth (walk >>= next) (rule >>= next') left := by
  refine hwalk.bind_of_reads fun {a mid reported} hread => hnext a mid ?_
  have hsuffix := hwalk.suffix
  rw [show rule left = _ from hread] at hsuffix
  exact hsuffix.trans hleft

theorem agrees_bind (hwalk : Agrees tokens depth walk rule)
    (hnext : ∀ a, Agrees tokens depth (next a) (next' a)) :
    Agrees tokens depth (walk >>= next) (rule >>= next') :=
  fun left hleft => (hwalk left hleft).bind hleft hnext

/-- A walk need not know what is left. -/
theorem AgreesAt.remaining_bind {next' : List Token → Rule α}
    (h : AgreesAt tokens depth walk (next' left) left) :
    AgreesAt tokens depth walk (Rule.remaining >>= next') left := by
  have hremaining : Rule.remaining.Reads left left left #[] := rfl
  exact .of_eq (Rule.bind_of_reads_empty hremaining) h.suffix h.eq

/-- The token at the place is the first that is left, or the end. -/
theorem token_facing (hleft : left <:+ programTokens tokens) :
    (facing tokens depth errors left).token = left.head?.getD (endMark tokens) := by
  cases left with
  | nil => exact token_facing_nil
  | cons token tail => exact token_facing_cons hleft

theorem agrees_fail (cause : SyntaxError.Cause) :
    Agrees tokens depth (fail cause : Walk α) (Rule.fail cause) := by
  refine fun left hleft => .of_empty rfl (List.suffix_refl left) fun errors => ?_
  unfold fail
  rw [token_facing hleft]
  rfl

/-- A misplaced assignment is reported at its equals sign. -/
theorem agrees_report (equals : Token) (tail : List Token) :
    Agrees tokens depth (report ⟨.invalidAssignmentTarget, equals⟩)
      (Rule.report .invalidAssignmentTarget (equals :: tail)) := by
  refine fun left _ => ⟨List.suffix_refl left, fun errors => ?_⟩
  show (Except.ok (), facing tokens depth (errors.push ⟨.invalidAssignmentTarget, equals⟩) left) =
    (Except.ok (), facing tokens depth (errors ++ Array.map _ #[_]) left)
  rw [Array.push_eq_append, List.map_toArray]
  rfl

/-- Whether the next token is of such a kind is the same for a walk, which has to see that it is
not the end. -/
theorem nextIs_facing {kind kind' : Token.Kind → Bool}
    (hkind : ∀ first, kind first = (!first.isEnd && kind' first))
    (hleft : left <:+ programTokens tokens) :
    nextIs kind (facing tokens depth errors left) =
      (.ok (Rule.starts kind' left), facing tokens depth errors left) := by
  show (Except.ok (kind (facing tokens depth errors left).token.kind), _) = _
  cases left with
  | nil =>
      rw [token_facing_nil, kind_endMark, hkind]
      rfl
  | cons token tail =>
      rw [token_facing_cons hleft, hkind, isEnd_of_suffix hleft]
      rfl

/-- A kind that is not the end is told without looking for the end. -/
theorem eq_not_isEnd_and {kind : Token.Kind → Bool} (hend : kind .endOfSource = false)
    (first : Token.Kind) : kind first = (!first.isEnd && kind first) := by
  cases first with
  | endOfSource => exact hend
  | symbol | keyword | identifier | string | number => rfl

theorem agrees_nextIs {kind : Token.Kind → Bool} (hend : kind .endOfSource = false) :
    Agrees tokens depth (nextIs kind) (Rule.nextIs kind) :=
  fun left hleft => .of_empty rfl (List.suffix_refl left) fun _ =>
    nextIs_facing (eq_not_isEnd_and hend) hleft

/-! ## The first token -/

section

variable {choose : Token.Kind → Option (Token → Walk α)} {choose' : Token → Option (Rule α)}
  {otherwise : Walk α} {otherwise' : Rule α}

theorem byFirst_of_none {cursor : Cursor} (h : choose cursor.token.kind = none) :
    byFirst choose otherwise cursor = otherwise cursor := by
  unfold byFirst
  rw [peek_bind, h]

theorem byFirst_of_some {cursor : Cursor} {chosen : Token → Walk α}
    (h : choose cursor.token.kind = some chosen) :
    byFirst choose otherwise cursor = chosen cursor.forward.previous cursor.forward := by
  unfold byFirst
  rw [peek_bind, h]
  rfl

theorem byFirst_facing_cons {chosen : Token → Walk α} (h : choose token.kind = some chosen)
    (hleft : token :: tail <:+ programTokens tokens) :
    byFirst choose otherwise (facing tokens depth errors (token :: tail)) =
      chosen token (facing tokens depth errors tail) := by
  rw [byFirst_of_some (by rw [token_facing_cons hleft, h]), forward_facing_cons hleft,
    previous_facing hleft]

/-- For a token a walk is chosen where a rule is. -/
private theorem choose_cases
    (h : Option.Rel (Agrees tokens depth) ((choose token.kind).map (· token)) (choose' token)) :
    (choose token.kind = none ∧ choose' token = none) ∨
      ∃ chosen inside, choose token.kind = some chosen ∧ choose' token = some inside ∧
        Agrees tokens depth (chosen token) inside := by
  generalize choose token.kind = first at h ⊢
  generalize choose' token = second at h ⊢
  cases first with
  | none =>
      cases h
      exact .inl ⟨rfl, rfl⟩
  | some chosen =>
      cases h with
      | some hagrees => exact .inr ⟨chosen, _, rfl, rfl, hagrees⟩

/-- A walk that goes by the kind of a token agrees with a rule that does, if nothing is chosen for
the kind of the end. -/
theorem agrees_byFirst (hend : choose .endOfSource = none)
    (hchoose : ∀ token,
      Option.Rel (Agrees tokens depth) ((choose token.kind).map (· token)) (choose' token))
    (hotherwise : Agrees tokens depth otherwise otherwise') :
    Agrees tokens depth (byFirst choose otherwise) (Rule.byFirst choose' otherwise') := by
  intro left hleft
  obtain ⟨hsuffix, hother⟩ := hotherwise left hleft
  cases left with
  | nil =>
      refine ⟨hsuffix, fun errors => ?_⟩
      rw [byFirst_of_none (by rw [token_facing_nil, kind_endMark, hend])]
      exact hother errors
  | cons token tail =>
      rcases choose_cases (hchoose token) with
        ⟨hnone, hnone'⟩ | ⟨chosen, inside, hchosen, hinside, hagrees⟩
      · have hrule : Rule.byFirst choose' otherwise' (token :: tail) =
            otherwise' (token :: tail) := by rw [Rule.byFirst_cons, hnone']
        refine .of_eq hrule hsuffix fun errors => ?_
        rw [byFirst_of_none (by rw [token_facing_cons hleft, hnone])]
        exact hother errors
      · have hrule : Rule.byFirst choose' otherwise' (token :: tail) = inside tail := by
          rw [Rule.byFirst_cons, hinside]
        obtain ⟨htail, heq⟩ := hagrees tail (suffix_of_cons hleft)
        refine .of_eq hrule (htail.trans (List.suffix_cons token tail)) fun errors => ?_
        rw [byFirst_facing_cons hchosen hleft]
        exact heq errors

end

theorem agrees_takeIf {kind : Token.Kind → Bool} (hend : kind .endOfSource = false) :
    Agrees tokens depth (takeIf kind) (Rule.takeIf kind) := by
  rw [Rule.takeIf_eq_byFirst]
  refine agrees_byFirst (if_neg (by simp [hend])) (fun token => ?_) (agrees_pure none)
  split
  · exact .some (agrees_pure (some token))
  · exact .none

theorem agrees_expect {kind : Token.Kind → Bool} (hend : kind .endOfSource = false)
    (cause : SyntaxError.Cause) :
    Agrees tokens depth (expect kind cause) (Rule.expect kind cause) := by
  refine agrees_bind (agrees_takeIf hend) fun taken => ?_
  cases taken with
  | none => exact agrees_fail cause
  | some token => exact agrees_pure token

theorem agrees_expectSymbol (symbol : Symbol) (cause : SyntaxError.Cause) :
    Agrees tokens depth (expectSymbol symbol cause) (Rule.expectSymbol symbol cause) :=
  agrees_bind (agrees_expect rfl cause) fun _ => agrees_pure ()

/-- What is walked through and then closed by a symbol. -/
theorem agrees_closed (hwalk : Agrees tokens depth walk rule) (symbol : Symbol)
    (cause : SyntaxError.Cause) (hnext : ∀ a, Agrees tokens depth (next a) (next' a)) :
    Agrees tokens depth (walk >>= fun a => expectSymbol symbol cause >>= fun _ => next a)
      (rule >>= fun a => Rule.expectSymbol symbol cause >>= fun _ => next' a) :=
  agrees_bind hwalk fun a => agrees_bind (agrees_expectSymbol symbol cause) fun _ => hnext a

/-! ## Levels -/

/-- The depth is as before when a walk comes back from one level deeper. -/
theorem nested_of_lt {cursor : Cursor} (h : cursor.depth < maxNesting) :
    nested walk cursor =
      ((walk { cursor with depth := cursor.depth + 1 }).1,
        { (walk { cursor with depth := cursor.depth + 1 }).2 with
          depth := (walk { cursor with depth := cursor.depth + 1 }).2.depth - 1 }) :=
  if_neg (Nat.not_le.2 h)

/-- One level deeper a walk goes on as a rule does that has one level less. -/
theorem agrees_nested (hlt : depth < maxNesting) (hwalk : Agrees tokens (depth + 1) walk rule) :
    Agrees tokens depth (nested walk) rule := by
  intro left hleft
  obtain ⟨hsuffix, heq⟩ := hwalk left hleft
  refine ⟨hsuffix, fun errors => ?_⟩
  have hdeeper : walk { facing tokens depth errors left with depth := depth + 1 } =
      outcome tokens (depth + 1) errors (rule left) := heq errors
  refine (nested_of_lt hlt).trans ?_
  rw [show (facing tokens depth errors left).depth = depth from rfl, hdeeper]
  rfl

/-- At the greatest depth a walk stops as a rule does that has no level left. -/
theorem agrees_nested_of_le (hle : maxNesting ≤ depth) :
    Agrees tokens depth (nested walk) (Rule.fail .tooMuchNesting) := by
  intro left hleft
  obtain ⟨hsuffix, heq⟩ := agrees_fail .tooMuchNesting left hleft
  refine ⟨hsuffix, fun errors => ?_⟩
  exact (if_pos hle).trans (heq errors)

/-! ## Loops -/

section

variable {goesOn : Walk Bool} {turn : α → Walk α} {cursor : Cursor}

theorem turnsWhile_of_not (h : goesOn cursor = (.ok false, cursor)) (turns : Nat) (a : α) :
    turnsWhile goesOn turn turns a cursor = (.ok a, cursor) := by
  cases turns with
  | zero => rfl
  | succ turns =>
      unfold turnsWhile
      rw [bind_apply, h]
      rfl

theorem turnsWhile_succ (h : goesOn cursor = (.ok true, cursor)) (turns : Nat) (a : α) :
    turnsWhile goesOn turn (turns + 1) a cursor =
      (turn a >>= turnsWhile goesOn turn turns) cursor := by
  rw [turnsWhile, bind_apply, h]
  rfl

end

section

variable {kind kind' : Token.Kind → Bool} {turn : α → Walk α} {turn' : α → Rule α} {a : α}
  (hkind : ∀ first, kind first = (!first.isEnd && kind' first))

include hkind

private theorem turnsWhile_of_eq_none (hleft : left <:+ programTokens tokens)
    (h : Rule.stepWhile (·.any (kind' ·.kind)) turn' a left = none) (turns : Nat) :
    turnsWhile (nextIs kind) turn turns a (facing tokens depth errors left) =
      (.ok a, facing tokens depth errors left) := by
  have hnot : Rule.starts kind' left = false := Rule.stepWhile_eq_none_iff.1 h
  refine turnsWhile_of_not ?_ turns a
  rw [nextIs_facing hkind hleft, hnot]

/-- Where there is a step there is a token, so one of the turns is left for it. -/
private theorem turnsWhile_of_eq_some {parsed : Parsed α} {turns : Nat}
    (hleft : left <:+ programTokens tokens)
    (h : Rule.stepWhile (·.any (kind' ·.kind)) turn' a left = some parsed)
    (hturns : left.length ≤ turns) :
    ∃ fewer, turns = fewer + 1 ∧
      turnsWhile (nextIs kind) turn turns a (facing tokens depth errors left) =
        (turn a >>= turnsWhile (nextIs kind) turn fewer) (facing tokens depth errors left) := by
  have hstarts : Rule.starts kind' left = true := (Rule.stepWhile_eq_some_iff.1 h).1
  cases left with
  | nil => cases hstarts
  | cons token tail =>
      obtain ⟨fewer, rfl⟩ := Nat.exists_eq_add_of_le' (Nat.le_of_add_left_le hturns)
      refine ⟨fewer, rfl, turnsWhile_succ ?_ fewer a⟩
      rw [nextIs_facing hkind hleft, hstarts]

/-- What comes of a loop without a bound is what turns come to if there are enough of them. -/
private theorem turnsWhile_of_loops {parsed : Parsed α}
    (htakes : Rule.TakesTokens (Rule.stepWhile (·.any (kind' ·.kind)) turn'))
    (hturn : ∀ a left, left <:+ programTokens tokens → Rule.starts kind' left = true →
      AgreesAt tokens depth (turn a) (turn' a) left)
    (h : Rule.Loops (Rule.stepWhile (·.any (kind' ·.kind)) turn') a left parsed) :
    left <:+ programTokens tokens → parsed.rest <:+ left ∧ ∀ turns errors, left.length ≤ turns →
      turnsWhile (nextIs kind) turn turns a (facing tokens depth errors left) =
        outcome tokens depth errors parsed := by
  -- over the steps of the loop, each of which leaves fewer turns and may add to the errors
  induction h with
  | @done a left hnone =>
      refine fun hleft => ⟨List.suffix_refl left, fun turns errors _ => ?_⟩
      rw [turnsWhile_of_eq_none hkind hleft hnone, outcome_empty]
      rfl
  | @stopped a left rest fault reported hsome =>
      intro hleft
      obtain ⟨hstarts, hstop⟩ := Rule.stepWhile_eq_some_iff.1 hsome
      obtain ⟨hsuffix, heq⟩ := hturn a left hleft hstarts
      rw [hstop] at hsuffix heq
      refine ⟨hsuffix, fun turns errors hle => ?_⟩
      obtain ⟨fewer, rfl, hfirst⟩ := turnsWhile_of_eq_some hkind hleft hsome hle
      rw [hfirst, bind_apply, heq]
      rfl
  | @turn a b left mid before parsed hsome _ ih =>
      intro hleft
      obtain ⟨hstarts, hread⟩ := Rule.stepWhile_eq_some_iff.1 hsome
      obtain ⟨hsuffix, heq⟩ := hturn a left hleft hstarts
      rw [hread] at hsuffix heq
      obtain ⟨hrest, hloop⟩ := ih (hsuffix.trans hleft)
      refine ⟨hrest.trans hsuffix, fun turns errors hle => ?_⟩
      obtain ⟨fewer, rfl, hfirst⟩ := turnsWhile_of_eq_some hkind hleft hsome hle
      have hshorter : mid.length < left.length := htakes.shorter hsome
      rw [hfirst, bind_apply, heq, outcome_append]
      exact hloop fewer _ (by omega)

/-- A loop takes its turns as long as the loop of a rule takes steps, if it sees to it that it
does not take one at the end. -/
theorem agrees_repeatWhile (htakes : Rule.TakesTokens (Rule.stepWhile (·.any (kind' ·.kind)) turn'))
    (hturn : ∀ a left, left <:+ programTokens tokens → Rule.starts kind' left = true →
      AgreesAt tokens depth (turn a) (turn' a) left) (first : α) :
    Agrees tokens depth (repeatWhile (nextIs kind) turn first)
      (Rule.repeating (Rule.stepWhile (·.any (kind' ·.kind)) turn') first) := by
  intro left hleft
  have hloops := Rule.loops_repeating htakes first left
  obtain ⟨hsuffix, heq⟩ := turnsWhile_of_loops hkind htakes hturn hloops hleft
  have hlength : left.length ≤ tokens.length :=
    hleft.length_le.trans (List.takeWhile_prefix _).length_le
  exact ⟨hsuffix, fun errors => heq tokens.length errors hlength⟩

end

/-! ## Recovery -/

theorem dropsMore_facing_nil :
    dropsMore (facing tokens depth errors []) = (.ok false, facing tokens depth errors []) := by
  unfold dropsMore
  rw [isAtEnd_facing_nil]
  rfl

/-- Whether a token more is dropped is told by the last that has been and by the next. -/
theorem dropsMore_facing_cons {next : Token}
    (hleft : token :: next :: tail <:+ programTokens tokens) :
    dropsMore (facing tokens depth errors (next :: tail)) =
      (.ok (!token.kind.isSymbol .semicolon && !isStarter next.kind),
        facing tokens depth errors (next :: tail)) := by
  have hnext := suffix_of_cons hleft
  unfold dropsMore
  rw [isAtEnd_facing_cons hnext, previous_facing hleft, token_facing_cons hnext]
  rfl

private theorem turnsWhile_dropsMore (hleft : token :: tail <:+ programTokens tokens) :
    ∀ {turns : Nat}, tail.length ≤ turns →
      turnsWhile dropsMore (fun _ => do let _ ← advance) turns ()
          (facing tokens depth errors tail) =
        (.ok (), facing tokens depth errors (resume (token :: tail))) := by
  -- over the tokens that are left, with the last that has been dropped before them
  induction tail generalizing token with
  | nil =>
      intro turns _
      have hresume : resume [token] = [] := List.eq_nil_of_length_eq_zero (by
        have hlt := @length_resume_lt token []
        rw [List.length_singleton] at hlt
        omega)
      rw [turnsWhile_of_not dropsMore_facing_nil, hresume]
  | cons next tail ih =>
      intro turns hle
      have hdrops := @dropsMore_facing_cons tokens tail token depth errors next hleft
      unfold resume
      cases hsemicolon : token.kind.isSymbol .semicolon with
      | true =>
          rw [hsemicolon] at hdrops
          rw [turnsWhile_of_not hdrops]
          rfl
      | false =>
          cases hstarter : isStarter next.kind with
          | true =>
              rw [hsemicolon, hstarter] at hdrops
              rw [turnsWhile_of_not hdrops]
              simp [hstarter]
          | false =>
              have hnext := suffix_of_cons hleft
              rw [List.length_cons] at hle
              obtain ⟨turns, rfl⟩ := Nat.exists_eq_add_of_le' (Nat.le_of_add_left_le hle)
              rw [hsemicolon, hstarter] at hdrops
              rw [turnsWhile_succ hdrops]
              show turnsWhile _ _ turns () (facing tokens depth errors (next :: tail)).forward = _
              rw [forward_facing_cons hnext, ih hnext (Nat.le_of_succ_le_succ hle)]
              simp [hstarter]

/-- Recovery comes to the place at which reading goes on. -/
theorem synchronize_facing (hleft : left <:+ programTokens tokens) :
    synchronize (facing tokens depth errors left) =
      (.ok (), facing tokens depth errors (resume left)) := by
  unfold synchronize
  rw [advance_bind]
  cases left with
  | nil =>
      rw [forward_facing_nil]
      exact turnsWhile_of_not dropsMore_facing_nil _ _
  | cons token tail =>
      rw [forward_facing_cons hleft]
      have hlength : tail.length ≤ tokens.length :=
        (suffix_of_cons hleft).length_le.trans (List.takeWhile_prefix _).length_le
      exact turnsWhile_dropsMore hleft hlength

theorem agrees_recovering (hwalk : Agrees tokens depth walk rule) :
    Agrees tokens depth (recovering walk) (Grammar.recovering rule) := by
  intro left hleft
  obtain ⟨hsuffix, heq⟩ := hwalk left hleft
  generalize hparsed : rule left = parsed at hsuffix heq
  rcases parsed with ⟨fault | a, mid, before⟩
  · have hrule : Grammar.recovering rule left = ⟨.ok none, resume mid, before.push fault⟩ := by
      unfold Grammar.recovering
      rw [hparsed]
    refine .of_eq hrule ((resume_suffix mid).trans hsuffix) fun errors => ?_
    unfold recovering
    rw [heq]
    show (synchronize >>= fun _ => pure none) (facing tokens depth (Array.push _ _) mid) = _
    rw [bind_apply, synchronize_facing (hsuffix.trans hleft)]
    unfold outcome
    rw [Array.map_push, Array.append_push]
    rfl
  · have hrule : Grammar.recovering rule left = ⟨.ok (some a), mid, before⟩ := by
      unfold Grammar.recovering
      rw [hparsed]
    refine .of_eq hrule hsuffix fun errors => ?_
    unfold recovering
    rw [heq]
    rfl

end Walk

end Lox
