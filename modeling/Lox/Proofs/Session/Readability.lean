import Lox.Proofs.Session.Legible

/-!
# The text of a program determines it

The trees that a session shows have no quotes, and nothing in them says what is a number, what a
name and what an operator.  Still, two accepted programs whose texts are the same are the same but
for the lines of their tokens, as long as no string and no infinite number stands in them
(`render_determines`).

The texts determine the outlines of the trees.  The word at the head of an outline is spelled like
a token of one kind only, which tells the node together with the number of its parts
(`Expr.form_eq`); and a word that is no head is a name, or the text of a value that is read back
from it.

Strings are left out because they are shown without their quotes: the text of one can be that of
any other tree.
-/

namespace Lox

open Piece

variable {kind : Token.Kind} {token : Token}

/-! ## Nodes are told by their heads -/

/-- What kind of node an expression is. -/
inductive Expr.Form
  | literal
  | grouping
  | unary
  | binary
  | logical
  | name
  | assign

def Expr.form : Expr → Expr.Form
  | .literal _ => .literal
  | .grouping _ => .grouping
  | .unary _ _ => .unary
  | .binary _ _ _ => .binary
  | .logical _ _ _ => .logical
  | .variable _ => .name
  | .assign _ _ => .assign

/-- The node that has a head of this kind and so many parts. -/
def Expr.Form.ofHead (kind : Token.Kind) (count : Nat) : Expr.Form :=
  if count = 1 then
    if Grammar.isUnary kind then .unary else .grouping
  else if Operator.isBinary kind then .binary
  else if Operator.isLogical kind then .logical
  else .assign

theorem not_isBinary_of_isLogical (h : Operator.isLogical kind = true) :
    Operator.isBinary kind = false := by
  unfold Operator.isLogical at h
  split at h <;> first | rfl | cases h

theorem lexeme_group : Lexeme (.identifier "group") "group".toList := by
  have hrest : ∀ d ∈ ['r', 'o', 'u', 'p'], isWordRest d = true := List.all_eq_true.1 rfl
  have hlexeme := lexeme_word (c := 'g') rfl hrest
  exact hlexeme

namespace Expr

variable {expr expr' : Expr}

/-- The head of a node, as the lexeme that it is spelled like, and the number of its parts tell
what kind of node it is. -/
theorem exists_form_eq {head : List Char} {parts : List Outline}
    (h : (Node.expression expr).Legible) (heq : expr.outline = .node head parts) :
    ∃ kind, Lexeme kind head ∧ expr.form = .ofHead kind parts.length := by
  cases expr with
  | literal _ | «variable» _ => cases heq
  | grouping _ =>
      obtain ⟨rfl, rfl⟩ := Outline.node.inj heq
      exact ⟨_, lexeme_group, rfl⟩
  | unary operator _ =>
      obtain ⟨rfl, rfl⟩ := Outline.node.inj heq
      obtain ⟨hoperator, hkind⟩ := h.clear
      exact ⟨_, hoperator, by simp [form, Form.ofHead, hkind]⟩
  | binary _ operator _ =>
      obtain ⟨rfl, rfl⟩ := Outline.node.inj heq
      obtain ⟨hoperator, hkind⟩ := h.clear
      exact ⟨_, hoperator, by simp [form, Form.ofHead, hkind]⟩
  | logical _ operator _ =>
      obtain ⟨rfl, rfl⟩ := Outline.node.inj heq
      obtain ⟨hoperator, hkind⟩ := h.clear
      exact ⟨_, hoperator, by simp [form, Form.ofHead, hkind, not_isBinary_of_isLogical hkind]⟩
  | assign _ _ =>
      obtain ⟨rfl, rfl⟩ := Outline.node.inj heq
      exact ⟨_, by simpa [Symbol.lexeme] using Lexeme.symbol .equal, rfl⟩

/-- Expressions that can be read back are the same kind of node if they have the same outline. -/
theorem form_eq (h : (Node.expression expr).Legible) (h' : (Node.expression expr').Legible)
    (heq : expr.outline = expr'.outline) : expr.form = expr'.form := by
  cases houtline : expr.outline with
  | leaf word =>
      cases expr with
      | literal value =>
          cases expr' with
          | literal value' => rfl
          | «variable» name' =>
              obtain ⟨hname, hidentifier⟩ := h'.clear
              exact absurd (Outline.leaf.inj heq) (Value.text_ne_name h.clear hname hidentifier)
          | _ => cases heq
      | «variable» name =>
          obtain ⟨hname, hidentifier⟩ := h.clear
          cases expr' with
          | literal value' =>
              exact absurd (Outline.leaf.inj heq).symm
                (Value.text_ne_name h'.clear hname hidentifier)
          | «variable» name' => rfl
          | _ => cases heq
      | _ => cases houtline
  | node head parts =>
      obtain ⟨kind, hlexeme, hform⟩ := exists_form_eq h houtline
      obtain ⟨kind', hlexeme', hform'⟩ := exists_form_eq h' (heq ▸ houtline)
      rw [hform, hform', hlexeme.kind_unique hlexeme']

/-- Two expressions that can be read back have the same outline only if they match. -/
theorem matches_of_outline_eq (h : (Node.expression expr).Legible)
    (h' : (Node.expression expr').Legible) (heq : expr.outline = expr'.outline) :
    expr.Matches Token.Alike expr' := by
  -- over the first expression: the form of the second is the same, and so the other cases fall away
  induction expr generalizing expr' with
  | literal value =>
      have hform := form_eq h h' heq
      cases expr' with
      | literal value' =>
          obtain rfl := Value.eq_of_text_eq h.clear h'.clear (Outline.leaf.inj heq)
          exact .literal value
      | _ => cases hform
  | grouping inner ih =>
      have hform := form_eq h h' heq
      cases expr' with
      | grouping inner' =>
          simp only [outline, Outline.node.injEq, List.cons.injEq, true_and, and_true] at heq
          exact .grouping (ih (h.partAt 0 rfl) (h'.partAt 0 rfl) heq)
      | _ => cases hform
  | unary operator right ih =>
      have hform := form_eq h h' heq
      cases expr' with
      | unary operator' right' =>
          simp only [outline, Outline.node.injEq, List.cons.injEq, and_true] at heq
          obtain ⟨hhead, hright⟩ := heq
          exact .unary (h.clear.1.alike h'.clear.1 hhead)
            (ih (h.partAt 0 rfl) (h'.partAt 0 rfl) hright)
      | _ => cases hform
  | binary left operator right ihLeft ihRight =>
      have hform := form_eq h h' heq
      cases expr' with
      | binary left' operator' right' =>
          simp only [outline, Outline.node.injEq, List.cons.injEq, and_true] at heq
          obtain ⟨hhead, hleft, hright⟩ := heq
          exact .binary
            (ihLeft (h.partAt 0 rfl) (h'.partAt 0 rfl) hleft)
            (h.clear.1.alike h'.clear.1 hhead)
            (ihRight (h.partAt 1 rfl) (h'.partAt 1 rfl) hright)
      | _ => cases hform
  | logical left operator right ihLeft ihRight =>
      have hform := form_eq h h' heq
      cases expr' with
      | logical left' operator' right' =>
          simp only [outline, Outline.node.injEq, List.cons.injEq, and_true] at heq
          obtain ⟨hhead, hleft, hright⟩ := heq
          exact .logical
            (ihLeft (h.partAt 0 rfl) (h'.partAt 0 rfl) hleft)
            (h.clear.1.alike h'.clear.1 hhead)
            (ihRight (h.partAt 1 rfl) (h'.partAt 1 rfl) hright)
      | _ => cases hform
  | «variable» name =>
      have hform := form_eq h h' heq
      cases expr' with
      | «variable» name' => exact .variable (h.clear.1.alike h'.clear.1 (Outline.leaf.inj heq))
      | _ => cases hform
  | assign name value ih =>
      have hform := form_eq h h' heq
      cases expr' with
      | assign name' value' =>
          simp only [outline, Outline.node.injEq, List.cons.injEq, Outline.leaf.injEq, true_and,
            and_true] at heq
          obtain ⟨hname, hvalue⟩ := heq
          exact .assign (h.clear.1.alike h'.clear.1 hname)
            (ih (h.partAt 0 rfl) (h'.partAt 0 rfl) hvalue)
      | _ => cases hform

end Expr

namespace Stmt

mutual

/-- Two statements that can be read back have the same outline only if they match. -/
theorem matches_of_outline_eq : ∀ {stmt stmt' : Stmt}, (Node.statement stmt).Legible →
    (Node.statement stmt').Legible → stmt.outline = stmt'.outline → stmt.Matches Token.Alike stmt'
  | .expression expr, stmt', h, h', heq => by
      cases stmt' with
      | expression expr' =>
          simp only [outline, Outline.node.injEq, List.cons.injEq, true_and, and_true] at heq
          exact .expression (expr.matches_of_outline_eq (h.partAt 0 rfl) (h'.partAt 0 rfl) heq)
      | _ => simp [outline] at heq
  | .print expr, stmt', h, h', heq => by
      cases stmt' with
      | print expr' =>
          simp only [outline, Outline.node.injEq, List.cons.injEq, true_and, and_true] at heq
          exact .print (expr.matches_of_outline_eq (h.partAt 0 rfl) (h'.partAt 0 rfl) heq)
      | _ => simp [outline] at heq
  | .var name initializer, stmt', h, h', heq => by
      cases stmt' with
      | var name' initializer' =>
          simp only [outline, Outline.node.injEq, List.cons.injEq, Outline.leaf.injEq, true_and]
            at heq
          obtain ⟨hhead, hinitializer⟩ := heq
          have hname := h.clear.1.alike h'.clear.1 hhead
          match initializer, initializer' with
          | none, none => exact .declared hname
          | some expr, some expr' =>
              have hexpr := expr.matches_of_outline_eq (h.partAt 0 rfl)
                (h'.partAt 0 rfl) (List.cons.inj hinitializer).1
              exact .initialized hname hexpr
          | none, some expr' | some expr, none => cases hinitializer
      | _ => simp [outline] at heq
  | .block body, stmt', h, h', heq => by
      cases stmt' with
      | block body' =>
          simp only [outline, Outline.node.injEq, true_and] at heq
          exact .block (matchesAll_of_outlines_eq (h.partAt 0 rfl) (h'.partAt 0 rfl) heq)
      | _ => simp [outline] at heq
  | .ifThen condition thenBranch, stmt', h, h', heq => by
      cases stmt' with
      | ifThen condition' thenBranch' =>
          simp only [outline, Outline.node.injEq, List.cons.injEq, true_and, and_true] at heq
          obtain ⟨hcondition, hthen⟩ := heq
          exact .ifThen
            (condition.matches_of_outline_eq (h.partAt 0 rfl) (h'.partAt 0 rfl) hcondition)
            (thenBranch.matches_of_outline_eq (h.partAt 1 rfl) (h'.partAt 1 rfl) hthen)
      | _ => simp [outline] at heq
  | .ifElse condition thenBranch elseBranch, stmt', h, h', heq => by
      cases stmt' with
      | ifElse condition' thenBranch' elseBranch' =>
          simp only [outline, Outline.node.injEq, List.cons.injEq, true_and, and_true] at heq
          obtain ⟨hcondition, hthen, helse⟩ := heq
          exact .ifElse
            (condition.matches_of_outline_eq (h.partAt 0 rfl) (h'.partAt 0 rfl) hcondition)
            (thenBranch.matches_of_outline_eq (h.partAt 1 rfl) (h'.partAt 1 rfl) hthen)
            (elseBranch.matches_of_outline_eq (h.partAt 2 rfl) (h'.partAt 2 rfl) helse)
      | _ => simp [outline] at heq
  | .loop condition body, stmt', h, h', heq => by
      cases stmt' with
      | loop condition' body' =>
          simp only [outline, Outline.node.injEq, List.cons.injEq, true_and, and_true] at heq
          obtain ⟨hcondition, hbody⟩ := heq
          exact .loop
            (condition.matches_of_outline_eq (h.partAt 0 rfl) (h'.partAt 0 rfl) hcondition)
            (body.matches_of_outline_eq (h.partAt 1 rfl) (h'.partAt 1 rfl) hbody)
      | _ => simp [outline] at heq

theorem matchesAll_of_outlines_eq : ∀ {body body' : List Stmt}, (Node.statements body).Legible →
    (Node.statements body').Legible → outlines body = outlines body' →
    MatchesAll Token.Alike body body'
  | [], [], _, _, _ => .nil
  | [], _ :: _, _, _, heq | _ :: _, [], _, _, heq => by cases heq
  | stmt :: rest, stmt' :: rest', h, h', heq => by
      obtain ⟨hstmt, hrest⟩ := List.cons.inj heq
      exact .cons
        (stmt.matches_of_outline_eq (h.partAt 0 rfl) (h'.partAt 0 rfl) hstmt)
        (matchesAll_of_outlines_eq h.of_cons h'.of_cons hrest)

end

/-- The texts of the statements of a program determine the program. -/
theorem matchesAll_of_map_render_eq {body body' : List Stmt} (h : (Node.statements body).Legible)
    (h' : (Node.statements body').Legible) (heq : body.map render = body'.map render) :
    MatchesAll Token.Alike body body' := by
  induction body generalizing body' with
  | nil =>
      cases body' with
      | nil => exact .nil
      | cons stmt' rest' => cases heq
  | cons stmt rest ih =>
      cases body' with
      | nil => cases heq
      | cons stmt' rest' =>
          obtain ⟨htext, htexts⟩ := List.cons.inj heq
          have hstmt : (Node.statement stmt).Legible := h.partAt 0 rfl
          have hstmt' : (Node.statement stmt').Legible := h'.partAt 0 rfl
          have houtline : stmt.outline = stmt'.outline :=
            (proper_outline hstmt).eq_of_text_eq (proper_outline hstmt')
              (by rw [text_outline, text_outline, htext])
          exact .cons (matches_of_outline_eq hstmt hstmt' houtline) (ih h.of_cons h'.of_cons htexts)

end Stmt

/-! ## Accepted programs -/

namespace Session

variable {source source' : String} {program program' : List Stmt}

/-- Every literal of a program is plain. -/
def PlainLiterals (program : List Stmt) : Prop :=
  ∀ value, (Node.statements program).Contains (.expression (.literal value)) →
    value.isPlain = true

theorem spelled_of_mem_scan (h : token ∈ (scan source).tokens) (hword : token.kind.isWord = true) :
    token.Spelled := by
  rw [Scan.scan_eq] at h
  rcases List.mem_append.1 h with hfound | hlast
  · exact Scan.lexeme_of_mem_progress source token hfound
  · obtain rfl := List.mem_singleton.1 hlast
    cases hword

/-- A well-formed node is clear, if it is of the tokens of a source and no literal that is shown
without its quotes or as infinite. -/
theorem clear_of_wellFormed {node : Node} (h : node.WellFormed (scan source).tokens)
    (hplain : ∀ value, node = .expression (.literal value) → value.isPlain = true) :
    node.Clear := by
  cases node with
  | statements body => trivial
  | statement stmt =>
      cases stmt with
      | var name initializer =>
          exact ⟨spelled_of_mem_scan h.1 (isWord_of_isIdentifier h.2), h.2⟩
      | _ => trivial
  | expression expr =>
      cases expr with
      | literal value => exact hplain value rfl
      | grouping inner => trivial
      | unary operator right => exact ⟨spelled_of_mem_scan h.1 (isWord_of_isUnary h.2), h.2⟩
      | binary left operator right =>
          exact ⟨spelled_of_mem_scan h.1 (isWord_of_isBinary h.2), h.2⟩
      | logical left operator right =>
          exact ⟨spelled_of_mem_scan h.1 (isWord_of_isLogical h.2), h.2⟩
      | «variable» name | assign name value =>
          exact ⟨spelled_of_mem_scan h.1 (isWord_of_isIdentifier h.2), h.2⟩

theorem Accepted.legible (h : Accepted source program) (hplain : PlainLiterals program) :
    (Node.statements program).Legible := by
  intro part hpart
  refine clear_of_wellFormed (regular_of_parse h.parse_eq_ok part hpart) ?_
  rintro value rfl
  exact hplain value hpart

/-- The texts of the statements of an accepted program determine the program, up to the lines of
its tokens, if none of its literals is a string or infinite. -/
theorem render_determines (haccepted : Accepted source program)
    (haccepted' : Accepted source' program') (hplain : PlainLiterals program)
    (hplain' : PlainLiterals program') :
    program.map Stmt.render = program'.map Stmt.render ↔
      Stmt.MatchesAll Token.Alike program program' :=
  ⟨Stmt.matchesAll_of_map_render_eq (haccepted.legible hplain) (haccepted'.legible hplain'),
    fun hmatches => hmatches.map_render_eq fun _ _ halike => halike⟩

/-- A negated number, with its sign on the given line. -/
def negated (number : Float) (line : Int32) : List Stmt :=
  [.expression (.unary ⟨.symbol .minus, "-", line⟩ (.literal (.number number)))]

theorem plainLiterals_negated {number : Float} (h : number.isFinite = true) (line : Int32) :
    PlainLiterals (negated number line) := by
  intro value hcontains
  have hstmt := hcontains.of_parts_eq rfl (by simp)
  have hexpr := hstmt.of_parts_eq rfl (by simp)
  have hliteral := hexpr.of_parts_eq rfl (by simp)
  cases hliteral with
  | refl => exact h
  | part hpart _ => cases hpart

theorem accepted_negated : Accepted "-1;" (negated (Number.ofDigits ['1'] []) 1) := by
  have hminus : pieces ['-', '1', ';'] = .token (.symbol .minus) ['-'] :: pieces ['1', ';'] :=
    pieces_cons '-' _
  have hnumber : pieces ['1', ';'] =
      .token (.number (Number.ofDigits ['1'] [])) ['1'] :: pieces [';'] := pieces_cons '1' _
  rw [hnumber, pieces_semicolon] at hminus
  have hscan := Scan.scan_of_pieces "-1;" hminus
  constructor <;> rw [hscan] <;> rfl

theorem accepted_negated_spaced :
    Accepted "\n- 1.0;" (negated (Number.ofDigits ['1'] ['0']) 2) := by
  have hline : pieces ['\n', '-', ' ', '1', '.', '0', ';'] =
      .blank '\n' :: pieces ['-', ' ', '1', '.', '0', ';'] := pieces_cons '\n' _
  have hminus : pieces ['-', ' ', '1', '.', '0', ';'] =
      .token (.symbol .minus) ['-'] :: pieces [' ', '1', '.', '0', ';'] := pieces_cons '-' _
  have hspace : pieces [' ', '1', '.', '0', ';'] = .blank ' ' :: pieces ['1', '.', '0', ';'] :=
    pieces_cons ' ' _
  have hnumber : pieces ['1', '.', '0', ';'] =
      .token (.number (Number.ofDigits ['1'] ['0'])) ['1', '.', '0'] :: pieces [';'] :=
    pieces_cons '1' _
  rw [hminus, hspace, hnumber, pieces_semicolon] at hline
  have hscan := Scan.scan_of_pieces "\n- 1.0;" hline
  constructor <;> rw [hscan] <;> rfl

/-- Neither blanks nor zeros at the end of a number are to be seen in the text. -/
theorem render_determines_negated :
    Accepted "-1;" (negated (Number.ofDigits ['1'] []) 1) ∧
      Accepted "\n- 1.0;" (negated (Number.ofDigits ['1'] ['0']) 2) ∧
      PlainLiterals (negated (Number.ofDigits ['1'] []) 1) ∧
      PlainLiterals (negated (Number.ofDigits ['1'] ['0']) 2) ∧
      (negated (Number.ofDigits ['1'] []) 1).map Stmt.render =
        (negated (Number.ofDigits ['1'] ['0']) 2).map Stmt.render ∧
      Stmt.MatchesAll Token.Alike (negated (Number.ofDigits ['1'] []) 1)
        (negated (Number.ofDigits ['1'] ['0']) 2) := by
  have hone : (Number.ofDigits ['1'] []).isFinite = true := by decide +kernel
  have hpoint : Number.text (Number.ofDigits ['1'] []) =
      Number.text (Number.ofDigits ['1'] ['0']) := by decide +kernel
  have hpoint' : (Number.ofDigits ['1'] ['0']).isFinite = true := by decide +kernel
  have hplain := plainLiterals_negated hone 1
  have hplain' := plainLiterals_negated hpoint' 2
  have htexts : (negated (Number.ofDigits ['1'] []) 1).map Stmt.render =
      (negated (Number.ofDigits ['1'] ['0']) 2).map Stmt.render := by
    simp [negated, Stmt.render, Expr.render, Value.text, hpoint]
  exact ⟨accepted_negated, accepted_negated_spaced, hplain, hplain', htexts,
    (render_determines accepted_negated accepted_negated_spaced hplain hplain').1 htexts⟩

/-- A string is shown without its quotes, and so it can be taken for a name. -/
example (name : Token) :
    Expr.render (.literal (.string name.lexeme)) = Expr.render (.variable name) := rfl

end Session

end Lox
