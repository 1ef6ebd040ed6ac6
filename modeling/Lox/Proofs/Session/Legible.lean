import Lox.Proofs.Grammar.WellFormed
import Lox.Proofs.Session.Literals
import Lox.Proofs.Syntax.Outline

/-!
# Trees whose text is made of words

All that is shown of a node itself, apart from its parts, is a lexeme: of its operator, of its
name, or of its value, with a minus sign before it or not.  A lexeme is a word, unless it is a
parenthesis or a string, and so the outlines of the trees that have neither are proper
(`Stmt.proper_outline`).

Plain values, which are no strings and no infinite numbers, have texts of their own: each is cut
into the tokens of a literal, which tell the value, and no name is among them.
-/

namespace Lox

open Piece

variable {kind : Token.Kind} {w : List Char} {value value' : Value} {token token' : Token}

/-! ## Words -/

namespace Token

/-- A token of this kind is written as a word. -/
def Kind.isWord : Kind → Bool
  | .string _ | .symbol .leftParen | .symbol .rightParen | .endOfSource => false
  | _ => true

/-- The lexeme of the token is one of its kind. -/
def Spelled (token : Token) : Prop := Lexeme token.kind token.lexeme.toList

end Token

theorem not_isBreak_of_isWordRest {c : Char} (h : isWordRest c = true) :
    Outline.isBreak c = false := by
  rw [Bool.eq_false_iff]
  intro hbreak
  have hcases : (c = ' ' ∨ c = '(') ∨ c = ')' := by simpa [Outline.isBreak] using hbreak
  rcases hcases with (rfl | rfl) | rfl <;> cases h

theorem not_isBreak_of_isDigit {c : Char} (h : c.isDigit = true) : Outline.isBreak c = false :=
  not_isBreak_of_isWordRest (isWordRest_of_isDigit h)

theorem Lexeme.isWord (h : Lexeme kind w) (hkind : kind.isWord = true) : Outline.IsWord w := by
  refine ⟨h.ne_nil, ?_⟩
  cases h with
  | symbol s =>
      cases s with
      | leftParen | rightParen => cases hkind
      | _ => simp [Symbol.lexeme, Outline.isBreak]
  | keyword keyword => cases keyword <;> simp [Keyword.lexeme, Outline.isBreak]
  | identifier hc hw _ =>
      exact List.forall_mem_cons.2 ⟨not_isBreak_of_isWordRest (isWordRest_of_isWordStart hc),
        fun d hd => not_isBreak_of_isWordRest (hw d hd)⟩
  | string _ _ => cases hkind
  | whole _ hdigits => exact fun d hd => not_isBreak_of_isDigit (hdigits d hd)
  | fraction _ hwhole _ hfraction =>
      refine List.forall_mem_append.2 ⟨fun d hd => not_isBreak_of_isDigit (hwhole d hd), ?_⟩
      exact List.forall_mem_cons.2 ⟨by decide, fun d hd => not_isBreak_of_isDigit (hfraction d hd)⟩

namespace Token.Spelled

theorem kind_eq (h : token.Spelled) (hw : Lexeme kind w) (heq : token.lexeme.toList = w) :
    token.kind = kind :=
  Lexeme.kind_unique (heq ▸ h) hw

theorem alike (h : token.Spelled) (h' : token'.Spelled)
    (heq : token.lexeme.toList = token'.lexeme.toList) : token.Alike token' :=
  ⟨h.kind_eq h' heq, String.toList_inj.1 heq⟩

end Token.Spelled

theorem isWord_of_isUnary (h : Grammar.isUnary kind = true) : kind.isWord = true := by
  unfold Grammar.isUnary at h
  split at h <;> first | rfl | cases h

theorem isWord_of_isBinary (h : Operator.isBinary kind = true) : kind.isWord = true := by
  unfold Operator.isBinary at h
  split at h <;> first | rfl | cases h

theorem isWord_of_isLogical (h : Operator.isLogical kind = true) : kind.isWord = true := by
  unfold Operator.isLogical at h
  split at h <;> first | rfl | cases h

theorem isWord_of_isIdentifier (h : Grammar.isIdentifier kind = true) : kind.isWord = true := by
  unfold Grammar.isIdentifier at h
  split at h <;> first | rfl | cases h

/-! ## Values -/

namespace Value

/-- All values but strings and numbers that are not finite. -/
def isPlain : Value → Bool
  | .nil | .bool _ => true
  | .number x => x.isFinite
  | .string _ => false

theorem literal_of_isPlain (h : value.isPlain = true) : value.Literal value.text := by
  cases value with
  | nil => exact .nil
  | bool b => exact .bool b
  | number x => exact .number h
  | string s => cases h

end Value

namespace LiteralCut

theorem unique {cut : List Piece} (h : LiteralCut value cut) (h' : LiteralCut value' cut) :
    value = value' := by
  cases h with
  | literal _ hvalue =>
      cases h' with
      | literal _ hvalue' => exact Option.some.inj (hvalue.symm.trans hvalue')
  | negated _ =>
      cases h' with
      | negated _ => rfl

theorem literal?_eq (h : LiteralCut value [.token kind w]) :
    Grammar.literal? kind = some value := by
  cases h with
  | literal _ hvalue => exact hvalue

/-- The pieces of a text that is written for a value. -/
theorem pieces_text {cut : List Piece} (h : LiteralCut value cut) :
    pieces (cut.flatMap Piece.text) = cut := by
  have happend := h.pieces_append apart_nil
  rwa [List.append_nil, pieces_nil, List.append_nil] at happend

end LiteralCut

namespace Value

/-- What is shown of a value is cut into the tokens of a literal. -/
theorem exists_cut_of_isPlain (h : value.isPlain = true) :
    ∃ cut, LiteralCut value cut ∧ cut.flatMap Piece.text = value.text.toList ∧
      pieces value.text.toList = cut := by
  obtain ⟨cut, hcut, htext⟩ := (literal_of_isPlain h).exists_cut
  refine ⟨cut, hcut, htext, ?_⟩
  rw [← htext]
  exact hcut.pieces_text

theorem eq_of_text_eq (h : value.isPlain = true) (h' : value'.isPlain = true)
    (htext : value.text.toList = value'.text.toList) : value = value' := by
  obtain ⟨cut, hcut, -, hpieces⟩ := exists_cut_of_isPlain h
  obtain ⟨cut', hcut', -, hpieces'⟩ := exists_cut_of_isPlain h'
  rw [htext, hpieces'] at hpieces
  subst hpieces
  exact hcut.unique hcut'

/-- No name is shown like a value. -/
theorem text_ne_name (h : value.isPlain = true) (hname : token.Spelled)
    (hkind : Grammar.isIdentifier token.kind = true) :
    value.text.toList ≠ token.lexeme.toList := by
  intro htext
  obtain ⟨cut, hcut, -, hpieces⟩ := exists_cut_of_isPlain h
  have hsingle : pieces token.lexeme.toList = [.token token.kind token.lexeme.toList] := by
    have happend := pieces_lexeme_append hname apart_nil
    rwa [List.append_nil, pieces_nil] at happend
  rw [htext, hsingle] at hpieces
  rw [← hpieces] at hcut
  have hvalue := hcut.literal?_eq
  unfold Grammar.isIdentifier at hkind
  split at hkind
  · rename_i hidentifier
    rw [hidentifier] at hvalue
    cases hvalue
  · cases hkind

theorem isWord_text (h : value.isPlain = true) : Outline.IsWord value.text.toList := by
  obtain ⟨cut, hcut, htext, -⟩ := exists_cut_of_isPlain h
  rw [← htext]
  cases hcut with
  | @literal kind w _ hlexeme hvalue =>
      have hkind : kind.isWord = true := by
        unfold Grammar.literal? at hvalue
        split at hvalue <;> cases hvalue <;> first | rfl | cases h
      simpa [Piece.text] using hlexeme.isWord hkind
  | @negated x w hlexeme =>
      have hword := hlexeme.isWord rfl
      have hminus : Outline.IsWord ('-' :: w) :=
        ⟨List.cons_ne_nil _ _, List.forall_mem_cons.2 ⟨by decide, hword.not_isBreak⟩⟩
      simpa [Piece.text] using hminus

end Value

/-! ## Trees that can be read back -/

namespace Node

/-- What is shown of a node, apart from its parts, is a lexeme of what stands there. -/
def Clear : Node → Prop
  | .expression (.literal value) => value.isPlain = true
  | .expression (.unary operator _) =>
      operator.Spelled ∧ Grammar.isUnary operator.kind = true
  | .expression (.binary _ operator _) =>
      operator.Spelled ∧ Operator.isBinary operator.kind = true
  | .expression (.logical _ operator _) =>
      operator.Spelled ∧ Operator.isLogical operator.kind = true
  | .expression (.variable name) | .expression (.assign name _) | .statement (.var name _) =>
      name.Spelled ∧ Grammar.isIdentifier name.kind = true
  | _ => True

/-- All that is in the node is clear. -/
def Legible (node : Node) : Prop := ∀ part, node.Contains part → part.Clear

variable {node part : Node}

theorem Legible.clear (h : node.Legible) : node.Clear := h node (.refl node)

/-- The parts of a legible node are legible. -/
theorem Legible.partAt (h : node.Legible) (i : Nat) (hpart : node.parts[i]? = some part) :
    part.Legible :=
  fun last hlast => h last (.part (List.mem_of_getElem? hpart) hlast)

theorem Legible.of_cons {stmt : Stmt} {rest : List Stmt}
    (h : (Node.statements (stmt :: rest)).Legible) : (Node.statements rest).Legible := by
  intro last hlast
  cases hlast with
  | refl => trivial
  | part hpart hlast => exact h last (.part (List.mem_cons_of_mem _ hpart) hlast)

theorem Contains.of_parts_eq {last : Node} (h : node.Contains last) (hparts : node.parts = [part])
    (hne : node ≠ last) : part.Contains last := by
  cases h with
  | refl => exact absurd rfl hne
  | part hpart h =>
      rw [hparts, List.mem_singleton] at hpart
      exact hpart ▸ h

end Node

/-! ### Their outlines are of words -/

theorem proper_leaf_name (h : token.Spelled ∧ Grammar.isIdentifier token.kind = true) :
    (Outline.leaf token.lexeme.toList).Proper :=
  .leaf (h.1.isWord (isWord_of_isIdentifier h.2))

theorem Expr.proper_outline {expr : Expr} (h : (Node.expression expr).Legible) :
    expr.outline.Proper := by
  induction expr with
  | literal value => exact .leaf (Value.isWord_text h.clear)
  | grouping inner ih =>
      have hinner := ih (h.partAt 0 rfl)
      exact Outline.proper_fixedHead (by simp [Outline.fixedHeads]) (by simp [hinner])
  | unary operator right ih =>
      obtain ⟨hspelled, hkind⟩ := h.clear
      have hright := ih (h.partAt 0 rfl)
      exact .node (hspelled.isWord (isWord_of_isUnary hkind)) (by simp [hright])
  | binary left operator right ihLeft ihRight =>
      obtain ⟨hspelled, hkind⟩ := h.clear
      have hleft := ihLeft (h.partAt 0 rfl)
      have hright := ihRight (h.partAt 1 rfl)
      exact .node (hspelled.isWord (isWord_of_isBinary hkind)) (by simp [hleft, hright])
  | logical left operator right ihLeft ihRight =>
      obtain ⟨hspelled, hkind⟩ := h.clear
      have hleft := ihLeft (h.partAt 0 rfl)
      have hright := ihRight (h.partAt 1 rfl)
      exact .node (hspelled.isWord (isWord_of_isLogical hkind)) (by simp [hleft, hright])
  | «variable» name => exact proper_leaf_name h.clear
  | assign name value ih =>
      have hvalue := ih (h.partAt 0 rfl)
      exact Outline.proper_fixedHead (by simp [Outline.fixedHeads])
        (by simp [proper_leaf_name h.clear, hvalue])

mutual

theorem Stmt.proper_outline : ∀ {stmt : Stmt}, (Node.statement stmt).Legible → stmt.outline.Proper
  | .expression expr, h | .print expr, h => by
      have hexpr := expr.proper_outline (h.partAt 0 rfl)
      exact Outline.proper_fixedHead (by simp [Outline.fixedHeads]) (by simp [hexpr])
  | .var name none, h =>
      Outline.proper_fixedHead (by simp [Outline.fixedHeads]) (by simp [proper_leaf_name h.clear])
  | .var name (some initializer), h => by
      have hinitializer := initializer.proper_outline (h.partAt 0 rfl)
      exact Outline.proper_fixedHead (by simp [Outline.fixedHeads])
        (by simp [proper_leaf_name h.clear, hinitializer])
  | .block body, h =>
      Outline.proper_fixedHead (by simp [Outline.fixedHeads])
        (proper_outlines (h.partAt 0 rfl))
  | .ifThen condition branch, h | .loop condition branch, h => by
      have hcondition := condition.proper_outline (h.partAt 0 rfl)
      have hbranch := branch.proper_outline (h.partAt 1 rfl)
      exact Outline.proper_fixedHead (by simp [Outline.fixedHeads]) (by simp [hcondition, hbranch])
  | .ifElse condition thenBranch elseBranch, h => by
      have hcondition := condition.proper_outline (h.partAt 0 rfl)
      have hthen := thenBranch.proper_outline (h.partAt 1 rfl)
      have helse := elseBranch.proper_outline (h.partAt 2 rfl)
      exact Outline.proper_fixedHead (by simp [Outline.fixedHeads])
        (by simp [hcondition, hthen, helse])

theorem Stmt.proper_outlines : ∀ {body : List Stmt}, (Node.statements body).Legible →
    ∀ outline ∈ Stmt.outlines body, outline.Proper
  | [], _ => by simp [outlines]
  | stmt :: rest, h => by
      have hstmt := stmt.proper_outline (h.partAt 0 rfl)
      have hrest : ∀ outline ∈ outlines rest, outline.Proper := proper_outlines h.of_cons
      simpa [outlines, hstmt] using hrest

end

end Lox
