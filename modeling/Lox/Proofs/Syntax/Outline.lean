import Lox.Syntax.Render

/-!
# Reading the text of a tree

The text of a tree has no quotes and no marks for what a part of it is: only parentheses, spaces
and words.  An `Outline` is what these alone tell, and the text of a tree is that of its outline
(`Stmt.text_outline`).

As long as no word has a space or a parenthesis in it, the text determines the outline, and where
it ends: a word ends at the first character that breaks it, and a node at the parenthesis that
closes it.  So two such texts that begin alike, each with something after it, are one text with the
same after it (`Outline.text_append_inj`).
-/

namespace Lox

/-- What can be told of a tree from its parentheses. -/
inductive Outline
  | leaf (word : List Char)
  | node (head : List Char) (parts : List Outline)

namespace Outline

mutual

/-- An outline as parenthesised text. -/
def text : Outline → List Char
  | .leaf word => word
  | .node head parts => '(' :: (head ++ (textAll parts ++ [')']))

/-- The parts of a node, with a space before each. -/
def textAll : List Outline → List Char
  | [] => []
  | part :: rest => ' ' :: (part.text ++ textAll rest)

end

/-! ## Words -/

/-- What ends a word. -/
def isBreak (c : Char) : Bool := c == ' ' || c == '(' || c == ')'

/-- A text that nothing breaks. -/
structure IsWord (w : List Char) : Prop where
  ne_nil : w ≠ []
  not_isBreak : ∀ c ∈ w, isBreak c = false

/-- No word goes on into this text. -/
def Breaks (t : List Char) : Prop := ∀ c, t.head? = some c → isBreak c = true

variable {w w' t t' : List Char} {c : Char}

theorem breaks_nil : Breaks [] := by
  intro c hc
  cases hc

theorem breaks_cons (h : isBreak c = true) : Breaks (c :: t) := by
  rintro d ⟨⟩
  exact h

private theorem eq_nil_of_breaks {more : List Char} (hw : IsWord (w ++ more))
    (ht : Breaks (more ++ t)) : more = [] := by
  cases more with
  | nil => rfl
  | cons c more =>
      have hfalse := hw.not_isBreak c (by simp)
      have htrue := ht c rfl
      rw [hfalse] at htrue
      cases htrue

/-- Where a word ends can be seen. -/
theorem IsWord.append_inj (hw : IsWord w) (hw' : IsWord w') (ht : Breaks t) (ht' : Breaks t')
    (h : w ++ t = w' ++ t') : w = w' ∧ t = t' := by
  rcases List.append_eq_append_iff.1 h with ⟨more, rfl, rfl⟩ | ⟨more, rfl, rfl⟩
  · obtain rfl := eq_nil_of_breaks hw' ht
    simp
  · obtain rfl := eq_nil_of_breaks hw ht'
    simp

/-! ## Outlines of words -/

/-- The leaves and the heads of an outline are words. -/
inductive Proper : Outline → Prop
  | leaf {word : List Char} : IsWord word → Proper (.leaf word)
  | node {head : List Char} {parts : List Outline} :
      IsWord head → (∀ part ∈ parts, Proper part) → Proper (.node head parts)

theorem breaks_textAll (parts : List Outline) (t : List Char) :
    Breaks (textAll parts ++ ')' :: t) := by
  cases parts with
  | nil => exact breaks_cons (by decide)
  | cons part rest => exact breaks_cons (by decide)

/-- A word is no node: it does not begin with a parenthesis. -/
private theorem word_append_ne_node {head : List Char} {parts : List Outline} (hw : IsWord w) :
    w ++ t ≠ (Outline.node head parts).text ++ t' := by
  intro h
  obtain ⟨c, v, rfl⟩ := List.exists_cons_of_ne_nil hw.ne_nil
  obtain ⟨rfl, -⟩ := List.cons.inj h
  have hbreak := hw.not_isBreak '(' List.mem_cons_self
  cases hbreak

mutual

/-- The text of an outline of words determines the outline, and where the text ends. -/
theorem text_append_inj {t t' : List Char} (ht : Breaks t) (ht' : Breaks t') :
    ∀ {outline outline' : Outline}, outline.Proper → outline'.Proper →
      outline.text ++ t = outline'.text ++ t' → outline = outline' ∧ t = t'
  | .leaf _, .leaf _, .leaf hw, .leaf hw', h => by
      obtain ⟨rfl, rfl⟩ := hw.append_inj hw' ht ht' h
      exact ⟨rfl, rfl⟩
  | .leaf _, .node _ _, .leaf hw, _, h => absurd h (word_append_ne_node hw)
  | .node _ _, .leaf _, _, .leaf hw', h => absurd h.symm (word_append_ne_node hw')
  | .node head parts, .node head' parts', .node hhead hparts, .node hhead' hparts', h => by
      have hopen : head ++ (textAll parts ++ ')' :: t) =
          head' ++ (textAll parts' ++ ')' :: t') := by
        simpa only [text, List.cons_append, List.append_assoc, List.nil_append,
          List.cons.injEq, true_and] using h
      obtain ⟨rfl, hrest⟩ :=
        hhead.append_inj hhead' (breaks_textAll parts t) (breaks_textAll parts' t') hopen
      obtain ⟨rfl, rfl⟩ := textAll_append_inj hparts hparts' hrest
      exact ⟨rfl, rfl⟩

/-- And so do the texts of the parts of a node, up to the parenthesis that closes it. -/
theorem textAll_append_inj {t t' : List Char} :
    ∀ {parts parts' : List Outline}, (∀ part ∈ parts, part.Proper) →
      (∀ part ∈ parts', part.Proper) →
      textAll parts ++ ')' :: t = textAll parts' ++ ')' :: t' → parts = parts' ∧ t = t'
  | [], [], _, _, h => ⟨rfl, (List.cons.inj h).2⟩
  | [], _ :: _, _, _, h | _ :: _, [], _, _, h => by
      have hhead := (List.cons.inj h).1
      cases hhead
  | part :: rest, part' :: rest', hparts, hparts', h => by
      obtain ⟨hpart, hrest⟩ := List.forall_mem_cons.1 hparts
      obtain ⟨hpart', hrest'⟩ := List.forall_mem_cons.1 hparts'
      have hspace : part.text ++ (textAll rest ++ ')' :: t) =
          part'.text ++ (textAll rest' ++ ')' :: t') := by
        simpa only [textAll, List.cons_append, List.append_assoc, List.cons.injEq,
          true_and] using h
      -- behind the part comes a space or the parenthesis, neither of which it can go on into
      obtain ⟨rfl, hmore⟩ := text_append_inj (breaks_textAll rest t) (breaks_textAll rest' t')
        hpart hpart' hspace
      obtain ⟨rfl, rfl⟩ := textAll_append_inj hrest hrest' hmore
      exact ⟨rfl, rfl⟩

end

/-- Outlines of words have the same text only if they are the same. -/
theorem Proper.eq_of_text_eq {outline outline' : Outline} (houtline : outline.Proper)
    (houtline' : outline'.Proper) (h : outline.text = outline'.text) : outline = outline' :=
  (text_append_inj breaks_nil breaks_nil houtline houtline' (congrArg (· ++ []) h)).1

/-- The heads of the nodes that have no operator. -/
def fixedHeads : List String := ["group", "=", ";", "print", "var", "block", "if", "while"]

theorem isWord_fixedHead {head : String} (h : head ∈ fixedHeads) : IsWord head.toList := by
  simp only [fixedHeads, List.mem_cons, List.not_mem_nil, or_false] at h
  rcases h with rfl | rfl | rfl | rfl | rfl | rfl | rfl | rfl <;>
    exact ⟨by simp, by simp [isBreak]⟩

theorem proper_fixedHead {head : String} {parts : List Outline} (h : head ∈ fixedHeads)
    (hparts : ∀ part ∈ parts, part.Proper) : (Outline.node head.toList parts).Proper :=
  .node (isWord_fixedHead h) hparts

end Outline

/-! ## The outlines of trees -/

/-- What the text of an expression tells of it. -/
def Expr.outline : Expr → Outline
  | .literal value => .leaf value.text.toList
  | .grouping inner => .node "group".toList [inner.outline]
  | .unary operator right => .node operator.lexeme.toList [right.outline]
  | .binary left operator right
  | .logical left operator right => .node operator.lexeme.toList [left.outline, right.outline]
  | .variable name => .leaf name.lexeme.toList
  | .assign name value => .node "=".toList [.leaf name.lexeme.toList, value.outline]

mutual

/-- What the text of a statement tells of it. -/
def Stmt.outline : Stmt → Outline
  | .expression expr => .node ";".toList [expr.outline]
  | .print expr => .node "print".toList [expr.outline]
  | .var name initializer =>
      .node "var".toList (.leaf name.lexeme.toList :: (initializer.map Expr.outline).toList)
  | .block body => .node "block".toList (Stmt.outlines body)
  | .ifThen condition thenBranch =>
      .node "if".toList [condition.outline, thenBranch.outline]
  | .ifElse condition thenBranch elseBranch =>
      .node "if".toList [condition.outline, thenBranch.outline, elseBranch.outline]
  | .loop condition body => .node "while".toList [condition.outline, body.outline]

/-- The outlines of the statements of a block. -/
def Stmt.outlines : List Stmt → List Outline
  | [] => []
  | stmt :: rest => stmt.outline :: Stmt.outlines rest

end

theorem Expr.text_outline (expr : Expr) : expr.outline.text = expr.render.toList := by
  induction expr with
  | literal value | «variable» name => rfl
  | grouping inner ih => simp [outline, render, Outline.text, Outline.textAll, ih]
  | unary operator right ih => simp [outline, render, Outline.text, Outline.textAll, ih]
  | binary left operator right ihLeft ihRight | logical left operator right ihLeft ihRight =>
      simp [outline, render, Outline.text, Outline.textAll, ihLeft, ihRight]
  | assign name value ih => simp [outline, render, Outline.text, Outline.textAll, ih]

mutual

theorem Stmt.text_outline : ∀ stmt : Stmt, stmt.outline.text = stmt.render.toList
  | .expression expr | .print expr | .var _ (some expr) => by
      simp [outline, render, Outline.text, Outline.textAll, expr.text_outline]
  | .var _ none => by simp [outline, render, Outline.text, Outline.textAll]
  | .block body => by simp [outline, render, Outline.text, text_outlines body]
  | .ifThen condition thenBranch | .loop condition thenBranch => by
      simp [outline, render, Outline.text, Outline.textAll, condition.text_outline,
        thenBranch.text_outline]
  | .ifElse condition thenBranch elseBranch => by
      simp [outline, render, Outline.text, Outline.textAll, condition.text_outline,
        thenBranch.text_outline, elseBranch.text_outline]

theorem Stmt.text_outlines :
    ∀ body : List Stmt, Outline.textAll (Stmt.outlines body) = (Stmt.renderAll body).toList
  | [] => rfl
  | stmt :: rest => by
      simp [outlines, renderAll, Outline.textAll, stmt.text_outline, text_outlines rest]

end

end Lox
