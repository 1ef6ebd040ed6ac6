import Lox.Proofs.Execution.FrameLaw

/-!
# Static scopes

What is in scope at a place of a program, told from the tree alone.  A place is the path
to a node from the statements of the program: at each step, which part is entered.  Only
two kinds of step change the scope.  A block adds an empty set, and the names of the
declarations before a statement of a block, or of the program, are in the innermost set.

The declarations meant are those which are themselves among the statements.  `Tidy` trees
have no others: the body of a loop and the branches of an `if` are no declarations.
-/

namespace Lox

/-- The names in scope, those of the innermost block first. -/
abbrev Scope : Type := List (Finset String)

namespace Stmt

/-- The name that a statement declares, if it is a declaration. -/
def declared? : Stmt → Option String
  | .var name _ => some name.lexeme
  | _ => none

/-- The names of the declarations among statements. -/
def declaredBy (body : List Stmt) : Finset String := (body.filterMap declared?).toFinset

@[simp] theorem declaredBy_nil : declaredBy [] = ∅ := rfl

theorem declaredBy_cons_of_eq_none {stmt : Stmt} (rest : List Stmt) (h : stmt.declared? = none) :
    declaredBy (stmt :: rest) = declaredBy rest := by
  rw [declaredBy, List.filterMap_cons_none h, declaredBy]

theorem declaredBy_cons_of_eq_some {stmt : Stmt} {name : String} (rest : List Stmt)
    (h : stmt.declared? = some name) :
    declaredBy (stmt :: rest) = insert name (declaredBy rest) := by
  rw [declaredBy, List.filterMap_cons_some h, List.toFinset_cons, declaredBy]

/-- Declarations are only among the statements of a block, or of the program. -/
inductive Tidy : Stmt → Prop
  | expression (expr : Expr) : Tidy (.expression expr)
  | print (expr : Expr) : Tidy (.print expr)
  | var (name : Token) (initializer : Option Expr) : Tidy (.var name initializer)
  | block {body : List Stmt} : (∀ stmt ∈ body, Tidy stmt) → Tidy (.block body)
  | ifThen {thenBranch : Stmt} (condition : Expr) :
      Tidy thenBranch → thenBranch.declared? = none → Tidy (.ifThen condition thenBranch)
  | ifElse {thenBranch elseBranch : Stmt} (condition : Expr) :
      Tidy thenBranch → thenBranch.declared? = none → Tidy elseBranch →
        elseBranch.declared? = none → Tidy (.ifElse condition thenBranch elseBranch)
  | loop {body : Stmt} (condition : Expr) :
      Tidy body → body.declared? = none → Tidy (.loop condition body)

/-- A tidy statement that is no declaration declares nothing. -/
theorem Tidy.declares_eq_empty {stmt : Stmt} (h : stmt.Tidy) (hnone : stmt.declared? = none) :
    stmt.declares = ∅ := by
  induction h with
  | expression | print | block => rfl
  | var => cases hnone
  | ifThen _ _ hthen ih => exact ih hthen
  | ifElse _ _ hthen _ helse ihThen ihElse =>
      rw [declares, ihThen hthen, ihElse helse, Finset.empty_union]
  | loop _ _ hbody ih => exact ih hbody

end Stmt

/-! ## Scopes -/

namespace Scope

/-- The scope after declarations in the innermost block. -/
def declare (names : Finset String) : Scope → Scope
  | [] => []
  | innermost :: enclosing => (innermost ∪ names) :: enclosing

@[simp] theorem declare_empty (scope : Scope) : scope.declare ∅ = scope := by
  cases scope <;> simp [declare]

theorem declare_declare (scope : Scope) (first second : Finset String) :
    (scope.declare first).declare second = scope.declare (first ∪ second) := by
  cases scope <;> simp [declare, Finset.union_assoc]

/-- The level of the innermost set with the name, counted from the innermost. -/
def level? (scope : Scope) (name : String) : Option Nat :=
  scope.findIdx? fun names => decide (name ∈ names)

end Scope

namespace Environment

/-- The level of the frame that gives a name its meaning, counted from the innermost. -/
def level? (env : Environment) (name : String) : Option Nat :=
  env.frames.findIdx? (·.contains name)

/-- The level is told from the names alone. -/
theorem level?_eq (env : Environment) (name : String) :
    env.level? name = Scope.level? env.names name := by
  have hcontains : (fun frame : Frame => frame.contains name) =
      (fun names => decide (name ∈ names)) ∘ Frame.names := by
    funext frame
    simp [← Std.TreeMap.contains_iff_mem]
  rw [level?, Scope.level?, names, List.findIdx?_map, hcontains]

/-- A name is looked up in the frame of its level. -/
theorem lookup?_eq (env : Environment) (name : String) :
    env.lookup? name = (env.level? name).bind fun i => env.frames[i]?.bind (·[name]?) := by
  unfold lookup? level?
  induction env.frames with
  | nil => rfl
  | cons frame rest ih =>
      rw [List.findSome?_cons, List.findIdx?_cons, Std.TreeMap.contains_eq_isSome_getElem?]
      cases hvalue : frame[name]? with
      | some value => simp [hvalue]
      | none =>
          rw [ih]
          cases rest.findIdx? (·.contains name) <;> simp

private theorem assignFrames?_eq (name : String) (value : Value) (frames : List Frame) :
    assignFrames? name value frames =
      (frames.findIdx? (·.contains name)).map fun i => frames.modify i (·.insert name value) := by
  induction frames with
  | nil => rfl
  | cons frame rest ih =>
      rw [assignFrames?, List.findIdx?_cons, ih]
      split
      · rfl
      · cases rest.findIdx? (·.contains name) <;> rfl

/-- A name is assigned to in the frame of its level. -/
theorem frames_assign? (env : Environment) (name : String) (value : Value) :
    (env.assign? name value).map frames =
      (env.level? name).map fun i => env.frames.modify i (·.insert name value) := by
  rw [map_frames_assign?, assignFrames?_eq, level?]

end Environment

/-! ## Places -/

/-- What there is at a place: an expression, a statement, or the statements of a block. -/
inductive Node
  | expression (expr : Expr)
  | statement (stmt : Stmt)
  | statements (body : List Stmt)

namespace Node

/-- The parts of a node, in the order in which they are written. -/
def parts : Node → List Node
  | .expression (.literal _) | .expression (.variable _) | .statement (.var _ none) => []
  | .expression (.grouping inner) => [.expression inner]
  | .expression (.unary _ right) => [.expression right]
  | .expression (.binary left _ right) | .expression (.logical left _ right) =>
      [.expression left, .expression right]
  | .expression (.assign _ value) => [.expression value]
  | .statement (.expression expr) | .statement (.print expr) | .statement (.var _ (some expr)) =>
      [.expression expr]
  | .statement (.block body) => [.statements body]
  | .statement (.ifThen condition thenBranch) => [.expression condition, .statement thenBranch]
  | .statement (.ifElse condition thenBranch elseBranch) =>
      [.expression condition, .statement thenBranch, .statement elseBranch]
  | .statement (.loop condition body) => [.expression condition, .statement body]
  | .statements body => body.map .statement

/-- What is in scope at the part of this number. -/
def scopeAt (scope : Scope) (i : Nat) : Node → Scope
  | .statement (.block _) => ∅ :: scope
  | .statements body => scope.declare (Stmt.declaredBy (body.take i))
  | _ => scope

/-- The node at the end of a path, and what is in scope there. -/
def at? (scope : Scope) (node : Node) : (path : List Nat) → Option (Scope × Node)
  | [] => some (scope, node)
  | i :: path => node.parts[i]?.bind fun part => part.at? (node.scopeAt scope i) path

/-- The statements of the node are tidy. -/
def Tidy : Node → Prop
  | .expression _ => True
  | .statement stmt => stmt.Tidy
  | .statements body => ∀ stmt ∈ body, stmt.Tidy

theorem Tidy.of_mem_parts {node part : Node} (h : node.Tidy) (hmem : part ∈ node.parts) :
    part.Tidy := by
  cases node with
  | expression expr =>
      cases part with
      | expression => trivial
      | statement => cases expr <;> simp [parts] at hmem
      | statements => cases expr <;> simp [parts] at hmem
  | statements body =>
      obtain ⟨stmt, hstmt, rfl⟩ := List.mem_map.1 hmem
      exact h stmt hstmt
  | statement stmt =>
      cases h with
      | expression | print =>
          obtain rfl := List.mem_singleton.1 hmem
          trivial
      | var name initializer =>
          cases initializer with
          | none => cases hmem
          | some expr =>
              obtain rfl := List.mem_singleton.1 hmem
              trivial
      | block hbody =>
          obtain rfl := List.mem_singleton.1 hmem
          exact hbody
      | ifThen _ hthen _ =>
          rcases List.mem_pair.1 hmem with rfl | rfl
          · trivial
          · exact hthen
      | ifElse _ hthen _ helse _ =>
          rcases List.mem_cons.1 hmem with rfl | hmem
          · trivial
          · rcases List.mem_pair.1 hmem with rfl | rfl
            · exact hthen
            · exact helse
      | loop _ hbody _ =>
          rcases List.mem_pair.1 hmem with rfl | rfl
          · trivial
          · exact hbody

/-- The parts of a node are smaller than the node. -/
theorem sizeOf_lt_of_mem_parts {node part : Node} (hmem : part ∈ node.parts) :
    sizeOf part < sizeOf node := by
  cases node with
  | expression expr =>
      rw [expression.sizeOf_spec]
      cases expr with
      | literal | «variable» => cases hmem
      | grouping inner =>
          obtain rfl := List.mem_singleton.1 hmem
          rw [expression.sizeOf_spec, Expr.grouping.sizeOf_spec]
          omega
      | unary operator right =>
          obtain rfl := List.mem_singleton.1 hmem
          rw [expression.sizeOf_spec, Expr.unary.sizeOf_spec]
          omega
      | binary left operator right =>
          rw [Expr.binary.sizeOf_spec]
          rcases List.mem_pair.1 hmem with rfl | rfl <;> rw [expression.sizeOf_spec] <;> omega
      | logical left operator right =>
          rw [Expr.logical.sizeOf_spec]
          rcases List.mem_pair.1 hmem with rfl | rfl <;> rw [expression.sizeOf_spec] <;> omega
      | assign name value =>
          obtain rfl := List.mem_singleton.1 hmem
          rw [expression.sizeOf_spec, Expr.assign.sizeOf_spec]
          omega
  | statement stmt =>
      rw [statement.sizeOf_spec]
      cases stmt with
      | expression expr =>
          obtain rfl := List.mem_singleton.1 hmem
          rw [expression.sizeOf_spec, Stmt.expression.sizeOf_spec]
          omega
      | print expr =>
          obtain rfl := List.mem_singleton.1 hmem
          rw [expression.sizeOf_spec, Stmt.print.sizeOf_spec]
          omega
      | var name initializer =>
          cases initializer with
          | none => cases hmem
          | some expr =>
              obtain rfl := List.mem_singleton.1 hmem
              rw [expression.sizeOf_spec, Stmt.var.sizeOf_spec, Option.some.sizeOf_spec]
              omega
      | block body =>
          obtain rfl := List.mem_singleton.1 hmem
          rw [statements.sizeOf_spec, Stmt.block.sizeOf_spec]
          omega
      | ifThen condition thenBranch =>
          rw [Stmt.ifThen.sizeOf_spec]
          rcases List.mem_pair.1 hmem with rfl | rfl
          · rw [expression.sizeOf_spec]
            omega
          · rw [statement.sizeOf_spec]
            omega
      | ifElse condition thenBranch elseBranch =>
          rw [Stmt.ifElse.sizeOf_spec]
          rcases List.mem_cons.1 hmem with rfl | hmem
          · rw [expression.sizeOf_spec]
            omega
          · rcases List.mem_pair.1 hmem with rfl | rfl <;> rw [statement.sizeOf_spec] <;> omega
      | loop condition body =>
          rw [Stmt.loop.sizeOf_spec]
          rcases List.mem_pair.1 hmem with rfl | rfl
          · rw [expression.sizeOf_spec]
            omega
          · rw [statement.sizeOf_spec]
            omega
  | statements body =>
      obtain ⟨stmt, hstmt, rfl⟩ := List.mem_map.1 hmem
      have hlt := List.sizeOf_lt_of_mem hstmt
      rw [statement.sizeOf_spec, statements.sizeOf_spec]
      omega

end Node

end Lox
