import Lox.Proofs.Execution.Closure
import Lox.Proofs.Execution.FrameLaw

/-!
# Frames in two parts

Two environments that are alike but for one frame, which is in two parts in the second: an
inner frame, and an outer one right below it.  What is bound in the inner part is bound there
first, and so both environments give every name the same meaning.

An execution goes on in the same way from both, whatever its tree is: names are looked up,
assigned to and declared on the two sides of the seam as they are without it.  If it declares
nothing in the frame that is innermost at the start, it could as well be executed in a frame of
its own: nothing shows whether that frame was opened (`Exec.inFrame_eq_self`).  So a block with no
declarations of its own is not needed (`Stmt.execute_block_eq`).
-/

namespace Lox

/-- The bindings of two frames in one, in which those of the inner frame come first.  With
nothing in the inner frame, it is the outer one. -/
structure Frame.Splits (whole inner outer : Frame) : Prop where
  getElem?_eq (name : String) : whole[name]? = inner[name]?.or outer[name]?
  eq_of_isEmpty : inner.isEmpty = true → whole = outer

namespace Frame.Splits

variable {whole inner outer : Frame} {name : String}

theorem empty (frame : Frame) : Frame.Splits frame ∅ frame where
  getElem?_eq name := by simp
  eq_of_isEmpty _ := rfl

theorem contains_eq (h : Frame.Splits whole inner outer) (name : String) :
    whole.contains name = (inner.contains name || outer.contains name) := by
  simp only [Std.TreeMap.contains_eq_isSome_getElem?, h.getElem?_eq, Option.isSome_or]

/-- A binding may come into the inner frame. -/
theorem insert_inner (h : Frame.Splits whole inner outer) (name : String) (value : Value) :
    Frame.Splits (whole.insert name value) (inner.insert name value) outer where
  getElem?_eq other := by
    simp only [Std.TreeMap.getElem?_insert, h.getElem?_eq]
    split <;> rfl
  eq_of_isEmpty hempty := by simp at hempty

/-- A name that the inner frame does not bind may get a new value in the outer one. -/
theorem insert_outer (h : Frame.Splits whole inner outer) (value : Value)
    (hnot : inner.contains name = false) :
    Frame.Splits (whole.insert name value) inner (outer.insert name value) where
  getElem?_eq other := by
    simp only [Std.TreeMap.getElem?_insert, h.getElem?_eq]
    split
    · rename_i heq
      obtain rfl := Std.LawfulEqOrd.eq_of_compare heq
      rw [Std.TreeMap.contains_eq_isSome_getElem?, Option.isSome_eq_false_iff] at hnot
      rw [Option.isNone_iff_eq_none.1 hnot, Option.none_or]
    · rfl
  eq_of_isEmpty hempty := by rw [h.eq_of_isEmpty hempty]

end Frame.Splits

/-! ## Environments -/

namespace Environment

/-- A name means what it means in the first frame that binds it. -/
theorem lookup?_frame (frame : Frame) (env : Environment) (name : String) :
    lookup? ⟨frame, env.frames⟩ name = frame[name]?.or (env.lookup? name) := by
  show (frame :: env.frames).findSome? _ = _
  rw [List.findSome?_cons]
  cases frame[name]? <;> rfl

/-- A name is assigned to in the first frame that binds it. -/
theorem assign?_frame (frame : Frame) (env : Environment) (name : String) (value : Value) :
    assign? ⟨frame, env.frames⟩ name value =
      if frame.contains name then some ⟨frame.insert name value, env.frames⟩
      else (env.assign? name value).map fun after => ⟨frame, after.frames⟩ := by
  rw [assign?]
  split
  · rfl
  · rw [← map_frames_assign?, Option.map_map]
    rfl

/-- The environments are alike, but the second has the frame with so many frames above it in
two parts. -/
inductive Seam : (above : Nat) → Environment → Environment → Prop
  | here {whole inner outer : Frame} (rest : List Frame) :
      Frame.Splits whole inner outer → Seam 0 ⟨whole, rest⟩ ⟨inner, outer :: rest⟩
  | under {above : Nat} {env env' : Environment} (frame : Frame) :
      Seam above env env' → Seam (above + 1) ⟨frame, env.frames⟩ ⟨frame, env'.frames⟩

namespace Seam

variable {above : Nat} {env env' : Environment}

/-- A frame that has just been opened is the inner part of the one below it. -/
theorem opened (env : Environment) : Seam 0 env env.enter := .here env.enclosing (.empty _)

theorem lookup?_eq (h : Seam above env env') (name : String) :
    env.lookup? name = env'.lookup? name := by
  induction h with
  | @here whole inner outer rest hsplits =>
      have hwhole := lookup?_frame inner ⟨outer, rest⟩ name
      simp only [lookup?, frames, List.findSome?_cons] at hwhole ⊢
      rw [hwhole, hsplits.getElem?_eq]
      cases inner[name]? <;> rfl
  | under frame _ ih => rw [lookup?_frame, lookup?_frame, ih]

theorem define (h : Seam above env env') (name : String) (value : Value) :
    Seam above (env.define name value) (env'.define name value) := by
  cases h with
  | here rest hsplits => exact .here rest (hsplits.insert_inner name value)
  | under frame hseam => exact .under (frame.insert name value) hseam

/-- A name can be assigned to in both environments or in none. -/
theorem assign? (h : Seam above env env') (name : String) (value : Value) :
    Option.Rel (Seam above) (env.assign? name value) (env'.assign? name value) := by
  induction h with
  | @here whole inner outer rest hsplits =>
      have hsecond : Environment.assign? ⟨inner, outer :: rest⟩ name value = _ :=
        assign?_frame inner ⟨outer, rest⟩ name value
      rw [hsecond, Environment.assign?, hsplits.contains_eq]
      -- the name is bound in the inner part, in the outer one, or further out
      cases hinner : inner.contains name with
      | true => exact .some (.here rest (hsplits.insert_inner name value))
      | false =>
          rw [Environment.assign?]
          cases outer.contains name with
          | true => exact .some (.here rest (hsplits.insert_outer value hinner))
          | false =>
              dsimp only
              cases assignFrames? name value rest with
              | none => exact .none
              | some after => exact .some (.here after hsplits)
  | under frame hseam ih =>
      rw [assign?_frame, assign?_frame]
      split
      · exact .some (.under _ hseam)
      · revert ih
        generalize Environment.assign? _ name value = first
        generalize Environment.assign? _ name value = second
        intro ih
        cases ih with
        | none => exact .none
        | some hafter => exact .some (.under frame hafter)

theorem enter (h : Seam above env env') : Seam (above + 1) env.enter env'.enter := .under ∅ h

theorem leave (h : Seam (above + 1) env env') : Seam above env.leave env'.leave := by
  cases h with
  | under frame hseam => exact hseam

/-- If nothing has come into the inner part, closing it leaves the environment without a seam. -/
theorem leave_eq_of_names_eq_empty (h : Seam 0 env env')
    (hnames : Frame.names env'.innermost = ∅) : env'.leave = env := by
  cases h with
  | here rest hsplits =>
      rw [hsplits.eq_of_isEmpty (Frame.names_eq_empty_iff.1 hnames)]
      rfl

end Seam

end Environment

/-! ## Evaluations -/

variable {α β σ : Type}

namespace Eval

/-- From environments that are alike but for a seam, the evaluation comes to the same, and so are
the environments that it leaves. -/
def Seamless (eval : Eval α) : Prop :=
  ∀ ⦃above : Nat⦄ ⦃env env' : Environment⦄, env.Seam above env' →
    (outcome eval env).1 = (outcome eval env').1 ∧
      (outcome eval env).2.Seam above (outcome eval env').2

theorem seamless_pure (a : α) : Seamless (pure a : Eval α) := fun _ _ _ hseam => ⟨rfl, hseam⟩

theorem seamless_ofExcept (result : Except RuntimeError α) :
    Seamless (ofExcept result : Eval α) := by
  intro above env env' hseam
  rw [outcome_ofExcept, outcome_ofExcept]
  exact ⟨rfl, hseam⟩

theorem seamless_bind {eval : Eval α} {next : α → Eval β} (h : Seamless eval)
    (hnext : ∀ a, Seamless (next a)) : Seamless (eval >>= next) := by
  intro above env env' hseam
  have hfirst := h hseam
  rw [outcome_bind, outcome_bind]
  generalize outcome eval env = first at hfirst
  generalize outcome eval env' = first' at hfirst
  obtain ⟨result, mid⟩ := first
  obtain ⟨result', mid'⟩ := first'
  obtain ⟨rfl, hmid⟩ := hfirst
  cases result with
  | error error => exact ⟨rfl, hmid⟩
  | ok a => exact hnext a hmid

end Eval

theorem Expr.seamless_eval (expr : Expr) : expr.eval.Seamless := by
  induction expr with
  | literal value => exact Eval.seamless_pure value
  | grouping inner ih => exact ih
  | unary operator right ih => exact Eval.seamless_bind ih fun value => Eval.seamless_ofExcept _
  | binary left operator right ihLeft ihRight =>
      exact Eval.seamless_bind ihLeft fun x =>
        Eval.seamless_bind ihRight fun y => Eval.seamless_ofExcept _
  | logical left operator right ihLeft ihRight =>
      refine Eval.seamless_bind ihLeft fun value => ?_
      split
      · split
        · exact Eval.seamless_pure value
        · exact ihRight
      · split
        · exact ihRight
        · exact Eval.seamless_pure value
      · exact Eval.seamless_ofExcept (.error ⟨.unknownLogical, operator⟩)
  | «variable» name =>
      intro above env env' hseam
      rw [outcome_variable, outcome_variable, Environment.get, Environment.get,
        hseam.lookup?_eq]
      exact ⟨rfl, hseam⟩
  | assign name value ih =>
      intro above env env' hseam
      have hvalue := ih hseam
      rw [outcome_assign, outcome_assign]
      generalize Eval.outcome value.eval env = first at hvalue
      generalize Eval.outcome value.eval env' = first' at hvalue
      obtain ⟨result, mid⟩ := first
      obtain ⟨result', mid'⟩ := first'
      obtain ⟨rfl, hmid⟩ := hvalue
      cases result with
      | error error => exact ⟨rfl, hmid⟩
      | ok x =>
          -- with the seam the name can be assigned to if it can without
          have hassign := hmid.assign? name.lexeme x
          dsimp only
          unfold Environment.set
          generalize mid.assign? name.lexeme x = after at hassign
          generalize mid'.assign? name.lexeme x = after' at hassign
          cases hassign with
          | none => exact ⟨rfl, hmid⟩
          | some hafter => exact ⟨rfl, hafter⟩

/-! ## Executions -/

/-- The same result and the same state of the sink, in environments that are alike but for a
seam. -/
structure Outcome.Seam (above : Nat) (first first' : Outcome σ α) : Prop where
  result_eq : first.result = first'.result
  sink_eq : first.sink = first'.sink
  env : first.env.Seam above first'.env

namespace Exec

/-- From environments that are alike but for a seam, the execution comes to the same, and so are
the environments that it leaves. -/
def Seamless (exec : Exec (StateM σ) α) : Prop :=
  ∀ ⦃above : Nat⦄ ⦃env env' : Environment⦄ (s : σ), env.Seam above env' →
    (outcome exec env s).Seam above (outcome exec env' s)

theorem seamless_bind {exec : Exec (StateM σ) α} {next : α → Exec (StateM σ) β}
    (h : Seamless exec) (hnext : ∀ a, Seamless (next a)) : Seamless (exec >>= next) := by
  intro above env env' s hseam
  have hfirst := h s hseam
  rw [outcome_bind, outcome_bind]
  generalize outcome exec env s = first at hfirst
  generalize outcome exec env' s = first' at hfirst
  obtain ⟨result, mid, t⟩ := first
  obtain ⟨result', mid', t'⟩ := first'
  obtain ⟨rfl, rfl, hmid⟩ := hfirst
  cases result with
  | error stop => exact ⟨rfl, rfl, hmid⟩
  | ok a => exact hnext a t hmid

theorem seamless_ofEval {eval : Eval α} (h : eval.Seamless) :
    Seamless (ofEval eval : Exec (StateM σ) α) := by
  intro above env env' s hseam
  have heval := h hseam
  rw [outcome_ofEval, outcome_ofEval]
  generalize Eval.outcome eval env = first at heval
  generalize Eval.outcome eval env' = first' at heval
  obtain ⟨result, mid⟩ := first
  obtain ⟨result', mid'⟩ := first'
  obtain ⟨rfl, hmid⟩ := heval
  cases result <;> exact ⟨rfl, rfl, hmid⟩

theorem seamless_ofSink (action : ExceptT SinkError (StateM σ) α) :
    Seamless (ofSink action) := by
  intro above env env' s hseam
  rw [outcome_ofSink, outcome_ofSink]
  rcases action s with ⟨error | a, t⟩ <;> exact ⟨rfl, rfl, hseam⟩

theorem seamless_inFrame {exec : Exec (StateM σ) Unit} (h : Seamless exec) :
    Seamless (inFrame exec) := by
  intro above env env' s hseam
  obtain ⟨hresult, hsink, henv⟩ := h s hseam.enter
  rw [outcome_inFrame, outcome_inFrame]
  exact ⟨hresult, hsink, henv.leave⟩

/-- Whatever is executed does not see the seam. -/
theorem closed_seamless (sink : Sink (StateM σ)) : Closed sink fun _ exec => Seamless exec where
  pure _ _ _ _ _ hseam := ⟨rfl, rfl, hseam⟩
  outOfFuel _ _ _ _ hseam := ⟨rfl, rfl, hseam⟩
  bind := seamless_bind
  eval expr := seamless_ofEval expr.seamless_eval
  define name value _ _ _ _ hseam := ⟨rfl, rfl, hseam.define name value⟩
  writeLine _ := seamless_ofSink _
  inFrame := seamless_inFrame

/-- An execution that declares nothing may be put in a frame of its own, and nothing shows it. -/
theorem inFrame_eq_self {exec : Exec (StateM σ) Unit} {assigned : Finset String}
    (hseamless : Seamless exec) (hkeeps : Keeps ∅ assigned exec) : inFrame exec = exec := by
  refine ext_outcome fun env s => ?_
  obtain ⟨hresult, hsink, henv⟩ := hseamless s (.opened env)
  rw [outcome_inFrame, ← hresult, ← hsink]
  -- nothing has come into the frame that was opened
  have hnames : Frame.names (outcome exec env.enter s).env.innermost = ∅ :=
    (hkeeps env.enter s).innermost.names_eq.trans Frame.names_empty
  rw [henv.leave_eq_of_names_eq_empty hnames]

end Exec

/-- A block with no declarations of its own does what its statements do without it. -/
theorem Stmt.execute_block_eq (sink : Sink (StateM σ)) (fuel : Nat) {body : List Stmt}
    (hnone : declaresAll body = ∅) :
    (block body).execute sink fuel = executeAll sink fuel body := by
  have hkeeps := keeps_executeAll sink fuel body
  rw [hnone] at hkeeps
  exact Exec.inFrame_eq_self ((Exec.closed_seamless sink).executeAll fuel body) hkeeps

end Lox
