import Mathlib.Data.List.Forall2
import Lox.Evaluation.Basic
import Lox.Proofs.Execution.Evolution

/-!
# Environments and their histories

An environment knows what its names mean now, and nothing of how that came about.  Here the same is
told from everything that has been done since there were no variables: from the frames that have
been opened and closed, and from all values that have ever been written.

A frame is known by the number of operations up to the one that opened it, so that no frame has the
number of another one, not even of one that has been closed.  The globals have the number zero.  A
value is written to a name in a frame, and it stays written there: to close a frame takes nothing
back, but what is written in it is not looked for any more.

What a name means is the last value that was written to it in the innermost of the live frames in
which anything was (`get_eq_last_written`).  The frames of the environment are the live frames one
by one, and each binds what was last written in it (`recalls_after`).
-/

namespace Lox

namespace Environment

/-- What can be done with an environment. -/
inductive Operation
  | enter
  | leave
  | define (name : String) (value : Value)
  | get (name : Token)
  | set (name : Token) (value : Value)

namespace Operation

/-- Whether the operation opens a frame. -/
@[simp]
def isEnter : Operation → Bool
  | .enter => true
  | _ => false

/-- Whether the operation is there to close a frame. -/
@[simp]
def isLeave : Operation → Bool
  | .leave => true
  | _ => false

end Operation

/-- The environment after an operation.  One that fails leaves it as it is. -/
def perform (env : Environment) : Operation → Environment
  | .enter => env.enter
  | .leave => env.leave
  | .define name value => env.define name value
  | .get _ => env
  | .set name value =>
      match env.set name value with
      | .ok after => after
      | .error _ => env

/-- Operations that have been performed, the last of them first. -/
abbrev History : Type := List Operation

namespace History

/-- The environment after all operations, from one without any variables. -/
def after : History → Environment
  | [] => .empty
  | operation :: past => (after past).perform operation

/-! ## Live frames -/

/-- The frames that have been opened and not closed, the innermost first.  The globals are never
closed. -/
def live : History → List Nat
  | [] => [0]
  | .enter :: past => (past.length + 1) :: live past
  | .leave :: past =>
      match live past with
      | _ :: outer :: rest => outer :: rest
      | frames => frames
  | _ :: past => live past

/-! ## Writes -/

/-- A value that was written to a name in a frame. -/
structure Write where
  frame : Nat
  name : String
  value : Value

/-- The value that was last written to a name in a frame, if any was. -/
def lastWritten? (writes : List Write) (frame : Nat) (name : String) : Option Value :=
  (writes.find? fun write => write.frame = frame ∧ write.name = name).map Write.value

/-- The innermost of some frames in which anything was written to a name. -/
def holder? (writes : List Write) (frames : List Nat) (name : String) : Option Nat :=
  frames.find? fun frame => (lastWritten? writes frame name).isSome

/-- All values that were ever written, the last of them first.  A name is declared in the innermost
frame, and assigned to in the innermost live frame in which it was written to before, if there is
one. -/
def writes : History → List Write
  | [] => []
  | .define name value :: past => ⟨(live past).headD 0, name, value⟩ :: writes past
  | .set name value :: past =>
      match holder? (writes past) (live past) name.lexeme with
      | some frame => ⟨frame, name.lexeme, value⟩ :: writes past
      | none => writes past
  | _ :: past => writes past

/-- What a name means: the last value written to it, in the innermost live frame in which any
was. -/
def value? (past : History) (name : String) : Option Value :=
  (live past).findSome? fun frame => lastWritten? (writes past) frame name

variable {past : History} {frame : Nat}

/-! ## Frames come and go -/

theorem exists_live_eq_cons (past : History) : ∃ inner outer, live past = inner :: outer := by
  fun_induction live past with
  | case1 => exact ⟨0, [], rfl⟩
  | case2 past ih => exact ⟨_, _, rfl⟩
  | case3 past inner outer rest heq ih => exact ⟨outer, rest, rfl⟩
  | case4 past hnone ih => exact ih
  | case5 operation past henter hleave ih => exact ih

theorem live_leave_of_ne_nil {inner : Nat} {outer : List Nat} (h : live past = inner :: outer)
    (houter : outer ≠ []) : live (.leave :: past) = outer := by
  obtain ⟨next, rest, rfl⟩ := List.exists_cons_of_ne_nil houter
  rw [live, h]

/-- The globals are live last. -/
theorem exists_live_eq_append_zero (past : History) : ∃ newer, live past = newer ++ [0] := by
  fun_induction live past with
  | case1 => exact ⟨[], rfl⟩
  | case2 past ih =>
      obtain ⟨newer, heq⟩ := ih
      exact ⟨_ :: newer, by rw [heq, List.cons_append]⟩
  | case3 past inner outer rest heq ih =>
      obtain ⟨newer, hnewer⟩ := ih
      rw [heq] at hnewer
      cases newer with
      | nil => cases hnewer
      | cons first newer => exact ⟨newer, (List.cons.inj hnewer).2⟩
  | case4 past hnone ih => exact ih
  | case5 operation past henter hleave ih => exact ih

theorem live_leave_subset (past : History) : live (.leave :: past) ⊆ live past := by
  rw [live]
  split
  · rename_i heq
    rw [heq]
    exact List.subset_cons_self _ _
  · exact List.Subset.refl _

theorem le_length_of_mem_live (h : frame ∈ live past) : frame ≤ past.length := by
  induction past with
  | nil => exact Nat.le_of_eq (List.mem_singleton.1 h)
  | cons operation past ih =>
      have hpast (h : frame ∈ live past) : frame ≤ (operation :: past).length :=
        Nat.le_succ_of_le (ih h)
      cases operation with
      | enter =>
          rcases List.mem_cons.1 h with rfl | h
          · exact Nat.le_refl _
          · exact hpast h
      | leave => exact hpast (live_leave_subset past h)
      | define | get | set => exact hpast h

/-- The frames are live in the order in which they were opened, so none is live twice. -/
theorem pairwise_live (past : History) : (live past).Pairwise (· > ·) := by
  induction past with
  | nil => exact List.pairwise_singleton _ _
  | cons operation past ih =>
      cases operation with
      | enter =>
          exact List.pairwise_cons.2
            ⟨fun frame h => Nat.lt_succ_of_le (le_length_of_mem_live h), ih⟩
      | leave =>
          rw [live]
          split
          · rename_i heq
            rw [heq] at ih
            exact ih.of_cons
          · exact ih
      | define | get | set => exact ih

/-! ### From its opening to its closing

The frame that an operation closes is the last that was opened of those that are live.  So a frame
is closed when for the first time more frames have been closed than opened since. -/

/-- What was open before these operations is open after them: at no time have more frames been
closed than opened. -/
def KeepsOpen (since : History) : Prop :=
  ∀ part, part <:+ since → part.countP Operation.isLeave ≤ part.countP Operation.isEnter

variable {since : History} {operation : Operation}

theorem keepsOpen_cons_iff :
    KeepsOpen (operation :: since) ↔
      (operation :: since).countP Operation.isLeave ≤
          (operation :: since).countP Operation.isEnter ∧
        KeepsOpen since := by
  constructor
  · exact fun h => ⟨h _ (List.suffix_refl _), fun part hpart =>
      h part (hpart.trans (List.suffix_cons operation since))⟩
  · rintro ⟨hwhole, hsince⟩ part hpart
    rcases List.suffix_cons_iff.1 hpart with rfl | hpart
    · exact hwhole
    · exact hsince part hpart

theorem exists_live_of_keepsOpen (h : KeepsOpen since) (past : History) :
    ∃ newer, live (since ++ .enter :: past) = newer ++ live (.enter :: past) ∧
      newer.length + since.countP Operation.isLeave = since.countP Operation.isEnter := by
  induction since with
  | nil => exact ⟨[], rfl, rfl⟩
  | cons operation since ih =>
      obtain ⟨hwhole, hsince⟩ := keepsOpen_cons_iff.1 h
      obtain ⟨newer, hlive, hlength⟩ := ih hsince
      cases operation with
      | enter =>
          refine ⟨_ :: newer, congrArg _ hlive, ?_⟩
          simp [List.countP_cons]
          omega
      | leave =>
          simp [List.countP_cons] at hwhole ⊢
          -- one of the newer frames is there to be closed
          cases newer with
          | nil =>
              rw [List.length_nil] at hlength
              omega
          | cons top newer =>
              rw [List.length_cons] at hlength
              refine ⟨newer, ?_, by omega⟩
              exact live_leave_of_ne_nil hlive (by simp [live])
      | define | get | set => exact ⟨newer, hlive, hlength⟩

theorem not_mem_live_of_not_keepsOpen (h : ¬ KeepsOpen since) (past : History) :
    past.length + 1 ∉ live (since ++ .enter :: past) := by
  induction since with
  | nil => exact absurd (fun part hpart => by simp [List.suffix_nil.1 hpart]) h
  | cons operation since ih =>
      by_cases hsince : KeepsOpen since
      · obtain ⟨newer, hlive, hlength⟩ := exists_live_of_keepsOpen hsince past
        rw [keepsOpen_cons_iff, and_iff_left hsince] at h
        cases operation with
        | leave =>
            simp [List.countP_cons] at h
            obtain rfl : newer = [] := List.eq_nil_of_length_eq_zero (by omega)
            obtain ⟨inner, outer, hpast⟩ := exists_live_eq_cons past
            have hclosed : live (.leave :: since ++ .enter :: past) = live past :=
              live_leave_of_ne_nil hlive (by simp [hpast])
            rw [hclosed]
            exact fun hmem => Nat.not_succ_le_self _ (le_length_of_mem_live hmem)
        | enter | define | get | set =>
            simp [List.countP_cons] at h
            omega
      · have hnot := ih hsince
        cases operation with
        | enter =>
            have hlt : past.length < (since ++ .enter :: past).length := by simp; omega
            intro hmem
            rcases List.mem_cons.1 hmem with heq | hmem
            · exact absurd (Nat.succ.inj heq) (Nat.ne_of_lt hlt)
            · exact hnot hmem
        | leave => exact fun hmem => hnot (live_leave_subset _ hmem)
        | define | get | set => exact hnot

theorem eq_zero_or_exists_enter_of_mem_live (h : frame ∈ live past) :
    frame = 0 ∨ ∃ since before, past = since ++ .enter :: before ∧ frame = before.length + 1 := by
  induction past with
  | nil => exact .inl (List.mem_singleton.1 h)
  | cons operation past ih =>
      have hpast (h : frame ∈ live past) : frame = 0 ∨ ∃ since before,
          operation :: past = since ++ .enter :: before ∧ frame = before.length + 1 := by
        rcases ih h with hzero | ⟨since, before, rfl, hframe⟩
        · exact .inl hzero
        · exact .inr ⟨operation :: since, before, rfl, hframe⟩
      cases operation with
      | enter =>
          rcases List.mem_cons.1 h with rfl | h
          · exact .inr ⟨[], past, rfl, rfl⟩
          · exact hpast h
      | leave => exact hpast (live_leave_subset past h)
      | define | get | set => exact hpast h

/-- The globals are live, and the frames that were opened and have not been closed since. -/
theorem mem_live_iff :
    frame ∈ live past ↔ frame = 0 ∨ ∃ since before,
      past = since ++ .enter :: before ∧ frame = before.length + 1 ∧ KeepsOpen since := by
  constructor
  · intro h
    rcases eq_zero_or_exists_enter_of_mem_live h with hzero | ⟨since, before, rfl, rfl⟩
    · exact .inl hzero
    · exact .inr ⟨since, before, rfl, rfl,
        Classical.byContradiction fun hnot => not_mem_live_of_not_keepsOpen hnot before h⟩
  · rintro (rfl | ⟨since, before, rfl, rfl, hopen⟩)
    · obtain ⟨newer, heq⟩ := exists_live_eq_append_zero past
      rw [heq]
      exact List.mem_append_right _ (List.mem_singleton_self 0)
    · obtain ⟨newer, heq, _⟩ := exists_live_of_keepsOpen hopen before
      rw [heq]
      exact List.mem_append_right _ List.mem_cons_self

/-! ## What was written in a frame -/

theorem lastWritten?_cons (write : Write) (written : List Write) (frame : Nat) (name : String) :
    lastWritten? (write :: written) frame name =
      if write.frame = frame ∧ write.name = name then some write.value
      else lastWritten? written frame name := by
  unfold lastWritten?
  rw [List.find?_cons]
  split <;> simp_all

theorem lastWritten?_eq_none {written : List Write} (h : ∀ write ∈ written, write.frame ≠ frame)
    (name : String) : lastWritten? written frame name = none := by
  unfold lastWritten?
  rw [Option.map_eq_none_iff, List.find?_eq_none]
  intro write hmem
  simp [h write hmem]

/-- Nothing was ever written in a frame that has not been opened. -/
theorem frame_le_of_mem_writes {write : Write} (h : write ∈ writes past) :
    write.frame ≤ past.length := by
  induction past with
  | nil => cases h
  | cons operation past ih =>
      have hpast (h : write ∈ writes past) : write.frame ≤ (operation :: past).length :=
        Nat.le_succ_of_le (ih h)
      cases operation with
      | define name value =>
          rcases List.mem_cons.1 h with rfl | h
          · obtain ⟨inner, outer, heq⟩ := exists_live_eq_cons past
            have hinner : inner ∈ live past := heq ▸ List.mem_cons_self
            show (live past).headD 0 ≤ past.length + 1
            rw [heq]
            exact Nat.le_succ_of_le (le_length_of_mem_live hinner)
          · exact hpast h
      | set name value =>
          rw [writes] at h
          split at h
          · rename_i number hholder
            rcases List.mem_cons.1 h with rfl | h
            · have hmem : number ∈ live past := List.mem_of_find?_eq_some hholder
              exact Nat.le_succ_of_le (le_length_of_mem_live hmem)
            · exact hpast h
          · exact hpast h
      | enter | leave | get => exact hpast h

/-- A name has a meaning if it was written to in any live frame. -/
theorem value?_eq_none_iff {name : String} :
    value? past name = none ↔ ∀ frame ∈ live past, lastWritten? (writes past) frame name = none :=
  List.findSome?_eq_none_iff

theorem holder?_eq_none_iff {written : List Write} {frames : List Nat} {name : String} :
    holder? written frames name = none ↔
      ∀ frame ∈ frames, lastWritten? written frame name = none := by
  simp [holder?, List.find?_eq_none]

end History

end Environment

/-! ## Frames recall what was written in them -/

open Environment History

/-- The frame binds each name to the value that was last written to it. -/
def Frame.Recalls (written : List Write) (frame : Frame) (number : Nat) : Prop :=
  ∀ name : String, frame[name]? = lastWritten? written number name

namespace Frame.Recalls

variable {written : List Write} {frame : Frame} {frames : List Frame} {number other : Nat}
  {numbers : List Nat} {name : String}

theorem insert (h : Frame.Recalls written frame number) (name : String) (value : Value) :
    Frame.Recalls (⟨number, name, value⟩ :: written) (frame.insert name value) number := by
  intro other
  rw [lastWritten?_cons, Std.TreeMap.getElem?_insert, h other]
  simp

/-- What is written in another frame makes no difference. -/
theorem cons_of_ne (h : Frame.Recalls written frame number) (hne : other ≠ number) (name : String)
    (value : Value) : Frame.Recalls (⟨other, name, value⟩ :: written) frame number := by
  intro name
  rw [lastWritten?_cons, if_neg (fun heq => hne heq.1), h name]

theorem contains_eq (h : Frame.Recalls written frame number) (name : String) :
    frame.contains name = (lastWritten? written number name).isSome := by
  rw [Std.TreeMap.contains_eq_isSome_getElem?, h name]

theorem all_cons_of_ne (h : List.Forall₂ (Frame.Recalls written) frames numbers)
    (hne : ∀ number ∈ numbers, other ≠ number) (name : String) (value : Value) :
    List.Forall₂ (Frame.Recalls (⟨other, name, value⟩ :: written)) frames numbers := by
  induction h with
  | nil => exact .nil
  | cons hframe _ ih =>
      obtain ⟨hfirst, hrest⟩ := List.forall_mem_cons.1 hne
      exact .cons (hframe.cons_of_ne hfirst name value) (ih hrest)

theorem findSome?_eq (h : List.Forall₂ (Frame.Recalls written) frames numbers) (name : String) :
    frames.findSome? (·[name]?) =
      numbers.findSome? fun number => lastWritten? written number name := by
  induction h with
  | nil => rfl
  | cons hframe _ ih => rw [List.findSome?_cons, List.findSome?_cons, hframe name, ih]

/-- A name is assigned to in the first frame in which it was written to. -/
theorem assignFrames? (h : List.Forall₂ (Frame.Recalls written) frames numbers)
    (hnumbers : numbers.Pairwise (· > ·)) (name : String) (value : Value) :
    Option.Rel (fun after number =>
        List.Forall₂ (Frame.Recalls (⟨number, name, value⟩ :: written)) after numbers)
      (Environment.assignFrames? name value frames) (holder? written numbers name) := by
  induction h with
  | nil => exact .none
  | @cons frame number frames numbers hframe hframes ih =>
      obtain ⟨hfirst, hrest⟩ := List.pairwise_cons.1 hnumbers
      have ih := ih hrest
      rw [Environment.assignFrames?, holder?, List.find?_cons, hframe.contains_eq]
      cases (lastWritten? written number name).isSome with
      | true =>
          have hne : ∀ other ∈ numbers, number ≠ other := fun other hmem =>
            Nat.ne_of_gt (hfirst other hmem)
          exact .some (.cons (hframe.insert name value) (all_cons_of_ne hframes hne name value))
      | false =>
          cases hholder : holder? written numbers name with
          | none =>
              rw [hholder] at ih
              generalize Environment.assignFrames? name value frames = after at ih ⊢
              cases ih
              rw [← holder?, hholder]
              exact .none
          | some other =>
              have hmem : other ∈ numbers := List.mem_of_find?_eq_some hholder
              rw [hholder] at ih
              generalize Environment.assignFrames? name value frames = after at ih ⊢
              cases ih with
              | some hafter =>
                  rw [← holder?, hholder]
                  have hnumber := Nat.ne_of_lt (hfirst other hmem)
                  exact .some (.cons (hframe.cons_of_ne hnumber name value) hafter)

end Frame.Recalls

namespace Environment

variable {env : Environment} {past : History}

theorem perform_set (env : Environment) (name : Token) (value : Value) :
    env.perform (.set name value) = (env.assign? name.lexeme value).getD env := by
  rw [perform, Environment.set]
  cases env.assign? name.lexeme value <;> rfl

/-- The frames are the live ones, and each binds what was last written in it. -/
def Recalls (env : Environment) (past : History) : Prop :=
  List.Forall₂ (Frame.Recalls (writes past)) env.frames (live past)

namespace Recalls

theorem lookup?_eq (h : env.Recalls past) (name : String) : env.lookup? name = value? past name :=
  Frame.Recalls.findSome?_eq h name

theorem depth_eq (h : env.Recalls past) : env.depth = (live past).length := h.length_eq

theorem assign? (h : env.Recalls past) (name : String) (value : Value) :
    Option.Rel (fun after number =>
        List.Forall₂ (Frame.Recalls (⟨number, name, value⟩ :: writes past)) after.frames
          (live past))
      (env.assign? name value) (holder? (writes past) (live past) name) := by
  have hframes := Frame.Recalls.assignFrames? h (pairwise_live past) name value
  rw [← map_frames_assign?] at hframes
  generalize env.assign? name value = after at hframes ⊢
  generalize holder? (writes past) (live past) name = holder at hframes ⊢
  cases after with
  | none =>
      cases hframes
      exact .none
  | some after =>
      cases hframes with
      | some hafter => exact .some hafter

/-- A frame that is opened has a number of its own, so nothing has been written in it. -/
theorem enter (h : env.Recalls past) : env.enter.Recalls (.enter :: past) := by
  refine .cons (fun name => ?_) h
  have hnone := lastWritten?_eq_none (fun write (hmem : write ∈ writes past) =>
    Nat.ne_of_lt (Nat.lt_succ_of_le (frame_le_of_mem_writes hmem))) name
  exact Std.TreeMap.getElem?_emptyc.trans hnone.symm

theorem leave (h : env.Recalls past) : env.leave.Recalls (.leave :: past) := by
  obtain ⟨innermost, enclosing⟩ := env
  unfold Recalls at h ⊢
  rw [live]
  show List.Forall₂ (Frame.Recalls (writes past)) _ _
  generalize live past = numbers at h
  cases h with
  | cons hframe hrest =>
      cases hrest with
      | nil => exact .cons hframe .nil
      | cons hnext hrest => exact .cons hnext hrest

theorem define (h : env.Recalls past) (name : String) (value : Value) :
    (env.define name value).Recalls (.define name value :: past) := by
  have hnumbers := pairwise_live past
  unfold Recalls at h ⊢
  rw [writes]
  show List.Forall₂ _ _ (live past)
  generalize live past = numbers at h hnumbers ⊢
  cases h with
  | cons hframe hrest =>
      have hfirst := (List.pairwise_cons.1 hnumbers).1
      exact .cons (hframe.insert name value) (Frame.Recalls.all_cons_of_ne hrest
        (fun number hmem => Nat.ne_of_gt (hfirst number hmem)) name value)

/-- An assignment fails, and leaves all as it is, if no live frame holds the name. -/
theorem set_eq (h : env.Recalls past) (name : Token) (value : Value) :
    env.set name value = match holder? (writes past) (live past) name.lexeme with
      | some _ => .ok (env.perform (.set name value))
      | none => .error ⟨.undefinedVariable, name⟩ := by
  have hassign := h.assign? name.lexeme value
  rw [perform_set, Environment.set]
  generalize env.assign? name.lexeme value = after at hassign ⊢
  generalize holder? (writes past) (live past) name.lexeme = holder at hassign ⊢
  cases hassign with
  | none => rfl
  | some _ => rfl

theorem set (h : env.Recalls past) (name : Token) (value : Value) :
    (env.perform (.set name value)).Recalls (.set name value :: past) := by
  have hassign := h.assign? name.lexeme value
  rw [perform_set, Recalls, writes]
  show List.Forall₂ _ _ (live past)
  generalize env.assign? name.lexeme value = after at hassign ⊢
  generalize holder? (writes past) (live past) name.lexeme = holder at hassign ⊢
  cases hassign with
  | none => exact h
  | some hafter => exact hafter

theorem perform (h : env.Recalls past) (operation : Operation) :
    (env.perform operation).Recalls (operation :: past) := by
  cases operation with
  | enter => exact h.enter
  | leave => exact h.leave
  | define name value => exact h.define name value
  | get name => exact h
  | set name value => exact h.set name value

end Recalls

theorem recalls_after (past : History) : (after past).Recalls past := by
  induction past with
  | nil => exact .cons (fun name => Std.TreeMap.getElem?_emptyc) .nil
  | cons operation past ih => exact ih.perform operation

/-- Whatever has been done, a name means the value that was last written to it in the innermost
live frame in which any was, and it is undefined if there is no such frame: then it can be
assigned to no more than it can be read, and the attempt leaves nothing behind.  The frames that
are live are the globals and those that were opened and not closed since, and they are as many as
the environment is deep. -/
theorem get_eq_last_written (past : History) :
    (∀ name : Token, (after past).get name = match value? past name.lexeme with
      | some value => .ok value
      | none => .error ⟨.undefinedVariable, name⟩) ∧
    (∀ (name : Token) (value : Value), (after past).set name value =
      match holder? (writes past) (live past) name.lexeme with
      | some _ => .ok (after (.set name value :: past))
      | none => .error ⟨.undefinedVariable, name⟩) ∧
    (∀ name : String,
      (value? past name = none ↔
        ∀ frame ∈ live past, lastWritten? (writes past) frame name = none) ∧
      (holder? (writes past) (live past) name = none ↔
        ∀ frame ∈ live past, lastWritten? (writes past) frame name = none)) ∧
    (∀ (name : Token) (value : Value) (later : History),
      holder? (writes past) (live past) name.lexeme = none →
        after (later ++ .set name value :: past) = after (later ++ past)) ∧
    (∀ frame, frame ∈ live past ↔ frame = 0 ∨ ∃ since before,
      past = since ++ .enter :: before ∧ frame = before.length + 1 ∧ KeepsOpen since) ∧
    (live past).Pairwise (· > ·) ∧
    (after past).depth = (live past).length ∧ 1 ≤ (after past).depth := by
  have h := recalls_after past
  refine ⟨fun name => ?_, h.set_eq, fun name => ⟨value?_eq_none_iff, holder?_eq_none_iff⟩,
    fun name value later hnone => ?_, fun frame => mem_live_iff, pairwise_live past, h.depth_eq,
    Nat.succ_pos _⟩
  · have hlookup := h.lookup?_eq name.lexeme
    cases hvalue : value? past name.lexeme with
    | none => simp only [Environment.get, hlookup, hvalue]
    | some value => simp only [Environment.get, hlookup, hvalue]
  · have hsame : after (.set name value :: past) = after past := by
      have hset := h.set_eq name value
      rw [hnone] at hset
      rw [after, perform, hset]
    induction later with
    | nil => exact hsame
    | cons operation later ih => exact congrArg (perform · operation) ih

/-- A binding is there again when the frame that hid it is closed, and the globals stay. -/
example :
    value? [.leave, .leave, .define "x" .nil, .enter, .define "x" (.bool true)] "x" =
      some (.bool true) := rfl

end Environment

end Lox
