import Mathlib.Data.Finset.Basic
import Mathlib.Data.Finset.Dedup
import Mathlib.Data.Finset.Lattice.Lemmas
import Mathlib.Data.List.Forall2
import Lox.Environment

/-!
# How environments evolve

`Evolves declared assigned before after` says what may have become of an environment.
The frames are those of before.  No name has been lost; names of `declared` may have
come into the innermost frame, and no others into any frame.  What was bound has kept its
value, but for the names of `assigned`, and those of `declared` in the innermost frame.

The relation is reflexive and transitive, so it holds of a run if it holds of each step.
-/

namespace Lox

variable {declared assigned : Finset String} {name other : String} {value : Value}

/-! ## Frames -/

/-- The names that a frame binds. -/
def Frame.names (frame : Frame) : Finset String := frame.keys.toFinset

@[simp] theorem Frame.mem_names {frame : Frame} : name ∈ Frame.names frame ↔ name ∈ frame := by
  rw [Frame.names, List.mem_toFinset, Std.TreeMap.mem_keys]

@[simp] theorem Frame.names_empty : Frame.names ∅ = ∅ := by
  ext name
  simp

theorem Frame.names_eq_empty_iff {frame : Frame} :
    Frame.names frame = ∅ ↔ frame.isEmpty = true := by
  rw [Std.TreeMap.isEmpty_iff_forall_not_mem, Finset.eq_empty_iff_forall_notMem]
  simp only [mem_names]

@[simp] theorem Frame.names_insert (frame : Frame) (name : String) (value : Value) :
    Frame.names (frame.insert name value) = insert name (Frame.names frame) := by
  ext other
  simp [eq_comm (a := other)]

/-- What may have become of one frame. -/
structure Frame.Evolves (declared assigned : Finset String) (before after : Frame) : Prop where
  names_subset : Frame.names before ⊆ Frame.names after
  subset_union : Frame.names after ⊆ Frame.names before ∪ declared
  getElem?_eq : ∀ name ∈ Frame.names before, name ∉ assigned → name ∉ declared →
    after[name]? = before[name]?

namespace Frame.Evolves

variable {first second third before after : Frame}

theorem refl (frame : Frame) : Frame.Evolves declared assigned frame frame where
  names_subset := Finset.Subset.refl _
  subset_union := Finset.subset_union_left
  getElem?_eq _ _ _ _ := rfl

theorem trans (h : Frame.Evolves declared assigned first second)
    (h' : Frame.Evolves declared assigned second third) :
    Frame.Evolves declared assigned first third where
  names_subset := h.names_subset.trans h'.names_subset
  subset_union := by
    refine h'.subset_union.trans (Finset.union_subset h.subset_union ?_)
    exact Finset.subset_union_right
  getElem?_eq name hname hassigned hdeclared := by
    rw [h'.getElem?_eq name (h.names_subset hname) hassigned hdeclared,
      h.getElem?_eq name hname hassigned hdeclared]

theorem mono {declared' assigned' : Finset String}
    (h : Frame.Evolves declared assigned before after) (hdeclared : declared ⊆ declared')
    (hassigned : assigned ⊆ assigned') :
    Frame.Evolves declared' assigned' before after where
  names_subset := h.names_subset
  subset_union := h.subset_union.trans (Finset.union_subset_union_right hdeclared)
  getElem?_eq name hname hnot hnot' :=
    h.getElem?_eq name hname (fun hmem => hnot (hassigned hmem)) fun hmem => hnot' (hdeclared hmem)

/-- A frame into which nothing is declared binds what it has bound. -/
theorem names_eq (h : Frame.Evolves ∅ assigned before after) :
    Frame.names after = Frame.names before := by
  refine Finset.Subset.antisymm ?_ h.names_subset
  simpa using h.subset_union

theorem insert_of_mem_declared (frame : Frame) (value : Value) (h : name ∈ declared) :
    Frame.Evolves declared assigned frame (frame.insert name value) where
  names_subset := by simp
  subset_union := by
    rw [Frame.names_insert]
    exact Finset.insert_subset (Finset.mem_union_right _ h) Finset.subset_union_left
  getElem?_eq other _ _ hother := by
    have hne : compare name other ≠ .eq := by
      intro heq
      rw [Std.LawfulEqOrd.eq_of_compare heq] at h
      exact hother h
    rw [Std.TreeMap.getElem?_insert, if_neg hne]

theorem insert_of_mem_assigned {frame : Frame} (value : Value) (h : name ∈ assigned)
    (hbound : name ∈ frame) : Frame.Evolves declared assigned frame (frame.insert name value) where
  names_subset := by simp
  subset_union := by
    rw [Frame.names_insert, Finset.insert_eq_of_mem (Frame.mem_names.2 hbound)]
    exact Finset.subset_union_left
  getElem?_eq other _ hother _ := by
    have hne : compare name other ≠ .eq := by
      intro heq
      rw [Std.LawfulEqOrd.eq_of_compare heq] at h
      exact hother h
    rw [Std.TreeMap.getElem?_insert, if_neg hne]

end Frame.Evolves

/-! ## Environments -/

namespace Environment

/-- The names that the frames bind, the innermost first. -/
def names (env : Environment) : List (Finset String) := env.frames.map Frame.names

/-- An assignment is one in the list of all frames. -/
theorem map_frames_assign? (env : Environment) (name : String) (value : Value) :
    (env.assign? name value).map frames = assignFrames? name value env.frames := by
  rw [frames, assignFrames?, assign?]
  split
  · rfl
  · cases assignFrames? name value env.enclosing <;> rfl

/-- What may have become of an environment. -/
structure Evolves (declared assigned : Finset String) (before after : Environment) : Prop where
  innermost : Frame.Evolves declared assigned before.innermost after.innermost
  enclosing : List.Forall₂ (Frame.Evolves ∅ assigned) before.enclosing after.enclosing

namespace Evolves

variable {first second third before after env : Environment}

theorem refl (env : Environment) : Evolves declared assigned env env :=
  ⟨.refl _, List.forall₂_same.2 fun frame _ => .refl frame⟩

private theorem frames_trans {first second third : List Frame}
    (h : List.Forall₂ (Frame.Evolves declared assigned) first second)
    (h' : List.Forall₂ (Frame.Evolves declared assigned) second third) :
    List.Forall₂ (Frame.Evolves declared assigned) first third := by
  induction h generalizing third with
  | nil => exact h'
  | cons hframe _ ih =>
      cases h' with
      | cons hframe' hframes' => exact .cons (hframe.trans hframe') (ih hframes')

theorem trans (h : Evolves declared assigned first second)
    (h' : Evolves declared assigned second third) : Evolves declared assigned first third :=
  ⟨h.innermost.trans h'.innermost, frames_trans h.enclosing h'.enclosing⟩

theorem mono {declared' assigned' : Finset String} (h : Evolves declared assigned before after)
    (hdeclared : declared ⊆ declared') (hassigned : assigned ⊆ assigned') :
    Evolves declared' assigned' before after :=
  ⟨h.innermost.mono hdeclared hassigned,
    h.enclosing.imp fun _ _ hframe => hframe.mono (Finset.Subset.refl _) hassigned⟩

theorem depth_eq (h : Evolves declared assigned before after) : after.depth = before.depth := by
  simp only [depth, frames, List.length_cons, h.enclosing.length_eq]

theorem enclosing_names_eq (h : Evolves declared assigned before after) :
    after.enclosing.map Frame.names = before.enclosing.map Frame.names := by
  have hframes : ∀ {first second : List Frame},
      List.Forall₂ (Frame.Evolves ∅ assigned) first second →
        second.map Frame.names = first.map Frame.names := by
    intro first second hforall
    induction hforall with
    | nil => rfl
    | cons hframe _ ih => rw [List.map_cons, List.map_cons, hframe.names_eq, ih]
  exact hframes h.enclosing

/-- An environment into which nothing is declared binds what it has bound, frame by frame. -/
theorem names_eq (h : Evolves ∅ assigned before after) : after.names = before.names := by
  simp only [names, frames, List.map_cons, h.innermost.names_eq, h.enclosing_names_eq]

theorem define (env : Environment) (value : Value) (h : name ∈ declared) :
    Evolves declared assigned env (env.define name value) :=
  ⟨.insert_of_mem_declared _ value h, List.forall₂_same.2 fun frame _ => .refl frame⟩

private theorem assignFrames (h : name ∈ assigned) {first second : List Frame}
    (hassign : assignFrames? name value first = some second) :
    List.Forall₂ (Frame.Evolves ∅ assigned) first second := by
  induction first generalizing second with
  | nil => cases hassign
  | cons frame rest ih =>
      unfold assignFrames? at hassign
      split at hassign
      · rename_i hbound
        cases hassign
        have hmem := Std.TreeMap.contains_iff_mem.1 hbound
        exact .cons (.insert_of_mem_assigned value h hmem) (List.forall₂_same.2 fun _ _ => .refl _)
      · obtain ⟨tail, htail, rfl⟩ := Option.map_eq_some_iff.1 hassign
        exact .cons (.refl frame) (ih htail)

/-- An assignment changes what a name means, in the frame that binds it. -/
theorem assign? (h : name ∈ assigned) (hassign : env.assign? name value = some after) :
    Evolves declared assigned env after := by
  unfold Environment.assign? at hassign
  split at hassign
  · rename_i hbound
    cases hassign
    have hmem := Std.TreeMap.contains_iff_mem.1 hbound
    exact ⟨.insert_of_mem_assigned value h hmem, List.forall₂_same.2 fun frame _ => .refl frame⟩
  · obtain ⟨enclosing, henclosing, rfl⟩ := Option.map_eq_some_iff.1 hassign
    exact ⟨.refl _, assignFrames h henclosing⟩

/-- When a frame is closed, what was declared in it is gone. -/
theorem leave (h : Evolves declared assigned env.enter after) :
    Evolves ∅ assigned env after.leave := by
  obtain ⟨innermost, enclosing⟩ := after
  have henclosing : List.Forall₂ (Frame.Evolves ∅ assigned) (env.innermost :: env.enclosing)
      enclosing := h.enclosing
  -- the innermost frame is once more the first of those that enclosed the block
  cases henclosing with
  | cons hframe hframes => exact ⟨hframe, hframes⟩

end Evolves

end Environment

end Lox
