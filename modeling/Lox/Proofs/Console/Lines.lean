import Lox.Console.Simulated

/-!
# The lines of an input

`LinesOf bytes pieces` says, apart from any way of splitting, that the pieces are what the bytes
are split into after each newline: a piece ends with the first newline after its beginning, and
what follows the last newline is a piece too, unless it is empty.  Every input is split in one
way, which is the one that `lines` finds.
-/

namespace Lox

/-- The byte after which lines are split. -/
def newline : UInt8 := 10

/-- The bytes are split into these pieces, after each newline. -/
inductive LinesOf : List UInt8 → List ByteArray → Prop
  | nil : LinesOf [] []
  | last {piece : Array UInt8} :
      piece.toList ≠ [] → newline ∉ piece.toList → LinesOf piece.toList [⟨piece⟩]
  | line {begun : Array UInt8} {rest : List UInt8} {others : List ByteArray} :
      newline ∉ begun.toList → LinesOf rest others →
        LinesOf (begun.toList ++ newline :: rest) (⟨begun.push newline⟩ :: others)

variable {begun : Array UInt8}

/-! ## Steps -/

theorem linesFrom_newline (begun : Array UInt8) (rest : List UInt8) :
    linesFrom begun (newline :: rest) = ⟨begun.push newline⟩ :: linesFrom #[] rest := rfl

theorem linesFrom_of_ne {byte : UInt8} (h : byte ≠ newline) (begun : Array UInt8)
    (rest : List UInt8) : linesFrom begun (byte :: rest) = linesFrom (begun.push byte) rest :=
  if_neg (by simpa [newline] using h)

theorem linesFrom_nil (h : begun.toList ≠ []) : linesFrom begun [] = [⟨begun⟩] :=
  if_neg (by simpa using h)

/-! ## The one way to split -/

/-- A line that has begun goes on up to the next newline. -/
theorem linesOf_linesFrom (begun : Array UInt8) (bytes : List UInt8)
    (h : newline ∉ begun.toList) :
    LinesOf (begun.toList ++ bytes) (linesFrom begun bytes) := by
  induction bytes generalizing begun with
  | nil =>
      rw [List.append_nil]
      by_cases hempty : begun.toList = []
      · obtain rfl : begun = #[] := Array.toList_eq_nil_iff.1 hempty
        exact .nil
      · rw [linesFrom_nil hempty]
        exact .last hempty h
  | cons byte rest ih =>
      by_cases hbyte : byte = newline
      · rw [hbyte, linesFrom_newline]
        exact .line h (ih #[] List.not_mem_nil)
      · have hlonger : newline ∉ (begun.push byte).toList := by
          rw [Array.toList_push, List.mem_append, List.mem_singleton]
          rintro (hmem | heq)
          · exact h hmem
          · exact hbyte heq.symm
        have hsplit := ih _ hlonger
        rw [Array.toList_push, List.append_assoc] at hsplit
        rw [linesFrom_of_ne hbyte]
        exact hsplit

/-- Up to the next newline all bytes belong to the line that has begun. -/
theorem linesFrom_append {w : List UInt8} (h : newline ∉ w) (begun : Array UInt8)
    (rest : List UInt8) : linesFrom begun (w ++ rest) = linesFrom (begun ++ w.toArray) rest := by
  induction w generalizing begun with
  | nil => simp
  | cons byte w ih =>
      have hbyte : byte ≠ newline := fun heq => h (heq ▸ List.mem_cons_self)
      rw [List.cons_append, linesFrom_of_ne hbyte, ih (List.not_mem_of_not_mem_cons h)]
      congr 1
      simp

theorem LinesOf.eq_linesFrom {bytes : List UInt8} {pieces : List ByteArray}
    (h : LinesOf bytes pieces) : pieces = linesFrom #[] bytes := by
  induction h with
  | nil => rfl
  | @last piece hne hmem =>
      have hall := linesFrom_append hmem #[] []
      rw [List.append_nil, Array.toArray_toList, Array.empty_append, linesFrom_nil hne] at hall
      exact hall.symm
  | @line begun rest others hmem _ ih =>
      rw [linesFrom_append hmem, Array.toArray_toList, Array.empty_append, linesFrom_newline, ← ih]

private theorem toList_loop (bytes : ByteArray) (i : Nat) (before : List UInt8) :
    ByteArray.toList.loop bytes i before = before.reverse ++ bytes.data.toList.drop i := by
  induction i, before using ByteArray.toList.loop.induct bytes with
  | case1 i before hlt ih =>
      have hi : i < bytes.data.toList.length := hlt
      have hbyte : bytes.get! i = bytes.data.toList[i] := getElem!_pos bytes.data i hlt
      rw [ByteArray.toList.loop, if_pos hlt, ih, List.drop_eq_getElem_cons hi, hbyte,
        List.reverse_cons, List.append_assoc, List.singleton_append]
  | case2 i before hge =>
      have hi : bytes.data.toList.length ≤ i := Nat.le_of_not_lt hge
      rw [ByteArray.toList.loop, if_neg hge, List.drop_eq_nil_of_le hi, List.append_nil]

/-- The bytes of an array are those that it holds, in order. -/
theorem toList_bytes (bytes : ByteArray) : bytes.toList = bytes.data.toList :=
  toList_loop bytes 0 []

/-- An input is split after each newline in just one way. -/
theorem linesOf_iff {input : ByteArray} {pieces : List ByteArray} :
    LinesOf input.data.toList pieces ↔ pieces = lines input := by
  rw [lines, toList_bytes]
  constructor
  · exact LinesOf.eq_linesFrom
  · rintro rfl
    exact linesOf_linesFrom #[] _ List.not_mem_nil

end Lox
