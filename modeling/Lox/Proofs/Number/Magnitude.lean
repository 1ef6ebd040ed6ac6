import Mathlib.Algebra.Group.Nat.Defs
import Mathlib.Order.Monotone.Basic
import Lox.Number.Magnitude

/-!
# Rounding to a magnitude

A word is a significand below `2 * hiddenBit` and a scale, and the step from it to the next
word is one unit of its scale (`units_succ`).  So the words in their order are the magnitudes
in theirs, every number of units has a last word that is not above it (`floorWord`), and what
is not past the halfway points beside a word is rounded to that word (`nearest_eq`).
-/

namespace Lox.Magnitude

variable {m n r s word : Nat}

theorem hiddenBit_pos : 0 < hiddenBit := by decide

theorem hiddenBit_eq : hiddenBit = 2 ^ 52 := by decide

/-! ## Words as significands and scales -/

theorem units_eq (word : Nat) : units word = significand word * 2 ^ scale word :=
  Nat.shiftLeft_eq _ _

theorem units_of_lt (h : r < hiddenBit) : units r = r := by
  have hdiv : r / hiddenBit = 0 := Nat.div_eq_of_lt h
  have hsmall : r < 2 * hiddenBit := by omega
  rw [units_eq, significand, if_pos hsmall, scale, hdiv, Nat.zero_sub, Nat.pow_zero, Nat.mul_one]

theorem units_of_hiddenBit (s : Nat) (h : r < hiddenBit) :
    units ((s + 1) * hiddenBit + r) = (hiddenBit + r) * 2 ^ s := by
  have hdiv : ((s + 1) * hiddenBit + r) / hiddenBit = s + 1 := by
    rw [Nat.mul_comm, Nat.mul_add_div hiddenBit_pos, Nat.div_eq_of_lt h, Nat.add_zero]
  have hmod : ((s + 1) * hiddenBit + r) % hiddenBit = r := by
    rw [Nat.mul_comm, Nat.mul_add_mod, Nat.mod_eq_of_lt h]
  rw [units_eq, scale, hdiv, Nat.add_sub_cancel, significand, hmod]
  split
  · rename_i hsmall
    -- below twice the hidden bit the scale is zero
    obtain rfl : s = 0 := by
      by_contra hs
      have hle := Nat.mul_le_mul_right hiddenBit (show 2 ≤ s + 1 by omega)
      omega
    rw [Nat.zero_add, Nat.one_mul]
  · rfl

/-- Every significand and scale have a word, also with twice the hidden bit as significand:
that is the first word of the next scale. -/
theorem units_scale_add (hscale : s = 0 ∨ hiddenBit ≤ m) (hm : m ≤ 2 * hiddenBit) :
    units (s * hiddenBit + m) = m * 2 ^ s := by
  by_cases hsmall : m < hiddenBit
  · obtain rfl : s = 0 := hscale.resolve_right (by omega)
    rw [Nat.zero_mul, Nat.zero_add, units_of_lt hsmall, Nat.pow_zero, Nat.mul_one]
  by_cases hlarge : m < 2 * hiddenBit
  · obtain ⟨r, rfl⟩ := Nat.exists_eq_add_of_le (Nat.le_of_not_lt hsmall)
    rw [← Nat.add_assoc, ← Nat.succ_mul]
    exact units_of_hiddenBit s (by omega)
  · obtain rfl : m = 2 * hiddenBit := by omega
    have hnext := units_of_hiddenBit (s + 1) hiddenBit_pos
    simp only [Nat.add_zero, Nat.pow_succ'] at hnext
    rw [← Nat.add_mul, hnext, Nat.mul_comm 2 hiddenBit, Nat.mul_assoc]

theorem significand_lt (word : Nat) : significand word < 2 * hiddenBit := by
  unfold significand
  split
  · assumption
  · have hmod := Nat.mod_lt word hiddenBit_pos
    omega

theorem scale_eq_zero_or_hiddenBit_le (word : Nat) :
    scale word = 0 ∨ hiddenBit ≤ significand word := by
  unfold scale significand
  split
  · rename_i hsmall
    have hdiv := (Nat.div_lt_iff_lt_mul hiddenBit_pos).2 hsmall
    exact .inl (by omega)
  · exact .inr (Nat.le_add_right _ _)

theorem scale_mul_add_significand (word : Nat) :
    scale word * hiddenBit + significand word = word := by
  unfold scale significand
  split
  · rename_i hsmall
    have hdiv := (Nat.div_lt_iff_lt_mul hiddenBit_pos).2 hsmall
    have hscale : word / hiddenBit - 1 = 0 := by omega
    rw [hscale, Nat.zero_mul, Nat.zero_add]
  · rename_i hlarge
    have hdiv := (Nat.le_div_iff_mul_le hiddenBit_pos).2 (Nat.le_of_not_lt hlarge)
    have hscale : word / hiddenBit - 1 + 1 = word / hiddenBit := by omega
    rw [← Nat.add_assoc, ← Nat.succ_mul, Nat.succ_eq_add_one, hscale, Nat.div_add_mod']

/-! ## The order of words -/

/-- From a word to the next is one unit of its scale. -/
theorem units_succ (word : Nat) : units (word + 1) = units word + 2 ^ scale word := by
  have hscale := scale_eq_zero_or_hiddenBit_le word
  have hnext := units_scale_add (m := significand word + 1)
    (hscale.imp_right Nat.le_succ_of_le) (significand_lt word)
  rw [← Nat.add_assoc, scale_mul_add_significand] at hnext
  rw [hnext, Nat.succ_mul, units_eq]

theorem units_strictMono : StrictMono units := by
  apply strictMono_nat_of_lt_succ
  intro word
  rw [units_succ]
  exact Nat.lt_add_of_pos_right (Nat.two_pow_pos _)

/-- No number of units lies between the last word of at most so many and the next word. -/
theorem units_floorWord (n : Nat) :
    units (floorWord n) ≤ n ∧ n < units (floorWord n + 1) := by
  have hfloor : floorWord n = (n.log2 - 52) * hiddenBit + n / 2 ^ (n.log2 - 52) := by
    rw [← Nat.shiftRight_eq_div_pow]
    rfl
  have hbelow : n / 2 ^ (n.log2 - 52) < 2 * hiddenBit := by
    rw [Nat.div_lt_iff_lt_mul (Nat.two_pow_pos _), hiddenBit_eq, ← Nat.pow_succ', ← Nat.pow_add]
    have hlog : n < 2 ^ (n.log2 + 1) := Nat.lt_log2_self
    exact Nat.lt_of_lt_of_le hlog (Nat.pow_le_pow_right (by decide) (by omega))
  have hscale : n.log2 - 52 = 0 ∨ hiddenBit ≤ n / 2 ^ (n.log2 - 52) := by
    by_cases hlog : n.log2 ≤ 52
    · exact .inl (Nat.sub_eq_zero_of_le hlog)
    have hn : n ≠ 0 := by
      rintro rfl
      exact hlog (by decide)
    right
    rw [Nat.le_div_iff_mul_le (Nat.two_pow_pos _), hiddenBit_eq, ← Nat.pow_add,
      Nat.add_sub_cancel' (by omega)]
    exact Nat.log2_self_le hn
  have hword := units_scale_add hscale (Nat.le_of_lt hbelow)
  have hnext := units_scale_add (hscale.imp_right Nat.le_succ_of_le) hbelow
  rw [Nat.succ_eq_add_one, ← Nat.add_assoc] at hnext
  rw [hfloor, hword, hnext]
  constructor
  · exact Nat.div_mul_le_self n _
  · exact Nat.lt_mul_of_div_lt (Nat.lt_succ_self _) (Nat.two_pow_pos _)

theorem floorWord_zero : floorWord 0 = 0 := by decide

/-! ## Rounding -/

/-- Between the halfway points beside a word, the ends included if the word is even.  A number
of units is given as a quotient. -/
structure RoundsTo (word num den : Nat) : Prop where
  lower : (units (word - 1) + units word) * den ≤ 2 * num
  upper : 2 * num ≤ (units word + units (word + 1)) * den
  even : word % 2 = 0 ∨
    (units (word - 1) + units word) * den < 2 * num ∧
      2 * num < (units word + units (word + 1)) * den

variable {num den : Nat}

/-- The last word of at most so many units is the one that is rounded to, or the one before. -/
theorem RoundsTo.floorWord_eq (h : RoundsTo word num den) (hden : 0 < den) (hword : 0 < word) :
    floorWord (num / den) = word ∨ floorWord (num / den) + 1 = word := by
  obtain ⟨hle, hlt⟩ := units_floorWord (num / den)
  rw [Nat.le_div_iff_mul_le hden] at hle
  rw [Nat.div_lt_iff_lt_mul hden] at hlt
  have hbelow : units (floorWord (num / den)) < units (word + 1) := by
    have hstep := units_strictMono (Nat.lt_add_one word)
    have hupper := Nat.mul_lt_mul_of_pos_right
      (show units word + units (word + 1) < 2 * units (word + 1) by omega) hden
    have := h.upper
    apply Nat.lt_of_mul_lt_mul_right (a := den)
    rw [Nat.mul_assoc] at hupper
    omega
  have habove : units (word - 1) < units (floorWord (num / den) + 1) := by
    have hstep := units_strictMono (show word - 1 < word by omega)
    have hlower := Nat.mul_lt_mul_of_pos_right
      (show 2 * units (word - 1) < units (word - 1) + units word by omega) hden
    have := h.lower
    apply Nat.lt_of_mul_lt_mul_right (a := den)
    rw [Nat.mul_assoc] at hlower
    omega
  have hlast := units_strictMono.lt_iff_lt.1 hbelow
  have hfirst := units_strictMono.lt_iff_lt.1 habove
  omega

/-- What is between the halfway points beside a finite word is rounded to that word. -/
theorem nearest_eq (h : RoundsTo word num den) (hden : 0 < den) (hword : 0 < word)
    (hfinite : word < infinity) : nearest num den = word := by
  unfold nearest
  rcases h.floorWord_eq hden hword with hlow | hlow
  · rw [hlow]
    dsimp only
    cases hcompare : compare (2 * num) ((units word + units (word + 1)) * den) with
    | lt => exact Nat.min_eq_left (Nat.le_of_lt hfinite)
    | eq =>
        have heq := Nat.compare_eq_eq.1 hcompare
        have heven : word % 2 = 0 := h.even.resolve_right (by omega)
        rw [heven]
        exact Nat.min_eq_left (Nat.le_of_lt hfinite)
    | gt =>
        have hgt := Nat.compare_eq_gt.1 hcompare
        exact absurd h.upper (Nat.not_le_of_lt hgt)
  · obtain ⟨low, rfl⟩ : ∃ low, word = low + 1 := ⟨_, hlow.symm⟩
    have hlower := h.lower
    have heven := h.even
    rw [Nat.add_sub_cancel] at hlower heven
    rw [Nat.succ.inj hlow]
    dsimp only
    cases hcompare : compare (2 * num) ((units low + units (low + 1)) * den) with
    | lt =>
        have hlt := Nat.compare_eq_lt.1 hcompare
        exact absurd hlower (Nat.not_le_of_lt hlt)
    | eq =>
        have heq := Nat.compare_eq_eq.1 hcompare
        have hodd : low % 2 = 1 := by omega
        rw [hodd]
        exact Nat.min_eq_left (Nat.le_of_lt hfinite)
    | gt => exact Nat.min_eq_left (Nat.le_of_lt hfinite)

theorem nearest_zero (den : Nat) : nearest 0 den = 0 := by
  unfold nearest
  rw [Nat.zero_div, floorWord_zero]
  dsimp only
  cases hcompare : compare (2 * 0) ((units 0 + units (0 + 1)) * den) with
  | lt => rfl
  | eq => rfl
  | gt => exact absurd (Nat.compare_eq_gt.1 hcompare) (Nat.not_lt_zero _)

end Lox.Magnitude
