import Lox.Proofs.Number.Bits
import Lox.Proofs.Number.Shortest
import Lox.Proofs.Source.Lexeme

/-!
# Numbers read back

The text of a decimal is the lexeme of the number that the decimal is rounded to.  That of a
finite magnitude is the text of its shortest decimal, which is rounded to the magnitude
itself: so it is read back as the number that it was written for.
-/

namespace Lox

open Magnitude

namespace Decimal

variable {n places : Nat}

theorem isDigit_of_mem_digits {c : Char} (h : c ∈ digits n) : c.isDigit = true :=
  Nat.isDigit_of_mem_toDigits (by decide) (by decide) h

/-- Digits go on after those that have been read. -/
theorem ofDigitChars_digits (n init : Nat) :
    Nat.ofDigitChars 10 (digits n) init = 10 ^ (digits n).length * init + n := by
  rw [Nat.ofDigitChars_eq_ofDigitChars_zero, digits, Nat.ofDigitChars_ten_toDigits]

theorem length_digits_le (hpos : 0 < places) (h : n < powerOfTen places) :
    (digits n).length ≤ places :=
  (Nat.length_toDigits_le_iff (by decide) hpos).2 h

/-- The digits of a decimal after its point: there are as many as it has places, with zeros in
front of them. -/
theorem length_fraction (hpos : 0 < places) (h : n < powerOfTen places) :
    ((digits n).leftpad places '0').length = places := by
  rw [List.length_leftpad, Nat.max_eq_left (length_digits_le hpos h)]

theorem isDigit_of_mem_fraction {c : Char} (h : c ∈ (digits n).leftpad places '0') :
    c.isDigit = true := by
  rcases List.mem_append.1 h with hzero | hdigit
  · rw [List.eq_of_mem_replicate hzero]
    decide
  · exact isDigit_of_mem_digits hdigit

/-- The digits on both sides of the point are those of the coefficient. -/
theorem ofDigitChars_point (n : Nat) (hpos : 0 < places) :
    Nat.ofDigitChars 10 (digits (n / powerOfTen places) ++
      (digits (n % powerOfTen places)).leftpad places '0') 0 = n := by
  have hlength := length_digits_le hpos (Nat.mod_lt n (powerOfTen_pos places))
  rw [Nat.ofDigitChars_append, ofDigitChars_digits, Nat.mul_zero, Nat.zero_add, List.leftpad,
    Nat.ofDigitChars_append, Nat.ofDigitChars_replicate_zero, ofDigitChars_digits, ← Nat.mul_assoc,
    ← Nat.pow_add, Nat.add_sub_cancel' hlength]
  exact Nat.div_add_mod n (powerOfTen places)

/-- The number that a decimal is rounded to. -/
def toFloat (decimal : Decimal) : Float :=
  Float.ofBits (nearest (decimal.coefficient * powerOfTen decimal.exponent.toNat * one)
    (powerOfTen (-decimal.exponent).toNat)).toUInt64

/-- A decimal is written as the number that it is rounded to. -/
theorem lexeme_text (decimal : Decimal) : Lexeme (.number decimal.toFloat) decimal.text := by
  obtain ⟨coefficient, zeros | n⟩ := decimal
  · have hnumber : toFloat ⟨coefficient, .ofNat zeros⟩ =
        Number.ofDigits (digits (coefficient * powerOfTen zeros)) [] := by
      rw [Number.ofDigits, List.append_nil, ofDigitChars_digits, Nat.mul_zero, Nat.zero_add]
      cases zeros <;> rfl
    rw [hnumber]
    exact .whole Nat.toDigits_ne_nil fun _ => isDigit_of_mem_digits
  · have hpos := Nat.succ_pos n
    have hlength := length_fraction hpos (Nat.mod_lt coefficient (powerOfTen_pos (n + 1)))
    have hnumber : toFloat ⟨coefficient, .negSucc n⟩ =
        Number.ofDigits (digits (coefficient / powerOfTen (n + 1)))
          ((digits (coefficient % powerOfTen (n + 1))).leftpad (n + 1) '0') := by
      rw [Number.ofDigits, ofDigitChars_point coefficient hpos, hlength, toFloat]
      show Float.ofBits (nearest (coefficient * 1 * one) (powerOfTen (n + 1))).toUInt64 = _
      rw [Nat.mul_one]
    have hfraction : (digits (coefficient % powerOfTen (n + 1))).leftpad (n + 1) '0' ≠ [] :=
      List.ne_nil_of_length_pos (hlength ▸ hpos)
    rw [hnumber]
    exact .fraction Nat.toDigits_ne_nil (fun _ => isDigit_of_mem_digits) hfraction
      fun _ => isDigit_of_mem_fraction

end Decimal

namespace Number

theorem ofDigits_zero : ofDigits ['0'] [] = Float.ofBits (0 : Nat).toUInt64 := by
  have hcoefficient : Nat.ofDigitChars 10 ['0'] 0 = 0 := by decide
  unfold ofDigits
  rw [List.append_nil, hcoefficient]
  dsimp only
  rw [Nat.zero_mul, nearest_zero]

/-- The text of a finite magnitude is a lexeme of its number. -/
theorem lexeme_magnitudeText {word : Nat} (hfinite : word < infinity) :
    Lexeme (.number (Float.ofBits word.toUInt64)) (magnitudeText word) := by
  unfold magnitudeText
  split
  · rename_i hzero
    rw [hzero, ← ofDigits_zero]
    exact .whole (List.cons_ne_nil _ _) (List.forall_mem_singleton.2 (by decide))
  · rename_i hpos
    rw [if_neg (Nat.ne_of_lt hfinite)]
    have hrounds := roundsTo_shortest (Nat.pos_of_ne_zero hpos)
    have hword := nearest_eq hrounds (powerOfTen_pos _) (Nat.pos_of_ne_zero hpos) hfinite
    have hnumber : Float.ofBits word.toUInt64 = (Interval.ofWord word).shortest.toFloat := by
      rw [Decimal.toFloat, hword]
    rw [hnumber]
    exact Decimal.lexeme_text _

/-- The text of a finite number is a lexeme, of the number itself, or behind a minus sign of
the number that the sign makes it from. -/
theorem text_cases {x : Float} (h : x.isFinite = true) :
    Lexeme (.number x) (text x).toList ∨
      ∃ y w, Lexeme (.number y) w ∧ x = -y ∧ (text x).toList = '-' :: w := by
  have hlexeme := lexeme_magnitudeText (word_lt_infinity h)
  unfold text
  rw [isNaN_of_isFinite h]
  cases hnegative : isNegative x with
  | false =>
      rw [ofBits_word hnegative] at hlexeme
      exact .inl (by simpa using hlexeme)
  | true =>
      have hneg := neg_ofBits_word h hnegative
      exact .inr ⟨_, _, hlexeme, hneg.symm, by simp⟩

end Number

end Lox
