import Mathlib
import Lox.Number.Text

/-!
# The bits of numbers

The bits of a number are its sign, its exponent and its mantissa.  Without the sign they are
its word, and to negate a number is to turn its sign.  So a finite number is the magnitude of
its word, negated if its sign is set.
-/

namespace Lox.Number

open Float.Model (Format)
open Float.Model.UnpackedFloat

variable {x : Float} {sign : Sign} {exponent : BitVec 11} {mantissa : BitVec 52}

/-- The bits of the number that has these parts. -/
def bits (sign : Sign) (exponent : BitVec 11) (mantissa : BitVec 52) : UInt64 :=
  UInt64.ofBitVec (packComponents .binary64 sign exponent mantissa)

/-- The sign is the highest bit. -/
def signBit : Sign → Nat
  | .negative => 2 ^ 63
  | .positive => 0

theorem exists_bits (x : Float) :
    ∃ sign exponent mantissa, x.toBits = bits sign exponent mantissa := by
  have hparts : packComponents Format.binary64 _ _ _ = x.toBits.toBitVec :=
    packComponents_unpackSign_unpackExponent_unpackMantissa _
  exact ⟨_, _, _, UInt64.toBitVec_inj.1 hparts.symm⟩

theorem toNat_bits (sign : Sign) (exponent : BitVec 11) (mantissa : BitVec 52) :
    (bits sign exponent mantissa).toNat =
      signBit sign + (exponent.toNat * 2 ^ 52 + mantissa.toNat) := by
  have hexponent := exponent.isLt
  have hmantissa := mantissa.isLt
  show (sign.toBitVec ++ exponent ++ mantissa).toNat = _
  rw [BitVec.toNat_append, BitVec.toNat_append, ← Nat.shiftLeft_add_eq_or_of_lt hmantissa,
    ← Nat.shiftLeft_add_eq_or_of_lt hexponent, Nat.shiftLeft_eq, Nat.shiftLeft_eq]
  cases sign with
  | negative =>
      simp only [Sign.toBitVec, signBit, BitVec.toNat_ofNat]
      omega
  | positive =>
      simp only [Sign.toBitVec, signBit, BitVec.toNat_ofNat]
      omega

/-- A word holds all bits but the sign. -/
theorem word_eq (h : x.toBits = bits sign exponent mantissa) :
    word x = exponent.toNat * 2 ^ 52 + mantissa.toNat := by
  have hexponent := exponent.isLt
  have hmantissa := mantissa.isLt
  rw [word, UInt64.toNat_and, h, toNat_bits]
  show _ &&& (2 ^ 63 - 1) = _
  rw [Nat.and_two_pow_sub_one_eq_mod]
  cases sign <;> simp only [signBit] <;> omega

theorem isNegative_iff (h : x.toBits = bits sign exponent mantissa) :
    isNegative x = true ↔ sign = .negative := by
  have hexponent := exponent.isLt
  have hmantissa := mantissa.isLt
  rw [isNegative, decide_eq_true_eq, h, ge_iff_le, UInt64.le_iff_toNat_le, toNat_bits]
  show 2 ^ 63 ≤ _ ↔ _
  cases sign with
  | negative => simp [signBit]
  | positive =>
      simp only [signBit, reduceCtorEq, iff_false]
      omega

/-- The bits of a word are those of its number without the sign. -/
theorem toUInt64_word (h : x.toBits = bits sign exponent mantissa) :
    (word x).toUInt64 = bits .positive exponent mantissa := by
  have hword : word x = (bits .positive exponent mantissa).toNat := by
    rw [word_eq h, toNat_bits, signBit, Nat.zero_add]
  rw [hword]
  exact UInt64.ofNat_toNat

theorem isFinite_iff (h : x.toBits = bits sign exponent mantissa) :
    x.isFinite = true ↔ exponent ≠ -1 := by
  have hbits : x.toModel.toBits.toBitVec = packComponents .binary64 sign exponent mantissa :=
    congrArg UInt64.toBitVec h
  show (unpack .binary64 x.toModel.toBits.toBitVec).isFinite = true ↔ _
  rw [hbits, unpack]
  simp only [unpackMantissa_packComponents, unpackExponent_packComponents]
  split
  · rename_i hones
    split <;> simp [isFinite, hones]
  · rename_i hones
    split
    · split <;> simpa [isFinite] using hones
    · simpa [isFinite] using hones

theorem isNaN_of_isFinite (h : x.isFinite = true) : x.isNaN = false := by
  change x.toModel.unpack.isFinite = true at h
  show x.toModel.unpack.isNaN = false
  cases hunpacked : x.toModel.unpack with
  | notANumber => simp [hunpacked, isFinite] at h
  | infinity | zero | finite => rfl

/-! ## Negation -/

theorem neg_unpack (sign : Sign) (exponent : BitVec 11) (mantissa : BitVec 52) :
    (unpack .binary64 (packComponents .binary64 sign exponent mantissa)).neg =
      unpack .binary64 (packComponents .binary64 (-sign) exponent mantissa) := by
  unfold unpack
  simp only [unpackMantissa_packComponents, unpackExponent_packComponents,
    unpackSign_packComponents, Sign.ofBitVec_toBitVec]
  split
  · split <;> rfl
  · split
    · split <;> rfl
    · rfl

/-- To negate a number is to turn its sign. -/
theorem neg_ofBits (h : exponent ≠ -1) :
    -Float.ofBits (bits sign exponent mantissa) =
      Float.ofBits (bits (-sign) exponent mantissa) := by
  have hnumber : isNaNBits (packComponents .binary64 sign exponent mantissa) = false := by
    simp only [isNaNBits, unpackExponent_packComponents, decide_eq_false_iff_not]
    exact fun hnan => h hnan.1
  have hpacked := pack_unpack (packComponents .binary64 sign exponent mantissa)
  rw [hnumber] at hpacked
  show Float.ofModel (Float.Model.pack (unpack .binary64 (pack .binary64
      (unpack .binary64 (packComponents .binary64 sign exponent mantissa)))).neg) = _
  rw [hpacked]
  exact congrArg (fun unpacked => Float.ofModel (Float.Model.pack unpacked)) (neg_unpack ..)

/-! ## Finite numbers -/

theorem word_lt_infinity (h : x.isFinite = true) : word x < Magnitude.infinity := by
  obtain ⟨sign, exponent, mantissa, hbits⟩ := exists_bits x
  have hones := (isFinite_iff hbits).1 h
  have hexponent := exponent.isLt
  have hmantissa := mantissa.isLt
  have hne : exponent.toNat ≠ 2047 := fun heq => hones (BitVec.eq_of_toNat_eq heq)
  rw [word_eq hbits]
  show _ < 2047 * 2 ^ 52
  omega

theorem ofBits_word (h : isNegative x = false) : Float.ofBits (word x).toUInt64 = x := by
  obtain ⟨sign, exponent, mantissa, hbits⟩ := exists_bits x
  have hpositive : sign = .positive := by
    cases sign with
    | positive => rfl
    | negative => rw [(isNegative_iff hbits).2 rfl] at h; cases h
  rw [toUInt64_word hbits, ← hpositive, ← hbits, Float.ofBits_toBits]

theorem neg_ofBits_word (hfinite : x.isFinite = true) (h : isNegative x = true) :
    -Float.ofBits (word x).toUInt64 = x := by
  obtain ⟨sign, exponent, mantissa, hbits⟩ := exists_bits x
  obtain rfl := (isNegative_iff hbits).1 h
  rw [toUInt64_word hbits, neg_ofBits ((isFinite_iff hbits).1 hfinite)]
  show Float.ofBits (bits .negative exponent mantissa) = x
  rw [← hbits, Float.ofBits_toBits]

end Lox.Number
