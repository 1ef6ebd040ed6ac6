import Lox.Number.Decimal
import Lox.Proofs.Number.Magnitude

/-!
# Shortest decimals

Every decimal that the search for a shortest one may end with is in the interval around the
word: it is on a grid and has been tried, or it is the magnitude itself.  And what is in that
interval is rounded to the word again.
-/

namespace Lox

open Magnitude

variable {word factor : Nat} {interval : Interval} {decimal : Decimal}

theorem powerOfTen_eq (n : Nat) : powerOfTen n = 10 ^ n := rfl

theorem powerOfTen_pos (n : Nat) : 0 < powerOfTen n := Nat.pow_pos (by decide)

theorem one_shiftLeft_dvd_powerOfTen (n : Nat) : 1 <<< n ∣ powerOfTen n := by
  rw [Nat.one_shiftLeft]
  exact ⟨5 ^ n, Nat.mul_pow 2 5 n⟩

theorem one_shiftLeft_sub_mul {n shared : Nat} (h : shared ≤ n + 1) :
    1 <<< (n + 1 - shared) * 2 ^ shared = 2 * 1 <<< n := by
  rw [Nat.one_shiftLeft, Nat.one_shiftLeft, ← Nat.pow_add, Nat.sub_add_cancel h, Nat.pow_succ']

namespace Interval

/-! ## The interval around a word -/

/-- The interval around the magnitude of a word, but for a common factor that is taken out. -/
structure Around (interval : Interval) (word factor : Nat) : Prop where
  factor_pos : 0 < factor
  lower_mul : interval.lower * factor = units (word - 1) + units word
  value_mul : interval.value * factor = 2 * units word
  upper_mul : interval.upper * factor = units word + units (word + 1)
  den_mul : interval.den * factor = 2 * one
  closed_iff : interval.closed = true ↔ word % 2 = 0

/-- Both neighbours of a word are multiples of half of its unit. -/
theorem two_pow_dvd_units {shared : Nat} (hshared : shared ≤ scale word - 1) {other : Nat}
    (hother : word - 1 ≤ other) : 2 ^ shared ∣ units other := by
  have hscale : scale word - 1 ≤ scale other := by
    have hdiv : word / hiddenBit ≤ other / hiddenBit + 1 := by
      rw [← Nat.add_div_right _ hiddenBit_pos]
      have hpos := hiddenBit_pos
      exact Nat.div_le_div_right (by omega)
    unfold scale
    omega
  rw [units_eq]
  exact Nat.dvd_mul_left_of_dvd (Nat.pow_dvd_pow 2 (hshared.trans hscale)) _

theorem around_ofWord (word : Nat) :
    (ofWord word).Around word (2 ^ min (scale word - 1) 1075) := by
  have hle : min (scale word - 1) 1075 ≤ scale word - 1 := Nat.min_le_left _ _
  have hbefore := two_pow_dvd_units hle (Nat.le_refl (word - 1))
  have hunits := two_pow_dvd_units hle (Nat.sub_le word 1)
  have hafter := two_pow_dvd_units hle (Nat.le_succ_of_le (Nat.sub_le word 1))
  exact {
    factor_pos := Nat.two_pow_pos _
    lower_mul := by
      dsimp only [ofWord]
      rw [Nat.shiftRight_eq_div_pow, Nat.div_mul_cancel (Nat.dvd_add hbefore hunits)]
    value_mul := by
      dsimp only [ofWord]
      rw [Nat.shiftRight_eq_div_pow, Nat.div_mul_cancel (Nat.dvd_mul_left_of_dvd hunits 2)]
    upper_mul := by
      dsimp only [ofWord]
      rw [Nat.shiftRight_eq_div_pow, Nat.div_mul_cancel (Nat.dvd_add hunits hafter)]
    den_mul := one_shiftLeft_sub_mul (Nat.min_le_right _ _)
    closed_iff := by simp [ofWord] }

/-! ## What the interval contains -/

theorem contains_iff :
    interval.contains decimal = true ↔
      interval.lower * powerOfTen (-decimal.exponent).toNat ≤
          decimal.coefficient * powerOfTen decimal.exponent.toNat * interval.den ∧
        decimal.coefficient * powerOfTen decimal.exponent.toNat * interval.den ≤
          interval.upper * powerOfTen (-decimal.exponent).toNat ∧
        (interval.closed = true ∨
          interval.lower * powerOfTen (-decimal.exponent).toNat <
              decimal.coefficient * powerOfTen decimal.exponent.toNat * interval.den ∧
            decimal.coefficient * powerOfTen decimal.exponent.toNat * interval.den <
              interval.upper * powerOfTen (-decimal.exponent).toNat) := by
  unfold contains
  dsimp only
  split
  · rename_i hclosed
    simp [hclosed]
  · rename_i hopen
    simp only [hopen, Bool.and_eq_true, decide_eq_true_eq, Bool.false_eq_true, false_or]
    constructor
    · rintro ⟨hlower, hupper⟩
      exact ⟨Nat.le_of_lt hlower, Nat.le_of_lt hupper, hlower, hupper⟩
    · rintro ⟨_, _, hstrict⟩
      exact hstrict

/-- What the interval around a word contains is rounded to the word. -/
theorem Around.roundsTo (h : interval.Around word factor)
    (hcontains : interval.contains decimal = true) :
    RoundsTo word (decimal.coefficient * powerOfTen decimal.exponent.toNat * one)
      (powerOfTen (-decimal.exponent).toNat) := by
  obtain ⟨hlower, hupper, heven⟩ := contains_iff.1 hcontains
  generalize powerOfTen (-decimal.exponent).toNat = places at *
  generalize decimal.coefficient * powerOfTen decimal.exponent.toNat = point at *
  have hpoint : point * interval.den * factor = 2 * (point * one) := by
    rw [Nat.mul_assoc, h.den_mul, Nat.mul_left_comm]
  have hfirst : interval.lower * places * factor = (units (word - 1) + units word) * places := by
    rw [Nat.mul_right_comm, h.lower_mul]
  have hlast : interval.upper * places * factor = (units word + units (word + 1)) * places := by
    rw [Nat.mul_right_comm, h.upper_mul]
  exact {
    lower := by
      rw [← hpoint, ← hfirst]
      exact Nat.mul_le_mul_right factor hlower
    upper := by
      rw [← hpoint, ← hlast]
      exact Nat.mul_le_mul_right factor hupper
    even := by
      rw [← hpoint, ← hfirst, ← hlast, ← h.closed_iff]
      exact heven.imp_right fun hstrict =>
        ⟨Nat.mul_lt_mul_of_pos_right hstrict.1 h.factor_pos,
          Nat.mul_lt_mul_of_pos_right hstrict.2 h.factor_pos⟩ }

/-! ## What the search ends with -/

theorem contains_onGrid? {exponent : Int} (h : interval.onGrid? exponent = some decimal) :
    interval.contains decimal = true := by
  unfold onGrid? at h
  dsimp only at h
  split at h
  · rename_i hbelow habove
    split at h <;> cases h
    · exact hbelow
    · exact habove
  · rename_i hbelow _
    cases h
    exact hbelow
  · rename_i _ habove
    cases h
    exact habove
  · cases h

/-- The finest grid holds the magnitude, which is strictly between the ends of its interval. -/
theorem Around.contains_exact (h : interval.Around word factor) (hword : 0 < word) :
    interval.contains interval.exact = true := by
  have hbefore := units_strictMono (show word - 1 < word by omega)
  have hafter := units_strictMono (Nat.lt_add_one word)
  have hlower : interval.lower < interval.value := by
    apply Nat.lt_of_mul_lt_mul_right (a := factor)
    rw [h.lower_mul, h.value_mul]
    omega
  have hupper : interval.value < interval.upper := by
    apply Nat.lt_of_mul_lt_mul_right (a := factor)
    rw [h.value_mul, h.upper_mul]
    omega
  have hdvd : interval.den ∣ interval.value * powerOfTen 1074 := by
    obtain ⟨k, hk⟩ : one ∣ powerOfTen 1074 := one_shiftLeft_dvd_powerOfTen 1074
    refine ⟨units word * k, Nat.eq_of_mul_eq_mul_right h.factor_pos ?_⟩
    calc interval.value * powerOfTen 1074 * factor
        = interval.value * factor * powerOfTen 1074 := Nat.mul_right_comm _ _ _
      _ = 2 * units word * (one * k) := by rw [h.value_mul, hk]
      _ = 2 * one * (units word * k) := by ac_rfl
      _ = interval.den * (units word * k) * factor := by rw [← h.den_mul, Nat.mul_right_comm]
  have hplaces := powerOfTen_pos 1074
  have hpoint : interval.exact.coefficient * powerOfTen 0 * interval.den =
      interval.value * powerOfTen 1074 := by
    rw [powerOfTen_eq 0, Nat.pow_zero, Nat.mul_one]
    exact Nat.div_mul_cancel hdvd
  have hfirst : interval.lower * powerOfTen 1074 < interval.value * powerOfTen 1074 :=
    Nat.mul_lt_mul_of_pos_right hlower hplaces
  have hlast : interval.value * powerOfTen 1074 < interval.upper * powerOfTen 1074 :=
    Nat.mul_lt_mul_of_pos_right hupper hplaces
  rw [← hpoint] at hfirst hlast
  exact contains_iff.2 ⟨Nat.le_of_lt hfirst, Nat.le_of_lt hlast, .inr ⟨hfirst, hlast⟩⟩

theorem Around.contains_search (h : interval.Around word factor) (hword : 0 < word) (steps : Nat) :
    interval.contains (interval.search steps) = true := by
  induction steps with
  | zero => exact h.contains_exact hword
  | succ steps ih =>
      unfold search
      split
      · rename_i hgrid
        exact contains_onGrid? hgrid
      · exact ih

end Interval

/-- The shortest decimal of a word that is not zero is rounded to that word. -/
theorem roundsTo_shortest (hword : 0 < word) :
    RoundsTo word
      ((Interval.ofWord word).shortest.coefficient *
        powerOfTen (Interval.ofWord word).shortest.exponent.toNat * one)
      (powerOfTen (-(Interval.ofWord word).shortest.exponent).toNat) := by
  have haround := Interval.around_ofWord word
  exact haround.roundsTo (haround.contains_search hword _)

end Lox
