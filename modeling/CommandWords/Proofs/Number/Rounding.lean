import CommandWords.Number.Binary64
import Mathlib.Algebra.Order.Field.Power
import Mathlib.Algebra.Order.Field.Rat
import Mathlib.Data.Nat.Log
import Mathlib.Data.Rat.Cast.Order
import Mathlib.Tactic.FieldSimp
import Mathlib.Tactic.GCongr
import Mathlib.Tactic.Linarith
import Mathlib.Tactic.NormNum
import Mathlib.Tactic.Positivity
import Mathlib.Tactic.Ring
import Mathlib.Tactic.SplitIfs

/-!
# The error of rounding

A rounded magnitude of double precision is off by at most the 2^53rd part of what is rounded
(`value_round_mem`), as long as that is not too small for 53 significant bits. A decimal is
rounded in three steps, so that the magnitude that is made of it is off by little more than three
such parts; it is too large only if the decimal is as good as 2^1024 (`ofDecimal?_eq_none`,
`ofDecimal?_eq_some`).
-/

namespace CommandWords

variable {num den : Nat}

theorem abs_roundDiv_sub_le (h : 0 < den) : |(roundDiv num den : ℚ) - num / den| ≤ 1 / 2 := by
  have hden : (0 : ℚ) < den := by exact_mod_cast h
  have hnum : (num : ℚ) = den * (num / den : Nat) + (num % den : Nat) := by
    exact_mod_cast (Nat.div_add_mod num den).symm
  have hquotient : (num : ℚ) / den = (num / den : Nat) + (num % den : Nat) / den := by
    rw [hnum]
    field_simp
  have hlow : (0 : ℚ) ≤ (num % den : Nat) / den := by positivity
  have hhigh : ((num % den : Nat) : ℚ) / den ≤ 1 :=
    (div_le_one hden).2 (by exact_mod_cast (Nat.mod_lt num h).le)
  have hdown : 2 * (num % den) ≤ den → ((num % den : Nat) : ℚ) / den ≤ 1 / 2 := fun hle => by
    rw [div_le_div_iff₀ hden two_pos, one_mul, mul_comm]
    exact_mod_cast hle
  have hup : den ≤ 2 * (num % den) → 1 / 2 ≤ ((num % den : Nat) : ℚ) / den := fun hle => by
    rw [div_le_div_iff₀ two_pos hden, one_mul, mul_comm]
    exact_mod_cast hle
  rw [hquotient, abs_le]
  unfold roundDiv
  dsimp only
  split_ifs with hlt hgt heven
  · have := hdown hlt.le
    constructor <;> linarith
  · have := hup hgt.le
    push_cast
    constructor <;> linarith
  · have := hdown (not_lt.1 hgt)
    constructor <;> linarith
  · have := hup (not_lt.1 hlt)
    push_cast
    constructor <;> linarith

namespace Binary64

/-- The number that a magnitude is. -/
def value (x : Binary64) : ℚ := x.mantissa * 2 ^ x.exponent

theorem two_zpow (n : Int) : (2 : ℚ) ^ n = 2 ^ n.toNat / 2 ^ (-n).toNat := by
  rw [eq_div_iff (by positivity), ← zpow_natCast, ← zpow_natCast, ← zpow_add₀ (by norm_num)]
  congr 1
  omega

theorem den_pos (x : Binary64) : 0 < x.den := Nat.pow_pos two_pos

theorem value_eq (x : Binary64) : x.value = x.num / x.den := by
  simp only [value, num, den, two_zpow, Nat.pow_eq]
  push_cast
  field_simp

theorem num_lt_iff (x : Binary64) (n : Nat) : x.num < 2 ^ n * x.den ↔ x.value < 2 ^ n := by
  have hden : (0 : ℚ) < x.den := by exact_mod_cast x.den_pos
  rw [value_eq, div_lt_iff₀ hden]
  exact_mod_cast Iff.rfl

theorem isFinite_iff (x : Binary64) : x.isFinite = true ↔ x.value < 2 ^ 1024 := by
  have h : ∀ n, decide (x.num < Nat.pow 2 n * x.den) = true ↔ x.value < 2 ^ n := fun n => by
    rw [decide_eq_true_iff, Nat.pow_eq, num_lt_iff]
  exact h 1024

/-- The mantissa for an exponent is the fraction over the power of two, rounded to a whole
number. -/
theorem abs_roundAt_sub_le (num : Nat) (exponent : Int) (h : 0 < den) :
    |(roundAt exponent num den : ℚ) - num / den / 2 ^ exponent| ≤ 1 / 2 := by
  have hscaled : ((num : ℚ) / den) / 2 ^ exponent =
      ((num * Nat.pow 2 (-exponent).toNat : Nat) : ℚ) / (den * Nat.pow 2 exponent.toNat : Nat) := by
    rw [two_zpow]
    simp only [Nat.pow_eq]
    push_cast
    field_simp
  rw [hscaled]
  exact abs_roundDiv_sub_le (Nat.mul_pos h (Nat.pow_pos two_pos))

/-- A mantissa of 54 bits gives one to the exponent. -/
theorem value_carry (mantissa : Nat) (exponent : Int) :
    (if mantissa = Nat.pow 2 53 then (⟨Nat.pow 2 52, exponent + 1⟩ : Binary64)
      else ⟨mantissa, exponent⟩).value = mantissa * 2 ^ exponent := by
  split_ifs with h
  · rw [h, value, zpow_add_one₀ two_ne_zero]
    simp only [Nat.pow_eq]
    push_cast
    ring
  · rfl

theorem fits_iff (num : Nat) (guess : Int) (h : 0 < den) :
    num * Nat.pow 2 (-guess).toNat < Nat.pow 2 53 * (den * Nat.pow 2 guess.toNat) ↔
      (num : ℚ) / den / 2 ^ guess < 2 ^ 53 := by
  have hden : (0 : ℚ) < den := by exact_mod_cast h
  rw [div_div, div_lt_iff₀ (by positivity), two_zpow, ← mul_div_assoc, ← mul_div_assoc,
    lt_div_iff₀ (by positivity)]
  simp only [Nat.pow_eq]
  exact_mod_cast Iff.rfl

theorem le_div_two_zpow_guess (hn : 0 < num) (h : 0 < den) :
    (2 : ℚ) ^ 52 ≤ num / den / 2 ^ ((num.log2 : Int) - den.log2 - 53) := by
  have hnum : (2 : ℚ) ^ num.log2 ≤ num := by exact_mod_cast Nat.log2_self_le hn.ne'
  have hden : (den : ℚ) ≤ 2 ^ (den.log2 + 1) := by exact_mod_cast (Nat.lt_log2_self).le
  have hden₀ : (0 : ℚ) < den := by exact_mod_cast h
  calc (2 : ℚ) ^ 52
      = 2 ^ num.log2 / 2 ^ (den.log2 + 1) / 2 ^ ((num.log2 : Int) - den.log2 - 53) := by
        rw [zpow_sub₀ two_ne_zero, zpow_sub₀ two_ne_zero, zpow_natCast, zpow_natCast]
        field_simp
        rw [pow_succ, mul_comm]
    _ ≤ num / den / 2 ^ ((num.log2 : Int) - den.log2 - 53) := by gcongr

/-- The exponent of a rounded fraction that is not too small leaves 53 bits to the mantissa. -/
theorem exists_value_round_eq (hn : 0 < num) (hd : den ≤ 4 * num) (h : 0 < den) :
    ∃ exponent : Int, 2 ^ 52 ≤ (num : ℚ) / den / 2 ^ exponent ∧
      (round num den).value = roundAt exponent num den * 2 ^ exponent := by
  have hlog : den.log2 ≤ num.log2 + 2 := by
    have hlt : den < 2 ^ (num.log2 + 2 + 1) := by
      have := Nat.lt_log2_self (n := num)
      rw [pow_succ, pow_succ]
      omega
    exact Nat.lt_succ_iff.1 ((Nat.log2_lt h.ne').2 hlt)
  have hguess := le_div_two_zpow_guess hn h
  have hfits := fits_iff num ((num.log2 : Int) - den.log2 - 53) h
  unfold round
  rw [if_neg hn.ne']
  dsimp only
  generalize hg : (num.log2 : Int) - den.log2 - 53 = guess at *
  by_cases hlt : num * Nat.pow 2 (-guess).toNat < Nat.pow 2 53 * (den * Nat.pow 2 guess.toNat)
  · rw [if_pos hlt, max_eq_right (by omega)]
    exact ⟨guess, hguess, value_carry _ _⟩
  · rw [if_neg hlt, max_eq_right (by omega)]
    refine ⟨guess + 1, ?_, value_carry _ _⟩
    have := not_lt.1 (mt hfits.2 hlt)
    rw [zpow_add_one₀ two_ne_zero, ← div_div]
    linarith

/-- A rounded fraction is off by at most its 2^53rd part. -/
theorem abs_value_round_sub_le (hn : 0 < num) (hd : den ≤ 4 * num) (h : 0 < den) :
    |(round num den).value - num / den| ≤ num / den / 2 ^ 53 := by
  obtain ⟨exponent, hlow, hvalue⟩ := exists_value_round_eq hn hd h
  have hpow : (0 : ℚ) < 2 ^ exponent := by positivity
  have herror := abs_roundAt_sub_le num exponent h
  have hsplit : (roundAt exponent num den : ℚ) * 2 ^ exponent - num / den =
      (roundAt exponent num den - num / den / 2 ^ exponent) * 2 ^ exponent := by
    field_simp
  calc |(round num den).value - num / den|
      = |(roundAt exponent num den : ℚ) - num / den / 2 ^ exponent| * 2 ^ exponent := by
        rw [hvalue, hsplit, abs_mul, abs_of_pos hpow]
    _ ≤ 1 / 2 * 2 ^ exponent := by gcongr
    _ ≤ num / den / 2 ^ exponent / 2 ^ 53 * 2 ^ exponent := by
        refine mul_le_mul_of_nonneg_right ?_ hpow.le
        linarith
    _ = num / den / 2 ^ 53 := by field_simp

theorem den_le_of_half_le {x : Binary64} (h : 1 / 2 ≤ x.value) : x.den ≤ 2 * x.num := by
  have hden : (0 : ℚ) < x.den := by exact_mod_cast x.den_pos
  rw [value_eq, div_le_div_iff₀ two_pos hden, one_mul, mul_comm] at h
  exact_mod_cast h

/-- A rounded product is off by at most its 2^53rd part. -/
theorem abs_value_mul_sub_le {x y : Binary64} (hx : 1 / 2 ≤ x.value) (hy : 1 / 2 ≤ y.value) :
    |(x.mul y).value - x.value * y.value| ≤ x.value * y.value / 2 ^ 53 := by
  have hxden := den_le_of_half_le hx
  have hyden := den_le_of_half_le hy
  have hproduct : x.value * y.value = (x.num * y.num : Nat) / (x.den * y.den : Nat) := by
    rw [value_eq, value_eq, div_mul_div_comm]
    push_cast
    rfl
  have hden : x.den * y.den ≤ 4 * (x.num * y.num) :=
    (Nat.mul_le_mul hxden hyden).trans (le_of_eq (by ring))
  have hpos := Nat.mul_pos x.den_pos y.den_pos
  rw [hproduct]
  exact abs_value_round_sub_le (by omega) hden hpos

/-- A rounded whole number is off by at most its 2^53rd part. -/
theorem abs_value_round_one_sub_le {n : Nat} (h : 0 < n) :
    |(round n 1).value - n| ≤ n / 2 ^ 53 := by
  simpa using abs_value_round_sub_le h (by omega : 1 ≤ 4 * n) one_pos

/-- Relative errors add up in a product. -/
theorem abs_mul_sub_le {x y a b u v : ℚ} (ha : 0 ≤ a) (hb : 0 ≤ b) (hx : |x - a| ≤ a * u)
    (hy : |y - b| ≤ b * v) : |x * y - a * b| ≤ a * b * (u + v + u * v) := by
  have hau := (abs_nonneg _).trans hx
  have hbv := (abs_nonneg _).trans hy
  have hsplit : x * y - a * b = (x - a) * (y - b) + a * (y - b) + (x - a) * b := by ring
  calc |x * y - a * b|
      ≤ |x - a| * |y - b| + a * |y - b| + |x - a| * b := by
        rw [hsplit]
        refine (abs_add_le _ _).trans (add_le_add ((abs_add_le _ _).trans (add_le_add ?_ ?_)) ?_)
        · rw [abs_mul]
        · rw [abs_mul, abs_of_nonneg ha]
        · rw [abs_mul, abs_of_nonneg hb]
    _ ≤ a * u * (b * v) + a * (b * v) + a * u * b := by gcongr
    _ = a * b * (u + v + u * v) := by ring

/-- A decimal that is put together from its significand and a power of ten is off by at most its
2^51st part. -/
theorem abs_value_decimal_sub_le {significand : Nat} (h : 0 < significand) (n : Nat) :
    |((round significand 1).mul (pow10 n)).value - significand * 10 ^ n| ≤
      significand * 10 ^ n / 2 ^ 51 := by
  have hs : (1 : ℚ) ≤ significand := by exact_mod_cast h
  have hp : (1 : ℚ) ≤ 10 ^ n := one_le_pow₀ (by norm_num)
  have hx := abs_value_round_one_sub_le h
  have hy : |(pow10 n).value - 10 ^ n| ≤ 10 ^ n / 2 ^ 53 := by
    have := abs_value_round_one_sub_le (Nat.pow_pos (n := n) (by decide : 0 < 10))
    push_cast at this
    exact this
  have hx₂ : 1 / 2 ≤ (round significand 1).value := by
    have := (abs_le.1 hx).1
    linarith
  have hy₂ : 1 / 2 ≤ (pow10 n).value := by
    have := (abs_le.1 hy).1
    linarith
  have hrounded := abs_value_mul_sub_le hx₂ hy₂
  have hproduct := abs_mul_sub_le (zero_le_one.trans hs) (zero_le_one.trans hp)
    (hx.trans_eq (div_eq_mul_inv _ _)) (hy.trans_eq (div_eq_mul_inv _ _))
  have hpos : (0 : ℚ) ≤ significand * 10 ^ n := by positivity
  generalize (significand : ℚ) * 10 ^ n = exact at *
  rw [abs_le] at hrounded hproduct ⊢
  norm_num at hrounded hproduct ⊢
  constructor <;> linarith

theorem two_pow_le_ten_pow : (2 : ℚ) ^ 1024 ≤ 10 ^ 309 := by
  have htwo : 1024 = 93 * 11 + 1 := rfl
  have hten : 309 = 28 * 11 + 1 := rfl
  have h : (2 : ℚ) ^ 93 ≤ 10 ^ 28 := by norm_num
  rw [htwo, hten, pow_succ, pow_mul, pow_succ (10 : ℚ), pow_mul (10 : ℚ)]
  gcongr
  norm_num

theorem isFinite_mul_of_eq_zero (y : Binary64) : ((round 0 1).mul y).isFinite = true := by
  have h : (round 0 1).mul y = zero := by
    simp [mul, round, num, zero]
  rw [h, isFinite_iff, value, zero]
  simp

/-- A decimal is too large only if it is 2^1024, up to its 2^51st part. -/
theorem le_of_ofDecimal?_eq_none {significand : Nat} {exponent : Int}
    (h : ofDecimal? significand exponent = none) :
    (2 : ℚ) ^ 1024 ≤ significand * 10 ^ exponent * (1 + 1 / 2 ^ 51) := by
  unfold ofDecimal? at h
  dsimp only at h
  split_ifs at h with hneg hle hfinite hzero
  · have hpos : 0 < significand := by
      rcases Nat.eq_zero_or_pos significand with rfl | hpos
      · exact absurd (isFinite_mul_of_eq_zero _) hfinite
      · exact hpos
    have herror := (abs_le.1 (abs_value_decimal_sub_le hpos exponent.toNat)).2
    rw [isFinite_iff, not_lt] at hfinite
    have hpow : (10 : ℚ) ^ exponent = 10 ^ exponent.toNat := by
      rw [← zpow_natCast, Int.toNat_of_nonneg (not_lt.1 hneg)]
    rw [hpow]
    generalize (significand : ℚ) * 10 ^ exponent.toNat = exact at *
    generalize (2 : ℚ) ^ 1024 = limit at *
    linarith
  · have hpos : (1 : ℚ) ≤ significand := by
      exact_mod_cast Nat.pos_of_ne_zero hzero
    have hpow : (10 : ℚ) ^ 309 ≤ 10 ^ exponent := by
      rw [← zpow_natCast]
      exact zpow_le_zpow_right₀ (by norm_num) (by omega)
    calc (2 : ℚ) ^ 1024 ≤ 1 * 10 ^ 309 * 1 := by rw [one_mul, mul_one]; exact two_pow_le_ten_pow
      _ ≤ (significand : ℚ) * 10 ^ exponent * (1 + 1 / 2 ^ 51) := by gcongr; norm_num

/-- A decimal that is not too large is below 2^1024, up to its 2^51st part. -/
theorem lt_of_ofDecimal?_eq_some {significand : Nat} {exponent : Int} {x : Binary64}
    (h : ofDecimal? significand exponent = some x) (hs : significand < 2 ^ 64) :
    significand * 10 ^ exponent * (1 - 1 / 2 ^ 51) < (2 : ℚ) ^ 1024 := by
  unfold ofDecimal? at h
  dsimp only at h
  split_ifs at h with hneg hle hfinite hzero
  · have hpow : (10 : ℚ) ^ exponent ≤ 1 := zpow_le_one_of_nonpos₀ (by norm_num) hneg.le
    calc (significand : ℚ) * 10 ^ exponent * (1 - 1 / 2 ^ 51) ≤ significand * 1 * 1 := by
          gcongr
          norm_num
      _ < 2 ^ 64 := by
          rw [mul_one, mul_one]
          exact_mod_cast hs
      _ ≤ 2 ^ 1024 := pow_le_pow_right₀ (by norm_num) (by norm_num)
  · rcases Nat.eq_zero_or_pos significand with rfl | hpos
    · simp
    · have herror := (abs_le.1 (abs_value_decimal_sub_le hpos exponent.toNat)).1
      rw [isFinite_iff] at hfinite
      have hpow : (10 : ℚ) ^ exponent = 10 ^ exponent.toNat := by
        rw [← zpow_natCast, Int.toNat_of_nonneg (not_lt.1 hneg)]
      rw [hpow]
      generalize (significand : ℚ) * 10 ^ exponent.toNat = exact at *
      generalize (2 : ℚ) ^ 1024 = limit at *
      linarith
  · rw [hzero]
    simp

end Binary64

end CommandWords
