import BundlePlan.Number.Rounding
import Mathlib.Algebra.Order.Field.Basic
import Mathlib.Algebra.Order.Field.Power
import Mathlib.Data.Rat.Cast.Order
import Mathlib.Tactic.FieldSimp
import Mathlib.Tactic.Linarith
import Mathlib.Tactic.Positivity
import Mathlib.Tactic.Ring

/-!
# How far rounding moves a quotient

`roundDiv` moves a quotient by one half at most. So it gives back an integer that is nearer than one
half, and does not go past an integer on either side.

A number with a limited mantissa is a quotient that is rounded to a multiple of a power of the base,
its last unit. For this the numerator or the denominator is scaled before it is rounded.
-/

namespace BundlePlan.Number

variable {num den : ℕ}

theorem abs_roundDiv_sub_le (num : ℕ) (hden : 0 < den) :
    |(roundDiv num den : ℚ) - num / den| ≤ 1 / 2 := by
  have hden' : (0 : ℚ) < den := by exact_mod_cast hden
  have hup : 2 * ((roundDiv num den : ℚ) * den) ≤ 2 * num + den := by
    exact_mod_cast two_mul_roundDiv_le hden
  have hdown : 2 * (num : ℚ) ≤ 2 * (roundDiv num den * den) + den := by
    exact_mod_cast two_mul_le_roundDiv hden
  have hquotient : (num : ℚ) / den * den = num := div_mul_cancel₀ _ hden'.ne'
  rw [abs_le]
  constructor
  · refine le_of_mul_le_mul_right ?_ hden'
    linarith
  · refine le_of_mul_le_mul_right ?_ hden'
    linarith

/-- A quotient near an integer is rounded to it. -/
theorem roundDiv_eq_of_abs_sub_lt (hden : 0 < den) {n : ℕ}
    (h : |(num : ℚ) / den - n| < 1 / 2) : roundDiv num den = n := by
  have hround := abs_le.1 (abs_roundDiv_sub_le num hden)
  have hnear := abs_lt.1 h
  have hlt : (roundDiv num den : ℚ) < n + 1 := by linarith
  have hgt : (n : ℚ) < roundDiv num den + 1 := by linarith
  norm_cast at hlt hgt
  omega

/-- Rounding stays above an integer. -/
theorem le_roundDiv (hden : 0 < den) {n : ℕ} (h : (n : ℚ) ≤ num / den) : n ≤ roundDiv num den := by
  have hround := abs_le.1 (abs_roundDiv_sub_le num hden)
  have hlt : (n : ℚ) < roundDiv num den + 1 := by linarith
  norm_cast at hlt
  omega

/-- Rounding stays below an integer. -/
theorem roundDiv_le (hden : 0 < den) {n : ℕ} (h : (num : ℚ) / den ≤ n) : roundDiv num den ≤ n := by
  have hround := abs_le.1 (abs_roundDiv_sub_le num hden)
  have hlt : (roundDiv num den : ℚ) < n + 1 := by linarith
  norm_cast at hlt
  omega

/-- A quotient halfway between two integers goes to the even one. -/
theorem roundDiv_of_half (hden : 0 < den) {n : ℕ} (h : (num : ℚ) / den = n + 1 / 2) :
    roundDiv num den = n + n % 2 := by
  have hden' : (den : ℚ) ≠ 0 := by exact_mod_cast hden.ne'
  have hdouble : 2 * num = 2 * (den * n) + den := by
    rw [div_eq_iff hden'] at h
    have hdouble : (2 : ℚ) * num = 2 * (den * n) + den := by rw [h]; ring
    exact_mod_cast hdouble
  have hdown : num / den = n := by
    rw [Nat.div_eq_iff hden, Nat.mul_comm n den]
    omega
  have hmod := Nat.div_add_mod num den
  rw [hdown] at hmod
  rw [roundDiv, hdown, if_neg (by omega), if_neg (by omega)]

/-- Rounding keeps the order of quotients. -/
theorem roundDiv_mono {num' den' : ℕ} (hden : 0 < den) (hden' : 0 < den')
    (h : (num : ℚ) / den ≤ num' / den') : roundDiv num den ≤ roundDiv num' den' := by
  by_contra hlt
  -- the two would be rounded apart from the same half
  have hround := abs_le.1 (abs_roundDiv_sub_le num hden)
  have hround' := abs_le.1 (abs_roundDiv_sub_le num' hden')
  have hnext : (roundDiv num' den' : ℚ) + 1 ≤ roundDiv num den := by exact_mod_cast not_le.1 hlt
  have hhalf : (num : ℚ) / den = roundDiv num' den' + 1 / 2 := by linarith
  have hhalf' : (num' : ℚ) / den' = roundDiv num' den' + 1 / 2 := by linarith
  have heven := roundDiv_of_half hden hhalf
  have heven' := roundDiv_of_half hden' hhalf'
  omega

/-- A quotient that is scaled by a power is the one that the scaled numerator and denominator make,
of which at most one is scaled. -/
theorem scaled_div {base : ℕ} (hbase : 0 < base) (num den : ℕ) (e : ℤ) :
    ((num * Nat.pow base (-e).toNat : ℕ) : ℚ) / (den * Nat.pow base e.toNat : ℕ)
      = num / den / (base : ℚ) ^ e := by
  have hbase' : (base : ℚ) ≠ 0 := by exact_mod_cast hbase.ne'
  have hpow : ∀ n : ℕ, Nat.pow base n = base ^ n := fun _ => rfl
  rw [hpow, hpow]
  push_cast
  obtain hnonneg | hneg := le_total 0 e
  · obtain ⟨n, rfl⟩ := Int.eq_ofNat_of_zero_le hnonneg
    simp [div_div]
  · obtain ⟨n, hn⟩ := Int.eq_ofNat_of_zero_le (Int.neg_nonneg.2 hneg)
    obtain rfl : e = -n := by omega
    simp
    field_simp

/-! ### Multiples of a unit -/

section Unit

variable {base : ℕ} (hbase : 0 < base) (hden : 0 < den) (e : ℤ)

include hbase hden

theorem scaled_pos : 0 < den * Nat.pow base e.toNat := Nat.mul_pos hden (Nat.pow_pos hbase)

/-- Rounding moves a quotient by half a unit at most. -/
theorem abs_roundDiv_mul_sub_le (num : ℕ) :
    |(roundDiv (num * Nat.pow base (-e).toNat) (den * Nat.pow base e.toNat) : ℚ) * base ^ e
        - num / den| ≤ base ^ e / 2 := by
  have hunit : (0 : ℚ) < (base : ℚ) ^ e := zpow_pos (by exact_mod_cast hbase) e
  have hround := abs_roundDiv_sub_le (num * Nat.pow base (-e).toNat) (scaled_pos hbase hden e)
  rw [scaled_div hbase] at hround
  generalize roundDiv (num * Nat.pow base (-e).toNat) (den * Nat.pow base e.toNat) = n at hround ⊢
  calc |(n : ℚ) * base ^ e - num / den|
      = |(n : ℚ) - num / den / base ^ e| * base ^ e := by
        rw [← abs_of_pos hunit, ← abs_mul, abs_of_pos hunit, sub_mul, div_mul_cancel₀ _ hunit.ne']
    _ ≤ 1 / 2 * base ^ e := mul_le_mul_of_nonneg_right hround hunit.le
    _ = base ^ e / 2 := by ring

/-- A quotient near a multiple of the unit is rounded to it. -/
theorem roundDiv_eq_of_abs_sub_mul_lt {n : ℕ}
    (h : |(num : ℚ) / den - n * base ^ e| < base ^ e / 2) :
    roundDiv (num * Nat.pow base (-e).toNat) (den * Nat.pow base e.toNat) = n := by
  have hunit : (0 : ℚ) < (base : ℚ) ^ e := zpow_pos (by exact_mod_cast hbase) e
  refine roundDiv_eq_of_abs_sub_lt (scaled_pos hbase hden e) ?_
  rw [scaled_div hbase]
  refine lt_of_mul_lt_mul_right ?_ hunit.le
  calc |(num : ℚ) / den / base ^ e - n| * base ^ e
      = |(num : ℚ) / den - n * base ^ e| := by
        rw [← abs_of_pos hunit, ← abs_mul, abs_of_pos hunit, sub_mul, div_mul_cancel₀ _ hunit.ne']
    _ < base ^ e / 2 := h
    _ = 1 / 2 * base ^ e := by ring

/-- Rounding stays above a multiple of the unit. -/
theorem le_roundDiv_of_mul_le {n : ℕ} (h : (n : ℚ) * base ^ e ≤ num / den) :
    n ≤ roundDiv (num * Nat.pow base (-e).toNat) (den * Nat.pow base e.toNat) := by
  have hunit : (0 : ℚ) < (base : ℚ) ^ e := zpow_pos (by exact_mod_cast hbase) e
  refine le_roundDiv (scaled_pos hbase hden e) ?_
  rwa [scaled_div hbase, le_div_iff₀ hunit]

/-- Rounding stays below a multiple of the unit. -/
theorem roundDiv_le_of_le_mul {n : ℕ} (h : (num : ℚ) / den ≤ n * base ^ e) :
    roundDiv (num * Nat.pow base (-e).toNat) (den * Nat.pow base e.toNat) ≤ n := by
  have hunit : (0 : ℚ) < (base : ℚ) ^ e := zpow_pos (by exact_mod_cast hbase) e
  refine roundDiv_le (scaled_pos hbase hden e) ?_
  rwa [scaled_div hbase, div_le_iff₀ hunit]

/-- What reaches a power of the base still does. -/
theorem pow_le_roundDiv {k : ℕ} (h : (base : ℚ) ^ (e + k) ≤ num / den) :
    base ^ k ≤ roundDiv (num * Nat.pow base (-e).toNat) (den * Nat.pow base e.toNat) := by
  have hbase' : (base : ℚ) ≠ 0 := by exact_mod_cast hbase.ne'
  refine le_roundDiv_of_mul_le hbase hden e (le_of_eq_of_le ?_ h)
  rw [zpow_add₀ hbase', zpow_natCast, Nat.cast_pow, mul_comm]

/-- What does not exceed a power of the base still does not. -/
theorem roundDiv_le_pow {k : ℕ} (h : (num : ℚ) / den ≤ base ^ (e + k)) :
    roundDiv (num * Nat.pow base (-e).toNat) (den * Nat.pow base e.toNat) ≤ base ^ k := by
  have hbase' : (base : ℚ) ≠ 0 := by exact_mod_cast hbase.ne'
  refine roundDiv_le_of_le_mul hbase hden e (h.trans_eq ?_)
  rw [zpow_add₀ hbase', zpow_natCast, Nat.cast_pow, mul_comm]

end Unit

/-- Rounding to a number of digits keeps the order of quotients, also if the smaller one has the
smaller unit: its next power of the base is at most the larger one. -/
theorem roundDiv_mul_mono (k : ℕ) (e e' : ℤ) {base num' den' : ℕ} (hbase : 1 < base)
    (hden : 0 < den) (hden' : 0 < den') (hupper : (num : ℚ) / den ≤ base ^ (e + (k + 1 : ℕ)))
    (hlower : (base : ℚ) ^ (e' + k) ≤ num' / den') (he : e ≤ e')
    (h : (num : ℚ) / den ≤ num' / den') :
    (roundDiv (num * Nat.pow base (-e).toNat) (den * Nat.pow base e.toNat) : ℚ) * base ^ e
      ≤ roundDiv (num' * Nat.pow base (-e').toNat) (den' * Nat.pow base e'.toNat) * base ^ e' := by
  have hpos : 0 < base := by omega
  have hbase' : (1 : ℚ) < base := by exact_mod_cast hbase
  have hne : (base : ℚ) ≠ 0 := by positivity
  obtain rfl | hlt := he.eq_or_lt
  · have hunit : (0 : ℚ) < (base : ℚ) ^ e := by positivity
    have hround : roundDiv (num * Nat.pow base (-e).toNat) (den * Nat.pow base e.toNat)
        ≤ roundDiv (num' * Nat.pow base (-e).toNat) (den' * Nat.pow base e.toNat) := by
      refine roundDiv_mono (scaled_pos hpos hden e) (scaled_pos hpos hden' e) ?_
      rw [scaled_div hpos, scaled_div hpos]
      gcongr
    gcongr
  · have hbelow := roundDiv_le_pow hpos hden e hupper
    have habove := pow_le_roundDiv hpos hden' e' hlower
    calc (roundDiv (num * Nat.pow base (-e).toNat) (den * Nat.pow base e.toNat) : ℚ) * base ^ e
        ≤ (base ^ (k + 1) : ℕ) * base ^ e := by gcongr
      _ = base ^ (e + (k + 1 : ℕ)) := by
        rw [zpow_add₀ hne, zpow_natCast, Nat.cast_pow, mul_comm]
      _ ≤ base ^ (e' + k) := zpow_le_zpow_right₀ hbase'.le (by omega)
      _ = (base ^ k : ℕ) * base ^ e' := by
        rw [zpow_add₀ hne, zpow_natCast, Nat.cast_pow, mul_comm]
      _ ≤ roundDiv (num' * Nat.pow base (-e').toNat) (den' * Nat.pow base e'.toNat)
          * base ^ e' := by gcongr

end BundlePlan.Number
