import BundlePlan.Number.Binary
import BundlePlan.Proofs.Number.Rounding

/-!
# How near the nearest binary number is

`Binary.nearest` chooses the exponent for which the mantissa has 53 bits (`two_pow_exponentFor_le`,
`lt_two_pow_exponentFor`), so it moves a quotient by half a unit of the last of them at most. This
leaves integers as they are, and below `2 ^ 34` it makes no integer of a fraction of a million.
-/

namespace BundlePlan.Number.Binary

variable {num den : ℕ}

/-- The exact value. -/
def value (b : Binary) : ℚ := b.mantissa * 2 ^ b.exponent

theorem num_div_den (b : Binary) : (b.num : ℚ) / b.den = b.value := by
  have h := scaled_div two_pos b.mantissa 1 (-b.exponent)
  rw [neg_neg, Nat.one_mul, Nat.cast_one, div_one, zpow_neg, div_inv_eq_mul] at h
  exact_mod_cast h

/-- The value is an integer exactly if the test says so. -/
theorem isWhole_iff {b : Binary} : b.isWhole = true ↔ ∃ n : ℕ, b.value = n := by
  have hden : (b.den : ℚ) ≠ 0 := by exact_mod_cast b.den_pos.ne'
  rw [isWhole, beq_iff_eq, ← Nat.dvd_iff_mod_eq_zero, ← num_div_den]
  constructor
  · intro ⟨n, hn⟩
    exact ⟨n, by rw [hn, Nat.cast_mul, mul_div_cancel_left₀ _ hden]⟩
  · intro ⟨n, hn⟩
    rw [div_eq_iff hden] at hn
    exact ⟨n, by rw [Nat.mul_comm]; exact_mod_cast hn⟩

/-- An integer is got by dividing. -/
theorem num_div_den_eq {b : Binary} {n : ℕ} (h : b.value = n) : b.num / b.den = n := by
  have hden : (b.den : ℚ) ≠ 0 := by exact_mod_cast b.den_pos.ne'
  rw [← num_div_den, div_eq_iff hden] at h
  have hnat : b.num = n * b.den := by exact_mod_cast h
  rw [hnat, Nat.mul_div_cancel _ b.den_pos]

/-! ### The exponent -/

/-- A number lies between two powers of two that its length names. -/
theorem log2_bounds {n : ℕ} (hn : 0 < n) :
    (2 : ℚ) ^ (n.log2 : ℤ) ≤ n ∧ (n : ℚ) < 2 ^ ((n.log2 : ℤ) + 1) := by
  have hle := Nat.log2_self_le hn.ne'
  have hlt : n < 2 ^ (n.log2 + 1) := Nat.lt_log2_self
  constructor
  · exact_mod_cast hle
  · exact_mod_cast hlt

/-- The lengths of two numbers leave a factor of two for either side of their quotient. -/
theorem quotient_bounds (hnum : 0 < num) (hden : 0 < den) :
    (2 : ℚ) ^ ((num.log2 : ℤ) - den.log2 - 1) < num / den ∧
      (num : ℚ) / den < 2 ^ ((num.log2 : ℤ) - den.log2 + 1) := by
  obtain ⟨hnumLe, hnumLt⟩ := log2_bounds hnum
  obtain ⟨hdenLe, hdenLt⟩ := log2_bounds hden
  have hden' : (0 : ℚ) < den := by exact_mod_cast hden
  rw [lt_div_iff₀ hden', div_lt_iff₀ hden']
  constructor
  · calc (2 : ℚ) ^ ((num.log2 : ℤ) - den.log2 - 1) * den
        < 2 ^ ((num.log2 : ℤ) - den.log2 - 1) * 2 ^ ((den.log2 : ℤ) + 1) := by gcongr
      _ = 2 ^ (num.log2 : ℤ) := by rw [← zpow_add₀ two_ne_zero]; congr 1; ring
      _ ≤ num := hnumLe
  · calc (num : ℚ) < 2 ^ ((num.log2 : ℤ) + 1) := hnumLt
      _ = 2 ^ ((num.log2 : ℤ) - den.log2 + 1) * 2 ^ (den.log2 : ℤ) := by
        rw [← zpow_add₀ two_ne_zero]; congr 1; ring
      _ ≤ 2 ^ ((num.log2 : ℤ) - den.log2 + 1) * den := by gcongr

/-- With its exponent the mantissa has 53 bits. -/
theorem exponentFor_bounds (hnum : 0 < num) (hden : 0 < den) :
    (2 : ℚ) ^ (exponentFor num den + 52) ≤ num / den ∧
      (num : ℚ) / den < 2 ^ (exponentFor num den + 53) := by
  obtain ⟨hle, hlt⟩ := quotient_bounds hnum hden
  generalize hlarger : (num.log2 : ℤ) - den.log2 - 52 = larger
  have htest : den * Nat.pow 2 larger.toNat * Nat.pow 2 52 ≤ num * Nat.pow 2 (-larger).toNat
      ↔ (2 : ℚ) ^ (larger + 52) ≤ num / den := by
    have hpow : (0 : ℚ) < (den * Nat.pow 2 larger.toNat : ℕ) := by
      exact_mod_cast Nat.mul_pos hden (Nat.two_pow_pos _)
    have htwo : (0 : ℚ) < 2 ^ larger := by positivity
    have hscaled := scaled_div two_pos num den larger
    rw [Nat.cast_ofNat] at hscaled
    rw [add_comm, zpow_add₀ two_ne_zero, ← le_div_iff₀ htwo, ← hscaled, le_div_iff₀ hpow, mul_comm]
    exact_mod_cast Iff.rfl
  unfold exponentFor
  simp only [hlarger, htest]
  split
  · next hreached =>
    refine ⟨hreached, hlt.trans_eq ?_⟩
    congr 1
    omega
  · next hmissed =>
    refine ⟨le_of_eq_of_le ?_ hle.le, (not_le.1 hmissed).trans_eq ?_⟩
    · congr 1
      omega
    · congr 1
      omega

/-! ### The mantissa -/

/-- Rounding moves a quotient by half a unit of the last bit at most. -/
theorem abs_value_nearest_sub_le (num : ℕ) (hden : 0 < den) :
    |(nearest num den).value - num / den| ≤ 2 ^ exponentFor num den / 2 := by
  have h := abs_roundDiv_mul_sub_le two_pos hden (exponentFor num den) num
  rw [Nat.cast_ofNat] at h
  exact h

/-- Rounding moves a quotient by a tiny part of it. -/
theorem abs_value_nearest_sub_le_div (hnum : 0 < num) (hden : 0 < den) :
    |(nearest num den).value - num / den| ≤ num / den / 2 ^ 53 := by
  have hle := (exponentFor_bounds hnum hden).1
  rw [zpow_add₀ two_ne_zero] at hle
  calc |(nearest num den).value - num / den|
      ≤ 2 ^ exponentFor num den / 2 := abs_value_nearest_sub_le num hden
    _ = 2 ^ exponentFor num den * 2 ^ (52 : ℤ) / 2 ^ 53 := by ring
    _ ≤ num / den / 2 ^ 53 := by gcongr

/-- With a unit that divides it, an integer is not moved. -/
theorem mantissaAt_of_eq (hden : 0 < den) {n k : ℕ} (h : (num : ℚ) / den = n) :
    mantissaAt num den (-k) = n * 2 ^ k := by
  refine roundDiv_eq_of_abs_sub_mul_lt two_pos hden (-k) ?_
  rw [h]
  simp

/-- A quotient that is an integer is not moved, up to `2 ^ 53`. -/
theorem value_nearest_of_eq (hden : 0 < den) {n : ℕ} (hn : 0 < n) (hlt : n < 2 ^ 53)
    (h : (num : ℚ) / den = n) : (nearest num den).value = n := by
  have hnum : 0 < num := by
    rw [Nat.pos_iff_ne_zero]
    intro hzero
    rw [hzero, Nat.cast_zero, zero_div] at h
    exact hn.ne (by exact_mod_cast h)
  have hle := (exponentFor_bounds hnum hden).1
  rw [h] at hle
  generalize hexponent : exponentFor num den = e at hle
  have hlt' : (2 : ℚ) ^ (e + 52) < 2 ^ (53 : ℤ) := hle.trans_lt (by exact_mod_cast hlt)
  have hnonpos := (zpow_lt_zpow_iff_right₀ one_lt_two).1 hlt'
  obtain ⟨k, hk⟩ : ∃ k : ℕ, -e = k := Int.eq_ofNat_of_zero_le (by omega)
  obtain rfl : e = -k := by omega
  rw [nearest, value, hexponent, mantissaAt_of_eq hden h]
  push_cast
  rw [mul_assoc, ← zpow_natCast, ← zpow_add₀ two_ne_zero, add_neg_cancel, zpow_zero, mul_one]

/-- Rounding keeps the order of quotients. -/
theorem value_nearest_mono {num' den' : ℕ} (hnum : 0 < num) (hden : 0 < den) (hnum' : 0 < num')
    (hden' : 0 < den') (h : (num : ℚ) / den ≤ num' / den') :
    (nearest num den).value ≤ (nearest num' den').value := by
  obtain ⟨hlower, hupper⟩ := exponentFor_bounds hnum hden
  obtain ⟨hlower', hupper'⟩ := exponentFor_bounds hnum' hden'
  have he := (zpow_lt_zpow_iff_right₀ one_lt_two).1 ((hlower.trans h).trans_lt hupper')
  have hmono := roundDiv_mul_mono 52 (exponentFor num den) (exponentFor num' den') one_lt_two
    hden hden' hupper.le hlower' (by omega) h
  exact_mod_cast hmono

theorem value_nearest_zero (hden : 0 < den) : (nearest 0 den).value = 0 := by
  have hzero : mantissaAt 0 den (exponentFor 0 den) = 0 := by
    refine roundDiv_eq_of_abs_sub_mul_lt two_pos hden _ ?_
    simp only [Nat.cast_zero, zero_div, zero_mul, sub_zero, abs_zero]
    positivity
  rw [nearest, value, hzero, Nat.cast_zero, zero_mul]

/-- Below `2 ^ 34` the spacing is too small for a fraction of a million to meet an integer. -/
theorem dvd_of_isWhole_nearest (hnum : 0 < num) (hden : 0 < den) (hmillion : den ≤ 1000000)
    (hlt : num < 2 ^ 34 * den) (h : (nearest num den).isWhole = true) : den ∣ num := by
  have hden' : (0 : ℚ) < den := by exact_mod_cast hden
  have hmillion' : (den : ℚ) ≤ 1000000 := by exact_mod_cast hmillion
  obtain ⟨n, hn⟩ := isWhole_iff.1 h
  have hle := (exponentFor_bounds hnum hden).1
  have hsmall : (num : ℚ) / den < 2 ^ (34 : ℤ) := by
    rw [div_lt_iff₀ hden']
    exact_mod_cast hlt
  have hexponent : exponentFor num den ≤ -19 := by
    have := (zpow_lt_zpow_iff_right₀ one_lt_two).1 (hle.trans_lt hsmall)
    omega
  have hnear : |(n : ℚ) - num / den| < 1 / 1000000 := by
    rw [← hn]
    calc |(nearest num den).value - num / den|
        ≤ 2 ^ exponentFor num den / 2 := abs_value_nearest_sub_le num hden
      _ ≤ 2 ^ (-19 : ℤ) / 2 := by gcongr; exact one_le_two
      _ < 1 / 1000000 := by norm_num
  have hdiff : |((n * den - num : ℤ) : ℚ)| < 1 := by
    calc |((n * den - num : ℤ) : ℚ)| = |(n : ℚ) - num / den| * den := by
          rw [← abs_of_pos hden', ← abs_mul, abs_of_pos hden', sub_mul, div_mul_cancel₀ _ hden'.ne']
          push_cast
          rfl
      _ < 1 / 1000000 * den := mul_lt_mul_of_pos_right hnear hden'
      _ ≤ 1 := by linarith
  have hzero : (n * den - num : ℤ) = 0 := by
    rw [← Int.abs_lt_one_iff]
    exact_mod_cast hdiff
  exact ⟨n, by rw [Nat.mul_comm]; exact_mod_cast (sub_eq_zero.1 hzero).symm⟩

end BundlePlan.Number.Binary
