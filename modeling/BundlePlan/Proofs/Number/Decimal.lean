import BundlePlan.Number.Decimal
import BundlePlan.Proofs.Number.Rounding

/-!
# How near a number with few digits is

`Decimal.significant` finds the place of the first digit (`leadingExponent_bounds`) and rounds to a
multiple of the unit of the last one, so it moves a quotient by half of that unit at most
(`abs_value_significant_sub_le`). A number that has no more digits is found again, even if it comes
with a small error (`value_significant_of_near`).
-/

namespace BundlePlan.Number.Decimal

variable {places num den : ℕ}

/-- The exact value. -/
def value (d : Decimal) : ℚ := d.coefficient * 10 ^ (d.exponent + 1 - d.places)

/-- The coefficient has as many digits as there are places. -/
structure Normal (d : Decimal) : Prop where
  lower : 10 ^ (d.places - 1) ≤ d.coefficient
  upper : d.coefficient < 10 ^ d.places

theorem Normal.places_pos {d : Decimal} (h : d.Normal) : 0 < d.places := by
  obtain ⟨hlower, hupper⟩ := h
  by_contra hzero
  rw [Nat.eq_zero_of_not_pos hzero] at hlower hupper
  omega

theorem Normal.coefficient_pos {d : Decimal} (h : d.Normal) : 0 < d.coefficient :=
  (Nat.pow_pos (by decide)).trans_le h.lower

theorem Normal.value_pos {d : Decimal} (h : d.Normal) : 0 < d.value := by
  have hcoefficient : (0 : ℚ) < d.coefficient := by exact_mod_cast h.coefficient_pos
  unfold value
  positivity

/-! ### The first digit -/

/-- A number lies between two powers of ten that its digits name. -/
theorem digitCount_bounds {n : ℕ} (hn : 0 < n) :
    0 < digitCount n ∧ 10 ^ (digitCount n - 1) ≤ n ∧ n < 10 ^ digitCount n := by
  have hcount : digitCount n = (Nat.toDigits 10 n).length := if_neg hn.ne'
  have hpos : 0 < (Nat.toDigits 10 n).length := Nat.length_toDigits_pos
  have hle : ∀ {k : ℕ}, 0 < k → ((Nat.toDigits 10 n).length ≤ k ↔ n < 10 ^ k) :=
    Nat.length_toDigits_le_iff (by decide)
  rw [hcount]
  refine ⟨hpos, ?_, (hle hpos).1 le_rfl⟩
  obtain hone | hmore := Nat.eq_or_lt_of_le (Nat.succ_le_of_lt hpos)
  · rw [← hone]
    exact hn
  · rw [← not_lt, ← hle (Nat.sub_pos_of_lt hmore)]
    omega

/-- The exponent is that of the first digit. -/
theorem leadingExponent_bounds (hnum : 0 < num) (hden : 0 < den) :
    (10 : ℚ) ^ leadingExponent num den ≤ num / den ∧
      (num : ℚ) / den < 10 ^ (leadingExponent num den + 1) := by
  have hden' : (0 : ℚ) < den := by exact_mod_cast hden
  rw [le_div_iff₀ hden', div_lt_iff₀ hden']
  unfold leadingExponent
  split
  · next hle =>
    obtain ⟨hpos, hlower, hupper⟩ := digitCount_bounds (Nat.div_pos hle hden)
    generalize digitCount (num / den) = count at hpos hlower hupper
    obtain ⟨k, rfl⟩ : ∃ k, count = k + 1 := ⟨count - 1, by omega⟩
    rw [Nat.add_sub_cancel] at hlower
    have hbelow : 10 ^ k * den ≤ num := (Nat.le_div_iff_mul_le hden).1 hlower
    have habove : num < 10 ^ (k + 1) * den := (Nat.div_lt_iff_lt_mul hden).1 hupper
    rw [Nat.cast_succ, add_sub_cancel_right]
    exact ⟨by exact_mod_cast hbelow, by exact_mod_cast habove⟩
  · next hlt =>
    have hquotient : 0 < (den - 1) / num := Nat.div_pos (by omega) hnum
    obtain ⟨hpos, hlower, hupper⟩ := digitCount_bounds hquotient
    generalize digitCount ((den - 1) / num) = count at hpos hlower hupper
    obtain ⟨k, rfl⟩ : ∃ k, count = k + 1 := ⟨count - 1, by omega⟩
    rw [Nat.add_sub_cancel] at hlower
    have hbelow : 10 ^ k * num ≤ den - 1 := (Nat.le_div_iff_mul_le hnum).1 hlower
    have habove : den - 1 < 10 ^ (k + 1) * num := (Nat.div_lt_iff_lt_mul hnum).1 hupper
    have hexponent : -((k + 1 : ℕ) : ℤ) + 1 = -k := by omega
    rw [hexponent, zpow_neg, zpow_neg, zpow_natCast, zpow_natCast,
      inv_mul_le_iff₀ (by positivity), lt_inv_mul_iff₀ (by positivity)]
    exact ⟨by exact_mod_cast (by omega : den ≤ 10 ^ (k + 1) * num),
      by exact_mod_cast (by omega : 10 ^ k * num < den)⟩

/-! ### The coefficient -/

/-- The exponent of the last digit that is kept. -/
def unitExponent (places num den : ℕ) : ℤ := leadingExponent num den + 1 - places

/-- The quotient as a multiple of the unit, rounded. -/
def multiple (places num den : ℕ) : ℕ :=
  roundDiv (num * Nat.pow 10 (-unitExponent places num den).toNat)
    (den * Nat.pow 10 (unitExponent places num den).toNat)

/-- The digits are those of the multiple, unless the rounding carried into a new one. -/
theorem significant_eq (places num den : ℕ) : significant places num den =
    if multiple places num den = 10 ^ places
    then ⟨places, 10 ^ (places - 1), leadingExponent num den + 1⟩
    else ⟨places, multiple places num den, leadingExponent num den⟩ := by
  have hup : (places : ℤ) - 1 - leadingExponent num den = -unitExponent places num den := by
    unfold unitExponent
    omega
  unfold significant
  simp only [hup, neg_neg]
  rfl

theorem places_significant (places num den : ℕ) : (significant places num den).places = places := by
  rw [significant_eq]
  split <;> rfl

/-- Against the unit, the quotient has the asked number of digits. -/
theorem unitExponent_bounds (hplaces : 0 < places) (hnum : 0 < num) (hden : 0 < den) :
    (10 : ℚ) ^ (unitExponent places num den + (places - 1 : ℕ)) ≤ num / den ∧
      (num : ℚ) / den < 10 ^ (unitExponent places num den + places) := by
  obtain ⟨hlower, hupper⟩ := leadingExponent_bounds hnum hden
  have hfirst : unitExponent places num den + (places - 1 : ℕ) = leadingExponent num den := by
    unfold unitExponent
    omega
  have hnext : unitExponent places num den + places = leadingExponent num den + 1 := by
    unfold unitExponent
    omega
  rw [hfirst, hnext]
  exact ⟨hlower, hupper⟩

/-- The multiple has the asked number of digits or is the next power. -/
theorem multiple_bounds (hplaces : 0 < places) (hnum : 0 < num) (hden : 0 < den) :
    10 ^ (places - 1) ≤ multiple places num den ∧ multiple places num den ≤ 10 ^ places := by
  obtain ⟨hlower, hupper⟩ := unitExponent_bounds hplaces hnum hden
  constructor
  · refine pow_le_roundDiv (by decide) hden _ ?_
    rwa [Nat.cast_ofNat]
  · refine roundDiv_le_pow (by decide) hden _ ?_
    rw [Nat.cast_ofNat]
    exact hupper.le

theorem normal_significant (hplaces : 0 < places) (hnum : 0 < num) (hden : 0 < den) :
    (significant places num den).Normal := by
  obtain ⟨hlower, hupper⟩ := multiple_bounds hplaces hnum hden
  rw [significant_eq]
  split
  · exact ⟨le_rfl, Nat.pow_lt_pow_right (by decide) (Nat.sub_one_lt hplaces.ne')⟩
  · next hne => exact ⟨hlower, lt_of_le_of_ne hupper hne⟩

/-- A carry does not change the value. -/
theorem value_significant (hplaces : 0 < places) (num den : ℕ) :
    (significant places num den).value
      = multiple places num den * 10 ^ unitExponent places num den := by
  rw [significant_eq]
  split
  · next hcarry =>
    have hten : (10 : ℚ) ≠ 0 := by norm_num
    rw [value, hcarry, unitExponent]
    push_cast
    rw [← zpow_natCast, ← zpow_natCast, ← zpow_add₀ hten, ← zpow_add₀ hten]
    congr 1
    omega
  · rfl

/-- Rounding moves a quotient by half a unit of the last digit at most. -/
theorem abs_value_significant_sub_le (hplaces : 0 < places) (num : ℕ) (hden : 0 < den) :
    |(significant places num den).value - num / den| ≤ 10 ^ unitExponent places num den / 2 := by
  rw [value_significant hplaces]
  have h := abs_roundDiv_mul_sub_le (by decide : 0 < 10) hden (unitExponent places num den) num
  rw [Nat.cast_ofNat] at h
  exact h

/-- Rounding moves a quotient by a small part of it. -/
theorem abs_value_significant_sub_le_div (hplaces : 0 < places) (hnum : 0 < num) (hden : 0 < den) :
    |(significant places num den).value - num / den| ≤ num / den / (2 * 10 ^ (places - 1)) := by
  have hlower := (unitExponent_bounds hplaces hnum hden).1
  rw [zpow_add₀ (by norm_num), zpow_natCast] at hlower
  calc |(significant places num den).value - num / den|
      ≤ 10 ^ unitExponent places num den / 2 := abs_value_significant_sub_le hplaces num hden
    _ = 10 ^ unitExponent places num den * 10 ^ (places - 1) / (2 * 10 ^ (places - 1)) :=
      (mul_div_mul_right _ _ (by positivity)).symm
    _ ≤ num / den / (2 * 10 ^ (places - 1)) := by gcongr

/-- A multiple of the unit that is near the quotient is found. -/
theorem value_significant_of_abs_sub_lt (hplaces : 0 < places) (hden : 0 < den) {n : ℕ}
    (h : |(num : ℚ) / den - n * 10 ^ unitExponent places num den|
      < 10 ^ unitExponent places num den / 2) :
    (significant places num den).value = n * 10 ^ unitExponent places num den := by
  rw [value_significant hplaces]
  congr 2
  exact roundDiv_eq_of_abs_sub_mul_lt (by decide : 0 < 10) hden _ (by rwa [Nat.cast_ofNat])

/-- Rounding keeps the order of quotients. -/
theorem value_significant_mono {num' den' : ℕ} (hplaces : 0 < places) (hnum : 0 < num)
    (hden : 0 < den) (hnum' : 0 < num') (hden' : 0 < den') (h : (num : ℚ) / den ≤ num' / den') :
    (significant places num den).value ≤ (significant places num' den').value := by
  obtain ⟨hlower, hupper⟩ := unitExponent_bounds hplaces hnum hden
  obtain ⟨hlower', hupper'⟩ := unitExponent_bounds hplaces hnum' hden'
  have hten : (1 : ℚ) < 10 := by norm_num
  have he := (zpow_lt_zpow_iff_right₀ hten).1 ((hlower.trans h).trans_lt hupper')
  obtain ⟨k, rfl⟩ : ∃ k, places = k + 1 := ⟨places - 1, by omega⟩
  rw [value_significant hplaces, value_significant hplaces]
  have hmono := roundDiv_mul_mono k (unitExponent (k + 1) num den)
    (unitExponent (k + 1) num' den') (by decide : 1 < 10) hden hden'
    (by rw [Nat.cast_ofNat]; exact hupper.le) (by rw [Nat.cast_ofNat]; exact hlower') (by omega) h
  rw [Nat.cast_ofNat] at hmono
  exact hmono

/-! ### Numbers with few digits -/

section Near

variable {k : ℕ} {j : ℤ} (hk : k < 10 ^ places) (hfew : 4 * 10 ^ places ≤ 2 ^ 53)
  (hnear : |(num : ℚ) / den - k * 10 ^ j| ≤ k * 10 ^ j / 2 ^ 53)

include hk hfew hnear

/-- The unit is not above the last digit: the next power of ten is too far away. -/
theorem unitExponent_le_of_near (hnum : 0 < num) (hden : 0 < den) :
    unitExponent places num den ≤ j := by
  by_contra hlt
  have hunit : (0 : ℚ) < 10 ^ j := by positivity
  have hpower : (10 : ℚ) ^ places * 10 ^ j ≤ num / den := by
    refine le_trans ?_ (leadingExponent_bounds hnum hden).1
    rw [← zpow_natCast, ← zpow_add₀ (by norm_num)]
    refine zpow_le_zpow_right₀ (by norm_num) ?_
    unfold unitExponent at hlt
    omega
  have hbelow : (k : ℚ) * 10 ^ j ≤ (10 ^ places - 1) * 10 ^ j := by
    have hle : (k : ℚ) + 1 ≤ 10 ^ places := by exact_mod_cast hk
    gcongr
    linarith
  have herror : (k : ℚ) * 10 ^ j / 2 ^ 53 ≤ 10 ^ j / 4 := by
    have hfew' : 4 * (10 : ℚ) ^ places ≤ 2 ^ 53 := by exact_mod_cast hfew
    rw [div_le_div_iff₀ (by positivity) (by norm_num)]
    nlinarith
  have habs := abs_le.1 hnear
  nlinarith

/-- A number that has no more digits than asked for is found, even with a small error. -/
theorem value_significant_of_near (hplaces : 0 < places) (hnum : 0 < num) (hden : 0 < den) :
    (significant places num den).value = k * 10 ^ j := by
  have hle := unitExponent_le_of_near hk hfew hnear hnum hden
  have hupper := (unitExponent_bounds hplaces hnum hden).2
  rw [add_comm, zpow_add₀ (by norm_num), zpow_natCast] at hupper
  generalize hu : unitExponent places num den = u at hle hupper
  obtain ⟨shift, rfl⟩ : ∃ shift : ℕ, j = u + shift := ⟨(j - u).toNat, by omega⟩
  have hmultiple : (k : ℚ) * 10 ^ (u + (shift : ℤ)) = (k * 10 ^ shift : ℕ) * 10 ^ u := by
    rw [zpow_add₀ (by norm_num), zpow_natCast]
    push_cast
    ring
  have hsmall : |(num : ℚ) / den - k * 10 ^ (u + (shift : ℤ))| < 10 ^ u / 2 := by
    have hfew' : 4 * (10 : ℚ) ^ places ≤ 2 ^ 53 := by exact_mod_cast hfew
    have hunit : (0 : ℚ) < 10 ^ u := by positivity
    have habs := abs_le.1 hnear
    generalize (k : ℚ) * 10 ^ (u + (shift : ℤ)) = v at hnear habs ⊢
    have hv : v ≤ 2 * (num / den) := by linarith
    calc |(num : ℚ) / den - v| ≤ v / 2 ^ 53 := hnear
      _ ≤ 2 * (num / den) / 2 ^ 53 := by gcongr
      _ < 2 * (10 ^ places * 10 ^ u) / 2 ^ 53 := by gcongr
      _ = 4 * 10 ^ places * 10 ^ u / 2 / 2 ^ 53 := by ring
      _ ≤ 2 ^ 53 * 10 ^ u / 2 / 2 ^ 53 := by gcongr
      _ = 10 ^ u / 2 := by ring
  rw [hmultiple] at hsmall ⊢
  rw [← hu] at hsmall ⊢
  exact value_significant_of_abs_sub_lt hplaces hden hsmall

end Near

/-- The number is an integer of at most so many digits, with zeros after it. -/
def FewDigits (places n : ℕ) : Prop := ∃ k j, k < 10 ^ places ∧ n = k * 10 ^ j

/-- An integer that is a number with few digits, up to the place of its point, has few digits. -/
theorem Normal.fewDigits {d : Decimal} (h : d.Normal) {e : ℤ} {n : ℕ} (hn : d.value * 10 ^ e = n) :
    FewDigits d.places n := by
  rw [value, mul_assoc, ← zpow_add₀ (by norm_num)] at hn
  generalize d.exponent + 1 - d.places + e = shift at hn
  obtain hnonneg | hneg := le_total 0 shift
  · obtain ⟨j, rfl⟩ := Int.eq_ofNat_of_zero_le hnonneg
    exact ⟨d.coefficient, j, h.upper, by exact_mod_cast hn.symm⟩
  · obtain ⟨j, hj⟩ := Int.eq_ofNat_of_zero_le (Int.neg_nonneg.2 hneg)
    obtain rfl : shift = -j := by omega
    rw [zpow_neg, zpow_natCast, mul_inv_eq_iff_eq_mul₀ (by positivity)] at hn
    have hcoefficient : d.coefficient = n * 10 ^ j := by exact_mod_cast hn
    have hle : n ≤ d.coefficient := hcoefficient ▸ Nat.le_mul_of_pos_right n (by positivity)
    exact ⟨n, 0, hle.trans_lt h.upper, by rw [Nat.pow_zero, Nat.mul_one]⟩

end BundlePlan.Number.Decimal
