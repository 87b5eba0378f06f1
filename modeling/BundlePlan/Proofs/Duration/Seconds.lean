import BundlePlan.Duration.Seconds
import BundlePlan.Proofs.Number.Binary
import BundlePlan.Proofs.Number.Reading

/-!
# The number of seconds that is printed

What `secondsText` says when it is read again: an integer if rounding to 53 bits gives one, and
otherwise the number rounded to six digits (`writtenSeconds`). For durations that can be written the
integers are just the whole numbers of seconds (`printedSeconds`). What is printed is the number
that was meant exactly if that has no more than six digits (`printedSeconds_eq_iff`). Rounding keeps
the order of durations as long as both or neither are rounded (`printedSeconds_mono`).
-/

namespace BundlePlan.Duration

open Number (Binary Decimal IsNumberChar number? unsigned?)

variable {m : ℕ}

/-- The number of seconds of so many microseconds, rounded twice. -/
def roundedSeconds (m : ℕ) : Decimal :=
  let b := Binary.nearest m 1000000
  Decimal.significant secondsDigits b.num b.den

/-- The number that is printed for so many microseconds, whole seconds or not. -/
def writtenSeconds (m : ℕ) : ℚ :=
  if (Binary.nearest m 1000000).isWhole then (Binary.nearest m 1000000).value
  else (roundedSeconds m).value

/-- The number that is printed for so many microseconds, if that many can be written. -/
def printedSeconds (m : ℕ) : ℚ :=
  if 1000000 ∣ m then (m / 1000000 : ℕ) else (roundedSeconds m).value

/-- Whether so many microseconds are a whole number of seconds or have six digits at most. -/
def PrintsExactly (m : ℕ) : Prop := 1000000 ∣ m ∨ Decimal.FewDigits secondsDigits m

/-- The number of seconds that a text with the unit `s` is. -/
def readSeconds? (text : String) : Option ℚ :=
  match text.toList.reverse with
  | 's' :: ds => number? ds.reverse
  | _ => none

/-! ### Whole seconds and fractions -/

theorem pos_of_not_dvd (h : ¬1000000 ∣ m) : 0 < m :=
  Nat.pos_of_ne_zero fun hzero => h (hzero ▸ Nat.dvd_zero _)

/-- A whole number of seconds is not rounded. -/
theorem value_nearest_of_dvd (h : 1000000 ∣ m) (hlt : m < 2 ^ 53 * 1000000) :
    (Binary.nearest m 1000000).value = (m / 1000000 : ℕ) := by
  obtain ⟨n, rfl⟩ := h
  rw [Nat.mul_div_cancel_left n (by decide)]
  obtain rfl | hn := Nat.eq_zero_or_pos n
  · rw [Nat.mul_zero, Binary.value_nearest_zero (by decide), Nat.cast_zero]
  · refine Binary.value_nearest_of_eq (by decide) hn (by omega) ?_
    rw [Nat.cast_mul, mul_div_cancel_left₀ _ (by norm_num)]

theorem secondsMagnitude_of_dvd (h : 1000000 ∣ m) (hlt : m < 2 ^ 53 * 1000000) :
    secondsMagnitude m = Nat.toDigits 10 (m / 1000000) := by
  have hvalue := value_nearest_of_dvd h hlt
  simp only [secondsMagnitude, Binary.isWhole_iff.2 ⟨_, hvalue⟩, if_true,
    Binary.num_div_den_eq hvalue]

/-- Of the seconds that can be written, a fraction is not rounded to an integer. -/
theorem isWhole_nearest_iff (hlt : m < 2 ^ 34 * 1000000) :
    (Binary.nearest m 1000000).isWhole = true ↔ 1000000 ∣ m := by
  constructor
  · intro h
    obtain rfl | hm := Nat.eq_zero_or_pos m
    · exact Nat.dvd_zero _
    · exact Binary.dvd_of_isWhole_nearest hm (by decide) le_rfl hlt h
  · intro h
    exact Binary.isWhole_iff.2 ⟨_, value_nearest_of_dvd h (by omega)⟩

theorem writtenSeconds_eq (hlt : m < 2 ^ 34 * 1000000) : writtenSeconds m = printedSeconds m := by
  unfold writtenSeconds printedSeconds
  simp only [isWhole_nearest_iff hlt]
  split
  · next h => exact value_nearest_of_dvd h (by omega)
  · rfl

/-- What is rounded to six digits is not zero. -/
theorem num_nearest_pos (hm : 0 < m) : 0 < (Binary.nearest m 1000000).num := by
  have hnear := abs_le.1 (Binary.abs_value_nearest_sub_le_div hm (by decide : 0 < 1000000))
  have hquotient : (0 : ℚ) < m / (1000000 : ℕ) := by
    have : (0 : ℚ) < m := by exact_mod_cast hm
    positivity
  rw [Nat.pos_iff_ne_zero]
  intro hzero
  rw [← Binary.num_div_den, hzero, Nat.cast_zero, zero_div] at hnear
  linarith

theorem normal_roundedSeconds (hm : 0 < m) : (roundedSeconds m).Normal :=
  Decimal.normal_significant (by decide) (num_nearest_pos hm) (Binary.den_pos _)

/-! ### What is read again -/

theorem unsigned?_secondsMagnitude (m : ℕ) :
    unsigned? (secondsMagnitude m) = some (writtenSeconds m) := by
  unfold writtenSeconds secondsMagnitude
  simp only
  split
  · next hwhole =>
    obtain ⟨n, hn⟩ := Binary.isWhole_iff.1 hwhole
    rw [Binary.num_div_den_eq hn, hn]
    exact Number.unsigned?_toDigits n
  · next hfraction =>
    have hm : 0 < m := by
      rw [Nat.pos_iff_ne_zero]
      rintro rfl
      exact hfraction ((isWhole_nearest_iff (by decide)).2 (Nat.dvd_zero _))
    exact Number.unsigned?_general (normal_roundedSeconds hm)

/-- A duration that is not negative is printed as a number with the unit. -/
theorem secondsText_of_nonneg {d : Duration} (hd : 0 ≤ d.microseconds) :
    d.secondsText = String.ofList (secondsMagnitude d.microseconds.natAbs ++ ['s']) := by
  simp only [secondsText, if_neg (Int.not_lt.2 hd)]

/-- A negative duration is printed with a minus sign, and read again with it. -/
theorem readSeconds?_secondsText (d : Duration) :
    readSeconds? d.secondsText = some (if d.microseconds < 0 then
      -writtenSeconds d.microseconds.natAbs else writtenSeconds d.microseconds.natAbs) := by
  have hmagnitude := unsigned?_secondsMagnitude d.microseconds.natAbs
  have hread : number? (if d.microseconds < 0 then '-' :: secondsMagnitude d.microseconds.natAbs
      else secondsMagnitude d.microseconds.natAbs) = some (if d.microseconds < 0 then
        -writtenSeconds d.microseconds.natAbs else writtenSeconds d.microseconds.natAbs) := by
    split
    · rw [number?, hmagnitude]
      rfl
    · exact Number.number?_of_unsigned? hmagnitude
  rw [secondsText, readSeconds?, String.toList_ofList, List.reverse_append]
  simp only [List.reverse_singleton, List.singleton_append, List.reverse_reverse]
  exact hread

theorem readSeconds?_of_nonneg {d : Duration} (hd : 0 ≤ d.microseconds)
    (hlt : d.microseconds.natAbs < 2 ^ 34 * 1000000) :
    readSeconds? d.secondsText = some (printedSeconds d.microseconds.natAbs) := by
  rw [readSeconds?_secondsText, if_neg (Int.not_lt.2 hd), writtenSeconds_eq hlt]

/-- The unit comes after a number. -/
theorem mem_secondsText {d : Duration} (hd : 0 ≤ d.microseconds) :
    ∀ c ∈ d.secondsText.toList, IsNumberChar c ∨ c = 's' := by
  rw [secondsText_of_nonneg hd, String.toList_ofList, List.forall_mem_append]
  exact ⟨fun c hc => Or.inl (Number.isNumberChar_of_unsigned? (unsigned?_secondsMagnitude _) c hc),
    fun c hc => Or.inr (List.mem_singleton.1 hc)⟩

/-! ### How exact it is -/

theorem printedSeconds_pos_iff : 0 < printedSeconds m ↔ 0 < m := by
  unfold printedSeconds
  split
  · next h =>
    obtain ⟨n, rfl⟩ := h
    rw [Nat.mul_div_cancel_left n (by decide)]
    simp
  · next h =>
    have hpos := pos_of_not_dvd h
    simp [hpos, (normal_roundedSeconds hpos).value_pos]

/-- A number of six digits is not rounded. -/
theorem value_roundedSeconds {k j : ℕ} (hm : 0 < m) (hk : k < 10 ^ secondsDigits)
    (h : m = k * 10 ^ j) : (roundedSeconds m).value = m / 1000000 := by
  have hshift : (m : ℚ) / 1000000 = k * 10 ^ ((j : ℤ) - 6) := by
    rw [h, zpow_sub₀ (by norm_num)]
    push_cast
    rw [zpow_natCast]
    ring
  have hnear := Binary.abs_value_nearest_sub_le_div hm (by decide : 0 < 1000000)
  rw [← Binary.num_div_den, Nat.cast_ofNat, hshift] at hnear
  rw [hshift]
  exact Decimal.value_significant_of_near hk (by decide) hnear (by decide) (num_nearest_pos hm)
    (Binary.den_pos _)

/-- The printed number is the one that was meant exactly if nothing is lost by rounding. -/
theorem printedSeconds_eq_iff : printedSeconds m * 1000000 = m ↔ PrintsExactly m := by
  unfold printedSeconds PrintsExactly
  split
  · next h =>
    obtain ⟨n, rfl⟩ := h
    rw [Nat.mul_div_cancel_left n (by decide)]
    simp [mul_comm]
  · next h =>
    have hpos := pos_of_not_dvd h
    constructor
    · intro hvalue
      have hscaled : (roundedSeconds m).value * 10 ^ (6 : ℤ) = m := by
        rw [← hvalue]
        norm_num
      have hfew := (normal_roundedSeconds hpos).fewDigits hscaled
      rw [roundedSeconds, Decimal.places_significant] at hfew
      exact Or.inr hfew
    · intro hfew
      obtain ⟨k, j, hk, hj⟩ := hfew.resolve_left h
      rw [value_roundedSeconds hpos hk hj]
      exact div_mul_cancel₀ _ (by norm_num)

/-- Printing keeps the order of two whole numbers of seconds and that of two others. Between one of
either kind it can be turned around, because only one of them is rounded. -/
theorem printedSeconds_mono {m' : ℕ} (hkind : 1000000 ∣ m ↔ 1000000 ∣ m') (h : m ≤ m') :
    printedSeconds m ≤ printedSeconds m' := by
  unfold printedSeconds
  by_cases hm : 1000000 ∣ m
  · rw [if_pos hm, if_pos (hkind.1 hm), Nat.cast_le]
    exact Nat.div_le_div_right h
  · have hpos := pos_of_not_dvd hm
    have hpos' : 0 < m' := hpos.trans_le h
    rw [if_neg hm, if_neg (mt hkind.2 hm)]
    refine Decimal.value_significant_mono (by decide) (num_nearest_pos hpos) (Binary.den_pos _)
      (num_nearest_pos hpos') (Binary.den_pos _) ?_
    rw [Binary.num_div_den, Binary.num_div_den]
    exact Binary.value_nearest_mono hpos (by decide) hpos' (by decide) (by gcongr)

end BundlePlan.Duration
