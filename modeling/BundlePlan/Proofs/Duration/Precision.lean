import BundlePlan.Proofs.Duration.Limit

/-!
# How precisely seconds are printed

A number of seconds is rounded to 53 bits and, unless that gives an integer, to six digits. For all
durations of less than a billion days this is harmless (`secondsText_is_precise`): a whole number of
seconds is printed as it is, and any other number is printed with its sign and moved by less than
one part in a hundred thousand.

Far out the 53 bits are too few to tell a fraction of a second from a whole one. Durations that can
be written are too short for that, but only just: at `2 ^ 33` seconds neighbouring binary numbers
are almost two microseconds apart, and those durations end before `2 ^ 34` seconds.
-/

namespace BundlePlan.Duration

open Number (Binary Decimal)

variable {m : ℕ}

/-! ### The number that is printed -/

/-- Two roundings together move the number by less than one part in a hundred thousand. -/
theorem abs_writtenSeconds_sub_lt (hm : 0 < m) :
    |writtenSeconds m - m / 1000000| < m / 1000000 / 100000 := by
  have hpos : (0 : ℚ) < m / 1000000 := by
    have : (0 : ℚ) < m := by exact_mod_cast hm
    positivity
  have hbinary := Binary.abs_value_nearest_sub_le_div hm (by decide : 0 < 1000000)
  rw [Nat.cast_ofNat] at hbinary
  generalize (m : ℚ) / 1000000 = q at hpos hbinary ⊢
  unfold writtenSeconds
  split
  · calc |(Binary.nearest m 1000000).value - q| ≤ q / 2 ^ 53 := hbinary
      _ < q / 100000 := by gcongr; norm_num
  · have hdecimal : |(roundedSeconds m).value - (Binary.nearest m 1000000).value|
        ≤ (Binary.nearest m 1000000).value / (2 * 10 ^ 5) := by
      rw [← Binary.num_div_den]
      exact Decimal.abs_value_significant_sub_le_div (by decide) (num_nearest_pos hm)
        (Binary.den_pos _)
    generalize (Binary.nearest m 1000000).value = b at hbinary hdecimal
    have hb := (abs_le.1 hbinary).2
    calc |(roundedSeconds m).value - q|
        ≤ |(roundedSeconds m).value - b| + |b - q| := abs_sub_le _ _ _
      _ ≤ b / (2 * 10 ^ 5) + q / 2 ^ 53 := add_le_add hdecimal hbinary
      _ ≤ (q + q / 2 ^ 53) / (2 * 10 ^ 5) + q / 2 ^ 53 := by gcongr; linarith
      _ < q / 100000 := by linarith

/-! ### Whole seconds -/

theorem toString_eq_ofList (n : ℤ) : toString n
    = String.ofList (if n < 0 then '-' :: Nat.toDigits 10 n.natAbs
        else Nat.toDigits 10 n.natAbs) := by
  rw [Int.toString_eq_repr, Int.repr_eq_if, Nat.repr_eq_ofList_toDigits,
    Nat.repr_eq_ofList_toDigits]
  obtain hneg | hnonneg := Int.lt_or_le n 0
  · have hminus : (-n).toNat = n.natAbs := by omega
    rw [if_neg (Int.not_le.2 hneg), if_pos hneg, hminus, ← List.singleton_append,
      String.ofList_append]
  · have hplain : n.toNat = n.natAbs := by omega
    rw [if_pos hnonneg, if_neg (Int.not_lt.2 hnonneg), hplain]

/-- A whole number of seconds is printed as it is. -/
theorem secondsText_of_dvd {d : Duration} (h : 1000000 ∣ d.microseconds)
    (hlt : d.microseconds.natAbs < 2 ^ 53 * 1000000) :
    d.secondsText = toString (d.microseconds / 1000000) ++ "s" := by
  obtain ⟨n, hn⟩ := h
  have hquotient : d.microseconds / 1000000 = n := by omega
  have hsign : d.microseconds < 0 ↔ n < 0 := by omega
  have hnat : d.microseconds.natAbs / 1000000 = n.natAbs := by omega
  rw [hquotient, toString_eq_ofList, secondsText, secondsMagnitude_of_dvd (by omega) hlt, hnat]
  simp only [hsign, String.ofList_append]

/-! ### Durations that can be written -/

/-- A text for a duration, in microseconds. -/
def inMicroseconds (d : Duration) : Written :=
  .single (if d.microseconds < 0 then some .minus else none)
    (.whole (Nat.toDigits 10 d.microseconds.natAbs)) ['u', 's'] .microsecond

theorem valid_inMicroseconds {d : Duration} (hlt : d.microseconds.natAbs < 10 ^ 16) :
    d.inMicroseconds.Valid := by
  have hle : ∀ {k : ℕ}, 0 < k →
      ((Nat.toDigits 10 d.microseconds.natAbs).length ≤ k ↔ d.microseconds.natAbs < 10 ^ k) :=
    Nat.length_toDigits_le_iff (by decide)
  have hlength : (Nat.toDigits 10 d.microseconds.natAbs).length ≤ 16 := (hle (by decide)).2 hlt
  refine Written.valid_single Nat.toDigits_ne_nil ?_ ⟨hlength.trans (by decide), Nat.zero_le _⟩
    (by decide)
  rw [List.all_eq_true, Numeral.before, Numeral.after, List.append_nil]
  exact Number.isDigit_toDigits _

theorem nanoseconds_inMicroseconds (d : Duration) :
    d.inMicroseconds.nanoseconds = d.microseconds.natAbs * 1000 := by
  have hgroup : Group.nanoseconds ⟨.whole (Nat.toDigits 10 d.microseconds.natAbs), ['u', 's'],
      .microsecond⟩ = d.microseconds.natAbs * 1000 := by
    rw [Group.nanoseconds_eq]
    simp [Numeral.before, Numeral.after, TimeUnit.nanoseconds, Nat.ofDigitChars_ten_toDigits]
  simpa [inMicroseconds, Written.single, Written.nanoseconds] using hgroup

theorem microseconds_inMicroseconds (d : Duration) :
    d.inMicroseconds.microseconds = d.microseconds := by
  rw [Written.microseconds, nanoseconds_inMicroseconds, Nat.mul_div_cancel _ (by decide)]
  unfold inMicroseconds Written.single
  split
  · rw [Sign.factor]
    omega
  · rw [Sign.factor]
    omega

/-- Just the durations up to a count of nanoseconds in 63 bits can be written. -/
theorem exists_text_iff (d : Duration) :
    (∃ text, parse text = .ok d) ↔ d.microseconds.natAbs ≤ (2 ^ 63 - 1) / 1000 := by
  constructor
  · intro ⟨text, htext⟩
    obtain ⟨w, -, -, hle, hd⟩ := (parse_eq_ok_iff text d).1 htext
    have hdiv : w.nanoseconds / 1000 ≤ (2 ^ 63 - 1) / 1000 := Nat.div_le_div_right hle
    rw [hd, Written.microseconds]
    obtain h | h := Sign.factor_eq w.sign
    · rw [h]
      omega
    · rw [h]
      omega
  · intro hle
    have hnanoseconds := nanoseconds_inMicroseconds d
    exact ⟨String.ofList d.inMicroseconds.text, (parse_eq_ok_iff _ d).2 ⟨d.inMicroseconds,
      valid_inMicroseconds (by omega), String.toList_ofList, by omega,
      (microseconds_inMicroseconds d).symm⟩⟩

/-! ### Precision -/

/-- A duration other than zero is printed as a number with its sign, not far away. -/
theorem exists_near_secondsText {d : Duration} (hne : d.microseconds ≠ 0) :
    ∃ v, readSeconds? d.secondsText = some v ∧ v ≠ 0 ∧ (v < 0 ↔ d.microseconds < 0) ∧
      |v - d.microseconds / 1000000| < |(d.microseconds / 1000000 : ℚ)| / 100000 := by
  have hm : 0 < d.microseconds.natAbs := by omega
  have hread := readSeconds?_secondsText d
  have hnear := abs_writtenSeconds_sub_lt hm
  have hq : (0 : ℚ) < d.microseconds.natAbs / 1000000 := by
    have : (0 : ℚ) < d.microseconds.natAbs := by exact_mod_cast hm
    positivity
  -- an error of less than the number itself leaves its sign
  have hv : 0 < writtenSeconds d.microseconds.natAbs := by
    have hlower := (abs_lt.1 hnear).1
    linarith
  obtain hneg | hnonneg := Int.lt_or_le d.microseconds 0
  · have hcast : (d.microseconds : ℚ) = -(d.microseconds.natAbs : ℕ) := by
      rw [← Int.cast_natCast, Int.ofNat_natAbs_of_nonpos hneg.le, Int.cast_neg, neg_neg]
    rw [if_pos hneg] at hread
    refine ⟨_, hread, neg_ne_zero.2 hv.ne', iff_of_true (neg_lt_zero.2 hv) hneg, ?_⟩
    rwa [hcast, neg_div, neg_sub_neg, abs_sub_comm, abs_neg, abs_of_pos hq]
  · have hcast : (d.microseconds : ℚ) = (d.microseconds.natAbs : ℕ) := by
      rw [← Int.cast_natCast, Int.natAbs_of_nonneg hnonneg]
    rw [if_neg (Int.not_lt.2 hnonneg)] at hread
    refine ⟨_, hread, hv.ne', iff_of_false hv.not_gt (Int.not_lt.2 hnonneg), ?_⟩
    rwa [hcast, abs_of_pos hq]

/-- A duration of less than a billion days is printed as a number of seconds: exactly if they are
whole, and otherwise as a number that is not zero, has the right sign and is less than one part in a
hundred thousand away. For the durations that can be written, the binary number in between is an
integer exactly if the number of seconds is. -/
theorem secondsText_is_precise (d : Duration)
    (hlt : d.microseconds.natAbs < 10 ^ 9 * 86400 * 1000000) :
    (1000000 ∣ d.microseconds → d.secondsText = toString (d.microseconds / 1000000) ++ "s") ∧
    (¬1000000 ∣ d.microseconds → ∃ v, readSeconds? d.secondsText = some v ∧ v ≠ 0 ∧
      (v < 0 ↔ d.microseconds < 0) ∧
      |v - d.microseconds / 1000000| < |(d.microseconds / 1000000 : ℚ)| / 100000) ∧
    ((∃ text, parse text = .ok d) ↔ d.microseconds.natAbs ≤ (2 ^ 63 - 1) / 1000) ∧
    (d.microseconds.natAbs ≤ (2 ^ 63 - 1) / 1000 →
      ((Binary.nearest d.microseconds.natAbs 1000000).isWhole = true ↔
        1000000 ∣ d.microseconds)) := by
  refine ⟨fun h => secondsText_of_dvd h (by omega), fun h => exists_near_secondsText (by omega),
    exists_text_iff d, fun hle => ?_⟩
  rw [isWhole_nearest_iff (by omega)]
  omega

/-- At `2 ^ 33` seconds a single microsecond more is not lost, and the sign is not either. -/
theorem secondsText_is_precise_of_far :
    (Binary.nearest 8589934592000001 1000000).isWhole = false ∧
      ∃ v, readSeconds? (secondsText ⟨-8589934592000001⟩) = some v ∧ v < 0 := by
  obtain ⟨-, hfraction, -, hwhole⟩ :=
    secondsText_is_precise ⟨-8589934592000001⟩ (by decide)
  obtain ⟨v, hread, -, hsign, -⟩ := hfraction (by decide)
  exact ⟨Bool.eq_false_iff.2 (mt (hwhole (by decide)).1 (by decide)), v, hread,
    hsign.2 (by decide)⟩

end BundlePlan.Duration
