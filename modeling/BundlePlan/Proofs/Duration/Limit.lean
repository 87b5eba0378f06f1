import BundlePlan.Duration.Limit
import BundlePlan.Proofs.Duration.Grammar
import BundlePlan.Proofs.Duration.Seconds

/-!
# The sign of a limit

A limit is refused if it is negative, and no other one is: this is what `KeepsSign` asks for, by the
exact number of seconds that is written. `limitSeconds` looks at the sign after everything below a
microsecond is cut off, so it keeps the sign of zero and of what is at least a microsecond long, and
takes everything between for zero (`limitSeconds_keeps_sign_iff`).
-/

namespace BundlePlan.Duration

/-- What has to come of a text that denotes so many seconds: an error if they are negative, a
positive number of seconds if they are positive, and zero seconds if they are zero. -/
structure KeepsSign (q : ℚ) (r : Except LimitError String) : Prop where
  negative : q < 0 → r = .error .negative
  positive : 0 < q → ∃ t v, r = .ok t ∧ readSeconds? t = some v ∧ 0 < v
  zero : q = 0 → r = .ok "0s"

/-! ### Exact lengths and whole ones -/

theorem Numeral.value_nonneg (n : Numeral) : 0 ≤ n.value := by
  unfold Numeral.value
  positivity

theorem Group.exact_nonneg (g : Group) : 0 ≤ g.exact :=
  mul_nonneg g.number.value_nonneg (Nat.cast_nonneg _)

/-- Cutting off parts of a nanosecond makes nothing longer. -/
theorem sum_nanoseconds_le (gs : List Group) :
    ((gs.map Group.nanoseconds).sum : ℚ) ≤ (gs.map Group.exact).sum := by
  induction gs with
  | nil => simp
  | cons g gs ih =>
    have hfloor : (g.nanoseconds : ℚ) ≤ g.exact := Nat.floor_le g.exact_nonneg
    simp only [List.map_cons, List.sum_cons, Nat.cast_add]
    linarith

theorem Sign.factor_eq (sign : Option Sign) : Sign.factor sign = 1 ∨ Sign.factor sign = -1 := by
  cases sign with
  | none => exact Or.inl rfl
  | some sign =>
    cases sign with
    | plus => exact Or.inl rfl
    | minus => exact Or.inr rfl

namespace Written

variable {w : Written}

/-- A duration of one group. -/
def single (sign : Option Sign) (number : Numeral) (spelling : List Char) (unit : TimeUnit) :
    Written :=
  ⟨sign, [⟨number, spelling, unit⟩]⟩

theorem valid_single {sign : Option Sign} {number : Numeral} {spelling : List Char}
    {unit : TimeUnit} (hrequired : number.required ≠ [])
    (hdigits : (number.before ++ number.after).all Char.isDigit = true)
    (hlength : number.before.length ≤ 4300 ∧ number.after.length ≤ 4300)
    (hunit : (spelling, unit) ∈ TimeUnit.spellings) :
    (single sign number spelling unit).Valid :=
  List.forall_mem_singleton.2
    ⟨⟨hrequired, List.all_eq_true.1 hdigits, hlength.1, hlength.2⟩, hunit⟩

/-- A duration in range is less than `2 ^ 34` seconds long. -/
theorem natAbs_microseconds_lt (hle : w.nanoseconds ≤ 2 ^ 63 - 1) :
    w.microseconds.natAbs < 2 ^ 34 * 1000000 := by
  have hdiv : w.nanoseconds / 1000 ≤ (2 ^ 63 - 1) / 1000 := Nat.div_le_div_right hle
  unfold microseconds
  obtain h | h := Sign.factor_eq w.sign
  · rw [h]
    omega
  · rw [h]
    omega

/-- What is at least a microsecond long has the sign that is written. -/
theorem sign_of_le (hlong : 1000 ≤ w.nanoseconds) :
    0 < w.seconds ∧ 0 < w.microseconds ∨ w.seconds < 0 ∧ w.microseconds < 0 := by
  have hexact : (0 : ℚ) < (w.groups.map Group.exact).sum / 10 ^ 9 := by
    have hlong' : (1000 : ℚ) ≤ ((w.groups.map Group.nanoseconds).sum : ℕ) := by
      exact_mod_cast hlong
    have hsum := sum_nanoseconds_le w.groups
    have hpos : (0 : ℚ) < (w.groups.map Group.exact).sum := by linarith
    positivity
  unfold seconds microseconds
  obtain h | h := Sign.factor_eq w.sign
  · rw [h, Int.cast_one, one_mul]
    exact Or.inl ⟨hexact, by omega⟩
  · rw [h, Int.cast_neg, Int.cast_one, neg_one_mul, neg_div]
    exact Or.inr ⟨by linarith, by omega⟩

theorem microseconds_of_lt (hshort : w.nanoseconds < 1000) : w.microseconds = 0 := by
  rw [microseconds, Nat.div_eq_of_lt hshort, Nat.cast_zero, mul_zero]

end Written

theorem natAbs_microseconds_lt {text : String} {d : Duration} (h : parse text = .ok d) :
    d.microseconds.natAbs < 2 ^ 34 * 1000000 := by
  obtain ⟨w, -, -, hle, hd⟩ := (parse_eq_ok_iff text d).1 h
  rw [hd]
  exact Written.natAbs_microseconds_lt hle

/-! ### Limits -/

theorem limitSeconds_eq_ok_iff {t s : String} :
    limitSeconds t = .ok s ↔ ∃ d, parse t = .ok d ∧ 0 ≤ d.microseconds ∧ s = d.secondsText := by
  unfold limitSeconds
  cases hparse : parse t with
  | error e => simp
  | ok d =>
    by_cases hneg : d.microseconds < 0
    · simp [hneg]
    · simp [hneg, Int.not_lt.1 hneg, eq_comm]

/-- The sign is looked at after everything below a microsecond is cut off. -/
theorem limitSeconds_of_written {text : String} {w : Written} (hw : w.Valid)
    (htext : text.toList = w.text) (hle : w.nanoseconds ≤ 2 ^ 63 - 1) :
    limitSeconds text = if w.microseconds < 0 then .error .negative
      else .ok (secondsText ⟨w.microseconds⟩) := by
  have hparse := (parse_eq_ok_iff text ⟨w.microseconds⟩).2 ⟨w, hw, htext, hle, rfl⟩
  rw [limitSeconds, hparse]

theorem secondsText_zero : secondsText ⟨0⟩ = "0s" := by
  rw [secondsText_of_nonneg le_rfl]
  exact congrArg (fun ds => String.ofList (ds ++ ['s']))
    (secondsMagnitude_of_dvd (Nat.dvd_zero _) (by decide))

/-- What is shorter than a microsecond is taken for zero. -/
theorem limitSeconds_of_lt {text : String} {w : Written} (hw : w.Valid)
    (htext : text.toList = w.text) (hshort : w.nanoseconds < 1000) :
    limitSeconds text = .ok "0s" := by
  rw [limitSeconds_of_written hw htext (by omega), Written.microseconds_of_lt hshort,
    if_neg (lt_irrefl _), secondsText_zero]

theorem readSeconds?_zero : readSeconds? "0s" = some 0 := by
  have h := readSeconds?_of_nonneg (d := ⟨0⟩) le_rfl (by decide)
  rw [secondsText_zero] at h
  simpa [printedSeconds] using h

/-- The sign is kept exactly for zero and for what is at least a microsecond long. Everything
between becomes no limit at all, whatever its sign is. -/
theorem limitSeconds_keeps_sign_iff (text : String) (w : Written) (hw : w.Valid)
    (htext : text.toList = w.text) (hle : w.nanoseconds ≤ 2 ^ 63 - 1) :
    (KeepsSign w.seconds (limitSeconds text) ↔ w.seconds = 0 ∨ 1000 ≤ w.nanoseconds) ∧
      (w.nanoseconds < 1000 → limitSeconds text = .ok "0s") := by
  obtain hshort | hlong := Nat.lt_or_ge w.nanoseconds 1000
  · rw [limitSeconds_of_lt hw htext hshort]
    refine ⟨⟨fun h => Or.inl ?_, fun h => ?_⟩, fun _ => rfl⟩
    · by_contra hne
      obtain hneg | hpos := lt_or_gt_of_ne hne
      · cases h.negative hneg
      · obtain ⟨t, v, ht, hv, hvpos⟩ := h.positive hpos
        obtain rfl : "0s" = t := Except.ok.inj ht
        obtain rfl : 0 = v := Option.some.inj (readSeconds?_zero.symm.trans hv)
        exact lt_irrefl _ hvpos
    · have hq : w.seconds = 0 := h.resolve_right (Nat.not_le.2 hshort)
      exact ⟨fun hneg => absurd hq hneg.ne, fun hpos => absurd hq hpos.ne', fun _ => rfl⟩
  · refine ⟨iff_of_true ?_ (Or.inr hlong), fun hshort => absurd hlong (Nat.not_le.2 hshort)⟩
    obtain ⟨hq, hm⟩ | ⟨hq, hm⟩ := Written.sign_of_le hlong
    · rw [limitSeconds_of_written hw htext hle, if_neg hm.not_gt]
      refine ⟨fun hneg => absurd hneg hq.not_gt, fun _ => ?_, fun hzero => absurd hzero hq.ne'⟩
      exact ⟨_, _, rfl, readSeconds?_of_nonneg hm.le (Written.natAbs_microseconds_lt hle),
        printedSeconds_pos_iff.2 (Int.natAbs_pos.2 hm.ne')⟩
    · rw [limitSeconds_of_written hw htext hle, if_pos hm]
      exact ⟨fun _ => rfl, fun hpos => absurd hpos hq.not_gt, fun hzero => absurd hzero hq.ne⟩

/-- A limit of minus one and a half milliseconds is refused. -/
theorem limitSeconds_keeps_sign_of_minus :
    KeepsSign (Written.single (some .minus) (.pointed ['1'] ['5']) ['m', 's'] .millisecond).seconds
      (limitSeconds "-1.5ms") := by
  have hvalid : (Written.single (some .minus) (.pointed ['1'] ['5']) ['m', 's']
      .millisecond).Valid :=
    Written.valid_single (by decide) (by decide) (by decide) (by decide)
  have hiff := limitSeconds_keeps_sign_iff "-1.5ms" _ hvalid rfl (by decide +kernel)
  exact hiff.1.2 (Or.inr (by decide +kernel))

/-- A limit of minus one nanosecond is not refused. -/
theorem limitSeconds_not_keeps_sign : ¬∀ (text : String) (w : Written), w.Valid →
    text.toList = w.text → w.nanoseconds ≤ 2 ^ 63 - 1 →
      KeepsSign w.seconds (limitSeconds text) := by
  intro h
  have hvalid : (Written.single (some .minus) (.whole ['1']) ['n', 's'] .nanosecond).Valid :=
    Written.valid_single (by decide) (by decide) (by decide) (by decide)
  have hzero : limitSeconds "-1ns" = .ok "0s" := limitSeconds_of_lt hvalid rfl (by decide +kernel)
  have hkeeps := h "-1ns" _ hvalid rfl (by decide +kernel)
  cases hzero.symm.trans (hkeeps.negative (by decide +kernel))

end BundlePlan.Duration
