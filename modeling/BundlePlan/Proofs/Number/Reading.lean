import BundlePlan.Duration.Parse
import BundlePlan.Proofs.Number.Decimal
import BundlePlan.Proofs.Text.Runs

/-!
# Reading numbers

What number a text is: digits with a point or without, and an exponent or none (`unsigned?`). The
general layout of a decimal number is read as its value (`unsigned?_general`), and the digits of an
integer as the integer.
-/

namespace BundlePlan.Number

open Text (Stops)

/-! ### The reader -/

/-- The natural number that digits are. -/
def digits? (s : List Char) : Option ℕ :=
  if s = [] ∨ s.any (!·.isDigit) then none else some (Nat.ofDigitChars 10 s 0)

/-- The exponent that a text is; the empty text is the exponent zero. -/
def exponent? : List Char → Option ℤ
  | [] => some 0
  | 'e' :: '-' :: ds => (digits? ds).map fun (n : ℕ) => -(n : ℤ)
  | 'e' :: '+' :: ds => (digits? ds).map fun (n : ℕ) => (n : ℤ)
  | _ => none

/-- The number that a text without a sign is. -/
def unsigned? (s : List Char) : Option ℚ :=
  let whole := s.takeWhile Char.isDigit
  let (fraction, rest) := Duration.splitFraction (s.dropWhile Char.isDigit)
  if whole = [] then none
  else
    (exponent? rest).map fun (e : ℤ) =>
      (Nat.ofDigitChars 10 (whole ++ fraction) 0 : ℚ) * 10 ^ (e - fraction.length)

/-- The number that a text is. -/
def number? : List Char → Option ℚ
  | '-' :: s => (unsigned? s).map fun q => -q
  | s => unsigned? s

/-! ### Digits -/

theorem digits?_of_isDigit {s : List Char} (hne : s ≠ []) (h : ∀ c ∈ s, c.isDigit = true) :
    digits? s = some (Nat.ofDigitChars 10 s 0) := by
  refine if_neg (not_or.2 ⟨hne, ?_⟩)
  rw [List.any_eq_true]
  intro ⟨c, hc, hnot⟩
  simp [h c hc] at hnot

theorem isDigit_toDigits (n : ℕ) : ∀ c ∈ Nat.toDigits 10 n, c.isDigit = true :=
  fun _ hc => Nat.isDigit_of_mem_toDigits (by decide) (by decide) hc

theorem exponent?_nil : exponent? [] = some 0 := rfl

theorem exponent?_exponentText (e : ℤ) : exponent? (Decimal.exponentText e) = some e := by
  -- a zero in front, if there is one, does not change the number
  have hdigits : ∀ n : ℕ, digits? (if (Nat.toDigits 10 n).length < 2 then '0' :: Nat.toDigits 10 n
      else Nat.toDigits 10 n) = some n := by
    intro n
    split
    · rw [digits?_of_isDigit (List.cons_ne_nil _ _)
        (List.forall_mem_cons.2 ⟨by decide, isDigit_toDigits n⟩)]
      exact congrArg some (Nat.ofDigitChars_ten_toDigits)
    · rw [digits?_of_isDigit Nat.toDigits_ne_nil (isDigit_toDigits n)]
      exact congrArg some (Nat.ofDigitChars_ten_toDigits)
  unfold Decimal.exponentText
  obtain hneg | hnonneg := Int.lt_or_le e 0
  · simp only [if_pos hneg, exponent?, hdigits, Option.map_some]
    congr 1
    omega
  · simp only [if_neg (Int.not_lt.2 hnonneg), exponent?, hdigits, Option.map_some]
    congr 1
    omega

/-- A character that can stand in a number. -/
def IsNumberChar (c : Char) : Prop := c.isDigit = true ∨ c ∈ ['.', 'e', '+', '-']

theorem isNumberChar_of_digits? {s : List Char} {n : ℕ} (h : digits? s = some n) :
    ∀ c ∈ s, IsNumberChar c := by
  intro c hc
  refine Or.inl ?_
  by_contra hnot
  have hany : s.any (!·.isDigit) = true := List.any_eq_true.2 ⟨c, hc, by simpa using hnot⟩
  simp [digits?, hany] at h

theorem isNumberChar_of_exponent? {s : List Char} {e : ℤ} (h : exponent? s = some e) :
    ∀ c ∈ s, IsNumberChar c := by
  have hmark : ∀ c ∈ ['.', 'e', '+', '-'], IsNumberChar c := fun _ hc => Or.inr hc
  unfold exponent? at h
  split at h
  · exact fun c hc => absurd hc List.not_mem_nil
  · obtain ⟨n, hn, -⟩ := Option.map_eq_some_iff.1 h
    exact List.forall_mem_cons.2 ⟨hmark 'e' (by decide),
      List.forall_mem_cons.2 ⟨hmark '-' (by decide), isNumberChar_of_digits? hn⟩⟩
  · obtain ⟨n, hn, -⟩ := Option.map_eq_some_iff.1 h
    exact List.forall_mem_cons.2 ⟨hmark 'e' (by decide),
      List.forall_mem_cons.2 ⟨hmark '+' (by decide), isNumberChar_of_digits? hn⟩⟩
  · cases h

/-- There is nothing else in a number. -/
theorem isNumberChar_of_unsigned? {s : List Char} {q : ℚ} (h : unsigned? s = some q) :
    ∀ c ∈ s, IsNumberChar c := by
  have hrun : ∀ t : List Char, ∀ c ∈ t.takeWhile Char.isDigit, IsNumberChar c :=
    fun t c hc => Or.inl (List.mem_takeWhile_imp hc)
  unfold unsigned? at h
  simp only at h
  split at h
  · cases h
  obtain ⟨e, he, -⟩ := Option.map_eq_some_iff.1 h
  have hrest := isNumberChar_of_exponent? he
  rw [← List.takeWhile_append_dropWhile (p := Char.isDigit) (l := s), List.forall_mem_append]
  refine ⟨hrun s, ?_⟩
  unfold Duration.splitFraction at hrest
  split at hrest
  · next t hdrop =>
    rw [hdrop, ← List.takeWhile_append_dropWhile (p := Char.isDigit) (l := t)]
    exact List.forall_mem_cons.2 ⟨Or.inr (by decide), List.forall_mem_append.2 ⟨hrun t, hrest⟩⟩
  · exact hrest

/-- A number without a sign is read without one. -/
theorem number?_of_unsigned? {s : List Char} {q : ℚ} (h : unsigned? s = some q) :
    number? s = some q := by
  unfold number?
  split
  · simp [unsigned?] at h
  · exact h

/-! ### The general layout -/

theorem exists_dropZeros (ds : List Char) :
    ∃ count, ds = Decimal.dropZeros ds ++ List.replicate count '0' := by
  refine ⟨(ds.reverse.takeWhile (· == '0')).length, ?_⟩
  have hzeros : ds.reverse.takeWhile (· == '0')
      = List.replicate (ds.reverse.takeWhile (· == '0')).length '0' :=
    List.eq_replicate_iff.2 ⟨rfl, fun c hc => by simpa using List.mem_takeWhile_imp hc⟩
  rw [← List.reverse_replicate, ← hzeros, Decimal.dropZeros, ← List.reverse_append,
    List.takeWhile_append_dropWhile, List.reverse_reverse]

/-- An exponent does not go on with the digits before it, and starts no fraction. -/
theorem exponent?_start {s : List Char} {e : ℤ} (h : exponent? s = some e) :
    Stops Char.isDigit s ∧ Duration.splitFraction s = ([], s) := by
  cases s with
  | nil => exact ⟨Text.stops_nil, rfl⟩
  | cons c s =>
    by_cases hc : c = 'e'
    · rw [hc]
      exact ⟨Text.stops_cons rfl s, rfl⟩
    · simp [exponent?, hc] at h

/-- Digits with a fraction after them are read as the number that all of them are, with the point in
its place. The zeros that the fraction leaves out do not count. -/
theorem unsigned?_fraction {whole ds exponent : List Char} {e : ℤ} (hne : whole ≠ [])
    (hdigits : ∀ c ∈ whole ++ ds, c.isDigit = true) (he : exponent? exponent = some e) :
    unsigned? (whole ++ (Decimal.fraction ds ++ exponent))
      = some ((Nat.ofDigitChars 10 (whole ++ ds) 0 : ℚ) * 10 ^ (e - ds.length)) := by
  obtain ⟨hwhole, hds⟩ := List.forall_mem_append.1 hdigits
  obtain ⟨count, hcount⟩ := exists_dropZeros ds
  obtain ⟨hstop, hsplit⟩ := exponent?_start he
  -- the number with and without the zeros at its end
  have hvalue : (Nat.ofDigitChars 10 (whole ++ ds) 0 : ℚ) * 10 ^ (e - ds.length)
      = Nat.ofDigitChars 10 (whole ++ Decimal.dropZeros ds) 0
        * 10 ^ (e - (Decimal.dropZeros ds).length) := by
    generalize Decimal.dropZeros ds = kept at hcount ⊢
    rw [hcount, ← List.append_assoc, Nat.ofDigitChars_append, Nat.ofDigitChars_replicate_zero,
      List.length_append, List.length_replicate, mul_comm (10 ^ count)]
    push_cast
    rw [mul_assoc, ← zpow_natCast, ← zpow_add₀ (by norm_num)]
    congr 2
    omega
  rw [hvalue, unsigned?]
  cases hkept : Decimal.dropZeros ds with
  | nil =>
    have hfraction : Decimal.fraction ds = [] := by rw [Decimal.fraction, hkept]
    rw [hfraction, List.nil_append, Text.takeWhile_run hwhole hstop,
      Text.dropWhile_run hwhole hstop, hsplit]
    simp [hne, he]
  | cons d rest =>
    have hfraction : Decimal.fraction ds = '.' :: (d :: rest) := by rw [Decimal.fraction, hkept]
    have hrun : ∀ c ∈ d :: rest, c.isDigit = true := by
      intro c hc
      refine hds c ?_
      rw [hcount, hkept]
      exact List.mem_append_left _ hc
    have hpoint : Stops Char.isDigit ('.' :: ((d :: rest) ++ exponent)) := Text.stops_cons rfl _
    rw [hfraction, List.cons_append, Text.takeWhile_run hwhole hpoint,
      Text.dropWhile_run hwhole hpoint, Duration.splitFraction, Text.takeWhile_run hrun hstop,
      Text.dropWhile_run hrun hstop]
    simp [hne, he]

/-- The digits of an integer are read as the integer. -/
theorem unsigned?_toDigits (n : ℕ) : unsigned? (Nat.toDigits 10 n) = some (n : ℚ) := by
  have hdigits : ∀ c ∈ Nat.toDigits 10 n ++ [], c.isDigit = true := by
    rw [List.append_nil]
    exact isDigit_toDigits n
  have h := unsigned?_fraction Nat.toDigits_ne_nil hdigits exponent?_nil
  simpa [Decimal.fraction, Decimal.dropZeros, Nat.ofDigitChars_ten_toDigits] using h

theorem length_toDigits {d : Decimal} (h : d.Normal) :
    (Nat.toDigits 10 d.coefficient).length = d.places := by
  have hle : ∀ {k : ℕ}, 0 < k →
      ((Nat.toDigits 10 d.coefficient).length ≤ k ↔ d.coefficient < 10 ^ k) :=
    Nat.length_toDigits_le_iff (by decide)
  have hplaces := h.places_pos
  refine le_antisymm ((hle hplaces).2 h.upper) ?_
  by_contra hlt
  have hpos : 0 < (Nat.toDigits 10 d.coefficient).length := Nat.length_toDigits_pos
  have hsmall := (hle (by omega : 0 < d.places - 1)).1 (by omega)
  exact absurd h.lower (Nat.not_le.2 hsmall)

/-- Digits that are cut in two, with a fraction after the first part, and with an exponent or
without, are the number that all of them are with the point at the cut. -/
theorem unsigned?_cut {n cut : ℕ} (hcut : 0 < cut) {exponent : List Char} {e : ℤ}
    (he : exponent? exponent = some e) :
    unsigned? ((Nat.toDigits 10 n).take cut ++ (Decimal.fraction ((Nat.toDigits 10 n).drop cut)
        ++ exponent))
      = some ((n : ℚ) * 10 ^ (e - ((Nat.toDigits 10 n).length - cut : ℕ))) := by
  have hne : (Nat.toDigits 10 n).take cut ≠ [] := by
    simp [hcut.ne', Nat.toDigits_ne_nil]
  rw [unsigned?_fraction hne (by rw [List.take_append_drop]; exact isDigit_toDigits n) he,
    List.take_append_drop, Nat.ofDigitChars_ten_toDigits, List.length_drop]

/-- The general layout is read as the value. -/
theorem unsigned?_general {d : Decimal} (h : d.Normal) : unsigned? d.general = some d.value := by
  have hlength := length_toDigits h
  have hplaces := h.places_pos
  unfold Decimal.general Decimal.value
  simp only
  split
  · rw [List.append_assoc, unsigned?_cut one_pos (exponent?_exponentText d.exponent), hlength]
    congr 3
    omega
  · next hpositional =>
    split
    · next hneg =>
      generalize hzeros : (-d.exponent - 1).toNat = zeros
      have hdigits : ∀ c ∈ ['0'] ++ (List.replicate zeros '0' ++ Nat.toDigits 10 d.coefficient),
          c.isDigit = true := by
        intro c hc
        obtain hc | hc | hc : c = '0' ∨ (zeros ≠ 0 ∧ c = '0') ∨
            c ∈ Nat.toDigits 10 d.coefficient := by simpa using hc
        · rw [hc]
          rfl
        · rw [hc.2]
          rfl
        · exact isDigit_toDigits _ c hc
      have hread := unsigned?_fraction (List.cons_ne_nil _ _) hdigits exponent?_nil
      rw [List.append_nil, List.singleton_append] at hread
      have hleading : Nat.ofDigitChars 10 ['0'] 0 = 0 := rfl
      rw [hread, Nat.ofDigitChars_append, Nat.ofDigitChars_append, hleading,
        Nat.ofDigitChars_replicate_zero, Nat.mul_zero, Nat.ofDigitChars_ten_toDigits,
        List.length_append, List.length_replicate, hlength]
      congr 3
      omega
    · next hnonneg =>
      have hread := unsigned?_cut (n := d.coefficient) (Nat.succ_pos d.exponent.toNat)
        exponent?_nil
      rw [List.append_nil, hlength] at hread
      rw [hread]
      congr 3
      omega

end BundlePlan.Number
