import BundlePlan.Yaml.Document
import BundlePlan.Yaml.Reading.Document

/-!
# The characters of a document

A document holds printable ASCII and line feeds only, whatever its texts hold. A scalar holds a
line feed only if its text does or its lines may be folded.
-/

namespace BundlePlan.Yaml

/-- What a character of a scalar can be: printable, or a line break of the text or of a fold. -/
def IsScalarChar (m : Margin) (s : List Char) (c : Char) : Prop :=
  isPlainAscii c = true ∨ (c = '\n' ∧ (m.folds = true ∨ '\n' ∈ s))

theorem IsScalarChar.mono {m : Margin} {s s' : List Char} {c : Char} (h : IsScalarChar m s c)
    (hs : ∀ d ∈ s, d ∈ s') : IsScalarChar m s' c :=
  h.imp_right fun ⟨hc, hm⟩ => ⟨hc, hm.imp_right (hs _)⟩

theorem isScalarChar_of_mem {m : Margin} {s : List Char} {c : Char}
    (hs : ∀ d ∈ s, d = '\n' ∨ isPlainAscii d = true) (h : c ∈ s) : IsScalarChar m s c := by
  rcases hs c h with rfl | hc
  · exact Or.inr ⟨rfl, Or.inr h⟩
  · exact Or.inl hc

theorem mem_breakLine {indent : Nat} {c : Char} (h : c ∈ breakLine indent) :
    c = '\n' ∨ c = ' ' := by
  rcases List.mem_cons.1 h with h | h
  · exact Or.inl h
  · exact Or.inr (List.eq_of_mem_replicate h)

/-- A line that is folded. -/
theorem isScalarChar_of_mem_breakLine {m : Margin} {s : List Char} {c : Char}
    (hfolds : m.folds = true) (h : c ∈ breakLine m.indent) : IsScalarChar m s c := by
  rcases mem_breakLine h with rfl | rfl
  · exact Or.inr ⟨rfl, Or.inl hfolds⟩
  · exact Or.inl (by decide)

/-! ### Plain and single-quoted text -/

/-- The characters of texts that need no escapes. -/
theorem plain_of_needsEscapes {s : List Char} (h : needsEscapes s = false) :
    ∀ c ∈ s, c = '\n' ∨ isPlainAscii c = true := by
  intro c hc
  simp only [needsEscapes, Bool.or_eq_false_iff, List.any_eq_false, Bool.and_eq_true, bne_iff_ne,
    ne_eq, Bool.not_eq_true', not_and, Bool.not_eq_false] at h
  exact Decidable.or_iff_not_imp_left.2 (h.1 c hc)

theorem mem_plainFrom {m : Margin} {s : List Char} {c : Char} (afterSpace : Bool) (column : Nat)
    (h : c ∈ plainFrom m afterSpace column s) :
    c ∈ s ∨ (m.folds = true ∧ c ∈ breakLine m.indent) := by
  induction s generalizing afterSpace column with
  | nil => exact absurd h (by simp [plainFrom])
  | cons d s ih =>
    rw [plainFrom] at h
    split at h
    · split at h
      · rename_i hfold
        rcases List.mem_append.1 h with h | h
        · simp only [Bool.and_eq_true] at hfold
          exact Or.inr ⟨hfold.1.1, h⟩
        · exact (ih _ _ h).imp_left (List.mem_cons_of_mem _)
      · rcases List.mem_cons.1 h with rfl | h
        · exact Or.inl List.mem_cons_self
        · exact (ih _ _ h).imp_left (List.mem_cons_of_mem _)
    · rcases List.mem_cons.1 h with rfl | h
      · exact Or.inl List.mem_cons_self
      · exact (ih _ _ h).imp_left (List.mem_cons_of_mem _)

theorem isScalarChar_plain {m : Margin} {s : List Char} {c : Char}
    (hs : ∀ d ∈ s, d = '\n' ∨ isPlainAscii d = true) (h : c ∈ plain m s) : IsScalarChar m s c := by
  rcases mem_plainFrom _ _ h with h | ⟨hfolds, h⟩
  · exact isScalarChar_of_mem hs h
  · exact isScalarChar_of_mem_breakLine hfolds h

theorem isScalarChar_singleFrom {m : Margin} {s : List Char} {c : Char}
    (hs : ∀ d ∈ s, d = '\n' ∨ isPlainAscii d = true) (previous : Char) (column : Nat)
    (h : c ∈ singleFrom m previous column s) : IsScalarChar m s c := by
  induction s generalizing previous column with
  | nil => exact absurd h (by simp [singleFrom])
  | cons d s ih =>
    have ih : ∀ previous column, c ∈ singleFrom m previous column s → IsScalarChar m (d :: s) c :=
      fun previous column h =>
        (ih (fun e he => hs e (List.mem_cons_of_mem _ he)) previous column h).mono
          fun e he => List.mem_cons_of_mem _ he
    have hd : IsScalarChar m (d :: s) d := isScalarChar_of_mem hs List.mem_cons_self
    have hspace : IsScalarChar m (d :: s) ' ' := Or.inl (by decide)
    rw [singleFrom] at h
    split at h
    · split at h
      · rename_i hfold
        simp only [Bool.and_eq_true] at hfold
        rcases List.mem_append.1 h with h | h
        · exact isScalarChar_of_mem_breakLine hfold.1.1 h
        · exact ih _ _ h
      · rcases List.mem_cons.1 h with rfl | h
        · exact hd
        · exact ih _ _ h
    · split at h
      · rename_i hbreak
        subst hbreak
        rcases List.mem_append.1 h with h | h
        · rcases List.mem_append.1 h with h | h
          · obtain rfl : c = '\n' := by
              split at h <;> simpa using h
            exact hd
          · obtain rfl : c = ' ' := by
              split at h
              · simp at h
              · exact List.eq_of_mem_replicate h
            exact hspace
        · exact ih _ _ h
      · split at h
        · rcases List.mem_cons.1 h with rfl | h
          · exact Or.inl (by decide)
          · rcases List.mem_cons.1 h with rfl | h
            · exact Or.inl (by decide)
            · exact ih _ _ h
        · rcases List.mem_cons.1 h with rfl | h
          · exact hd
          · exact ih _ _ h

/-! ### Double-quoted text -/

theorem isPlainAscii_upperHexDigit : ∀ d, d < 16 → isPlainAscii (Text.upperHexDigit d) = true := by
  decide

theorem isPlainAscii_hexDigits {digit : Nat → Char}
    (hdigit : ∀ d, d < 16 → isPlainAscii (digit d) = true) (width n : Nat) :
    ∀ c ∈ Text.hexDigits digit width n, isPlainAscii c = true := by
  induction width generalizing n with
  | zero => simp [Text.hexDigits]
  | succ width ih =>
    intro c hc
    rcases List.mem_append.1 hc with hc | hc
    · exact ih _ c hc
    · obtain rfl := List.mem_singleton.1 hc
      exact hdigit _ (Nat.mod_lt _ (by decide))

theorem isPlainAscii_escape? {c : Char} {e : List Char} (he : escape? c = some e) :
    ∀ d ∈ e, isPlainAscii d = true := by
  have hnumber : ∀ letter width, isPlainAscii letter = true →
      ∀ d ∈ '\\' :: letter :: Text.hexDigits Text.upperHexDigit width c.toNat,
        isPlainAscii d = true := by
    intro letter width hletter d hd
    rcases List.mem_cons.1 hd with rfl | hd
    · decide
    · rcases List.mem_cons.1 hd with rfl | hd
      · exact hletter
      · exact isPlainAscii_hexDigits isPlainAscii_upperHexDigit _ _ d hd
  unfold escape? at he
  split at he
  · rename_i letter hshort
    obtain rfl := Option.some.inj he
    have hall : ∀ p ∈ shortEscapes, isPlainAscii p.2 = true := by decide
    obtain ⟨before, after, heq, -⟩ := List.lookup_eq_some_iff.1 hshort
    have hletter := hall (c, letter) (by rw [heq]; simp)
    simpa using ⟨by decide, hletter⟩
  · split at he
    · exact absurd he (by simp)
    · obtain rfl := Option.some.inj he
      unfold Text.numberedEscape
      simp only
      split
      · exact hnumber 'x' 2 (by decide)
      · split
        · exact hnumber 'u' 4 (by decide)
        · exact hnumber 'U' 8 (by decide)

theorem isPlainAscii_of_escape?_none {c : Char} (he : escape? c = none) :
    isPlainAscii c = true := by
  unfold escape? at he
  split at he
  · exact absurd he (by simp)
  · split at he
    · assumption
    · exact absurd he (by simp)

theorem isScalarChar_foldDouble {m : Margin} {s : List Char} {c : Char} {keepsSpace : Bool}
    (hfolds : m.folds = true) (h : c ∈ foldDouble m.indent keepsSpace) : IsScalarChar m s c := by
  rcases List.mem_append.1 h with h | h
  · rcases List.mem_cons.1 h with rfl | h
    · exact Or.inl (by decide)
    · exact isScalarChar_of_mem_breakLine hfolds h
  · cases keepsSpace with
    | true =>
      obtain rfl := List.mem_singleton.1 h
      exact Or.inl (by decide)
    | false => exact absurd h List.not_mem_nil

theorem isScalarChar_doubleFrom {m : Margin} (t s : List Char) {c : Char}
    (isFirst afterEscape : Bool)
    (column : Nat) (h : c ∈ doubleFrom m isFirst afterEscape column s) : IsScalarChar m t c := by
  induction s generalizing isFirst afterEscape column with
  | nil => exact absurd h (by simp [doubleFrom])
  | cons d s ih =>
    rw [doubleFrom] at h
    simp only at h
    split at h
    · rename_i e he
      split at h
      · rename_i hfold
        simp only [Bool.and_eq_true] at hfold
        rcases List.mem_append.1 h with h | h
        · rcases List.mem_append.1 h with h | h
          · exact Or.inl (isPlainAscii_escape? he c h)
          · exact isScalarChar_foldDouble hfold.1.1.1 h
        · exact ih _ _ _ h
      · rcases List.mem_append.1 h with h | h
        · exact Or.inl (isPlainAscii_escape? he c h)
        · exact ih _ _ _ h
    · rename_i he
      split at h
      · rename_i hfold
        simp only [Bool.and_eq_true] at hfold
        rcases List.mem_append.1 h with h | h
        · exact isScalarChar_foldDouble hfold.1.1.1.1 h
        · rcases List.mem_cons.1 h with rfl | h
          · exact Or.inl (isPlainAscii_of_escape?_none he)
          · exact ih _ _ _ h
      · rcases List.mem_cons.1 h with rfl | h
        · exact Or.inl (isPlainAscii_of_escape?_none he)
        · exact ih _ _ _ h

/-! ### Scalars -/

theorem needsEscapes_eq_false {s : List Char} (h : Style.ofText s ≠ .double) :
    needsEscapes s = false := by
  rw [Bool.eq_false_iff]
  intro hs
  exact h (by rw [Style.ofText, if_pos hs])

theorem isScalarChar_textScalar {m : Margin} {s : List Char} {c : Char}
    (h : c ∈ textScalar m s) : IsScalarChar m s c := by
  unfold textScalar at h
  split at h
  · rename_i hstyle
    exact isScalarChar_plain
      (plain_of_needsEscapes (needsEscapes_eq_false (by rw [hstyle]; decide))) h
  · rename_i hstyle
    rcases List.mem_cons.1 h with rfl | h
    · exact Or.inl (by decide)
    · rcases List.mem_append.1 h with h | h
      · exact isScalarChar_singleFrom
          (plain_of_needsEscapes (needsEscapes_eq_false (by rw [hstyle]; decide))) _ _ h
      · obtain rfl := List.mem_singleton.1 h
        exact Or.inl (by decide)
  · rcases List.mem_cons.1 h with rfl | h
    · exact Or.inl (by decide)
    · rcases List.mem_append.1 h with h | h
      · exact isScalarChar_doubleFrom s s _ _ _ h
      · obtain rfl := List.mem_singleton.1 h
        exact Or.inl (by decide)

/-- A scalar whose lines are not folded stays on one line if its text does. -/
theorem newline_not_mem_textScalar {m : Margin} {s : List Char} (hfolds : m.folds = false)
    (hs : '\n' ∉ s) : '\n' ∉ textScalar m s := by
  intro h
  rcases isScalarChar_textScalar h with h | ⟨-, h | h⟩
  · exact absurd h (by decide)
  · rw [hfolds] at h
    exact absurd h (by decide)
  · exact hs h

theorem newline_not_mem_of_isSimpleKey {s : List Char} (h : isSimpleKey s = true) : '\n' ∉ s := by
  simp only [isSimpleKey, Bool.and_eq_true, Bool.not_eq_true', List.any_eq_false] at h
  intro hmem
  exact h.1.2 '\n' hmem (by decide)

end BundlePlan.Yaml
